import FigmaDevMcp.Protocol.Reading

set_option autoImplicit false

/-!
# Messages of the plugin

`wire.rs`: how the broker and the plugin read each other's messages.

* `visitMessage`: the members are put aside until the type says how to read them;
* `ReadOperation.read`, `ReadResult.read`: a payload under the name of its operation;
* `PluginToBroker.read`, `BrokerToPlugin.read`: the closed unions of messages.
-/

namespace FigmaDevMcp.Protocol

open Serde Tools

/-- The thirteen operations. -/
inductive ReadTag
  | getMetadata | getSelection | getNodes | searchNodes | getDesignContext | getStyles
  | getVariables | getComponents | getFonts | getDevModeData | getReactions | getMotion
  | getScreenshot
deriving DecidableEq

def readTagWords : List (String × ReadTag) :=
  [("get_metadata", .getMetadata), ("get_selection", .getSelection), ("get_nodes", .getNodes),
    ("search_nodes", .searchNodes), ("get_design_context", .getDesignContext),
    ("get_styles", .getStyles), ("get_variables", .getVariables),
    ("get_components", .getComponents), ("get_fonts", .getFonts),
    ("get_dev_mode_data", .getDevModeData), ("get_reactions", .getReactions),
    ("get_motion", .getMotion), ("get_screenshot", .getScreenshot)]

/-- What the tools read and return: the input and the result of each operation, and the list of
files, with their deserializers. The messages carry them whole. -/
structure Payloads (F : Type) where
  Input : ReadTag → Type
  readInput : ∀ tag, Json F → Except DecodeError (Input tag)
  Result : ReadTag → Type
  readResult : ∀ tag, Json F → Except DecodeError (Result tag)
  ListFilesResult : Type
  readListFiles : Json F → Except DecodeError ListFilesResult

variable {F : Type} (P : Payloads F)

/-! ## Operations and results -/

/-- An operation with its input. -/
structure ReadOperation where
  tag : ReadTag
  input : P.Input tag

/-- An operation with its result. -/
structure ReadResult where
  tag : ReadTag
  result : P.Result tag

/-- The members of an operation. -/
inductive OperationField
  | operation | input
deriving DecidableEq

namespace OperationField

def name : OperationField → String
  | operation => "operation"
  | input => "input"

abbrev Val (F : Type) : OperationField → Type
  | operation => ReadTag
  | input => Json F

def read : ∀ f : OperationField, Json F → Except DecodeError (f.Val F)
  | operation => Json.readWord readTagWords
  | input => .ok

def spec : Spec F OperationField :=
  .ofNodup [operation, input] name (Val F) read true (by intro f; cases f <;> decide) (by decide)

end OperationField

variable {P}

namespace ReadOperation

/-- The input is asked for before the operation is. -/
def build (s : (OperationField.spec (F := F)).Slots) : Except DecodeError (ReadOperation P) := do
  let input ← Spec.require s .input
  let tag ← Spec.require s .operation
  (decodeRaw (P.readInput tag) input).map (⟨tag, ·⟩)

def read : Json F → Except DecodeError (ReadOperation P) :=
  Json.visitMap "a closed read operation" fun members =>
    OperationField.spec.visitMap members >>= build

end ReadOperation

/-- The members of a result. -/
inductive ResultField
  | operation | result
deriving DecidableEq

namespace ResultField

def name : ResultField → String
  | operation => "operation"
  | result => "result"

abbrev Val (F : Type) : ResultField → Type
  | operation => ReadTag
  | result => Json F

def read : ∀ f : ResultField, Json F → Except DecodeError (f.Val F)
  | operation => Json.readWord readTagWords
  | result => .ok

def spec : Spec F ResultField :=
  .ofNodup [operation, result] name (Val F) read true (by intro f; cases f <;> decide) (by decide)

end ResultField

namespace ReadResult

def build (s : (ResultField.spec (F := F)).Slots) : Except DecodeError (ReadResult P) := do
  let result ← Spec.require s .result
  let tag ← Spec.require s .operation
  (decodeRaw (P.readResult tag) result).map (⟨tag, ·⟩)

def read : Json F → Except DecodeError (ReadResult P) :=
  Json.visitMap "a closed read result" fun members => ResultField.spec.visitMap members >>= build

end ReadResult

/-! ## The records of messages -/

/-- A page. -/
structure PageSummary where
  id : PageId
  name : DisplayText

/-- The members of a page. -/
inductive PageSummaryField
  | id | name
deriving DecidableEq

namespace PageSummaryField

def fieldName : PageSummaryField → String
  | id => "id"
  | name => "name"

abbrev Val : PageSummaryField → Type
  | id => PageId
  | name => DisplayText

def read : ∀ f : PageSummaryField, Json F → Except DecodeError f.Val
  | id => readBounded _
  | name => readBounded _

def spec : Spec F PageSummaryField :=
  .ofNodup [id, name] fieldName Val read true (by intro f; cases f <;> decide) (by decide)

end PageSummaryField

namespace PageSummary

def build (s : (PageSummaryField.spec (F := F)).Slots) : Except DecodeError PageSummary := do
  let id ← Spec.require s .id
  let name ← Spec.require s .name
  return ⟨id, name⟩

def read : Json F → Except DecodeError PageSummary :=
  PageSummaryField.spec.readStruct "struct PageSummary" (fun _ => false) build

end PageSummary

/-- What a plugin can do in its host. -/
structure CapabilitySet where
  annotations : Bool
  devResources : Bool
  motion : Bool
  svgStringExport : Bool
  variableCodeSyntax : Bool

/-- The members of the capabilities. -/
inductive CapabilitySetField
  | annotations | devResources | motion | svgStringExport | variableCodeSyntax
deriving DecidableEq

namespace CapabilitySetField

def name : CapabilitySetField → String
  | annotations => "annotations"
  | devResources => "devResources"
  | motion => "motion"
  | svgStringExport => "svgStringExport"
  | variableCodeSyntax => "variableCodeSyntax"

abbrev Val : CapabilitySetField → Type
  | annotations => Bool
  | devResources => Bool
  | motion => Bool
  | svgStringExport => Bool
  | variableCodeSyntax => Bool

def read : ∀ f : CapabilitySetField, Json F → Except DecodeError f.Val
  | annotations => Json.readBool
  | devResources => Json.readBool
  | motion => Json.readBool
  | svgStringExport => Json.readBool
  | variableCodeSyntax => Json.readBool

def spec : Spec F CapabilitySetField :=
  .ofNodup
    [annotations, devResources, motion, svgStringExport, variableCodeSyntax]
    name Val read true (by intro f; cases f <;> decide) (by decide)

end CapabilitySetField

namespace CapabilitySet

/-- A capability that is not told of is not there. -/
def build (s : (CapabilitySetField.spec (F := F)).Slots) : Except DecodeError CapabilitySet :=
  .ok ⟨(s .annotations).getD false, (s .devResources).getD false, (s .motion).getD false,
    (s .svgStringExport).getD false, (s .variableCodeSyntax).getD false⟩

def read : Json F → Except DecodeError CapabilitySet :=
  CapabilitySetField.spec.readStruct "struct CapabilitySet" (fun _ => true) build

end CapabilitySet

/-- What a plugin says first. -/
structure Hello where
  protocolVersion : ProtocolVersion
  connectionId : ConnectionId
  displayName : DisplayText
  fileKey : Option FileKey
  fileName : DisplayText
  currentPage : PageSummary
  editorType : DisplayText
  pluginVersion : DisplayText
  capabilities : CapabilitySet

/-- The members of a hello. -/
inductive HelloField
  | protocolVersion | connectionId | displayName | fileKey | fileName | currentPage | editorType | pluginVersion | capabilities
deriving DecidableEq

namespace HelloField

def name : HelloField → String
  | protocolVersion => "protocolVersion"
  | connectionId => "connectionId"
  | displayName => "displayName"
  | fileKey => "fileKey"
  | fileName => "fileName"
  | currentPage => "currentPage"
  | editorType => "editorType"
  | pluginVersion => "pluginVersion"
  | capabilities => "capabilities"

abbrev Val : HelloField → Type
  | protocolVersion => ProtocolVersion
  | connectionId => ConnectionId
  | displayName => DisplayText
  | fileKey => Option FileKey
  | fileName => DisplayText
  | currentPage => PageSummary
  | editorType => DisplayText
  | pluginVersion => DisplayText
  | capabilities => CapabilitySet

def read : ∀ f : HelloField, Json F → Except DecodeError f.Val
  | protocolVersion => readBounded _
  | connectionId => readConnectionId
  | displayName => readBounded _
  | fileKey => Json.readOption (readBounded _)
  | fileName => readBounded _
  | currentPage => PageSummary.read
  | editorType => readBounded _
  | pluginVersion => readBounded _
  | capabilities => CapabilitySet.read

def spec : Spec F HelloField :=
  .ofNodup
    [protocolVersion, connectionId, displayName, fileKey, fileName, currentPage, editorType,
      pluginVersion, capabilities]
    name Val read true (by intro f; cases f <;> decide) (by decide)

end HelloField

namespace Hello

def build (s : (HelloField.spec (F := F)).Slots) : Except DecodeError Hello := do
  let protocolVersion ← Spec.require s .protocolVersion
  let connectionId ← Spec.require s .connectionId
  let displayName ← Spec.require s .displayName
  let fileName ← Spec.require s .fileName
  let currentPage ← Spec.require s .currentPage
  let editorType ← Spec.require s .editorType
  let pluginVersion ← Spec.require s .pluginVersion
  let capabilities ← Spec.require s .capabilities
  return ⟨protocolVersion, connectionId, displayName, (s .fileKey).getD none, fileName, currentPage,
    editorType, pluginVersion, capabilities⟩

def read : Json F → Except DecodeError Hello :=
  HelloField.spec.readStruct "struct Hello" (· = .fileKey) build

end Hello

/-- How far a read is. -/
structure Progress where
  requestId : RequestId
  completed : Fin (2 ^ 32)
  total : Option (Fin (2 ^ 32))
  message : Option DisplayText

/-- The members of a progress. -/
inductive ProgressField
  | requestId | completed | total | message
deriving DecidableEq

namespace ProgressField

def name : ProgressField → String
  | requestId => "requestId"
  | completed => "completed"
  | total => "total"
  | message => "message"

abbrev Val : ProgressField → Type
  | requestId => RequestId
  | completed => Fin (2 ^ 32)
  | total => Option (Fin (2 ^ 32))
  | message => Option DisplayText

def read : ∀ f : ProgressField, Json F → Except DecodeError f.Val
  | requestId => readBounded _
  | completed => Json.readUnsigned 32
  | total => Json.readOption (Json.readUnsigned 32)
  | message => Json.readOption (readBounded _)

def spec : Spec F ProgressField :=
  .ofNodup [requestId, completed, total, message] name Val read true
    (by intro f; cases f <;> decide) (by decide)

end ProgressField

namespace Progress

def build (s : (ProgressField.spec (F := F)).Slots) : Except DecodeError Progress := do
  let requestId ← Spec.require s .requestId
  let completed ← Spec.require s .completed
  return ⟨requestId, completed, (s .total).getD none, (s .message).getD none⟩

def read : Json F → Except DecodeError Progress :=
  ProgressField.spec.readStruct "struct Progress" (fun f => f = .total ∨ f = .message) build

end Progress

variable (P) in

/-- The result of a read. -/
structure Response where
  requestId : RequestId
  result : ReadResult P

/-- The members of a response. -/
inductive ResponseField
  | requestId | result
deriving DecidableEq

namespace ResponseField

def name : ResponseField → String
  | requestId => "requestId"
  | result => "result"

abbrev Val (P : Payloads F) : ResponseField → Type
  | requestId => RequestId
  | result => ReadResult P

def read : ∀ f : ResponseField, Json F → Except DecodeError (f.Val P)
  | requestId => readBounded _
  | result => ReadResult.read

def spec (P : Payloads F) : Spec F ResponseField :=
  .ofNodup [requestId, result] name (Val P) read true (by intro f; cases f <;> decide) (by decide)

end ResponseField

namespace Response

def build (s : (ResponseField.spec P).Slots) : Except DecodeError (Response P) := do
  let requestId ← Spec.require s .requestId
  let result ← Spec.require s .result
  return ⟨requestId, result⟩

def read : Json F → Except DecodeError (Response P) :=
  (ResponseField.spec P).readStruct "struct Response" (fun _ => false) build

end Response

/-- The failure of a read. -/
structure WireError where
  requestId : RequestId
  error : PluginFailure

/-- The members of a failure. -/
inductive WireErrorField
  | requestId | error
deriving DecidableEq

namespace WireErrorField

def name : WireErrorField → String
  | requestId => "requestId"
  | error => "error"

abbrev Val : WireErrorField → Type
  | requestId => RequestId
  | error => PluginFailure

def read : ∀ f : WireErrorField, Json F → Except DecodeError f.Val
  | requestId => readBounded _
  | error => PluginFailure.read

def spec : Spec F WireErrorField :=
  .ofNodup [requestId, error] name Val read true (by intro f; cases f <;> decide) (by decide)

end WireErrorField

namespace WireError

def build (s : (WireErrorField.spec (F := F)).Slots) : Except DecodeError WireError := do
  let requestId ← Spec.require s .requestId
  let error ← Spec.require s .error
  return ⟨requestId, error⟩

def read : Json F → Except DecodeError WireError :=
  WireErrorField.spec.readStruct "struct WireError" (fun _ => false) build

end WireError

/-- The nonce of a ping and of its pong. -/
structure Pong where
  nonce : Fin (2 ^ 64)

/-- A question whether the plugin is there. -/
structure Ping where
  nonce : Fin (2 ^ 64)

/-- The members of a question and of its answer. -/
inductive NonceField
  | nonce
deriving DecidableEq

namespace NonceField

def name : NonceField → String
  | nonce => "nonce"

abbrev Val : NonceField → Type
  | nonce => Fin (2 ^ 64)

def read : ∀ f : NonceField, Json F → Except DecodeError f.Val
  | nonce => Json.readUnsigned 64

def spec : Spec F NonceField :=
  .ofNodup [nonce] name Val read true (by intro f; cases f; decide) (by decide)

end NonceField

namespace Pong

def build (s : (NonceField.spec (F := F)).Slots) : Except DecodeError Pong := do
  let nonce ← Spec.require s .nonce
  return ⟨nonce⟩

def read : Json F → Except DecodeError Pong :=
  NonceField.spec.readStruct "struct Pong" (fun _ => false) build

end Pong

namespace Ping

def build (s : (NonceField.spec (F := F)).Slots) : Except DecodeError Ping := do
  let nonce ← Spec.require s .nonce
  return ⟨nonce⟩

def read : Json F → Except DecodeError Ping :=
  NonceField.spec.readStruct "struct Ping" (fun _ => false) build

end Ping

/-- The file that a request is for. -/
structure RequestTarget where
  fileKey : Option FileKey

/-- The members of a target. -/
inductive RequestTargetField
  | fileKey
deriving DecidableEq

namespace RequestTargetField

def name : RequestTargetField → String
  | fileKey => "fileKey"

abbrev Val : RequestTargetField → Type
  | fileKey => Option FileKey

def read : ∀ f : RequestTargetField, Json F → Except DecodeError f.Val
  | fileKey => Json.readOption (readBounded _)

def spec : Spec F RequestTargetField :=
  .ofNodup [fileKey] name Val read true (by intro f; cases f; decide) (by decide)

end RequestTargetField

namespace RequestTarget

def build (s : (RequestTargetField.spec (F := F)).Slots) : Except DecodeError RequestTarget :=
  .ok ⟨(s .fileKey).getD none⟩

def read : Json F → Except DecodeError RequestTarget :=
  RequestTargetField.spec.readStruct "struct RequestTarget" (fun _ => true) build

end RequestTarget

variable (P) in

/-- A read that the plugin is asked for. -/
structure Request where
  requestId : RequestId
  deadlineMs : Fin (2 ^ 64)
  target : RequestTarget
  operation : ReadOperation P

/-- The members of a request. -/
inductive RequestField
  | requestId | deadlineMs | target | operation
deriving DecidableEq

namespace RequestField

def name : RequestField → String
  | requestId => "requestId"
  | deadlineMs => "deadlineMs"
  | target => "target"
  | operation => "operation"

abbrev Val (P : Payloads F) : RequestField → Type
  | requestId => RequestId
  | deadlineMs => Fin (2 ^ 64)
  | target => RequestTarget
  | operation => ReadOperation P

def read : ∀ f : RequestField, Json F → Except DecodeError (f.Val P)
  | requestId => readBounded _
  | deadlineMs => Json.readUnsigned 64
  | target => RequestTarget.read
  | operation => ReadOperation.read

def spec (P : Payloads F) : Spec F RequestField :=
  .ofNodup [requestId, deadlineMs, target, operation] name (Val P) read true
    (by intro f; cases f <;> decide) (by decide)

end RequestField

namespace Request

def build (s : (RequestField.spec P).Slots) : Except DecodeError (Request P) := do
  let requestId ← Spec.require s .requestId
  let deadlineMs ← Spec.require s .deadlineMs
  let target ← Spec.require s .target
  let operation ← Spec.require s .operation
  return ⟨requestId, deadlineMs, target, operation⟩

def read : Json F → Except DecodeError (Request P) :=
  (RequestField.spec P).readStruct "struct Request" (fun _ => false) build

end Request

/-- A read that is no longer wanted. -/
structure Cancel where
  requestId : RequestId

/-- The members of a cancellation. -/
inductive CancelField
  | requestId
deriving DecidableEq

namespace CancelField

def name : CancelField → String
  | requestId => "requestId"

abbrev Val : CancelField → Type
  | requestId => RequestId

def read : ∀ f : CancelField, Json F → Except DecodeError f.Val
  | requestId => readBounded _

def spec : Spec F CancelField :=
  .ofNodup [requestId] name Val read true (by intro f; cases f; decide) (by decide)

end CancelField

namespace Cancel

def build (s : (CancelField.spec (F := F)).Slots) : Except DecodeError Cancel := do
  let requestId ← Spec.require s .requestId
  return ⟨requestId⟩

def read : Json F → Except DecodeError Cancel :=
  CancelField.spec.readStruct "struct Cancel" (fun _ => false) build

end Cancel

/-! ## Messages -/

/-- The members of a message, whatever its type. -/
inductive MessageField
  | type | protocolVersion | connectionId | displayName | fileKey | fileName | currentPage
  | editorType | pluginVersion | capabilities | requestId | completed | total | message | result
  | error | nonce | deadlineMs | target | operation
deriving DecidableEq

def messageFieldName : MessageField → String
  | .type => "type"
  | .protocolVersion => "protocolVersion"
  | .connectionId => "connectionId"
  | .displayName => "displayName"
  | .fileKey => "fileKey"
  | .fileName => "fileName"
  | .currentPage => "currentPage"
  | .editorType => "editorType"
  | .pluginVersion => "pluginVersion"
  | .capabilities => "capabilities"
  | .requestId => "requestId"
  | .completed => "completed"
  | .total => "total"
  | .message => "message"
  | .result => "result"
  | .error => "error"
  | .nonce => "nonce"
  | .deadlineMs => "deadlineMs"
  | .target => "target"
  | .operation => "operation"

def MessageField.all : List MessageField :=
  [.type, .protocolVersion, .connectionId, .displayName, .fileKey, .fileName, .currentPage,
    .editorType, .pluginVersion, .capabilities, .requestId, .completed, .total, .message, .result,
    .error, .nonce, .deadlineMs, .target, .operation]

def MessageField.ofName (name : String) : Option MessageField :=
  MessageField.all.find? fun field => messageFieldName field = name

/-- What has been read of a message: its type, and the members that are put aside. -/
structure Buffered (F Tag : Type) where
  tag : Option Tag
  object : DeferredObject F

/-- One member of a message. -/
def bufferMember {Tag : Type} (tags : List (String × Tag)) (s : Buffered F Tag) (m : Serde.Member F) :
    Except DecodeError (Buffered F Tag) :=
  match MessageField.ofName m.1.text with
  | none => .error (.unknownField m.1.text)
  | some .type =>
    if s.tag.isSome then .error (.duplicateField "type")
    else do
      let tag ← Json.readWord tags m.2
      return { s with tag := some tag }
  | some field => do
    let object ← s.object.insert (messageFieldName field) m.2
    return { s with object }

/-- The loop of the two visitors, and the choice by the type after it. -/
def visitMessage {Tag α : Type} (tags : List (String × Tag))
    (choose : Tag → DeferredObject F → Except DecodeError α) (members : List (Serde.Member F)) :
    Except DecodeError α := do
  let s ← members.foldlM (bufferMember tags) ⟨none, .new⟩
  match s.tag with
  | none => .error (.missingField "type")
  | some tag => choose tag s.object

/-- The types of messages of the plugin. -/
inductive PluginMessageTag
  | hello | progress | response | error | pong

def pluginMessageTags : List (String × PluginMessageTag) :=
  [("hello", .hello), ("progress", .progress), ("response", .response), ("error", .error),
    ("pong", .pong)]

variable (P) in

/-- What the plugin sends to the broker. -/
inductive PluginToBroker
  | hello (message : Hello)
  | progress (message : Progress)
  | response (message : Response P)
  | error (message : WireError)
  | pong (message : Pong)

namespace PluginToBroker

def choose (object : DeferredObject F) : PluginMessageTag → Except DecodeError (PluginToBroker P)
  | .hello => (object.decode Hello.read).map .hello
  | .progress => (object.decode Progress.read).map .progress
  | .response => (object.decode Response.read).map .response
  | .error => (object.decode WireError.read).map .error
  | .pong => (object.decode Pong.read).map .pong

def read : Json F → Except DecodeError (PluginToBroker P) :=
  Json.visitMap "a closed plugin-to-broker message" <|
    visitMessage pluginMessageTags fun tag object => choose object tag

end PluginToBroker

/-- The types of messages of the broker. -/
inductive BrokerMessageTag
  | request | cancel | ping

def brokerMessageTags : List (String × BrokerMessageTag) :=
  [("request", .request), ("cancel", .cancel), ("ping", .ping)]

variable (P) in

/-- What the broker sends to the plugin. -/
inductive BrokerToPlugin
  | request (message : Request P)
  | cancel (message : Cancel)
  | ping (message : Ping)

namespace BrokerToPlugin

def choose (object : DeferredObject F) : BrokerMessageTag → Except DecodeError (BrokerToPlugin P)
  | .request => (object.decode Request.read).map .request
  | .cancel => (object.decode Cancel.read).map .cancel
  | .ping => (object.decode Ping.read).map .ping

def read : Json F → Except DecodeError (BrokerToPlugin P) :=
  Json.visitMap "a closed broker-to-plugin message" <|
    visitMessage brokerMessageTags fun tag object => choose object tag

end BrokerToPlugin

end FigmaDevMcp.Protocol

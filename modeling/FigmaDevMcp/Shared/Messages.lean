import FigmaDevMcp.Protocol.Error
import FigmaDevMcp.Shared.Input

set_option autoImplicit false

/-!
# Messages of the plugin

The messages of `protocol.ts` between the broker, the user interface of the plugin and its
controller, on the side of the plugin. `Result` is what a read returns.
-/

namespace FigmaDevMcp.Plugin

open JsValue

/-- A request, without the id that the user interface gives it for the controller. -/
structure Request where
  requestId : JsString
  deadlineMs : ℕ
  fileKey : Option JsString := none
  operation : ReadOperation
deriving DecidableEq

/-- What the broker sends to the plugin. -/
inductive BrokerToPlugin
  | request (request : Request)
  | cancel (requestId : JsString)
  | ping (nonce : ℕ)
deriving DecidableEq

/-- What the UI thread sends to the main thread. -/
inductive ControllerBoundMessage
  | request (controllerRequestId : JsString) (request : Request)
  | cancel (controllerRequestId requestId : JsString)
deriving DecidableEq

/-- The members that a request has in every message it is in. -/
def requestMembers (requestId : JsString) (deadlineMs : ℕ) (fileKey : Option JsString)
    (operation : JsValue) : List Member :=
  member "requestId" (.string requestId) ++ member "deadlineMs" (natural deadlineMs) ++
    member "target" (.object (optional "fileKey" (fileKey.map .string))) ++
    member "operation" operation

/-- The members of a request. -/
def Request.members (r : Request) : List Member :=
  requestMembers r.requestId r.deadlineMs r.fileKey r.operation.toJs

/-- A message of the broker, as it is sent. -/
def BrokerToPlugin.toJs : BrokerToPlugin → JsValue
  | .request r => .object (member "type" (word "request") ++ r.members)
  | .cancel requestId =>
    .object (member "type" (word "cancel") ++ member "requestId" (.string requestId))
  | .ping nonce => .object (member "type" (word "ping") ++ member "nonce" (natural nonce))

/-- A message to the main thread, as it is sent. -/
def ControllerBoundMessage.toJs : ControllerBoundMessage → JsValue
  | .request controllerRequestId r =>
    .object (member "type" (word "request") ++
      member "controllerRequestId" (.string controllerRequestId) ++ r.members)
  | .cancel controllerRequestId requestId =>
    .object (member "type" (word "cancel") ++
      member "controllerRequestId" (.string controllerRequestId) ++
      member "requestId" (.string requestId))

/-- What a plugin can do in its host. -/
structure CapabilitySet where
  annotations : Bool
  devResources : Bool
  motion : Bool
  svgStringExport : Bool
  variableCodeSyntax : Bool
deriving DecidableEq

/-- A page. -/
structure PageIdentity where
  id : JsString
  name : JsString
deriving DecidableEq

/-- What the main thread tells of its file. -/
structure ControllerReady where
  metadataRequestId : JsString
  fileName : JsString
  currentPage : PageIdentity
  editorType : JsString
  pluginVersion : JsString
  capabilities : CapabilitySet
deriving DecidableEq

/-- The error of an item. -/
structure PluginItemFailure where
  index : ℕ
  id : Option JsString
  code : ErrorCode
  retryable : Bool
deriving DecidableEq

/-- Why a read has failed. -/
structure PluginFailure where
  code : ErrorCode
  retryable : Bool
  items : Option (List PluginItemFailure) := none
deriving DecidableEq

/-- How far a read is. -/
structure Progress where
  completed : ℕ
  total : Option ℕ
  message : Option JsString
deriving DecidableEq

/-- What a plugin says first. -/
structure Hello where
  protocolVersion : JsString
  connectionId : JsString
  displayName : JsString
  fileName : JsString
  currentPage : PageIdentity
  editorType : JsString
  pluginVersion : JsString
  capabilities : CapabilitySet
deriving DecidableEq

section

variable (Result : Type)

/-- What the main thread sends to the UI thread. -/
inductive ControllerOutboundMessage
  | controllerReady (ready : ControllerReady)
  | progress (controllerRequestId requestId : JsString) (progress : Progress)
  | response (controllerRequestId requestId : JsString) (result : Result)
  | error (controllerRequestId requestId : JsString) (error : PluginFailure)

/-- What the plugin sends to the broker. -/
inductive PluginToBroker
  | hello (hello : Hello)
  | progress (requestId : JsString) (progress : Progress)
  | response (requestId : JsString) (result : Result)
  | error (requestId : JsString) (error : PluginFailure)
  | pong (nonce : ℕ)

end

end FigmaDevMcp.Plugin

import FigmaDevMcp.Protocol.Wire

set_option autoImplicit false

/-!
# Messages of the frontend

`rpc.rs`, and the calls and results of `wire.rs` that go through the leader. These visitors read
the value of a member before they look whether it came before.

* `BrokerCall.read`, `BrokerResult.read`: a call, and what is answered;
* `FrontendToLeader.read`, `LeaderToFrontend.read`: the messages that carry them.
-/

namespace FigmaDevMcp.Protocol

open Serde Tools

variable {F : Type} {P : Payloads F}

/-! ## Calls and results -/

variable (P) in

/-- An operation that a tool asks for. -/
structure Invocation where
  operation : ReadOperation P

/-- The members of an invocation. -/
inductive InvocationField
  | operation
deriving DecidableEq

namespace InvocationField

def name : InvocationField → String
  | operation => "operation"

abbrev Val (P : Payloads F) : InvocationField → Type
  | operation => ReadOperation P

def read : ∀ f : InvocationField, Json F → Except DecodeError (f.Val P)
  | operation => ReadOperation.read

def spec (P : Payloads F) : Spec F InvocationField :=
  .ofNodup [operation] name (Val P) read true (by intro f; cases f; decide) (by decide)

end InvocationField

namespace Invocation

def build (s : (InvocationField.spec P).Slots) : Except DecodeError (Invocation P) := do
  let operation ← Spec.require s .operation
  return ⟨operation⟩

def read : Json F → Except DecodeError (Invocation P) :=
  (InvocationField.spec P).readStruct "struct Invocation" (fun _ => false) build

end Invocation

variable (P) in

/-- What a frontend asks of the broker. -/
inductive BrokerCall
  | listFiles
  | invoke (connectionId : Option ConnectionId) (invocation : Invocation P)

/-- The kinds of calls. -/
inductive BrokerCallTag
  | listFiles | invoke

def brokerCallTags : List (String × BrokerCallTag) := [("listFiles", .listFiles), ("invoke", .invoke)]

/-- The members of a call, whatever its kind. -/
inductive BrokerCallField
  | call | connectionId | invocation
deriving DecidableEq

namespace BrokerCallField

def name : BrokerCallField → String
  | call => "call"
  | connectionId => "connectionId"
  | invocation => "invocation"

abbrev Val (P : Payloads F) : BrokerCallField → Type
  | call => BrokerCallTag
  | connectionId => ConnectionId
  | invocation => Invocation P

def read : ∀ f : BrokerCallField, Json F → Except DecodeError (f.Val P)
  | call => Json.readWord brokerCallTags
  | connectionId => readConnectionId
  | invocation => Invocation.read

def spec (P : Payloads F) : Spec F BrokerCallField :=
  .ofNodup [call, connectionId, invocation] name (Val P) read false
    (by intro f; cases f <;> decide) (by decide)

end BrokerCallField

namespace BrokerCall

def build (s : (BrokerCallField.spec P).Slots) : Except DecodeError (BrokerCall P) := do
  match ← Spec.require s .call with
  | .listFiles =>
    if (s .connectionId).isSome || (s .invocation).isSome then
      .error (.custom "listFiles call cannot contain invoke fields")
    else .ok .listFiles
  | .invoke => do
    let invocation ← Spec.require s .invocation
    return .invoke (s .connectionId) invocation

def read : Json F → Except DecodeError (BrokerCall P) :=
  Json.visitMap "a closed broker call" fun members =>
    (BrokerCallField.spec P).visitMap members >>= build

end BrokerCall

variable (P) in

/-- What the broker answers to a call. -/
inductive BrokerResult
  | files (result : P.ListFilesResult)
  | invocation (result : ReadResult P)

/-- The kinds of results. -/
inductive BrokerResultTag
  | files | invocation

def brokerResultTags : List (String × BrokerResultTag) :=
  [("files", .files), ("invocation", .invocation)]

/-- The members of a result, whatever its kind. -/
inductive BrokerResultField
  | kind | result
deriving DecidableEq

namespace BrokerResultField

def name : BrokerResultField → String
  | kind => "kind"
  | result => "result"

abbrev Val (F : Type) : BrokerResultField → Type
  | kind => BrokerResultTag
  | result => Json F

def read : ∀ f : BrokerResultField, Json F → Except DecodeError (f.Val F)
  | kind => Json.readWord brokerResultTags
  | result => .ok

def spec : Spec F BrokerResultField :=
  .ofNodup [kind, result] name (Val F) read false (by intro f; cases f <;> decide) (by decide)

end BrokerResultField

namespace BrokerResult

def build (s : (BrokerResultField.spec (F := F)).Slots) : Except DecodeError (BrokerResult P) := do
  let result ← Spec.require s .result
  match ← Spec.require s .kind with
  | .files => (decodeRaw P.readListFiles result).map .files
  | .invocation => (decodeRaw ReadResult.read result).map .invocation

def read : Json F → Except DecodeError (BrokerResult P) :=
  Json.visitMap "a closed broker result" fun members =>
    BrokerResultField.spec.visitMap members >>= build

end BrokerResult

/-! ## Frontend and leader -/

/-- The wrapped `RequestId`: a frontend numbers its own requests. -/
structure RpcRequestId where
  id : RequestId

def RpcRequestId.read (json : Json F) : Except DecodeError RpcRequestId :=
  (readBounded _ json).map (⟨·⟩)

variable (P) in

/-- What a frontend sends to the leader. -/
inductive FrontendToLeader
  | request (rpcRequestId : RpcRequestId) (call : BrokerCall P)
  | cancel (rpcRequestId : RpcRequestId)

/-- The types of these messages. -/
inductive FrontendMessageTag
  | request | cancel

def frontendMessageTags : List (String × FrontendMessageTag) :=
  [("request", .request), ("cancel", .cancel)]

/-- The members of such a message, whatever its type. -/
inductive FrontendMessageField
  | type | rpcRequestId | call
deriving DecidableEq

namespace FrontendMessageField

def name : FrontendMessageField → String
  | type => "type"
  | rpcRequestId => "rpcRequestId"
  | call => "call"

abbrev Val (P : Payloads F) : FrontendMessageField → Type
  | type => FrontendMessageTag
  | rpcRequestId => RpcRequestId
  | call => BrokerCall P

def read : ∀ f : FrontendMessageField, Json F → Except DecodeError (f.Val P)
  | type => Json.readWord frontendMessageTags
  | rpcRequestId => RpcRequestId.read
  | call => BrokerCall.read

def spec (P : Payloads F) : Spec F FrontendMessageField :=
  .ofNodup [type, rpcRequestId, call] name (Val P) read false
    (by intro f; cases f <;> decide) (by decide)

end FrontendMessageField

namespace FrontendToLeader

def build (s : (FrontendMessageField.spec P).Slots) : Except DecodeError (FrontendToLeader P) := do
  let rpcRequestId ← Spec.require s .rpcRequestId
  match ← Spec.require s .type with
  | .request => do
    let call ← Spec.require s .call
    return .request rpcRequestId call
  | .cancel =>
    if (s .call).isSome then .error (.custom "cancel message cannot contain call")
    else .ok (.cancel rpcRequestId)

def read : Json F → Except DecodeError (FrontendToLeader P) :=
  Json.visitMap "a closed frontend-to-leader message" fun members =>
    (FrontendMessageField.spec P).visitMap members >>= build

end FrontendToLeader

/-- How far a call is. -/
structure RpcProgress where
  completed : Fin (2 ^ 32)
  total : Option (Fin (2 ^ 32))
  message : Option DisplayText

/-- The members of a progress. -/
inductive RpcProgressField
  | completed | total | message
deriving DecidableEq

namespace RpcProgressField

def name : RpcProgressField → String
  | completed => "completed"
  | total => "total"
  | message => "message"

abbrev Val : RpcProgressField → Type
  | completed => Fin (2 ^ 32)
  | total => Option (Fin (2 ^ 32))
  | message => Option DisplayText

def read : ∀ f : RpcProgressField, Json F → Except DecodeError f.Val
  | completed => Json.readUnsigned 32
  | total => Json.readOption (Json.readUnsigned 32)
  | message => Json.readOption (readBounded _)

def spec : Spec F RpcProgressField :=
  .ofNodup [completed, total, message] name Val read true
    (by intro f; cases f <;> decide) (by decide)

end RpcProgressField

namespace RpcProgress

def build (s : (RpcProgressField.spec (F := F)).Slots) : Except DecodeError RpcProgress := do
  let completed ← Spec.require s .completed
  return ⟨completed, (s .total).getD none, (s .message).getD none⟩

def read : Json F → Except DecodeError RpcProgress :=
  RpcProgressField.spec.readStruct "struct RpcProgress" (fun f => f = .total ∨ f = .message) build

end RpcProgress

variable (P) in

/-- What the leader sends to a frontend. -/
inductive LeaderToFrontend
  | progress (rpcRequestId : RpcRequestId) (progress : RpcProgress)
  | response (rpcRequestId : RpcRequestId) (result : BrokerResult P)
  | error (rpcRequestId : RpcRequestId) (error : ToolError)

/-- The types of these messages. -/
inductive LeaderMessageTag
  | progress | response | error

def leaderMessageTags : List (String × LeaderMessageTag) :=
  [("progress", .progress), ("response", .response), ("error", .error)]

/-- The members of such a message, whatever its type. -/
inductive LeaderMessageField
  | type | rpcRequestId | progress | result | error
deriving DecidableEq

namespace LeaderMessageField

def name : LeaderMessageField → String
  | type => "type"
  | rpcRequestId => "rpcRequestId"
  | progress => "progress"
  | result => "result"
  | error => "error"

abbrev Val (P : Payloads F) : LeaderMessageField → Type
  | type => LeaderMessageTag
  | rpcRequestId => RpcRequestId
  | progress => RpcProgress
  | result => BrokerResult P
  | error => ToolError

def read : ∀ f : LeaderMessageField, Json F → Except DecodeError (f.Val P)
  | type => Json.readWord leaderMessageTags
  | rpcRequestId => RpcRequestId.read
  | progress => RpcProgress.read
  | result => BrokerResult.read
  | error => ToolError.read

def spec (P : Payloads F) : Spec F LeaderMessageField :=
  .ofNodup [type, rpcRequestId, progress, result, error] name (Val P) read false
    (by intro f; cases f <;> decide) (by decide)

end LeaderMessageField

namespace LeaderToFrontend

def rejectLeaderFields (present : Bool) (kind : String) : Except DecodeError Unit :=
  if present then .error (.custom (kind ++ " message contains variant-only fields")) else .ok ()

def build (s : (LeaderMessageField.spec P).Slots) : Except DecodeError (LeaderToFrontend P) := do
  let rpcRequestId ← Spec.require s .rpcRequestId
  match ← Spec.require s .type with
  | .progress => do
    rejectLeaderFields ((s .result).isSome || (s .error).isSome) "progress"
    let progress ← Spec.require s .progress
    return .progress rpcRequestId progress
  | .response => do
    rejectLeaderFields ((s .progress).isSome || (s .error).isSome) "response"
    let result ← Spec.require s .result
    return .response rpcRequestId result
  | .error => do
    rejectLeaderFields ((s .progress).isSome || (s .result).isSome) "error"
    let error ← Spec.require s .error
    return .error rpcRequestId error

def read : Json F → Except DecodeError (LeaderToFrontend P) :=
  Json.visitMap "a closed leader-to-frontend message" fun members =>
    (LeaderMessageField.spec P).visitMap members >>= build

end LeaderToFrontend

end FigmaDevMcp.Protocol

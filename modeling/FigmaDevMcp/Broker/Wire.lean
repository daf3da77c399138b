import FigmaDevMcp.Protocol.Error
import FigmaDevMcp.Protocol.Limits

set_option autoImplicit false

/-!
# What the broker exchanges with a plugin

`World` fixes the types the broker only compares or passes on (identifiers and read results) and
the two parameters it reads: the capacity of a socket's outbound channel and the length of an
encoded request. A request stands for its identifier: every invocation draws a fresh one.
-/

namespace FigmaDevMcp

/-- The identifiers, the results and the configuration of one broker. `encodedLen r` is the
length of the encoding of request `r`, `none` when it cannot be encoded. -/
structure World where
  ConnectionId : Type
  SocketId : Type
  RequestId : Type
  ReadResult : Type
  [decConnectionId : DecidableEq ConnectionId]
  [decSocketId : DecidableEq SocketId]
  [decRequestId : DecidableEq RequestId]
  outboundQueue : ℕ
  encodedLen : RequestId → Option ℕ

attribute [instance] World.decConnectionId World.decSocketId World.decRequestId

/-- Numbers as identifiers and results, the production queue, and small requests. -/
abbrev World.numbers : World where
  ConnectionId := ℕ
  SocketId := ℕ
  RequestId := ℕ
  ReadResult := ℕ
  outboundQueue := maxQueue
  encodedLen := fun _ => some 100

/-- The phases that progress can be in. -/
inductive ProgressPhase where
  | queued
  | reading
  | serializing
  | encoding
  | completing
  deriving DecidableEq, Repr

namespace ProgressPhase

/-- A phase as it is sent on. -/
def asStr : ProgressPhase → String
  | queued => "queued"
  | reading => "reading"
  | serializing => "serializing"
  | encoding => "encoding"
  | completing => "completing"

/-- Every other message counts as reading. -/
def fromMessage : Option String → ProgressPhase
  | some "queued" => queued
  | some "serializing" => serializing
  | some "encoding" => encoding
  | some "completing" => completing
  | _ => reading

@[simp] theorem fromMessage_asStr (p : ProgressPhase) : fromMessage (some p.asStr) = p := by
  cases p <;> rfl

end ProgressPhase

/-- The counters and the text of a progress message. -/
structure Progress where
  completed : ℕ
  total : Option ℕ
  message : Option String
  deriving DecidableEq, Repr

/-- Progress as it is sent on to a frontend. -/
structure NormalizedProgress where
  completed : ℕ
  total : Option ℕ
  phase : ProgressPhase
  deriving DecidableEq, Repr

/-- The message of a progress is replaced by the phase that it names. -/
def normalizeProgress (p : Progress) : NormalizedProgress :=
  ⟨p.completed, p.total, .fromMessage p.message⟩

/-- What travels on a socket's outbound channel; heartbeats bypass it. -/
inductive BrokerToPlugin (W : World) where
  | request (r : W.RequestId)
  | cancel (r : W.RequestId)
  deriving DecidableEq

/-- What the plugin sends, as far as the broker acts on it. -/
inductive PluginToBroker (W : World) where
  | hello
  | progress (r : W.RequestId) (p : Progress)
  | response (r : W.RequestId) (result : W.ReadResult)
  | error (r : W.RequestId) (e : ToolError)
  | pong

/-- The request a plugin message is about. -/
def PluginToBroker.requestId? {W : World} : PluginToBroker W → Option W.RequestId
  | .progress r _ | .response r _ | .error r _ => some r
  | .hello | .pong => none

end FigmaDevMcp

import FigmaDevMcp.Lib.Exec
import FigmaDevMcp.Lib.Channel
import FigmaDevMcp.Lib.Table
import FigmaDevMcp.Protocol.Error
import FigmaDevMcp.Broker.Wire

set_option autoImplicit false

/-!
# The leader's side of a frontend connection

`serve_frontend` after its handshake: a loop that reads requests and cancels, forwards progress
and sends results, and one task for each call. An event is one step of the loop, of a task, or
of what a task waits for; `step` interleaves them.

* a call's cancellation token, its task and its broker waiter are one entry of `calls`: the
  loop's table `active` and its set of tasks lose a call in the same step;
* a frame that is being written is the phase `sending`: the tasks run on meanwhile.
-/

namespace FigmaDevMcp

/-- What a frontend sends. A request stands for its identifier. -/
inductive FrontendToLeader (R : Type) where
  | request (r : R)
  | cancel (r : R)
  deriving DecidableEq

/-- What a leader sends to a frontend. -/
inductive LeaderToFrontend (R V : Type) where
  | progress (r : R) (p : Progress)
  | response (r : R) (result : V)
  | error (r : R) (e : ToolError)
  deriving DecidableEq

/-- The identifiers and results of one connection, and which frames fit their encoding. -/
structure RpcWorld where
  RpcRequestId : Type
  BrokerResult : Type
  [decRpcRequestId : DecidableEq RpcRequestId]
  encodesAnswer : LeaderToFrontend RpcRequestId BrokerResult → Bool
  encodesCommand : FrontendToLeader RpcRequestId → Bool

attribute [instance] RpcWorld.decRpcRequestId

/-- Numbers as identifiers and results; every frame can be encoded. -/
abbrev RpcWorld.numbers : RpcWorld where
  RpcRequestId := ℕ
  BrokerResult := ℕ
  encodesAnswer := fun _ => true
  encodesCommand := fun _ => true

/-- What a call ends with. -/
abbrev CallResult (W : RpcWorld) := Except ToolError W.BrokerResult

/-- Where the task of a call stands: in `open`, in its `select!`, waiting for room in the
progress channel, telling the broker to cancel, or returned. -/
inductive TaskPhase (W : RpcWorld) where
  | opening
  | selecting
  | forwarding (f : NormalizedProgress)
  | cancelling
  | finished (result : CallResult W)

/-- A call of the frontend: its task, its token, and the progress and the outcome of its broker
waiter. -/
structure LeaderCall (W : RpcWorld) where
  phase : TaskPhase W
  cancelled : Bool
  frames : Channel NormalizedProgress
  outcome : Option (CallResult W)

/-- The loop of `serve_frontend`. After `ended` it cancels every token, and `joining` it waits
for the tasks. -/
inductive LoopPhase (W : RpcWorld) where
  | selecting
  | sending (m : LeaderToFrontend W.RpcRequestId W.BrokerResult)
  | ended
  | joining
  | returned

/-- The state of a connection at the leader. -/
structure Leader (W : RpcWorld) where
  phase : LoopPhase W
  shutdown : Bool
  calls : Table W.RpcRequestId (LeaderCall W)
  progress : Channel (W.RpcRequestId × NormalizedProgress)
  /-- The frames read and written so far. -/
  received : List (FrontendToLeader W.RpcRequestId)
  sent : List (LeaderToFrontend W.RpcRequestId W.BrokerResult)

/-- What can happen on a connection at the leader. -/
inductive LeaderEvent (W : RpcWorld) where
  | shutdown
  | endShutdown
  | endStream
  | receive (m : FrontendToLeader W.RpcRequestId)
  | recvProgress
  | join (r : W.RpcRequestId)
  | sent
  | sendFailed
  | cancelAll
  | drain (r : W.RpcRequestId)
  | finish
  | opened (r : W.RpcRequestId) (e : Option ToolError)
  | takeResult (r : W.RpcRequestId)
  | takeProgress (r : W.RpcRequestId)
  | forward (r : W.RpcRequestId)
  | takeCancel (r : W.RpcRequestId)
  | cancelDone (r : W.RpcRequestId)
  | emit (r : W.RpcRequestId) (f : NormalizedProgress)
  | settle (r : W.RpcRequestId) (result : CallResult W)

variable {W : RpcWorld}

/-- A call that was just spawned. -/
def LeaderCall.new : LeaderCall W := ⟨.opening, false, .new 8, none⟩

namespace LeaderToFrontend

/-- The final message of a call. -/
def ofResult {R V : Type} (r : R) : Except ToolError V → LeaderToFrontend R V
  | .ok v => .response r v
  | .error e => .error r e

/-- The call a message ends, and how. -/
def terminal {R V : Type} : LeaderToFrontend R V → Option (R × Except ToolError V)
  | .response r v => some (r, .ok v)
  | .error r e => some (r, .error e)
  | .progress _ _ => none

@[simp] theorem terminal_ofResult {R V : Type} (r : R) (result : Except ToolError V) :
    (ofResult r result).terminal = some (r, result) := by
  cases result <;> rfl

end LeaderToFrontend

/-- How the messages of `ms` end the call `r`: the first final one counts. -/
def firstAnswer (r : W.RpcRequestId) (ms : List (LeaderToFrontend W.RpcRequestId W.BrokerResult)) :
    Option (CallResult W) :=
  ms.findSome? fun m => m.terminal.bind fun a => if a.1 = r then some a.2 else none

theorem firstAnswer_append (r : W.RpcRequestId)
    (ms ns : List (LeaderToFrontend W.RpcRequestId W.BrokerResult)) :
    firstAnswer r (ms ++ ns) = (firstAnswer r ms).or (firstAnswer r ns) :=
  List.findSome?_append

theorem firstAnswer_singleton (r : W.RpcRequestId)
    (m : LeaderToFrontend W.RpcRequestId W.BrokerResult) :
    firstAnswer r [m] = m.terminal.bind fun a => if a.1 = r then some a.2 else none := by
  unfold firstAnswer
  rw [List.findSome?_singleton]

/-- A message about another call, or about none, is no answer. -/
theorem firstAnswer_snoc_of_ne {r : W.RpcRequestId}
    {m : LeaderToFrontend W.RpcRequestId W.BrokerResult}
    (h : ∀ q result, m.terminal = some (q, result) → q ≠ r)
    (ms : List (LeaderToFrontend W.RpcRequestId W.BrokerResult)) :
    firstAnswer r (ms ++ [m]) = firstAnswer r ms := by
  rw [firstAnswer_append, firstAnswer_singleton]
  cases hm : m.terminal with
  | none => exact Option.or_none
  | some a =>
      rw [Option.bind_some, if_neg (h a.1 a.2 hm)]
      exact Option.or_none

theorem firstAnswer_eq_none {r : W.RpcRequestId}
    {ms : List (LeaderToFrontend W.RpcRequestId W.BrokerResult)} :
    firstAnswer r ms = none ↔ ∀ m ∈ ms, ∀ result, m.terminal ≠ some (r, result) := by
  rw [firstAnswer, List.findSome?_eq_none_iff]
  refine forall₂_congr fun m _ => ?_
  cases m.terminal with
  | none => simp
  | some a =>
      obtain ⟨q, result⟩ := a
      by_cases hq : q = r <;> simp [hq]

namespace Leader

/-- A connection without calls. -/
def init : Leader W where
  phase := .selecting
  shutdown := false
  calls := ∅
  progress := .new 32
  received := []
  sent := []

/-! ## The loop -/

/-- The loop waits for what comes next. -/
def inLoop (l : Leader W) : Bool :=
  match l.phase with
  | .selecting => true
  | _ => false

/-- The calls are others. -/
def setCalls (l : Leader W) (calls : Table W.RpcRequestId (LeaderCall W)) : Leader W :=
  { l with calls := calls }

/-- A request under an identifier that is still active ends the loop. -/
def receive (l : Leader W) (m : FrontendToLeader W.RpcRequestId) : Option (Leader W) :=
  if l.inLoop then
    let l := { l with received := l.received ++ [m] }
    match m with
    | .request r =>
      if (l.calls.lookup r).isSome then some { l with phase := .ended }
      else some (l.setCalls (l.calls.insert r .new))
    | .cancel r => some (l.setCalls (l.calls.modify r fun c => { c with cancelled := true }))
  else none

/-- Progress that cannot be encoded is skipped. -/
def recvProgress (l : Leader W) : Option (Leader W) :=
  if l.inLoop then
    match l.progress.recv with
    | none => none
    | some ((r, f), progress) =>
      let m := .progress r ⟨f.completed, f.total, some f.phase.asStr⟩
      if W.encodesAnswer m then some { l with progress := progress, phase := .sending m }
      else some { l with progress := progress }
  else none

/-- What the loop does with the result of a call: it is sent, or, when it cannot be encoded, an
error is; when that cannot be encoded either, the loop ends. -/
def answer (r : W.RpcRequestId) (result : CallResult W) : LoopPhase W :=
  if W.encodesAnswer (.ofResult r result) then .sending (.ofResult r result)
  else if W.encodesAnswer (.error r (.new .limitExceeded false)) then
    .sending (.error r (.new .limitExceeded false))
  else .ended

/-- A call that has finished is taken out, and its answer is sent. -/
def join (l : Leader W) (r : W.RpcRequestId) : Option (Leader W) :=
  if l.inLoop then
    match l.calls.lookup r with
    | some ⟨.finished result, _, _, _⟩ =>
      some { l.setCalls (l.calls.erase r) with phase := answer r result }
    | _ => none
  else none

/-- A message has been sent, and the loop goes on. -/
def finishSend (l : Leader W) : Option (Leader W) :=
  match l.phase with
  | .sending m => some { l with phase := .selecting, sent := l.sent ++ [m] }
  | _ => none

/-- A message could not be sent, and the loop ends. -/
def failSend (l : Leader W) : Option (Leader W) :=
  match l.phase with
  | .sending _ => some { l with phase := .ended }
  | _ => none

/-- After the loop all tokens are fired. -/
def cancelAll (l : Leader W) : Option (Leader W) :=
  match l.phase with
  | .ended =>
    some { l.setCalls (l.calls.mapValues fun c => { c with cancelled := true }) with
      phase := .joining }
  | _ => none

/-- A task is joined during the wind-down and its result dropped. -/
def drain (l : Leader W) (r : W.RpcRequestId) : Option (Leader W) :=
  match l.phase, l.calls.lookup r with
  | .joining, some ⟨.finished _, _, _, _⟩ => some (l.setCalls (l.calls.erase r))
  | _, _ => none

/-- The task returns when the last call has been joined. -/
def finish (l : Leader W) : Option (Leader W) :=
  match l.phase with
  | .joining => if l.calls.keys = [] then some { l with phase := .returned } else none
  | _ => none

/-! ## The tasks -/

/-- A call is another one. -/
def setCall (l : Leader W) (r : W.RpcRequestId) (c : LeaderCall W) : Leader W :=
  l.setCalls (l.calls.insert r c)

/-- One step of the task of `r`. -/
def stepCall (l : Leader W) (r : W.RpcRequestId)
    (f : LeaderCall W → Option (LeaderCall W)) : Option (Leader W) :=
  (l.calls.lookup r).bind fun c => (f c).map (l.setCall r)

/-- `open` returns, with an error or without. -/
def opened (e : Option ToolError) (c : LeaderCall W) : Option (LeaderCall W) :=
  match c.phase, e with
  | .opening, none => some { c with phase := .selecting }
  | .opening, some e => some { c with phase := .finished (.error e) }
  | _, _ => none

/-- A call takes its result. -/
def takeResult (c : LeaderCall W) : Option (LeaderCall W) :=
  match c.phase, c.outcome with
  | .selecting, some result => some { c with phase := .finished result }
  | _, _ => none

/-- A call takes the next progress to forward it. -/
def takeProgress (c : LeaderCall W) : Option (LeaderCall W) :=
  match c.phase, c.frames.recv with
  | .selecting, some (f, frames) => some { c with phase := .forwarding f, frames := frames }
  | _, _ => none

/-- The task waits here while the progress channel is full. -/
def forward (l : Leader W) (r : W.RpcRequestId) : Option (Leader W) :=
  match l.calls.lookup r with
  | some ⟨.forwarding f, cancelled, frames, outcome⟩ =>
    match l.progress.trySend (r, f) with
    | .ok progress =>
      some { l.setCall r ⟨.selecting, cancelled, frames, outcome⟩ with progress := progress }
    | .error _ => none
  | _ => none

/-- A call finds its token fired. -/
def takeCancel (c : LeaderCall W) : Option (LeaderCall W) :=
  match c.phase, c.cancelled with
  | .selecting, true => some { c with phase := .cancelling }
  | _, _ => none

/-- A call that was cancelled has told the broker, and ends. -/
def cancelDone (c : LeaderCall W) : Option (LeaderCall W) :=
  match c.phase with
  | .cancelling => some { c with phase := .finished (.error (.new .cancelled false)) }
  | _ => none

/-- The broker passes progress on, as long as the waiter has no outcome and its channel room. -/
def emit (f : NormalizedProgress) (c : LeaderCall W) : Option (LeaderCall W) :=
  match c.phase, c.outcome, c.frames.trySend f with
  | .opening, _, _ => none
  | _, none, .ok frames => some { c with frames := frames }
  | _, _, _ => none

/-- The waiter gets its outcome; a dropped waiter counts as a lost connection. -/
def settle (result : CallResult W) (c : LeaderCall W) : Option (LeaderCall W) :=
  match c.phase, c.outcome with
  | .opening, _ => none
  | _, none => some { c with outcome := some result }
  | _, _ => none

/-- One step of the loop, of a task, or of what a task waits for. -/
def step (l : Leader W) : LeaderEvent W → Option (Leader W)
  | .shutdown => some { l with shutdown := true }
  | .endShutdown => if l.inLoop ∧ l.shutdown = true then some { l with phase := .ended } else none
  | .endStream => if l.inLoop then some { l with phase := .ended } else none
  | .receive m => l.receive m
  | .recvProgress => l.recvProgress
  | .join r => l.join r
  | .sent => l.finishSend
  | .sendFailed => l.failSend
  | .cancelAll => l.cancelAll
  | .drain r => l.drain r
  | .finish => l.finish
  | .opened r e => l.stepCall r (opened e)
  | .takeResult r => l.stepCall r takeResult
  | .takeProgress r => l.stepCall r takeProgress
  | .forward r => l.forward r
  | .takeCancel r => l.stepCall r takeCancel
  | .cancelDone r => l.stepCall r cancelDone
  | .emit r f => l.stepCall r (emit f)
  | .settle r result => l.stepCall r (settle result)

end Leader

end FigmaDevMcp

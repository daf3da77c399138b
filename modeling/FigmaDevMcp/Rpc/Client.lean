import Mathlib.Data.Finset.Basic
import FigmaDevMcp.Rpc.Leader

set_option autoImplicit false

/-!
# The frontend's RPC client

`FrontendClient` and its `client_loop`. A call sends its request to the loop over a bounded
channel and waits for its reply; the loop registers it, writes the frame, and hands the reply
over when a message with its identifier comes in. An event is one step of a call, of the
watcher of an opened call, or of the loop.

* the loop's tables `pending` and `progress` always have the same keys: `pending` is both;
* `sendRequest_eq_some`, `command_eq_some`, `receive_eq_some`: what the larger steps do.
-/

namespace FigmaDevMcp

/-- `FrontendClient::call`, which waits for the result itself, or `FrontendClient::open`. -/
inductive CallKind where
  | call
  | opened
  deriving DecidableEq, Repr

/-- How far a call of a frontend is. -/
inductive ClientCallPhase (W : RpcWorld) where
  | sending
  | waiting
  | cancelling
  | done (result : CallResult W)

/-- A call with its cancellation token. `watched`: the watcher of an opened call still runs. -/
structure ClientCall (W : RpcWorld) where
  kind : CallKind
  phase : ClientCallPhase W
  cancelled : Bool
  watched : Bool

/-- The receiving end of a call's one-shot channel. -/
inductive Reply (W : RpcWorld) where
  | unset
  | value (result : CallResult W)
  | dropped

/-- `client_loop` runs; has left its loop; has answered the waiters it knew; has returned. -/
inductive ClientPhase where
  | running
  | ended
  | flushed
  | closed
  deriving DecidableEq, Repr

/-- The state of a frontend: its channels, and the calls that are under way. -/
structure Client (W : RpcWorld) where
  phase : ClientPhase
  commands : Channel (FrontendToLeader W.RpcRequestId)
  pending : Finset W.RpcRequestId
  reply : W.RpcRequestId → Reply W
  frames : W.RpcRequestId → Channel NormalizedProgress
  calls : W.RpcRequestId → Option (ClientCall W)
  /-- The frames written and read so far. -/
  sent : List (FrontendToLeader W.RpcRequestId)
  received : List (LeaderToFrontend W.RpcRequestId W.BrokerResult)

/-- What can happen in a frontend. -/
inductive ClientEvent (W : RpcWorld) where
  | start (r : W.RpcRequestId) (k : CallKind)
  | sendRequest (r : W.RpcRequestId)
  | fire (r : W.RpcRequestId)
  | takeReply (r : W.RpcRequestId)
  | takeCancel (r : W.RpcRequestId)
  | sendCancel (r : W.RpcRequestId)
  | watch (r : W.RpcRequestId)
  | cancelRpc (r : W.RpcRequestId)
  | recvProgress (r : W.RpcRequestId)
  | command (delivered : Bool)
  | receive (m : LeaderToFrontend W.RpcRequestId W.BrokerResult)
  | endStream
  | flush
  | dropCommands

variable {W : RpcWorld}

/-- What a lost connection means to a call. -/
def connectionLost : CallResult W := .error (.new .connectionLost true)

/-- The result of a call that was cancelled here. -/
def callCancelled : CallResult W := .error (.new .cancelled false)

namespace Client

/-- A frontend without calls. -/
def init : Client W where
  phase := .running
  commands := .new 16
  pending := ∅
  reply := fun _ => .unset
  frames := fun _ => .new 8
  calls := fun _ => none
  sent := []
  received := []

/-- A call is another one. -/
def setCall (c : Client W) (r : W.RpcRequestId) (d : ClientCall W) : Client W :=
  { c with calls := Function.update c.calls r (some d) }

/-- The receiver of a reply is another one. -/
def setReply (c : Client W) (r : W.RpcRequestId) (reply : Reply W) : Client W :=
  { c with reply := Function.update c.reply r reply }

/-! ## Calls -/

/-- A call draws a fresh identifier. -/
def start (c : Client W) (r : W.RpcRequestId) (k : CallKind) : Option (Client W) :=
  match c.calls r with
  | none => some (c.setCall r ⟨k, .sending, false, false⟩)
  | some _ => none

/-- The call waits while the command channel is full; a closed one is a lost connection. -/
def sendRequest (c : Client W) (r : W.RpcRequestId) : Option (Client W) :=
  match c.calls r with
  | some ⟨k, .sending, cancelled, watched⟩ =>
    match c.commands.trySend (.request r) with
    | .ok commands =>
      some ({ c with commands := commands }.setCall r ⟨k, .waiting, cancelled, k = CallKind.opened⟩)
    | .error .closed => some (c.setCall r ⟨k, .done connectionLost, cancelled, watched⟩)
    | .error .full => none
  | _ => none

/-- The call's token fires; an opened call has one once its request is sent. -/
def fire (c : Client W) (r : W.RpcRequestId) : Option (Client W) :=
  match c.calls r with
  | none => none
  | some ⟨.opened, .sending, _, _⟩ => none
  | some d => some (c.setCall r { d with cancelled := true })

/-- A dropped sender counts as a lost connection. -/
def takeReply (c : Client W) (r : W.RpcRequestId) : Option (Client W) :=
  match c.calls r, c.reply r with
  | some ⟨k, .waiting, cancelled, watched⟩, .value result =>
    some (c.setCall r ⟨k, .done result, cancelled, watched⟩)
  | some ⟨k, .waiting, cancelled, watched⟩, .dropped =>
    some (c.setCall r ⟨k, .done connectionLost, cancelled, watched⟩)
  | _, _ => none

/-- A call finds its token fired. -/
def takeCancel (c : Client W) (r : W.RpcRequestId) : Option (Client W) :=
  match c.calls r with
  | some ⟨.call, .waiting, true, watched⟩ => some (c.setCall r ⟨.call, .cancelling, true, watched⟩)
  | _ => none

/-- A cancel waits for room and is forgotten when the channel is closed. -/
def sendCommand (c : Client W) (m : FrontendToLeader W.RpcRequestId) : Option (Client W) :=
  match c.commands.trySend m with
  | .ok commands => some { c with commands := commands }
  | .error .closed => some c
  | .error .full => none

/-- A call tells the leader that it is cancelled, and ends. -/
def sendCancel (c : Client W) (r : W.RpcRequestId) : Option (Client W) :=
  match c.calls r with
  | some ⟨k, .cancelling, cancelled, watched⟩ =>
    (c.sendCommand (.cancel r)).map fun c =>
      c.setCall r ⟨k, .done callCancelled, cancelled, watched⟩
  | _ => none

/-- The watcher of an opened call sends its cancel once its token has fired. -/
def watch (c : Client W) (r : W.RpcRequestId) : Option (Client W) :=
  match c.calls r with
  | some ⟨k, phase, true, true⟩ =>
    (c.sendCommand (.cancel r)).map fun c => c.setCall r ⟨k, phase, true, false⟩
  | _ => none

/-- A call takes the next progress. -/
def recvProgress (c : Client W) (r : W.RpcRequestId) : Option (Client W) :=
  (c.frames r).recv.map fun (_, ch) => { c with frames := Function.update c.frames r ch }

/-! ## The loop -/

/-- A request is registered before its frame is written. A frame that cannot be encoded or
written ends the loop. -/
def command (c : Client W) (delivered : Bool) : Option (Client W) :=
  if c.phase = .running then
    c.commands.recv.map fun (m, commands) =>
      let c := { c with commands := commands }
      let c := match m with
        | .request r => { c with pending := insert r c.pending }
        | .cancel _ => c
      if W.encodesCommand m ∧ delivered = true then { c with sent := c.sent ++ [m] }
      else { c with phase := .ended }
  else none

/-- A final message for a registered call is its reply; progress is passed on if there is room. -/
def receive (c : Client W) (m : LeaderToFrontend W.RpcRequestId W.BrokerResult) :
    Option (Client W) :=
  if c.phase = .running then
    let c := { c with received := c.received ++ [m] }
    match m with
    | .response r v =>
      if r ∈ c.pending then some ({ c with pending := c.pending.erase r }.setReply r (.value (.ok v)))
      else some c
    | .error r e =>
      if r ∈ c.pending then
        some ({ c with pending := c.pending.erase r }.setReply r (.value (.error e)))
      else some c
    | .progress r p =>
      if r ∈ c.pending then
        match (c.frames r).trySend ⟨p.completed, p.total, .fromMessage p.message⟩ with
        | .ok ch => some { c with frames := Function.update c.frames r ch }
        | .error _ => some c
      else some c
  else none

/-- The replies that are still owed are settled, as the connection is lost. -/
def flush (c : Client W) : Option (Client W) :=
  if c.phase = .ended then
    some { c with
      phase := .flushed
      pending := ∅
      reply := fun r => if r ∈ c.pending then .value connectionLost else c.reply r }
  else none

/-- The loop returns and drops the commands nobody has taken, with their senders. -/
def dropCommands (c : Client W) : Option (Client W) :=
  if c.phase = .flushed then
    some { c with
      phase := .closed
      commands := c.commands.close
      reply := fun r => if .request r ∈ c.commands.queue then .dropped else c.reply r }
  else none

/-- One step of a call, of a watcher, or of the loop. The stream ends also when it fails, when a
message cannot be decoded, or when every sender of commands is gone. -/
def step (c : Client W) : ClientEvent W → Option (Client W)
  | .start r k => c.start r k
  | .sendRequest r => c.sendRequest r
  | .fire r => c.fire r
  | .takeReply r => c.takeReply r
  | .takeCancel r => c.takeCancel r
  | .sendCancel r => c.sendCancel r
  | .watch r => c.watch r
  | .cancelRpc r => c.sendCommand (.cancel r)
  | .recvProgress r => c.recvProgress r
  | .command delivered => c.command delivered
  | .receive m => c.receive m
  | .endStream => if c.phase = .running then some { c with phase := .ended } else none
  | .flush => c.flush
  | .dropCommands => c.dropCommands

/-! ## What the larger steps do -/

theorem sendCommand_eq_some {c c' : Client W} {m : FrontendToLeader W.RpcRequestId}
    (h : c.sendCommand m = some c') :
    (∃ ch, c.commands.trySend m = .ok ch ∧ c' = { c with commands := ch }) ∨
      c.commands.closed = true ∧ c' = c := by
  unfold sendCommand at h
  split at h
  · rename_i ch hsend
    exact Or.inl ⟨ch, hsend, (Option.some_inj.mp h).symm⟩
  · rename_i hsend
    exact Or.inr ⟨Channel.closed_of_trySend hsend, (Option.some_inj.mp h).symm⟩
  · exact absurd h (by simp)

/-- The request goes into the channel, or the channel is closed and the call is over. -/
theorem sendRequest_eq_some {c c' : Client W} {r : W.RpcRequestId}
    (h : c.sendRequest r = some c') :
    ∃ d, c.calls r = some d ∧ d.phase = .sending ∧
      ((∃ ch, c.commands.trySend (.request r) = .ok ch ∧
          c' = { c with commands := ch }.setCall r
            { d with phase := .waiting, watched := d.kind = CallKind.opened }) ∨
        c.commands.closed = true ∧ c' = c.setCall r { d with phase := .done connectionLost }) := by
  unfold sendRequest at h
  split at h
  · rename_i k cancelled watched hcall
    refine ⟨_, hcall, rfl, ?_⟩
    split at h
    · rename_i ch hsend
      exact Or.inl ⟨ch, hsend, (Option.some_inj.mp h).symm⟩
    · rename_i hsend
      exact Or.inr ⟨Channel.closed_of_trySend hsend, (Option.some_inj.mp h).symm⟩
    · exact absurd h (by simp)
  · exact absurd h (by simp)

theorem command_eq_some {c c' : Client W} {delivered : Bool} (h : c.command delivered = some c') :
    ∃ m ch, c.phase = .running ∧ c.commands.recv = some (m, ch) ∧
      c'.commands = ch ∧ c'.reply = c.reply ∧ c'.calls = c.calls ∧ c'.received = c.received ∧
      (∀ r, r ∈ c'.pending ↔ m = .request r ∨ r ∈ c.pending) ∧
      (c'.phase = .running ∧ c'.sent = c.sent ++ [m] ∨ c'.phase = .ended ∧ c'.sent = c.sent) := by
  unfold command at h
  split_ifs at h with hrun
  obtain ⟨⟨m, ch⟩, hrecv, rfl⟩ := Option.map_eq_some_iff.mp h
  refine ⟨m, ch, hrun, hrecv, ?_⟩
  cases m with
  | request r =>
      have hmem : ∀ q, q ∈ insert r c.pending ↔
          (FrontendToLeader.request r = .request q ∨ q ∈ c.pending) := fun q => by
        rw [Finset.mem_insert, FrontendToLeader.request.injEq, eq_comm]
      dsimp only
      split_ifs
      · exact ⟨rfl, rfl, rfl, rfl, hmem, Or.inl ⟨hrun, rfl⟩⟩
      · exact ⟨rfl, rfl, rfl, rfl, hmem, Or.inr ⟨rfl, rfl⟩⟩
  | cancel r =>
      dsimp only
      split_ifs
      · exact ⟨rfl, rfl, rfl, rfl, fun q => by simp, Or.inl ⟨hrun, rfl⟩⟩
      · exact ⟨rfl, rfl, rfl, rfl, fun q => by simp, Or.inr ⟨rfl, rfl⟩⟩

/-- A message ends a registered call, or changes nothing but the progress it carries. -/
theorem receive_eq_some {c c' : Client W} {m : LeaderToFrontend W.RpcRequestId W.BrokerResult}
    (h : c.receive m = some c') :
    c.phase = .running ∧
      ((∃ r result, m.terminal = some (r, result) ∧ r ∈ c.pending ∧
          c' = { c with received := c.received ++ [m], pending := c.pending.erase r }.setReply r
            (.value result)) ∨
        (∀ r result, m.terminal = some (r, result) → r ∉ c.pending) ∧
          ∃ frames, c' = { c with received := c.received ++ [m], frames := frames }) := by
  unfold receive at h
  split_ifs at h with hrun
  refine ⟨hrun, ?_⟩
  cases m with
  | response r v =>
      dsimp only at h
      split_ifs at h with hp <;> cases h
      · exact Or.inl ⟨r, .ok v, rfl, hp, rfl⟩
      · refine Or.inr ⟨fun q result hq => ?_, c.frames, rfl⟩
        obtain ⟨rfl, -⟩ := Prod.mk.inj (Option.some_inj.mp hq)
        exact hp
  | error r e =>
      dsimp only at h
      split_ifs at h with hp <;> cases h
      · exact Or.inl ⟨r, .error e, rfl, hp, rfl⟩
      · refine Or.inr ⟨fun q result hq => ?_, c.frames, rfl⟩
        obtain ⟨rfl, -⟩ := Prod.mk.inj (Option.some_inj.mp hq)
        exact hp
  | progress r p =>
      refine Or.inr ⟨fun q result hq => absurd hq (by simp [LeaderToFrontend.terminal]), ?_⟩
      dsimp only at h
      split_ifs at h
      · split at h <;> cases h
        · exact ⟨_, rfl⟩
        · exact ⟨c.frames, rfl⟩
      · cases h
        exact ⟨c.frames, rfl⟩

end Client

end FigmaDevMcp

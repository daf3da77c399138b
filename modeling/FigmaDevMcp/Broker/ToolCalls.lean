import FigmaDevMcp.Broker.Effect
import FigmaDevMcp.Broker.Sessions

set_option autoImplicit false

/-!
# Calls of tools

A call of a tool on the process that leads: `local_open` resolves the connection and invokes the
broker, `wait_for_result` waits for the result, and `abort_open` cancels what no one waits for.
`Calls` puts the callers next to the broker; a step is one of a caller, of the task that passes a
result on, or of anything else that works on the broker.
-/

namespace FigmaDevMcp

variable {W : World}

namespace ToolCall

/-! ## The callers -/

/-- The branches of the `select!` in `wait_for_result`. It is biased: they are polled in this order,
and other tasks can run between two of them. -/
inductive Branch
  | result
  | progress
  | cancelled
  | inactivity
  | total
  deriving DecidableEq, Repr

/-- Where the caller of a request stands: in `Broker::invoke`, in `wait_for_result`, in the three
parts of `abort_open`, or past them. -/
inductive Phase (W : World)
  | idle
  | opening (c : W.ConnectionId)
  | opened (c : W.ConnectionId)
  | waiting (c : W.ConnectionId) (inactivity : ℕ) (next : Branch)
  | aborting (c : W.ConnectionId) (e : ToolError)
  | cancelling (s : W.SocketId) (e : ToolError)
  | sending (s : W.SocketId) (e : ToolError)
  | returned (result : PendingResult W)

/-- `fired` are the cancellation tokens of the callers, `mapped` the results that the task in
between has passed on; `since` and `began` are when a deadline was computed and a wait began. -/
structure Calls (W : World) where
  broker : BrokerState W
  phase : W.RequestId → Phase W
  fired : W.RequestId → Bool
  mapped : W.RequestId → Option (PendingResult W)
  since : W.RequestId → ℕ
  began : W.RequestId → ℕ

/-- What happens: something on the broker, a token fires, the task in between runs, or a caller
goes on. -/
inductive CallEvent (W : World)
  | broker (e : BrokerEvent W)
  | fire (r : W.RequestId)
  | deliver (r : W.RequestId)
  | resolve (r : W.RequestId) (c : Option W.ConnectionId)
  | route (r : W.RequestId)
  | admitRequest (r : W.RequestId)
  | refused (r : W.RequestId)
  | wait (r : W.RequestId)
  | poll (r : W.RequestId)
  | cancelRoute (r : W.RequestId)
  | cancelPending (r : W.RequestId)
  | cancelSend (r : W.RequestId)

/-- The caller that takes the step. -/
def CallEvent.caller : CallEvent W → Option W.RequestId
  | .resolve r _ | .route r | .admitRequest r | .refused r | .wait r | .poll r | .cancelRoute r
  | .cancelPending r | .cancelSend r => some r
  | .broker _ | .fire _ | .deliver _ => none

/-- The steps of the broker that the caller of a request takes itself. -/
def ownStep : BrokerEvent W → Option W.RequestId
  | .route r _ | .admitRequest r | .abandon r | .dropAbandoned r | .cancelRoute _ r
  | .cancelPending _ r | .cancelSend _ r => some r
  | _ => none

namespace Calls

/-- No call has been made. -/
def init : Calls W where
  broker := .init
  phase := fun _ => .idle
  fired := fun _ => false
  mapped := fun _ => none
  since := fun _ => 0
  began := fun _ => 0

/-- The caller of the request is elsewhere. -/
def setPhase (t : Calls W) (r : W.RequestId) (p : Phase W) : Calls W :=
  { t with phase := Function.update t.phase r p }

/-- The broker takes a step, after which the caller of the request is elsewhere. -/
def through (t : Calls W) (e : BrokerEvent W) (r : W.RequestId) (p : BrokerState W → Phase W) :
    Option (Calls W) :=
  (t.broker.step e).map fun b => { t with broker := b }.setPhase r (p b)

/-- Whoever has no caller here is free to take any step. -/
def other (t : Calls W) (e : BrokerEvent W) : Option (Calls W) :=
  let free := match ownStep e with
    | none => true
    | some r => match t.phase r with
      | .idle => true
      | _ => false
  if free then (t.broker.step e).map fun b => { t with broker := b } else none

/-- The task in between waits for the value of the pending entry. -/
def deliver (t : Calls W) (r : W.RequestId) : Option (Calls W) :=
  (t.broker.resolved.find? fun x => x.key.2 = r).map fun x =>
    { t with mapped := Function.update t.mapped r (some x.result) }

/-- `resolve_connection` -/
def target (t : Calls W) (c : Option W.ConnectionId) : Phase W :=
  match t.broker.registry.select c with
  | .one session => .opening session.connectionId
  | .none => .returned (.error (.new .noFigmaConnection true))
  | .ambiguous => .returned (.error (.new .ambiguousConnection false))
  | .missing => .returned (.error (.new .connectionNotFound false))

/-- The request is given an identifier that nothing else has. -/
def resolve (t : Calls W) (r : W.RequestId) (c : Option W.ConnectionId) : Option (Calls W) :=
  match t.phase r, t.broker.call r with
  | .idle, .idle => some (t.setPhase r (t.target c))
  | _, _ => none

/-- `Broker::invoke` looks up the route of the connection. -/
def route (t : Calls W) (r : W.RequestId) : Option (Calls W) :=
  match t.phase r with
  | .opening c => t.through (.route r c) r fun _ => .opening c
  | _ => none

/-- The request is admitted, and its deadline counts from when it took its place in the queue. -/
def admitRequest (t : Calls W) (r : W.RequestId) : Option (Calls W) :=
  match t.phase r, t.broker.call r with
  | .opening c, .enqueued _ _ since =>
    { t with since := Function.update t.since r since }.through (.admitRequest r) r fun b =>
      if (b.call r).place.isSome then .opened c else .opening c
  | _, _ => none

/-- `Broker::invoke` has failed, and the call with it. -/
def refused (t : Calls W) (r : W.RequestId) : Option (Calls W) :=
  match t.phase r, t.broker.call r with
  | .opening _, .failed e => some (t.setPhase r (.returned (.error e)))
  | _, _ => none

/-- The deadline of a sleep that begins now. -/
def inactivityDeadline (t : Calls W) : ℕ := t.broker.now + inactivityTimeoutSecs * 1000

/-- `sleep_until_deadline` -/
def totalDeadline (t : Calls W) (r : W.RequestId) : ℕ := t.since r + totalTimeoutSecs * 1000

/-- `wait_for_result` begins. -/
def wait (t : Calls W) (r : W.RequestId) : Option (Calls W) :=
  match t.phase r with
  | .opened c =>
    some ({ t with began := Function.update t.began r t.broker.now }.setPhase r
      (.waiting c t.inactivityDeadline .result))
  | _ => none

/-- The sender of the progress goes with the pending entry. -/
def progressClosed (t : Calls W) (r : W.RequestId) : Bool :=
  match (t.broker.call r).place with
  | some (s, _) => !t.broker.pending.contains s r
  | none => true

/-- One branch of the `select!` is polled. -/
def poll (t : Calls W) (r : W.RequestId) : Option (Calls W) :=
  match t.phase r with
  | .waiting c inactivity .result =>
    match t.mapped r with
    | some result => some (t.setPhase r (.returned result))
    | none => some (t.setPhase r (.waiting c inactivity .progress))
  | .waiting c inactivity .progress =>
    match (t.broker.progress r).recv with
    | some (_, channel) =>
      -- a frame puts the inactivity off
      let broker := { t.broker with progress := Function.update t.broker.progress r channel }
      some ({ t with broker := broker }.setPhase r (.waiting c t.inactivityDeadline .result))
    | none =>
      -- a closed channel is ready with `None`, and the loop continues
      let next := if t.progressClosed r then .result else .cancelled
      some (t.setPhase r (.waiting c inactivity next))
  | .waiting c inactivity .cancelled =>
    if t.fired r then some (t.setPhase r (.aborting c (.new .cancelled false)))
    else some (t.setPhase r (.waiting c inactivity .inactivity))
  | .waiting c inactivity .inactivity =>
    if inactivity ≤ t.broker.now then some (t.setPhase r (.aborting c (.new .timeout true)))
    else some (t.setPhase r (.waiting c inactivity .total))
  | .waiting c inactivity .total =>
    if t.totalDeadline r ≤ t.broker.now then
      some (t.setPhase r (.aborting c (.new .timeout true)))
    else some (t.setPhase r (.waiting c inactivity .result))
  | _ => none

/-- `Broker::cancel` gives up where there is no route. -/
def cancelRoute (t : Calls W) (r : W.RequestId) : Option (Calls W) :=
  match t.phase r with
  | .aborting c e =>
    match t.broker.registry.routeFor c with
    | none => some (t.setPhase r (.returned (.error e)))
    | some s => t.through (.cancelRoute c r) r fun _ => .cancelling s e
  | _ => none

/-- The plugin is told of the cancel only where there was an entry. -/
def cancelPending (t : Calls W) (r : W.RequestId) : Option (Calls W) :=
  match t.phase r with
  | .cancelling s e =>
    t.through (.cancelPending s r) r fun _ =>
      if t.broker.pending.contains s r then .sending s e else .returned (.error e)
  | _ => none

/-- `try_send_cancel`, after which the call returns its error. -/
def cancelSend (t : Calls W) (r : W.RequestId) : Option (Calls W) :=
  match t.phase r with
  | .sending s e => t.through (.cancelSend s r) r fun _ => .returned (.error e)
  | _ => none

/-- One step, of whoever takes it. -/
def step (t : Calls W) : CallEvent W → Option (Calls W)
  | .broker e => t.other e
  | .fire r => some { t with fired := Function.update t.fired r true }
  | .deliver r => t.deliver r
  | .resolve r c => t.resolve r c
  | .route r => t.route r
  | .admitRequest r => t.admitRequest r
  | .refused r => t.refused r
  | .wait r => t.wait r
  | .poll r => t.poll r
  | .cancelRoute r => t.cancelRoute r
  | .cancelPending r => t.cancelPending r
  | .cancelSend r => t.cancelSend r

end Calls

end ToolCall

end FigmaDevMcp

import Mathlib.Logic.Function.Basic
import FigmaDevMcp.Lib.Channel
import FigmaDevMcp.Broker.QueueInvariant
import FigmaDevMcp.Broker.Pending
import FigmaDevMcp.Broker.Registry

set_option autoImplicit false

/-!
# The broker as a transition system

The broker's shared state and the tasks that work on it: plugin sockets, invocations, cancels,
the expiry sweep and the shutdown. An event is one step of one task between two points where
other tasks can run, so a run of `step` is one interleaving. Three choices keep the steps small:

* a task that removes pending entries drops their tickets while it still holds the pending lock,
  and the session queues have their own locks; `dropping` holds the tickets taken out and not
  dropped yet, and no other step needs the pending lock before it is empty;
* a socket has one outbound channel and one queue, named after it;
* an invocation is named by its request identifier, which the caller draws fresh.
-/

namespace FigmaDevMcp

/-- Where the task of a plugin socket stands. `unregistered`, `swept` and `cleaned` are the
three stages of `cleanup_socket`; an aborted task skips what is left of it. -/
inductive SocketPhase where
  | fresh
  | joined
  | serving
  | leaving
  | unregistered
  | swept
  | cleaned
  | closed
  | aborted
  deriving DecidableEq, Repr

/-- Where an invocation stands. It computes its deadlines at `since`, before it waits for the
pending lock; after `admitted` its dispatch task runs on its own. -/
inductive CallPhase (W : World) where
  | idle
  | routed (s : W.SocketId)
  | found (s : W.SocketId)
  | enqueued (s : W.SocketId) (t : QueueTicket) (since : ℕ)
  | abandoned (s : W.SocketId) (t : QueueTicket)
  | givenUp
  | failed (e : ToolError)
  | admitted (s : W.SocketId) (t : QueueTicket)
  | dispatched (s : W.SocketId) (t : QueueTicket)

/-- The state of the broker with all its sockets and calls. -/
structure BrokerState (W : World) where
  now : ℕ
  registry : SessionRegistry W
  /-- The sockets in the map of queues, and the queue each one has or had there. -/
  queues : W.SocketId → Bool
  queue : W.SocketId → QueueState
  pending : PendingMap W
  dropping : List (W.SocketId × QueueTicket)
  /-- The values sent to waiters so far. -/
  resolved : List (Settled W)
  outbound : W.SocketId → Channel (BrokerToPlugin W)
  progress : W.RequestId → Channel NormalizedProgress
  socket : W.SocketId → SocketPhase
  call : W.RequestId → CallPhase W
  /-- Cancels that know the socket, and cancels and expiries that still owe the plugin a
  message. -/
  cancelRouted : List (PendingKey W)
  cancelSends : List (PendingKey W)
  expiredSends : List (PendingKey W)
  shutdown : Bool
  drained : Bool

/-- What can happen in the broker: each is one stretch of a task between two points where it waits.
-/
inductive BrokerEvent (W : World) where
  | tick (d : ℕ)
  | register (s : W.SocketId) (c : W.ConnectionId)
  | addQueue (s : W.SocketId)
  | incoming (s : W.SocketId) (m : PluginToBroker W)
  | recvOutbound (s : W.SocketId)
  | leave (s : W.SocketId)
  | cleanupRegistry (s : W.SocketId)
  | cleanupPending (s : W.SocketId)
  | cleanupQueue (s : W.SocketId)
  | closeSocket (s : W.SocketId)
  | abortSocket (s : W.SocketId)
  | route (r : W.RequestId) (c : W.ConnectionId)
  | findQueue (r : W.RequestId)
  | tryEnqueue (r : W.RequestId)
  | admitRequest (r : W.RequestId)
  | dispatch (r : W.RequestId)
  | abandon (r : W.RequestId)
  | dropAbandoned (r : W.RequestId)
  | cancelRoute (c : W.ConnectionId) (r : W.RequestId)
  | cancelPending (s : W.SocketId) (r : W.RequestId)
  | cancelSend (s : W.SocketId) (r : W.RequestId)
  | takeExpired
  | expireSend (s : W.SocketId) (r : W.RequestId)
  | shutdown
  | drain
  | dropTicket (s : W.SocketId) (t : QueueTicket)

variable {W : World}

namespace BrokerState

/-- A broker without sockets. -/
def init : BrokerState W where
  now := 0
  registry := .new 0
  queues := fun _ => false
  queue := fun _ => .init
  pending := ∅
  dropping := []
  resolved := []
  outbound := fun _ => .new W.outboundQueue
  progress := fun _ => .new 8
  socket := fun _ => .fresh
  call := fun _ => .idle
  cancelRouted := []
  cancelSends := []
  expiredSends := []
  shutdown := false
  drained := false

/-! ## Pieces of steps -/

/-- A socket goes on to a phase. -/
def setSocket (st : BrokerState W) (s : W.SocketId) (p : SocketPhase) : BrokerState W :=
  { st with socket := Function.update st.socket s p }

/-- A call goes on to a phase. -/
def setCall (st : BrokerState W) (r : W.RequestId) (p : CallPhase W) : BrokerState W :=
  { st with call := Function.update st.call r p }

/-- The queue of a socket is another one. -/
def setQueue (st : BrokerState W) (s : W.SocketId) (q : QueueState) : BrokerState W :=
  { st with queue := Function.update st.queue s q }

/-- The outbound channel of a socket is another one. -/
def setOutbound (st : BrokerState W) (s : W.SocketId) (c : Channel (BrokerToPlugin W)) :
    BrokerState W :=
  { st with outbound := Function.update st.outbound s c }

/-- Under the pending lock: the new map, the waiters that got a value, and the tickets of the
entries taken out, about to be dropped. -/
def settle (st : BrokerState W) (out : List (Settled W)) (m : PendingMap W) : BrokerState W :=
  { st with
    pending := m
    resolved := st.resolved ++ out
    dropping := out.filterMap fun x => x.entry.ticket.map fun t => (x.key.1, t) }

/-- A cancel is sent if the channel takes it; otherwise it is lost. -/
def trySendCancel (st : BrokerState W) (s : W.SocketId) (r : W.RequestId) : BrokerState W :=
  match (st.outbound s).trySend (.cancel r) with
  | .ok c => st.setOutbound s c
  | .error _ => st

/-- A request is encoded and put into the outbound channel, unless it is too long or that is full or
closed. -/
def encodedPluginSend (st : BrokerState W) (s : W.SocketId) (r : W.RequestId) :
    Except ToolError (BrokerState W) :=
  match W.encodedLen r with
  | none => .error (.new .internalError false)
  | some n =>
    if maxEnvelopeBytes < n then .error (.new .limitExceeded false)
    else
      match (st.outbound s).trySend (.request r) with
      | .ok c => .ok (st.setOutbound s c)
      | .error .full => .error (.new .limitExceeded true)
      | .error .closed => .error (.new .connectionLost true)

/-! ## Plugin sockets -/

/-- A connection identifier already in use ends the task of the new socket. -/
def register (st : BrokerState W) (s : W.SocketId) (c : W.ConnectionId) :
    Option (BrokerState W) :=
  if st.socket s = .fresh then
    match st.registry.insert ⟨c, s, st.now⟩ st.now with
    | .ok g => some ({ st with registry := g }.setSocket s .joined)
    | .error _ => some (st.setSocket s .aborted)
  else none

/-- A socket that has joined gets its queue. -/
def addQueue (st : BrokerState W) (s : W.SocketId) : Option (BrokerState W) :=
  if st.socket s = .joined then
    some ({ st with queues := Function.update st.queues s true }.setSocket s .serving)
  else none

/-- A message found nothing to complete, or completes its request. -/
def completeOrDiscard (st : BrokerState W) (s : W.SocketId) (r : W.RequestId)
    (result : PendingResult W) : BrokerState W :=
  match st.pending.complete s r result with
  | none => st
  | some (x, m) => st.settle [x] m

/-- Progress is passed on to the call that waits for it, and its deadline moves. -/
def noteProgress (st : BrokerState W) (s : W.SocketId) (r : W.RequestId) (p : Progress) :
    BrokerState W :=
  match st.pending.noteProgress s r p st.now with
  | none => st
  | some (m, none) => { st with pending := m }
  | some (m, some (c, frame)) =>
    match (st.progress c).trySend frame with
    | .ok ch => { st with pending := m, progress := Function.update st.progress c ch }
    | .error _ => { st with pending := m }

/-- A socket has been heard. -/
def touchSocket (st : BrokerState W) (s : W.SocketId) : BrokerState W :=
  { st with registry := (st.registry.touchSocket s st.now).2 }

/-- `handle_incoming` on a decoded message of socket `s`. -/
def handleIncoming (st : BrokerState W) (s : W.SocketId) : PluginToBroker W → BrokerState W
  | .hello => (st.touchSocket s).setSocket s .leaving
  | .pong => st.touchSocket s
  | .progress r p => (st.touchSocket s).noteProgress s r p
  | .response r v => (st.touchSocket s).completeOrDiscard s r (.ok v)
  | .error r e => (st.touchSocket s).completeOrDiscard s r (.error e)

/-- A message about a request needs the pending lock. -/
def incoming (st : BrokerState W) (s : W.SocketId) (m : PluginToBroker W) :
    Option (BrokerState W) :=
  if st.socket s = .serving ∧ (m.requestId?.isSome → st.dropping = []) then
    some (st.handleIncoming s m)
  else none

/-- The writer of a socket takes the next message. -/
def recvOutbound (st : BrokerState W) (s : W.SocketId) : Option (BrokerState W) :=
  if st.socket s = .serving then
    (st.outbound s).recv.map fun (_, c) => st.setOutbound s c
  else none

/-- The connection of a socket ends. -/
def leave (st : BrokerState W) (s : W.SocketId) : Option (BrokerState W) :=
  if st.socket s = .serving then some (st.setSocket s .leaving) else none

/-- First its session leaves the registry. -/
def cleanupRegistry (st : BrokerState W) (s : W.SocketId) : Option (BrokerState W) :=
  if st.socket s = .leaving then
    some ({ st with registry := (st.registry.removeSocket s).2 }.setSocket s .unregistered)
  else none

/-- Then its pending requests are settled. -/
def cleanupPending (st : BrokerState W) (s : W.SocketId) : Option (BrokerState W) :=
  if st.socket s = .unregistered ∧ st.dropping = [] then
    let (out, m) := st.pending.removeSocket s
    some ((st.settle out m).setSocket s .swept)
  else none

/-- Last its queue is taken out of the map. -/
def cleanupQueue (st : BrokerState W) (s : W.SocketId) : Option (BrokerState W) :=
  if st.socket s = .swept then
    some ({ st with queues := Function.update st.queues s false }.setSocket s .cleaned)
  else none

/-- The task of the socket returns and its receiver goes. -/
def closeSocket (st : BrokerState W) (s : W.SocketId) : Option (BrokerState W) :=
  if st.socket s = .cleaned then
    some ((st.setOutbound s (st.outbound s).close).setSocket s .closed)
  else none

/-- The task of the socket is aborted before it has cleaned up. -/
def abortSocket (st : BrokerState W) (s : W.SocketId) : Option (BrokerState W) :=
  if st.socket s ∈ [.joined, .serving, .leaving, .unregistered, .swept] then
    some ((st.setOutbound s (st.outbound s).close).setSocket s .aborted)
  else none

/-! ## Invocations -/

/-- A call looks up the socket of its connection. -/
def route (st : BrokerState W) (r : W.RequestId) (c : W.ConnectionId) : Option (BrokerState W) :=
  match st.call r with
  | .idle =>
    match st.registry.routeFor c with
    | some s => some (st.setCall r (.routed s))
    | none => some (st.setCall r (.failed (.new .connectionNotFound false)))
  | _ => none

/-- A call looks up the queue of its socket. -/
def findQueue (st : BrokerState W) (r : W.RequestId) : Option (BrokerState W) :=
  match st.call r with
  | .routed s =>
    if st.queues s then some (st.setCall r (.found s))
    else some (st.setCall r (.failed (.new .connectionNotFound false)))
  | _ => none

/-- A call asks the queue for a place, and gets a ticket or is refused. -/
def tryEnqueue (st : BrokerState W) (r : W.RequestId) : Option (BrokerState W) :=
  match st.call r with
  | .found s =>
    match (st.queue s).tryEnqueue with
    | (.ok t, q) => some ((st.setQueue s q).setCall r (.enqueued s t st.now))
    | (.error _, q) => some ((st.setQueue s q).setCall r (.failed (.new .limitExceeded true)))
  | _ => none

/-- The entry an invocation admits. -/
def admission (r : W.RequestId) (s : W.SocketId) (t : QueueTicket) (since : ℕ) :
    PendingRequest W where
  socketId := s
  requestId := r
  totalDeadline := since + totalTimeoutSecs * 1000
  inactivityDeadline := since + inactivityTimeoutSecs * 1000
  progress := some r
  ticket := some t

/-- A call that has its ticket enters the pending map. -/
def admitRequest (st : BrokerState W) (r : W.RequestId) : Option (BrokerState W) :=
  match st.call r with
  | .enqueued s t since =>
    if st.dropping = [] then
      match st.pending.admitEntry (admission r s t since) with
      | .ok m => some ({ st with pending := m }.setCall r (.admitted s t))
      | .error _ =>
        some (({ st with dropping := [(s, t)] }.setQueue s ((st.queue s).dropWait t.wait)).setCall r
          (.failed (.new .internalError false)))
    else none
  | _ => none

/-- The dispatch task has read its wait and will not run again. -/
def afterDispatch (st : BrokerState W) (r : W.RequestId) (s : W.SocketId) (t : QueueTicket) :
    BrokerState W :=
  (st.setQueue s ((st.queue s).dropWait t.wait)).setCall r (.dispatched s t)

/-- The dispatch task, once its wait has an outcome. -/
def dispatch (st : BrokerState W) (r : W.RequestId) : Option (BrokerState W) :=
  match st.call r with
  | .admitted s t =>
    match (st.queue s).queue.wait t.wait with
    | none => none
    | some (.error _) => some (st.afterDispatch r s t)
    | some (.ok ()) =>
      if st.dropping = [] then
        if st.pending.contains s r then
          match (st.afterDispatch r s t).encodedPluginSend s r with
          | .ok sent => some sent
          | .error e => some ((st.afterDispatch r s t).completeOrDiscard s r (.error e))
        else some (st.afterDispatch r s t)
      else none
  | _ => none

/-- The caller drops the invocation before it is admitted: first the wait, then the ticket. -/
def abandon (st : BrokerState W) (r : W.RequestId) : Option (BrokerState W) :=
  match st.call r with
  | .routed _ | .found _ => some (st.setCall r .givenUp)
  | .enqueued s t _ =>
    some ((st.setQueue s ((st.queue s).dropWait t.wait)).setCall r (.abandoned s t))
  | _ => none

/-- The ticket of a call that was given up goes back to its queue. -/
def dropAbandoned (st : BrokerState W) (r : W.RequestId) : Option (BrokerState W) :=
  match st.call r with
  | .abandoned s t =>
    some ((st.setQueue s ((st.queue s).dropTicket t)).setCall r .givenUp)
  | _ => none

/-! ## Cancels, expiry and shutdown -/

/-- A cancellation looks up the socket of its connection. -/
def cancelRoute (st : BrokerState W) (c : W.ConnectionId) (r : W.RequestId) :
    Option (BrokerState W) :=
  match st.registry.routeFor c with
  | some s => some { st with cancelRouted := (s, r) :: st.cancelRouted }
  | none => none

/-- A cancellation takes the entry out of the pending map. -/
def cancelPending (st : BrokerState W) (s : W.SocketId) (r : W.RequestId) :
    Option (BrokerState W) :=
  if (s, r) ∈ st.cancelRouted ∧ st.dropping = [] then
    let st := { st with cancelRouted := st.cancelRouted.erase (s, r) }
    match st.pending.cancel s r with
    | none => some st
    | some (x, m) => some { st.settle [x] m with cancelSends := (s, r) :: st.cancelSends }
  else none

/-- A cancellation is put into the outbound channel. -/
def cancelSend (st : BrokerState W) (s : W.SocketId) (r : W.RequestId) :
    Option (BrokerState W) :=
  if (s, r) ∈ st.cancelSends then
    some ({ st with cancelSends := st.cancelSends.erase (s, r) }.trySendCancel s r)
  else none

/-- The entries past their deadlines are taken out of the pending map. -/
def takeExpired (st : BrokerState W) : Option (BrokerState W) :=
  if st.dropping = [] then
    let (out, m) := st.pending.takeExpired st.now
    some { st.settle out m with expiredSends := out.map Settled.key ++ st.expiredSends }
  else none

/-- The plugin is told of a request that has expired. -/
def expireSend (st : BrokerState W) (s : W.SocketId) (r : W.RequestId) :
    Option (BrokerState W) :=
  if (s, r) ∈ st.expiredSends then
    let st := { st with expiredSends := st.expiredSends.erase (s, r) }
    match st.registry.outboundForSocket s with
    | some o => some (st.trySendCancel o r)
    | none => some st
  else none

/-- `Broker::shutdown` and the end of `ws::serve` empty the pending map once the token is
cancelled. -/
def drain (st : BrokerState W) : Option (BrokerState W) :=
  if st.shutdown = true ∧ st.dropping = [] then
    let (out, m) := st.pending.shutdown
    some { st.settle out m with drained := true }
  else none

/-- The ticket of an entry that was settled goes back to its queue. -/
def dropTicket (st : BrokerState W) (s : W.SocketId) (t : QueueTicket) :
    Option (BrokerState W) :=
  if (s, t) ∈ st.dropping then
    some ({ st with dropping := st.dropping.erase (s, t) }.setQueue s ((st.queue s).dropTicket t))
  else none

/-- One step of one task. -/
def step (st : BrokerState W) : BrokerEvent W → Option (BrokerState W)
  | .tick d => some { st with now := st.now + d }
  | .register s c => st.register s c
  | .addQueue s => st.addQueue s
  | .incoming s m => st.incoming s m
  | .recvOutbound s => st.recvOutbound s
  | .leave s => st.leave s
  | .cleanupRegistry s => st.cleanupRegistry s
  | .cleanupPending s => st.cleanupPending s
  | .cleanupQueue s => st.cleanupQueue s
  | .closeSocket s => st.closeSocket s
  | .abortSocket s => st.abortSocket s
  | .route r c => st.route r c
  | .findQueue r => st.findQueue r
  | .tryEnqueue r => st.tryEnqueue r
  | .admitRequest r => st.admitRequest r
  | .dispatch r => st.dispatch r
  | .abandon r => st.abandon r
  | .dropAbandoned r => st.dropAbandoned r
  | .cancelRoute c r => st.cancelRoute c r
  | .cancelPending s r => st.cancelPending s r
  | .cancelSend s r => st.cancelSend s r
  | .takeExpired => st.takeExpired
  | .expireSend s r => st.expireSend s r
  | .shutdown => some { st with shutdown := true }
  | .drain => st.drain
  | .dropTicket s t => st.dropTicket s t

end BrokerState

end FigmaDevMcp

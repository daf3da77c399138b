import FigmaDevMcp.Broker.Cleanup
import FigmaDevMcp.Broker.DispatchOrder
import FigmaDevMcp.Broker.Sessions

set_option autoImplicit false

/-!
# Where a request was routed

A route is made when a socket says hello and goes when the socket is cleaned up; a socket that
has lost its route never gets one again.

* `step_routes`: what a step does to the routes and to the sockets that are still fresh;
* `step_call`: what a step does to an invocation;
* `Gone`, `Bound`: a socket without a route for ever, and one that its connection is routed to
  until then (`step_gone`, `step_bound`).
-/

namespace FigmaDevMcp

variable {W : World}

/-- Where an invocation was routed, until it has failed or given up. -/
def CallPhase.socket? : CallPhase W → Option W.SocketId
  | .routed s | .found s | .enqueued s _ _ | .abandoned s _ | .admitted s _
  | .dispatched s _ => some s
  | .idle | .givenUp | .failed _ => none

theorem CallPhase.socket_of_place {p : CallPhase W} {s : W.SocketId} {t : QueueTicket}
    (h : p.place = some (s, t)) : p.socket? = some s := by
  cases p <;> cases h <;> rfl

namespace BrokerState

/-! ## Steps -/

theorem socket_setSocket (st : BrokerState W) (s u : W.SocketId) (p : SocketPhase) :
    (st.setSocket s p).socket u = if u = s then p else st.socket u := Function.update_apply _ _ _ _

theorem call_setCall (st : BrokerState W) (q r : W.RequestId) (p : CallPhase W) :
    (st.setCall q p).call r = if r = q then p else st.call r := Function.update_apply _ _ _ _

/-- All that an event can do to the routes: nothing, or let one socket join or leave. -/
inductive RouteEffect (st st' : BrokerState W) : Prop
  | kept (hroutes : ∀ c, st'.registry.routeFor c = st.registry.routeFor c)
      (hfresh : ∀ u, st'.socket u = .fresh → st.socket u = .fresh)
  | joined (s : W.SocketId) (c : W.ConnectionId) (hs : st.socket s = .fresh)
      (hnone : st.registry.routeFor c = none)
      (hroutes : ∀ d, st'.registry.routeFor d = if d = c then some s else st.registry.routeFor d)
      (hfresh : ∀ u, st'.socket u = .fresh → st.socket u = .fresh ∧ u ≠ s)
  | removed (s : W.SocketId) (hregistry : st'.registry = (st.registry.removeSocket s).2)
      (hfresh : ∀ u, st'.socket u = .fresh → st.socket u = .fresh)

theorem RouteEffect.frame {st st' : BrokerState W} (hregistry : st'.registry = st.registry)
    (hsocket : st'.socket = st.socket) : RouteEffect st st' :=
  .kept (fun c => by rw [hregistry]) fun u hu => by rw [← hsocket, hu]

theorem fresh_setSocket {b : BrokerState W} {s u : W.SocketId} {p : SocketPhase} (hp : p ≠ .fresh)
    (h : (b.setSocket s p).socket u = .fresh) : b.socket u = .fresh ∧ u ≠ s := by
  rw [socket_setSocket] at h
  split_ifs at h with hu
  · exact absurd h hp
  · exact ⟨h, hu⟩

theorem routes_setSocket {st₀ st : BrokerState W} {s : W.SocketId} {p : SocketPhase}
    (hp : p ≠ .fresh)
    (hregistry : st₀.registry = st.registry) (hsocket : st₀.socket = st.socket) :
    RouteEffect st (st₀.setSocket s p) := by
  refine .kept (fun c => by rw [← hregistry]; rfl) fun u hu => ?_
  rw [← hsocket]
  exact (fresh_setSocket hp hu).1

theorem routes_touch {st : BrokerState W} {s : W.SocketId} {st' : BrokerState W}
    (hregistry : st'.registry = (st.touchSocket s).registry)
    (hfresh : ∀ u, st'.socket u = .fresh → st.socket u = .fresh) : RouteEffect st st' := by
  refine .kept (fun c => ?_) hfresh
  rw [hregistry]
  exact SessionRegistry.routeFor_touchSocket st.registry s st.now c

theorem fresh_handleIncoming {st : BrokerState W} {s : W.SocketId} {m : PluginToBroker W}
    {u : W.SocketId}
    (h : (st.handleIncoming s m).socket u = .fresh) : st.socket u = .fresh := by
  cases m with
  | hello => exact (fresh_setSocket (b := st.touchSocket s) (by decide) h).1
  | pong => exact h
  | progress r p => exact (noteProgress_socket (st.touchSocket s) s r p).1 ▸ h
  | response r v => exact (completeOrDiscard_socket (st.touchSocket s) s r _).1 ▸ h
  | error r e => exact (completeOrDiscard_socket (st.touchSocket s) s r _).1 ▸ h

/-- **Routes.** A step leaves the routes, adds the one of a fresh socket or removes a socket. -/
theorem step_routes {st st' : BrokerState W} {e : BrokerEvent W} (h : st.step e = some st') :
    RouteEffect st st' := by
  cases e with
  | register s c =>
      simp only [step, register] at h
      split_ifs at h with hs
      cases hinsert : st.registry.insert ⟨c, s, st.now⟩ st.now with
      | error err =>
          rw [hinsert] at h
          cases h
          exact routes_setSocket (by decide) rfl rfl
      | ok g =>
          rw [hinsert] at h
          cases h
          refine .joined s c hs ?_ (SessionRegistry.routeFor_insert hinsert) fun u hu => ?_
          · rw [SessionRegistry.routeFor, (SessionRegistry.insert_eq_ok hinsert).1, Option.map_none]
          · exact fresh_setSocket (b := { st with registry := g }) (by decide) hu
  | addQueue s =>
      simp only [step, addQueue] at h
      split_ifs at h
      cases h
      exact routes_setSocket (by decide) rfl rfl
  | incoming s m =>
      simp only [step, incoming] at h
      split_ifs at h
      cases h
      exact routes_touch (handleIncoming_registry st s m) fun u => fresh_handleIncoming
  | recvOutbound s =>
      simp only [step, recvOutbound] at h
      split_ifs at h
      obtain ⟨⟨m, c⟩, -, rfl⟩ := Option.map_eq_some_iff.mp h
      exact .frame rfl rfl
  | leave s =>
      simp only [step, leave] at h
      split_ifs at h
      cases h
      exact routes_setSocket (by decide) rfl rfl
  | cleanupRegistry s =>
      simp only [step, cleanupRegistry] at h
      split_ifs at h
      cases h
      refine .removed s rfl fun u hu => ?_
      exact (fresh_setSocket (b := { st with registry := (st.registry.removeSocket s).2 })
        (by decide) hu).1
  | cleanupPending s =>
      simp only [step, cleanupPending] at h
      split_ifs at h
      cases h
      exact routes_setSocket (by decide) rfl rfl
  | cleanupQueue s =>
      simp only [step, cleanupQueue] at h
      split_ifs at h
      cases h
      exact routes_setSocket (by decide) rfl rfl
  | closeSocket s =>
      simp only [step, closeSocket] at h
      split_ifs at h
      cases h
      exact routes_setSocket (by decide) rfl rfl
  | abortSocket s =>
      simp only [step, abortSocket] at h
      split_ifs at h
      cases h
      exact routes_setSocket (by decide) rfl rfl
  | dispatch r =>
      obtain ⟨s, t, -, ⟨-, rfl⟩ | ⟨-, -, -, ⟨c, -, rfl⟩ | ⟨err, rfl⟩⟩⟩ := dispatch_cases h
      · exact .frame rfl rfl
      · exact .frame rfl rfl
      · exact .frame (completeOrDiscard_registry _ _ _ _) (completeOrDiscard_socket _ _ _ _).1
  | cancelSend s r =>
      simp only [step, cancelSend] at h
      split_ifs at h
      cases h
      exact .frame (trySendCancel_registry _ _ _) (trySendCancel_socket _ _ _).1
  | expireSend s r =>
      simp only [step, expireSend] at h
      split_ifs at h
      split at h <;> cases h
      · exact .frame (trySendCancel_registry _ _ _) (trySendCancel_socket _ _ _).1
      · exact .frame rfl rfl
  | _ =>
      simp only [step, route, findQueue, tryEnqueue, admitRequest, abandon, dropAbandoned,
        cancelRoute, cancelPending, takeExpired, drain, dropTicket] at h
      repeat' split at h
      all_goals (cases h <;> exact .frame rfl rfl)

/-- What a step does to an invocation: nothing, its route, or the next thing at the same socket. -/
inductive CallEffect (st : BrokerState W) (e : BrokerEvent W) (st' : BrokerState W)
    (r : W.RequestId) : Prop
  | same (h : st'.call r = st.call r)
  | routed (c : W.ConnectionId) (hevent : e = .route r c) (hidle : st.call r = .idle)
      (hto : ∀ s, (st'.call r).socket? = some s → st.registry.routeFor c = some s)
  | moved (s : W.SocketId) (hfrom : (st.call r).socket? = some s)
      (hto : ∀ u, (st'.call r).socket? = some u → u = s)

theorem effect_setCall {st st₀ : BrokerState W} {e : BrokerEvent W} {q : W.RequestId}
    {s : W.SocketId} {p p' : CallPhase W} (hcall : st₀.call = st.call) (hq : st.call q = p)
    (hfrom : p.socket? = some s)
    (hto : p'.socket? = some s ∨ p'.socket? = none) (r : W.RequestId) :
    CallEffect st e (st₀.setCall q p') r := by
  by_cases hr : r = q
  · subst hr
    refine .moved s (hq ▸ hfrom) fun u hu => ?_
    rw [call_setCall, if_pos rfl] at hu
    rcases hto with hto | hto
    · exact (Option.some.inj (hto.symm.trans hu)).symm
    · rw [hto] at hu
      cases hu
  · refine .same ?_
    rw [call_setCall, if_neg hr, hcall]

theorem completeOrDiscard_call (st : BrokerState W) (s : W.SocketId) (r : W.RequestId)
    (result : PendingResult W) : (st.completeOrDiscard s r result).call = st.call := by
  unfold completeOrDiscard
  split <;> rfl

theorem trySendCancel_call (st : BrokerState W) (s : W.SocketId) (r : W.RequestId) :
    (st.trySendCancel s r).call = st.call := by
  unfold trySendCancel
  split <;> rfl

theorem noteProgress_call (st : BrokerState W) (s : W.SocketId) (r : W.RequestId) (p : Progress) :
    (st.noteProgress s r p).call = st.call := by
  unfold noteProgress
  split
  · rfl
  · rfl
  · split <;> rfl

theorem handleIncoming_call (st : BrokerState W) (s : W.SocketId) (m : PluginToBroker W) :
    (st.handleIncoming s m).call = st.call := by
  cases m with
  | hello => rfl
  | pong => rfl
  | progress r p => exact noteProgress_call (st.touchSocket s) s r p
  | response r v => exact completeOrDiscard_call (st.touchSocket s) s r _
  | error r e => exact completeOrDiscard_call (st.touchSocket s) s r _

theorem call_afterDispatch {st : BrokerState W} {e : BrokerEvent W} {q : W.RequestId}
    {s : W.SocketId}
    {t : QueueTicket} (h : st.call q = .admitted s t) (r : W.RequestId) :
    CallEffect st e (st.afterDispatch q s t) r := by
  unfold afterDispatch
  exact effect_setCall (by rfl) h rfl (Or.inl rfl) r

theorem CallEffect.congr {st st' st'' : BrokerState W} {e : BrokerEvent W} {r : W.RequestId}
    (h : CallEffect st e st' r) (hcall : st''.call = st'.call) : CallEffect st e st'' r := by
  cases h with
  | same h => exact .same (by rw [hcall, h])
  | routed c hevent hidle hto => exact .routed c hevent hidle (by rw [hcall]; exact hto)
  | moved s hfrom hto => exact .moved s hfrom (by rw [hcall]; exact hto)

theorem step_call {st st' : BrokerState W} {e : BrokerEvent W} (h : st.step e = some st')
    (r : W.RequestId) : CallEffect st e st' r := by
  cases e with
  | route q c =>
      simp only [step, route] at h
      cases hcall : st.call q with
      | idle =>
          rw [hcall] at h
          dsimp only at h
          by_cases hr : r = q
          · subst hr
            refine .routed c rfl hcall fun s hs => ?_
            cases hroute : st.registry.routeFor c with
            | none =>
                rw [hroute] at h
                cases h
                rw [call_setCall, if_pos rfl] at hs
                cases hs
            | some u =>
                rw [hroute] at h
                cases h
                rw [call_setCall, if_pos rfl] at hs
                exact hs
          · refine .same ?_
            cases hroute : st.registry.routeFor c <;> rw [hroute] at h <;> cases h <;>
              rw [call_setCall, if_neg hr]
      | _ =>
          rw [hcall] at h
          cases h
  | findQueue q =>
      simp only [step, findQueue] at h
      split at h
      · rename_i s hcall
        split_ifs at h <;> cases h
        · exact effect_setCall rfl hcall rfl (Or.inl rfl) r
        · exact effect_setCall rfl hcall rfl (Or.inr rfl) r
      · exact absurd h (by simp)
  | tryEnqueue q =>
      simp only [step, tryEnqueue] at h
      split at h
      · rename_i s hcall
        split at h <;> cases h
        · exact effect_setCall (by rfl) hcall rfl (Or.inl rfl) r
        · exact effect_setCall (by rfl) hcall rfl (Or.inr rfl) r
      · exact absurd h (by simp)
  | admitRequest q =>
      obtain ⟨s, t, since, hcall, -, ⟨m, -, rfl⟩ | ⟨-, rfl⟩⟩ := admitRequest_cases h
      · exact effect_setCall (by rfl) hcall rfl (Or.inl rfl) r
      · exact effect_setCall (by rfl) hcall rfl (Or.inr rfl) r
  | dispatch q =>
      obtain ⟨s, t, hcall, ⟨-, rfl⟩ | ⟨-, -, -, ⟨c, -, rfl⟩ | ⟨err, rfl⟩⟩⟩ := dispatch_cases h
      · exact call_afterDispatch hcall r
      · exact (call_afterDispatch hcall r).congr rfl
      · exact (call_afterDispatch hcall r).congr (completeOrDiscard_call _ _ _ _)
  | abandon q =>
      simp only [step, abandon] at h
      split at h
      · rename_i s hcall
        cases h
        exact effect_setCall (by rfl) hcall rfl (Or.inr rfl) r
      · rename_i s hcall
        cases h
        exact effect_setCall (by rfl) hcall rfl (Or.inr rfl) r
      · rename_i s t since hcall
        cases h
        exact effect_setCall (by rfl) hcall rfl (Or.inl rfl) r
      · exact absurd h (by simp)
  | dropAbandoned q =>
      simp only [step, dropAbandoned] at h
      split at h
      · rename_i s t hcall
        cases h
        exact effect_setCall (by rfl) hcall rfl (Or.inr rfl) r
      · exact absurd h (by simp)
  | incoming s m =>
      simp only [step, incoming] at h
      split_ifs at h
      cases h
      exact .same (by rw [handleIncoming_call])
  | recvOutbound s =>
      simp only [step, recvOutbound] at h
      split_ifs at h
      obtain ⟨⟨m, c⟩, -, rfl⟩ := Option.map_eq_some_iff.mp h
      exact .same rfl
  | cancelSend s q =>
      simp only [step, cancelSend] at h
      split_ifs at h
      cases h
      exact .same (by rw [trySendCancel_call])
  | expireSend s q =>
      simp only [step, expireSend] at h
      split_ifs at h
      split at h <;> cases h
      · exact .same (by rw [trySendCancel_call])
      · exact .same rfl
  | _ =>
      simp only [step, register, addQueue, leave, cleanupRegistry, cleanupPending, cleanupQueue,
        closeSocket, abortSocket, cancelRoute, cancelPending, takeExpired, drain, dropTicket] at h
      repeat' split at h
      all_goals (cases h <;> exact .same rfl)

/-! ## Routes over a run -/

/-- The tables of the registry are paired, and a route leads to a socket that has come. -/
structure RouteInv (st : BrokerState W) : Prop where
  paired : st.registry.Paired
  known : ∀ c s, st.registry.routeFor c = some s → st.socket s ≠ .fresh

/-- No connection is routed to the socket, nor will one be. -/
structure Gone (st : BrokerState W) (s : W.SocketId) : Prop where
  known : st.socket s ≠ .fresh
  routes : ∀ c, st.registry.routeFor c ≠ some s

/-- The connection is routed to the socket, as long as anything is. -/
def Bound (st : BrokerState W) (c : W.ConnectionId) (s : W.SocketId) : Prop :=
  st.registry.routeFor c = some s ∨ st.Gone s

theorem routeInv_init : RouteInv (init : BrokerState W) := by
  refine ⟨SessionRegistry.paired_new 0, fun c s h => ?_⟩
  exact absurd h (by simp [init, SessionRegistry.new, SessionRegistry.routeFor])

theorem not_routed_removeSocket {g : SessionRegistry W} (hg : g.Paired) (s : W.SocketId)
    (c : W.ConnectionId) : (g.removeSocket s).2.routeFor c ≠ some s := by
  intro h
  obtain ⟨x, hx, hxs⟩ := Option.map_eq_some_iff.mp h
  have hsocket := ((hg.removeSocket s).session c x hx).2
  rw [hxs] at hsocket
  unfold SessionRegistry.removeSocket at hsocket
  cases hs : g.sockets.lookup s with
  | none =>
      rw [hs] at hsocket
      rw [hsocket] at hs
      cases hs
  | some d =>
      rw [hs] at hsocket
      dsimp only at hsocket
      rw [Table.lookup_erase_eq, if_pos rfl] at hsocket
      cases hsocket

theorem routed_removeSocket {g : SessionRegistry W} (hg : g.Paired) {s t : W.SocketId}
    {c : W.ConnectionId} (h : g.routeFor c = some t) (hne : t ≠ s) :
    (g.removeSocket s).2.routeFor c = some t := by
  unfold SessionRegistry.removeSocket
  cases hs : g.sockets.lookup s with
  | none => exact h
  | some d =>
      obtain ⟨x, hx, hxt⟩ := Option.map_eq_some_iff.mp h
      have hcd : c ≠ d := by
        intro hcd
        obtain ⟨y, hy, hys⟩ := hg.socket s d hs
        rw [← hcd, hx] at hy
        exact hne (hxt.symm.trans ((congrArg Session.socketId (Option.some.inj hy)).trans hys))
      unfold SessionRegistry.routeFor
      dsimp only
      rw [Table.lookup_erase_eq, if_neg hcd]
      exact h

variable {st st' : BrokerState W} {e : BrokerEvent W}

theorem step_known (hstep : st.step e = some st') {s : W.SocketId} (h : st.socket s ≠ .fresh) :
    st'.socket s ≠ .fresh := by
  intro hs
  cases step_routes hstep with
  | kept _ hfresh => exact h (hfresh s hs)
  | joined _ _ _ _ _ hfresh => exact h (hfresh s hs).1
  | removed _ _ hfresh => exact h (hfresh s hs)

theorem step_routeInv (hstep : st.step e = some st') (h : RouteInv st) : RouteInv st' := by
  refine ⟨step_paired hstep h.paired, fun c s hroute hfresh => ?_⟩
  cases step_routes hstep with
  | kept hroutes hback => exact h.known c s (hroutes c ▸ hroute) (hback s hfresh)
  | joined u d _ _ hroutes hback =>
      rw [hroutes] at hroute
      split_ifs at hroute
      · exact (hback s hfresh).2 (Option.some.inj hroute).symm
      · exact h.known c s hroute (hback s hfresh).1
  | removed u hregistry hback =>
      rw [hregistry] at hroute
      exact h.known c s (SessionRegistry.routeFor_removeSocket hroute) (hback s hfresh)

/-- A socket that is gone stays gone. -/
theorem step_gone (hstep : st.step e = some st') {s : W.SocketId} (h : st.Gone s) : st'.Gone s := by
  refine ⟨step_known hstep h.known, fun c hroute => ?_⟩
  cases step_routes hstep with
  | kept hroutes _ => exact h.routes c (hroutes c ▸ hroute)
  | joined u d hu _ hroutes _ =>
      rw [hroutes] at hroute
      split_ifs at hroute
      · exact h.known (Option.some.inj hroute ▸ hu)
      · exact h.routes c hroute
  | removed u hregistry _ =>
      rw [hregistry] at hroute
      exact h.routes c (SessionRegistry.routeFor_removeSocket hroute)

theorem step_bound (hinv : RouteInv st) (hstep : st.step e = some st') {c : W.ConnectionId}
    {s : W.SocketId} (h : st.Bound c s) : st'.Bound c s := by
  rcases h with hroute | hgone
  · have hknown := step_known hstep (hinv.known c s hroute)
    cases step_routes hstep with
    | kept hroutes _ => exact Or.inl ((hroutes c).trans hroute)
    | joined u d _ hnone hroutes _ =>
        left
        rw [hroutes, if_neg, hroute]
        intro hcd
        rw [hcd, hnone] at hroute
        cases hroute
    | removed u hregistry _ =>
        by_cases hu : s = u
        · refine Or.inr ⟨hknown, fun d hd => ?_⟩
          rw [hregistry, hu] at hd
          exact not_routed_removeSocket hinv.paired u d hd
        · left
          rw [hregistry]
          exact routed_removeSocket hinv.paired hroute hu
  · exact Or.inr (step_gone hstep hgone)

end BrokerState

end FigmaDevMcp

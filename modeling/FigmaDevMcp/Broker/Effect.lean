import FigmaDevMcp.Broker.System

set_option autoImplicit false

/-!
# What a step does to the pending requests

`Settles st e x` lists the ways the waiter of `x` can get its value in the step `e`. Every step
of the broker leaves the pending requests as they are, admits one, or settles some in one of
these ways (`step_effect`); the invariants over whole runs start from these three cases.
-/

namespace FigmaDevMcp

variable {W : World}

/-- The socket and the ticket of an admitted invocation. -/
def CallPhase.place : CallPhase W → Option (W.SocketId × QueueTicket)
  | .admitted s t | .dispatched s t => some (s, t)
  | _ => none

/-- From `p` to `q` nothing was admitted, and a finished dispatch stays finished. -/
structure CallPhase.Keeps (p q : CallPhase W) : Prop where
  place : q.place = p.place
  dispatched : ∀ s t, p = .dispatched s t → q = .dispatched s t

theorem CallPhase.Keeps.refl (p : CallPhase W) : p.Keeps p := ⟨rfl, fun _ _ h => h⟩

/-- What no progress message changes in an entry. -/
def PendingRequest.core (p : PendingRequest W) :
    W.SocketId × W.RequestId × Option W.RequestId × Option QueueTicket :=
  (p.socketId, p.requestId, p.progress, p.ticket)

namespace BrokerState

/-- The step `e` settles `x`: a response or error with its identifier from its own socket, its
failed dispatch, its cancel, an expired deadline, the removal of its socket, or the shutdown. -/
def Settles (st : BrokerState W) (e : BrokerEvent W) (x : Settled W) : Prop :=
  match e with
  | .incoming s (.response r v) => x.key = (s, r) ∧ x.result = .ok v
  | .incoming s (.error r err) => x.key = (s, r) ∧ x.result = .error err
  | .dispatch r => x.key.2 = r ∧ (∃ t, st.call r = .admitted x.key.1 t) ∧
      ∃ err, x.result = .error err
  | .cancelPending s r => x.key = (s, r) ∧ x.result = .error (.new .cancelled false)
  | .takeExpired => x.entry.expired st.now = true ∧ x.result = .error (.new .timeout true)
  | .cleanupPending s => x.entry.socketId = s ∧ x.result = .error (.new .connectionLost true)
  | .drain => x.result = .error (.new .connectionLost true)
  | _ => False

/-- The three things a step can do to the pending requests. -/
inductive Effect (st : BrokerState W) (e : BrokerEvent W) (st' : BrokerState W) : Prop
  | kept (hresolved : st'.resolved = st.resolved)
      (hcore : ∀ k, (st'.pending.lookup k).map PendingRequest.core =
        (st.pending.lookup k).map PendingRequest.core)
      (hcalls : ∀ r, (st.call r).Keeps (st'.call r))
  | admitted (r : W.RequestId) (s : W.SocketId) (t : QueueTicket) (since : ℕ)
      (m : PendingMap W) (hevent : e = .admitRequest r) (hcall : st.call r = .enqueued s t since)
      (hm : st.pending.admitEntry (admission r s t since) = .ok m)
      (hst : st' = { st with pending := m }.setCall r (.admitted s t))
  | settled (out : List (Settled W)) (hsettling : st.pending.Settling out st'.pending)
      (hcause : ∀ x ∈ out, st.Settles e x) (hresolved : st'.resolved = st.resolved ++ out)
      (hcalls : ∀ r, (st.call r).Keeps (st'.call r))

/-! ## Frames -/

theorem keeps_setCall (st : BrokerState W) {r : W.RequestId} {p : CallPhase W}
    (h : (st.call r).Keeps p) (q : W.RequestId) :
    (st.call q).Keeps ((st.setCall r p).call q) := by
  by_cases hq : q = r
  · subst hq
    simp only [setCall, Function.update_self, h]
  · simp only [setCall, Function.update_of_ne hq, CallPhase.Keeps.refl]

/-- An invocation that was not admitted moves to a phase that is not either. -/
theorem keeps_of_place_none {p q : CallPhase W} (hp : p.place = none) (hq : q.place = none) :
    p.Keeps q := by
  refine ⟨hq.trans hp.symm, fun s t h => ?_⟩
  rw [h] at hp
  exact absurd hp (by simp [CallPhase.place])

theorem keeps_setQueue_setCall (st : BrokerState W) {r : W.RequestId} {p q : CallPhase W}
    {s : W.SocketId} {u : QueueState} (h : st.call r = p) (hp : p.place = none)
    (hq : q.place = none) (r' : W.RequestId) :
    (st.call r').Keeps (((st.setQueue s u).setCall r q).call r') := by
  refine keeps_setCall (st.setQueue s u) ?_ r'
  exact keeps_of_place_none (h ▸ hp) hq

/-- A step that changes neither the map nor where invocations were admitted. -/
theorem Effect.frame {st st' : BrokerState W} {e : BrokerEvent W}
    (hpending : st'.pending = st.pending) (hresolved : st'.resolved = st.resolved)
    (hcalls : ∀ r, (st.call r).Keeps (st'.call r)) : Effect st e st' :=
  .kept hresolved (fun k => by rw [hpending]) hcalls

/-- Completing one request after a step `st₀` that left the map alone. -/
theorem effect_completeOrDiscard {st st₀ : BrokerState W} {e : BrokerEvent W}
    {s : W.SocketId} {r : W.RequestId} {result : PendingResult W}
    (hpending : st₀.pending = st.pending) (hresolved : st₀.resolved = st.resolved)
    (hcalls : ∀ r, (st.call r).Keeps (st₀.call r))
    (hcause : ∀ x : Settled W, x.key = (s, r) → x.result = result → st.Settles e x) :
    Effect st e (st₀.completeOrDiscard s r result) := by
  unfold completeOrDiscard
  cases hc : st₀.pending.complete s r result with
  | none => exact .frame hpending hresolved hcalls
  | some xm =>
      obtain ⟨x, m⟩ := xm
      refine .settled [x] ?_ ?_ ?_ hcalls
      · exact hpending ▸ PendingMap.settling_complete hc
      · intro y hy
        obtain ⟨ent, -, hx, -⟩ := PendingMap.complete_eq_some hc
        rw [List.mem_singleton.mp hy, hx]
        exact hcause _ rfl rfl
      · exact congrArg (· ++ [x]) hresolved

theorem effect_removeMatching {st st' : BrokerState W} {e : BrokerEvent W}
    {p : PendingRequest W → Bool} {code : ErrorCode}
    (hpending : st'.pending = (st.pending.removeMatching p code).2)
    (hresolved : st'.resolved = st.resolved ++ (st.pending.removeMatching p code).1)
    (hcall : st'.call = st.call)
    (hcause : ∀ x : Settled W, p x.entry = true → x.result = .error (.new code true) →
      st.Settles e x) : Effect st e st' := by
  refine .settled _ (hpending ▸ PendingMap.settling_removeMatching _ p code) ?_ hresolved
    fun r => by rw [hcall]; exact .refl _
  intro x hx
  obtain ⟨-, hp, hres⟩ := PendingMap.mem_removeMatching.mp hx
  exact hcause x hp hres

theorem effect_noteProgress {st st₀ : BrokerState W} {e : BrokerEvent W} {s : W.SocketId}
    {r : W.RequestId} {p : Progress} (hpending : st₀.pending = st.pending)
    (hresolved : st₀.resolved = st.resolved)
    (hcalls : ∀ r, (st.call r).Keeps (st₀.call r)) :
    Effect st e (st₀.noteProgress s r p) := by
  unfold noteProgress
  cases hn : st₀.pending.noteProgress s r p st₀.now with
  | none => exact .frame hpending hresolved hcalls
  | some mo =>
      obtain ⟨m, out⟩ := mo
      obtain ⟨ent, hent, -, hlook⟩ := PendingMap.noteProgress_eq_some hn
      have hcore : ∀ k, (m.lookup k).map PendingRequest.core =
          (st.pending.lookup k).map PendingRequest.core := by
        intro k
        rw [hlook, ← hpending]
        split_ifs with hk
        · rw [hk, hent]
          rfl
        · rfl
      cases out with
      | none => exact .kept hresolved hcore hcalls
      | some cf =>
          dsimp only
          split
          · exact .kept hresolved hcore hcalls
          · exact .kept hresolved hcore hcalls

theorem effect_trySendCancel {st st₀ : BrokerState W} {e : BrokerEvent W} {s : W.SocketId}
    {r : W.RequestId} (hpending : st₀.pending = st.pending)
    (hresolved : st₀.resolved = st.resolved)
    (hcalls : ∀ r, (st.call r).Keeps (st₀.call r)) :
    Effect st e (st₀.trySendCancel s r) := by
  unfold trySendCancel
  split
  · exact .frame hpending hresolved hcalls
  · exact .frame hpending hresolved hcalls

/-! ## The invocation's steps -/

theorem admitRequest_cases {st st' : BrokerState W} {r : W.RequestId}
    (h : st.admitRequest r = some st') :
    ∃ s t since, st.call r = .enqueued s t since ∧ st.dropping = [] ∧
      ((∃ m, st.pending.admitEntry (admission r s t since) = .ok m ∧
        st' = { st with pending := m }.setCall r (.admitted s t)) ∨
      ((st.pending.lookup (s, r)).isSome = true ∧
        st' = ({ st with dropping := [(s, t)] }.setQueue s ((st.queue s).dropWait t.wait)).setCall
          r (.failed (.new .internalError false)))) := by
  unfold admitRequest at h
  split at h
  · rename_i s t since hcall
    split_ifs at h with hlock
    refine ⟨s, t, since, hcall, hlock, ?_⟩
    split at h
    · rename_i m hm
      exact Or.inl ⟨m, hm, (Option.some_inj.mp h).symm⟩
    · rename_i e hm
      refine Or.inr ⟨?_, (Option.some_inj.mp h).symm⟩
      unfold PendingMap.admitEntry at hm
      dsimp only at hm
      split_ifs at hm with hk
      exact hk
  · exact absurd h (by simp)

/-- A request is sent on its socket's channel, or nothing is. -/
theorem encodedPluginSend_cases (st : BrokerState W) (s : W.SocketId) (r : W.RequestId) :
    (∃ c, (st.outbound s).trySend (.request r) = .ok c ∧
      st.encodedPluginSend s r = .ok (st.setOutbound s c)) ∨
    ∃ err, st.encodedPluginSend s r = .error err := by
  unfold encodedPluginSend
  cases W.encodedLen r with
  | none => exact Or.inr ⟨_, rfl⟩
  | some n =>
      dsimp only
      split_ifs
      · exact Or.inr ⟨_, rfl⟩
      · cases hsend : (st.outbound s).trySend (.request r) with
        | ok c => exact Or.inl ⟨c, rfl, rfl⟩
        | error err => cases err <;> exact Or.inr ⟨_, rfl⟩

/-- A dispatch task ends without a trace, sends its request, or fails and completes it. -/
theorem dispatch_cases {st st' : BrokerState W} {r : W.RequestId}
    (h : st.dispatch r = some st') :
    ∃ s t, st.call r = .admitted s t ∧
      (((∃ err, (st.queue s).queue.wait t.wait = some (.error err)) ∨
          st.pending.lookup (s, r) = none) ∧ st' = st.afterDispatch r s t ∨
        (st.queue s).queue.wait t.wait = some (.ok ()) ∧ st.dropping = [] ∧
          (st.pending.lookup (s, r)).isSome = true ∧
          ((∃ c, (st.outbound s).trySend (.request r) = .ok c ∧
              st' = (st.afterDispatch r s t).setOutbound s c) ∨
            ∃ err, st' = (st.afterDispatch r s t).completeOrDiscard s r (.error err))) := by
  unfold dispatch at h
  split at h
  · rename_i s t hcall
    refine ⟨s, t, hcall, ?_⟩
    split at h
    · exact absurd h (by simp)
    · rename_i err hw
      exact Or.inl ⟨Or.inl ⟨err, hw⟩, (Option.some_inj.mp h).symm⟩
    · rename_i hw
      split_ifs at h with hlock hcon
      · refine Or.inr ⟨hw, hlock, hcon, ?_⟩
        rcases encodedPluginSend_cases (st.afterDispatch r s t) s r with
          ⟨c, hc, he⟩ | ⟨err, he⟩
        · rw [he] at h
          exact Or.inl ⟨c, hc, (Option.some_inj.mp h).symm⟩
        · rw [he] at h
          exact Or.inr ⟨err, (Option.some_inj.mp h).symm⟩
      · refine Or.inl ⟨Or.inr ?_, (Option.some_inj.mp h).symm⟩
        exact Option.not_isSome_iff_eq_none.mp hcon
  · exact absurd h (by simp)

/-- The task only runs once its wait has an outcome. -/
theorem dispatch_wait {st st' : BrokerState W} {r : W.RequestId} {s : W.SocketId}
    {t : QueueTicket} (h : st.dispatch r = some st') (hcall : st.call r = .admitted s t) :
    ∃ x, (st.queue s).queue.wait t.wait = some x := by
  cases hw : (st.queue s).queue.wait t.wait with
  | none => simp only [dispatch, hcall, hw, reduceCtorEq] at h
  | some x => exact ⟨x, rfl⟩

theorem keeps_afterDispatch {st : BrokerState W} {r : W.RequestId} {s : W.SocketId}
    {t : QueueTicket} (h : st.call r = .admitted s t) (q : W.RequestId) :
    (st.call q).Keeps ((st.afterDispatch r s t).call q) := by
  refine keeps_setCall (st.setQueue s ((st.queue s).dropWait t.wait)) ?_ q
  simp only [setQueue, h]
  exact ⟨rfl, fun _ _ hd => absurd hd (by simp)⟩

/-! ## Every step -/

/-- **Step effect.** Every step leaves the pending requests alone, admits one, or settles some
in one of the ways of `Settles`. -/
theorem step_effect {st st' : BrokerState W} {e : BrokerEvent W} (h : st.step e = some st') :
    Effect st e st' := by
  cases e with
  | tick d =>
      cases h
      exact .frame rfl rfl fun _ => .refl _
  | register s c =>
      simp only [step, register] at h
      split_ifs at h
      split at h <;> cases h <;> exact .frame rfl rfl fun _ => .refl _
  | addQueue s =>
      simp only [step, addQueue] at h
      split_ifs at h
      cases h
      exact .frame rfl rfl fun _ => .refl _
  | incoming s m =>
      simp only [step, incoming] at h
      split_ifs at h
      cases h
      cases m with
      | hello => exact .frame rfl rfl fun _ => .refl _
      | pong => exact .frame rfl rfl fun _ => .refl _
      | progress r p => exact effect_noteProgress rfl rfl fun _ => .refl _
      | response r v =>
          exact effect_completeOrDiscard rfl rfl (fun _ => .refl _) fun x hk hr => ⟨hk, hr⟩
      | error r err =>
          exact effect_completeOrDiscard rfl rfl (fun _ => .refl _) fun x hk hr => ⟨hk, hr⟩
  | recvOutbound s =>
      simp only [step, recvOutbound] at h
      split_ifs at h
      obtain ⟨⟨m, c⟩, -, rfl⟩ := Option.map_eq_some_iff.mp h
      exact .frame rfl rfl fun _ => .refl _
  | leave s =>
      simp only [step, leave] at h
      split_ifs at h
      cases h
      exact .frame rfl rfl fun _ => .refl _
  | cleanupRegistry s =>
      simp only [step, cleanupRegistry] at h
      split_ifs at h
      cases h
      exact .frame rfl rfl fun _ => .refl _
  | cleanupPending s =>
      simp only [step, cleanupPending] at h
      split_ifs at h
      cases h
      exact effect_removeMatching rfl rfl rfl fun x hp hr => ⟨of_decide_eq_true hp, hr⟩
  | cleanupQueue s =>
      simp only [step, cleanupQueue] at h
      split_ifs at h
      cases h
      exact .frame rfl rfl fun _ => .refl _
  | closeSocket s =>
      simp only [step, closeSocket] at h
      split_ifs at h
      cases h
      exact .frame rfl rfl fun _ => .refl _
  | abortSocket s =>
      simp only [step, abortSocket] at h
      split_ifs at h
      cases h
      exact .frame rfl rfl fun _ => .refl _
  | route r c =>
      simp only [step, route] at h
      split at h
      · rename_i hcall
        split at h <;> cases h <;> exact .frame rfl rfl (keeps_setCall st (by rw [hcall]; exact keeps_of_place_none rfl rfl))
      · exact absurd h (by simp)
  | findQueue r =>
      simp only [step, findQueue] at h
      split at h
      · rename_i s hcall
        split_ifs at h <;> cases h <;> exact .frame rfl rfl (keeps_setCall st (by rw [hcall]; exact keeps_of_place_none rfl rfl))
      · exact absurd h (by simp)
  | tryEnqueue r =>
      simp only [step, tryEnqueue] at h
      split at h
      · rename_i s hcall
        split at h <;> cases h <;>
          exact .frame rfl rfl (keeps_setQueue_setCall st hcall rfl rfl)
      · exact absurd h (by simp)
  | admitRequest r =>
      obtain ⟨s, t, since, hcall, -, ⟨m, hm, rfl⟩ | ⟨-, rfl⟩⟩ := admitRequest_cases h
      · exact .admitted r s t since m rfl hcall hm rfl
      · exact .frame rfl rfl
          (keeps_setQueue_setCall { st with dropping := [(s, t)] } hcall rfl rfl)
  | dispatch r =>
      obtain ⟨s, t, hcall, ⟨-, rfl⟩ | ⟨-, -, -, ⟨c, -, rfl⟩ | ⟨err, rfl⟩⟩⟩ := dispatch_cases h
      · exact .frame rfl rfl (keeps_afterDispatch hcall)
      · exact .frame rfl rfl (keeps_afterDispatch hcall)
      · refine effect_completeOrDiscard rfl rfl (keeps_afterDispatch hcall) fun x hk hr => ?_
        exact ⟨by rw [hk], ⟨t, by rw [hk]; exact hcall⟩, err, hr⟩
  | abandon r =>
      simp only [step, abandon] at h
      split at h
      · rename_i s hcall
        cases h
        exact .frame rfl rfl (keeps_setCall st (by rw [hcall]; exact keeps_of_place_none rfl rfl))
      · rename_i s hcall
        cases h
        exact .frame rfl rfl (keeps_setCall st (by rw [hcall]; exact keeps_of_place_none rfl rfl))
      · rename_i s t since hcall
        cases h
        exact .frame rfl rfl
          (keeps_setQueue_setCall st hcall rfl rfl)
      · exact absurd h (by simp)
  | dropAbandoned r =>
      simp only [step, dropAbandoned] at h
      split at h
      · rename_i s t hcall
        cases h
        exact .frame rfl rfl
          (keeps_setQueue_setCall st hcall rfl rfl)
      · exact absurd h (by simp)
  | cancelRoute c r =>
      simp only [step, cancelRoute] at h
      split at h
      · cases h
        exact .frame rfl rfl fun _ => .refl _
      · exact absurd h (by simp)
  | cancelPending s r =>
      simp only [step, cancelPending] at h
      split_ifs at h
      split at h
      · cases h
        exact .frame rfl rfl fun _ => .refl _
      · rename_i x m hc
        cases h
        refine .settled [x] (PendingMap.settling_complete hc) ?_ rfl fun _ => .refl _
        intro y hy
        obtain ⟨ent, -, hx, -⟩ := PendingMap.complete_eq_some hc
        rw [List.mem_singleton.mp hy, hx]
        exact ⟨rfl, rfl⟩
  | cancelSend s r =>
      simp only [step, cancelSend] at h
      split_ifs at h
      cases h
      exact effect_trySendCancel rfl rfl fun _ => .refl _
  | takeExpired =>
      simp only [step, takeExpired] at h
      split_ifs at h
      cases h
      exact effect_removeMatching rfl rfl rfl fun x hp hr => ⟨hp, hr⟩
  | expireSend s r =>
      simp only [step, expireSend] at h
      split_ifs at h
      split at h <;> cases h
      · exact effect_trySendCancel rfl rfl fun _ => .refl _
      · exact .frame rfl rfl fun _ => .refl _
  | shutdown =>
      cases h
      exact .frame rfl rfl fun _ => .refl _
  | drain =>
      simp only [step, drain] at h
      split_ifs at h
      cases h
      exact effect_removeMatching rfl rfl rfl fun x _ hr => hr
  | dropTicket s t =>
      simp only [step, dropTicket] at h
      split_ifs at h
      cases h
      exact .frame rfl rfl fun _ => .refl _

end BrokerState

end FigmaDevMcp

import FigmaDevMcp.Broker.Routes

set_option autoImplicit false

/-!
# Requests that are let go

A cancel that has found its socket is carried out by whoever asked for it, and a request that has
lost its entry after its admission gets no other.

* `step_frame`: what no step of the broker takes back;
* `Released`: no entry of the request is left, and none will come (`step_released`).
-/

namespace FigmaDevMcp

variable {W : World}

namespace BrokerState

/-- What an event leaves as it was, unless it is the one that works on it. -/
structure Frame (st : BrokerState W) (e : BrokerEvent W) (st' : BrokerState W) : Prop where
  now : st.now ≤ st'.now
  routed : ∀ k ∈ st.cancelRouted, e ≠ .cancelPending k.1 k.2 → k ∈ st'.cancelRouted
  sends : ∀ k ∈ st.cancelSends, e ≠ .cancelSend k.1 k.2 → k ∈ st'.cancelSends

theorem Frame.of_eq {st st' : BrokerState W} {e : BrokerEvent W} (hnow : st'.now = st.now)
    (hrouted : st'.cancelRouted = st.cancelRouted) (hsends : st'.cancelSends = st.cancelSends) :
    Frame st e st' :=
  ⟨hnow.ge, fun _ hk _ => hrouted ▸ hk, fun _ hk _ => hsends ▸ hk⟩

variable {st st₀ st' : BrokerState W} {e : BrokerEvent W}

theorem Frame.completeOrDiscard (h : Frame st e st₀) (s : W.SocketId) (r : W.RequestId)
    (result : PendingResult W) : Frame st e (st₀.completeOrDiscard s r result) := by
  unfold BrokerState.completeOrDiscard
  split <;> exact ⟨h.now, h.routed, h.sends⟩

theorem Frame.noteProgress (h : Frame st e st₀) (s : W.SocketId) (r : W.RequestId) (p : Progress) :
    Frame st e (st₀.noteProgress s r p) := by
  unfold BrokerState.noteProgress
  split
  · exact ⟨h.now, h.routed, h.sends⟩
  · exact ⟨h.now, h.routed, h.sends⟩
  · split <;> exact ⟨h.now, h.routed, h.sends⟩

theorem Frame.trySendCancel (h : Frame st e st₀) (s : W.SocketId) (r : W.RequestId) :
    Frame st e (st₀.trySendCancel s r) := by
  unfold BrokerState.trySendCancel
  split <;> exact ⟨h.now, h.routed, h.sends⟩

/-- A step erases a cancel only where it carries it out. -/
theorem step_frame (h : st.step e = some st') : Frame st e st' := by
  cases e with
  | tick d =>
      cases h
      exact ⟨Nat.le_add_right _ _, fun _ hk _ => hk, fun _ hk _ => hk⟩
  | incoming s m =>
      simp only [step, incoming] at h
      split_ifs at h
      cases h
      have hframe : Frame st (.incoming s m) (st.touchSocket s) := .of_eq rfl rfl rfl
      cases m with
      | hello => exact .of_eq rfl rfl rfl
      | pong => exact hframe
      | progress r p => exact hframe.noteProgress s r p
      | response r v => exact hframe.completeOrDiscard s r _
      | error r e => exact hframe.completeOrDiscard s r _
  | recvOutbound s =>
      simp only [step, recvOutbound] at h
      split_ifs at h
      obtain ⟨⟨m, c⟩, -, rfl⟩ := Option.map_eq_some_iff.mp h
      exact .of_eq rfl rfl rfl
  | dispatch r =>
      obtain ⟨s, t, -, ⟨-, rfl⟩ | ⟨-, -, -, ⟨c, -, rfl⟩ | ⟨err, rfl⟩⟩⟩ := dispatch_cases h
      · exact .of_eq rfl rfl rfl
      · exact .of_eq rfl rfl rfl
      · have hframe : Frame st (.dispatch r) (st.afterDispatch r s t) := .of_eq rfl rfl rfl
        exact hframe.completeOrDiscard s r _
  | cancelRoute c r =>
      simp only [step, cancelRoute] at h
      split at h <;> cases h
      exact ⟨le_rfl, fun _ hk _ => List.mem_cons_of_mem _ hk, fun _ hk _ => hk⟩
  | cancelPending s r =>
      simp only [step, cancelPending] at h
      split_ifs at h
      have hrouted : ∀ k ∈ st.cancelRouted, BrokerEvent.cancelPending s r ≠ .cancelPending k.1 k.2 →
          k ∈ st.cancelRouted.erase (s, r) := fun k hk hne => by
        refine (List.mem_erase_of_ne fun heq => hne ?_).2 hk
        rw [heq]
      split at h <;> cases h
      · exact ⟨le_rfl, hrouted, fun _ hk _ => hk⟩
      · exact ⟨le_rfl, hrouted, fun _ hk _ => List.mem_cons_of_mem _ hk⟩
  | cancelSend s r =>
      simp only [step, cancelSend] at h
      split_ifs at h
      cases h
      have hframe : Frame st (.cancelSend s r)
          { st with cancelSends := st.cancelSends.erase (s, r) } := by
        refine ⟨le_rfl, fun _ hk _ => hk, fun k hk hne => ?_⟩
        refine (List.mem_erase_of_ne fun heq => hne ?_).2 hk
        rw [heq]
      exact hframe.trySendCancel s r
  | expireSend s r =>
      simp only [step, expireSend] at h
      split_ifs at h
      have hframe : Frame st (.expireSend s r)
          { st with expiredSends := st.expiredSends.erase (s, r) } := .of_eq rfl rfl rfl
      split at h <;> cases h
      · exact hframe.trySendCancel _ r
      · exact hframe
  | _ =>
      simp only [step, register, addQueue, leave, cleanupRegistry, cleanupPending, cleanupQueue,
        closeSocket, abortSocket, route, findQueue, tryEnqueue, admitRequest, abandon,
        dropAbandoned, takeExpired, drain, dropTicket] at h
      repeat' split at h
      all_goals (cases h <;> exact .of_eq rfl rfl rfl)

/-- The request is not on its way to an admission. -/
def Halted (st : BrokerState W) (r : W.RequestId) : Prop :=
  (st.call r).socket? = none ∨ (st.call r).place.isSome = true

/-- No entry of the request is left, and none will come, but where a cleanup takes it. -/
structure Released (st : BrokerState W) (r : W.RequestId) : Prop where
  halted : st.Halted r
  entry : ∀ s, st.pending.lookup (s, r) = none ∨ st.Gone s

variable {r : W.RequestId}

theorem Halted.not_enqueued (h : st.Halted r) {s : W.SocketId} {t : QueueTicket} {since : ℕ} :
    st.call r ≠ .enqueued s t since := by
  intro hcall
  rcases h with h | h
  · rw [hcall] at h
    cases h
  · rw [hcall] at h
    cases h

/-- A place is kept, and comes with an admission only. -/
theorem step_place (hstep : st.step e = some st') (h : st.Halted r) :
    (st'.call r).place = (st.call r).place := by
  cases step_effect hstep with
  | kept _ _ hcalls => exact (hcalls r).place
  | admitted q s t since m _ hcall _ hst =>
      subst hst
      rw [call_setCall]
      split_ifs with hr
      · exact absurd (hr ▸ hcall) h.not_enqueued
      · rfl
  | settled _ _ _ _ hcalls => exact (hcalls r).place

theorem step_halted (hstep : st.step e = some st') (hroute : ∀ c, e ≠ .route r c)
    (h : st.Halted r) : st'.Halted r := by
  have hplace := step_place hstep h
  cases step_call hstep r with
  | same hcall =>
      unfold Halted
      rw [hcall]
      exact h
  | routed c hevent _ _ => exact absurd hevent (hroute c)
  | moved s hfrom _ =>
      right
      rcases h with h | h
      · rw [hfrom] at h
        cases h
      · rw [hplace]
        exact h

theorem step_released (hstep : st.step e = some st') (hroute : ∀ c, e ≠ .route r c)
    (h : st.Released r) : st'.Released r := by
  refine ⟨step_halted hstep hroute h.halted, fun s => ?_⟩
  rcases h.entry s with hnone | hgone
  · rcases step_lookup_none hstep hnone with hnone' | ⟨t, since, -, hcall⟩
    · exact Or.inl hnone'
    · exact absurd hcall h.halted.not_enqueued
  · exact Or.inr (step_gone hstep hgone)

end BrokerState

end FigmaDevMcp

import Mathlib.Data.List.Count
import FigmaDevMcp.Broker.ExactlyOnce

set_option autoImplicit false

/-!
# The order of requests and cancels on a socket's channel

A request is sent by its dispatch task while its entry is pending; a cancel is sent only after
the entry was settled. The pending lock orders the two, so on every channel a request never
follows its cancel.

* `SendEffect`, `step_send`: what a step can append to the outbound channels;
* `SendInv`: requests come from finished dispatches, cancels from settled entries;
* **`dispatch_order`**: each request is sent at most once, only while pending, and never after
  its cancel, and what the plugin receives is an initial part of what was sent.
-/

namespace FigmaDevMcp

variable {W : World}

namespace BrokerState

/-- The cancels the broker still owes to plugins. -/
def owed (st : BrokerState W) : List (PendingKey W) := st.cancelSends ++ st.expiredSends

/-- What a step appends to the outbound channels. -/
inductive SendEffect (st : BrokerState W) (e : BrokerEvent W) (st' : BrokerState W) : Prop
  | quiet (hlog : ∀ s, (st'.outbound s).log = (st.outbound s).log)
  | request (s : W.SocketId) (r : W.RequestId) (t : QueueTicket) (hevent : e = .dispatch r)
      (hcall : st.call r = .admitted s t) (hcall' : st'.call r = .dispatched s t)
      (hpending : (st.pending.lookup (s, r)).isSome = true) (hkept : st'.pending = st.pending)
      (hlog : ∀ u, (st'.outbound u).log =
        (st.outbound u).log ++ if u = s then [.request r] else [])
  | cancel (s : W.SocketId) (r : W.RequestId) (howed : (s, r) ∈ st.owed)
      (hlog : ∀ u, (st'.outbound u).log =
        (st.outbound u).log ++ if u = s then [.cancel r] else [])

/-! ## The channels in a step -/

theorem log_setOutbound (st : BrokerState W) {s : W.SocketId}
    {c : Channel (BrokerToPlugin W)} {ms : List (BrokerToPlugin W)}
    (hc : c.log = (st.outbound s).log ++ ms) (u : W.SocketId) :
    ((st.setOutbound s c).outbound u).log =
      (st.outbound u).log ++ if u = s then ms else [] := by
  by_cases hu : u = s
  · subst hu
    simp only [setOutbound, Function.update_self, if_true, hc]
  · simp only [setOutbound, Function.update_of_ne hu, if_neg hu, List.append_nil]

theorem log_setOutbound_same {st : BrokerState W} {s : W.SocketId}
    {c : Channel (BrokerToPlugin W)} (hc : c.log = (st.outbound s).log) (u : W.SocketId) :
    ((st.setOutbound s c).outbound u).log = (st.outbound u).log := by
  have hc' : c.log = (st.outbound s).log ++ [] := by rw [hc, List.append_nil]
  simpa using log_setOutbound st hc' u

theorem completeOrDiscard_outbound (st : BrokerState W) (s : W.SocketId) (r : W.RequestId)
    (result : PendingResult W) : (st.completeOrDiscard s r result).outbound = st.outbound := by
  unfold completeOrDiscard
  split <;> rfl

theorem noteProgress_outbound (st : BrokerState W) (s : W.SocketId) (r : W.RequestId)
    (p : Progress) : (st.noteProgress s r p).outbound = st.outbound := by
  unfold noteProgress
  split
  · rfl
  · rfl
  · split <;> rfl

theorem completeOrDiscard_registry (st : BrokerState W) (s : W.SocketId) (r : W.RequestId)
    (result : PendingResult W) : (st.completeOrDiscard s r result).registry = st.registry := by
  unfold completeOrDiscard
  split <;> rfl

theorem completeOrDiscard_owed (st : BrokerState W) (s : W.SocketId) (r : W.RequestId)
    (result : PendingResult W) : (st.completeOrDiscard s r result).owed = st.owed := by
  unfold completeOrDiscard
  split <;> rfl

theorem noteProgress_registry (st : BrokerState W) (s : W.SocketId) (r : W.RequestId)
    (p : Progress) : (st.noteProgress s r p).registry = st.registry := by
  unfold noteProgress
  split
  · rfl
  · rfl
  · split <;> rfl

theorem noteProgress_owed (st : BrokerState W) (s : W.SocketId) (r : W.RequestId)
    (p : Progress) : (st.noteProgress s r p).owed = st.owed := by
  unfold noteProgress
  split
  · rfl
  · rfl
  · split <;> rfl

theorem trySendCancel_registry (st : BrokerState W) (s : W.SocketId) (r : W.RequestId) :
    (st.trySendCancel s r).registry = st.registry := by
  unfold trySendCancel
  split <;> rfl

theorem trySendCancel_owed (st : BrokerState W) (s : W.SocketId) (r : W.RequestId) :
    (st.trySendCancel s r).owed = st.owed := by
  unfold trySendCancel
  split <;> rfl

theorem handleIncoming_registry (st : BrokerState W) (s : W.SocketId) (m : PluginToBroker W) :
    (st.handleIncoming s m).registry = (st.registry.touchSocket s st.now).2 := by
  cases m with
  | hello => rfl
  | pong => rfl
  | progress r p => exact noteProgress_registry _ s r p
  | response r v => exact completeOrDiscard_registry _ s r _
  | error r e => exact completeOrDiscard_registry _ s r _

theorem handleIncoming_owed (st : BrokerState W) (s : W.SocketId) (m : PluginToBroker W) :
    (st.handleIncoming s m).owed = st.owed := by
  cases m with
  | hello => rfl
  | pong => rfl
  | progress r p => exact noteProgress_owed _ s r p
  | response r v => exact completeOrDiscard_owed _ s r _
  | error r e => exact completeOrDiscard_owed _ s r _

theorem handleIncoming_outbound (st : BrokerState W) (s : W.SocketId) (m : PluginToBroker W) :
    (st.handleIncoming s m).outbound = st.outbound := by
  cases m with
  | hello => rfl
  | pong => rfl
  | progress r p => exact noteProgress_outbound _ s r p
  | response r v => exact completeOrDiscard_outbound _ s r _
  | error r e => exact completeOrDiscard_outbound _ s r _

/-- An owed cancel is sent on its channel or lost. -/
theorem send_trySendCancel {st st₀ : BrokerState W} {e : BrokerEvent W} {s : W.SocketId}
    {r : W.RequestId} (hout : st₀.outbound = st.outbound) (howed : (s, r) ∈ st.owed) :
    SendEffect st e (st₀.trySendCancel s r) := by
  unfold trySendCancel
  split
  · rename_i c hc
    refine .cancel s r howed fun u => ?_
    rw [log_setOutbound st₀ (Channel.log_of_trySend hc) u, hout]
  · exact .quiet fun u => by rw [hout]

/-- **Sends of a step.** A step sends at most one message: a request of a pending entry that its
dispatch task holds, or an owed cancel. -/
theorem step_send {st st' : BrokerState W} {e : BrokerEvent W} (hreg : st.registry.Paired)
    (h : st.step e = some st') : SendEffect st e st' := by
  cases e with
  | tick d =>
      cases h
      exact .quiet fun _ => rfl
  | register s c =>
      simp only [step, register] at h
      split_ifs at h
      split at h <;> cases h <;> exact .quiet fun _ => rfl
  | addQueue s =>
      simp only [step, addQueue] at h
      split_ifs at h
      cases h
      exact .quiet fun _ => rfl
  | incoming s m =>
      simp only [step, incoming] at h
      split_ifs at h
      cases h
      exact .quiet fun u => by rw [handleIncoming_outbound]
  | recvOutbound s =>
      simp only [step, recvOutbound] at h
      split_ifs at h
      obtain ⟨⟨m, c⟩, hc, rfl⟩ := Option.map_eq_some_iff.mp h
      exact .quiet (log_setOutbound_same (Channel.log_of_recv hc))
  | leave s =>
      simp only [step, leave] at h
      split_ifs at h
      cases h
      exact .quiet fun _ => rfl
  | cleanupRegistry s =>
      simp only [step, cleanupRegistry] at h
      split_ifs at h
      cases h
      exact .quiet fun _ => rfl
  | cleanupPending s =>
      simp only [step, cleanupPending] at h
      split_ifs at h
      cases h
      exact .quiet fun _ => rfl
  | cleanupQueue s =>
      simp only [step, cleanupQueue] at h
      split_ifs at h
      cases h
      exact .quiet fun _ => rfl
  | closeSocket s =>
      simp only [step, closeSocket] at h
      split_ifs at h
      cases h
      exact .quiet (log_setOutbound_same (Channel.log_close _))
  | abortSocket s =>
      simp only [step, abortSocket] at h
      split_ifs at h
      cases h
      exact .quiet (log_setOutbound_same (Channel.log_close _))
  | route r c =>
      simp only [step, route] at h
      split at h
      · split at h <;> cases h <;> exact .quiet fun _ => rfl
      · exact absurd h (by simp)
  | findQueue r =>
      simp only [step, findQueue] at h
      split at h
      · split_ifs at h <;> cases h <;> exact .quiet fun _ => rfl
      · exact absurd h (by simp)
  | tryEnqueue r =>
      simp only [step, tryEnqueue] at h
      split at h
      · split at h <;> cases h <;> exact .quiet fun _ => rfl
      · exact absurd h (by simp)
  | admitRequest r =>
      obtain ⟨s, t, since, -, -, ⟨m, -, rfl⟩ | ⟨-, rfl⟩⟩ := admitRequest_cases h
      · exact .quiet fun _ => rfl
      · exact .quiet fun _ => rfl
  | dispatch r =>
      obtain ⟨s, t, hcall, ⟨-, rfl⟩ | ⟨-, -, hp, ⟨c, hc, rfl⟩ | ⟨err, rfl⟩⟩⟩ := dispatch_cases h
      · exact .quiet fun _ => rfl
      · refine .request s r t rfl hcall ?_ hp rfl fun u => ?_
        · simp only [setOutbound, afterDispatch, setCall, Function.update_self]
        · exact log_setOutbound (st.afterDispatch r s t) (Channel.log_of_trySend hc) u
      · exact .quiet fun u => by rw [completeOrDiscard_outbound]; rfl
  | abandon r =>
      simp only [step, abandon] at h
      split at h
      · cases h
        exact .quiet fun _ => rfl
      · cases h
        exact .quiet fun _ => rfl
      · cases h
        exact .quiet fun _ => rfl
      · exact absurd h (by simp)
  | dropAbandoned r =>
      simp only [step, dropAbandoned] at h
      split at h
      · cases h
        exact .quiet fun _ => rfl
      · exact absurd h (by simp)
  | cancelRoute c r =>
      simp only [step, cancelRoute] at h
      split at h
      · cases h
        exact .quiet fun _ => rfl
      · exact absurd h (by simp)
  | cancelPending s r =>
      simp only [step, cancelPending] at h
      split_ifs at h
      split at h <;> cases h <;> exact .quiet fun _ => rfl
  | cancelSend s r =>
      simp only [step, cancelSend] at h
      split_ifs at h with hmem
      cases h
      exact send_trySendCancel rfl (List.mem_append_left _ hmem)
  | takeExpired =>
      simp only [step, takeExpired] at h
      split_ifs at h
      cases h
      exact .quiet fun _ => rfl
  | expireSend s r =>
      simp only [step, expireSend] at h
      split_ifs at h with hmem
      split at h
      · rename_i o ho
        obtain rfl : o = s := hreg.outboundForSocket_eq ho
        cases h
        exact send_trySendCancel rfl (List.mem_append_right _ hmem)
      · cases h
        exact .quiet fun _ => rfl
  | shutdown =>
      cases h
      exact .quiet fun _ => rfl
  | drain =>
      simp only [step, drain] at h
      split_ifs at h
      cases h
      exact .quiet fun _ => rfl
  | dropTicket s t =>
      simp only [step, dropTicket] at h
      split_ifs at h
      cases h
      exact .quiet fun _ => rfl

/-- The two maps of the registry stay inverse to each other. -/
theorem step_paired {st st' : BrokerState W} {e : BrokerEvent W} (h : st.step e = some st')
    (hreg : st.registry.Paired) : st'.registry.Paired := by
  cases e with
  | register s c =>
      simp only [step, register] at h
      split_ifs at h
      split at h <;> cases h
      · rename_i g hg
        exact hreg.insert hg
      · exact hreg
  | incoming s m =>
      simp only [step, incoming] at h
      split_ifs at h
      cases h
      rw [handleIncoming_registry]
      exact hreg.touchSocket s st.now
  | cleanupRegistry s =>
      simp only [step, cleanupRegistry] at h
      split_ifs at h
      cases h
      exact hreg.removeSocket s
  | dispatch r =>
      obtain ⟨s, t, -, ⟨-, rfl⟩ | ⟨-, -, -, ⟨c, -, rfl⟩ | ⟨err, rfl⟩⟩⟩ := dispatch_cases h
      · exact hreg
      · exact hreg
      · rw [completeOrDiscard_registry]
        exact hreg
  | cancelSend s r =>
      simp only [step, cancelSend] at h
      split_ifs at h
      cases h
      rw [trySendCancel_registry]
      exact hreg
  | expireSend s r =>
      simp only [step, expireSend] at h
      split_ifs at h
      split at h <;> cases h
      · rw [trySendCancel_registry]
        exact hreg
      · exact hreg
  | recvOutbound s =>
      simp only [step, recvOutbound] at h
      split_ifs at h
      obtain ⟨_, -, rfl⟩ := Option.map_eq_some_iff.mp h
      exact hreg
  | _ =>
      simp only [step, addQueue, leave, cleanupPending, cleanupQueue, closeSocket, abortSocket,
        route, findQueue, tryEnqueue, admitRequest, abandon, dropAbandoned, cancelRoute,
        cancelPending, takeExpired, drain, dropTicket] at h
      repeat' split at h
      all_goals (cases h <;> exact hreg)

/-- A cancel comes to be owed only when its entry is settled. -/
theorem step_owed {st st' : BrokerState W} {e : BrokerEvent W} (h : st.step e = some st')
    {k : PendingKey W} (hk : k ∈ st'.owed) : k ∈ st.owed ∨ k ∈ st'.resolved.map Settled.key := by
  cases e with
  | incoming s m =>
      simp only [step, incoming] at h
      split_ifs at h
      cases h
      exact Or.inl (handleIncoming_owed st s m ▸ hk)
  | dispatch r =>
      obtain ⟨s, t, -, ⟨-, rfl⟩ | ⟨-, -, -, ⟨c, -, rfl⟩ | ⟨err, rfl⟩⟩⟩ := dispatch_cases h
      · exact Or.inl hk
      · exact Or.inl hk
      · rw [completeOrDiscard_owed] at hk
        exact Or.inl hk
  | cancelPending s r =>
      simp only [step, cancelPending] at h
      split_ifs at h
      split at h <;> cases h
      · exact Or.inl hk
      · rename_i x m hc
        obtain ⟨ent, -, hx, -⟩ := PendingMap.complete_eq_some hc
        rcases List.mem_cons.mp hk with rfl | hk
        · exact Or.inr (List.mem_map.mpr
            ⟨x, List.mem_append_right _ List.mem_cons_self, by rw [hx]⟩)
        · exact Or.inl hk
  | cancelSend s r =>
      simp only [step, cancelSend] at h
      split_ifs at h
      cases h
      rw [trySendCancel_owed] at hk
      exact Or.inl (((List.erase_sublist).append (List.Sublist.refl _)).subset hk)
  | takeExpired =>
      simp only [step, takeExpired] at h
      split_ifs at h
      cases h
      rcases List.mem_append.mp hk with hk | hk
      · exact Or.inl (List.mem_append_left _ hk)
      · rcases List.mem_append.mp hk with hk | hk
        · refine Or.inr ?_
          simp only [settle, List.map_append]
          exact List.mem_append_right _ hk
        · exact Or.inl (List.mem_append_right _ hk)
  | expireSend s r =>
      have hsub : (st.cancelSends ++ st.expiredSends.erase (s, r)).Sublist st.owed :=
        (List.Sublist.refl _).append List.erase_sublist
      simp only [step, expireSend] at h
      split_ifs at h
      split at h <;> cases h
      · rw [trySendCancel_owed] at hk
        exact Or.inl (hsub.subset hk)
      · exact Or.inl (hsub.subset hk)
  | recvOutbound s =>
      simp only [step, recvOutbound] at h
      split_ifs at h
      obtain ⟨_, -, rfl⟩ := Option.map_eq_some_iff.mp h
      exact Or.inl hk
  | _ =>
      simp only [step, register, addQueue, leave, cleanupRegistry, cleanupPending, cleanupQueue,
        closeSocket, abortSocket, route, findQueue, tryEnqueue, admitRequest, abandon,
        dropAbandoned, cancelRoute, drain, dropTicket] at h
      repeat' split at h
      all_goals (cases h <;> exact Or.inl hk)

/-! ## The invariant -/

/-- In the list, `b` never stands after `a`. -/
def NeverAfter {μ : Type} (a b : μ) (l : List μ) : Prop :=
  l.Pairwise fun x y => x = a → y ≠ b

/-- What has been sent to a socket, by the phases of the calls. -/
structure SendInv (st : BrokerState W) : Prop where
  pending : PendingInv st
  paired : st.registry.Paired
  owed : ∀ k ∈ st.owed, k ∈ st.resolved.map Settled.key
  sent : ∀ s r, .request r ∈ (st.outbound s).log → ∃ t, st.call r = .dispatched s t
  once : ∀ s, (st.outbound s).log.Pairwise fun x y => ∀ r, x = .request r → y ≠ .request r
  cancelled : ∀ s r, .cancel r ∈ (st.outbound s).log → (s, r) ∈ st.resolved.map Settled.key
  order : ∀ s r, NeverAfter (.cancel r) (.request r) (st.outbound s).log

theorem sendInv_init : SendInv (init : BrokerState W) := by
  refine ⟨pendingInv_init, SessionRegistry.paired_new 0, ?_, ?_, ?_, ?_, ?_⟩
  · exact fun k hk => absurd hk List.not_mem_nil
  · exact fun s r hr => absurd hr List.not_mem_nil
  · exact fun s => List.Pairwise.nil
  · exact fun s r hr => absurd hr List.not_mem_nil
  · exact fun s r => List.Pairwise.nil

/-- Settled entries stay settled. -/
theorem step_resolved_prefix {st st' : BrokerState W} {e : BrokerEvent W}
    (h : st.step e = some st') : ∃ out, st'.resolved = st.resolved ++ out := by
  cases step_effect h with
  | kept hresolved _ _ => exact ⟨[], by rw [hresolved, List.append_nil]⟩
  | admitted r s t since m _ _ _ hst =>
      subst hst
      exact ⟨[], (List.append_nil _).symm⟩
  | settled out _ _ hresolved _ => exact ⟨out, hresolved⟩

theorem step_settled_mono {st st' : BrokerState W} {e : BrokerEvent W}
    (h : st.step e = some st') {k : PendingKey W} (hk : k ∈ st.resolved.map Settled.key) :
    k ∈ st'.resolved.map Settled.key := by
  obtain ⟨out, ho⟩ := step_resolved_prefix h
  rw [ho, List.map_append]
  exact List.mem_append_left _ hk

/-- A finished dispatch stays finished. -/
theorem step_dispatched {st st' : BrokerState W} {e : BrokerEvent W} (h : st.step e = some st')
    {s : W.SocketId} {r : W.RequestId} {t : QueueTicket} (hd : st.call r = .dispatched s t) :
    st'.call r = .dispatched s t := by
  cases step_effect h with
  | kept _ _ hcalls => exact (hcalls r).dispatched s t hd
  | admitted q u v since m _ hcall _ hst =>
      subst hst
      have hne : r ≠ q := by
        rintro rfl
        rw [hd] at hcall
        exact absurd hcall (by simp)
      simp only [setCall, Function.update_of_ne hne, hd]
  | settled _ _ _ _ hcalls => exact (hcalls r).dispatched s t hd

theorem step_sendInv (st : BrokerState W) (e : BrokerEvent W) (st' : BrokerState W)
    (hstep : st.step e = some st') (h : SendInv st) : SendInv st' := by
  have howed : ∀ k ∈ st'.owed, k ∈ st'.resolved.map Settled.key := by
    intro k hk
    rcases step_owed hstep hk with hk | hk
    · exact step_settled_mono hstep (h.owed k hk)
    · exact hk
  have hsent : ∀ s r, .request r ∈ (st.outbound s).log → ∃ t, st'.call r = .dispatched s t := by
    intro s r hr
    obtain ⟨t, ht⟩ := h.sent s r hr
    exact ⟨t, step_dispatched hstep ht⟩
  have hcancelled : ∀ s r, .cancel r ∈ (st.outbound s).log →
      (s, r) ∈ st'.resolved.map Settled.key :=
    fun s r hr => step_settled_mono hstep (h.cancelled s r hr)
  have hpaired := step_paired hstep h.paired
  have hpending := step_pendingInv st e st' hstep h.pending
  cases step_send h.paired hstep with
  | quiet hlog =>
      refine ⟨hpending, hpaired, howed, ?_, ?_, ?_, ?_⟩ <;> intro s <;> rw [hlog s]
      · exact hsent s
      · exact h.once s
      · exact hcancelled s
      · exact h.order s
  | request s r t _ hcall hcall' hp _ hlog =>
      -- `r` was not dispatched before, and its entry was not settled
      have hnew : ∀ u, .request r ∉ (st.outbound u).log := by
        intro u hm
        obtain ⟨v, hv⟩ := h.sent u r hm
        rw [hcall] at hv
        exact absurd hv (by simp)
      have huncancelled : .cancel r ∉ (st.outbound s).log := fun hm =>
        h.pending.ledger.exclusive s r hp (h.cancelled s r hm)
      refine ⟨hpending, hpaired, howed, ?_, ?_, ?_, ?_⟩
      · intro u q hq
        rw [hlog u] at hq
        rcases List.mem_append.mp hq with hq | hq
        · exact hsent u q hq
        · split_ifs at hq with hu
          · obtain rfl : q = r := by simpa using hq
            exact ⟨t, hu ▸ hcall'⟩
          · exact absurd hq List.not_mem_nil
      · intro u
        rw [hlog u]
        split_ifs
        · refine List.pairwise_append.mpr ⟨h.once u, List.pairwise_singleton _ _, ?_⟩
          intro x hx y hy q hxq hyq
          rw [List.mem_singleton.mp hy] at hyq
          obtain rfl : r = q := by simpa using hyq
          exact hnew u (hxq ▸ hx)
        · rw [List.append_nil]
          exact h.once u
      · intro u q hq
        rw [hlog u] at hq
        rcases List.mem_append.mp hq with hq | hq
        · exact hcancelled u q hq
        · split_ifs at hq <;> simp at hq
      · intro u q
        rw [hlog u]
        split_ifs with hu
        · refine List.pairwise_append.mpr ⟨h.order u q, List.pairwise_singleton _ _, ?_⟩
          intro x hx y hy hxq hyq
          rw [List.mem_singleton.mp hy] at hyq
          obtain rfl : r = q := by simpa using hyq
          exact huncancelled (hu ▸ hxq ▸ hx)
        · rw [List.append_nil]
          exact h.order u q
  | cancel s r hmem hlog =>
      refine ⟨hpending, hpaired, howed, ?_, ?_, ?_, ?_⟩
      · intro u q hq
        rw [hlog u] at hq
        rcases List.mem_append.mp hq with hq | hq
        · exact hsent u q hq
        · split_ifs at hq <;> simp at hq
      · intro u
        rw [hlog u]
        split_ifs
        · refine List.pairwise_append.mpr ⟨h.once u, List.pairwise_singleton _ _, ?_⟩
          intro x hx y hy q hxq hyq
          rw [List.mem_singleton.mp hy] at hyq
          exact absurd hyq (by simp)
        · rw [List.append_nil]
          exact h.once u
      · intro u q hq
        rw [hlog u] at hq
        rcases List.mem_append.mp hq with hq | hq
        · exact hcancelled u q hq
        · split_ifs at hq with hu
          · obtain rfl : q = r := by simpa using hq
            exact hu ▸ step_settled_mono hstep (h.owed _ hmem)
          · exact absurd hq List.not_mem_nil
      · intro u q
        rw [hlog u]
        split_ifs
        · refine List.pairwise_append.mpr ⟨h.order u q, List.pairwise_singleton _ _, ?_⟩
          intro x hx y hy hxq hyq
          rw [List.mem_singleton.mp hy] at hyq
          exact absurd hyq (by simp)
        · rw [List.append_nil]
          exact h.order u q

theorem sendInv_of_reachable {st : BrokerState W} (h : Exec.Reachable step init st) :
    SendInv st :=
  h.rec_inv sendInv_init step_sendInv

/-! ## Main result -/

/-- A new request on a channel is one whose entry is pending, before and after the step. -/
theorem step_request_pending {st st' : BrokerState W} {e : BrokerEvent W} (h : SendInv st)
    (hstep : st.step e = some st') {s : W.SocketId} {r : W.RequestId}
    (hold : .request r ∉ (st.outbound s).log) (hnew : .request r ∈ (st'.outbound s).log) :
    (st.pending.lookup (s, r)).isSome = true ∧ (st'.pending.lookup (s, r)).isSome = true := by
  cases step_send h.paired hstep with
  | quiet hlog => exact absurd (hlog s ▸ hnew) hold
  | request u q t _ _ _ hp hkept hlog =>
      rw [hlog s] at hnew
      rcases List.mem_append.mp hnew with hm | hm
      · exact absurd hm hold
      · split_ifs at hm with hu
        · obtain rfl : r = q := by simpa using hm
          subst hu
          exact ⟨hp, hkept ▸ hp⟩
        · exact absurd hm List.not_mem_nil
  | cancel u q _ hlog =>
      rw [hlog s] at hnew
      rcases List.mem_append.mp hnew with hm | hm
      · exact absurd hm hold
      · split_ifs at hm <;> simp at hm

/-- A settled request that was not sent is never sent. -/
theorem exec_never_sent {st st' : BrokerState W} {es : List (BrokerEvent W)} (h : SendInv st)
    (hrun : Exec.exec step st es = some st') {s : W.SocketId} {r : W.RequestId}
    (hsettled : (s, r) ∈ st.resolved.map Settled.key)
    (hunsent : .request r ∉ (st.outbound s).log) (u : W.SocketId) :
    .request r ∉ (st'.outbound u).log := by
  have hall : ∀ u, .request r ∉ (st.outbound u).log := by
    intro u hm
    obtain ⟨t, ht⟩ := h.sent u r hm
    have hplace := h.pending.ledger.settled_place s r hsettled
    simp only [ledger, ht, CallPhase.place, Option.map_some, Option.some.injEq] at hplace
    exact hunsent (hplace ▸ hm)
  have hinv : SendInv st' ∧ (s, r) ∈ st'.resolved.map Settled.key ∧
      ∀ u, .request r ∉ (st'.outbound u).log := by
    refine Exec.exec_invariant (I := fun st => SendInv st ∧ (s, r) ∈ st.resolved.map Settled.key ∧
      ∀ u, .request r ∉ (st.outbound u).log) ?_ hrun ⟨h, hsettled, hall⟩
    rintro st e st' he ⟨hi, hs, hn⟩
    refine ⟨step_sendInv st e st' he hi, step_settled_mono he hs, fun u hm => ?_⟩
    have hp := (step_request_pending hi he (hn u) hm).1
    refine hi.pending.ledger.notMem_settled (s := u) hp ?_
    exact List.mem_map.mpr ⟨(s, r), hs, rfl⟩
  exact hinv.2.2 u

/-- **Dispatch order.** In every reachable state each request stands at most once on a channel
and never after its cancel, and what the plugin received is an initial part of the channel's
log; a step sends a request only while its entry is pending; and a request settled before it was
sent is sent in no continuation. -/
theorem dispatch_order {st : BrokerState W} (h : Exec.Reachable step init st) :
    (∀ s r, (st.outbound s).log.count (.request r) ≤ 1) ∧
    (∀ s r, NeverAfter (.cancel r) (.request r) (st.outbound s).log) ∧
    (∀ s r, (st.outbound s).received <+: (st.outbound s).log ∧
      NeverAfter (.cancel r) (.request r) (st.outbound s).received) ∧
    (∀ e st', st.step e = some st' → ∀ s r, .request r ∉ (st.outbound s).log →
      .request r ∈ (st'.outbound s).log → (st.pending.lookup (s, r)).isSome = true ∧
        (st'.pending.lookup (s, r)).isSome = true) ∧
    (∀ s r, (s, r) ∈ st.resolved.map Settled.key → .request r ∉ (st.outbound s).log →
      ∀ es st', Exec.exec step st es = some st' → ∀ u, .request r ∉ (st'.outbound u).log) := by
  have hinv := sendInv_of_reachable h
  refine ⟨fun s r => ?_, hinv.order, fun s r => ⟨Channel.received_isPrefix_log _, ?_⟩,
    fun e st' he s r => step_request_pending hinv he,
    fun s r hs hn es st' hrun u => exec_never_sent hinv hrun hs hn u⟩
  · by_contra hlt
    have hsub : (List.replicate 2 (BrokerToPlugin.request r)).Sublist (st.outbound s).log :=
      List.replicate_sublist_iff.mpr (not_le.mp hlt)
    have hpair := (hinv.once s).sublist hsub
    simp only [List.replicate, List.pairwise_cons, List.mem_singleton] at hpair
    exact hpair.1 _ rfl r rfl rfl
  · exact (hinv.order s r).sublist (Channel.received_isPrefix_log _).sublist

/-- Request `1` is sent and cancelled, request `2` is cancelled before its dispatch. -/
def cancelledTwice : List (BrokerEvent World.numbers) :=
  [.register 0 10, .addQueue 0, .route 1 10, .findQueue 1, .tryEnqueue 1, .admitRequest 1,
    .dispatch 1, .route 2 10, .findQueue 2, .tryEnqueue 2, .admitRequest 2, .cancelRoute 10 1,
    .cancelPending 0 1, .cancelSend 0 1, .dropTicket 0 ⟨1, 0⟩, .cancelRoute 10 2,
    .cancelPending 0 2, .cancelSend 0 2, .dropTicket 0 ⟨2, 1⟩, .dispatch 2, .recvOutbound 0]

theorem dispatch_order_cancelledTwice :
    ∃ st, Exec.exec step init cancelledTwice = some st ∧
      (st.outbound 0).log = [.request 1, .cancel 1, .cancel 2] ∧
      NeverAfter (.cancel 1) (.request 1) (st.outbound 0).log :=
  ⟨_, rfl, rfl, (dispatch_order ⟨cancelledTwice, rfl⟩).2.1 0 1⟩

end BrokerState

end FigmaDevMcp

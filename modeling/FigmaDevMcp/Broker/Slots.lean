import FigmaDevMcp.Broker.DispatchOrder

set_option autoImplicit false

/-!
# Queue places and pending entries

The queue ticket of an admitted request belongs to its pending entry. The invariant spans the
session queues, the invocations and the pending map: every live ticket belongs to exactly one
invocation, and that of an admitted invocation is live exactly as long as its entry is pending
or its drop is under way.

* `QueueState.Frame`: a queue operation that touches one ticket;
* `TicketOk`, `SlotInv`: what holds of the ticket of an invocation, and of all of them;
* `SlotInv.touch`, `SlotInv.settle`: the two ways a step changes tickets;
* `step_slotInv`: every step keeps the places accounted for.
-/

namespace FigmaDevMcp

variable {W : World}

/-! ## Queue operations that touch one ticket -/

namespace QueueState

/-- From `a` to `b`, only what belongs to channel `c` was touched. -/
structure Frame (a b : QueueState) (c : ℕ) : Prop where
  next_le : a.queue.chans.next ≤ b.queue.chans.next
  enqueues_le : a.enqueues ≤ b.enqueues
  tickets : ∀ u : QueueTicket, u.wait ≠ c → (u ∈ b.tickets ↔ u ∈ a.tickets)
  receivers : ∀ w, w ≠ c → w < a.queue.chans.next → w ∈ a.queue.chans.receivers →
    w ∈ b.queue.chans.receivers
  sent : ∀ w ∈ a.queue.chans.sentOn, w ∈ b.queue.chans.sentOn

theorem Frame.refl (a : QueueState) (c : ℕ) : Frame a a c :=
  ⟨le_rfl, le_rfl, fun _ _ => Iff.rfl, fun _ _ _ h => h, fun _ h => h⟩

theorem frame_dropWait (a : QueueState) (c : ℕ) : Frame a (a.dropWait c) c :=
  ⟨le_rfl, le_rfl, fun _ _ => Iff.rfl, fun _ hne _ h => Finset.mem_erase.mpr ⟨hne, h⟩,
    fun _ h => h⟩

theorem frame_dropTicket (a : QueueState) (t : QueueTicket) : Frame a (a.dropTicket t) t.wait := by
  refine ⟨(SessionQueue.release_chans_next _ _).ge, le_rfl, fun u hu => ?_, fun w _ _ h => ?_,
    fun w h => SessionQueue.release_sentOn h _⟩
  · exact List.mem_erase_of_ne fun he => hu (congrArg QueueTicket.wait he)
  · exact (SessionQueue.release_receivers a.queue t.id).symm ▸ h

theorem tryEnqueue_fst (a : QueueState) : a.tryEnqueue.1 = a.queue.tryEnqueue.1 := by
  unfold tryEnqueue
  rcases a.queue.tryEnqueue with ⟨r, q⟩
  cases r <;> rfl

theorem tryEnqueue_queue (a : QueueState) : a.tryEnqueue.2.queue = a.queue.tryEnqueue.2 := by
  unfold tryEnqueue
  rcases a.queue.tryEnqueue with ⟨r, q⟩
  cases r <;> rfl

theorem tryEnqueue_ok {a b : QueueState} {t : QueueTicket} (h : a.tryEnqueue = (.ok t, b)) :
    a.queue.tryEnqueue = (.ok t, b.queue) := by
  refine Prod.ext ?_ ?_
  · rw [← tryEnqueue_fst, h]
  · rw [← tryEnqueue_queue, h]

theorem tryEnqueue_enqueues (a : QueueState) : a.tryEnqueue.2.enqueues = a.enqueues + 1 := by
  unfold tryEnqueue
  rcases a.queue.tryEnqueue with ⟨r, q⟩
  cases r <;> rfl

/-- The ticket handed out is the only new one. -/
theorem tryEnqueue_tickets {a b : QueueState} {r : Except QueueError QueueTicket}
    (h : a.tryEnqueue = (r, b)) (u : QueueTicket) :
    u ∈ b.tickets ↔ r = .ok u ∨ u ∈ a.tickets := by
  unfold tryEnqueue at h
  rcases hq : a.queue.tryEnqueue with ⟨x, q⟩
  rw [hq] at h
  cases x with
  | ok t =>
      cases h
      rw [List.mem_cons, Except.ok.injEq, eq_comm]
  | error e =>
      cases h
      simp only [reduceCtorEq, false_or]

theorem frame_tryEnqueue {a b : QueueState} {r : Except QueueError QueueTicket}
    (h : a.tryEnqueue = (r, b)) : Frame a b a.queue.chans.next := by
  have hq : b.queue = a.queue.tryEnqueue.2 := by rw [← tryEnqueue_queue, h]
  refine ⟨?_, ?_, fun u hu => ?_, fun w _ hlt hw => ?_, fun w hw => ?_⟩
  · rw [hq, SessionQueue.tryEnqueue_chans_next]
    exact Nat.le_succ _
  · have he := tryEnqueue_enqueues a
    rw [h] at he
    exact he ▸ Nat.le_succ _
  · rw [tryEnqueue_tickets h]
    refine or_iff_right fun hr => hu ?_
    subst hr
    exact congrArg QueueTicket.wait (SessionQueue.tryEnqueue_ok (tryEnqueue_ok h))
  · rw [hq]
    exact SessionQueue.tryEnqueue_receivers hw hlt
  · rw [hq]
    exact SessionQueue.tryEnqueue_sentOn hw

end QueueState

/-! ## The ticket of an invocation -/

/-- The socket and the ticket an invocation has or had. -/
def CallPhase.ticket : CallPhase W → Option (W.SocketId × QueueTicket)
  | .enqueued s t _ | .abandoned s t | .admitted s t | .dispatched s t => some (s, t)
  | _ => none

/-- The invocation still waits for its place. -/
def CallPhase.awaits : CallPhase W → Bool
  | .enqueued _ _ _ | .admitted _ _ => true
  | _ => false

namespace BrokerState

/-- Somebody holds the ticket `t` of `r`: the invocation itself, its entry, or the task that took
the entry out. -/
def Holds (st : BrokerState W) (r : W.RequestId) (s : W.SocketId) (t : QueueTicket) : Prop :=
  match st.call r with
  | .enqueued _ _ _ | .abandoned _ _ => True
  | .admitted _ _ | .dispatched _ _ =>
    (st.pending.lookup (s, r)).isSome = true ∨ (s, t) ∈ st.dropping
  | _ => False

/-- What is true of the ticket of a call: its queue knows it for as long as the call holds it. -/
structure TicketOk (st : BrokerState W) (r : W.RequestId) (s : W.SocketId) (t : QueueTicket) :
    Prop where
  known : t.wait < (st.queue s).queue.chans.next
  held : t ∈ (st.queue s).tickets ↔ st.Holds r s t
  alive : (st.call r).awaits = true → t.wait ∈ (st.queue s).queue.chans.receivers
  number : (st.queue s).enqueues < 2 ^ 64 → t.id = t.wait + 1
  sent : (st.queue s).enqueues < 2 ^ 64 → st.call r = .dispatched s t →
    (st.pending.lookup (s, r)).isSome = true → t.wait ∈ (st.queue s).queue.chans.sentOn

/-- The places in the queues are those of the calls. -/
structure SlotInv (st : BrokerState W) : Prop where
  queue : ∀ s, QueueInv (st.queue s)
  ticket : ∀ r s t, (st.call r).ticket = some (s, t) → st.TicketOk r s t
  inj : ∀ q r s t u, (st.call q).ticket = some (s, t) → (st.call r).ticket = some (s, u) →
    t.wait = u.wait → q = r
  owned : ∀ s, ∀ t ∈ (st.queue s).tickets, ∃ r, (st.call r).ticket = some (s, t)
  dropNodup : st.dropping.Nodup
  dropped : ∀ s t, (s, t) ∈ st.dropping →
    ∃ r, (st.call r).place = some (s, t) ∧ st.pending.lookup (s, r) = none

theorem slotInv_init : SlotInv (init : BrokerState W) := by
  refine ⟨fun _ => queueInv_init, ?_, ?_, ?_, List.nodup_nil, ?_⟩
  · intro r s t h
    exact absurd h (by simp [init, CallPhase.ticket])
  · intro q r s t u h
    exact absurd h (by simp [init, CallPhase.ticket])
  · intro s t h
    exact absurd h List.not_mem_nil
  · intro s t h
    exact absurd h List.not_mem_nil

theorem ticket_of_place {p : CallPhase W} {s : W.SocketId} {t : QueueTicket}
    (h : p.place = some (s, t)) : p.ticket = some (s, t) := by
  cases p <;> simp_all [CallPhase.place, CallPhase.ticket]

/-- The ticket of an invocation the step does not concern. -/
theorem TicketOk.frame {st st' : BrokerState W} {r : W.RequestId} {s : W.SocketId}
    {t : QueueTicket} {c : ℕ} (h : st.TicketOk r s t)
    (hqueue : (st.queue s).Frame (st'.queue s) c) (hc : t.wait ≠ c)
    (hcall : st'.call r = st.call r)
    (hlive : (st'.pending.lookup (s, r)).isSome = (st.pending.lookup (s, r)).isSome)
    (hdrop : (s, t) ∈ st'.dropping ↔ (s, t) ∈ st.dropping) : st'.TicketOk r s t := by
  have hholds : st'.Holds r s t ↔ st.Holds r s t := by
    unfold Holds
    rw [hcall, hlive, hdrop]
  have hbound : (st'.queue s).enqueues < 2 ^ 64 → (st.queue s).enqueues < 2 ^ 64 :=
    fun hlt => hqueue.enqueues_le.trans_lt hlt
  refine ⟨h.known.trans_le hqueue.next_le, ?_, ?_, fun hlt => h.number (hbound hlt), ?_⟩
  · rw [hqueue.tickets t hc, hholds]
    exact h.held
  · intro ha
    exact hqueue.receivers _ hc h.known (h.alive (hcall ▸ ha))
  · intro hlt hd hl
    exact hqueue.sent _ (h.sent (hbound hlt) (hcall ▸ hd) (hlive ▸ hl))

/-! ## The two ways a step changes tickets -/

/-- The step touches the invocation `r₀` and its channel `c` on socket `s₀` only. -/
theorem SlotInv.touch {st st' : BrokerState W} {r₀ : W.RequestId} {s₀ : W.SocketId}
    {p : CallPhase W} {q : QueueState} {c : ℕ} (h : SlotInv st)
    (hqueue : st'.queue = Function.update st.queue s₀ q)
    (hcall : st'.call = Function.update st.call r₀ p)
    (hframe : (st.queue s₀).Frame q c) (hinv : QueueInv q)
    (hlive : ∀ s r, r ≠ r₀ →
      (st'.pending.lookup (s, r)).isSome = (st.pending.lookup (s, r)).isSome)
    (hsub : st'.dropping.Sublist st.dropping)
    (hdrop : ∀ s r t, r ≠ r₀ → (st.call r).ticket = some (s, t) →
      ((s, t) ∈ st'.dropping ↔ (s, t) ∈ st.dropping))
    (hold : ∀ s t, (st.call r₀).ticket = some (s, t) → s = s₀ ∧ t.wait = c)
    (hother : ∀ r t, r ≠ r₀ → (st.call r).ticket = some (s₀, t) → t.wait ≠ c)
    (hnew : ∀ s t, p.ticket = some (s, t) → s = s₀ ∧ t.wait = c ∧ st'.TicketOk r₀ s t)
    (howned : ∀ t ∈ q.tickets, t.wait = c → p.ticket = some (s₀, t))
    (hdropped : ∀ s t, (s, t) ∈ st'.dropping →
      ∃ r, (st'.call r).place = some (s, t) ∧ st'.pending.lookup (s, r) = none) :
    SlotInv st' := by
  have hself : st'.call r₀ = p := by rw [hcall, Function.update_self]
  have hne : ∀ r, r ≠ r₀ → st'.call r = st.call r := fun r hr => by
    rw [hcall, Function.update_of_ne hr]
  have hq : st'.queue s₀ = q := by rw [hqueue, Function.update_self]
  have hqne : ∀ s, s ≠ s₀ → st'.queue s = st.queue s := fun s hs => by
    rw [hqueue, Function.update_of_ne hs]
  refine ⟨?_, ?_, ?_, ?_, h.dropNodup.sublist hsub, hdropped⟩
  · intro s
    by_cases hs : s = s₀
    · exact hs ▸ hq ▸ hinv
    · exact hqne s hs ▸ h.queue s
  · intro r s t ht
    by_cases hr : r = r₀
    · subst hr
      exact (hnew s t (hself ▸ ht)).2.2
    · rw [hne r hr] at ht
      have hd := hdrop s r t hr ht
      by_cases hs : s = s₀
      · subst hs
        exact (h.ticket r s t ht).frame (hq ▸ hframe) (hother r t hr ht) (hne r hr)
          (hlive s r hr) hd
      · exact (h.ticket r s t ht).frame (hqne s hs ▸ .refl _ _) (Nat.lt_succ_self t.wait).ne
          (hne r hr) (hlive s r hr) hd
  · intro a b s t u ha hb htu
    by_cases har : a = r₀ <;> by_cases hbr : b = r₀
    · rw [har, hbr]
    · subst har
      rw [hself] at ha
      rw [hne b hbr] at hb
      obtain ⟨rfl, hw, -⟩ := hnew s t ha
      exact absurd (htu.symm.trans hw) (hother b u hbr hb)
    · subst hbr
      rw [hself] at hb
      rw [hne a har] at ha
      obtain ⟨rfl, hw, -⟩ := hnew s u hb
      exact absurd (htu.trans hw) (hother a t har ha)
    · rw [hne a har] at ha
      rw [hne b hbr] at hb
      exact h.inj a b s t u ha hb htu
  · intro s t ht
    by_cases hs : s = s₀
    · subst hs
      rw [hq] at ht
      by_cases hw : t.wait = c
      · exact ⟨r₀, hself.symm ▸ howned t ht hw⟩
      · obtain ⟨r, hr⟩ := h.owned s t ((hframe.tickets t hw).mp ht)
        have hrne : r ≠ r₀ := by
          rintro rfl
          exact hw (hold s t hr).2
        exact ⟨r, (hne r hrne).symm ▸ hr⟩
    · rw [hqne s hs] at ht
      obtain ⟨r, hr⟩ := h.owned s t ht
      have hrne : r ≠ r₀ := by
        rintro rfl
        exact hs (hold s t hr).1
      exact ⟨r, (hne r hrne).symm ▸ hr⟩

/-- Entries are taken out under the lock, and their tickets are about to be dropped. -/
theorem SlotInv.settle {st st' : BrokerState W} {out : List (Settled W)} (h : SlotInv st)
    (hfree : st.dropping = []) (hentry : ∀ k p, st.pending.lookup k = some p → st.EntryOk k p)
    (hs : st.pending.Settling out st'.pending) (hcall : st'.call = st.call)
    (hqueue : st'.queue = st.queue)
    (hdrop : st'.dropping =
      out.filterMap fun x => x.entry.ticket.map fun t => (x.key.1, t)) : SlotInv st' := by
  -- the ticket of an entry taken out is that of its invocation
  have hplace : ∀ x ∈ out, ∀ t, x.entry.ticket = some t →
      (st.call x.key.2).place = some (x.key.1, t) := by
    intro x hx t ht
    obtain ⟨u, hu, hp⟩ := (hentry _ _ (hs.entry x hx)).ticket
    rw [ht] at hu
    rw [hp, Option.some.inj hu]
  have hmem : ∀ s t, (s, t) ∈ st'.dropping ↔
      ∃ x ∈ out, x.key.1 = s ∧ x.entry.ticket = some t := by
    intro s t
    rw [hdrop, List.mem_filterMap]
    constructor
    · rintro ⟨x, hx, he⟩
      obtain ⟨u, hu, he⟩ := Option.map_eq_some_iff.mp he
      obtain ⟨rfl, rfl⟩ := Prod.mk.inj he
      exact ⟨x, hx, rfl, hu⟩
    · rintro ⟨x, hx, rfl, ht⟩
      exact ⟨x, hx, by rw [ht]; rfl⟩
  have hless : ∀ k, (st'.pending.lookup k).isSome = true → (st.pending.lookup k).isSome = true := by
    intro k hk
    rw [hs.rest] at hk
    split_ifs at hk with hout
    · exact absurd hk (by simp)
    · exact hk
  have hheld : ∀ r s t, (st.call r).place = some (s, t) →
      ((st'.pending.lookup (s, r)).isSome = true ∨ (s, t) ∈ st'.dropping ↔
        (st.pending.lookup (s, r)).isSome = true ∨ (s, t) ∈ st.dropping) := by
    intro r s t hr
    rw [hfree]
    simp only [List.not_mem_nil, or_false]
    constructor
    · rintro (hl | hd)
      · exact hless _ hl
      · obtain ⟨x, hx, rfl, ht⟩ := (hmem s t).mp hd
        have hxr : x.key.2 = r := h.inj _ _ _ t t (ticket_of_place (hplace x hx t ht))
          (ticket_of_place hr) rfl
        rw [← hxr, hs.entry x hx]
        rfl
    · intro hl
      rw [hs.rest]
      split_ifs with hk
      · obtain ⟨x, hx, hxk⟩ := List.mem_map.mp hk
        obtain ⟨u, hu, hp⟩ := (hentry _ _ (hs.entry x hx)).ticket
        rw [hxk, hr] at hp
        obtain ⟨-, rfl⟩ := Prod.mk.inj (Option.some.inj hp)
        exact Or.inr ((hmem s t).mpr ⟨x, hx, by rw [hxk], hu⟩)
      · exact Or.inl hl
  refine ⟨fun s => hqueue ▸ h.queue s, ?_, ?_, ?_, ?_, ?_⟩
  · intro r s t ht
    rw [hcall] at ht
    have hok := h.ticket r s t ht
    refine ⟨hqueue ▸ hok.known, ?_, ?_, hqueue ▸ hok.number, ?_⟩
    · have hholds : st'.Holds r s t ↔ st.Holds r s t := by
        unfold Holds
        rw [hcall]
        cases hc : st.call r <;> simp only [hc, CallPhase.ticket, Option.some.injEq,
          Prod.mk.injEq, reduceCtorEq] at ht ⊢
        all_goals
          obtain ⟨rfl, rfl⟩ := ht
          exact hheld r _ _ (by rw [hc]; rfl)
      rw [hqueue, hholds]
      exact hok.held
    · rw [hcall, hqueue]
      exact hok.alive
    · rw [hcall, hqueue]
      exact fun hlt hd hl => hok.sent hlt hd (hless _ hl)
  · rw [hcall]
    exact h.inj
  · rw [hcall, hqueue]
    exact h.owned
  · rw [hdrop, List.nodup_iff_pairwise_ne, List.pairwise_filterMap]
    refine (List.pairwise_map.mp hs.nodup).imp_of_mem ?_
    rintro x y hx hy hne b hb b' hb' rfl
    obtain ⟨t, ht, rfl⟩ := Option.map_eq_some_iff.mp hb
    obtain ⟨u, hu, he⟩ := Option.map_eq_some_iff.mp hb'
    obtain ⟨hs1, rfl⟩ := Prod.mk.inj he
    have hy' := hplace y hy u hu
    rw [hs1] at hy'
    have hr := h.inj _ _ _ u u (ticket_of_place (hplace x hx u ht)) (ticket_of_place hy') rfl
    exact hne (Prod.ext hs1.symm hr)
  · intro s t hd
    obtain ⟨x, hx, rfl, ht⟩ := (hmem s t).mp hd
    refine ⟨x.key.2, by rw [hcall]; exact hplace x hx t ht, ?_⟩
    rw [hs.rest]
    exact if_pos (List.mem_map_of_mem hx)

/-- The step touches the ticket `t₀` of the invocation `r₀`, and no ticket is handed out. -/
theorem SlotInv.touchTicket {st st' : BrokerState W} {r₀ : W.RequestId} {s₀ : W.SocketId}
    {t₀ : QueueTicket} {p : CallPhase W} {q : QueueState} (h : SlotInv st)
    (hticket : (st.call r₀).ticket = some (s₀, t₀))
    (hqueue : st'.queue = Function.update st.queue s₀ q)
    (hcall : st'.call = Function.update st.call r₀ p)
    (hframe : (st.queue s₀).Frame q t₀.wait) (hinv : QueueInv q)
    (hless : ∀ u ∈ q.tickets, u ∈ (st.queue s₀).tickets)
    (hlive : ∀ s r, r ≠ r₀ →
      (st'.pending.lookup (s, r)).isSome = (st.pending.lookup (s, r)).isSome)
    (hsub : st'.dropping.Sublist st.dropping)
    (hdrop : ∀ s t, (s, t) ≠ (s₀, t₀) → ((s, t) ∈ st'.dropping ↔ (s, t) ∈ st.dropping))
    (hnew : p.ticket = some (s₀, t₀) ∧ st'.TicketOk r₀ s₀ t₀ ∨
      p.ticket = none ∧ t₀ ∉ q.tickets)
    (hdropped : ∀ s t, (s, t) ∈ st'.dropping →
      ∃ r, (st'.call r).place = some (s, t) ∧ st'.pending.lookup (s, r) = none) :
    SlotInv st' := by
  have hother : ∀ r t, r ≠ r₀ → (st.call r).ticket = some (s₀, t) → t.wait ≠ t₀.wait :=
    fun r t hr ht hw => hr (h.inj r r₀ s₀ t t₀ ht hticket hw)
  refine h.touch hqueue hcall hframe hinv hlive hsub ?_ ?_ hother ?_ ?_ hdropped
  · intro s r t hr ht
    refine hdrop s t fun he => ?_
    obtain ⟨rfl, rfl⟩ := Prod.mk.inj he
    exact hother r t hr ht rfl
  · intro s t ht
    obtain ⟨rfl, rfl⟩ := Prod.mk.inj (Option.some.inj (hticket.symm.trans ht))
    exact ⟨rfl, rfl⟩
  · intro s t ht
    rcases hnew with ⟨hp, hok⟩ | ⟨hp, -⟩
    · obtain ⟨rfl, rfl⟩ := Prod.mk.inj (Option.some.inj (hp.symm.trans ht))
      exact ⟨rfl, rfl, hok⟩
    · exact absurd (hp.symm.trans ht) (by simp)
  · intro t ht hw
    obtain ⟨r, hr⟩ := h.owned s₀ t (hless t ht)
    obtain rfl : r = r₀ := h.inj r r₀ s₀ t t₀ hr hticket hw
    obtain ⟨-, rfl⟩ := Prod.mk.inj (Option.some.inj (hticket.symm.trans hr))
    exact (hnew.resolve_right fun hn => hn.2 ht).1

/-- The step touches no ticket. -/
theorem SlotInv.congr {st st' : BrokerState W} (h : SlotInv st) (hqueue : st'.queue = st.queue)
    (hdropping : st'.dropping = st.dropping)
    (hlive : ∀ k, (st'.pending.lookup k).isSome = (st.pending.lookup k).isSome)
    (hcall : ∀ r, st'.call r = st.call r ∨
      (st.call r).ticket = none ∧ (st'.call r).ticket = none) : SlotInv st' := by
  have hsame : ∀ r x, (st'.call r).ticket = some x → st'.call r = st.call r := by
    intro r x hx
    refine (hcall r).resolve_right fun hn => ?_
    exact absurd (hn.2.symm.trans hx) (by simp)
  have hback : ∀ r x, (st.call r).ticket = some x → st'.call r = st.call r := by
    intro r x hx
    refine (hcall r).resolve_right fun hn => ?_
    exact absurd (hn.1.symm.trans hx) (by simp)
  refine ⟨fun s => hqueue ▸ h.queue s, ?_, ?_, ?_, hdropping ▸ h.dropNodup, ?_⟩
  · intro r s t ht
    have hc := hsame r _ ht
    refine (h.ticket r s t (hc ▸ ht)).frame (c := t.wait + 1) ?_ (Nat.lt_succ_self _).ne hc
      (hlive _) (by rw [hdropping])
    rw [hqueue]
    exact .refl _ _
  · intro a b s t u ha hb
    exact h.inj a b s t u (hsame a _ ha ▸ ha) (hsame b _ hb ▸ hb)
  · intro s t ht
    rw [hqueue] at ht
    obtain ⟨r, hr⟩ := h.owned s t ht
    exact ⟨r, hback r _ hr ▸ hr⟩
  · intro s t hd
    rw [hdropping] at hd
    obtain ⟨r, hr, hn⟩ := h.dropped s t hd
    have hl := hlive (s, r)
    rw [hn, Option.isSome_none, Option.isSome_eq_false_iff, Option.isNone_iff_eq_none] at hl
    exact ⟨r, hback r _ (ticket_of_place hr) ▸ hr, hl⟩

/-! ## Every step -/

/-- The dropping list of a step that keeps entries out of the map and places where they were. -/
theorem SlotInv.dropped_of_keeps {st st' : BrokerState W} (h : SlotInv st)
    (hdropping : st'.dropping.Sublist st.dropping) (hpending : st'.pending = st.pending)
    (hcalls : ∀ r, (st'.call r).place = (st.call r).place) (s : W.SocketId) (t : QueueTicket)
    (hd : (s, t) ∈ st'.dropping) :
    ∃ r, (st'.call r).place = some (s, t) ∧ st'.pending.lookup (s, r) = none := by
  obtain ⟨r, hr, hn⟩ := h.dropped s t (hdropping.subset hd)
  exact ⟨r, (hcalls r).trans hr, hpending ▸ hn⟩

/-- A place that was given up or granted to nobody is not the place of a pending request. -/
theorem SlotInv.wait_ok {st : BrokerState W} (h : SlotInv st) {r : W.RequestId} {s : W.SocketId}
    {t : QueueTicket} (hcall : st.call r = .admitted s t)
    (hlive : (st.pending.lookup (s, r)).isSome = true) (hlt : (st.queue s).enqueues < 2 ^ 64)
    {x : Except QueueError Unit} (hw : (st.queue s).queue.wait t.wait = some x) :
    t.wait ∈ (st.queue s).queue.chans.sentOn := by
  have hok := h.ticket r s t (by rw [hcall]; rfl)
  have hx := (h.queue s).exact hlt
  have ht : t ∈ (st.queue s).tickets := hok.held.mpr (by rw [Holds, hcall]; exact Or.inl hlive)
  have hr : t.wait ∈ (st.queue s).queue.chans.receivers := hok.alive (by rw [hcall]; rfl)
  rcases hx.accounted t ht with ha | ha | ha
  · exact (hx.granted t ht).mpr ha
  · by_contra hs
    have hv := Oneshots.value_eq_none.mpr hs
    have hwait : ∃ w ∈ (st.queue s).queue.waiting, w.notify = t.wait := ⟨_, ha, rfl⟩
    simp only [SessionQueue.wait, hv, hwait, if_true, reduceCtorEq] at hw
  · exact absurd hr ha

theorem SlotInv.afterDispatch {st st' : BrokerState W} (h : SlotInv st) {r : W.RequestId}
    {s : W.SocketId} {t : QueueTicket} (hcall : st.call r = .admitted s t)
    {x : Except QueueError Unit} (hw : (st.queue s).queue.wait t.wait = some x)
    (hst : st' = st.afterDispatch r s t) : SlotInv st' := by
  have hok := h.ticket r s t (by rw [hcall]; rfl)
  have hplace : ∀ q, (st'.call q).place = (st.call q).place := fun q => by
    rw [hst]
    exact (keeps_afterDispatch hcall q).place
  have hpending : st'.pending = st.pending := by rw [hst]; rfl
  have hdropping : st'.dropping = st.dropping := by rw [hst]; rfl
  have hqueue : st'.queue = Function.update st.queue s ((st.queue s).dropWait t.wait) := by
    rw [hst]
    rfl
  have hcalls : st'.call = Function.update st.call r (.dispatched s t) := by rw [hst]; rfl
  have hself : st'.call r = .dispatched s t := by rw [hcalls, Function.update_self]
  have hq : st'.queue s = (st.queue s).dropWait t.wait := by rw [hqueue, Function.update_self]
  refine h.touchTicket (by rw [hcall]; rfl) hqueue hcalls (QueueState.frame_dropWait _ _)
    ((h.queue s).dropWait _) (fun _ hu => hu) (fun _ _ _ => by rw [hpending])
    (hdropping ▸ List.Sublist.refl _) (fun _ _ _ => by rw [hdropping])
    (Or.inl ⟨rfl, ?_⟩) (h.dropped_of_keeps (hdropping ▸ List.Sublist.refl _) hpending hplace)
  refine ⟨hq ▸ hok.known, ?_, ?_, hq ▸ hok.number, ?_⟩
  · have hheld := hok.held
    rw [Holds, hcall] at hheld
    rw [Holds, hself, hq, hpending, hdropping]
    exact hheld
  · intro ha
    rw [hself] at ha
    exact absurd ha (by simp [CallPhase.awaits])
  · intro hlt _ hl
    rw [hq] at hlt ⊢
    exact h.wait_ok hcall (hpending ▸ hl) hlt hw

theorem SlotInv.completeOrDiscard {st : BrokerState W} (h : SlotInv st) (s : W.SocketId)
    (r : W.RequestId) (result : PendingResult W) (hfree : st.dropping = [])
    (hentry : ∀ k p, st.pending.lookup k = some p → st.EntryOk k p) :
    SlotInv (st.completeOrDiscard s r result) := by
  unfold BrokerState.completeOrDiscard
  cases hc : st.pending.complete s r result with
  | none => exact h
  | some xm =>
      obtain ⟨x, m⟩ := xm
      exact h.settle hfree hentry (PendingMap.settling_complete hc) rfl rfl rfl

theorem SlotInv.noteProgress {st : BrokerState W} (h : SlotInv st) (s : W.SocketId)
    (r : W.RequestId) (p : Progress) : SlotInv (st.noteProgress s r p) := by
  unfold BrokerState.noteProgress
  cases hn : st.pending.noteProgress s r p st.now with
  | none => exact h
  | some mo =>
      obtain ⟨m, out⟩ := mo
      obtain ⟨ent, hent, -, hlook⟩ := PendingMap.noteProgress_eq_some hn
      have hlive : ∀ k, (m.lookup k).isSome = (st.pending.lookup k).isSome := by
        intro k
        rw [hlook]
        split_ifs with hk
        · rw [hk, hent]
          rfl
        · rfl
      cases out with
      | none => exact h.congr rfl rfl hlive fun _ => Or.inl rfl
      | some cf =>
          dsimp only
          split
          · exact h.congr rfl rfl hlive fun _ => Or.inl rfl
          · exact h.congr rfl rfl hlive fun _ => Or.inl rfl

/-- An invocation without a ticket moves to a phase without one. -/
theorem SlotInv.setCall {st : BrokerState W} (h : SlotInv st) {r : W.RequestId}
    {p : CallPhase W} (hr : (st.call r).ticket = none) (hp : p.ticket = none) :
    SlotInv (st.setCall r p) := by
  refine h.congr rfl rfl (fun _ => rfl) fun q => ?_
  by_cases hq : q = r
  · subst hq
    exact Or.inr ⟨hr, by simp only [BrokerState.setCall, Function.update_self, hp]⟩
  · exact Or.inl (by simp only [BrokerState.setCall, Function.update_of_ne hq])

theorem SlotInv.trySendCancel {st : BrokerState W} (h : SlotInv st) (s : W.SocketId)
    (r : W.RequestId) : SlotInv (st.trySendCancel s r) := by
  unfold BrokerState.trySendCancel
  split
  · exact h.congr rfl rfl (fun _ => rfl) fun _ => Or.inl rfl
  · exact h

/-- A ticket handed out belongs to the invocation that enqueued. -/
theorem SlotInv.tryEnqueue {st st' : BrokerState W} (h : SlotInv st) {r : W.RequestId}
    (hstep : st.tryEnqueue r = some st') : SlotInv st' := by
  unfold BrokerState.tryEnqueue at hstep
  split at hstep
  · rename_i s hcall
    have hnone : ∀ u v, (st.call r).ticket = some (u, v) → u = s ∧
        v.wait = (st.queue s).queue.chans.next := by
      intro u v hu
      rw [hcall] at hu
      exact absurd hu (by simp [CallPhase.ticket])
    have hother : ∀ q t, q ≠ r → (st.call q).ticket = some (s, t) →
        t.wait ≠ (st.queue s).queue.chans.next :=
      fun q t _ ht => (h.ticket q s t ht).known.ne
    have hfresh : ∀ t ∈ (st.queue s).tickets, t.wait ≠ (st.queue s).queue.chans.next := by
      intro t ht
      obtain ⟨q, hq⟩ := h.owned s t ht
      exact (h.ticket q s t hq).known.ne
    have hplace : ∀ (p : CallPhase W), p.place = none → ∀ q,
        (Function.update st.call r p q).place = (st.call q).place := by
      intro p hp q
      by_cases hq : q = r
      · rw [hq, Function.update_self, hcall]
        exact hp
      · rw [Function.update_of_ne hq]
    have hinv := (h.queue s).tryEnqueue
    split at hstep <;> rename_i he <;> obtain rfl := Option.some_inj.mp hstep
    · rename_i t q
      rw [he] at hinv
      have hframe := QueueState.frame_tryEnqueue he
      have hok := QueueState.tryEnqueue_ok he
      have ht := SessionQueue.tryEnqueue_ok hok
      have hwait : t.wait = (st.queue s).queue.chans.next := congrArg QueueTicket.wait ht
      have hin : t ∈ q.tickets := (QueueState.tryEnqueue_tickets he t).mpr (Or.inl rfl)
      refine h.touch (q := q) (p := .enqueued s t st.now) rfl rfl hframe hinv
        (fun _ _ _ => rfl) (List.Sublist.refl _) (fun _ _ _ _ _ => Iff.rfl) hnone hother ?_ ?_
        (h.dropped_of_keeps (List.Sublist.refl _) rfl (hplace _ rfl))
      · intro u v huv
        obtain ⟨rfl, rfl⟩ := Prod.mk.inj (Option.some.inj huv)
        refine ⟨rfl, hwait, ?_, ?_, fun _ => ?_, fun hlt => ?_, fun _ hd => ?_⟩
        · simp only [BrokerState.setCall, setQueue, Function.update_self, hinv.named.made t hin]
        · simp only [Holds, BrokerState.setCall, setQueue, Function.update_self, hin]
        · simp only [BrokerState.setCall, setQueue, Function.update_self]
          exact SessionQueue.tryEnqueue_ok_receivers hok
        · simp only [BrokerState.setCall, setQueue, Function.update_self] at hlt
          exact (hinv.exact hlt).number t hin
        · simp only [BrokerState.setCall, Function.update_self, reduceCtorEq] at hd
      · intro u hu hw
        rcases (QueueState.tryEnqueue_tickets he u).mp hu with hr | hold
        · obtain rfl := Except.ok.inj hr
          rfl
        · exact absurd hw (hfresh u hold)
    · rename_i err q
      rw [he] at hinv
      refine h.touch (q := q) (p := .failed _) rfl rfl (QueueState.frame_tryEnqueue he) hinv
        (fun _ _ _ => rfl) (List.Sublist.refl _) (fun _ _ _ _ _ => Iff.rfl) hnone hother ?_ ?_
        (h.dropped_of_keeps (List.Sublist.refl _) rfl (hplace _ rfl))
      · intro u v huv
        exact absurd huv (by simp [CallPhase.ticket])
      · intro u hu hw
        rcases (QueueState.tryEnqueue_tickets he u).mp hu with hr | hold
        · exact absurd hr (by simp)
        · exact absurd hw (hfresh u hold)
  · exact absurd hstep (by simp)

/-- The entry takes the ticket over. -/
theorem SlotInv.admitRequest {st st' : BrokerState W} (h : SlotInv st) (hp : PendingInv st)
    {r : W.RequestId} (hstep : st.admitRequest r = some st') : SlotInv st' := by
  obtain ⟨s, t, since, hcall, hfree, ⟨m, hm, rfl⟩ | ⟨hl, rfl⟩⟩ := admitRequest_cases hstep
  · have hticket : (st.call r).ticket = some (s, t) := by rw [hcall]; rfl
    have hok := h.ticket r s t hticket
    have hlook : ∀ k, m.lookup k =
        if k = (s, r) then some (admission r s t since) else st.pending.lookup k :=
      PendingMap.lookup_admitEntry hm
    refine h.touchTicket (q := st.queue s) (p := .admitted s t) hticket
      (Function.update_eq_self s st.queue).symm rfl (.refl _ _) (h.queue s) (fun _ hu => hu) ?_
      (List.Sublist.refl _) (fun _ _ _ => Iff.rfl) (Or.inl ⟨rfl, ?_⟩) ?_
    · intro u q hq
      change (m.lookup (u, q)).isSome = _
      rw [hlook, if_neg fun he => hq (Prod.mk.inj he).2]
    · refine ⟨hok.known, ?_, fun _ => ?_, hok.number, fun _ hd => ?_⟩
      · have hin : t ∈ (st.queue s).tickets := hok.held.mpr (by rw [Holds, hcall]; trivial)
        have hlive : (m.lookup (s, r)).isSome = true := by
          rw [hlook, if_pos rfl]
          rfl
        simp only [Holds, BrokerState.setCall, Function.update_self, hin, hlive, true_or]
      · exact hok.alive (by rw [hcall]; rfl)
      · simp only [BrokerState.setCall, Function.update_self, reduceCtorEq] at hd
    · intro u v hd
      exact absurd (hfree ▸ hd : (u, v) ∈ []) List.not_mem_nil
  · -- an entry of a request that was not admitted
    obtain ⟨p, hl⟩ := Option.isSome_iff_exists.mp hl
    obtain ⟨u, -, hu⟩ := (hp.entry _ p hl).ticket
    rw [hcall] at hu
    exact absurd hu (by simp [CallPhase.place])

theorem SlotInv.dispatch {st st' : BrokerState W} (h : SlotInv st) (hp : PendingInv st)
    {r : W.RequestId} (hstep : st.dispatch r = some st') : SlotInv st' := by
  obtain ⟨s, t, hcall, ⟨hw, rfl⟩ | ⟨hw, hfree, -, ⟨c, -, rfl⟩ | ⟨err, rfl⟩⟩⟩ := dispatch_cases hstep
  · obtain ⟨x, hx⟩ : ∃ x, (st.queue s).queue.wait t.wait = some x := dispatch_wait hstep hcall
    exact h.afterDispatch hcall hx rfl
  · have hd := h.afterDispatch hcall hw rfl
    exact hd.congr rfl rfl (fun _ => rfl) fun _ => Or.inl rfl
  · refine (h.afterDispatch hcall hw rfl).completeOrDiscard s r _ hfree fun k p hk => ?_
    exact (hp.entry k p hk).congr rfl (keeps_afterDispatch hcall k.2).place

theorem SlotInv.abandon {st st' : BrokerState W} (h : SlotInv st) {r : W.RequestId}
    (hstep : st.abandon r = some st') : SlotInv st' := by
  unfold BrokerState.abandon at hstep
  split at hstep
  · rename_i s hcall
    cases hstep
    exact h.setCall (by rw [hcall]; rfl) rfl
  · rename_i s hcall
    cases hstep
    exact h.setCall (by rw [hcall]; rfl) rfl
  · rename_i s t since hcall
    cases hstep
    have hticket : (st.call r).ticket = some (s, t) := by rw [hcall]; rfl
    have hok := h.ticket r s t hticket
    refine h.touchTicket (q := (st.queue s).dropWait t.wait) (p := .abandoned s t) hticket rfl rfl
      (QueueState.frame_dropWait _ _) ((h.queue s).dropWait _) (fun _ hu => hu) (fun _ _ _ => rfl)
      (List.Sublist.refl _) (fun _ _ _ => Iff.rfl) (Or.inl ⟨rfl, ?_⟩)
      (h.dropped_of_keeps (List.Sublist.refl _) rfl fun q =>
        (keeps_setQueue_setCall st hcall rfl rfl q).place)
    have hq : ((st.setQueue s ((st.queue s).dropWait t.wait)).setCall r (.abandoned s t)).queue s =
        (st.queue s).dropWait t.wait := by
      simp only [BrokerState.setCall, setQueue, Function.update_self]
    have hc : ((st.setQueue s ((st.queue s).dropWait t.wait)).setCall r (.abandoned s t)).call r =
        .abandoned s t := by
      simp only [BrokerState.setCall, Function.update_self]
    refine ⟨by rw [hq]; exact hok.known, ?_, fun ha => ?_, by rw [hq]; exact hok.number,
      fun _ hd => ?_⟩
    · have hheld := hok.held
      rw [Holds, hcall] at hheld
      rw [Holds, hc, hq]
      exact hheld
    · rw [hc] at ha
      exact absurd ha (by simp [CallPhase.awaits])
    · rw [hc] at hd
      exact absurd hd (by simp)
  · exact absurd hstep (by simp)

theorem notMem_dropTicket {q : QueueState} (h : QueueInv q) (t : QueueTicket) :
    t ∉ (q.dropTicket t).tickets :=
  (h.named.nodup.of_map _).not_mem_erase

theorem SlotInv.dropAbandoned {st st' : BrokerState W} (h : SlotInv st) {r : W.RequestId}
    (hstep : st.dropAbandoned r = some st') : SlotInv st' := by
  unfold BrokerState.dropAbandoned at hstep
  split at hstep
  · rename_i s t hcall
    cases hstep
    have hticket : (st.call r).ticket = some (s, t) := by rw [hcall]; rfl
    have hin : t ∈ (st.queue s).tickets :=
      (h.ticket r s t hticket).held.mpr (by rw [Holds, hcall]; trivial)
    exact h.touchTicket (q := (st.queue s).dropTicket t) (p := .givenUp) hticket rfl rfl
      (QueueState.frame_dropTicket _ _) ((h.queue s).dropTicket hin)
      (fun _ hu => List.mem_of_mem_erase hu) (fun _ _ _ => rfl) (List.Sublist.refl _)
      (fun _ _ _ => Iff.rfl) (Or.inr ⟨rfl, notMem_dropTicket (h.queue s) t⟩)
      (h.dropped_of_keeps (List.Sublist.refl _) rfl fun q =>
        (keeps_setQueue_setCall st hcall rfl rfl q).place)
  · exact absurd hstep (by simp)

/-- The ticket of an entry taken out goes back to its queue. -/
theorem SlotInv.dropTicket {st st' : BrokerState W} (h : SlotInv st) {s : W.SocketId}
    {t : QueueTicket} (hstep : st.dropTicket s t = some st') : SlotInv st' := by
  unfold BrokerState.dropTicket at hstep
  split_ifs at hstep with hd
  cases hstep
  obtain ⟨r, hr, hnone⟩ := h.dropped s t hd
  have hticket := ticket_of_place hr
  have hok := h.ticket r s t hticket
  have hholds : st.Holds r s t := by
    unfold Holds
    cases hc : st.call r <;> simp_all [CallPhase.place]
  have hin : t ∈ (st.queue s).tickets := hok.held.mpr hholds
  have hgone := notMem_dropTicket (h.queue s) t
  refine h.touchTicket (q := (st.queue s).dropTicket t) (p := st.call r) hticket rfl
    (Function.update_eq_self r st.call).symm (QueueState.frame_dropTicket _ _)
    ((h.queue s).dropTicket hin) (fun _ hu => List.mem_of_mem_erase hu) (fun _ _ _ => rfl)
    List.erase_sublist (fun u v hne => List.mem_erase_of_ne hne) (Or.inl ⟨hticket, ?_⟩)
    (h.dropped_of_keeps List.erase_sublist rfl fun _ => rfl)
  have hlast : (s, t) ∉ st.dropping.erase (s, t) := h.dropNodup.not_mem_erase
  have hq : (({ st with dropping := st.dropping.erase (s, t) } : BrokerState W).setQueue s
      ((st.queue s).dropTicket t)).queue s = (st.queue s).dropTicket t := by
    simp only [setQueue, Function.update_self]
  refine ⟨?_, ?_, fun ha => ?_, by rw [hq]; exact hok.number, fun _ _ hl => ?_⟩
  · rw [hq]
    exact (SessionQueue.release_chans_next _ _).symm ▸ hok.known
  · have hnot : ¬ (({ st with dropping := st.dropping.erase (s, t) } : BrokerState W).setQueue s
        ((st.queue s).dropTicket t)).Holds r s t := by
      unfold Holds
      simp only [setQueue]
      cases hc : st.call r <;> simp_all [CallPhase.place]
    rw [hq]
    exact iff_of_false hgone hnot
  · rw [hq]
    exact (SessionQueue.release_receivers _ _).symm ▸ hok.alive ha
  · change (st.pending.lookup (s, r)).isSome = true at hl
    rw [hnone] at hl
    exact absurd hl (by simp)

theorem SlotInv.handleIncoming {st : BrokerState W} (h : SlotInv st) (hp : PendingInv st)
    (s : W.SocketId) (m : PluginToBroker W) (hlock : m.requestId?.isSome → st.dropping = []) :
    SlotInv (st.handleIncoming s m) := by
  have htouch : SlotInv (st.touchSocket s) := h.congr rfl rfl (fun _ => rfl) fun _ => Or.inl rfl
  have hentry : ∀ k p, (st.touchSocket s).pending.lookup k = some p →
      (st.touchSocket s).EntryOk k p := fun k p hk => (hp.entry k p hk).congr rfl rfl
  cases m with
  | hello => exact htouch.congr rfl rfl (fun _ => rfl) fun _ => Or.inl rfl
  | pong => exact htouch
  | progress r p => exact htouch.noteProgress s r p
  | response r v => exact htouch.completeOrDiscard s r _ (hlock rfl) hentry
  | error r e => exact htouch.completeOrDiscard s r _ (hlock rfl) hentry

/-- The matching entries are taken out, and whatever else the step does touches no ticket. -/
theorem SlotInv.removeMatching {st st' : BrokerState W} (h : SlotInv st) (hp : PendingInv st)
    (p : PendingRequest W → Bool) (code : ErrorCode) (hfree : st.dropping = [])
    (hpending : st'.pending = (st.pending.removeMatching p code).2)
    (hdrop : st'.dropping = (st.settle (st.pending.removeMatching p code).1 st'.pending).dropping)
    (hcall : st'.call = st.call) (hqueue : st'.queue = st.queue) : SlotInv st' :=
  h.settle hfree hp.entry (hpending ▸ PendingMap.settling_removeMatching st.pending p code) hcall
    hqueue hdrop

/-- Every step keeps the places accounted for. -/
theorem step_slotInv (st : BrokerState W) (e : BrokerEvent W) (st' : BrokerState W)
    (hstep : st.step e = some st') (hp : PendingInv st) (h : SlotInv st) : SlotInv st' := by
  cases e with
  | tick d | shutdown =>
      cases hstep
      exact h.congr rfl rfl (fun _ => rfl) fun _ => Or.inl rfl
  | register s c =>
      simp only [step, register] at hstep
      split_ifs at hstep
      split at hstep <;> cases hstep <;> exact h.congr rfl rfl (fun _ => rfl) fun _ => Or.inl rfl
  | addQueue s | leave s | cleanupRegistry s | cleanupQueue s | closeSocket s | abortSocket s =>
      simp only [step, addQueue, leave, cleanupRegistry, cleanupQueue, closeSocket,
        abortSocket] at hstep
      split_ifs at hstep
      cases hstep
      exact h.congr rfl rfl (fun _ => rfl) fun _ => Or.inl rfl
  | incoming s m =>
      simp only [step, incoming] at hstep
      split_ifs at hstep with hc
      cases hstep
      exact h.handleIncoming hp s m hc.2
  | recvOutbound s =>
      simp only [step, recvOutbound] at hstep
      split_ifs at hstep
      obtain ⟨⟨m, c⟩, -, rfl⟩ := Option.map_eq_some_iff.mp hstep
      exact h.congr rfl rfl (fun _ => rfl) fun _ => Or.inl rfl
  | route r c =>
      simp only [step, route] at hstep
      split at hstep
      · rename_i hcall
        split at hstep <;> cases hstep <;> exact h.setCall (by rw [hcall]; rfl) rfl
      · exact absurd hstep (by simp)
  | findQueue r =>
      simp only [step, findQueue] at hstep
      split at hstep
      · rename_i s hcall
        split_ifs at hstep <;> cases hstep <;> exact h.setCall (by rw [hcall]; rfl) rfl
      · exact absurd hstep (by simp)
  | tryEnqueue r => exact h.tryEnqueue hstep
  | admitRequest r => exact h.admitRequest hp hstep
  | dispatch r => exact h.dispatch hp hstep
  | abandon r => exact h.abandon hstep
  | dropAbandoned r => exact h.dropAbandoned hstep
  | cancelRoute c r =>
      simp only [step, cancelRoute] at hstep
      split at hstep
      · cases hstep
        exact h.congr rfl rfl (fun _ => rfl) fun _ => Or.inl rfl
      · exact absurd hstep (by simp)
  | cancelPending s r =>
      simp only [step, cancelPending] at hstep
      split_ifs at hstep with hc
      split at hstep <;> cases hstep
      · exact h.congr rfl rfl (fun _ => rfl) fun _ => Or.inl rfl
      · rename_i x m hx
        exact h.settle hc.2 hp.entry (PendingMap.settling_complete hx) rfl rfl rfl
  | cancelSend s r =>
      simp only [step, cancelSend] at hstep
      split_ifs at hstep
      cases hstep
      have hframe : SlotInv { st with cancelSends := st.cancelSends.erase (s, r) } :=
        h.congr rfl rfl (fun _ => rfl) fun _ => Or.inl rfl
      exact hframe.trySendCancel s r
  | expireSend s r =>
      simp only [step, expireSend] at hstep
      split_ifs at hstep
      have hframe : SlotInv { st with expiredSends := st.expiredSends.erase (s, r) } :=
        h.congr rfl rfl (fun _ => rfl) fun _ => Or.inl rfl
      split at hstep <;> cases hstep
      · exact hframe.trySendCancel _ r
      · exact hframe
  | cleanupPending s =>
      simp only [step, cleanupPending] at hstep
      split_ifs at hstep with hc
      cases hstep
      exact h.removeMatching hp _ _ hc.2 rfl rfl rfl rfl
  | takeExpired =>
      simp only [step, takeExpired] at hstep
      split_ifs at hstep with hc
      cases hstep
      exact h.removeMatching hp _ _ hc rfl rfl rfl rfl
  | drain =>
      simp only [step, drain] at hstep
      split_ifs at hstep with hc
      cases hstep
      exact h.removeMatching hp _ _ hc.2 rfl rfl rfl rfl
  | dropTicket s t => exact h.dropTicket hstep

theorem slotInv_of_reachable {st : BrokerState W} (h : Exec.Reachable step init st) :
    PendingInv st ∧ SlotInv st := by
  refine h.rec_inv (I := fun st => PendingInv st ∧ SlotInv st) ⟨pendingInv_init, slotInv_init⟩ ?_
  intro st e st' hstep ⟨hp, hs⟩
  exact ⟨step_pendingInv st e st' hstep hp, step_slotInv st e st' hstep hp hs⟩

end BrokerState

end FigmaDevMcp

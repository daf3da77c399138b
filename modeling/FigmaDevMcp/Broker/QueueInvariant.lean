import Mathlib.Data.Finset.Dedup
import FigmaDevMcp.Broker.Queue

set_option autoImplicit false

/-!
# The session queue over whole runs

`QueueState` is a session queue with the tickets its callers still hold. Its events are an
enqueue, the drop of a live ticket and the drop of a live `DispatchWait`.

* `Fifo`, `Bounded`, `Exact`: the three parts of the invariant; `Exact` speaks of ticket
  numbers, which repeat once the counter saturates, and so needs fewer than `2 ^ 64` enqueues;
* `queueStep_inv`: every event keeps the invariant;
* **`sessionQueue_invariant`**: what holds of every reachable queue.
-/

namespace FigmaDevMcp

/-- A session queue, the tickets alive and the number of enqueues so far. -/
structure QueueState where
  queue : SessionQueue
  tickets : List QueueTicket
  enqueues : ℕ

/-- What happens to a queue: a request arrives, or a ticket or a wait is dropped. -/
inductive QueueEvent where
  | tryEnqueue
  | dropTicket (t : QueueTicket)
  | dropWait (chan : ℕ)

namespace QueueState

/-- An empty queue without tickets. -/
def init : QueueState := ⟨.new, [], 0⟩

/-- `try_enqueue`: the caller keeps the ticket it gets. -/
def tryEnqueue (s : QueueState) : Except QueueError QueueTicket × QueueState :=
  match s.queue.tryEnqueue with
  | (.ok t, q) => (.ok t, ⟨q, t :: s.tickets, s.enqueues + 1⟩)
  | (.error e, q) => (.error e, ⟨q, s.tickets, s.enqueues + 1⟩)

/-- The holder of `t` drops it. -/
def dropTicket (s : QueueState) (t : QueueTicket) : QueueState :=
  ⟨s.queue.release t.id, s.tickets.erase t, s.enqueues⟩

/-- A wait for a place is given up. -/
def dropWait (s : QueueState) (chan : ℕ) : QueueState :=
  { s with queue := s.queue.dropWait chan }

/-- One event. Only live tickets and live receivers can be dropped. -/
def step (s : QueueState) : QueueEvent → Option QueueState
  | .tryEnqueue => some s.tryEnqueue.2
  | .dropTicket t => if t ∈ s.tickets then some (s.dropTicket t) else none
  | .dropWait c => if c ∈ s.queue.chans.receivers then some (s.dropWait c) else none

end QueueState

/-! ## The parts of the invariant -/

namespace SessionQueue

/-- Channels are served in the order they were made. -/
structure Fifo (q : SessionQueue) : Prop where
  chans : q.chans.Ordered
  sorted : (q.waiting.map Waiter.notify).Pairwise (· < ·)
  made : ∀ w ∈ q.waiting, w.notify < q.chans.next
  behind : ∀ c ∈ q.chans.sentOn, ∀ w ∈ q.waiting, c < w.notify
  values : ∀ p ∈ q.chans.sent, p.2 = .ok ()

/-- Active places and waiters are bounded, and nobody waits while a place is free. -/
structure Bounded (q : SessionQueue) : Prop where
  inFlight_le : q.inFlight ≤ maxInFlight
  waiting_le : q.waiting.length ≤ maxQueue
  busy : q.waiting ≠ [] → q.inFlight = maxInFlight

/-- Live tickets have distinct channels, all made. -/
structure Named (q : SessionQueue) (ts : List QueueTicket) : Prop where
  nodup : (ts.map QueueTicket.wait).Nodup
  made : ∀ t ∈ ts, t.wait < q.chans.next

/-- The queue holds a place for each live ticket and for nothing else. -/
structure Exact (q : SessionQueue) (ts : List QueueTicket) (n : ℕ) : Prop where
  ids_nodup : (ts.map QueueTicket.id).Nodup
  ids_le : ∀ t ∈ ts, t.id ≤ n
  waiting_live : ∀ w ∈ q.waiting, ⟨w.id, w.notify⟩ ∈ ts
  active_live : ∀ i ∈ q.active, ∃ t ∈ ts, t.id = i
  disjoint : ∀ w ∈ q.waiting, w.id ∉ q.active
  count : q.inFlight = q.active.card
  number : ∀ t ∈ ts, t.id = t.wait + 1
  granted : ∀ t ∈ ts, t.wait ∈ q.chans.sentOn ↔ t.id ∈ q.active
  accounted : ∀ t ∈ ts, t.id ∈ q.active ∨ ⟨t.id, t.wait⟩ ∈ q.waiting ∨
    t.wait ∉ q.chans.receivers

/-! ## Service order -/

theorem Fifo.grant {q : SessionQueue} {w : Waiter} {rest : List Waiter} (h : q.Fifo)
    (hw : q.waiting = w :: rest) : (grant { q with waiting := rest } w).Fifo := by
  have hs := h.sorted
  rw [hw, List.map_cons, List.pairwise_cons] at hs
  have hmem : ∀ v ∈ rest, v ∈ q.waiting := fun v hv => hw ▸ List.mem_cons_of_mem _ hv
  have hwm : w ∈ q.waiting := hw ▸ List.mem_cons_self
  refine ⟨?_, ?_, ?_, ?_, ?_⟩
  · rw [grant_chans]
    exact h.chans.send (h.made w hwm) (fun d hd => h.behind d hd w hwm) _
  · rw [grant_waiting]
    exact hs.2
  · intro v hv
    rw [grant_waiting] at hv
    rw [grant_chans, Oneshots.send_next]
    exact h.made v (hmem v hv)
  · intro c hc v hv
    rw [grant_waiting] at hv
    rw [grant_chans, Oneshots.send_sentOn] at hc
    split_ifs at hc
    · rcases List.mem_append.mp hc with hc | hc
      · exact h.behind c hc v (hmem v hv)
      · rw [List.mem_singleton.mp hc]
        exact hs.1 _ (List.mem_map_of_mem hv)
    · exact h.behind c hc v (hmem v hv)
  · rw [grant_chans]
    exact Oneshots.forall_sent_send (P := fun v => v = Except.ok ()) h.values _ rfl

theorem Fifo.promote {q : SessionQueue} (h : q.Fifo) : q.promote.Fifo :=
  promote_rule (fun _ _ _ hw _ hq => hq.grant hw) h

theorem Fifo.of_sublist {q q' : SessionQueue} (h : q.Fifo) (hc : q'.chans = q.chans)
    (hs : q'.waiting.Sublist q.waiting) : q'.Fifo := by
  refine ⟨hc ▸ h.chans, h.sorted.sublist (hs.map _), ?_, ?_, hc ▸ h.values⟩
  · intro w hw
    rw [hc]
    exact h.made w (hs.subset hw)
  · intro c hcm w hw
    rw [hc] at hcm
    exact h.behind c hcm w (hs.subset hw)

theorem Fifo.tryEnqueue {q : SessionQueue} (h : q.Fifo) : q.tryEnqueue.2.Fifo := by
  have hlt : ∀ w ∈ q.waiting, w.notify < q.chans.next + 1 :=
    fun w hw => Nat.lt_succ_of_lt (h.made w hw)
  obtain ⟨-, hnil, he⟩ | ⟨-, -, he⟩ | ⟨-, -, he⟩ := tryEnqueue_cases q <;> rw [he]
  · refine ⟨h.chans.channel.send (Nat.lt_succ_self _) h.chans.made _, h.sorted, ?_, ?_,
      Oneshots.forall_sent_send (b := q.chans.channel) (P := fun v => v = Except.ok ()) h.values _ rfl⟩
    · intro w hw
      rw [Oneshots.send_next]
      exact hlt w hw
    · intro c _ w hw
      exact absurd (hnil ▸ hw) List.not_mem_nil
  · exact ⟨h.chans.channel.dropReceiver _, h.sorted, hlt, h.behind, h.values⟩
  · refine ⟨h.chans.channel, ?_, ?_, ?_, h.values⟩
    · rw [List.map_append, List.pairwise_append]
      refine ⟨h.sorted, List.pairwise_singleton _ _, ?_⟩
      intro c hc d hd
      obtain ⟨w, hw, rfl⟩ := List.mem_map.mp hc
      obtain rfl : d = q.chans.next := by simpa using hd
      exact h.made w hw
    · intro w hw
      rcases List.mem_append.mp hw with hw | hw
      · exact hlt w hw
      · rw [List.mem_singleton.mp hw]
        exact Nat.lt_succ_self _
    · intro c hc w hw
      rcases List.mem_append.mp hw with hw | hw
      · exact h.behind c hc w hw
      · rw [List.mem_singleton.mp hw]
        exact h.chans.made c hc

theorem Fifo.release {q : SessionQueue} (h : q.Fifo) (id : ℕ) : (q.release id).Fifo := by
  obtain ⟨-, he⟩ | ⟨-, -, he⟩ | ⟨-, -, he⟩ := release_cases q id <;> rw [he]
  · exact h.of_sublist rfl List.eraseP_sublist
  · have hfreed : Fifo { q with active := q.active.erase id, inFlight := q.inFlight - 1 } :=
      h.of_sublist rfl (List.Sublist.refl _)
    exact hfreed.promote
  · exact h

theorem Fifo.dropWait {q : SessionQueue} (h : q.Fifo) (c : ℕ) : (q.dropWait c).Fifo :=
  ⟨h.chans.dropReceiver c, h.sorted, h.made, h.behind, h.values⟩

/-! ## Bounds -/

theorem promote_bounded {q : SessionQueue} (hin : q.inFlight ≤ maxInFlight)
    (hw : q.waiting.length ≤ maxQueue) : q.promote.Bounded := by
  have h : q.promote.inFlight ≤ maxInFlight ∧ q.promote.waiting.length ≤ maxQueue := by
    refine promote_rule (P := fun q => q.inFlight ≤ maxInFlight ∧ q.waiting.length ≤ maxQueue)
      ?_ ⟨hin, hw⟩
    intro q w rest hwait hlt hq
    have hle := grant_inFlight_le { q with waiting := rest } w
    rw [hwait, List.length_cons] at hq
    refine ⟨hle.trans hlt, ?_⟩
    rw [grant_waiting]
    exact Nat.le_of_succ_le hq.2
  refine ⟨h.1, h.2, fun hne => le_antisymm h.1 ?_⟩
  exact (promote_exhausts q).resolve_left hne

theorem Bounded.tryEnqueue {q : SessionQueue} (h : q.Bounded) : q.tryEnqueue.2.Bounded := by
  obtain ⟨hlt, hnil, he⟩ | ⟨-, -, he⟩ | ⟨hno, hlt, he⟩ := tryEnqueue_cases q <;> rw [he]
  · exact ⟨hlt, h.waiting_le, fun hne => absurd hnil hne⟩
  · exact ⟨h.inFlight_le, h.waiting_le, h.busy⟩
  · refine ⟨h.inFlight_le, ?_, fun _ => ?_⟩
    · rw [List.length_append, List.length_singleton]
      exact hlt
    · by_cases hnil : q.waiting = []
      · exact le_antisymm h.inFlight_le (not_lt.mp fun hl => hno ⟨hl, hnil⟩)
      · exact h.busy hnil

theorem Bounded.release {q : SessionQueue} (h : q.Bounded) (id : ℕ) :
    (q.release id).Bounded := by
  obtain ⟨hw, he⟩ | ⟨-, -, he⟩ | ⟨-, -, he⟩ := release_cases q id <;> rw [he]
  · refine ⟨h.inFlight_le, (List.eraseP_sublist.length_le).trans h.waiting_le, fun _ => ?_⟩
    obtain ⟨w, hw, -⟩ := hw
    exact h.busy (List.ne_nil_of_mem hw)
  · exact promote_bounded ((Nat.sub_le _ _).trans h.inFlight_le) h.waiting_le
  · exact h

/-! ## The places and the live tickets -/

section Exact

variable {q : SessionQueue} {ts : List QueueTicket} {n : ℕ}

theorem Exact.eq_of_id (h : q.Exact ts n) {t u : QueueTicket} (ht : t ∈ ts) (hu : u ∈ ts)
    (he : t.id = u.id) : t = u :=
  List.inj_on_of_nodup_map h.ids_nodup ht hu he

theorem Exact.eq_of_wait (h : q.Exact ts n) {t u : QueueTicket} (ht : t ∈ ts) (hu : u ∈ ts)
    (he : t.wait = u.wait) : t = u :=
  h.eq_of_id ht hu (by rw [h.number t ht, h.number u hu, he])

/-- Two waiters with one number are one waiter. -/
theorem Exact.notify_eq (h : q.Exact ts n) {v w : Waiter} (hv : v ∈ q.waiting)
    (hw : w ∈ q.waiting) (he : v.id = w.id) : v.notify = w.notify :=
  congrArg QueueTicket.wait (h.eq_of_id (h.waiting_live v hv) (h.waiting_live w hw) he)

theorem Exact.grant (h : q.Exact ts n) (hf : q.Fifo) {w : Waiter} {rest : List Waiter}
    (hw : q.waiting = w :: rest) : (grant { q with waiting := rest } w).Exact ts n := by
  have hwm : w ∈ q.waiting := hw ▸ List.mem_cons_self
  have hsub : ∀ v ∈ rest, v ∈ q.waiting := fun v hv => hw ▸ List.mem_cons_of_mem _ hv
  have hnew : w.id ∉ q.active := h.disjoint w hwm
  have hlive : (⟨w.id, w.notify⟩ : QueueTicket) ∈ ts := h.waiting_live w hwm
  have hne : ∀ v ∈ rest, v.id ≠ w.id := by
    intro v hv he
    have hs := hf.sorted
    rw [hw, List.map_cons, List.pairwise_cons] at hs
    have hlt := hs.1 _ (List.mem_map_of_mem hv)
    exact absurd (h.notify_eq (hsub v hv) hwm he) hlt.ne'
  -- the place is taken when the receiver is alive, and given back otherwise
  by_cases hr : w.notify ∈ q.chans.receivers
  · obtain ⟨hin, hact⟩ := grant_of_mem (q := { q with waiting := rest }) hr
    refine ⟨h.ids_nodup, h.ids_le, ?_, ?_, ?_, ?_, h.number, ?_, ?_⟩
    · simpa only [grant_waiting] using fun v hv => h.waiting_live v (hsub v hv)
    · intro i hi
      rw [hact] at hi
      rcases Finset.mem_insert.mp hi with rfl | hi
      · exact ⟨_, hlive, rfl⟩
      · exact h.active_live i hi
    · intro v hv
      rw [grant_waiting] at hv
      rw [hact, Finset.mem_insert, not_or]
      exact ⟨hne v hv, h.disjoint v (hsub v hv)⟩
    · rw [hin, hact, Finset.card_insert_of_notMem hnew]
      exact congrArg (· + 1) h.count
    · intro t ht
      have hiff : t.wait = w.notify ↔ t.id = w.id :=
        ⟨fun he => congrArg QueueTicket.id (h.eq_of_wait ht hlive he),
          fun he => congrArg QueueTicket.wait (h.eq_of_id ht hlive he)⟩
      rw [grant_chans, Oneshots.send_sentOn, if_pos hr, hact, Finset.mem_insert,
        List.mem_append, List.mem_singleton, h.granted t ht, hiff, or_comm]
    · intro t ht
      rw [hact, grant_waiting, grant_chans, Oneshots.send_receivers]
      rcases h.accounted t ht with ha | ha | ha
      · exact Or.inl (Finset.mem_insert_of_mem ha)
      · rw [hw] at ha
        rcases List.mem_cons.mp ha with ha | ha
        · exact Or.inl (ha ▸ Finset.mem_insert_self _ _)
        · exact Or.inr (Or.inl ha)
      · exact Or.inr (Or.inr ha)
  · obtain ⟨hin, hact⟩ := grant_of_notMem (q := { q with waiting := rest }) hr
    rw [Finset.erase_eq_of_notMem hnew] at hact
    refine ⟨h.ids_nodup, h.ids_le, ?_, ?_, ?_, ?_, h.number, ?_, ?_⟩
    · simpa only [grant_waiting] using fun v hv => h.waiting_live v (hsub v hv)
    · simpa only [hact] using h.active_live
    · simpa only [hact, grant_waiting] using fun v hv => h.disjoint v (hsub v hv)
    · rw [hin, hact]
      exact h.count
    · intro t ht
      rw [grant_chans, Oneshots.send_sentOn, if_neg hr, hact]
      exact h.granted t ht
    · intro t ht
      rw [hact, grant_waiting, grant_chans, Oneshots.send_receivers]
      rcases h.accounted t ht with ha | ha | ha
      · exact Or.inl ha
      · rw [hw] at ha
        rcases List.mem_cons.mp ha with ha | ha
        · have hwait : t.wait = w.notify := congrArg Waiter.notify ha
          exact Or.inr (Or.inr (hwait ▸ hr))
        · exact Or.inr (Or.inl ha)
      · exact Or.inr (Or.inr ha)

theorem Exact.promote (h : q.Exact ts n) (hf : q.Fifo) : q.promote.Exact ts n :=
  (promote_rule (P := fun q => q.Fifo ∧ q.Exact ts n)
    (fun _ _ _ hw _ hq => ⟨hq.1.grant hw, hq.2.grant hq.1 hw⟩) ⟨hf, h⟩).2

/-- Enqueueing gives out a fresh ticket, or refuses and changes no place. -/
theorem Exact.tryEnqueue (h : q.Exact ts n) (hf : q.Fifo) (hid : q.nextId = n + 1)
    (hwait : q.chans.next = n) :
    (∀ t q', q.tryEnqueue = (.ok t, q') → q'.Exact (t :: ts) (n + 1)) ∧
    (∀ e q', q.tryEnqueue = (.error e, q') → q'.Exact ts (n + 1)) := by
  have hfresh : ∀ t ∈ ts, t.id ≠ q.nextId := by
    intro t ht he
    have := h.ids_le t ht
    omega
  have hids : ((ts.map QueueTicket.id)).Nodup ∧ q.nextId ∉ ts.map QueueTicket.id := by
    refine ⟨h.ids_nodup, fun hm => ?_⟩
    obtain ⟨t, ht, he⟩ := List.mem_map.mp hm
    exact hfresh t ht he
  have hmade : ∀ t ∈ ts, t.wait < q.chans.next := by
    intro t ht
    have := h.ids_le t ht
    have := h.number t ht
    omega
  have hinactive : q.nextId ∉ q.active := by
    intro ha
    obtain ⟨t, ht, he⟩ := h.active_live _ ha
    exact hfresh t ht he
  have hunsent : q.chans.next ∉ q.chans.sentOn := fun hm => (hf.chans.made _ hm).ne rfl
  have hnum : q.nextId = q.chans.next + 1 := by rw [hid, hwait]
  have hle : ∀ t ∈ ts, t.id ≤ n + 1 := fun t ht => Nat.le_succ_of_le (h.ids_le t ht)
  have hdead : ∀ t ∈ ts, t.wait ∉ q.chans.receivers → t.wait ∉ q.chans.channel.receivers := by
    intro t ht ha hm
    rcases Finset.mem_insert.mp hm with hm | hm
    · exact (hmade t ht).ne hm
    · exact ha hm
  obtain ⟨-, hnil, he⟩ | ⟨-, -, he⟩ | ⟨-, -, he⟩ := tryEnqueue_cases q <;> rw [he] <;>
    refine ⟨fun t q' heq => ?_, fun e q' heq => ?_⟩ <;> cases heq
  -- a free place
  · have hr : q.chans.next ∈ q.chans.channel.receivers := Finset.mem_insert_self _ _
    refine ⟨List.nodup_cons.mpr ⟨hids.2, hids.1⟩, List.forall_mem_cons.mpr ⟨hid.le, hle⟩,
      ?_, ?_, ?_, ?_, List.forall_mem_cons.mpr ⟨hnum, h.number⟩, ?_, ?_⟩
    · intro w hw
      exact absurd (hnil ▸ hw) List.not_mem_nil
    · intro i hi
      rcases Finset.mem_insert.mp hi with rfl | hi
      · exact ⟨_, List.mem_cons_self, rfl⟩
      · obtain ⟨t, ht, he⟩ := h.active_live i hi
        exact ⟨t, List.mem_cons_of_mem _ ht, he⟩
    · intro w hw
      exact absurd (hnil ▸ hw) List.not_mem_nil
    · rw [Finset.card_insert_of_notMem hinactive]
      exact congrArg (· + 1) h.count
    · intro t ht
      rw [Oneshots.send_sentOn, if_pos hr, Oneshots.channel_sentOn, List.mem_append,
        List.mem_singleton, Finset.mem_insert]
      rcases List.mem_cons.mp ht with rfl | ht
      · exact ⟨fun _ => Or.inl rfl, fun _ => Or.inr rfl⟩
      · have hw := (hmade t ht).ne
        simp only [h.granted t ht, hw, hfresh t ht, or_false, false_or]
    · intro t ht
      rcases List.mem_cons.mp ht with rfl | ht
      · exact Or.inl (Finset.mem_insert_self _ _)
      · rcases h.accounted t ht with ha | ha | ha
        · exact Or.inl (Finset.mem_insert_of_mem ha)
        · exact Or.inr (Or.inl ha)
        · rw [Oneshots.send_receivers]
          exact Or.inr (Or.inr (hdead t ht ha))
  -- refused
  · refine ⟨h.ids_nodup, hle, h.waiting_live, h.active_live, h.disjoint, h.count, h.number,
      h.granted, ?_⟩
    intro t ht
    rcases h.accounted t ht with ha | ha | ha
    · exact Or.inl ha
    · exact Or.inr (Or.inl ha)
    · exact Or.inr (Or.inr fun hm => hdead t ht ha (Finset.mem_of_mem_erase hm))
  -- queued
  · refine ⟨List.nodup_cons.mpr ⟨hids.2, hids.1⟩, List.forall_mem_cons.mpr ⟨hid.le, hle⟩,
      ?_, ?_, ?_, h.count, List.forall_mem_cons.mpr ⟨hnum, h.number⟩, ?_, ?_⟩
    · intro w hw
      rcases List.mem_append.mp hw with hw | hw
      · exact List.mem_cons_of_mem _ (h.waiting_live w hw)
      · rw [List.mem_singleton.mp hw]
        exact List.mem_cons_self
    · intro i hi
      obtain ⟨t, ht, he⟩ := h.active_live i hi
      exact ⟨t, List.mem_cons_of_mem _ ht, he⟩
    · intro w hw
      rcases List.mem_append.mp hw with hw | hw
      · exact h.disjoint w hw
      · rw [List.mem_singleton.mp hw]
        exact hinactive
    · intro t ht
      rcases List.mem_cons.mp ht with rfl | ht
      · exact ⟨fun hs => absurd hs hunsent, fun ha => absurd ha hinactive⟩
      · exact h.granted t ht
    · intro t ht
      rcases List.mem_cons.mp ht with rfl | ht
      · exact Or.inr (Or.inl (List.mem_append_right _ List.mem_cons_self))
      · rcases h.accounted t ht with ha | ha | ha
        · exact Or.inl ha
        · exact Or.inr (Or.inl (List.mem_append_left _ ha))
        · exact Or.inr (Or.inr (hdead t ht ha))

theorem Exact.mem_erase (h : q.Exact ts n) {t u : QueueTicket} :
    u ∈ ts.erase t ↔ u ≠ t ∧ u ∈ ts :=
  (h.ids_nodup.of_map _).mem_erase_iff

/-- Removing the waiter of a number leaves no waiter of that number. -/
theorem Exact.eraseP_ne (h : q.Exact ts n) (hf : q.Fifo) {id : ℕ}
    (hw : ∃ w ∈ q.waiting, w.id = id) :
    ∀ v ∈ q.waiting.eraseP (fun w => w.id = id), v.id ≠ id := by
  obtain ⟨w, hw, rfl⟩ := hw
  obtain ⟨a, l₁, l₂, hl₁, ha, hl, he⟩ :=
    List.exists_of_eraseP (p := fun v : Waiter => decide (v.id = w.id)) hw (decide_eq_true rfl)
  intro v hv hid
  rw [he] at hv
  rcases List.mem_append.mp hv with hv | hv
  · exact hl₁ v hv (decide_eq_true hid)
  · have hs := hf.sorted
    rw [hl, List.map_append, List.pairwise_append, List.map_cons, List.pairwise_cons] at hs
    have hlt : a.notify < v.notify := hs.2.1.1 _ (List.mem_map_of_mem hv)
    have ham : a ∈ q.waiting := hl ▸ List.mem_append_right _ List.mem_cons_self
    have hvm : v ∈ q.waiting :=
      hl ▸ List.mem_append_right _ (List.mem_cons_of_mem _ hv)
    exact hlt.ne (h.notify_eq ham hvm ((of_decide_eq_true ha).trans hid.symm))

/-- Dropping a live ticket frees its place and no other. -/
theorem Exact.release (h : q.Exact ts n) (hf : q.Fifo) {t : QueueTicket} (ht : t ∈ ts) :
    (q.release t.id).Exact (ts.erase t) n := by
  have hsub : ∀ u ∈ ts.erase t, u ∈ ts := fun u hu => List.mem_of_mem_erase hu
  have hne : ∀ u ∈ ts.erase t, u.id ≠ t.id := fun u hu he =>
    (h.mem_erase.mp hu).1 (h.eq_of_id (hsub u hu) ht he)
  have hkeep : ∀ u ∈ ts, u.id ≠ t.id → u ∈ ts.erase t := fun u hu he =>
    h.mem_erase.mpr ⟨fun heq => he (congrArg _ heq), hu⟩
  have hnid : ((ts.erase t).map QueueTicket.id).Nodup :=
    h.ids_nodup.sublist ((List.erase_sublist).map _)
  have hgone : ∀ i ∈ q.active, i ≠ t.id → ∃ u ∈ ts.erase t, u.id = i := by
    intro i hi hit
    obtain ⟨u, hu, rfl⟩ := h.active_live i hi
    exact ⟨u, hkeep u hu hit, rfl⟩
  obtain ⟨hw, he⟩ | ⟨hw, ha, he⟩ | ⟨hw, ha, he⟩ := release_cases q t.id <;> rw [he]
  -- the ticket was waiting
  · have hne' := h.eraseP_ne hf hw
    have hmem : ∀ v ∈ q.waiting.eraseP (fun w => w.id = t.id), v ∈ q.waiting :=
      fun v hv => List.mem_of_mem_eraseP hv
    have hinactive : t.id ∉ q.active := by
      obtain ⟨w, hw, hid⟩ := hw
      exact hid ▸ h.disjoint w hw
    refine ⟨hnid, fun u hu => h.ids_le u (hsub u hu), ?_, ?_, ?_, h.count,
      fun u hu => h.number u (hsub u hu), fun u hu => h.granted u (hsub u hu), ?_⟩
    · exact fun v hv => hkeep _ (h.waiting_live v (hmem v hv)) (hne' v hv)
    · exact fun i hi => hgone i hi fun hit => hinactive (hit ▸ hi)
    · exact fun v hv => h.disjoint v (hmem v hv)
    · intro u hu
      rcases h.accounted u (hsub u hu) with hu' | hu' | hu'
      · exact Or.inl hu'
      · refine Or.inr (Or.inl ((List.mem_eraseP_of_neg ?_).mpr hu'))
        exact fun hd => hne u hu (of_decide_eq_true hd)
      · exact Or.inr (Or.inr hu')
  -- the ticket was active: its place goes to the next waiters
  · have hfreed : Exact { q with active := q.active.erase t.id, inFlight := q.inFlight - 1 }
        (ts.erase t) n := by
      refine ⟨hnid, fun u hu => h.ids_le u (hsub u hu), ?_, ?_, ?_, ?_,
        fun u hu => h.number u (hsub u hu), ?_, ?_⟩
      · exact fun v hv => hkeep _ (h.waiting_live v hv) (hw v hv)
      · exact fun i hi => hgone i (Finset.mem_of_mem_erase hi) (Finset.ne_of_mem_erase hi)
      · exact fun v hv hm => h.disjoint v hv (Finset.mem_of_mem_erase hm)
      · rw [Finset.card_erase_of_mem ha]
        exact congrArg (· - 1) h.count
      · intro u hu
        rw [h.granted u (hsub u hu), Finset.mem_erase]
        exact (and_iff_right (hne u hu)).symm
      · intro u hu
        rcases h.accounted u (hsub u hu) with hu' | hu' | hu'
        · exact Or.inl (Finset.mem_erase.mpr ⟨hne u hu, hu'⟩)
        · exact Or.inr (Or.inl hu')
        · exact Or.inr (Or.inr hu')
    have hfifo : Fifo { q with active := q.active.erase t.id, inFlight := q.inFlight - 1 } :=
      hf.of_sublist rfl (List.Sublist.refl _)
    exact hfreed.promote hfifo
  -- the ticket had lost its place
  · refine ⟨hnid, fun u hu => h.ids_le u (hsub u hu), ?_, ?_, h.disjoint, h.count,
      fun u hu => h.number u (hsub u hu), fun u hu => h.granted u (hsub u hu),
      fun u hu => h.accounted u (hsub u hu)⟩
    · exact fun v hv => hkeep _ (h.waiting_live v hv) (hw v hv)
    · exact fun i hi => hgone i hi fun hit => ha (hit ▸ hi)

theorem Exact.dropWait (h : q.Exact ts n) (c : ℕ) : (q.dropWait c).Exact ts n := by
  refine ⟨h.ids_nodup, h.ids_le, h.waiting_live, h.active_live, h.disjoint, h.count, h.number,
    h.granted, fun t ht => ?_⟩
  rcases h.accounted t ht with ha | ha | ha
  · exact Or.inl ha
  · exact Or.inr (Or.inl ha)
  · exact Or.inr (Or.inr fun hm => ha (Finset.mem_of_mem_erase hm))

end Exact

end SessionQueue

/-! ## Runs -/

namespace SessionQueue

theorem Named.cons {q q' : SessionQueue} {ts : List QueueTicket} (h : q.Named ts)
    {t : QueueTicket} (ht : t.wait = q.chans.next) (hn : q'.chans.next = q.chans.next + 1) :
    q'.Named (t :: ts) := by
  constructor
  · rw [List.map_cons, List.nodup_cons]
    refine ⟨fun hm => ?_, h.nodup⟩
    obtain ⟨u, hu, he⟩ := List.mem_map.mp hm
    exact (h.made u hu).ne (he.trans ht)
  · rw [hn]
    exact List.forall_mem_cons.mpr
      ⟨ht ▸ Nat.lt_succ_self _, fun u hu => Nat.lt_succ_of_lt (h.made u hu)⟩

theorem Named.of_sublist {q q' : SessionQueue} {ts us : List QueueTicket} (h : q.Named ts)
    (hs : us.Sublist ts) (hn : q.chans.next ≤ q'.chans.next) : q'.Named us :=
  ⟨h.nodup.sublist (hs.map _), fun u hu => (h.made u (hs.subset hu)).trans_le hn⟩

end SessionQueue

/-- The invariant of a session queue and its live tickets. -/
structure QueueInv (s : QueueState) : Prop where
  nextId : s.queue.nextId = min (s.enqueues + 1) (2 ^ 64 - 1)
  made : s.queue.chans.next = s.enqueues
  named : s.queue.Named s.tickets
  fifo : s.queue.Fifo
  bounded : s.queue.Bounded
  exact : s.enqueues < 2 ^ 64 → s.queue.Exact s.tickets s.enqueues

theorem queueInv_init : QueueInv .init := by
  refine ⟨by decide, rfl, ⟨List.nodup_nil, ?_⟩,
    ⟨Oneshots.ordered_empty, List.Pairwise.nil, ?_, ?_, ?_⟩,
    ⟨Nat.zero_le _, Nat.zero_le _, fun h => absurd rfl h⟩, fun _ => ?_⟩
  · exact fun t ht => absurd ht List.not_mem_nil
  · exact fun w hw => absurd hw List.not_mem_nil
  · exact fun c hc => absurd hc List.not_mem_nil
  · exact fun p hp => absurd hp List.not_mem_nil
  · refine ⟨List.nodup_nil, ?_, ?_, ?_, ?_, rfl, ?_, ?_, ?_⟩ <;>
      exact fun x hx => absurd hx (by simp [QueueState.init, SessionQueue.new])

theorem QueueInv.tryEnqueue {s : QueueState} (h : QueueInv s) : QueueInv s.tryEnqueue.2 := by
  have hnext : s.queue.tryEnqueue.2.nextId = min (s.enqueues + 1 + 1) (2 ^ 64 - 1) := by
    rw [SessionQueue.tryEnqueue_nextId, h.nextId, saturatingSucc_min]
  have hmade : s.queue.tryEnqueue.2.chans.next = s.enqueues + 1 := by
    rw [SessionQueue.tryEnqueue_chans_next, h.made]
  have hf := h.fifo.tryEnqueue
  have hb := h.bounded.tryEnqueue
  have hx : s.enqueues + 1 < 2 ^ 64 → _ := fun hlt =>
    (h.exact (Nat.lt_of_succ_lt hlt)).tryEnqueue h.fifo (by rw [h.nextId]; omega) h.made
  unfold QueueState.tryEnqueue
  rcases hq : s.queue.tryEnqueue with ⟨r, q⟩
  rw [hq] at hnext hmade hf hb
  have hnn : q.chans.next = s.queue.chans.next + 1 := by rw [h.made]; exact hmade
  cases r with
  | ok t =>
      have ht : t.wait = s.queue.chans.next :=
        congrArg QueueTicket.wait (SessionQueue.tryEnqueue_ok hq)
      exact ⟨hnext, hmade, h.named.cons ht hnn, hf, hb, fun hlt => (hx hlt).1 t q hq⟩
  | error e =>
      exact ⟨hnext, hmade, h.named.of_sublist (List.Sublist.refl _) (by rw [hnn]; omega), hf, hb,
        fun hlt => (hx hlt).2 e q hq⟩

theorem QueueInv.dropTicket {s : QueueState} (h : QueueInv s) {t : QueueTicket}
    (ht : t ∈ s.tickets) : QueueInv (s.dropTicket t) := by
  refine ⟨?_, ?_, ?_, h.fifo.release _, h.bounded.release _,
    fun hlt => (h.exact hlt).release h.fifo ht⟩
  · exact (SessionQueue.release_nextId _ _).trans h.nextId
  · exact (SessionQueue.release_chans_next _ _).trans h.made
  · exact h.named.of_sublist List.erase_sublist (SessionQueue.release_chans_next _ _).ge

theorem QueueInv.dropWait {s : QueueState} (h : QueueInv s) (c : ℕ) : QueueInv (s.dropWait c) :=
  ⟨h.nextId, h.made, ⟨h.named.nodup, h.named.made⟩, h.fifo.dropWait c, ⟨h.bounded.inFlight_le, h.bounded.waiting_le,
    h.bounded.busy⟩, fun hlt => (h.exact hlt).dropWait c⟩

/-- One event keeps the invariant. -/
theorem queueStep_inv (s : QueueState) (e : QueueEvent) (t : QueueState)
    (hstep : s.step e = some t) (h : QueueInv s) : QueueInv t := by
  cases e with
  | tryEnqueue =>
      obtain rfl : s.tryEnqueue.2 = t := Option.some_inj.mp hstep
      exact h.tryEnqueue
  | dropTicket u =>
      simp only [QueueState.step] at hstep
      split_ifs at hstep with hu
      obtain rfl := Option.some_inj.mp hstep
      exact h.dropTicket hu
  | dropWait c =>
      simp only [QueueState.step] at hstep
      split_ifs at hstep
      obtain rfl := Option.some_inj.mp hstep
      exact h.dropWait c

theorem queueInv_of_reachable {s : QueueState}
    (h : Exec.Reachable QueueState.step .init s) : QueueInv s :=
  h.rec_inv queueInv_init queueStep_inv

/-! ## Consequences of the invariant -/

namespace QueueInv

variable {s : QueueState}

/-- The places in flight are the live active tickets. -/
theorem inFlight_eq (h : QueueInv s) (hlt : s.enqueues < 2 ^ 64) :
    s.queue.inFlight = (s.tickets.filter fun t => t.id ∈ s.queue.active).length := by
  have hx := h.exact hlt
  have hnd : ((s.tickets.filter fun t => t.id ∈ s.queue.active).map QueueTicket.id).Nodup :=
    hx.ids_nodup.sublist (List.filter_sublist.map _)
  have hset : ((s.tickets.filter fun t => t.id ∈ s.queue.active).map QueueTicket.id).toFinset =
      s.queue.active := by
    ext i
    simp only [List.mem_toFinset, List.mem_map, List.mem_filter, decide_eq_true_eq]
    constructor
    · rintro ⟨t, ⟨-, ht⟩, rfl⟩
      exact ht
    · intro hi
      obtain ⟨t, ht, rfl⟩ := hx.active_live i hi
      exact ⟨t, ⟨ht, hi⟩, rfl⟩
  calc s.queue.inFlight = s.queue.active.card := hx.count
    _ = _ := congrArg Finset.card hset.symm
    _ = _ := List.toFinset_card_of_nodup hnd
    _ = _ := List.length_map _

/-- Without tickets the queue is empty. -/
theorem empty_of_no_tickets (h : QueueInv s) (hlt : s.enqueues < 2 ^ 64) (ht : s.tickets = []) :
    s.queue.waiting = [] ∧ s.queue.active = ∅ ∧ s.queue.inFlight = 0 := by
  have hx := h.exact hlt
  have hw : s.queue.waiting = [] := by
    rw [List.eq_nil_iff_forall_not_mem]
    intro w hw
    have := hx.waiting_live w hw
    rw [ht] at this
    exact List.not_mem_nil this
  have ha : s.queue.active = ∅ := by
    rw [Finset.eq_empty_iff_forall_notMem]
    intro i hi
    obtain ⟨t, hm, -⟩ := hx.active_live i hi
    rw [ht] at hm
    exact List.not_mem_nil hm
  exact ⟨hw, ha, by rw [hx.count, ha, Finset.card_empty]⟩

end QueueInv

/-- **The session queue.** In every reachable state after fewer than `2 ^ 64` enqueues: the
places in flight are the live active tickets, at most `maxInFlight`; at most `maxQueue` wait;
ticket numbers are distinct, and active and waiting ones disjoint; tickets wait only while every
place is taken; channels are served in enqueue order, none overtaken while it waits, and a live
ticket whose `DispatchWait` is alive is served or waits; without tickets the queue is empty. -/
theorem sessionQueue_invariant {s : QueueState} (h : Exec.Reachable QueueState.step .init s)
    (hlt : s.enqueues < 2 ^ 64) :
    (s.queue.inFlight = (s.tickets.filter fun t => t.id ∈ s.queue.active).length ∧
      s.queue.inFlight ≤ maxInFlight) ∧
    s.queue.waiting.length ≤ maxQueue ∧
    ((s.tickets.map QueueTicket.id).Nodup ∧ (∀ w ∈ s.queue.waiting, w.id ∉ s.queue.active) ∧
      ∀ w ∈ s.queue.waiting, ⟨w.id, w.notify⟩ ∈ s.tickets) ∧
    (s.queue.waiting ≠ [] → s.queue.inFlight = maxInFlight) ∧
    (s.queue.chans.sentOn.Pairwise (· < ·) ∧
      (s.queue.waiting.map Waiter.notify).Pairwise (· < ·) ∧
      (∀ c ∈ s.queue.chans.sentOn, ∀ w ∈ s.queue.waiting, c < w.notify) ∧
      (∀ t ∈ s.tickets, t.id = t.wait + 1) ∧
      (∀ t ∈ s.tickets, t.wait ∈ s.queue.chans.sentOn ↔ t.id ∈ s.queue.active) ∧
      ∀ t ∈ s.tickets, t.wait ∈ s.queue.chans.receivers →
        t.id ∈ s.queue.active ∨ ⟨t.id, t.wait⟩ ∈ s.queue.waiting) ∧
    (s.tickets = [] → s.queue.waiting = [] ∧ s.queue.active = ∅ ∧ s.queue.inFlight = 0) := by
  have hinv := queueInv_of_reachable h
  have hx := hinv.exact hlt
  refine ⟨⟨hinv.inFlight_eq hlt, hinv.bounded.inFlight_le⟩, hinv.bounded.waiting_le,
    ⟨hx.ids_nodup, hx.disjoint, hx.waiting_live⟩, hinv.bounded.busy,
    ⟨hinv.fifo.chans.sorted, hinv.fifo.sorted, hinv.fifo.behind, hx.number, hx.granted, ?_⟩,
    hinv.empty_of_no_tickets hlt⟩
  intro t ht hr
  rcases hx.accounted t ht with ha | ha | ha
  · exact Or.inl ha
  · exact Or.inr ha
  · exact absurd hr ha

/-- Six enqueues, of which the fifth gives up its wait, and then the first two tickets go. -/
def crowdedRun : List QueueEvent :=
  [.tryEnqueue, .tryEnqueue, .tryEnqueue, .tryEnqueue, .tryEnqueue, .tryEnqueue, .dropWait 4,
    .dropTicket ⟨1, 0⟩, .dropTicket ⟨2, 1⟩]

theorem sessionQueue_invariant_crowdedRun :
    ∃ s, Exec.exec QueueState.step .init crowdedRun = some s ∧ s.queue.waiting = [] ∧
      s.queue.inFlight = (s.tickets.filter fun t => t.id ∈ s.queue.active).length :=
  ⟨_, rfl, rfl, (sessionQueue_invariant ⟨crowdedRun, rfl⟩ (by decide)).1.1⟩

end FigmaDevMcp

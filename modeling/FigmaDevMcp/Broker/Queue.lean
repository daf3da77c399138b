import Mathlib.Data.Finset.Card
import FigmaDevMcp.Lib.Exec
import FigmaDevMcp.Lib.Oneshot
import FigmaDevMcp.Protocol.Limits

set_option autoImplicit false

/-!
# The session queue

The bounded admission queue of one Figma connection: at most `maxInFlight` tickets are active,
at most `maxQueue` wait. A ticket releases its place when it is dropped; a released active place
goes to the waiters in order.

* `promote_rule`: what one grant preserves, the promotion loop preserves;
* `promote_exhausts`: after the loop the queue is full or nobody waits;
* `tryEnqueue_cases`, `release_cases`: what the two entry points can do.
-/

namespace FigmaDevMcp

/-- Why a place in the queue is not given. -/
inductive QueueError where
  | full
  | cancelled
  deriving DecidableEq, Repr

/-- A waiting ticket and the sending half of its one-shot channel. -/
structure Waiter where
  id : ℕ
  notify : ℕ
  deriving DecidableEq, Repr

/-- The state under the queue's mutex, with the one-shot channels it has made. -/
structure SessionQueue where
  nextId : ℕ
  inFlight : ℕ
  waiting : List Waiter
  active : Finset ℕ
  chans : Oneshots (Except QueueError Unit)

/-- What an admitted caller holds: the ticket `id` and the receiver `wait` of its channel. -/
structure QueueTicket where
  id : ℕ
  wait : ℕ
  deriving DecidableEq, Repr

/-- `u64::saturating_add(1)`. -/
def saturatingSucc (n : ℕ) : ℕ := min (n + 1) (2 ^ 64 - 1)

theorem saturatingSucc_min (n : ℕ) :
    saturatingSucc (min n (2 ^ 64 - 1)) = min (n + 1) (2 ^ 64 - 1) := by
  rw [saturatingSucc]
  omega

namespace SessionQueue

/-- A queue with nobody in it. -/
def new : SessionQueue :=
  { nextId := 1, inFlight := 0, waiting := [], active := ∅, chans := .empty }

/-- The number is taken even when the queue turns out to be full. -/
def tryEnqueue (q : SessionQueue) : Except QueueError QueueTicket × SessionQueue :=
  let id := q.nextId
  let wait := q.chans.next
  let q := { q with nextId := saturatingSucc q.nextId, chans := q.chans.channel }
  if q.inFlight < maxInFlight ∧ q.waiting = [] then
    (.ok ⟨id, wait⟩,
      { q with
        inFlight := q.inFlight + 1
        active := insert id q.active
        chans := (q.chans.send wait (.ok ())).2 })
  else if maxQueue ≤ q.waiting.length then
    (.error .full, { q with chans := q.chans.dropReceiver wait })
  else
    (.ok ⟨id, wait⟩, { q with waiting := q.waiting ++ [⟨id, wait⟩] })

/-- How many requests are in flight, and how many wait. -/
def snapshot (q : SessionQueue) : ℕ × ℕ := (q.inFlight, q.waiting.length)

/-- The body of the promotion loop, after `next` was popped. A waiter whose receiver is gone
gives the place back. -/
def grant (q : SessionQueue) (next : Waiter) : SessionQueue :=
  let q := { q with inFlight := q.inFlight + 1, active := insert next.id q.active }
  match q.chans.send next.notify (.ok ()) with
  | (true, chans) => { q with chans := chans }
  | (false, chans) =>
    { q with inFlight := q.inFlight - 1, active := q.active.erase next.id, chans := chans }

/-- The promotion loop over the waiters still queued. -/
def promoteLoop : List Waiter → SessionQueue → SessionQueue
  | [], q => q
  | next :: rest, q =>
    if q.inFlight < maxInFlight then promoteLoop rest (grant { q with waiting := rest } next)
    else q

/-- The waiters in front are let in while there is room. -/
def promote (q : SessionQueue) : SessionQueue := promoteLoop q.waiting q

/-- Dropping a ticket: it leaves the waiters, or frees its active place. -/
def release (q : SessionQueue) (id : ℕ) : SessionQueue :=
  if ∃ w ∈ q.waiting, w.id = id then
    { q with waiting := q.waiting.eraseP fun w => w.id = id }
  else if id ∈ q.active then
    promote { q with active := q.active.erase id, inFlight := q.inFlight - 1 }
  else q

/-- What `DispatchWait::wait` yields, `none` while it is still pending: a sender dropped without
a value counts as cancelled. -/
def wait (q : SessionQueue) (chan : ℕ) : Option (Except QueueError Unit) :=
  match q.chans.value chan with
  | some r => some r
  | none => if ∃ w ∈ q.waiting, w.notify = chan then none else some (.error .cancelled)

/-- A `DispatchWait` is dropped. -/
def dropWait (q : SessionQueue) (chan : ℕ) : SessionQueue :=
  { q with chans := q.chans.dropReceiver chan }

/-! ## One grant -/

@[simp] theorem grant_waiting (q : SessionQueue) (w : Waiter) : (q.grant w).waiting = q.waiting := by
  unfold grant
  dsimp only
  split <;> rfl

@[simp] theorem grant_nextId (q : SessionQueue) (w : Waiter) : (q.grant w).nextId = q.nextId := by
  unfold grant
  dsimp only
  split <;> rfl

@[simp] theorem grant_chans (q : SessionQueue) (w : Waiter) :
    (q.grant w).chans = (q.chans.send w.notify (.ok ())).2 := by
  unfold grant
  dsimp only
  split <;> simp_all only

/-- The receiver is alive: the place is taken. -/
theorem grant_of_mem {q : SessionQueue} {w : Waiter} (h : w.notify ∈ q.chans.receivers) :
    (q.grant w).inFlight = q.inFlight + 1 ∧ (q.grant w).active = insert w.id q.active := by
  simp only [grant, Oneshots.send_of_mem h, and_self]

/-- The receiver is gone: the place is given back. -/
theorem grant_of_notMem {q : SessionQueue} {w : Waiter} (h : w.notify ∉ q.chans.receivers) :
    (q.grant w).inFlight = q.inFlight ∧ (q.grant w).active = q.active.erase w.id := by
  simp only [grant, Oneshots.send_of_notMem h, Nat.add_sub_cancel, Finset.erase_insert_eq_erase,
    and_self]

theorem grant_inFlight_le (q : SessionQueue) (w : Waiter) :
    (q.grant w).inFlight ≤ q.inFlight + 1 := by
  by_cases h : w.notify ∈ q.chans.receivers
  · exact (grant_of_mem h).1.le
  · exact (grant_of_notMem h).1.le.trans (Nat.le_succ _)

/-! ## The promotion loop -/

/-- **Promotion rule.** What popping the first waiter and granting it preserves, as long as a
place is free, the whole loop preserves. -/
theorem promoteLoop_rule {P : SessionQueue → Prop}
    (hP : ∀ q w rest, q.waiting = w :: rest → q.inFlight < maxInFlight → P q →
      P (grant { q with waiting := rest } w))
    {ws : List Waiter} {q : SessionQueue} (hw : q.waiting = ws) (hq : P q) :
    P (promoteLoop ws q) := by
  induction ws generalizing q with
  | nil => exact hq
  | cons w rest ih =>
      unfold promoteLoop
      split_ifs with hlt
      · exact ih (grant_waiting _ _) (hP q w rest hw hlt hq)
      · exact hq

theorem promote_rule {P : SessionQueue → Prop}
    (hP : ∀ q w rest, q.waiting = w :: rest → q.inFlight < maxInFlight → P q →
      P (grant { q with waiting := rest } w))
    {q : SessionQueue} (hq : P q) : P (promote q) :=
  promoteLoop_rule hP rfl hq

theorem promoteLoop_exhausts {ws : List Waiter} {q : SessionQueue} (hw : q.waiting = ws) :
    (promoteLoop ws q).waiting = [] ∨ maxInFlight ≤ (promoteLoop ws q).inFlight := by
  induction ws generalizing q with
  | nil => exact Or.inl hw
  | cons w rest ih =>
      unfold promoteLoop
      split_ifs with hlt
      · exact ih (grant_waiting _ _)
      · exact Or.inr (not_lt.mp hlt)

/-- After the loop the queue is full or nobody waits. -/
theorem promote_exhausts (q : SessionQueue) :
    (promote q).waiting = [] ∨ maxInFlight ≤ (promote q).inFlight :=
  promoteLoop_exhausts rfl

@[simp] theorem promote_nextId (q : SessionQueue) : (promote q).nextId = q.nextId :=
  promote_rule (P := fun q' => q'.nextId = q.nextId)
    (fun q' w rest _ _ h => by rw [grant_nextId]; exact h) rfl

@[simp] theorem promote_chans_next (q : SessionQueue) : (promote q).chans.next = q.chans.next :=
  promote_rule (P := fun q' => q'.chans.next = q.chans.next)
    (fun q' w rest _ _ h => by rw [grant_chans, Oneshots.send_next]; exact h) rfl

@[simp] theorem promote_receivers (q : SessionQueue) :
    (promote q).chans.receivers = q.chans.receivers :=
  promote_rule (P := fun q' => q'.chans.receivers = q.chans.receivers)
    (fun q' w rest _ _ h => by rw [grant_chans, Oneshots.send_receivers]; exact h) rfl

theorem promote_sentOn {q : SessionQueue} {c : ℕ} (h : c ∈ q.chans.sentOn) :
    c ∈ (promote q).chans.sentOn :=
  promote_rule (P := fun q => c ∈ q.chans.sentOn)
    (fun _ _ _ _ _ h => by rw [grant_chans]; exact Oneshots.mem_sentOn_send h _ _) h

/-! ## What the entry points can do -/

/-- `tryEnqueue` takes a free place at once, refuses when too many wait, or queues. -/
theorem tryEnqueue_cases (q : SessionQueue) :
    (q.inFlight < maxInFlight ∧ q.waiting = [] ∧ q.tryEnqueue = (.ok ⟨q.nextId, q.chans.next⟩,
      { q with
        nextId := saturatingSucc q.nextId
        inFlight := q.inFlight + 1
        active := insert q.nextId q.active
        chans := (q.chans.channel.send q.chans.next (.ok ())).2 })) ∨
    (¬ (q.inFlight < maxInFlight ∧ q.waiting = []) ∧ maxQueue ≤ q.waiting.length ∧
      q.tryEnqueue = (.error .full,
        { q with
          nextId := saturatingSucc q.nextId
          chans := q.chans.channel.dropReceiver q.chans.next })) ∨
    (¬ (q.inFlight < maxInFlight ∧ q.waiting = []) ∧ q.waiting.length < maxQueue ∧
      q.tryEnqueue = (.ok ⟨q.nextId, q.chans.next⟩,
        { q with
          nextId := saturatingSucc q.nextId
          waiting := q.waiting ++ [⟨q.nextId, q.chans.next⟩]
          chans := q.chans.channel })) := by
  by_cases hfree : q.inFlight < maxInFlight ∧ q.waiting = []
  · exact Or.inl ⟨hfree.1, hfree.2, by simp only [tryEnqueue, hfree, and_self, if_true]⟩
  · by_cases hfull : maxQueue ≤ q.waiting.length
    · exact Or.inr (Or.inl ⟨hfree, hfull, by simp only [tryEnqueue, if_neg hfree, if_pos hfull]⟩)
    · refine Or.inr (Or.inr ⟨hfree, not_le.mp hfull, ?_⟩)
      simp only [tryEnqueue, if_neg hfree, if_neg hfull]

/-- `release` removes a waiter, frees an active place, or finds nothing. -/
theorem release_cases (q : SessionQueue) (id : ℕ) :
    ((∃ w ∈ q.waiting, w.id = id) ∧
      q.release id = { q with waiting := q.waiting.eraseP fun w => w.id = id }) ∨
    ((∀ w ∈ q.waiting, w.id ≠ id) ∧ id ∈ q.active ∧
      q.release id =
        promote { q with active := q.active.erase id, inFlight := q.inFlight - 1 }) ∨
    ((∀ w ∈ q.waiting, w.id ≠ id) ∧ id ∉ q.active ∧ q.release id = q) := by
  by_cases hw : ∃ w ∈ q.waiting, w.id = id
  · exact Or.inl ⟨hw, by rw [release, if_pos hw]⟩
  · have hne : ∀ w ∈ q.waiting, w.id ≠ id := fun w hm he => hw ⟨w, hm, he⟩
    by_cases ha : id ∈ q.active
    · exact Or.inr (Or.inl ⟨hne, ha, by rw [release, if_neg hw, if_pos ha]⟩)
    · exact Or.inr (Or.inr ⟨hne, ha, by rw [release, if_neg hw, if_neg ha]⟩)

@[simp] theorem tryEnqueue_nextId (q : SessionQueue) :
    q.tryEnqueue.2.nextId = saturatingSucc q.nextId := by
  obtain ⟨-, -, h⟩ | ⟨-, -, h⟩ | ⟨-, -, h⟩ := tryEnqueue_cases q <;> rw [h]

@[simp] theorem tryEnqueue_chans_next (q : SessionQueue) :
    q.tryEnqueue.2.chans.next = q.chans.next + 1 := by
  obtain ⟨-, -, h⟩ | ⟨-, -, h⟩ | ⟨-, -, h⟩ := tryEnqueue_cases q <;> rw [h]
  · exact Oneshots.send_next _ _ _
  · rfl
  · rfl

@[simp] theorem release_nextId (q : SessionQueue) (id : ℕ) :
    (q.release id).nextId = q.nextId := by
  obtain ⟨-, h⟩ | ⟨-, -, h⟩ | ⟨-, -, h⟩ := release_cases q id <;> rw [h]
  exact promote_nextId _

@[simp] theorem release_chans_next (q : SessionQueue) (id : ℕ) :
    (q.release id).chans.next = q.chans.next := by
  obtain ⟨-, h⟩ | ⟨-, -, h⟩ | ⟨-, -, h⟩ := release_cases q id <;> rw [h]
  exact promote_chans_next _

@[simp] theorem release_receivers (q : SessionQueue) (id : ℕ) :
    (q.release id).chans.receivers = q.chans.receivers := by
  obtain ⟨-, h⟩ | ⟨-, -, h⟩ | ⟨-, -, h⟩ := release_cases q id <;> rw [h]
  exact promote_receivers _

theorem release_sentOn {q : SessionQueue} {c : ℕ} (h : c ∈ q.chans.sentOn) (id : ℕ) :
    c ∈ (q.release id).chans.sentOn := by
  obtain ⟨-, he⟩ | ⟨-, -, he⟩ | ⟨-, -, he⟩ := release_cases q id <;> rw [he]
  · exact h
  · exact promote_sentOn (q := { q with active := q.active.erase id, inFlight := q.inFlight - 1 }) h
  · exact h

theorem tryEnqueue_sentOn {q : SessionQueue} {c : ℕ} (h : c ∈ q.chans.sentOn) :
    c ∈ q.tryEnqueue.2.chans.sentOn := by
  obtain ⟨-, -, he⟩ | ⟨-, -, he⟩ | ⟨-, -, he⟩ := tryEnqueue_cases q <;> rw [he]
  · exact Oneshots.mem_sentOn_send (b := q.chans.channel) h _ _
  · exact h
  · exact h

/-- Enqueueing drops no receiver but that of the channel it has just made. -/
theorem tryEnqueue_receivers {q : SessionQueue} {c : ℕ} (h : c ∈ q.chans.receivers)
    (hc : c < q.chans.next) : c ∈ q.tryEnqueue.2.chans.receivers := by
  obtain ⟨-, -, he⟩ | ⟨-, -, he⟩ | ⟨-, -, he⟩ := tryEnqueue_cases q <;> rw [he]
  · rw [Oneshots.send_receivers]
    exact Finset.mem_insert_of_mem h
  · exact Finset.mem_erase.mpr ⟨hc.ne, Finset.mem_insert_of_mem h⟩
  · exact Finset.mem_insert_of_mem h

/-- The receiver of a ticket handed out is alive. -/
theorem tryEnqueue_ok_receivers {q q' : SessionQueue} {t : QueueTicket}
    (h : q.tryEnqueue = (.ok t, q')) : t.wait ∈ q'.chans.receivers := by
  obtain ⟨-, -, he⟩ | ⟨-, -, he⟩ | ⟨-, -, he⟩ := tryEnqueue_cases q
  all_goals
    rw [he] at h
    cases h
  · rw [Oneshots.send_receivers]
    exact Finset.mem_insert_self _ _
  · exact Finset.mem_insert_self _ _

/-- A ticket handed out carries the next number and the next channel. -/
theorem tryEnqueue_ok {q : SessionQueue} {t : QueueTicket} {q' : SessionQueue}
    (h : q.tryEnqueue = (.ok t, q')) : t = ⟨q.nextId, q.chans.next⟩ := by
  obtain ⟨-, -, h'⟩ | ⟨-, -, h'⟩ | ⟨-, -, h'⟩ := tryEnqueue_cases q
  all_goals
    rw [h'] at h
    cases h
    try rfl

end SessionQueue

end FigmaDevMcp

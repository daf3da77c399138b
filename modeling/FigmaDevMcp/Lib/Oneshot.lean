import Mathlib.Data.Finset.Insert
import Mathlib.Data.Finset.Basic

set_option autoImplicit false

/-!
# One-shot channels

A bank of one-shot channels, named in the order they are made. A channel carries at most one
value; sending on it succeeds exactly when its receiver is still alive. `sent` is the list of
all values sent, oldest first.

* `send_of_mem`, `send_of_notMem`: the two outcomes of a send;
* `Ordered`: sends went out in the order the channels were made.
-/

/-- The one-shot channels made so far: the name of the next one, the receivers still alive, and
the values sent. -/
structure Oneshots (α : Type*) where
  next : ℕ
  receivers : Finset ℕ
  sent : List (ℕ × α)

namespace Oneshots

variable {α : Type*}

/-- No channel yet. -/
def empty : Oneshots α := ⟨0, ∅, []⟩

/-- Make a channel; its name is `b.next`. -/
def channel (b : Oneshots α) : Oneshots α :=
  { b with next := b.next + 1, receivers := insert b.next b.receivers }

/-- Send `v` on channel `c`. The sender learns whether the receiver was alive. -/
def send (b : Oneshots α) (c : ℕ) (v : α) : Bool × Oneshots α :=
  if c ∈ b.receivers then (true, { b with sent := b.sent ++ [(c, v)] }) else (false, b)

/-- The receiver of `c` is dropped. -/
def dropReceiver (b : Oneshots α) (c : ℕ) : Oneshots α :=
  { b with receivers := b.receivers.erase c }

/-- The value sent on `c`, if any. -/
def value (b : Oneshots α) (c : ℕ) : Option α :=
  (b.sent.find? fun p => p.1 = c).map Prod.snd

/-- The names of the channels a value was sent on, in the order of the sends. -/
def sentOn (b : Oneshots α) : List ℕ := b.sent.map Prod.fst

@[simp] theorem sentOn_empty : (empty : Oneshots α).sentOn = [] := rfl

@[simp] theorem channel_next (b : Oneshots α) : b.channel.next = b.next + 1 := rfl

@[simp] theorem channel_receivers (b : Oneshots α) :
    b.channel.receivers = insert b.next b.receivers := rfl

@[simp] theorem channel_sentOn (b : Oneshots α) : b.channel.sentOn = b.sentOn := rfl

@[simp] theorem dropReceiver_next (b : Oneshots α) (c : ℕ) : (b.dropReceiver c).next = b.next :=
  rfl

@[simp] theorem dropReceiver_receivers (b : Oneshots α) (c : ℕ) :
    (b.dropReceiver c).receivers = b.receivers.erase c := rfl

@[simp] theorem dropReceiver_sentOn (b : Oneshots α) (c : ℕ) :
    (b.dropReceiver c).sentOn = b.sentOn := rfl

theorem send_of_mem {b : Oneshots α} {c : ℕ} (h : c ∈ b.receivers) (v : α) :
    b.send c v = (true, { b with sent := b.sent ++ [(c, v)] }) := by
  rw [send, if_pos h]

theorem send_of_notMem {b : Oneshots α} {c : ℕ} (h : c ∉ b.receivers) (v : α) :
    b.send c v = (false, b) := by
  rw [send, if_neg h]

@[simp] theorem send_next (b : Oneshots α) (c : ℕ) (v : α) : (b.send c v).2.next = b.next := by
  unfold send
  split_ifs <;> rfl

@[simp] theorem send_receivers (b : Oneshots α) (c : ℕ) (v : α) :
    (b.send c v).2.receivers = b.receivers := by
  unfold send
  split_ifs <;> rfl

/-- A property of all values sent is kept by sending one more such value. -/
theorem forall_sent_send {P : α → Prop} {b : Oneshots α} (h : ∀ p ∈ b.sent, P p.2) (c : ℕ) {v : α}
    (hv : P v) : ∀ p ∈ (b.send c v).2.sent, P p.2 := by
  unfold send
  split_ifs
  · intro p hp
    rcases List.mem_append.mp hp with hp | hp
    · exact h p hp
    · rw [List.mem_singleton.mp hp]
      exact hv
  · exact h

theorem mem_sentOn_send {b : Oneshots α} {d : ℕ} (h : d ∈ b.sentOn) (c : ℕ) (v : α) :
    d ∈ (b.send c v).2.sentOn := by
  unfold send
  split_ifs
  · simp only [sentOn, List.map_append]
    exact List.mem_append_left _ h
  · exact h

theorem send_sentOn (b : Oneshots α) (c : ℕ) (v : α) :
    (b.send c v).2.sentOn = if c ∈ b.receivers then b.sentOn ++ [c] else b.sentOn := by
  unfold send sentOn
  split_ifs
  · simp only [List.map_append, List.map_cons, List.map_nil]
  · rfl

theorem value_eq_none {b : Oneshots α} {c : ℕ} : b.value c = none ↔ c ∉ b.sentOn := by
  unfold value sentOn
  rw [Option.map_eq_none_iff, List.find?_eq_none]
  simp only [List.mem_map, decide_eq_true_eq, not_exists, not_and]

/-! ## Sends in the order of the channels -/

/-- The sends went out in the order the channels were made, and only on channels made. -/
structure Ordered (b : Oneshots α) : Prop where
  sorted : b.sentOn.Pairwise (· < ·)
  made : ∀ c ∈ b.sentOn, c < b.next

theorem ordered_empty : (empty : Oneshots α).Ordered :=
  ⟨List.Pairwise.nil, fun _ h => absurd h List.not_mem_nil⟩

theorem Ordered.channel {b : Oneshots α} (h : b.Ordered) : b.channel.Ordered :=
  ⟨h.sorted, fun c hc => Nat.lt_succ_of_lt (h.made c hc)⟩

theorem Ordered.dropReceiver {b : Oneshots α} (h : b.Ordered) (c : ℕ) :
    (b.dropReceiver c).Ordered :=
  ⟨h.sorted, h.made⟩

/-- Sending keeps the order when every earlier send was on an older channel. -/
theorem Ordered.send {b : Oneshots α} (h : b.Ordered) {c : ℕ} (hc : c < b.next)
    (hlt : ∀ d ∈ b.sentOn, d < c) (v : α) : (b.send c v).2.Ordered := by
  constructor
  · rw [send_sentOn]
    split_ifs
    · rw [List.pairwise_append]
      refine ⟨h.sorted, List.pairwise_singleton _ _, fun d hd e he => ?_⟩
      rw [List.mem_singleton.mp he]
      exact hlt d hd
    · exact h.sorted
  · intro d hd
    rw [send_next]
    rw [send_sentOn] at hd
    split_ifs at hd
    · rcases List.mem_append.mp hd with hd | hd
      · exact h.made d hd
      · rw [List.mem_singleton.mp hd]
        exact hc
    · exact h.made d hd

end Oneshots

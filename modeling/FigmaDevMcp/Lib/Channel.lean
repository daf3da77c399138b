import Mathlib.Data.List.Basic

set_option autoImplicit false

/-!
# Bounded first-in first-out channels

A channel with a fixed capacity and one receiver. `received` is what the receiver has taken off
so far and `log` everything that was ever sent, oldest first; a closed channel takes no more
messages and what it still holds is never received.

* `trySend_eq_ok`: what a successful send does;
* `received_isPrefix_log`: what arrives is an initial part of what was sent, in that order.
-/

/-- A bounded channel with what it holds and what was taken from it. -/
structure Channel (μ : Type*) where
  capacity : ℕ
  queue : List μ
  received : List μ
  closed : Bool

/-- The two ways a send that does not wait can fail. -/
inductive TrySendError where
  | full
  | closed
  deriving DecidableEq, Repr

namespace Channel

variable {μ : Type*}

/-- An empty channel that is open. -/
def new (capacity : ℕ) : Channel μ := ⟨capacity, [], [], false⟩

/-- Everything sent so far. -/
def log (c : Channel μ) : List μ := c.received ++ c.queue

/-- Send without waiting; a closed channel is reported before a full one. -/
def trySend (c : Channel μ) (m : μ) : Except TrySendError (Channel μ) :=
  if c.closed then .error .closed
  else if c.capacity ≤ c.queue.length then .error .full
  else .ok { c with queue := c.queue ++ [m] }

/-- The receiver takes the oldest message. -/
def recv (c : Channel μ) : Option (μ × Channel μ) :=
  match c.closed, c.queue with
  | false, m :: rest => some (m, { c with queue := rest, received := c.received ++ [m] })
  | _, _ => none

/-- The receiver is dropped. -/
def close (c : Channel μ) : Channel μ := { c with closed := true }

@[simp] theorem log_new (n : ℕ) : (new n : Channel μ).log = [] := rfl

@[simp] theorem log_close (c : Channel μ) : c.close.log = c.log := rfl

theorem trySend_eq_ok {c d : Channel μ} {m : μ} (h : c.trySend m = .ok d) :
    c.closed = false ∧ c.queue.length < c.capacity ∧ d = { c with queue := c.queue ++ [m] } := by
  unfold trySend at h
  split_ifs at h with hc hl
  cases h
  exact ⟨Bool.eq_false_iff.mpr hc, Nat.not_le.mp hl, rfl⟩

theorem closed_of_trySend {c : Channel μ} {m : μ} (h : c.trySend m = .error .closed) :
    c.closed = true := by
  unfold trySend at h
  split_ifs at h with hc hl
  · exact hc
  · exact absurd h (by simp)

theorem log_of_trySend {c d : Channel μ} {m : μ} (h : c.trySend m = .ok d) :
    d.log = c.log ++ [m] := by
  obtain ⟨-, -, rfl⟩ := trySend_eq_ok h
  exact (List.append_assoc _ _ _).symm

theorem recv_eq_some {c d : Channel μ} {m : μ} (h : c.recv = some (m, d)) :
    c.closed = false ∧ ∃ rest, c.queue = m :: rest ∧
      d = { c with queue := rest, received := c.received ++ [m] } := by
  obtain ⟨cap, q, r, b⟩ := c
  cases b <;> cases q <;> simp only [recv, reduceCtorEq, Option.some.injEq, Prod.mk.injEq] at h
  obtain ⟨rfl, rfl⟩ := h
  exact ⟨rfl, _, rfl, rfl⟩

theorem log_of_recv {c d : Channel μ} {m : μ} (h : c.recv = some (m, d)) : d.log = c.log := by
  obtain ⟨-, rest, hq, rfl⟩ := recv_eq_some h
  simp only [log, hq, List.append_assoc, List.cons_append, List.nil_append]

/-- What arrives is an initial part of what was sent. -/
theorem received_isPrefix_log (c : Channel μ) : c.received <+: c.log := ⟨c.queue, rfl⟩

end Channel

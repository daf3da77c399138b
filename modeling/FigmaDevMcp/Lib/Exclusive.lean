import Mathlib.Logic.Function.Basic

set_option autoImplicit false

/-!
# Resources with one owner

A table says who owns each resource, and every agent keeps for itself which resources it holds.

* `take`, `free`: an agent takes a free resource, and lets go of all it has;
* `Agrees`: the table says of every agent what the agent holds;
* `Agrees.unique`: no resource is held twice;
* `Agrees.keep`, `Agrees.take`, `Agrees.free`: how the two stay in agreement.
-/

namespace Exclusive

variable {ρ α : Type} [DecidableEq ρ] [DecidableEq α]

/-- An owner takes a resource. -/
def take (owner : ρ → Option α) (r : ρ) (a : α) : ρ → Option α := Function.update owner r (some a)

/-- An owner gives back all that it holds. -/
def free (owner : ρ → Option α) (a : α) : ρ → Option α :=
  fun r => if owner r = some a then none else owner r

/-- The agents hold what the table says. -/
def Agrees {ρ α : Type} (owner : ρ → Option α) (holds : α → ρ → Prop) : Prop :=
  ∀ r a, owner r = some a ↔ holds a r

variable {owner : ρ → Option α} {holds holds' : α → ρ → Prop}

omit [DecidableEq ρ] [DecidableEq α] in
/-- **No resource is held twice.** -/
theorem Agrees.unique (h : Agrees owner holds) {a b : α} {r : ρ} (ha : holds a r) (hb : holds b r) :
    a = b := by
  have hab : some a = some b := ((h r a).2 ha).symm.trans ((h r b).2 hb)
  exact Option.some.inj hab

omit [DecidableEq ρ] [DecidableEq α] in
theorem Agrees.keep (h : Agrees owner holds) (hsame : ∀ a r, holds' a r ↔ holds a r) :
    Agrees owner holds' :=
  fun r a => (h r a).trans (hsame a r).symm

omit [DecidableEq α] in
theorem Agrees.take (h : Agrees owner holds) {r : ρ} {a : α} (hfree : owner r = none)
    (hholds : ∀ b q, holds' b q ↔ holds b q ∨ (b = a ∧ q = r)) : Agrees (take owner r a) holds' := by
  intro q b
  rw [hholds b q, Exclusive.take]
  by_cases hq : q = r
  · subst hq
    have hnone : ¬ holds b q := fun hb => by
      rw [(h q b).2 hb] at hfree
      cases hfree
    simp [hnone, eq_comm]
  · rw [Function.update_of_ne hq, h q b]
    simp [hq]

omit [DecidableEq ρ] in
theorem Agrees.free (h : Agrees owner holds) {a : α} (hholds : ∀ b q, holds' b q ↔ holds b q ∧ b ≠ a) :
    Agrees (free owner a) holds' := by
  intro q b
  rw [hholds b q, Exclusive.free, ← h q b]
  by_cases ha : owner q = some a
  · rw [if_pos ha, ha]
    exact ⟨fun hb => (by cases hb), fun hb => absurd (Option.some.inj hb.1).symm hb.2⟩
  · rw [if_neg ha]
    refine ⟨fun hb => ⟨hb, ?_⟩, fun hb => hb.1⟩
    rintro rfl
    exact ha hb

end Exclusive

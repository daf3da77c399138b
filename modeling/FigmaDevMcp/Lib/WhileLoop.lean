import Mathlib.Data.Nat.Notation
import Mathlib.Order.Basic
import Mathlib.Tactic.Common

set_option autoImplicit false

/-!
# Loops

A `while` loop over the variables that its body changes. A round of it goes around again or leaves,
by `break` or by `return`.

* `run`: the loop, for as many rounds as there is fuel;
* `rounds`: where its rounds start;
* `Advances`: every round that goes around again moves a cursor forward, within a bound;
* `Advances.exists_run`: such a loop ends, with what its rounds establish;
* `Advances.rounds_sorted`: the cursor is never where it was.
-/

/-- What a round comes to. -/
inductive WhileLoop.Round (σ ρ : Type) where
  | again (state : σ)
  | leave (result : ρ)

/-- A loop: its test, its body, and what it gives when the test fails. The body may not end, where
it runs loops of its own. -/
structure WhileLoop (σ ρ : Type) where
  test : σ → Bool
  body : σ → Option (WhileLoop.Round σ ρ)
  exit : σ → ρ

namespace WhileLoop

variable {σ ρ : Type}

/-- The loop, with fuel for its rounds. -/
def run (loop : WhileLoop σ ρ) : ℕ → σ → Option ρ
  | 0, _ => none
  | fuel + 1, s =>
    if loop.test s then
      match loop.body s with
      | some (.again t) => loop.run fuel t
      | some (.leave r) => some r
      | none => none
    else some (loop.exit s)

/-- The states in which the rounds start. -/
def rounds (loop : WhileLoop σ ρ) : ℕ → σ → List σ
  | 0, _ => []
  | fuel + 1, s =>
    if loop.test s then
      match loop.body s with
      | some (.again t) => s :: loop.rounds fuel t
      | _ => [s]
    else []

/-- Every round ends, and moves the cursor forward unless it is the last one. -/
structure Advances (loop : WhileLoop σ ρ) (cursor : σ → ℕ) (bound : ℕ) : Prop where
  returns : ∀ s, cursor s ≤ bound → loop.test s = true → ∃ r, loop.body s = some r
  forward : ∀ s t, cursor s ≤ bound → loop.test s = true → loop.body s = some (.again t) →
    cursor s < cursor t ∧ cursor t ≤ bound

/-- No round is the last one. -/
def NeverLeaves (loop : WhileLoop σ ρ) : Prop := ∀ s r, loop.body s ≠ some (.leave r)

/-- Where a round leaves, it leaves the cursor within the bound and no further back. -/
def LeavesWithin (loop : WhileLoop σ σ) (cursor : σ → ℕ) (bound : ℕ) : Prop :=
  ∀ s t, cursor s ≤ bound → loop.test s = true → loop.body s = some (.leave t) →
    cursor s ≤ cursor t ∧ cursor t ≤ bound

variable {loop : WhileLoop σ ρ} {cursor : σ → ℕ} {bound : ℕ}

/-- **A loop that advances ends**, with what its rounds establish on the way back. -/
theorem Advances.exists_run (h : loop.Advances cursor bound) {P : σ → ρ → Prop}
    (hexit : ∀ s, cursor s ≤ bound → loop.test s = false → P s (loop.exit s))
    (hleave : ∀ s r, cursor s ≤ bound → loop.test s = true → loop.body s = some (.leave r) →
      P s r)
    (hagain : ∀ s t r, cursor s ≤ bound → loop.test s = true → loop.body s = some (.again t) →
      P t r → P s r)
    {fuel : ℕ} {s : σ} (hs : cursor s ≤ bound) (hfuel : bound - cursor s < fuel) :
    ∃ r, loop.run fuel s = some r ∧ P s r := by
  induction fuel generalizing s with
  | zero => omega
  | succ fuel ih =>
      rw [run]
      cases htest : loop.test s with
      | false => exact ⟨loop.exit s, if_neg Bool.false_ne_true, hexit s hs htest⟩
      | true =>
          rw [if_pos rfl]
          obtain ⟨round, hround⟩ := h.returns s hs htest
          rw [hround]
          cases round with
          | leave r => exact ⟨r, rfl, hleave s r hs htest hround⟩
          | again t =>
              have hforward := h.forward s t hs htest hround
              obtain ⟨r, hrun, hpost⟩ := ih hforward.2 (by omega)
              exact ⟨r, hrun, hagain s t r hs htest hround hpost⟩

/-- Every round starts further on than all before it, within the bound. -/
theorem Advances.rounds_sorted (h : loop.Advances cursor bound) (fuel : ℕ) {s : σ}
    (hs : cursor s ≤ bound) :
    (loop.rounds fuel s).Pairwise (fun t u => cursor t < cursor u) ∧
      ∀ t ∈ loop.rounds fuel s, cursor s ≤ cursor t ∧ cursor t ≤ bound := by
  induction fuel generalizing s with
  | zero => exact ⟨.nil, nofun⟩
  | succ fuel ih =>
      rw [rounds]
      cases htest : loop.test s with
      | false => exact ⟨.nil, nofun⟩
      | true =>
          rw [if_pos rfl]
          split
          · rename_i t hround
            have hforward := h.forward s t hs htest hround
            have ⟨hsorted, hbounds⟩ := ih hforward.2
            refine ⟨List.pairwise_cons.2 ⟨?_, hsorted⟩, List.forall_mem_cons.2 ⟨⟨Nat.le_refl _, hs⟩, ?_⟩⟩
            · intro u hu
              have := hbounds u hu
              omega
            · intro u hu
              have := hbounds u hu
              omega
          · exact ⟨List.pairwise_singleton _ _, List.forall_mem_singleton.2 ⟨Nat.le_refl _, hs⟩⟩

end WhileLoop

import FigmaDevMcp.Lib.Chain
import FigmaDevMcp.Read.Host

set_option autoImplicit false

/-!
# The verdict of the ancestor walk

`visibilityOf` keeps the nodes it has passed once its walk gets long. What it says is what a walk says
that keeps nothing.

* `toward`: the chain of parents, which ends with a verdict;
* `plainVisibility`: the walk without the nodes it has passed;
* `visibilityOf_eq_plain`: **both walks have the same verdict**.
-/

namespace FigmaDevMcp

namespace Host

variable {ρ : Type} (host : Host ρ)

/-- The walk over the parents, for so many steps. -/
def plainVisibility : ℕ → Option ρ → VisibilityVerdict
  | 0, _ => .undetermined
  | _ + 1, none => .renders
  | fuel + 1, some current =>
    if host.switchedOff current then .hidden else plainVisibility fuel (host.parent current)

/-- The next node of the walk, or its verdict. -/
def toward : Option ρ → Option ρ ⊕ VisibilityVerdict
  | none => .inr .renders
  | some current => if host.switchedOff current then .inr .hidden else .inl (host.parent current)

theorem plainVisibility_eq_walk (fuel : ℕ) (current : Option ρ) :
    host.plainVisibility fuel current = Chain.walk host.toward .undetermined fuel current := by
  induction fuel generalizing current with
  | zero => rfl
  | succ fuel ih =>
      cases current with
      | none => rfl
      | some node =>
          rw [plainVisibility, Chain.walk, toward]
          by_cases hoff : host.switchedOff node = true
          · rw [if_pos hoff, if_pos hoff]
          · rw [if_neg hoff, if_neg hoff, ih]

variable [DecidableEq ρ]

theorem visibilityFrom_eq_watchedWalk (fuel step : ℕ) (seen : List ρ) (current : Option ρ) :
    host.visibilityFrom fuel step seen current =
      Chain.watchedWalk host.toward .undetermined cycleWatchAfter fuel step (seen.map some)
        current := by
  induction fuel generalizing step seen current with
  | zero => rfl
  | succ fuel ih =>
      cases current with
      | none => rfl
      | some node =>
          have hmem : some node ∈ seen.map some ↔ node ∈ seen :=
            List.mem_map_of_injective (Option.some_injective ρ)
          rw [visibilityFrom, Chain.watchedWalk, toward]
          by_cases hoff : host.switchedOff node = true
          · rw [if_pos hoff, if_pos hoff]
          · rw [if_neg hoff, if_neg hoff]
            simp only [hmem, ih, List.map_cons]

/-- **Both walks have the same verdict**, whatever the parents are. -/
theorem visibilityOf_eq_plain (node : ρ) :
    host.visibilityOf node = host.plainVisibility maxAncestorWalk (some node) := by
  rw [visibilityOf, visibilityFrom_eq_watchedWalk, plainVisibility_eq_walk]
  exact Chain.watchedWalk_eq nofun

end Host

end FigmaDevMcp

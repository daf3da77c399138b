import Mathlib.Data.List.Basic

set_option autoImplicit false

/-!
# Histories of sessions

A history is what has happened, the newest first. What a history begins with may open a session, and
each entry may end some.

* `Outstanding`: the session has been opened and not ended since;
* `Orderly`: each entry fits what was there before it;
* `Outstanding.exists_opens`: what an outstanding session goes back to.
-/

namespace History

variable {ε κ : Type} (opens : List ε → κ → Prop) (ends : ε → κ → Prop)
  (fits : ε → List ε → Prop)

/-- A key has been opened and not ended since. -/
def Outstanding : List ε → κ → Prop
  | [], _ => False
  | e :: earlier, k => opens (e :: earlier) k ∨ ¬ends e k ∧ Outstanding earlier k

/-- Every event fits those before it. -/
def Orderly : List ε → Prop
  | [] => True
  | e :: earlier => fits e earlier ∧ Orderly earlier

variable {opens ends fits}

/-- **What an outstanding session goes back to.** -/
theorem Outstanding.exists_opens {history : List ε} {k : κ} (h : Outstanding opens ends history k) :
    ∃ since opening, history = since ++ opening ∧ opens opening k ∧ ∀ x ∈ since, ¬ends x k := by
  induction history with
  | nil => exact h.elim
  | cons e earlier ih =>
      rcases h with hopens | ⟨hends, hearlier⟩
      · exact ⟨[], e :: earlier, rfl, hopens, fun x hx => absurd hx List.not_mem_nil⟩
      · obtain ⟨since, opening, rfl, hopens, hsince⟩ := ih hearlier
        refine ⟨e :: since, opening, rfl, hopens, fun x hx => ?_⟩
        rcases List.mem_cons.1 hx with rfl | hx
        · exact hends
        · exact hsince x hx

/-- A session stays outstanding while nothing ends it. -/
theorem Outstanding.append {history : List ε} {k : κ} (h : Outstanding opens ends history k)
    {later : List ε} (hlater : ∀ x ∈ later, ¬ends x k) : Outstanding opens ends (later ++ history) k := by
  induction later with
  | nil => exact h
  | cons x later ih =>
      have hx : ¬ends x k := hlater x List.mem_cons_self
      exact Or.inr ⟨hx, ih fun y hy => hlater y (List.mem_cons_of_mem x hy)⟩

/-- Entries that fit anywhere keep a history orderly. -/
theorem Orderly.append {history : List ε} (h : Orderly fits history) {later : List ε}
    (hlater : ∀ x ∈ later, ∀ earlier, fits x earlier) : Orderly fits (later ++ history) := by
  induction later with
  | nil => exact h
  | cons x later ih =>
      refine ⟨hlater x List.mem_cons_self _, ih fun y hy => ?_⟩
      exact hlater y (List.mem_cons_of_mem x hy)

theorem Orderly.entry_fits {later : List ε} {e : ε} {earlier : List ε}
    (h : Orderly fits (later ++ e :: earlier)) : fits e earlier := by
  induction later with
  | nil => exact h.1
  | cons x later ih => exact ih h.2

end History

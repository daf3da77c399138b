import Mathlib.Data.List.Basic
import Mathlib.Data.Nat.Notation
import Mathlib.Tactic.Common

set_option autoImplicit false

/-!
# Preorder walks on a stack, and resuming them

A walk takes an item off a stack and puts its children there, the first one on top. Each item
knows its path from the root, by the places of children; walking down a path again gives the item
and the stack that was under it.

* `preorder`, `ahead`: the items of a tree, and what a stack has still to come;
* `descend`: down a path, with the later siblings on the way;
* `Resumes`: every item of a stack is found again, with what is under it.
-/

namespace PreorderWalk

variable {α : Type*} (children follow : α → List α)

/-! ## What is still to come -/

/-- An item with everything under it, down to a level. -/
def preorder : ℕ → α → List α
  | 0, a => [a]
  | level + 1, a => a :: (follow a).flatMap (preorder level)

/-- What a stack has still to come, where the tree under an item has the given height. -/
def ahead (height : α → ℕ) (stack : List α) : List α :=
  stack.flatMap fun a => preorder follow (height a) a

variable {children follow}

/-- Below its height a tree has nothing. -/
theorem preorder_of_le {height : α → ℕ} (htree : ∀ a, ∀ b ∈ follow a, height b < height a) {a : α}
    {level : ℕ} (h : height a ≤ level) :
    preorder follow level a = preorder follow (height a) a := by
  induction level using Nat.strongRecOn generalizing a with
  | ind level ih =>
      cases level with
      | zero =>
          rw [Nat.le_zero.mp h]
      | succ level =>
          cases hheight : height a with
          | zero =>
              have hfollow : follow a = [] := List.eq_nil_iff_forall_not_mem.2 fun b hb => by
                have := htree a b hb
                omega
              rw [preorder, preorder, hfollow, List.flatMap_nil]
          | succ below =>
              rw [preorder, preorder]
              congr 1
              refine List.flatMap_congr fun b hb => ?_
              have hlt := htree a b hb
              rw [ih level (by omega) (by omega), ih below (by omega) (by omega)]

/-- **One step of the walk**: an item comes, and then its children, before what is under it. -/
theorem ahead_cons {height : α → ℕ} (htree : ∀ a, ∀ b ∈ follow a, height b < height a) (a : α)
    (stack : List α) :
    ahead follow height (a :: stack) = a :: ahead follow height (follow a ++ stack) := by
  rw [ahead, ahead, List.flatMap_cons, List.flatMap_append, ← List.cons_append]
  congr 1
  cases hheight : height a with
  | zero =>
      have hfollow : follow a = [] := List.eq_nil_iff_forall_not_mem.2 fun b hb => by
        have := htree a b hb
        omega
      rw [preorder, hfollow, List.flatMap_nil]
  | succ below =>
      rw [preorder]
      congr 1
      refine List.flatMap_congr fun b hb => preorder_of_le htree ?_
      have hlt := htree a b hb
      omega

/-- What passes from an item to those under it holds of all that is still to come. -/
theorem forall_ahead {P : α → Prop} (hP : ∀ a, P a → ∀ b ∈ follow a, P b) {height : α → ℕ}
    {stack : List α} (h : ∀ a ∈ stack, P a) : ∀ a ∈ ahead follow height stack, P a := by
  have hpreorder : ∀ level a, P a → ∀ b ∈ preorder follow level a, P b := by
    intro level
    induction level with
    | zero => exact fun a ha => List.forall_mem_singleton.2 ha
    | succ level ih =>
        intro a ha
        refine List.forall_mem_cons.2 ⟨ha, fun c hc => ?_⟩
        obtain ⟨b, hb, hc⟩ := List.mem_flatMap.1 hc
        exact ih b (hP a ha b hb) c hc
  intro b hb
  obtain ⟨a, ha, hb⟩ := List.mem_flatMap.1 hb
  exact hpreorder _ a (h a ha) b hb

/-! ## Paths -/

variable (children) in
/-- Down a path: the item at its end, over the later siblings on the way. -/
def descend : List α → α → List ℕ → Option (α × List α)
  | stack, a, [] => some (a, stack)
  | stack, a, target :: path =>
    match (children a).drop target with
    | [] => none
    | child :: siblings => descend (siblings ++ stack) child path

theorem descend_concat (stack : List α) (a : α) (path : List ℕ) (target : ℕ) :
    descend children stack a (path ++ [target]) =
      (descend children stack a path).bind fun r =>
        match (children r.1).drop target with
        | [] => none
        | child :: siblings => some (child, siblings ++ r.2) := by
  induction path generalizing stack a with
  | nil =>
      rw [List.nil_append, descend, descend, Option.bind_some]
      cases (children a).drop target <;> rfl
  | cons first path ih =>
      rw [List.cons_append, descend, descend]
      cases (children a).drop first with
      | nil => rfl
      | cons child siblings => exact ih _ _

variable (children) in
/-- Walking down its path finds an item again, with the stack under it. -/
def Resumes (path : α → List ℕ) (root : α) : List α → Prop
  | [] => True
  | a :: stack => descend children [] root (path a) = some (a, stack) ∧ Resumes path root stack

theorem Resumes.drop {path : α → List ℕ} {root : α}
    (hpath : ∀ (a b : α) (j : ℕ), (children a)[j]? = some b → path b = path a ++ [j]) {a : α}
    {stack : List α} (h : Resumes children path root (a :: stack)) (n j : ℕ)
    (hn : (children a).length = j + n) :
    Resumes children path root ((children a).drop j ++ stack) := by
  induction n generalizing j with
  | zero =>
      rw [List.drop_eq_nil_of_le (by omega), List.nil_append]
      exact h.2
  | succ n ih =>
      have hj : j < (children a).length := by omega
      have hdrop := List.drop_eq_getElem_cons hj
      rw [hdrop]
      refine ⟨?_, ih (j + 1) (by omega)⟩
      rw [hpath a _ j (List.getElem?_eq_getElem hj), descend_concat, h.1, Option.bind_some, hdrop]
      rfl

/-- **Putting the children of an item there instead of it keeps a stack resumable.** -/
theorem Resumes.push {path : α → List ℕ} {root : α}
    (hpath : ∀ (a b : α) (j : ℕ), (children a)[j]? = some b → path b = path a ++ [j]) {a : α}
    (hfollow : follow a = [] ∨ follow a = children a) {stack : List α}
    (h : Resumes children path root (a :: stack)) : Resumes children path root (follow a ++ stack) := by
  rcases hfollow with hnone | hall
  · rw [hnone]
    exact h.2
  · rw [hall]
    simpa using h.drop hpath (children a).length 0 (by omega)

end PreorderWalk

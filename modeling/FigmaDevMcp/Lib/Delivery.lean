import Mathlib.Data.List.Basic
import Mathlib.Data.Nat.Notation
import Mathlib.Tactic.Common

set_option autoImplicit false

/-!
# Reading from deliveries

A source delivers items in pieces of any size, and may be interrupted between them. A call of
`read` takes no more than one piece; `readExact` calls it until it has as many items as it wants.

* `Delivery`, `contents`: what is still to come, and the items of it;
* `read`, `readExact`;
* `readExact_ok`, `readExact_short`: **the pieces do not matter**, only what they hold.
-/

namespace Delivery

variable {α : Type*}

/-- One answer to a call of `read`: some items, or an interruption, after which it is called again. -/
inductive Piece (α : Type*)
  | items (first : α) (rest : List α)
  | interrupted

/-- The items that a piece brings. -/
def Piece.contents : Piece α → List α
  | items first rest => first :: rest
  | interrupted => []

/-- The items still to come. -/
def contents (pieces : List (Piece α)) : List α := pieces.flatMap Piece.contents

/-- A call of `read` with room for `room + 1` items: nothing for an interruption, and no items at
the end. What does not fit is left for the next call. -/
def read (room : ℕ) : List (Piece α) → Option (List α) × List (Piece α)
  | [] => (some [], [])
  | .interrupted :: pieces => (none, pieces)
  | .items first rest :: pieces =>
    match rest.drop room with
    | [] => (some (first :: rest), pieces)
    | a :: more => (some (first :: rest.take room), .items a more :: pieces)

/-- The loop of `readExact`, for at most `calls` calls of `read`: nothing where the items end before
there are `count` of them. -/
def readExactIn : ℕ → ℕ → List (Piece α) → Option (List α) × List (Piece α)
  | _, 0, pieces => (some [], pieces)
  | 0, _ + 1, pieces => (none, pieces)
  | calls + 1, count + 1, pieces =>
    match read count pieces with
    | (some [], pieces) => (none, pieces)
    | (some got, pieces) =>
      let (more, left) := readExactIn calls (count + 1 - got.length) pieces
      (more.map (got ++ ·), left)
    | (none, pieces) => readExactIn calls (count + 1) pieces

/-- Every call but the last takes a whole piece, so there are no more calls than pieces, and one at
the end. -/
def readExact (count : ℕ) (pieces : List (Piece α)) : Option (List α) × List (Piece α) :=
  readExactIn (pieces.length + 1) count pieces

theorem contents_cons (piece : Piece α) (pieces : List (Piece α)) :
    contents (piece :: pieces) = piece.contents ++ contents pieces := List.flatMap_cons

/-- What a read that wants `count` items must do: take them and leave the others, or take all that
there is and fail. -/
def Exact (count : ℕ) (pieces : List (Piece α)) (r : Option (List α) × List (Piece α)) : Prop :=
  if count ≤ (contents pieces).length then
    r.1 = some ((contents pieces).take count) ∧ contents r.2 = (contents pieces).drop count
  else r = (none, [])

theorem Exact.zero (pieces : List (Piece α)) : Exact 0 pieces (some [], pieces) := by
  rw [Exact, if_pos (Nat.zero_le _)]
  exact ⟨rfl, rfl⟩

/-- Some items, and then as many as are still wanted. -/
theorem Exact.prepend {count : ℕ} {got : List α} {pieces before : List (Piece α)}
    {r : Option (List α) × List (Piece α)} (hgot : got.length ≤ count)
    (hbefore : contents before = got ++ contents pieces) (h : Exact (count - got.length) pieces r) :
    Exact count before (r.1.map (got ++ ·), r.2) := by
  have hlength : (contents before).length = got.length + (contents pieces).length := by
    rw [hbefore, List.length_append]
  rw [Exact] at h ⊢
  by_cases hfit : count ≤ (contents before).length
  · rw [if_pos (by omega)] at h
    rw [if_pos hfit, h.1, h.2, hbefore, List.take_append, List.drop_append,
      List.take_of_length_le hgot, List.drop_eq_nil_of_le hgot]
    exact ⟨rfl, rfl⟩
  · rw [if_neg (by omega)] at h
    rw [if_neg hfit, h]
    rfl

theorem readExactIn_exact {calls count : ℕ} {pieces : List (Piece α)}
    (hcalls : pieces.length < calls) : Exact count pieces (readExactIn calls count pieces) := by
  induction calls generalizing count pieces with
  | zero => exact absurd hcalls (Nat.not_lt_zero _)
  | succ calls ih =>
      cases count with
      | zero =>
          rw [readExactIn]
          exact Exact.zero pieces
      | succ count =>
          match pieces with
          | [] =>
              rw [readExactIn, Exact, if_neg (by simp [contents])]
              rfl
          | .interrupted :: pieces =>
              rw [List.length_cons] at hcalls
              have hcontents : contents (.interrupted :: pieces) = contents pieces := rfl
              rw [Exact, hcontents]
              exact ih (show pieces.length < calls by omega)
          | .items first rest :: pieces =>
              rw [List.length_cons] at hcalls
              rw [readExactIn, read]
              cases hdrop : rest.drop count with
              | nil =>
                  have hle : rest.length ≤ count := List.drop_eq_nil_iff.1 hdrop
                  have hleft : Exact (count + 1 - (first :: rest).length) pieces _ :=
                    ih (show pieces.length < calls by omega)
                  exact Exact.prepend (by rw [List.length_cons]; omega) (contents_cons _ _) hleft
              | cons a more =>
                  have hlt : count < rest.length := by
                    by_contra hle
                    rw [List.drop_eq_nil_of_le (Nat.le_of_not_lt hle)] at hdrop
                    cases hdrop
                  have hlength : (first :: rest.take count).length = count + 1 := by
                    rw [List.length_cons, List.length_take, Nat.min_eq_left (Nat.le_of_lt hlt)]
                  have hcontents : contents (.items first rest :: pieces) =
                      (first :: rest.take count) ++ contents (.items a more :: pieces) := by
                    rw [contents_cons, contents_cons, Piece.contents, Piece.contents, ← hdrop,
                      List.cons_append, List.cons_append, ← List.append_assoc, List.take_append_drop]
                  refine Exact.prepend (Nat.le_of_eq hlength) hcontents ?_
                  rw [hlength, Nat.sub_self, readExactIn]
                  exact Exact.zero _

/-- Where there are items enough, the first ones are read and the others are still to come. -/
theorem readExact_ok {count : ℕ} {pieces : List (Piece α)} (h : count ≤ (contents pieces).length) :
    ∃ left, readExact count pieces = (some ((contents pieces).take count), left) ∧
      contents left = (contents pieces).drop count := by
  have hexact : Exact count pieces (readExact count pieces) :=
    readExactIn_exact (Nat.lt_succ_self pieces.length)
  rw [Exact, if_pos h] at hexact
  exact ⟨_, Prod.ext hexact.1 rfl, hexact.2⟩

/-- Where there are not, all of them are gone. -/
theorem readExact_short {count : ℕ} {pieces : List (Piece α)} (h : (contents pieces).length < count) :
    readExact count pieces = (none, []) := by
  have hexact : Exact count pieces (readExact count pieces) :=
    readExactIn_exact (Nat.lt_succ_self pieces.length)
  rwa [Exact, if_neg (Nat.not_le_of_lt h)] at hexact

end Delivery

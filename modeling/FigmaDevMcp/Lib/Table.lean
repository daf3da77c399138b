import Mathlib.Data.List.AList

set_option autoImplicit false

/-!
# Finite maps

A finite map from keys to values, with the idioms of code that owns one: change the value of a
key in place (`modify`) or every value (`mapValues`), and collect the keys that meet a condition, then remove them one
by one (`keysWhere`, `drain`).

* `lookup_drain`: what is left after removing a list of keys;
* `mem_drain`, `drain_nodup`: the removed entries, each once.
-/

/-- A finite map. -/
abbrev Table (κ υ : Type*) := AList fun _ : κ => υ

namespace Table

variable {κ υ : Type*} [DecidableEq κ]

/-- Replace the value of `k`, if there is one. -/
def modify (t : Table κ υ) (k : κ) (f : υ → υ) : Table κ υ :=
  match t.lookup k with
  | some v => t.insert k (f v)
  | none => t

theorem lookup_modify (t : Table κ υ) (k : κ) (f : υ → υ) (j : κ) :
    (t.modify k f).lookup j = if j = k then (t.lookup k).map f else t.lookup j := by
  unfold modify
  split_ifs with h
  · subst h
    cases hk : t.lookup j with
    | some v => exact AList.lookup_insert t
    | none => exact hk
  · cases t.lookup k with
    | some v => exact AList.lookup_insert_ne h
    | none => rfl

theorem lookup_insert_eq (t : Table κ υ) (k : κ) (v : υ) (j : κ) :
    (t.insert k v).lookup j = if j = k then some v else t.lookup j := by
  split_ifs with h
  · subst h
    exact AList.lookup_insert t
  · exact AList.lookup_insert_ne h

theorem lookup_erase_eq (t : Table κ υ) (k j : κ) :
    (t.erase k).lookup j = if j = k then none else t.lookup j := by
  split_ifs with h
  · subst h
    exact AList.lookup_erase j t
  · exact AList.lookup_erase_ne h

/-- Change every value. -/
def mapValues (t : Table κ υ) (f : υ → υ) : Table κ υ :=
  ⟨t.entries.map (.map id fun _ => f), t.nodupKeys.map₂ _⟩

theorem lookup_mapValues (t : Table κ υ) (f : υ → υ) (j : κ) :
    (t.mapValues f).lookup j = (t.lookup j).map f :=
  List.dlookup_map₂ j

/-- The keys whose entry meets `p`. -/
def keysWhere (t : Table κ υ) (p : κ → υ → Bool) : List κ :=
  t.keys.filter fun k => (t.lookup k).any (p k)

theorem mem_keysWhere {t : Table κ υ} {p : κ → υ → Bool} {k : κ} :
    k ∈ t.keysWhere p ↔ ∃ v, t.lookup k = some v ∧ p k v = true := by
  rw [keysWhere, List.mem_filter, Option.any_eq_true]
  constructor
  · rintro ⟨-, h⟩
    exact h
  · rintro ⟨v, hv, hp⟩
    exact ⟨AList.mem_keys.mp (AList.lookup_isSome.mp (by rw [hv]; rfl)), v, hv, hp⟩

/-- Remove the listed keys one by one, collecting the entries that were there. -/
def drain : List κ → Table κ υ → List (κ × υ) × Table κ υ
  | [], t => ([], t)
  | k :: ks, t =>
    match t.lookup k with
    | some v =>
      let (out, t') := drain ks (t.erase k)
      ((k, v) :: out, t')
    | none => drain ks t

theorem lookup_drain (ks : List κ) (t : Table κ υ) (j : κ) :
    (drain ks t).2.lookup j = if j ∈ ks then none else t.lookup j := by
  induction ks generalizing t with
  | nil => simp only [drain, List.not_mem_nil, if_false]
  | cons k ks ih =>
      unfold drain
      cases hk : t.lookup k with
      | some v =>
          dsimp only
          rw [ih, lookup_erase_eq]
          by_cases hj : j = k <;> by_cases hm : j ∈ ks <;> simp [hj, hm]
      | none =>
          dsimp only
          rw [ih]
          by_cases hj : j = k
          · subst hj
            simp only [hk, ite_self]
          · simp only [List.mem_cons, hj, false_or]

/-- The removed entries are the listed keys' entries. -/
theorem mem_drain {ks : List κ} {t : Table κ υ} {j : κ} {w : υ} :
    (j, w) ∈ (drain ks t).1 ↔ j ∈ ks ∧ t.lookup j = some w := by
  induction ks generalizing t with
  | nil => simp only [drain, List.not_mem_nil, false_and]
  | cons k ks ih =>
      unfold drain
      cases hk : t.lookup k with
      | some v =>
          dsimp only
          rw [List.mem_cons, ih, lookup_erase_eq, Prod.mk.injEq, List.mem_cons]
          by_cases hj : j = k
          · subst hj
            simp only [true_and, if_true, reduceCtorEq, and_false, or_false, true_or, hk,
              Option.some.injEq, eq_comm]
          · simp only [hj, false_and, false_or, if_false]
      | none =>
          dsimp only
          rw [ih, List.mem_cons]
          by_cases hj : j = k
          · subst hj
            simp only [hk, reduceCtorEq, and_false]
          · simp only [hj, false_or]

/-- No entry is removed twice. -/
theorem drain_nodup (ks : List κ) (t : Table κ υ) : ((drain ks t).1.map Prod.fst).Nodup := by
  induction ks generalizing t with
  | nil => exact List.nodup_nil
  | cons k ks ih =>
      unfold drain
      cases hk : t.lookup k with
      | some v =>
          dsimp only
          rw [List.map_cons, List.nodup_cons]
          refine ⟨fun hm => ?_, ih _⟩
          obtain ⟨⟨j, w⟩, hjw, rfl⟩ := List.mem_map.mp hm
          have hl := (mem_drain.mp hjw).2
          rw [lookup_erase_eq, if_pos rfl] at hl
          exact absurd hl (by simp)
      | none => exact ih t

end Table

import Mathlib.Data.List.Nodup

set_option autoImplicit false

/-!
# `Map`

A map that keeps the order in which its keys came, as JavaScript has it.

* `get`, `set`, `delete`: one key;
* `deleteWhere`: the entries that a loop over the map deletes;
* `mem_set`, `mem_delete`, `get_eq_some`: what is in it afterwards.
-/

/-- The entries of a `Map`, in the order in which they were first set. -/
structure JsMap (κ υ : Type) where
  entries : List (κ × υ)
  nodup : (entries.map Prod.fst).Nodup

namespace JsMap

variable {κ υ : Type}

/-- A map without entries. -/
def empty : JsMap κ υ := ⟨[], List.nodup_nil⟩

/-- The entries that do not meet a condition. -/
def deleteWhere (m : JsMap κ υ) (p : κ × υ → Bool) : JsMap κ υ :=
  ⟨m.entries.filter fun e => !p e, m.nodup.sublist (List.filter_sublist.map _)⟩

variable [DecidableEq κ]

/-- The value of a key. -/
def get (m : JsMap κ υ) (k : κ) : Option υ := (m.entries.find? fun e => e.1 = k).map Prod.snd

/-- The key is there. -/
def has (m : JsMap κ υ) (k : κ) : Bool := (m.get k).isSome

/-- The entry of a key is taken out. -/
def delete (m : JsMap κ υ) (k : κ) : JsMap κ υ := m.deleteWhere fun e => e.1 = k

/-- A key that is there keeps its place. -/
def setEntries (k : κ) (v : υ) : List (κ × υ) → List (κ × υ)
  | [] => [(k, v)]
  | e :: rest => if e.1 = k then (k, v) :: rest else e :: setEntries k v rest

theorem mem_setEntries {k : κ} {v : υ} {entries : List (κ × υ)} (h : (entries.map Prod.fst).Nodup)
    {e : κ × υ} : e ∈ setEntries k v entries ↔ e = (k, v) ∨ e ∈ entries ∧ e.1 ≠ k := by
  induction entries with
  | nil => simp [setEntries]
  | cons first rest ih =>
      have ⟨hfirst, hrest⟩ := List.nodup_cons.1 h
      rw [setEntries]
      split_ifs with hk
      · have hother : ∀ e ∈ rest, e.1 ≠ k := fun e he hek =>
          hfirst (List.mem_map.2 ⟨e, he, hek.trans hk.symm⟩)
        rw [List.mem_cons, List.mem_cons]
        constructor
        · rintro (rfl | he)
          · exact Or.inl rfl
          · exact Or.inr ⟨Or.inr he, hother e he⟩
        · rintro (rfl | ⟨rfl | he, hne⟩)
          · exact Or.inl rfl
          · exact absurd hk hne
          · exact Or.inr he
      · rw [List.mem_cons, ih hrest, List.mem_cons]
        constructor
        · rintro (rfl | rfl | ⟨he, hne⟩)
          · exact Or.inr ⟨Or.inl rfl, hk⟩
          · exact Or.inl rfl
          · exact Or.inr ⟨Or.inr he, hne⟩
        · rintro (rfl | ⟨rfl | he, hne⟩)
          · exact Or.inr (Or.inl rfl)
          · exact Or.inl rfl
          · exact Or.inr (Or.inr ⟨he, hne⟩)

theorem nodup_setEntries {k : κ} {v : υ} {entries : List (κ × υ)} (h : (entries.map Prod.fst).Nodup) :
    ((setEntries k v entries).map Prod.fst).Nodup := by
  induction entries with
  | nil => exact List.nodup_singleton k
  | cons first rest ih =>
      have ⟨hfirst, hrest⟩ := List.nodup_cons.1 h
      rw [setEntries]
      split_ifs with hk
      · exact List.nodup_cons.2 ⟨hk ▸ hfirst, hrest⟩
      · refine List.nodup_cons.2 ⟨fun hmem => ?_, ih hrest⟩
        obtain ⟨e, he, hfst⟩ := List.mem_map.1 hmem
        rcases (mem_setEntries hrest).1 he with rfl | ⟨he, -⟩
        · exact hk hfst.symm
        · exact hfirst (List.mem_map.2 ⟨e, he, hfst⟩)

/-- The value of a key is set; a key that was there keeps its place. -/
def set (m : JsMap κ υ) (k : κ) (v : υ) : JsMap κ υ := ⟨setEntries k v m.entries, nodup_setEntries m.nodup⟩

theorem mem_set {m : JsMap κ υ} {k : κ} {v : υ} {e : κ × υ} :
    e ∈ (m.set k v).entries ↔ e = (k, v) ∨ e ∈ m.entries ∧ e.1 ≠ k := mem_setEntries m.nodup

omit [DecidableEq κ] in
theorem mem_deleteWhere {m : JsMap κ υ} {p : κ × υ → Bool} {e : κ × υ} :
    e ∈ (m.deleteWhere p).entries ↔ e ∈ m.entries ∧ p e = false := by
  simp [deleteWhere]

theorem mem_delete {m : JsMap κ υ} {k : κ} {e : κ × υ} :
    e ∈ (m.delete k).entries ↔ e ∈ m.entries ∧ e.1 ≠ k := by
  simp [delete, mem_deleteWhere]

theorem get_eq_some {m : JsMap κ υ} {k : κ} {v : υ} : m.get k = some v ↔ (k, v) ∈ m.entries := by
  constructor
  · intro h
    obtain ⟨e, hfind, rfl⟩ := Option.map_eq_some_iff.1 h
    have hkey : e.1 = k := by simpa using List.find?_some hfind
    rw [← hkey]
    exact List.mem_of_find?_eq_some hfind
  · intro h
    have hsome : (m.entries.find? fun e => e.1 = k).isSome = true :=
      List.find?_isSome.2 ⟨(k, v), h, by simp⟩
    obtain ⟨e, hfind⟩ := Option.isSome_iff_exists.1 hsome
    have hkey : e.1 = k := by simpa using List.find?_some hfind
    have heq : e = (k, v) :=
      List.inj_on_of_nodup_map m.nodup (List.mem_of_find?_eq_some hfind) h hkey
    rw [get, hfind, heq]
    rfl

theorem get_set (m : JsMap κ υ) (k k' : κ) (v : υ) :
    (m.set k v).get k' = if k' = k then some v else m.get k' := by
  by_cases hk : k' = k
  · rw [if_pos hk, hk, get_eq_some, mem_set]
    exact Or.inl rfl
  · rw [if_neg hk]
    refine Option.ext fun w => ?_
    rw [get_eq_some, get_eq_some, mem_set]
    refine ⟨fun h => ?_, fun h => Or.inr ⟨h, hk⟩⟩
    rcases h with heq | ⟨h, _⟩
    · exact absurd (congrArg Prod.fst heq) hk
    · exact h

omit [DecidableEq κ] in
/-- At most one entry has a key. -/
theorem length_filter_key (m : JsMap κ υ) {p : κ × υ → Bool} {key : κ}
    (hp : ∀ e ∈ m.entries, p e = true → e.1 = key) : (m.entries.filter p).length ≤ 1 := by
  have hnodup : ((m.entries.filter p).map Prod.fst).Nodup :=
    m.nodup.sublist (List.filter_sublist.map _)
  have hall : (m.entries.filter p).map Prod.fst =
      List.replicate (m.entries.filter p).length key := by
    rw [List.eq_replicate_iff]
    refine ⟨List.length_map _, fun k hk => ?_⟩
    obtain ⟨e, he, rfl⟩ := List.mem_map.1 hk
    have ⟨hmem, hpe⟩ := List.mem_filter.1 he
    exact hp e hmem hpe
  rw [hall] at hnodup
  exact List.nodup_replicate.1 hnodup

end JsMap

import Mathlib.Data.List.Infix
import Mathlib.Data.List.Nodup

set_option autoImplicit false

/-!
# The first of each key

A list that is gone through once, and of which an item is kept where none before it has its key.

* `add`, `addAll`, `firsts`: one item, several, and all of a list;
* `prefix_addAll`, `nodup_addAll`, `mem_keys_addAll`: what is kept stays, without a key twice, and
  every key is there.
-/

namespace Firsts

variable {α κ : Type*} [DecidableEq κ] (key : α → κ)

/-- One more item, unless one with its key is kept. -/
def add (kept : List α) (a : α) : List α := if key a ∈ kept.map key then kept else kept ++ [a]

/-- The items of a list are added one after another. -/
def addAll (kept as : List α) : List α := as.foldl (add key) kept

/-- The first item for each key. -/
def firsts (as : List α) : List α := addAll key [] as

variable {key} {kept as bs : List α}

theorem add_of_mem {a : α} (h : key a ∈ kept.map key) : add key kept a = kept := if_pos h

theorem add_of_not_mem {a : α} (h : key a ∉ kept.map key) : add key kept a = kept ++ [a] := if_neg h

theorem addAll_cons (a : α) : addAll key kept (a :: as) = addAll key (add key kept a) as := rfl

theorem addAll_append : addAll key kept (as ++ bs) = addAll key (addAll key kept as) bs :=
  List.foldl_append

/-- Several lists, one after the other, of which some items are left out. -/
theorem foldl_addAll {p : α → Bool} {lists : List (List α)} :
    lists.foldl (fun kept as => addAll key kept (as.filter p)) kept =
      addAll key kept (lists.flatten.filter p) := by
  induction lists generalizing kept with
  | nil => rfl
  | cons as lists ih => rw [List.foldl_cons, ih, List.flatten_cons, List.filter_append, addAll_append]

theorem prefix_add (a : α) : kept <+: add key kept a := by
  rw [add]
  split_ifs
  · exact List.prefix_rfl
  · exact List.prefix_append _ _

/-- What is kept stays, in its place. -/
theorem prefix_addAll : kept <+: addAll key kept as := by
  induction as generalizing kept with
  | nil => exact List.prefix_rfl
  | cons a as ih => exact (prefix_add a).trans ih

theorem mem_keys_add {a : α} {k : κ} : k ∈ (add key kept a).map key ↔ k ∈ kept.map key ∨ k = key a := by
  by_cases h : key a ∈ kept.map key
  · rw [add_of_mem h]
    exact ⟨Or.inl, fun hk => hk.elim (fun hmem => hmem) fun heq => heq ▸ h⟩
  · rw [add_of_not_mem h, List.map_append, List.mem_append, List.map_singleton, List.mem_singleton]

/-- Every key is there. -/
theorem mem_keys_addAll {k : κ} :
    k ∈ (addAll key kept as).map key ↔ k ∈ kept.map key ∨ k ∈ as.map key := by
  induction as generalizing kept with
  | nil => exact ⟨Or.inl, fun h => h.resolve_right List.not_mem_nil⟩
  | cons a as ih => rw [addAll_cons, ih, mem_keys_add, List.map_cons, List.mem_cons, or_assoc]

theorem nodup_add {a : α} (h : (kept.map key).Nodup) : ((add key kept a).map key).Nodup := by
  by_cases hmem : key a ∈ kept.map key
  · rwa [add_of_mem hmem]
  · rw [add_of_not_mem hmem, List.map_append]
    exact List.nodup_append.2 ⟨h, List.nodup_singleton _, fun k hk l hl heq =>
      hmem ((List.mem_singleton.1 hl) ▸ heq ▸ hk)⟩

/-- No key is there twice. -/
theorem nodup_addAll (h : (kept.map key).Nodup) : ((addAll key kept as).map key).Nodup := by
  induction as generalizing kept with
  | nil => exact h
  | cons a as ih => exact ih (nodup_add h)

/-- Nothing else is kept. -/
theorem mem_addAll {a : α} (h : a ∈ addAll key kept as) : a ∈ kept ∨ a ∈ as := by
  induction as generalizing kept with
  | nil => exact Or.inl h
  | cons b as ih =>
      rcases ih h with hkept | has
      · by_cases hmem : key b ∈ kept.map key
        · exact Or.inl (add_of_mem hmem ▸ hkept)
        · rw [add_of_not_mem hmem, List.mem_append, List.mem_singleton] at hkept
          rcases hkept with hkept | rfl
          · exact Or.inl hkept
          · exact Or.inr List.mem_cons_self
      · exact Or.inr (List.mem_cons_of_mem _ has)

/-! ## Items that are their own keys -/

theorem mem_firsts_self [DecidableEq α] {a : α} : a ∈ firsts (fun b => b) as ↔ a ∈ as := by
  have hkeys : a ∈ (firsts (fun b => b) as).map (fun b => b) ↔
      a ∈ ([] : List α).map (fun b => b) ∨ a ∈ as.map fun b => b := mem_keys_addAll
  rwa [List.map_id', List.map_id', List.map_id', or_iff_right List.not_mem_nil] at hkeys

theorem nodup_firsts_self [DecidableEq α] : (firsts (fun b => b) as).Nodup := by
  have hnodup : ((firsts (fun b => b) as).map fun b => b).Nodup := nodup_addAll List.nodup_nil
  rwa [List.map_id'] at hnodup

/-! ## Keys of what items come to -/

omit [DecidableEq κ] in
/-- The keys of what some items come to are some of the keys of the items. -/
theorem map_filterMap_sublist {β : Type*} {f : α → Option β} {key : β → κ} {of : α → κ}
    (hkey : ∀ a ∈ as, ∀ b, f a = some b → key b = of a) :
    ((as.filterMap f).map key).Sublist (as.map of) := by
  induction as with
  | nil => exact List.Sublist.slnil
  | cons a rest ih =>
      have ⟨hfirst, hrest⟩ := List.forall_mem_cons.1 hkey
      cases hf : f a with
      | none =>
          rw [List.filterMap_cons_none hf]
          exact (ih hrest).cons _
      | some b =>
          rw [List.filterMap_cons_some hf, List.map_cons, List.map_cons, hfirst b hf]
          exact (ih hrest).cons_cons _

end Firsts

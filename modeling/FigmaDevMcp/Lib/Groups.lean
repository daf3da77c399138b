import FigmaDevMcp.Lib.Firsts
import FigmaDevMcp.Lib.JsMap
import Mathlib.Tactic.Common

set_option autoImplicit false

/-!
# Events grouped by their keys

A map that holds, for every key, the value of its first event and the members of its events, each
of them once and no more than `cap`.

* `insert`, `collect`: one event, and all of a list;
* `group`: what a key has of a list of events;
* `get_collect`, `entries_collect`: **that is what the map holds**.
-/

namespace Groups

/-- One entry for the group of a key. -/
structure Event (κ ν μ : Type) where
  key : κ
  value : ν
  member : μ

/-- What is kept under a key. -/
structure Group (ν μ : Type) where
  value : ν
  members : List μ

variable {κ ν μ : Type} [DecidableEq κ] [DecidableEq μ]

/-- A member that comes again is passed over, and so is one too many. -/
def insert (cap : ℕ) (groups : JsMap κ (Group ν μ)) (e : Event κ ν μ) : JsMap κ (Group ν μ) :=
  match groups.get e.key with
  | none => groups.set e.key ⟨e.value, [e.member]⟩
  | some group =>
    if e.member ∈ group.members ∨ cap ≤ group.members.length then groups
    else groups.set e.key { group with members := group.members ++ [e.member] }

/-- The groups of the entries of a list. -/
def collect (cap : ℕ) (events : List (Event κ ν μ)) : JsMap κ (Group ν μ) :=
  events.foldl (insert cap) .empty

/-- The members of a key, each once. -/
def members (events : List (Event κ ν μ)) (k : κ) : List μ :=
  Firsts.firsts (fun m => m) ((events.filter (·.key = k)).map (·.member))

/-- What a key has of a list of events. -/
def group (cap : ℕ) (events : List (Event κ ν μ)) (k : κ) : Option (Group ν μ) :=
  (events.find? (·.key = k)).map fun e => ⟨e.value, (members events k).take cap⟩

variable {cap : ℕ} {events : List (Event κ ν μ)} {e : Event κ ν μ} {k : κ}

theorem collect_append : collect cap (events ++ [e]) = insert cap (collect cap events) e := by
  rw [collect, List.foldl_append]
  rfl

omit [DecidableEq μ] in
theorem filter_append_of_ne (h : e.key ≠ k) :
    (events ++ [e]).filter (·.key = k) = events.filter (·.key = k) := by
  rw [List.filter_append, List.filter_cons_of_neg (by simpa using h), List.filter_nil,
    List.append_nil]

theorem members_append_of_ne (h : e.key ≠ k) : members (events ++ [e]) k = members events k := by
  rw [members, filter_append_of_ne h, members]

theorem members_append (h : e.key = k) :
    members (events ++ [e]) k = Firsts.add (fun m => m) (members events k) e.member := by
  rw [members, List.filter_append, List.filter_cons_of_pos (by simpa using h), List.filter_nil,
    List.map_append, Firsts.firsts, Firsts.addAll_append]
  rfl

theorem group_append_of_ne (h : e.key ≠ k) : group cap (events ++ [e]) k = group cap events k := by
  rw [group, group, List.find?_append, members_append_of_ne h]
  simp [h]

theorem get_insert_of_ne (groups : JsMap κ (Group ν μ)) (h : e.key ≠ k) :
    (insert cap groups e).get k = groups.get k := by
  rw [insert]
  cases groups.get e.key with
  | none => exact (JsMap.get_set _ _ _ _).trans (if_neg h.symm)
  | some group =>
      dsimp only
      split_ifs
      · rfl
      · exact (JsMap.get_set _ _ _ _).trans (if_neg h.symm)

/-- A member more, of those that are kept. -/
theorem take_add {ms : List μ} {m : μ} :
    (Firsts.add (fun m => m) ms m).take cap =
      if m ∈ ms.take cap ∨ cap ≤ (ms.take cap).length then ms.take cap else ms.take cap ++ [m] := by
  rw [List.length_take]
  by_cases hfull : cap ≤ ms.length
  · rw [if_pos (Or.inr (by omega))]
    have hkept : ms <+: Firsts.add (fun m => m) ms m := Firsts.prefix_add m
    obtain ⟨more, hmore⟩ := hkept
    rw [← hmore, List.take_append_of_le_length hfull]
  · rw [List.take_of_length_le (by omega : ms.length ≤ cap)]
    by_cases hmem : m ∈ ms
    · rw [if_pos (Or.inl hmem), Firsts.add_of_mem (by rwa [List.map_id']),
        List.take_of_length_le (by omega)]
    · rw [if_neg (not_or.2 ⟨hmem, by omega⟩), Firsts.add_of_not_mem (by rwa [List.map_id']),
        List.take_of_length_le (by rw [List.length_append, List.length_singleton]; omega)]

/-- **A key of the map** has the value of its first event, and its first members. -/
theorem get_collect (hcap : 0 < cap) (events : List (Event κ ν μ)) (k : κ) :
    (collect cap events).get k = group cap events k := by
  induction events using List.reverseRecOn with
  | nil => rfl
  | append_singleton events e ih =>
      rw [collect_append]
      by_cases hkey : e.key = k
      · rw [insert, hkey, ih, group, group, List.find?_append, members_append hkey]
        cases hfind : events.find? (·.key = k) with
        | none =>
            have hempty : members events k = [] := by
              rw [members, List.filter_eq_nil_iff.2 fun a ha => by
                simpa using List.find?_eq_none.1 hfind a ha]
              rfl
            have hadd : (Firsts.add (fun m => m) [] e.member).take cap = [e.member] :=
              List.take_of_length_le hcap
            rw [hempty, hadd]
            simp [hkey, JsMap.get_set]
        | some first =>
            rw [Option.some_or, Option.map_some, Option.map_some, take_add]
            dsimp only
            split_ifs with hkept
            · rw [ih, group, hfind]
              rfl
            · exact (JsMap.get_set _ _ _ _).trans (if_pos rfl)
      · rw [get_insert_of_ne _ hkey, ih, group_append_of_ne hkey]

/-! ## The keys, in order -/

omit [DecidableEq μ] in
theorem keys_setEntries {k : κ} {v : Group ν μ} (entries : List (κ × Group ν μ)) :
    (JsMap.setEntries k v entries).map Prod.fst =
      Firsts.add (fun k => k) (entries.map Prod.fst) k := by
  rw [Firsts.add, List.map_id']
  induction entries with
  | nil => rfl
  | cons entry rest ih =>
      rw [JsMap.setEntries]
      by_cases hk : entry.1 = k
      · rw [if_pos hk, if_pos (List.mem_map.2 ⟨entry, List.mem_cons_self, hk⟩), List.map_cons,
          List.map_cons, hk]
      · rw [if_neg hk, List.map_cons, ih, List.map_cons]
        by_cases hmem : k ∈ rest.map Prod.fst
        · rw [if_pos hmem, if_pos (List.mem_cons_of_mem _ hmem)]
        · rw [if_neg hmem, if_neg (List.not_mem_cons_of_ne_of_not_mem (Ne.symm hk) hmem), List.cons_append]

theorem keys_insert (groups : JsMap κ (Group ν μ)) (e : Event κ ν μ) :
    (insert cap groups e).entries.map Prod.fst =
      Firsts.add (fun k => k) (groups.entries.map Prod.fst) e.key := by
  rw [insert]
  cases hget : groups.get e.key with
  | none => exact keys_setEntries groups.entries
  | some group =>
      dsimp only
      split_ifs
      · refine (Firsts.add_of_mem ?_).symm
        rw [List.map_id']
        exact List.mem_map_of_mem (JsMap.get_eq_some.1 hget)
      · exact keys_setEntries groups.entries

theorem keys_collect (cap : ℕ) (events : List (Event κ ν μ)) :
    (collect cap events).entries.map Prod.fst = Firsts.firsts (fun k => k) (events.map (·.key)) := by
  induction events using List.reverseRecOn with
  | nil => rfl
  | append_singleton events e ih =>
      rw [collect_append, keys_insert, ih, List.map_append, Firsts.firsts, Firsts.firsts,
        Firsts.addAll_append]
      rfl

/-- The entries of a map, from its keys. -/
theorem entries_eq_filterMap {υ : Type} (m : JsMap κ υ) :
    m.entries = (m.entries.map Prod.fst).filterMap fun k => (m.get k).map fun v => (k, v) := by
  have hall : ∀ l : List (κ × υ), (∀ e ∈ l, e ∈ m.entries) →
      l = (l.map Prod.fst).filterMap fun k => (m.get k).map fun v => (k, v) := by
    intro l hl
    induction l with
    | nil => rfl
    | cons e rest ih =>
        have ⟨hfirst, hrest⟩ := List.forall_mem_cons.1 hl
        have hget : m.get e.1 = some e.2 := JsMap.get_eq_some.2 hfirst
        rw [List.map_cons, List.filterMap_cons_some (by rw [hget, Option.map_some]), ← ih hrest]
  exact hall m.entries fun _ h => h

/-- **The entries of the map**: its keys in the order in which they came, and what each has. -/
theorem entries_collect (hcap : 0 < cap) (events : List (Event κ ν μ)) :
    (collect cap events).entries = (Firsts.firsts (fun k => k) (events.map (·.key))).filterMap
      fun k => (group cap events k).map fun g => (k, g) := by
  rw [entries_eq_filterMap, keys_collect]
  exact List.filterMap_congr fun k _ => by rw [get_collect hcap]

end Groups

import FigmaDevMcp.Lib.WeighedWalk
import Mathlib.Data.Set.Basic

set_option autoImplicit false

/-!
# What a walk with stubs reaches

A walk comes to an item once for each path to it, and where it keeps stubs, it does not go below
a shared item that it has kept before. What it reaches in the end is a matter of the places alone.

* `Place`, `places`: where a walk comes, in preorder;
* `OpenFrom`: a place is open unless it is below a shared item that an earlier open place has given;
* `walk_places`: a walk with room enough keeps the items of the open places.
-/

namespace Walk

variable {α ι : Type*}

/-- Where a walk comes to an item. -/
structure Place (α ι : Type*) where
  item : α
  /-- The label that counts as emitted once the item is kept. -/
  gives : Option ι
  /-- The label for which the item becomes a stub, if it has been emitted. -/
  asks : Option ι
  /-- How many places are below this one. They follow it. -/
  span : ℕ
deriving DecidableEq

/-- The place does not lie below a shared item that is in `E`, or that an earlier open place has
given. -/
def OpenFrom (E : Set ι) (ps : List (Place α ι)) (i : ℕ) : Prop :=
  ∀ k < i, ∀ p, ps[k]? = some p → i ≤ k + p.span → ∀ l ∈ p.asks,
    l ∉ E ∧ ∀ j < k, ∀ q, ps[j]? = some q → l ∈ q.gives → ¬ OpenFrom E ps j
termination_by i

/-- Some open place is one of those. -/
def AtOpen (E : Set ι) (ps : List (Place α ι)) (Q : Place α ι → Prop) : Prop :=
  ∃ i p, ps[i]? = some p ∧ OpenFrom E ps i ∧ Q p

/-- The labels emitted after the open places. -/
def given (E : Set ι) (ps : List (Place α ι)) : Set ι :=
  {l | l ∈ E ∨ AtOpen E ps fun p => l ∈ p.gives}

/-- What is below a place is there. -/
def Nested (ps : List (Place α ι)) : Prop :=
  ∀ k p, ps[k]? = some p → k + p.span < ps.length

section

variable {E : Set ι} {ps qs : List (Place α ι)} {p : Place α ι}

theorem openFrom_zero : OpenFrom E ps 0 := by
  rw [OpenFrom]
  exact fun k hk => absurd hk (Nat.not_lt_zero k)

/-- Where nothing is shared, every place is open. -/
theorem openFrom_of_asks (h : ∀ p ∈ ps, p.asks = none) (i : ℕ) : OpenFrom E ps i := by
  rw [OpenFrom]
  intro k _ p hp _ l hl
  rw [h p (List.mem_of_getElem? hp)] at hl
  cases hl

theorem openFrom_append_left {i : ℕ} (hi : i < ps.length) :
    OpenFrom E (ps ++ qs) i ↔ OpenFrom E ps i := by
  induction i using Nat.strongRecOn with
  | ind i ih =>
      have hget : ∀ k < i, (ps ++ qs)[k]? = ps[k]? := fun k hk =>
        List.getElem?_append_left (Nat.lt_trans hk hi)
      rw [OpenFrom, OpenFrom]
      refine forall_congr' fun k => forall_congr' fun hk => ?_
      rw [hget k hk]
      refine forall_congr' fun p => forall_congr' fun _ => forall_congr' fun _ =>
        forall_congr' fun l => forall_congr' fun _ => and_congr_right fun _ => ?_
      refine forall_congr' fun j => forall_congr' fun hj => ?_
      rw [hget j (Nat.lt_trans hj hk), ih j (Nat.lt_trans hj hk) (by omega)]

theorem openFrom_append_right (hnested : Nested ps) (i : ℕ) :
    OpenFrom E (ps ++ qs) (ps.length + i) ↔ OpenFrom (given E ps) qs i := by
  induction i using Nat.strongRecOn with
  | ind i ih =>
      have hright : ∀ k, (ps ++ qs)[ps.length + k]? = qs[k]? := fun k => by
        rw [List.getElem?_append_right (Nat.le_add_right _ _), Nat.add_sub_cancel_left]
      rw [OpenFrom, OpenFrom]
      constructor
      · intro h k hk p hp hspan l hl
        have ⟨hE, hbefore⟩ := h (ps.length + k) (by omega) p (by rw [hright, hp]) (by omega) l hl
        refine ⟨?_, fun j hj q hq hgives => ?_⟩
        · rintro (hmem | ⟨j, q, hq, hopen, hgives⟩)
          · exact hE hmem
          · have hj : j < ps.length := (List.getElem?_eq_some_iff.1 hq).1
            refine hbefore j (by omega) q ?_ hgives ((openFrom_append_left hj).2 hopen)
            rw [List.getElem?_append_left hj, hq]
        · rw [← ih j (by omega)]
          exact hbefore (ps.length + j) (by omega) q (by rw [hright, hq]) hgives
      · intro h k hk p hp hspan l hl
        -- nothing before `qs` reaches into it
        have hk' : ps.length ≤ k := by
          by_contra hlt
          rw [List.getElem?_append_left (by omega)] at hp
          have := hnested k p hp
          omega
        obtain ⟨k, rfl⟩ := Nat.exists_eq_add_of_le hk'
        rw [hright] at hp
        have ⟨hE, hbefore⟩ := h k (by omega) p hp (by omega) l hl
        refine ⟨fun hmem => hE (Or.inl hmem), fun j hj q hq hgives hopen => ?_⟩
        by_cases hj' : j < ps.length
        · rw [List.getElem?_append_left hj'] at hq
          exact hE (Or.inr ⟨j, q, hq, (openFrom_append_left hj').1 hopen, hgives⟩)
        · obtain ⟨j, rfl⟩ := Nat.exists_eq_add_of_le (Nat.le_of_not_lt hj')
          rw [hright] at hq
          exact hbefore j (by omega) q hq hgives ((ih j (by omega)).1 hopen)

/-- Below a place it takes that the place is no stub. -/
theorem openFrom_cons (hspan : p.span = ps.length) {i : ℕ} (hi : i < ps.length) :
    OpenFrom E (p :: ps) (i + 1) ↔
      (∀ l ∈ p.asks, l ∉ E) ∧ OpenFrom {l | l ∈ E ∨ l ∈ p.gives} ps i := by
  induction i using Nat.strongRecOn with
  | ind i ih =>
      rw [OpenFrom, OpenFrom]
      constructor
      · intro h
        have hasks : ∀ l ∈ p.asks, l ∉ E := fun l hl => (h 0 (by omega) p rfl (by omega) l hl).1
        refine ⟨hasks, fun k hk q hq hle l hl => ?_⟩
        have ⟨hE, hbefore⟩ := h (k + 1) (by omega) q hq (by omega) l hl
        refine ⟨?_, fun j hj r hr hgives hopen => ?_⟩
        · rintro (hmem | hgives)
          · exact hE hmem
          · exact hbefore 0 (by omega) p rfl hgives openFrom_zero
        · exact hbefore (j + 1) (by omega) r hr hgives
            ((ih j (by omega) (by omega)).2 ⟨hasks, hopen⟩)
      · rintro ⟨hasks, h⟩ k hk q hq hle l hl
        cases k with
        | zero =>
            obtain rfl : p = q := Option.some.inj hq
            exact ⟨hasks l hl, fun j hj => absurd hj (Nat.not_lt_zero j)⟩
        | succ k =>
            have ⟨hE, hbefore⟩ := h k (by omega) q hq (by omega) l hl
            refine ⟨fun hmem => hE (Or.inl hmem), fun j hj r hr hgives hopen => ?_⟩
            cases j with
            | zero =>
                obtain rfl : p = r := Option.some.inj hr
                exact hE (Or.inr hgives)
            | succ j =>
                exact hbefore j (by omega) r hr hgives ((ih j (by omega) (by omega)).1 hopen).2

theorem atOpen_nil {Q : Place α ι → Prop} : ¬ AtOpen E [] Q := fun ⟨_, _, h, _⟩ => nomatch h

theorem atOpen_append (hnested : Nested ps) {Q : Place α ι → Prop} :
    AtOpen E (ps ++ qs) Q ↔ AtOpen E ps Q ∨ AtOpen (given E ps) qs Q := by
  constructor
  · rintro ⟨i, p, hp, hopen, hQ⟩
    by_cases hi : i < ps.length
    · rw [List.getElem?_append_left hi] at hp
      exact Or.inl ⟨i, p, hp, (openFrom_append_left hi).1 hopen, hQ⟩
    · obtain ⟨i, rfl⟩ := Nat.exists_eq_add_of_le (Nat.le_of_not_lt hi)
      rw [List.getElem?_append_right (Nat.le_add_right _ _), Nat.add_sub_cancel_left] at hp
      exact Or.inr ⟨i, p, hp, (openFrom_append_right hnested i).1 hopen, hQ⟩
  · rintro (⟨i, p, hp, hopen, hQ⟩ | ⟨i, p, hp, hopen, hQ⟩)
    · have hi : i < ps.length := (List.getElem?_eq_some_iff.1 hp).1
      refine ⟨i, p, ?_, (openFrom_append_left hi).2 hopen, hQ⟩
      rw [List.getElem?_append_left hi, hp]
    · refine ⟨ps.length + i, p, ?_, (openFrom_append_right hnested i).2 hopen, hQ⟩
      rw [List.getElem?_append_right (Nat.le_add_right _ _), Nat.add_sub_cancel_left, hp]

theorem lt_of_getElem?_succ {i : ℕ} {q : Place α ι} (h : (p :: ps)[i + 1]? = some q) :
    i < ps.length := by
  rw [List.getElem?_cons_succ] at h
  exact (List.getElem?_eq_some_iff.1 h).1

/-- Below a stub no place is open. -/
theorem atOpen_cons_stub (hspan : p.span = ps.length) {l : ι} (hasks : l ∈ p.asks) (hE : l ∈ E)
    {Q : Place α ι → Prop} : AtOpen E (p :: ps) Q ↔ Q p := by
  constructor
  · rintro ⟨i, q, hq, hopen, hQ⟩
    cases i with
    | zero =>
        obtain rfl : p = q := Option.some.inj hq
        exact hQ
    | succ i =>
        have hi := lt_of_getElem?_succ hq
        exact absurd hE (((openFrom_cons hspan hi).1 hopen).1 l hasks)
  · exact fun hQ => ⟨0, p, rfl, openFrom_zero, hQ⟩

theorem atOpen_cons (hspan : p.span = ps.length) (hasks : ∀ l ∈ p.asks, l ∉ E)
    {Q : Place α ι → Prop} :
    AtOpen E (p :: ps) Q ↔ Q p ∨ AtOpen {l | l ∈ E ∨ l ∈ p.gives} ps Q := by
  constructor
  · rintro ⟨i, q, hq, hopen, hQ⟩
    cases i with
    | zero =>
        obtain rfl : p = q := Option.some.inj hq
        exact Or.inl hQ
    | succ i =>
        have hi := lt_of_getElem?_succ hq
        exact Or.inr ⟨i, q, hq, ((openFrom_cons hspan hi).1 hopen).2, hQ⟩
  · rintro (hQ | ⟨i, q, hq, hopen, hQ⟩)
    · exact ⟨0, p, rfl, openFrom_zero, hQ⟩
    · have hi : i < ps.length := (List.getElem?_eq_some_iff.1 hq).1
      exact ⟨i + 1, q, hq, (openFrom_cons hspan hi).2 ⟨hasks, hopen⟩, hQ⟩

theorem given_nil : given E ([] : List (Place α ι)) = E := by
  ext l
  exact or_iff_left atOpen_nil

theorem given_append (hnested : Nested ps) : given E (ps ++ qs) = given (given E ps) qs := by
  ext l
  show (l ∈ E ∨ AtOpen E (ps ++ qs) _) ↔ (l ∈ E ∨ AtOpen E ps _) ∨ AtOpen (given E ps) qs _
  rw [atOpen_append hnested, or_assoc]

theorem given_cons_stub (hspan : p.span = ps.length) {l : ι} (hasks : l ∈ p.asks) (hE : l ∈ E) :
    given E (p :: ps) = {l | l ∈ E ∨ l ∈ p.gives} := by
  ext m
  exact or_congr_right (atOpen_cons_stub hspan hasks hE)

theorem given_cons (hspan : p.span = ps.length) (hasks : ∀ l ∈ p.asks, l ∉ E) :
    given E (p :: ps) = given {l | l ∈ E ∨ l ∈ p.gives} ps := by
  ext m
  show (m ∈ E ∨ AtOpen E (p :: ps) _) ↔ (m ∈ E ∨ m ∈ p.gives) ∨ AtOpen _ ps _
  rw [atOpen_cons hspan hasks, or_assoc]

theorem nested_nil : Nested ([] : List (Place α ι)) := fun _ _ h => nomatch h

theorem nested_append (hps : Nested ps) (hqs : Nested qs) : Nested (ps ++ qs) := by
  intro k p hp
  rw [List.length_append]
  by_cases hk : k < ps.length
  · rw [List.getElem?_append_left hk] at hp
    have := hps k p hp
    omega
  · obtain ⟨k, rfl⟩ := Nat.exists_eq_add_of_le (Nat.le_of_not_lt hk)
    rw [List.getElem?_append_right (Nat.le_add_right _ _), Nat.add_sub_cancel_left] at hp
    have := hqs k p hp
    omega

theorem nested_cons (hspan : p.span = ps.length) (hps : Nested ps) : Nested (p :: ps) := by
  intro k q hq
  rw [List.length_cons]
  cases k with
  | zero =>
      obtain rfl : p = q := Option.some.inj hq
      omega
  | succ k =>
      have := hps k q hq
      omega

end

/-! ## The places of a graph -/

section

variable [DecidableEq ι] (scene : Scene α ι) (dedupe : Bool)

/-- The place of an item under its ancestors. An item that is its own ancestor is no stub, and
counts as emitted only where it has no children. -/
def Scene.place (ancestors : List ι) (a : α) (span : ℕ) : Place α ι where
  item := a
  gives :=
    if scene.children a = [] ∨ scene.repeats ancestors a = false then scene.sharedLabel dedupe a
    else none
  asks := if scene.repeats ancestors a then none else scene.sharedLabel dedupe a
  span := span

/-- The places at and under an item, in preorder: once for each path down to the depth that does
not go on from an item that is its own ancestor. -/
def places (below : ℕ) (ancestors : List ι) (a : α) : List (Place α ι) :=
  if scene.children a = [] ∨ scene.repeats ancestors a = true then
    [scene.place dedupe ancestors a 0]
  else
    match below with
    | 0 => [scene.place dedupe ancestors a 0]
    | below + 1 =>
      let under := (scene.children a).flatMap (places below ((scene.label a).toList ++ ancestors))
      scene.place dedupe ancestors a under.length :: under

variable {scene dedupe}

omit [DecidableEq ι] in
theorem nested_flatMap {g : α → List (Place α ι)} (hg : ∀ a, Nested (g a)) (as : List α) :
    Nested (as.flatMap g) := by
  induction as with
  | nil => exact nested_nil
  | cons a rest ih => exact nested_append (hg a) ih

theorem nested_places (below : ℕ) (ancestors : List ι) (a : α) :
    Nested (places scene dedupe below ancestors a) := by
  induction below using Nat.strongRecOn generalizing ancestors a with
  | ind below ih =>
      rw [places.eq_def]
      split_ifs with h
      · exact nested_cons rfl nested_nil
      · cases below with
        | zero => exact nested_cons rfl nested_nil
        | succ left =>
            exact nested_cons rfl (nested_flatMap (fun b => ih left (by omega) _ b) _)

variable (scene dedupe) in
theorem places_eq_cons (below : ℕ) (ancestors : List ι) (a : α) :
    ∃ under, places scene dedupe below ancestors a =
      scene.place dedupe ancestors a under.length :: under := by
  rw [places.eq_def]
  split_ifs with h
  · exact ⟨[], rfl⟩
  · cases below with
    | zero => exact ⟨[], rfl⟩
    | succ left => exact ⟨_, rfl⟩

/-- With and without stubs, a walk has the same places. -/
theorem items_places (below : ℕ) (ancestors : List ι) (a : α) (d : Bool) :
    (places scene dedupe below ancestors a).map Place.item =
      (places scene d below ancestors a).map Place.item := by
  induction below using Nat.strongRecOn generalizing ancestors a with
  | ind below ih =>
      rw [places.eq_def, places.eq_def scene d]
      split_ifs with h
      · rfl
      · cases below with
        | zero => rfl
        | succ left =>
            simp only [List.map_cons, List.map_flatMap]
            exact congrArg (a :: ·) (List.flatMap_congr fun b _ => ih left (by omega) _ b)

/-- Without stubs no place asks for a label. -/
theorem asks_of_mem_places {below : ℕ} {ancestors : List ι} {a : α} {p : Place α ι}
    (h : p ∈ places scene false below ancestors a) : p.asks = none := by
  have hplace : ∀ anc b n, (scene.place false anc b n).asks = none := by
    intro anc b n
    simp [Scene.place, Scene.sharedLabel]
  induction below using Nat.strongRecOn generalizing ancestors a with
  | ind below ih =>
      rw [places.eq_def] at h
      split_ifs at h
      · rw [List.mem_singleton.1 h]
        exact hplace _ _ _
      · cases below with
        | zero =>
            rw [List.mem_singleton.1 h]
            exact hplace _ _ _
        | succ left =>
            rcases List.mem_cons.1 h with rfl | h
            · exact hplace _ _ _
            · obtain ⟨b, _, hb⟩ := List.mem_flatMap.1 h
              exact ih left (by omega) hb

/-! ## A walk with room enough -/

/-- What a place takes of each budget, at most. -/
def Scene.cost (scene : Scene α ι) (a : α) : ℕ := 1 + scene.weight a + scene.stubWeight a

/-- What all places cost together. -/
def Scene.room (scene : Scene α ι) (ps : List (Place α ι)) : ℕ :=
  (ps.map fun p => scene.cost p.item).sum

omit [DecidableEq ι] in
theorem Scene.room_cons (p : Place α ι) (ps : List (Place α ι)) :
    scene.room (p :: ps) = scene.cost p.item + scene.room ps := List.sum_cons

/-- No budget is nearer than `n`. -/
structure Ample (budget : Budget) (s : State ι) (n : ℕ) : Prop where
  visits : s.visited + n ≤ budget.visits
  returns : s.returned + n ≤ budget.returns
  weight : s.spent + n ≤ budget.weight

/-- A visit that keeps the items of the open places, and leaves room for `m`. -/
structure Sweeps (budget : Budget) (s : State ι) (m : ℕ) (ps : List (Place α ι))
    (r : Option (Kept α) × State ι) : Prop where
  kept : ∃ k, r.1 = some k ∧
    ∀ b, b ∈ k.items ↔ AtOpen {l | l ∈ s.emitted} ps fun p => p.item = b
  ample : Ample budget r.2 m
  emitted : {l | l ∈ r.2.emitted} = given {l | l ∈ s.emitted} ps

omit [DecidableEq ι] in
@[simp] theorem State.mark_emitted (s : State ι) (c : Cut) : (s.mark c).emitted = s.emitted := by
  unfold State.mark
  split
  · rfl
  · split_ifs <;> rfl
  · rfl

omit [DecidableEq ι] in
theorem State.mem_emit (s : State ι) (label : Option ι) :
    {l | l ∈ (s.emit label).emitted} = {l | l ∈ s.emitted ∨ l ∈ label} := by
  ext l
  cases label with
  | none => simp [State.emit]
  | some m => simp [State.emit, or_comm, eq_comm]

omit [DecidableEq ι] in
/-- A row of siblings, where every visit of one sweeps its places. -/
theorem walkAll_places {budget : Budget} {f : α → State ι → Option (Kept α) × State ι}
    {g : α → List (Place α ι)} (hnested : ∀ a, Nested (g a))
    (hf : ∀ a s m, Ample budget s (scene.room (g a) + m) → Sweeps budget s m (g a) (f a s))
    (as : List α) {s : State ι} {m : ℕ} (h : Ample budget s (scene.room (as.flatMap g) + m)) :
    (∀ b, b ∈ Kept.itemsAll (walkAll f as s).kept ↔
        AtOpen {l | l ∈ s.emitted} (as.flatMap g) fun p => p.item = b) ∧
      Ample budget (walkAll f as s).state m ∧
      {l | l ∈ (walkAll f as s).state.emitted} = given {l | l ∈ s.emitted} (as.flatMap g) := by
  induction as generalizing s with
  | nil =>
      refine ⟨fun b => ?_, ?_, given_nil.symm⟩
      · exact iff_of_false List.not_mem_nil atOpen_nil
      · exact (Nat.zero_add m) ▸ h
  | cons a rest ih =>
      have hroom : scene.room ((a :: rest).flatMap g) + m =
          scene.room (g a) + (scene.room (rest.flatMap g) + m) := by
        rw [List.flatMap_cons, Scene.room, List.map_append, List.sum_append, Nat.add_assoc]
        rfl
      obtain ⟨⟨k, hk, hitems⟩, hample, hemitted⟩ := hf a s _ (hroom ▸ h)
      have ⟨hrest, hleft, hafter⟩ := ih hample
      rw [walkAll_cons_some hk, List.flatMap_cons]
      refine ⟨fun b => ?_, hleft, ?_⟩
      · show b ∈ k.items ++ _ ↔ _
        rw [List.mem_append, hitems, hrest, hemitted, atOpen_append (hnested a)]
      · show {l | l ∈ (walkAll f rest (f a s).2).state.emitted} = _
        rw [hafter, hemitted, given_append (hnested a)]

/-- **A walk with room enough keeps the items of the open places.** -/
theorem walk_places {budget : Budget} (below : ℕ) (ancestors : List ι) (a : α) {s : State ι} {m : ℕ}
    (h : Ample budget s (scene.room (places scene dedupe below ancestors a) + m)) :
    Sweeps budget s m (places scene dedupe below ancestors a)
      (walk scene budget dedupe below ancestors a s) := by
  induction below using Nat.strongRecOn generalizing ancestors a s m with
  | ind below ih =>
      obtain ⟨under, hunder⟩ := places_eq_cons scene dedupe below ancestors a
      rw [hunder] at h
      obtain ⟨hvisits, hreturns, hweight⟩ := h
      rw [Scene.room_cons, show (scene.place dedupe ancestors a under.length).item = a from rfl,
        Scene.cost] at hvisits hreturns hweight
      rw [walk.eq_def, if_neg (by omega), if_neg (by omega)]
      by_cases hstub : scene.stubbed dedupe ancestors a s = true
      · rw [if_pos hstub, if_neg (by omega), hunder]
        obtain ⟨l, hlabel, hmem, hrepeats⟩ : ∃ l, scene.sharedLabel dedupe a = some l ∧
            l ∈ s.emitted ∧ scene.repeats ancestors a = false := by
          unfold Scene.stubbed at hstub
          cases hlabel : scene.sharedLabel dedupe a with
          | none => rw [hlabel] at hstub; cases hstub
          | some l =>
              rw [hlabel] at hstub
              simp only [Bool.and_eq_true, decide_eq_true_eq, Bool.not_eq_true'] at hstub
              exact ⟨l, rfl, hstub⟩
        have hasks : l ∈ (scene.place dedupe ancestors a under.length).asks := by
          simp [Scene.place, hrepeats, hlabel]
        have hgives : (scene.place dedupe ancestors a under.length).gives = some l := by
          simp [Scene.place, hrepeats, hlabel]
        refine ⟨⟨_, rfl, fun b => ?_⟩, ⟨?_, ?_, ?_⟩, ?_⟩
        · rw [atOpen_cons_stub (by rfl) hasks hmem]
          exact List.mem_singleton.trans eq_comm
        · simp only [State.charge_visited, State.visit_visited]
          omega
        · simp only [State.charge_returned, State.visit_returned]
          omega
        · simp only [State.charge_spent, State.visit_spent]
          omega
        · rw [given_cons_stub (by rfl) hasks hmem, hgives]
          ext x
          simp only [Set.mem_ofPred_eq, Option.mem_some_iff]
          exact ⟨Or.inl, fun hx => hx.elim id fun hx => hx ▸ hmem⟩
      have hasks : ∀ l ∈ (scene.place dedupe ancestors a under.length).asks,
          l ∉ ({l | l ∈ s.emitted} : Set ι) := by
        intro l hl hmem
        apply hstub
        cases hrepeats : scene.repeats ancestors a with
        | true => simp [Scene.place, hrepeats] at hl
        | false =>
            have hlabel : scene.sharedLabel dedupe a = some l := by
              simpa [Scene.place, hrepeats] using hl
            simpa [Scene.stubbed, hlabel, hrepeats] using hmem
      rw [if_neg hstub, if_neg (by omega)]
      -- where the walk goes no further, the item is the one that is kept
      have hone : ∀ cut (t : State ι), under = [] →
          t.visited = s.visited + 1 → t.returned = s.returned + 1 →
          t.spent = s.spent + scene.weight a →
          {l | l ∈ t.emitted} =
            {l | l ∈ s.emitted ∨ l ∈ (scene.place dedupe ancestors a under.length).gives} →
          Sweeps budget s m (scene.place dedupe ancestors a under.length :: under)
            (some (.mk a false cut []), t) := by
        intro cut t hnil hv hr hw he
        refine ⟨⟨_, rfl, fun b => ?_⟩, ⟨?_, ?_, ?_⟩, ?_⟩
        · rw [atOpen_cons (by rfl) hasks, hnil, or_iff_left atOpen_nil]
          exact List.mem_singleton.trans eq_comm
        · dsimp only
          omega
        · dsimp only
          omega
        · dsimp only
          omega
        · rw [given_cons (by rfl) hasks, hnil, given_nil]
          exact he
      by_cases hchildren : scene.children a = []
      · rw [if_pos hchildren, hunder]
        rw [places.eq_def, if_pos (Or.inl hchildren)] at hunder
        refine hone none _ (List.cons.inj hunder).2.symm (by simp) (by simp) (by simp) ?_
        rw [State.mem_emit]
        simp [Scene.place, hchildren, State.charge, State.visit]
      rw [if_neg hchildren]
      by_cases hrepeats : scene.repeats ancestors a = true
      · rw [if_pos hrepeats, hunder]
        rw [places.eq_def, if_pos (Or.inr hrepeats)] at hunder
        refine hone _ _ (List.cons.inj hunder).2.symm (by simp) (by simp) (by simp) ?_
        simp [Scene.place, hchildren, hrepeats, State.charge, State.visit]
      rw [if_neg hrepeats]
      have hfalse : scene.repeats ancestors a = false := Bool.not_eq_true _ ▸ hrepeats
      have hemit : {l | l ∈ ((s.visit.charge (scene.weight a)).emit
            (scene.sharedLabel dedupe a)).emitted} =
          {l | l ∈ s.emitted ∨ l ∈ (scene.place dedupe ancestors a under.length).gives} := by
        rw [State.mem_emit]
        simp [Scene.place, hfalse, State.charge, State.visit]
      cases below with
      | zero =>
          rw [hunder]
          rw [places.eq_def, if_neg (not_or.2 ⟨hchildren, hrepeats⟩)] at hunder
          exact hone _ _ (List.cons.inj hunder).2.symm (by simp) (by simp) (by simp)
            (by rw [State.mark_emitted]; exact hemit)
      | succ left =>
          have hplaces := hunder
          rw [places.eq_def, if_neg (not_or.2 ⟨hchildren, hrepeats⟩)] at hplaces
          obtain rfl := (List.cons.inj hplaces).2
          have hleft : Ample budget
              ((s.visit.charge (scene.weight a)).emit (scene.sharedLabel dedupe a))
              (scene.room ((scene.children a).flatMap
                (places scene dedupe left ((scene.label a).toList ++ ancestors))) + m) := by
            refine ⟨?_, ?_, ?_⟩
            · simp only [State.emit_visited, State.charge_visited, State.visit_visited]
              omega
            · simp only [State.emit_returned, State.charge_returned, State.visit_returned]
              omega
            · simp only [State.emit_spent, State.charge_spent, State.visit_spent]
              omega
          obtain ⟨hitems, hample, hafter⟩ := walkAll_places
            (fun b => nested_places left ((scene.label a).toList ++ ancestors) b)
            (fun b t n ht => ih left (by omega) ((scene.label a).toList ++ ancestors) b ht)
            (scene.children a) hleft
          rw [hemit] at hitems hafter
          rw [hunder]
          refine ⟨⟨_, rfl, fun b => ?_⟩, hample, ?_⟩
          · rw [atOpen_cons (by rfl) hasks]
            exact List.mem_cons.trans (or_congr eq_comm (hitems b))
          · rw [given_cons (by rfl) hasks]
            exact hafter

end

end Walk

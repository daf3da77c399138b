import FigmaDevMcp.Lib.PreorderWalk
import FigmaDevMcp.Lib.SharedPlaces

set_option autoImplicit false

/-!
# Walks that nothing cuts

On a tree whose labels differ, a walk without stubs that has room for every item and is deep
enough is cut nowhere.

* `Whole`: a visit that keeps its item, leaves room and cuts nothing;
* `walk_whole`: **every visit of such a walk is one**;
* `Roomy`, `walk_roomy`: the same of a walk down to a depth, which cuts for nothing but that.
-/

namespace Walk

open PreorderWalk

variable {α ι : Type*} [DecidableEq ι] {scene : Scene α ι} {budget : Budget}

/-- What the items take of each budget, at most. -/
def Scene.demand (scene : Scene α ι) (as : List α) : ℕ := (as.map scene.cost).sum

omit [DecidableEq ι] in
theorem Scene.demand_cons (a : α) (as : List α) :
    scene.demand (a :: as) = scene.cost a + scene.demand as := by
  rw [demand, List.map_cons, List.sum_cons]
  rfl

omit [DecidableEq ι] in
theorem Scene.demand_append (as bs : List α) :
    scene.demand (as ++ bs) = scene.demand as + scene.demand bs := by
  rw [demand, List.map_append, List.sum_append]
  rfl

/-- The labels of the items differ. -/
def Scene.Apart (scene : Scene α ι) (as : List α) : Prop :=
  as.Pairwise fun a b => ∀ l ∈ scene.label a, l ∉ scene.label b

/-- None of the labels of the items is in the list. -/
def Scene.Fresh (scene : Scene α ι) (ancestors : List ι) (as : List α) : Prop :=
  ∀ a ∈ as, ∀ l ∈ scene.label a, l ∉ ancestors

/-- A visit that keeps its item, leaves room for `m`, and cuts nothing. -/
structure Whole (budget : Budget) (s : State ι) (m : ℕ) (r : Option (Kept α) × State ι) : Prop where
  kept : r.1.isSome
  ample : Ample budget r.2 m
  cut : r.2.cut = s.cut

omit [DecidableEq ι] in
/-- A row of siblings, where every visit of one is whole. -/
theorem walkAll_whole {f : α → State ι → Option (Kept α) × State ι} {under : α → List α}
    {as : List α} (hf : ∀ a ∈ as, ∀ s m, Ample budget s (scene.demand (under a) + m) →
      Whole budget s m (f a s)) {s : State ι} {m : ℕ}
    (h : Ample budget s (scene.demand (as.flatMap under) + m)) :
    Ample budget (walkAll f as s).state m ∧ (walkAll f as s).state.cut = s.cut := by
  induction as generalizing s with
  | nil => exact ⟨(Nat.zero_add m) ▸ h, rfl⟩
  | cons a rest ih =>
      rw [List.flatMap_cons, Scene.demand_append, Nat.add_assoc] at h
      have hfirst := hf a List.mem_cons_self s _ h
      obtain ⟨k, hk⟩ := Option.isSome_iff_exists.1 hfirst.kept
      have ⟨hample, hcut⟩ := ih (fun b hb => hf b (List.mem_cons_of_mem _ hb)) hfirst.ample
      rw [walkAll_cons_some hk]
      exact ⟨hample, hcut.trans hfirst.cut⟩

/-- **A walk down a tree, with room enough and deep enough, is whole.** -/
theorem walk_whole {height : α → ℕ}
    (htree : ∀ a, ∀ b ∈ scene.children a, height b < height a) {below : ℕ} {ancestors : List ι}
    {a : α} {s : State ι} {m : ℕ} (hheight : height a ≤ below)
    (hapart : scene.Apart (ahead scene.children height [a]))
    (hfresh : scene.Fresh ancestors (ahead scene.children height [a]))
    (h : Ample budget s (scene.demand (ahead scene.children height [a]) + m)) :
    Whole budget s m (walk scene budget false below ancestors a s) := by
  induction below using Nat.strongRecOn generalizing ancestors a s m with
  | ind below ih =>
      rw [ahead_cons htree, List.append_nil] at hapart hfresh h
      obtain ⟨hself, hbelow⟩ := List.forall_mem_cons.1 hfresh
      obtain ⟨hother, hrest⟩ := List.pairwise_cons.1 hapart
      obtain ⟨hvisits, hreturns, hweight⟩ := h
      rw [Scene.demand_cons, Scene.cost] at hvisits hreturns hweight
      have hstub : scene.stubbed false ancestors a s = false := by
        simp [Scene.stubbed, Scene.sharedLabel]
      have hemit : scene.sharedLabel false a = none := by simp [Scene.sharedLabel]
      have hrepeats : scene.repeats ancestors a = false := by
        unfold Scene.repeats
        cases hlabel : scene.label a with
        | none => rfl
        | some l => exact decide_eq_false (hself l hlabel)
      have hample : Ample budget (s.visit.charge (scene.weight a))
          (scene.demand (ahead scene.children height (scene.children a)) + m) := by
        refine ⟨?_, ?_, ?_⟩
        · simp only [State.charge_visited, State.visit_visited]
          omega
        · simp only [State.charge_returned, State.visit_returned]
          omega
        · simp only [State.charge_spent, State.visit_spent]
          omega
      rw [walk.eq_def, if_neg (by omega), if_neg (by omega), hstub, if_neg Bool.false_ne_true,
        if_neg (by omega), hemit, hrepeats]
      by_cases hchildren : scene.children a = []
      · rw [if_pos hchildren]
        rw [hchildren] at hample
        exact ⟨rfl, (Nat.zero_add m) ▸ hample, rfl⟩
      rw [if_neg hchildren, if_neg Bool.false_ne_true]
      cases below with
      | zero =>
          obtain ⟨b, hb⟩ := List.exists_mem_of_ne_nil _ hchildren
          have hlt := htree a b hb
          omega
      | succ left =>
          have hflat : ahead scene.children height (scene.children a) =
              (scene.children a).flatMap fun b => ahead scene.children height [b] := by
            refine List.flatMap_congr fun b _ => ?_
            rw [ahead, List.flatMap_singleton]
          rw [hflat] at hbelow hother hrest hample
          have hwhole := walkAll_whole
            (f := walk scene budget false left ((scene.label a).toList ++ ancestors))
            (fun b hb t n ht => ?_) hample
          · exact ⟨rfl, hwhole.1, hwhole.2⟩
          · have hlt := htree a b hb
            refine ih left (by omega) (by omega) ((List.pairwise_flatMap.1 hrest).1 b hb)
              (fun c hc l hl hmem => ?_) ht
            have hc' : c ∈ (scene.children a).flatMap fun b => ahead scene.children height [b] :=
              List.mem_flatMap.2 ⟨b, hb, hc⟩
            rcases List.mem_append.1 hmem with hmem | hmem
            · exact hother c hc' l (Option.mem_toList.1 hmem) hl
            · exact hbelow c hc' l hl hmem

/-! ## Down to a depth -/

/-- Every budget has room for these items. -/
structure Affords (scene : Scene α ι) (budget : Budget) (s : State ι) (as : List α) : Prop where
  visits : s.visited + as.length ≤ budget.visits
  returns : s.returned + as.length ≤ budget.returns
  weight : s.spent + (as.map scene.weight).sum ≤ budget.weight

/-- A visit that keeps its item, leaves room for what comes later, and cuts for nothing but
depth. -/
structure Roomy (scene : Scene α ι) (budget : Budget) (s : State ι) (later : List α)
    (r : Option (Kept α) × State ι) : Prop where
  kept : r.1.isSome
  affords : Affords scene budget r.2 later
  halted : ¬ s.Halted → ¬ r.2.Halted

omit [DecidableEq ι] in
theorem walkAll_roomy {f : α → State ι → Option (Kept α) × State ι} {under : α → List α}
    {as : List α} (hf : ∀ a ∈ as, ∀ s later, Affords scene budget s (under a ++ later) →
      Roomy scene budget s later (f a s)) {s : State ι} {later : List α}
    (h : Affords scene budget s (as.flatMap under ++ later)) :
    Affords scene budget (walkAll f as s).state later ∧
      (¬ s.Halted → ¬ (walkAll f as s).state.Halted) := by
  induction as generalizing s with
  | nil => exact ⟨h, fun hs => hs⟩
  | cons a rest ih =>
      rw [List.flatMap_cons, List.append_assoc] at h
      have hfirst := hf a List.mem_cons_self s _ h
      obtain ⟨k, hk⟩ := Option.isSome_iff_exists.1 hfirst.kept
      have ⟨haffords, hhalted⟩ := ih (fun b hb => hf b (List.mem_cons_of_mem _ hb)) hfirst.affords
      rw [walkAll_cons_some hk]
      exact ⟨haffords, fun hs => hhalted (hfirst.halted hs)⟩

omit [DecidableEq ι] in
/-- A mark by depth is not one by a budget. -/
theorem not_halted_mark_depth {s : State ι} (h : ¬ s.Halted) : ¬ (s.mark .depth).Halted := by
  rintro ⟨c, hc, hne⟩
  unfold State.mark at hc
  split at hc
  · exact hne (Option.some.inj hc).symm
  · rw [if_pos rfl] at hc
    exact h ⟨c, hc, hne⟩
  · exact h ⟨c, hc, hne⟩

omit [DecidableEq ι] in
theorem affords_mark {s : State ι} {as : List α} (h : Affords scene budget s as) (c : Cut) :
    Affords scene budget (s.mark c) as := by
  unfold State.mark
  split
  · exact ⟨h.visits, h.returns, h.weight⟩
  · split_ifs <;> exact ⟨h.visits, h.returns, h.weight⟩
  · exact h

omit [DecidableEq ι] in
/-- An item that is charged for leaves the others their room. -/
theorem Affords.charge {a : α} {s : State ι} {as : List α}
    (h : Affords scene budget s (a :: as)) :
    Affords scene budget (s.visit.charge (scene.weight a)) as := by
  obtain ⟨hvisits, hreturns, hweight⟩ := h
  rw [List.length_cons] at hvisits hreturns
  rw [List.map_cons, List.sum_cons] at hweight
  refine ⟨?_, ?_, ?_⟩
  · rw [State.charge_visited, State.visit_visited]
    omega
  · rw [State.charge_returned, State.visit_returned]
    omega
  · rw [State.charge_spent, State.visit_spent]
    omega

omit [DecidableEq ι] in
theorem Affords.of_append {s : State ι} {as later : List α}
    (h : Affords scene budget s (as ++ later)) : Affords scene budget s later := by
  obtain ⟨hvisits, hreturns, hweight⟩ := h
  rw [List.length_append] at hvisits hreturns
  rw [List.map_append, List.sum_append] at hweight
  exact ⟨by omega, by omega, by omega⟩

/-- The ancestors' labels are of items higher up. -/
def Scene.Above (scene : Scene α ι) (height : α → ℕ) (ancestors : List ι) (a : α) : Prop :=
  ∀ l ∈ ancestors, ∃ b, scene.label b = some l ∧ height a < height b

theorem Scene.Above.repeats {height : α → ℕ} {ancestors : List ι} {a : α}
    (h : scene.Above height ancestors a)
    (hlabel : ∀ a b l, scene.label a = some l → scene.label b = some l → height a = height b) :
    scene.repeats ancestors a = false := by
  unfold Scene.repeats
  cases hl : scene.label a with
  | none => rfl
  | some l =>
      refine decide_eq_false fun hmem => ?_
      obtain ⟨b, hb, hlt⟩ := h l hmem
      have := hlabel a b l hl hb
      omega

/-- **A walk down a tree, with room enough, is cut for nothing but its depth**, where a label is
of items of one height. -/
theorem walk_roomy {height : α → ℕ}
    (htree : ∀ a, ∀ b ∈ scene.children a, height b < height a)
    (hlabel : ∀ a b l, scene.label a = some l → scene.label b = some l → height a = height b) {below : ℕ}
    {ancestors : List ι} {a : α} {s : State ι} {later : List α}
    (habove : scene.Above height ancestors a)
    (h : Affords scene budget s (preorder scene.children below a ++ later)) :
    Roomy scene budget s later (walk scene budget false below ancestors a s) := by
  induction below using Nat.strongRecOn generalizing ancestors a s later with
  | ind below ih =>
      obtain ⟨under, hunder⟩ : ∃ under, preorder scene.children below a = a :: under := by
        cases below <;> exact ⟨_, rfl⟩
      rw [hunder, List.cons_append] at h
      have hcharge := h.charge
      obtain ⟨hvisits, hreturns, hweight⟩ := h
      rw [List.length_cons] at hvisits hreturns
      rw [List.map_cons, List.sum_cons] at hweight
      have hstub : scene.stubbed false ancestors a s = false := by
        simp [Scene.stubbed, Scene.sharedLabel]
      have hemit : scene.sharedLabel false a = none := by simp [Scene.sharedLabel]
      have hhalted : ¬ s.Halted → ¬ (s.visit.charge (scene.weight a)).Halted :=
        fun hs => (State.halted_congr rfl).not.2 hs
      rw [walk.eq_def, if_neg (by omega), if_neg (by omega), hstub, if_neg Bool.false_ne_true,
        if_neg (by omega), hemit, habove.repeats hlabel]
      by_cases hchildren : scene.children a = []
      · rw [if_pos hchildren]
        exact ⟨rfl, hcharge.of_append, hhalted⟩
      rw [if_neg hchildren, if_neg Bool.false_ne_true]
      cases below with
      | zero =>
          exact ⟨rfl, affords_mark hcharge.of_append _, fun hs => not_halted_mark_depth (hhalted hs)⟩
      | succ left =>
          rw [preorder] at hunder
          obtain rfl := (List.cons.inj hunder).2
          have hrow := walkAll_roomy
            (f := walk scene budget false left ((scene.label a).toList ++ ancestors))
            (fun b hb t later ht => ih left (by omega) ?_ ht) hcharge
          · exact ⟨rfl, hrow.1, fun hs => hrow.2 (hhalted hs)⟩
          · have hlt := htree a b hb
            intro l hl
            rcases List.mem_append.1 hl with hl | hl
            · exact ⟨a, Option.mem_toList.1 hl, hlt⟩
            · obtain ⟨c, hc, hheight⟩ := habove l hl
              exact ⟨c, hc, by omega⟩

/-- The same of a row of walks. -/
theorem walkAll_walk_roomy {height : α → ℕ}
    (htree : ∀ a, ∀ b ∈ scene.children a, height b < height a)
    (hlabel : ∀ a b l, scene.label a = some l → scene.label b = some l → height a = height b) {below : ℕ}
    {as : List α}
    (h : Affords scene budget {} (as.flatMap (preorder scene.children below))) :
    ¬ (walkAll (walk scene budget false below []) as {}).state.Halted := by
  have habove : ∀ a, scene.Above height [] a := fun _ _ hl => absurd hl List.not_mem_nil
  rw [← List.append_nil (as.flatMap _)] at h
  refine (walkAll_roomy (fun a _ s later hs => walk_roomy htree hlabel (habove a) hs) h).2 ?_
  rintro ⟨c, hc, -⟩
  cases hc

end Walk

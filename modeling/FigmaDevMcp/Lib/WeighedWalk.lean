import FigmaDevMcp.Lib.BudgetedWalk

set_option autoImplicit false

/-!
# How much a walk on a budget keeps

Without stubs, and with twice as many visits as items to keep, the budget of visits is never what
stops a walk. What it keeps is then a matter of the weights alone, up to its budget of items.

* `weigh`, `weighAll`: the number of items that the weights admit, and the weight they leave;
* `walk_weigh`: the walk keeps that number of items, or as many as its budget has;
* `walk_spent`: what a walk spends is what the kept items weigh, within the budget;
* `Kept.forallAll_item`: what children take over from their parents holds of all that is kept.
-/

namespace Walk

variable {α ι : Type*}

namespace State

@[simp] theorem mark_visited (s : State ι) (c : Cut) : (s.mark c).visited = s.visited := by
  unfold mark
  split
  · rfl
  · split_ifs <;> rfl
  · rfl

@[simp] theorem mark_spent (s : State ι) (c : Cut) : (s.mark c).spent = s.spent := by
  unfold mark
  split
  · rfl
  · split_ifs <;> rfl
  · rfl

@[simp] theorem emit_visited (s : State ι) (l : Option ι) : (s.emit l).visited = s.visited := by
  cases l <;> rfl

@[simp] theorem emit_spent (s : State ι) (l : Option ι) : (s.emit l).spent = s.spent := by
  cases l <;> rfl

@[simp] theorem visit_visited (s : State ι) : s.visit.visited = s.visited + 1 := rfl

@[simp] theorem visit_spent (s : State ι) : s.visit.spent = s.spent := rfl

@[simp] theorem charge_visited (s : State ι) (w : ℕ) : (s.charge w).visited = s.visited := rfl

@[simp] theorem charge_spent (s : State ι) (w : ℕ) : (s.charge w).spent = s.spent + w := rfl

end State

/-! ## Counting by weight -/

/-- The number of items in a row, up to the first that does not fit, and the weight after it. -/
def weighAll (f : α → ℕ → Option (ℕ × ℕ)) : List α → ℕ → ℕ × ℕ
  | [], spent => (0, spent)
  | a :: rest, spent =>
    match f a spent with
    | none => (0, spent)
    | some (count, spent) => (count + (weighAll f rest spent).1, (weighAll f rest spent).2)

/-- The number of items at and under an item, and the weight after them, where it fits at all. -/
def weigh [DecidableEq ι] (scene : Scene α ι) (weight below : ℕ) (ancestors : List ι) (a : α)
    (spent : ℕ) : Option (ℕ × ℕ) :=
  if weight < spent + scene.weight a then none
  else if scene.children a = [] ∨ scene.repeats ancestors a then some (1, spent + scene.weight a)
  else
    match below with
    | 0 => some (1, spent + scene.weight a)
    | below + 1 =>
      let row := weighAll (weigh scene weight below ((scene.label a).toList ++ ancestors))
        (scene.children a) (spent + scene.weight a)
      some (row.1 + 1, row.2)

/-- The number of items that fit. -/
def weighed (w : Option (ℕ × ℕ)) : ℕ := (w.map Prod.fst).getD 0

/-- Every refusal so far is that of a child of an item of its own. -/
def Spare (s : State ι) : Prop := s.visited ≤ 2 * s.returned

/-- What a visit does to the counters, against what the weights alone would do. -/
structure Weighed (returns : ℕ) (w : Option (ℕ × ℕ)) (s : State ι)
    (r : Option (Kept α) × State ι) : Prop where
  returned : r.2.returned = min returns (s.returned + weighed w)
  fits : s.returned + weighed w ≤ returns →
    r.1.isSome = w.isSome ∧ r.2.spent = (w.map Prod.snd).getD s.spent
  spare : r.2.visited + 2 * s.returned ≤
    s.visited + 2 * r.2.returned + if r.1.isSome then 0 else 1

theorem weighAll_cons_none {f : α → ℕ → Option (ℕ × ℕ)} {a : α} {rest : List α} {spent : ℕ}
    (h : f a spent = none) : weighAll f (a :: rest) spent = (0, spent) := by
  rw [weighAll, h]

theorem weighAll_cons_some {f : α → ℕ → Option (ℕ × ℕ)} {a : α} {rest : List α} {spent n left : ℕ}
    (h : f a spent = some (n, left)) :
    weighAll f (a :: rest) spent = (n + (weighAll f rest left).1, (weighAll f rest left).2) := by
  rw [weighAll, h]

/-- A row of siblings, where every visit of one does what the weights say. -/
theorem walkAll_weigh {returns : ℕ} {f : α → State ι → Option (Kept α) × State ι}
    {g : α → ℕ → Option (ℕ × ℕ)}
    (hf : ∀ a s, Spare s → s.returned ≤ returns → Weighed returns (g a s.spent) s (f a s))
    (as : List α) {s : State ι} (hs : Spare s) (hreturned : s.returned ≤ returns) :
    (walkAll f as s).state.returned = min returns (s.returned + (weighAll g as s.spent).1) ∧
      (s.returned + (weighAll g as s.spent).1 ≤ returns →
        (walkAll f as s).state.spent = (weighAll g as s.spent).2) ∧
      (walkAll f as s).state.visited + 2 * s.returned ≤
        s.visited + 2 * (walkAll f as s).state.returned + 1 := by
  induction as generalizing s with
  | nil =>
      refine ⟨?_, fun _ => rfl, ?_⟩
      · show s.returned = min returns (s.returned + 0)
        omega
      · show s.visited + 2 * s.returned ≤ s.visited + 2 * s.returned + 1
        omega
  | cons a rest ih =>
      have ha := hf a s hs hreturned
      cases hk : (f a s).1 with
      | none =>
          rw [walkAll_cons_none hk]
          have ⟨hcount, hfits, hspare⟩ := ha
          rw [hk] at hfits hspare
          cases hg : g a s.spent with
          | none =>
              rw [hg] at hcount hfits
              rw [weighAll_cons_none hg]
              exact ⟨hcount, fun h => (hfits h).2, by simpa using hspare⟩
          | some w =>
              obtain ⟨n, left⟩ := w
              rw [hg] at hcount hfits
              rw [weighAll_cons_some hg]
              change (f a s).2.returned = min returns (s.returned + n) at hcount
              -- the weights admit the item, so it is the count that does not
              have hover : returns < s.returned + n :=
                Nat.lt_of_not_le fun h => absurd (hfits h).1 (by simp)
              refine ⟨?_, fun h => ?_, by simpa using hspare⟩ <;> dsimp only at * <;> omega
      | some k =>
          rw [walkAll_cons_some hk]
          have ⟨hcount, hfits, hspare⟩ := ha
          rw [hk] at hfits hspare
          rw [Option.isSome_some, if_pos rfl] at hspare
          have hspareNext : Spare (f a s).2 := by
            unfold Spare at hs ⊢
            omega
          have ⟨hrest, hrestFits, hrestSpare⟩ :=
            ih hspareNext (hcount ▸ Nat.min_le_left _ _)
          cases hg : g a s.spent with
          | none =>
              rw [hg] at hfits
              exact absurd (hfits hreturned).1 (by simp)
          | some w =>
              obtain ⟨n, left⟩ := w
              rw [hg] at hcount hfits
              rw [weighAll_cons_some hg]
              change (f a s).2.returned = min returns (s.returned + n) at hcount
              dsimp only
              by_cases hover : s.returned + n ≤ returns
              · have hleft : (f a s).2.spent = left := (hfits hover).2
                rw [hleft] at hrest hrestFits
                exact ⟨by omega, fun h => hrestFits (by omega), by omega⟩
              · exact ⟨by omega, fun h => absurd h (by omega), by omega⟩

section

variable [DecidableEq ι] {scene : Scene α ι} {budget : Budget}

omit [DecidableEq ι] in
/-- An item by itself. -/
theorem weighed_one {returns spent : ℕ} {s t : State ι} {k : Kept α} (hroom : s.returned < returns)
    (hreturned : t.returned = s.returned + 1) (hspent : t.spent = spent)
    (hvisited : t.visited = s.visited + 1) : Weighed returns (some (1, spent)) s (some k, t) where
  returned := by
    show t.returned = min returns (s.returned + 1)
    omega
  fits _ := ⟨rfl, hspent⟩
  spare := by
    rw [Option.isSome_some, if_pos rfl]
    show t.visited + 2 * s.returned ≤ s.visited + 2 * t.returned + 0
    omega

omit [DecidableEq ι] in
/-- A refusal once the budget of items is spent. -/
theorem weighed_full {returns : ℕ} {w : Option (ℕ × ℕ)} {s t : State ι}
    (hpos : ∀ n left, w = some (n, left) → 0 < n) (hfull : s.returned = returns)
    (hreturned : t.returned = s.returned) (hspent : t.spent = s.spent)
    (hvisited : t.visited ≤ s.visited + 1) :
    Weighed (α := α) returns w s (none, t) where
  returned := by
    show t.returned = min returns (s.returned + weighed w)
    omega
  fits h := by
    cases w with
    | none => exact ⟨rfl, hspent⟩
    | some w =>
        have h1 := hpos w.1 w.2 rfl
        have h2 : s.returned + w.1 ≤ returns := h
        omega
  spare := by
    simp only [Option.isSome_none, Bool.false_eq_true, if_false]
    omega

theorem weigh_pos {weight below spent : ℕ} {ancestors : List ι} {a : α} (n left : ℕ)
    (h : weigh scene weight below ancestors a spent = some (n, left)) : 0 < n := by
  rw [weigh.eq_def] at h
  split_ifs at h
  · obtain ⟨rfl, -⟩ := Prod.mk.inj (Option.some.inj h)
    exact Nat.one_pos
  · cases below with
    | zero =>
        obtain ⟨rfl, -⟩ := Prod.mk.inj (Option.some.inj h)
        exact Nat.one_pos
    | succ below =>
        obtain ⟨rfl, -⟩ := Prod.mk.inj (Option.some.inj h)
        exact Nat.succ_pos _

/-- **A walk without stubs keeps as many items as the weights admit, or as its budget has.** -/
theorem walk_weigh (hvisits : 2 * budget.returns ≤ budget.visits) (below : ℕ) (ancestors : List ι)
    (a : α) {s : State ι} (hs : Spare s) (hreturned : s.returned ≤ budget.returns) :
    Weighed budget.returns (weigh scene budget.weight below ancestors a s.spent) s
      (walk scene budget false below ancestors a s) := by
  induction below using Nat.strongRecOn generalizing ancestors a s with
  | ind below ih =>
      have hstub : scene.stubbed false ancestors a s = false := by
        simp [Scene.stubbed, Scene.sharedLabel]
      have hlabel : scene.sharedLabel false a = none := by simp [Scene.sharedLabel]
      unfold Spare at hs
      have hpos : ∀ n left, weigh scene budget.weight below ancestors a s.spent = some (n, left) →
          0 < n := weigh_pos
      rw [walk.eq_def]
      simp only [hstub, hlabel, Bool.false_eq_true, if_false]
      by_cases hv : budget.visits ≤ s.visited
      · rw [if_pos hv]
        exact weighed_full hpos (by omega) (by simp) (by simp) (by simp)
      rw [if_neg hv]
      by_cases hr : budget.returns ≤ s.returned
      · rw [if_pos hr]
        exact weighed_full hpos (by omega) (by simp) (by simp) (by simp)
      rw [if_neg hr, weigh.eq_def]
      by_cases hw : budget.weight < s.spent + scene.weight a
      · rw [if_pos hw, if_pos hw]
        refine ⟨by simp [weighed, hreturned], fun _ => ⟨rfl, by simp⟩, ?_⟩
        simp only [State.mark_visited, State.mark_returned, State.visit_visited,
          State.visit_returned, Option.isSome_none, Bool.false_eq_true, if_false]
        omega
      rw [if_neg hw, if_neg hw]
      have hroom : s.returned < budget.returns := Nat.lt_of_not_le hr
      by_cases hchildren : scene.children a = []
      · rw [if_pos hchildren, if_pos (Or.inl hchildren)]
        exact weighed_one hroom (by simp) (by simp) (by simp)
      rw [if_neg hchildren]
      by_cases hrepeats : scene.repeats ancestors a = true
      · rw [if_pos hrepeats, if_pos (Or.inr hrepeats)]
        exact weighed_one hroom (by simp) (by simp) (by simp)
      rw [if_neg hrepeats, if_neg (not_or.2 ⟨hchildren, hrepeats⟩)]
      cases below with
      | zero => exact weighed_one hroom (by simp) (by simp) (by simp)
      | succ left =>
          have hspare : Spare ((s.visit.charge (scene.weight a)).emit none) := by
            show s.visited + 1 ≤ 2 * (s.returned + 1)
            omega
          obtain ⟨hcount, hfits, hkept⟩ := walkAll_weigh
            (fun b t ht (hle : t.returned ≤ budget.returns) =>
              ih left (by omega) ((scene.label a).toList ++ ancestors) b ht hle)
            (scene.children a) hspare
            (show s.returned + 1 ≤ budget.returns from hroom)
          simp only [State.emit_returned, State.charge_returned, State.visit_returned,
            State.emit_spent, State.charge_spent, State.visit_spent, State.emit_visited,
            State.charge_visited, State.visit_visited] at hcount hfits hkept
          refine ⟨?_, fun h => ⟨rfl, hfits ?_⟩, ?_⟩
          · rw [hcount]
            show _ = min budget.returns (s.returned + ((weighAll _ _ _).1 + 1))
            congr 1
            omega
          · change s.returned + ((weighAll _ _ _).1 + 1) ≤ budget.returns at h
            omega
          · rw [Option.isSome_some, if_pos rfl]
            dsimp only
            omega

/-- A whole walk keeps the items that the weights admit, up to its budget. -/
theorem keptCount_walk (hvisits : 2 * budget.returns ≤ budget.visits) (below : ℕ)
    (ancestors : List ι) (a : α) :
    keptCount (walk scene budget false below ancestors a {}).1 =
      min budget.returns (weighed (weigh scene budget.weight below ancestors a 0)) := by
  have hstart : Spare ({} : State ι) := Nat.zero_le _
  have hweigh := @walk_weigh _ _ _ scene _ hvisits below ancestors a _ hstart (Nat.zero_le _)
  have ⟨hcount, _⟩ : (walk scene budget false below ancestors a {}).2.returned = _ ∧ _ :=
    walk_returned below ancestors a {}
  have h := hweigh.returned
  rw [hcount] at h
  simpa using h

end

/-- A row of one. -/
theorem length_itemsAll_singleton (f : α → State ι → Option (Kept α) × State ι) (a : α)
    (s : State ι) :
    (Kept.itemsAll (walkAll f [a] s).kept).length = keptCount (f a s).1 := by
  cases h : (f a s).1 with
  | none => rw [walkAll_cons_none h]; rfl
  | some k =>
      rw [walkAll_cons_some h]
      show (k.items ++ []).length = k.items.length
      rw [List.append_nil]

/-! ## What a walk spends -/

mutual

/-- What an item weighs with all that is kept under it. -/
def Kept.weight (scene : Scene α ι) : Kept α → ℕ
  | .mk item stub _ children =>
    (if stub then scene.stubWeight item else scene.weight item) + Kept.weightAll scene children

/-- What all items of a forest weigh together. -/
def Kept.weightAll (scene : Scene α ι) : List (Kept α) → ℕ
  | [] => 0
  | k :: ks => k.weight scene + Kept.weightAll scene ks

end

/-- What a visit adds to the weight spent. -/
def keptWeight (scene : Scene α ι) : Option (Kept α) → ℕ
  | some k => k.weight scene
  | none => 0

theorem walkAll_spent {scene : Scene α ι} {f : α → State ι → Option (Kept α) × State ι} {n : ℕ}
    (hf : ∀ a s, (f a s).2.spent = s.spent + keptWeight scene (f a s).1 ∧
      (s.spent ≤ n → (f a s).2.spent ≤ n)) (as : List α) (s : State ι) :
    (walkAll f as s).state.spent = s.spent + Kept.weightAll scene (walkAll f as s).kept ∧
      (s.spent ≤ n → (walkAll f as s).state.spent ≤ n) := by
  induction as generalizing s with
  | nil => exact ⟨rfl, fun h => h⟩
  | cons a rest ih =>
      have ⟨hweight, hbound⟩ := hf a s
      cases h : (f a s).1 with
      | none =>
          rw [h] at hweight
          rw [walkAll_cons_none h]
          exact ⟨hweight, hbound⟩
      | some k =>
          rw [h] at hweight
          rw [walkAll_cons_some h]
          have ⟨hrest, hrestBound⟩ := ih (f a s).2
          refine ⟨?_, fun hs => hrestBound (hbound hs)⟩
          show (walkAll f rest (f a s).2).state.spent = s.spent + (k.weight scene + _)
          rw [hrest, hweight, keptWeight]
          omega

/-- **What a walk spends is what it keeps weighs**, and stays within the budget. -/
theorem walk_spent [DecidableEq ι] {scene : Scene α ι} {budget : Budget} {dedupe : Bool}
    (below : ℕ) (ancestors : List ι) (a : α) (s : State ι) :
    (walk scene budget dedupe below ancestors a s).2.spent =
        s.spent + keptWeight scene (walk scene budget dedupe below ancestors a s).1 ∧
      (s.spent ≤ budget.weight →
        (walk scene budget dedupe below ancestors a s).2.spent ≤ budget.weight) := by
  induction below using Nat.strongRecOn generalizing ancestors a s with
  | ind below ih =>
      have hrefused : ∀ (t : State ι) c, t.spent = s.spent →
          (t.mark c).spent = s.spent + keptWeight scene (none : Option (Kept α)) ∧
            (s.spent ≤ budget.weight → (t.mark c).spent ≤ budget.weight) := by
        intro t c ht
        rw [State.mark_spent, ht]
        exact ⟨rfl, fun h => h⟩
      have hone : ∀ (t : State ι) stub cut w, t.spent = s.spent + w → s.spent + w ≤ budget.weight →
          (if stub = true then scene.stubWeight a else scene.weight a) = w →
          t.spent = s.spent + keptWeight scene (some (.mk a stub cut [])) ∧
            (s.spent ≤ budget.weight → t.spent ≤ budget.weight) := by
        intro t stub cut w ht hle hw
        refine ⟨?_, fun _ => ht ▸ hle⟩
        rw [ht, ← hw]
        rfl
      rw [walk.eq_def]
      by_cases hvisits : budget.visits ≤ s.visited
      · rw [if_pos hvisits]
        exact hrefused s _ rfl
      rw [if_neg hvisits]
      by_cases hreturns : budget.returns ≤ s.returned
      · rw [if_pos hreturns]
        exact hrefused s.visit _ rfl
      rw [if_neg hreturns]
      by_cases hstub : scene.stubbed dedupe ancestors a s = true
      · rw [if_pos hstub]
        by_cases hweight : budget.weight < s.spent + scene.stubWeight a
        · rw [if_pos hweight]
          exact hrefused s.visit _ rfl
        · rw [if_neg hweight]
          exact hone _ true none _ rfl (Nat.le_of_not_lt hweight) rfl
      rw [if_neg hstub]
      by_cases hweight : budget.weight < s.spent + scene.weight a
      · rw [if_pos hweight]
        exact hrefused s.visit _ rfl
      rw [if_neg hweight]
      have hle := Nat.le_of_not_lt hweight
      by_cases hchildren : scene.children a = []
      · rw [if_pos hchildren]
        exact hone _ false none _ (by simp) hle rfl
      rw [if_neg hchildren]
      by_cases hrepeats : scene.repeats ancestors a = true
      · rw [if_pos hrepeats]
        exact hone _ false _ _ (by simp) hle rfl
      rw [if_neg hrepeats]
      cases below with
      | zero => exact hone _ false _ _ (by simp) hle rfl
      | succ left =>
          obtain ⟨hrow, hbound⟩ := walkAll_spent
            (fun b t => ih left (by omega) ((scene.label a).toList ++ ancestors) b t)
            (scene.children a)
            ((s.visit.charge (scene.weight a)).emit (scene.sharedLabel dedupe a))
          rw [State.emit_spent, State.charge_spent, State.visit_spent] at hrow hbound
          refine ⟨?_, fun _ => hbound hle⟩
          rw [hrow, Nat.add_assoc]
          rfl

/-! ## What a walk reaches -/

section

variable {R : α → Prop} {P : ℕ → Kept α → Prop} {children : α → List α}

mutual

/-- What every child of an item takes over from it holds of everything kept under it. -/
theorem Kept.forall_item (hP : ∀ level k, P level k → k.children.map Kept.item <+: children k.item)
    (hR : ∀ a, R a → ∀ b ∈ children a, R b) {level : ℕ} : ∀ {k : Kept α},
    k.Forall P level → R k.item → k.Forall (fun _ k => R k.item) level
  | .mk a _ _ _, h, hk =>
    ⟨hk, Kept.forallAll_item hP hR h.2 fun _ hj =>
      hR a hk _ ((hP _ _ h.1).subset (List.mem_map_of_mem hj))⟩

theorem Kept.forallAll_item (hP : ∀ level k, P level k → k.children.map Kept.item <+: children k.item)
    (hR : ∀ a, R a → ∀ b ∈ children a, R b) {level : ℕ} : ∀ {ks : List (Kept α)},
    Kept.ForallAll P level ks → (∀ k ∈ ks, R k.item) →
      Kept.ForallAll (fun _ k => R k.item) level ks
  | [], _, _ => trivial
  | k :: _, h, hks =>
    ⟨Kept.forall_item hP hR h.1 (hks k List.mem_cons_self),
      Kept.forallAll_item hP hR h.2 fun j hj => hks j (List.mem_cons_of_mem _ hj)⟩

end

end

end Walk

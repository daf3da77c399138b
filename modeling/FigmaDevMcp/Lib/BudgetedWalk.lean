import Mathlib.Algebra.Ring.Nat
import Mathlib.Data.List.Basic
import Mathlib.Data.List.Forall2
import Mathlib.Tactic.Common

set_option autoImplicit false

/-!
# Walking a graph on a budget

A depth-first walk over a graph whose items have labels and weights. It spends one budget on
visits, one on kept items and one on weight, stops below a given depth and where a label comes
back among its ancestors, and may keep a stub for a shared item that has been kept before. A
refused item stops its siblings, not the items after its parent.

* `walk`, `walkAll`: the walk, by recursion on the levels left;
* `walk_outcome`: everything one visit can do, in six cases;
* `walk_forall`: what holds of every way to keep an item holds of every kept item;
* `walk_returned`: the counter counts the kept items, within the budget;
* `walk_unfold`: where no budget cuts, everything down to the depth is kept.
-/

namespace Walk

/-- What a walk sees of a graph. -/
structure Scene (α ι : Type*) where
  children : α → List α
  label : α → Option ι
  shared : α → Bool
  weight : α → ℕ
  stubWeight : α → ℕ

/-- How many visits, returned items and bytes a walk may have. -/
structure Budget where
  visits : ℕ
  returns : ℕ
  weight : ℕ

/-- Why a walk did not go on. -/
inductive Cut
  | depth
  | count (visited : ℕ)
  | weight (spent : ℕ)
deriving DecidableEq

/-- An item that was kept, with what was kept below it, and why not more. -/
inductive Kept (α : Type*)
  | mk (item : α) (stub : Bool) (cut : Option Cut) (children : List (Kept α))

/-- What a walk has done so far. -/
structure State (ι : Type*) where
  visited : ℕ := 0
  returned : ℕ := 0
  spent : ℕ := 0
  emitted : List ι := []
  cut : Option Cut := none

namespace Kept

variable {α : Type*}

/-- The item of a kept tree. -/
def item : Kept α → α
  | mk item _ _ _ => item

/-- The tree is a reference to an item that was emitted before. -/
def stub : Kept α → Bool
  | mk _ stub _ _ => stub

/-- Where the children of an item end early. -/
def cut : Kept α → Option Cut
  | mk _ _ cut _ => cut

/-- The kept children of an item. -/
def children : Kept α → List (Kept α)
  | mk _ _ _ children => children

mutual

/-- The kept items, in preorder. -/
def items : Kept α → List α
  | mk item _ _ children => item :: itemsAll children

/-- The items of a forest, in preorder. -/
def itemsAll : List (Kept α) → List α
  | [] => []
  | k :: ks => k.items ++ itemsAll ks

end

mutual

/-- `P` holds of an item kept at a level, and of everything kept below it. -/
def Forall (P : ℕ → Kept α → Prop) (level : ℕ) : Kept α → Prop
  | mk item stub cut children => P level (mk item stub cut children) ∧ ForallAll P (level + 1) children

/-- A property of all items of a forest, with their levels. -/
def ForallAll (P : ℕ → Kept α → Prop) (level : ℕ) : List (Kept α) → Prop
  | [] => True
  | k :: ks => k.Forall P level ∧ ForallAll P level ks

end

theorem forallAll_iff {P : ℕ → Kept α → Prop} {level : ℕ} {ks : List (Kept α)} :
    ForallAll P level ks ↔ ∀ k ∈ ks, k.Forall P level := by
  induction ks with
  | nil => exact ⟨fun _ => nofun, fun _ => trivial⟩
  | cons k ks ih => rw [List.forall_mem_cons, ← ih]; rfl

mutual

theorem Forall.congr {P Q R : ℕ → Kept α → Prop} (h : ∀ level k, R level k → (P level k ↔ Q level k))
    (level : ℕ) : ∀ k : Kept α, k.Forall R level → (k.Forall P level ↔ k.Forall Q level)
  | mk item stub cut children, hR => by
    rw [Forall] at hR
    rw [Forall, Forall, h level _ hR.1, ForallAll.congr h (level + 1) children hR.2]

theorem ForallAll.congr {P Q R : ℕ → Kept α → Prop}
    (h : ∀ level k, R level k → (P level k ↔ Q level k)) (level : ℕ) :
    ∀ ks : List (Kept α), ForallAll R level ks → (ForallAll P level ks ↔ ForallAll Q level ks)
  | [], _ => Iff.rfl
  | k :: ks, hR => by
    rw [ForallAll] at hR
    rw [ForallAll, ForallAll, Forall.congr h level k hR.1, ForallAll.congr h level ks hR.2]

end

mutual

instance decidableForall {P : ℕ → Kept α → Prop} [∀ level k, Decidable (P level k)] (level : ℕ) :
    ∀ k : Kept α, Decidable (k.Forall P level)
  | mk item stub cut children =>
    have := decidableForallAll (P := P) (level + 1) children
    inferInstanceAs (Decidable (P level (mk item stub cut children) ∧
      ForallAll P (level + 1) children))

instance decidableForallAll {P : ℕ → Kept α → Prop} [∀ level k, Decidable (P level k)] (level : ℕ) :
    ∀ ks : List (Kept α), Decidable (ForallAll P level ks)
  | [] => inferInstanceAs (Decidable True)
  | k :: ks =>
    have := decidableForall (P := P) level k
    have := decidableForallAll (P := P) level ks
    inferInstanceAs (Decidable (k.Forall P level ∧ ForallAll P level ks))

end

end Kept

namespace State

variable {ι : Type*}

/-- The first cut is remembered, except that one by depth gives way to any other. -/
def mark (s : State ι) (c : Cut) : State ι :=
  match s.cut with
  | none => { s with cut := some c }
  | some .depth => if c = .depth then s else { s with cut := some c }
  | some _ => s

/-- One more item is visited. -/
def visit (s : State ι) : State ι := { s with visited := s.visited + 1 }

/-- One more item is returned, with its weight. -/
def charge (s : State ι) (w : ℕ) : State ι :=
  { s with spent := s.spent + w, returned := s.returned + 1 }

/-- The label of an item is remembered, if it has one. -/
def emit (s : State ι) (label : Option ι) : State ι :=
  match label with
  | some l => { s with emitted := l :: s.emitted }
  | none => s

/-- Some budget has cut the walk. -/
def Halted (s : State ι) : Prop := ∃ c, s.cut = some c ∧ c ≠ .depth

@[simp] theorem visit_cut (s : State ι) : s.visit.cut = s.cut := rfl

@[simp] theorem visit_returned (s : State ι) : s.visit.returned = s.returned := rfl

@[simp] theorem charge_cut (s : State ι) (w : ℕ) : (s.charge w).cut = s.cut := rfl

@[simp] theorem charge_returned (s : State ι) (w : ℕ) : (s.charge w).returned = s.returned + 1 := rfl

@[simp] theorem emit_cut (s : State ι) (l : Option ι) : (s.emit l).cut = s.cut := by
  cases l <;> rfl

@[simp] theorem emit_returned (s : State ι) (l : Option ι) : (s.emit l).returned = s.returned := by
  cases l <;> rfl

@[simp] theorem mark_returned (s : State ι) (c : Cut) : (s.mark c).returned = s.returned := by
  unfold mark
  split
  · rfl
  · split_ifs <;> rfl
  · rfl

theorem mark_cut_ne_none (s : State ι) (c : Cut) : (s.mark c).cut ≠ none := by
  unfold mark
  split
  · exact Option.some_ne_none c
  · split_ifs <;> simp_all
  · simp_all

theorem halted_mark {s : State ι} {c : Cut} (hc : c ≠ .depth) : (s.mark c).Halted := by
  unfold mark
  split
  · exact ⟨c, rfl, hc⟩
  · rw [if_neg hc]
    exact ⟨c, rfl, hc⟩
  · next d hd hs => exact ⟨d, hs, hd⟩

/-- A mark by depth is no news once a budget has cut. -/
theorem mark_of_halted {s : State ι} (h : s.Halted) (c : Cut) : s.mark c = s := by
  obtain ⟨d, hd, hne⟩ := h
  unfold mark
  split
  · next hs => rw [hs] at hd; cases hd
  · next hs => exact absurd (Option.some.inj (hd.symm.trans hs)) hne
  · rfl

theorem Halted.mark {s : State ι} (h : s.Halted) (c : Cut) : (s.mark c).Halted :=
  (mark_of_halted h c).symm ▸ h

theorem Halted.cut_ne_none {s : State ι} (h : s.Halted) : s.cut ≠ none := by
  obtain ⟨c, hc, -⟩ := h
  rw [hc]
  exact Option.some_ne_none c

theorem halted_congr {s t : State ι} (h : t.cut = s.cut) : t.Halted ↔ s.Halted := by
  unfold Halted
  rw [h]

end State

/-- What is left of a row of siblings. -/
structure Row (α ι : Type*) where
  kept : List (Kept α)
  stopped : Bool
  state : State ι

variable {α ι : Type*}

/-- A row of siblings, up to the first that is refused. -/
def walkAll (f : α → State ι → Option (Kept α) × State ι) : List α → State ι → Row α ι
  | [], s => ⟨[], false, s⟩
  | a :: rest, s =>
    match f a s with
    | (none, t) => ⟨[], true, t⟩
    | (some k, t) =>
      let row := walkAll f rest t
      ⟨k :: row.kept, row.stopped, row.state⟩

section

variable [DecidableEq ι] (scene : Scene α ι) (budget : Budget) (dedupe : Bool)

/-- The label of an item that counts as emitted once it is kept. -/
def Scene.sharedLabel (a : α) : Option ι :=
  if dedupe && scene.shared a then scene.label a else none

/-- The label of an item is among those of its ancestors. -/
def Scene.repeats (ancestors : List ι) (a : α) : Bool :=
  match scene.label a with
  | some l => l ∈ ancestors
  | none => false

/-- The item has been emitted before, and is not its own ancestor. -/
def Scene.stubbed (ancestors : List ι) (a : α) (s : State ι) : Bool :=
  match scene.sharedLabel dedupe a with
  | some l => decide (l ∈ s.emitted) && !scene.repeats ancestors a
  | none => false

/-- A visit with `below` levels left under the item. -/
def walk (below : ℕ) (ancestors : List ι) (a : α) (s : State ι) : Option (Kept α) × State ι :=
  if budget.visits ≤ s.visited then (none, s.mark (.count s.visited))
  else if budget.returns ≤ s.returned then (none, s.visit.mark (.count s.visit.visited))
  else if scene.stubbed dedupe ancestors a s then
    if budget.weight < s.spent + scene.stubWeight a then
      (none, s.visit.mark (.weight (s.spent + scene.stubWeight a)))
    else (some (.mk a true none []), s.visit.charge (scene.stubWeight a))
  else if budget.weight < s.spent + scene.weight a then
    (none, s.visit.mark (.weight (s.spent + scene.weight a)))
  else
    let t := s.visit.charge (scene.weight a)
    if scene.children a = [] then
      (some (.mk a false none []), t.emit (scene.sharedLabel dedupe a))
    else if scene.repeats ancestors a then
      (some (.mk a false (some (.count t.visited)) []), t.mark (.count t.visited))
    else
      let t := t.emit (scene.sharedLabel dedupe a)
      match below with
      | 0 => (some (.mk a false (some .depth) []), t.mark .depth)
      | below + 1 =>
        let row := walkAll (walk below ((scene.label a).toList ++ ancestors)) (scene.children a) t
        (some (.mk a false (if row.stopped then row.state.cut else none) row.kept), row.state)

/-- What one visit can do. -/
inductive Outcome (below : ℕ) (ancestors : List ι) (a : α) (s : State ι) :
    Option (Kept α) × State ι → Prop
  /-- A budget is spent. -/
  | refused (t : State ι) (c : Cut) (hcut : t.cut = s.cut) (hreturned : t.returned = s.returned)
      (hc : c ≠ .depth) : Outcome below ancestors a s (none, t.mark c)
  | stubbed (hreturns : s.returned < budget.returns)
      (hstub : scene.stubbed dedupe ancestors a s = true) :
      Outcome below ancestors a s (some (.mk a true none []), s.visit.charge (scene.stubWeight a))
  | leaf (hreturns : s.returned < budget.returns) (hchildren : scene.children a = []) :
      Outcome below ancestors a s (some (.mk a false none []),
        (s.visit.charge (scene.weight a)).emit (scene.sharedLabel dedupe a))
  | repeated (hreturns : s.returned < budget.returns) (hrepeats : scene.repeats ancestors a = true)
      (c : Cut) (hc : c ≠ .depth) :
      Outcome below ancestors a s (some (.mk a false (some c) []),
        (s.visit.charge (scene.weight a)).mark c)
  | deep (hreturns : s.returned < budget.returns) (hbelow : below = 0)
      (hchildren : scene.children a ≠ []) :
      Outcome below ancestors a s (some (.mk a false (some .depth) []),
        ((s.visit.charge (scene.weight a)).emit (scene.sharedLabel dedupe a)).mark .depth)
  | inner (hreturns : s.returned < budget.returns) (left : ℕ) (hbelow : below = left + 1)
      (hchildren : scene.children a ≠ []) (row : Row α ι)
      (hrow : row = walkAll (walk scene budget dedupe left ((scene.label a).toList ++ ancestors))
        (scene.children a)
        ((s.visit.charge (scene.weight a)).emit (scene.sharedLabel dedupe a))) :
      Outcome below ancestors a s
        (some (.mk a false (if row.stopped then row.state.cut else none) row.kept), row.state)

theorem walk_outcome (below : ℕ) (ancestors : List ι) (a : α) (s : State ι) :
    Outcome scene budget dedupe below ancestors a s
      (walk scene budget dedupe below ancestors a s) := by
  rw [walk.eq_def]
  split_ifs with hvisits hreturns hstub hweight hweight hchildren hrepeats
  · exact .refused s _ rfl rfl nofun
  · exact .refused s.visit _ rfl rfl nofun
  · exact .refused s.visit _ rfl rfl nofun
  · exact .stubbed (Nat.lt_of_not_le hreturns) hstub
  · exact .refused s.visit _ rfl rfl nofun
  · exact .leaf (Nat.lt_of_not_le hreturns) hchildren
  · exact .repeated (Nat.lt_of_not_le hreturns) hrepeats _ nofun
  · cases below with
    | zero => exact .deep (Nat.lt_of_not_le hreturns) rfl hchildren
    | succ left => exact .inner (Nat.lt_of_not_le hreturns) left rfl hchildren _ rfl

theorem dedupe_of_stubbed {ancestors : List ι} {a : α} {s : State ι}
    (h : scene.stubbed dedupe ancestors a s = true) : dedupe = true := by
  cases dedupe with
  | true => rfl
  | false => simp [Scene.stubbed, Scene.sharedLabel] at h

end

/-! ## Rows -/

section Row

variable {f : α → State ι → Option (Kept α) × State ι}

theorem walkAll_cons_none {a : α} {rest : List α} {s : State ι} (h : (f a s).1 = none) :
    walkAll f (a :: rest) s = ⟨[], true, (f a s).2⟩ := by
  rw [walkAll]
  split
  · next t ht => rw [ht]
  · next k t ht => rw [ht] at h; cases h

theorem walkAll_cons_some {a : α} {rest : List α} {s : State ι} {k : Kept α}
    (h : (f a s).1 = some k) :
    walkAll f (a :: rest) s =
      ⟨k :: (walkAll f rest (f a s).2).kept, (walkAll f rest (f a s).2).stopped,
        (walkAll f rest (f a s).2).state⟩ := by
  rw [walkAll]
  split
  · next t ht => rw [ht] at h; cases h
  · next j t ht => rw [ht] at h ⊢; rw [← Option.some.inj h]

/-- What every visit keeps, a row keeps. -/
theorem walkAll_keeps {I : State ι → Prop} (hf : ∀ a s, I s → I (f a s).2) (as : List α)
    {s : State ι} (hs : I s) : I (walkAll f as s).state := by
  induction as generalizing s with
  | nil => exact hs
  | cons a rest ih =>
      cases h : (f a s).1 with
      | none => rw [walkAll_cons_none h]; exact hf a s hs
      | some k => rw [walkAll_cons_some h]; exact ih (hf a s hs)

/-- The kept items of a row are its first ones, and all of them unless it stopped. -/
theorem walkAll_prefix (hf : ∀ a s k, (f a s).1 = some k → k.item = a) (as : List α) (s : State ι) :
    (walkAll f as s).kept.map Kept.item <+: as ∧
      ((walkAll f as s).stopped = false → (walkAll f as s).kept.map Kept.item = as) := by
  induction as generalizing s with
  | nil => exact ⟨List.prefix_rfl, fun _ => rfl⟩
  | cons a rest ih =>
      cases h : (f a s).1 with
      | none =>
          rw [walkAll_cons_none h]
          exact ⟨List.nil_prefix, nofun⟩
      | some k =>
          rw [walkAll_cons_some h]
          simp only [List.map_cons, hf a s k h]
          exact ⟨List.cons_prefix_cons.2 ⟨rfl, (ih _).1⟩, fun hs => congrArg _ ((ih _).2 hs)⟩

theorem walkAll_stopped (hf : ∀ a s, (f a s).1 = none → (f a s).2.Halted) {l : List α}
    {s : State ι} (h : (walkAll f l s).stopped = true) : (walkAll f l s).state.Halted := by
  induction l generalizing s with
  | nil => cases h
  | cons a rest ih =>
      cases hk : (f a s).1 with
      | none => rw [walkAll_cons_none hk]; exact hf a s hk
      | some k => rw [walkAll_cons_some hk] at h ⊢; exact ih h

theorem walkAll_forall {P : ℕ → Kept α → Prop} {level : ℕ}
    (hf : ∀ a s k, (f a s).1 = some k → k.Forall P level) (as : List α) (s : State ι) :
    Kept.ForallAll P level (walkAll f as s).kept := by
  induction as generalizing s with
  | nil => trivial
  | cons a rest ih =>
      cases h : (f a s).1 with
      | none => rw [walkAll_cons_none h]; trivial
      | some k => rw [walkAll_cons_some h]; exact ⟨hf a s k h, ih _⟩

/-- How many items a visit has kept. -/
def keptCount : Option (Kept α) → ℕ
  | some k => k.items.length
  | none => 0

theorem walkAll_returned {f : α → State ι → Option (Kept α) × State ι} {n : ℕ}
    (hf : ∀ a s, (f a s).2.returned = s.returned + keptCount (f a s).1 ∧
      (s.returned ≤ n → (f a s).2.returned ≤ n)) (as : List α) (s : State ι) :
    (walkAll f as s).state.returned =
        s.returned + (Kept.itemsAll (walkAll f as s).kept).length ∧
      (s.returned ≤ n → (walkAll f as s).state.returned ≤ n) := by
  induction as generalizing s with
  | nil => exact ⟨rfl, fun h => h⟩
  | cons a rest ih =>
      have ⟨hcount, hbound⟩ := hf a s
      cases h : (f a s).1 with
      | none =>
          rw [h] at hcount
          rw [walkAll_cons_none h]
          exact ⟨hcount, hbound⟩
      | some k =>
          rw [h] at hcount
          rw [walkAll_cons_some h]
          have ⟨hrest, hrestBound⟩ := ih (f a s).2
          refine ⟨?_, fun hs => hrestBound (hbound hs)⟩
          show (walkAll f rest (f a s).2).state.returned = s.returned + (k.items ++ _).length
          rw [hrest, hcount, List.length_append, keptCount]
          omega

theorem walkAll_unfold {f : α → State ι → Option (Kept α) × State ι} {g : α → Kept α}
    (hf : ∀ a s, ¬ (f a s).2.Halted → (f a s).1 = some (g a))
    (hkeep : ∀ a s, s.Halted → (f a s).2.Halted) {as : List α} {s : State ι}
    (h : ¬ (walkAll f as s).state.Halted) :
    (walkAll f as s).stopped = false ∧ (walkAll f as s).kept = as.map g := by
  induction as generalizing s with
  | nil => exact ⟨rfl, rfl⟩
  | cons a rest ih =>
      cases hk : (f a s).1 with
      | none =>
          rw [walkAll_cons_none hk] at h
          rw [hf a s h] at hk
          cases hk
      | some k =>
          rw [walkAll_cons_some hk] at h ⊢
          have hhere : ¬ (f a s).2.Halted := fun hs => h (walkAll_keeps hkeep rest hs)
          obtain rfl : g a = k := Option.some.inj ((hf a s hhere).symm.trans hk)
          exact ⟨(ih h).1, congrArg _ (ih h).2⟩

/-- Where a row ends with no cut, no visit of it has cut. -/
theorem walkAll_cut {f : α → State ι → Option (Kept α) × State ι}
    (hkeep : ∀ a s, s.cut ≠ none → (f a s).2.cut ≠ none)
    (hf : ∀ a s, (f a s).1 = none → (f a s).2.Halted) {as : List α} {s : State ι}
    (h : (walkAll f as s).state.cut = none) : ∀ a ∈ as, ∃ t, (f a t).2.cut = none := by
  induction as generalizing s with
  | nil => nofun
  | cons a rest ih =>
      cases hk : (f a s).1 with
      | none =>
          rw [walkAll_cons_none hk] at h
          exact absurd h (hf a s hk).cut_ne_none
      | some k =>
          rw [walkAll_cons_some hk] at h
          intro b hb
          rcases List.mem_cons.mp hb with rfl | hb
          · exact ⟨s, by_contra fun hne => walkAll_keeps hkeep rest hne h⟩
          · exact ih h b hb

end Row

/-! ## The rules of a walk -/

section

variable [DecidableEq ι] {scene : Scene α ι} {budget : Budget} {dedupe : Bool}

theorem walk_item {below : ℕ} {ancestors : List ι} {a : α} {s : State ι} {k : Kept α}
    (h : (walk scene budget dedupe below ancestors a s).1 = some k) : k.item = a := by
  have hout := walk_outcome scene budget dedupe below ancestors a s
  generalize walk scene budget dedupe below ancestors a s = r at h hout
  cases hout with
  | refused => cases h
  | stubbed | leaf | repeated | deep | inner => rw [← Option.some.inj h]; rfl

theorem walk_refused {below : ℕ} {ancestors : List ι} {a : α} {s : State ι}
    (h : (walk scene budget dedupe below ancestors a s).1 = none) :
    (walk scene budget dedupe below ancestors a s).2.Halted := by
  have hout := walk_outcome scene budget dedupe below ancestors a s
  generalize walk scene budget dedupe below ancestors a s = r at h hout
  cases hout with
  | refused t c _ _ hc => exact State.halted_mark hc
  | stubbed | leaf | repeated | deep | inner => cases h

/-- **State rule.** What depends on the cut alone and every mark keeps, a walk keeps. -/
theorem walk_keeps {I : State ι → Prop} (hmark : ∀ s c, I s → I (s.mark c))
    (hcut : ∀ s t, t.cut = s.cut → I s → I t) (below : ℕ) (ancestors : List ι) (a : α)
    {s : State ι} (hs : I s) : I (walk scene budget dedupe below ancestors a s).2 := by
  induction below using Nat.strongRecOn generalizing ancestors a s with
  | ind below ih =>
      have hout := walk_outcome scene budget dedupe below ancestors a s
      generalize walk scene budget dedupe below ancestors a s = r at hout
      cases hout with
      | refused t c ht _ _ => exact hmark _ _ (hcut _ _ ht hs)
      | stubbed | leaf => exact hcut s _ (by simp) hs
      | repeated | deep => exact hmark _ _ (hcut s _ (by simp) hs)
      | inner _ left hbelow _ row hrow =>
          rw [hrow]
          exact walkAll_keeps (fun b t ht => ih left (by omega) _ b ht) _ (hcut s _ (by simp) hs)

theorem walk_halted (below : ℕ) (ancestors : List ι) (a : α) {s : State ι} (hs : s.Halted) :
    (walk scene budget dedupe below ancestors a s).2.Halted :=
  walk_keeps (fun _ c h => h.mark c) (fun _ _ h => (State.halted_congr h).2) below ancestors a hs

theorem walk_cut_ne_none (below : ℕ) (ancestors : List ι) (a : α) {s : State ι}
    (hs : s.cut ≠ none) : (walk scene budget dedupe below ancestors a s).2.cut ≠ none :=
  walk_keeps (I := fun s => s.cut ≠ none) (fun s c _ => State.mark_cut_ne_none s c)
    (fun _ _ h hs => h ▸ hs) below ancestors a hs

/-- **Kept-item rule.** What holds of every way to keep an item holds of every kept item. -/
theorem walk_forall {P : ℕ → Kept α → Prop} {depth : ℕ}
    (hstub : ∀ level a, level ≤ depth → dedupe = true → P level (.mk a true none []))
    (hleaf : ∀ level a, level ≤ depth → scene.children a = [] → P level (.mk a false none []))
    (hrepeated : ∀ level a c, level ≤ depth → c ≠ .depth → P level (.mk a false (some c) []))
    (hdeep : ∀ a, P depth (.mk a false (some .depth) []))
    (hinner : ∀ level a c kept, level < depth → c ≠ some .depth →
      kept.map Kept.item <+: scene.children a →
      (c = none → kept.map Kept.item = scene.children a) → P level (.mk a false c kept))
    {below level : ℕ} (hlevel : level + below = depth) {ancestors : List ι} {a : α} {s : State ι}
    {k : Kept α} (h : (walk scene budget dedupe below ancestors a s).1 = some k) :
    k.Forall P level := by
  induction below using Nat.strongRecOn generalizing level ancestors a s k with
  | ind below ih =>
      have hout := walk_outcome scene budget dedupe below ancestors a s
      generalize walk scene budget dedupe below ancestors a s = r at h hout
      cases hout with
      | refused => cases h
      | stubbed _ hs =>
          rw [← Option.some.inj h]
          exact ⟨hstub _ _ (by omega) (dedupe_of_stubbed _ _ hs), trivial⟩
      | leaf _ hchildren =>
          rw [← Option.some.inj h]
          exact ⟨hleaf _ _ (by omega) hchildren, trivial⟩
      | repeated _ _ c hc =>
          rw [← Option.some.inj h]
          exact ⟨hrepeated _ _ c (by omega) hc, trivial⟩
      | deep _ hbelow =>
          obtain rfl : level = depth := by omega
          rw [← Option.some.inj h]
          exact ⟨hdeep _, trivial⟩
      | inner _ left hbelow _ row hrow =>
          rw [← Option.some.inj h, hrow]
          have hpre := walkAll_prefix
            (f := walk scene budget dedupe left ((scene.label a).toList ++ ancestors))
            (fun _ _ _ hk => walk_item hk) (scene.children a)
            ((s.visit.charge (scene.weight a)).emit (scene.sharedLabel dedupe a))
          refine ⟨hinner _ _ _ _ (by omega) ?_ hpre.1 fun hnone => hpre.2 ?_, ?_⟩
          · split_ifs with hstopped
            · obtain ⟨c, hc, hne⟩ := walkAll_stopped (fun _ _ hk => walk_refused hk) hstopped
              rw [hc]
              exact fun hd => hne (Option.some.inj hd)
            · exact nofun
          · by_contra hstopped
            rw [Bool.not_eq_false] at hstopped
            rw [if_pos hstopped] at hnone
            exact (walkAll_stopped (fun _ _ hk => walk_refused hk) hstopped).cut_ne_none hnone
          · exact walkAll_forall (fun b t k hk => ih left (by omega) (by omega) hk) _ _

/-! ## Counting -/

/-- The counter counts the kept items, and stays within the budget. -/
theorem walk_returned (below : ℕ) (ancestors : List ι) (a : α) (s : State ι) :
    (walk scene budget dedupe below ancestors a s).2.returned =
        s.returned + keptCount (walk scene budget dedupe below ancestors a s).1 ∧
      (s.returned ≤ budget.returns →
        (walk scene budget dedupe below ancestors a s).2.returned ≤ budget.returns) := by
  induction below using Nat.strongRecOn generalizing ancestors a s with
  | ind below ih =>
      have hout := walk_outcome scene budget dedupe below ancestors a s
      generalize walk scene budget dedupe below ancestors a s = r at hout
      cases hout with
      | refused t c _ hreturned _ =>
          rw [State.mark_returned, hreturned]
          exact ⟨rfl, fun h => h⟩
      | stubbed hreturns | leaf hreturns | repeated hreturns | deep hreturns =>
          simp only [State.mark_returned, State.emit_returned, State.charge_returned,
            State.visit_returned]
          exact ⟨rfl, fun _ => hreturns⟩
      | inner hreturns left hbelow _ row hrow =>
          have ⟨hcount, hbound⟩ := walkAll_returned (n := budget.returns)
            (fun b t => ih left (by omega) ((scene.label a).toList ++ ancestors) b t)
            (scene.children a)
            ((s.visit.charge (scene.weight a)).emit (scene.sharedLabel dedupe a))
          rw [← hrow, State.emit_returned, State.charge_returned, State.visit_returned] at hcount hbound
          refine ⟨?_, fun _ => hbound hreturns⟩
          show row.state.returned = s.returned + ((Kept.itemsAll row.kept).length + 1)
          omega

/-! ## Walks that no budget cuts -/

variable (scene) in
/-- Everything down to a depth, cycles and all. -/
def unfold : ℕ → α → Kept α
  | 0, a => .mk a false (if scene.children a = [] then none else some .depth) []
  | below + 1, a => .mk a false none ((scene.children a).map (unfold below))

/-- A walk that no budget has cut has kept everything down to its depth. -/
theorem walk_unfold {below : ℕ} {ancestors : List ι} {a : α} {s : State ι}
    (h : ¬ (walk scene budget false below ancestors a s).2.Halted) :
    (walk scene budget false below ancestors a s).1 = some (unfold scene below a) := by
  induction below using Nat.strongRecOn generalizing ancestors a s with
  | ind below ih =>
      have hout := walk_outcome scene budget false below ancestors a s
      generalize walk scene budget false below ancestors a s = r at h hout
      cases hout with
      | refused t c _ _ hc => exact absurd (State.halted_mark hc) h
      | stubbed _ hs => exact absurd (dedupe_of_stubbed _ _ hs) nofun
      | leaf _ hchildren =>
          cases below with
          | zero => rw [unfold, if_pos hchildren]
          | succ left => rw [unfold, hchildren, List.map_nil]
      | repeated _ _ c hc => exact absurd (State.halted_mark hc) h
      | deep _ hbelow hchildren => rw [hbelow, unfold, if_neg hchildren]
      | inner _ left hbelow _ row hrow =>
          have hrun : ¬ row.state.Halted := h
          rw [hrow] at hrun
          have ⟨hstopped, hkept⟩ := walkAll_unfold
            (f := walk scene budget false left ((scene.label a).toList ++ ancestors))
            (fun b t ht => ih left (by omega) ht) (fun b t ht => walk_halted _ _ b ht) hrun
          rw [← hrow] at hstopped hkept
          rw [hbelow, unfold, hstopped, hkept]
          rfl

/-- A walk that nothing has cut has cut no item. -/
theorem walk_uncut {below level : ℕ} {ancestors : List ι} {a : α} {s : State ι}
    (h : (walk scene budget false below ancestors a s).2.cut = none) :
    (unfold scene below a).Forall (fun _ k => k.stub = false ∧ k.cut = none) level := by
  induction below using Nat.strongRecOn generalizing level ancestors a s with
  | ind below ih =>
      have hout := walk_outcome scene budget false below ancestors a s
      generalize walk scene budget false below ancestors a s = r at h hout
      cases hout with
      | refused t c => exact absurd h (State.mark_cut_ne_none t c)
      | stubbed _ hs => exact absurd (dedupe_of_stubbed _ _ hs) nofun
      | leaf _ hchildren =>
          cases below with
          | zero =>
              rw [unfold, if_pos hchildren]
              exact ⟨⟨rfl, rfl⟩, trivial⟩
          | succ left =>
              rw [unfold, hchildren]
              exact ⟨⟨rfl, rfl⟩, trivial⟩
      | repeated _ _ c => exact absurd h (State.mark_cut_ne_none _ c)
      | deep => exact absurd h (State.mark_cut_ne_none _ _)
      | inner _ left hbelow _ row hrow =>
          have hnone : row.state.cut = none := h
          rw [hrow] at hnone
          rw [hbelow, unfold]
          refine ⟨⟨rfl, rfl⟩, Kept.forallAll_iff.2 fun k hk => ?_⟩
          obtain ⟨b, hb, rfl⟩ := List.mem_map.mp hk
          obtain ⟨t, ht⟩ := walkAll_cut
            (f := walk scene budget false left ((scene.label a).toList ++ ancestors))
            (fun b t ht => walk_cut_ne_none _ _ b ht) (fun b t hk => walk_refused hk) hnone b hb
          exact ih left (by omega) ht

end

end Walk

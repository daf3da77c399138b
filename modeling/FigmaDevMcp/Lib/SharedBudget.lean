import FigmaDevMcp.Lib.Guard
import Mathlib.Algebra.Ring.Nat
import Mathlib.Data.List.Forall2

set_option autoImplicit false

/-!
# Walks that share a budget

A walk over trees pays one unit for each node, out of a budget that all of them share, and it does
not go below a level. The budget is a state that every step hands on.

* `Rose`, `Rose.levels`, `Rose.count`: trees, with how many levels and nodes they have;
* `Unfolds`, `Unfolds.unique`: the tree of a value, of which there is one;
* `Budget`, `Budget.down`, `Budget.up`: what can be spent; a counter that goes down to zero or up to
  a limit;
* `Spends`: a step that gives its result for a price, or fails;
* `Spends.bind`, `Spends.mapM`, `Spends.forM`, `Spends.upTo`: **the prices add up**, over a sequence
  and over the loops;
* `Spends.batch`, `Spends.forest`: a loop that builds trees pays for their nodes.
-/

namespace SharedBudget

/-! ## Trees -/

/-- A tree whose nodes have any number of children. -/
inductive Rose (ι : Type)
  | node (own : ι) (children : List (Rose ι))

namespace Rose

variable {ι κ : Type}

mutual

/-- The nodes of a longest way down. -/
def levels : Rose ι → ℕ
  | node _ children => forestLevels children + 1

/-- The levels of the deepest tree of a forest. -/
def forestLevels : List (Rose ι) → ℕ
  | [] => 0
  | tree :: rest => max tree.levels (forestLevels rest)

end

mutual

/-- The nodes of a tree. -/
def count : Rose ι → ℕ
  | node _ children => forestCount children + 1

/-- The nodes of a forest. -/
def forestCount : List (Rose ι) → ℕ
  | [] => 0
  | tree :: rest => tree.count + forestCount rest

end

mutual

/-- The tree without what its nodes hold. -/
def shape : Rose ι → Rose Unit
  | node _ children => .node () (forestShape children)

/-- The shapes of the trees of a forest. -/
def forestShape : List (Rose ι) → List (Rose Unit)
  | [] => []
  | tree :: rest => tree.shape :: forestShape rest

end

@[simp] theorem levels_node (own : ι) (children : List (Rose ι)) :
    (node own children).levels = forestLevels children + 1 := by
  rw [levels]

@[simp] theorem count_node (own : ι) (children : List (Rose ι)) :
    (node own children).count = forestCount children + 1 := by
  rw [count]

theorem forestLevels_le {forest : List (Rose ι)} {n : ℕ} :
    forestLevels forest ≤ n ↔ ∀ tree ∈ forest, tree.levels ≤ n := by
  induction forest with
  | nil => simp [forestLevels]
  | cons tree rest ih => rw [forestLevels, Nat.max_le, List.forall_mem_cons, ih]

theorem forestCount_eq_sum (forest : List (Rose ι)) :
    forestCount forest = (forest.map count).sum := by
  induction forest with
  | nil => rw [forestCount, List.map_nil, List.sum_nil]
  | cons tree rest ih => rw [forestCount, List.map_cons, List.sum_cons, ih]

/-- Every tree has a node. -/
theorem length_le_forestCount (forest : List (Rose ι)) : forest.length ≤ forestCount forest := by
  induction forest with
  | nil => exact Nat.zero_le _
  | cons tree rest ih =>
      cases tree
      rw [forestCount, count_node, List.length_cons]
      omega

mutual

theorem levels_shape : ∀ tree : Rose ι, tree.shape.levels = tree.levels
  | node _ children => by rw [shape, levels_node, levels_node, forestLevels_shape children]

theorem forestLevels_shape : ∀ forest : List (Rose ι),
    forestLevels (forestShape forest) = forestLevels forest
  | [] => by rw [forestShape, forestLevels, forestLevels]
  | tree :: rest => by
    rw [forestShape, forestLevels, forestLevels, levels_shape tree, forestLevels_shape rest]

end

mutual

theorem count_shape : ∀ tree : Rose ι, tree.shape.count = tree.count
  | node _ children => by rw [shape, count_node, count_node, forestCount_shape children]

theorem forestCount_shape : ∀ forest : List (Rose ι),
    forestCount (forestShape forest) = forestCount forest
  | [] => by rw [forestShape, forestCount, forestCount]
  | tree :: rest => by
    rw [forestShape, forestCount, forestCount, count_shape tree, forestCount_shape rest]

end

/-- No node lies more than `depth` levels below a root, and there are at most `nodes` nodes. -/
def Within (depth nodes : ℕ) (forest : List (Rose ι)) : Prop :=
  forestLevels forest ≤ depth + 1 ∧ forestCount forest ≤ nodes

theorem within_iff_of_shape {depth nodes : ℕ} {forest : List (Rose ι)} {other : List (Rose κ)}
    (h : forestShape forest = forestShape other) :
    Within depth nodes forest ↔ Within depth nodes other := by
  rw [Within, Within, ← forestLevels_shape forest, ← forestCount_shape forest, h,
    forestLevels_shape, forestCount_shape]

end Rose

/-! ## Trees of a value -/

section Unfolds

variable {α ι : Type} {parts : α → Option (ι × List α)}

variable (parts) in
/-- A value unfolds into the tree of its parts: what its root holds, and the values below it. -/
inductive Unfolds : α → Rose ι → Prop
  | node {a : α} {own : ι} {items : List α} {children : List (Rose ι)}
      (hparts : parts a = some (own, items)) (hchildren : List.Forall₂ Unfolds items children) :
      Unfolds a (.node own children)

theorem unfolds_node {a : α} {own : ι} {children : List (Rose ι)} :
    Unfolds parts a (.node own children) ↔
      ∃ items, parts a = some (own, items) ∧ List.Forall₂ (Unfolds parts) items children := by
  constructor
  · rintro ⟨hparts, hchildren⟩
    exact ⟨_, hparts, hchildren⟩
  · rintro ⟨items, hparts, hchildren⟩
    exact .node hparts hchildren

/-- Lists that are related item by item, where each item is related to one thing only. -/
theorem eq_of_forall₂ {β : Type} {R : α → β → Prop} {as : List α} {bs cs : List β}
    (hb : List.Forall₂ R as bs) (hc : List.Forall₂ R as cs)
    (hunique : ∀ a, ∀ b ∈ bs, ∀ c, R a b → R a c → b = c) : bs = cs := by
  induction hb generalizing cs with
  | nil => exact (List.forall₂_nil_left_iff.1 hc).symm
  | cons hhead _ ih =>
      obtain ⟨c, cs', hfirst, hrest, rfl⟩ := List.forall₂_cons_left_iff.1 hc
      rw [hunique _ _ List.mem_cons_self c hhead hfirst,
        ih hrest fun a b hb => hunique a b (List.mem_cons_of_mem _ hb)]

/-- **A value has one tree.** The induction is on the levels of the tree. -/
theorem Unfolds.unique {a : α} {tree other : Rose ι} (h : Unfolds parts a tree)
    (hother : Unfolds parts a other) : tree = other := by
  have hbelow : ∀ n, ∀ (a : α) (tree other : Rose ι), tree.levels ≤ n → Unfolds parts a tree →
      Unfolds parts a other → tree = other := by
    intro n
    induction n with
    | zero =>
        intro a tree other hn
        cases tree
        exact absurd hn (by simp)
    | succ n ih =>
        rintro a ⟨own, children⟩ ⟨own', children'⟩ hn h hother
        obtain ⟨items, hparts, hchildren⟩ := unfolds_node.1 h
        obtain ⟨items', hparts', hchildren'⟩ := unfolds_node.1 hother
        obtain ⟨rfl, rfl⟩ := Prod.mk.inj (Option.some.inj (hparts.symm.trans hparts'))
        rw [Rose.levels_node, Nat.succ_le_succ_iff, Rose.forestLevels_le] at hn
        rw [eq_of_forall₂ hchildren hchildren' fun a b hb c => ih a b c (hn b hb)]
  exact hbelow _ a tree other Nat.le.refl h hother

end Unfolds

/-! ## Budgets -/

/-- What is left of a budget after a number of units, if they can be paid. -/
structure Budget (σ : Type) where
  valid : σ → Prop
  spend : σ → ℕ → Option σ
  spend_valid : ∀ s n t, valid s → spend s n = some t → valid t
  spend_zero : ∀ s, valid s → spend s 0 = some s
  spend_add : ∀ s m n, spend s (m + n) = (spend s m).bind fun t => spend t n

namespace Budget

theorem ite_some_eq_some {p : Prop} [Decidable p] {s t : ℕ} :
    (if p then some s else none) = some t ↔ p ∧ t = s := by
  rw [Option.ite_none_right_eq_some, Option.some.injEq]
  exact and_congr_right fun _ => eq_comm

/-- A counter of what is left, of a limit at most. -/
def down (limit : ℕ) : Budget ℕ where
  valid s := s ≤ limit
  spend s n := if n ≤ s then some (s - n) else none
  spend_valid s n t hs h := by
    obtain ⟨-, rfl⟩ := ite_some_eq_some.1 h
    exact Nat.le_trans (Nat.sub_le s n) hs
  spend_zero s _ := by rw [if_pos (Nat.zero_le s), Nat.sub_zero]
  spend_add s m n := by
    by_cases hm : m ≤ s
    · rw [if_pos hm, Option.bind_some, Nat.sub_sub]
      exact if_congr (by omega) rfl rfl
    · rw [if_neg hm, if_neg (by omega), Option.bind_none]

/-- A counter of what is spent, up to a limit. -/
def up (limit : ℕ) : Budget ℕ where
  valid s := s ≤ limit
  spend s n := if s + n ≤ limit then some (s + n) else none
  spend_valid s n t _ h := by
    obtain ⟨hle, rfl⟩ := ite_some_eq_some.1 h
    exact hle
  spend_zero s hs := by rw [if_pos (show s + 0 ≤ limit from hs), Nat.add_zero]
  spend_add s m n := by
    by_cases hm : s + m ≤ limit
    · rw [if_pos hm, Option.bind_some, ← Nat.add_assoc]
    · rw [if_neg hm, if_neg (by omega), Option.bind_none]

@[simp] theorem down_spend_eq_some {limit s n t : ℕ} :
    (down limit).spend s n = some t ↔ n ≤ s ∧ t = s - n := ite_some_eq_some

@[simp] theorem up_spend_eq_some {limit s n t : ℕ} :
    (up limit).spend s n = some t ↔ s + n ≤ limit ∧ t = s + n := ite_some_eq_some

end Budget

/-! ## Steps that spend -/

section

variable {σ ε α β γ : Type} (budget : Budget σ)

/-- The step gives what it is allowed to give, for its price, and nothing else. -/
def Spends (step : StateT σ (Except ε) β) (gives : β → Prop) (price : β → ℕ) : Prop :=
  ∀ s, budget.valid s → ∀ b t,
    step.run s = .ok (b, t) ↔ gives b ∧ budget.spend s (price b) = some t

variable {budget}

theorem Spends.congr {step : StateT σ (Except ε) β} {gives gives' : β → Prop} {price price' : β → ℕ}
    (h : Spends budget step gives price) (hgives : ∀ b, gives b ↔ gives' b)
    (hprice : ∀ b, gives b → price b = price' b) : Spends budget step gives' price' := by
  intro s hs b t
  rw [h s hs b t, ← hgives b]
  exact and_congr_right fun hb => by rw [hprice b hb]

theorem Spends.pure (b : β) : Spends (ε := ε) budget (Pure.pure b) (· = b) fun _ => 0 := by
  intro s hs c t
  rw [budget.spend_zero s hs, Option.some.injEq]
  show Except.ok (b, s) = Except.ok (c, t) ↔ _
  rw [Except.ok.injEq, Prod.mk.injEq, eq_comm (a := b)]

/-- What a run from the start gives, whatever is left then. -/
theorem map_fst_eq_ok {step : StateT σ (Except ε) β} {s : σ} {b : β} :
    (step.run s).map Prod.fst = .ok b ↔ ∃ t, step.run s = .ok (b, t) := by
  cases step.run s with
  | error e => exact ⟨nofun, fun ⟨_, h⟩ => nomatch h⟩
  | ok r =>
      obtain ⟨c, t⟩ := r
      constructor
      · intro h
        obtain rfl := Except.ok.inj h
        exact ⟨t, rfl⟩
      · rintro ⟨u, h⟩
        obtain ⟨rfl, rfl⟩ := Prod.mk.inj (Except.ok.inj h)
        rfl

/-- From nothing, a counter can spend up to its limit. -/
theorem exists_spends_up {limit : ℕ} {step : StateT ℕ (Except ε) β} {gives : β → Prop}
    {price : β → ℕ} (h : Spends (.up limit) step gives price) {b : β} :
    (∃ t, step.run 0 = .ok (b, t)) ↔ gives b ∧ price b ≤ limit := by
  constructor
  · rintro ⟨t, ht⟩
    have ⟨hb, hspend⟩ := (h 0 (Nat.zero_le _) b t).1 ht
    rw [Budget.up_spend_eq_some] at hspend
    exact ⟨hb, by omega⟩
  · rintro ⟨hb, hle⟩
    exact ⟨0 + price b, (h 0 (Nat.zero_le _) b _).2
      ⟨hb, Budget.up_spend_eq_some.2 ⟨by omega, rfl⟩⟩⟩

/-- All that is left can be spent. -/
theorem exists_spends_down {limit : ℕ} {step : StateT ℕ (Except ε) β} {gives : β → Prop}
    {price : β → ℕ} (h : Spends (.down limit) step gives price) {b : β} :
    (∃ t, step.run limit = .ok (b, t)) ↔ gives b ∧ price b ≤ limit := by
  constructor
  · rintro ⟨t, ht⟩
    have ⟨hb, hspend⟩ := (h limit Nat.le.refl b t).1 ht
    exact ⟨hb, (Budget.down_spend_eq_some.1 hspend).1⟩
  · rintro ⟨hb, hle⟩
    exact ⟨limit - price b, (h limit Nat.le.refl b _).2 ⟨hb, Budget.down_spend_eq_some.2 ⟨hle, rfl⟩⟩⟩

/-- **The prices of two steps add up.** -/
theorem Spends.bind {step : StateT σ (Except ε) β} {gives : β → Prop} {price : β → ℕ}
    (h : Spends budget step gives price) {next : β → StateT σ (Except ε) γ}
    {gives' : β → γ → Prop} {price' : β → γ → ℕ}
    (hnext : ∀ b, gives b → Spends budget (next b) (gives' b) (price' b)) (s : σ)
    (hs : budget.valid s) (c : γ) (u : σ) :
    (step >>= next).run s = .ok (c, u) ↔
      ∃ b, gives b ∧ gives' b c ∧ budget.spend s (price b + price' b c) = some u := by
  rw [StateT.run_bind, Guard.bind_eq_ok]
  constructor
  · rintro ⟨⟨b, t⟩, hstep, hc⟩
    have ⟨hb, ht⟩ := (h s hs b t).1 hstep
    have ⟨hgives, hu⟩ := (hnext b hb t (budget.spend_valid _ _ _ hs ht) c u).1 hc
    refine ⟨b, hb, hgives, ?_⟩
    rw [budget.spend_add, ht]
    exact hu
  · rintro ⟨b, hb, hgives, hu⟩
    rw [budget.spend_add, Option.bind_eq_some_iff] at hu
    obtain ⟨t, ht, hu⟩ := hu
    exact ⟨(b, t), (h s hs b t).2 ⟨hb, ht⟩,
      (hnext b hb t (budget.spend_valid _ _ _ hs ht) c u).2 ⟨hgives, hu⟩⟩

/-- A first item and the others. -/
theorem Spends.cons {first : StateT σ (Except ε) β} {rest : StateT σ (Except ε) (List β)}
    {gives : β → Prop} {gives' : List β → Prop} {price : β → ℕ}
    (hfirst : Spends budget first gives price)
    (hrest : Spends budget rest gives' fun bs => (bs.map price).sum) :
    Spends budget (do let b ← first; let bs ← rest; return b :: bs)
      (fun bs => ∃ b bs', bs = b :: bs' ∧ gives b ∧ gives' bs') fun bs => (bs.map price).sum := by
  intro s hs bs u
  have hnext : ∀ b, gives b → Spends budget (do let bs ← rest; return b :: bs)
      (fun bs => ∃ bs', bs = b :: bs' ∧ gives' bs') fun bs => (bs.tail.map price).sum := by
    intro b _ s hs bs u
    rw [hrest.bind (fun bs' _ => Spends.pure (b :: bs')) s hs]
    constructor
    · rintro ⟨bs', hbs', rfl, hu⟩
      exact ⟨⟨bs', rfl, hbs'⟩, hu⟩
    · rintro ⟨⟨bs', rfl, hbs'⟩, hu⟩
      exact ⟨bs', hbs', rfl, hu⟩
  rw [hfirst.bind hnext s hs]
  constructor
  · rintro ⟨b, hb, ⟨bs', rfl, hbs'⟩, hu⟩
    exact ⟨⟨b, bs', rfl, hb, hbs'⟩, hu⟩
  · rintro ⟨⟨b, bs', rfl, hb, hbs'⟩, hu⟩
    exact ⟨b, hb, ⟨bs', rfl, hbs'⟩, hu⟩

/-! ## Loops -/

/-- A loop over a list that reads no more than so many items. -/
def upTo (excess : ε) (step : α → StateT σ (Except ε) β) : ℕ → List α → StateT σ (Except ε) (List β)
  | _, [] => return []
  | 0, _ :: _ => throw excess
  | maximum + 1, a :: as => do
    let b ← step a
    let bs ← upTo excess step maximum as
    return b :: bs

variable {step : α → StateT σ (Except ε) β} {gives : α → β → Prop} {price : β → ℕ}

theorem Spends.nil : Spends (ε := ε) budget (Pure.pure []) (List.Forall₂ gives [])
    fun bs => (bs.map price).sum := by
  refine (Spends.pure ([] : List β)).congr (fun bs => ?_) fun bs hbs => ?_
  · rw [List.forall₂_nil_left_iff]
  · rw [hbs, List.map_nil, List.sum_nil]

/-- **The prices of the items of a list add up.** -/
theorem Spends.mapM {as : List α} (h : ∀ a ∈ as, Spends budget (step a) (gives a) price) :
    Spends budget (as.mapM step) (List.Forall₂ gives as) fun bs => (bs.map price).sum := by
  induction as with
  | nil =>
      rw [List.mapM_nil]
      exact .nil
  | cons a as ih =>
      have ⟨ha, has⟩ := List.forall_mem_cons.1 h
      rw [List.mapM_cons]
      refine (ha.cons (ih has)).congr (fun bs => ?_) fun _ _ => rfl
      rw [List.forall₂_cons_left_iff]
      exact ⟨fun ⟨b, bs', hbs, hb, hrest⟩ => ⟨b, bs', hb, hrest, hbs⟩,
        fun ⟨b, bs', hb, hrest, hbs⟩ => ⟨b, bs', hbs, hb, hrest⟩⟩

/-- The same for a loop that reads no more than so many items. -/
theorem Spends.upTo {excess : ε} {as : List α}
    (h : ∀ a ∈ as, Spends budget (step a) (gives a) price) (maximum : ℕ) :
    Spends budget (upTo excess step maximum as)
      (fun bs => as.length ≤ maximum ∧ List.Forall₂ gives as bs) fun bs => (bs.map price).sum := by
  induction as generalizing maximum with
  | nil =>
      rw [SharedBudget.upTo]
      exact Spends.nil.congr (fun bs => (and_iff_right (Nat.zero_le _)).symm) fun _ _ => rfl
  | cons a as ih =>
      have ⟨ha, has⟩ := List.forall_mem_cons.1 h
      cases maximum with
      | zero =>
          rw [SharedBudget.upTo]
          exact fun _ _ _ _ => ⟨nofun, fun h => absurd h.1.1 (Nat.not_succ_le_zero _)⟩
      | succ maximum =>
          rw [SharedBudget.upTo]
          refine (ha.cons (ih has maximum)).congr (fun bs => ?_) fun _ _ => rfl
          rw [List.forall₂_cons_left_iff, List.length_cons, Nat.succ_le_succ_iff]
          exact ⟨fun ⟨b, bs', hbs, hb, hlength, hrest⟩ => ⟨hlength, b, bs', hb, hrest, hbs⟩,
            fun ⟨hlength, b, bs', hb, hrest, hbs⟩ => ⟨b, bs', hbs, hb, hlength, hrest⟩⟩

/-- A loop that gives nothing. -/
theorem Spends.forM {as : List α} {check : α → StateT σ (Except ε) PUnit} {allowed : α → Prop}
    {cost : α → ℕ} (h : ∀ a ∈ as, Spends budget (check a) (fun _ => allowed a) fun _ => cost a) :
    Spends budget (as.forM check) (fun _ => ∀ a ∈ as, allowed a) fun _ => (as.map cost).sum := by
  induction as with
  | nil =>
      refine (Spends.pure PUnit.unit).congr (fun u => ?_) fun _ _ => rfl
      exact iff_of_true rfl (List.forall_mem_nil _)
  | cons a as ih =>
      obtain ⟨ha, has⟩ := List.forall_mem_cons.1 h
      intro s hs u t
      rw [List.forM_eq_forM, List.forM_cons]
      refine (ha.bind (fun _ _ => ih has) s hs u t).trans ?_
      rw [List.forall_mem_cons, List.map_cons, List.sum_cons, and_assoc]
      constructor
      · rintro ⟨-, hb⟩
        exact hb
      · intro hb
        exact ⟨PUnit.unit, hb⟩

/-! ## Forests -/

variable {ι : Type} {levels : ℕ}

/-- The nodes of the tree of an item that has one. -/
def priceOf (tree : β → Option (Rose ι)) (b : β) : ℕ := ((tree b).map Rose.count).getD 0

theorem forestCount_filterMap (tree : β → Option (Rose ι)) (bs : List β) :
    Rose.forestCount (bs.filterMap tree) = (bs.map (priceOf tree)).sum := by
  induction bs with
  | nil => rw [List.filterMap_nil, List.map_nil, List.sum_nil, Rose.forestCount]
  | cons b bs ih =>
      rw [List.map_cons, List.sum_cons, ← ih, priceOf]
      cases hb : tree b with
      | none => rw [List.filterMap_cons_none hb, Option.map_none, Option.getD_none, Nat.zero_add]
      | some t => rw [List.filterMap_cons_some hb, Option.map_some, Option.getD_some, Rose.forestCount]

theorem forall₂_levels {tree : β → Option (Rose ι)} {reads : α → β → Prop} {as : List α}
    {bs : List β} :
    List.Forall₂ (fun a b => reads a b ∧ ∀ t ∈ tree b, t.levels ≤ levels) as bs ↔
      List.Forall₂ reads as bs ∧ Rose.forestLevels (bs.filterMap tree) ≤ levels := by
  rw [Rose.forestLevels_le, List.forall_mem_filterMap]
  constructor
  · intro h
    refine ⟨h.imp fun _ _ => And.left, ?_⟩
    induction h with
    | nil => exact List.forall_mem_nil _
    | cons hhead _ ih => exact List.forall_mem_cons.2 ⟨hhead.2, ih⟩
  · rintro ⟨h, hlevels⟩
    induction h with
    | nil => exact .nil
    | cons hhead _ ih =>
        have ⟨hle, hrest⟩ := List.forall_mem_cons.1 hlevels
        exact .cons ⟨hhead, hle⟩ (ih hrest)

section Batch

variable {tree : β → Option (Rose ι)} {reads : α → β → Prop} {as : List α}

/-- **A loop over items, some of them with a tree**, each of so many levels. -/
theorem Spends.batch
    (h : ∀ a ∈ as, Spends budget (step a) (fun b => reads a b ∧ ∀ t ∈ tree b, t.levels ≤ levels)
      (priceOf tree)) :
    Spends budget (as.mapM step)
      (fun bs => List.Forall₂ reads as bs ∧ Rose.forestLevels (bs.filterMap tree) ≤ levels)
      fun bs => Rose.forestCount (bs.filterMap tree) :=
  (Spends.mapM h).congr (fun _ => forall₂_levels) fun bs _ => (forestCount_filterMap tree bs).symm

/-- The same for a loop that reads no more than so many items. -/
theorem Spends.batchUpTo {excess : ε}
    (h : ∀ a ∈ as, Spends budget (step a) (fun b => reads a b ∧ ∀ t ∈ tree b, t.levels ≤ levels)
      (priceOf tree)) (maximum : ℕ) :
    Spends budget (SharedBudget.upTo excess step maximum as)
      (fun bs => as.length ≤ maximum ∧ List.Forall₂ reads as bs ∧
        Rose.forestLevels (bs.filterMap tree) ≤ levels)
      fun bs => Rose.forestCount (bs.filterMap tree) :=
  (Spends.upTo h maximum).congr (fun _ => and_congr_right fun _ => forall₂_levels)
    fun bs _ => (forestCount_filterMap tree bs).symm

end Batch

section Forest

variable {build : α → StateT σ (Except ε) (Rose ι)} {reads : α → Rose ι → Prop} {as : List α}

/-- A step that builds a tree, as one that gives an item with a tree. -/
theorem Spends.some_tree {a : α}
    (h : Spends budget (build a) (fun tree => reads a tree ∧ tree.levels ≤ levels) Rose.count) :
    Spends budget (build a) (fun tree => reads a tree ∧ ∀ t ∈ some tree, t.levels ≤ levels)
      (priceOf some) :=
  h.congr (fun _ => and_congr_right fun _ => ⟨fun h _ ht => Option.some.inj ht ▸ h, fun h => h _ rfl⟩)
    fun _ _ => rfl

/-- **A loop that builds trees** out of the items of a list. -/
theorem Spends.forest
    (h : ∀ a ∈ as, Spends budget (build a) (fun tree => reads a tree ∧ tree.levels ≤ levels)
      Rose.count) :
    Spends budget (as.mapM build)
      (fun forest => List.Forall₂ reads as forest ∧ Rose.forestLevels forest ≤ levels)
      Rose.forestCount :=
  (Spends.batch fun a ha => (h a ha).some_tree).congr (fun _ => by rw [List.filterMap_some])
    fun _ _ => by rw [List.filterMap_some]

theorem Spends.forestUpTo {excess : ε}
    (h : ∀ a ∈ as, Spends budget (build a) (fun tree => reads a tree ∧ tree.levels ≤ levels)
      Rose.count) (maximum : ℕ) :
    Spends budget (SharedBudget.upTo excess build maximum as)
      (fun forest => as.length ≤ maximum ∧ List.Forall₂ reads as forest ∧
        Rose.forestLevels forest ≤ levels)
      Rose.forestCount :=
  (Spends.batchUpTo (fun a ha => (h a ha).some_tree) maximum).congr
    (fun _ => by rw [List.filterMap_some]) fun _ _ => by rw [List.filterMap_some]

end Forest

end

end SharedBudget

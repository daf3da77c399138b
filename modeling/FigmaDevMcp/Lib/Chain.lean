import Mathlib.Data.List.Nodup
import Mathlib.Data.List.Perm.Subperm
import Mathlib.Logic.Relation

set_option autoImplicit false

/-!
# Following a chain

Each item either leads on to another item or has a result. The chain from an item ends with a
result, or comes back to an item that it has passed.

* `Hop`, `Reaches`, `Revisits`: one step, the end of the chain, and that it has none;
* `reaches_hop`, `revisits_hop`: what one step preserves;
* `Answer`, `Answer.unique`: **what following the chain gives**, with a result for cycles;
* `answer_of_cut_iff`: a chain that stops short on some items, against the whole chain;
* `Told`, `Told.unique`: following it by the labels of the items, which several items may share;
* `walk`, `watchedWalk_eq`: following it for so many steps, and that **watching for cycles on the way
  makes no difference**.
-/

namespace Chain

open Relation

variable {κ ρ : Type} (next : κ → κ ⊕ ρ)

/-- One place leads to the next. -/
def Hop (p q : κ) : Prop := next p = .inl q

/-- The chain from the item ends with the result. -/
inductive Reaches : κ → ρ → Prop
  | done {p : κ} {r : ρ} (h : next p = .inr r) : Reaches p r
  | hop {p q : κ} {r : ρ} (h : Hop next p q) (hq : Reaches q r) : Reaches p r

/-- The chain from the item passes some item twice. -/
def Revisits (p : κ) : Prop := ∃ q, ReflTransGen (Hop next) p q ∧ TransGen (Hop next) q q

/-- The result of the chain, or the one for a chain that has none. -/
def Answer (cycle : ρ) (p : κ) (r : ρ) : Prop := Reaches next p r ∨ Revisits next p ∧ r = cycle

variable {next} {p q : κ} {r : ρ}

theorem Hop.unique {q' : κ} (h : Hop next p q) (h' : Hop next p q') : q = q' :=
  Sum.inl.inj (h.symm.trans h')

theorem reaches_hop (h : Hop next p q) : Reaches next p r ↔ Reaches next q r := by
  refine ⟨fun hp => ?_, fun hq => .hop h hq⟩
  cases hp with
  | done hdone => exact absurd (h.symm.trans hdone) Sum.inl_ne_inr
  | hop hhop hq => exact hhop.unique h ▸ hq

theorem reaches_of_result (h : next p = .inr r) {x : ρ} : Reaches next p x ↔ x = r := by
  constructor
  · intro hp
    cases hp with
    | done hdone => exact Sum.inr.inj (hdone.symm.trans h)
    | hop hhop _ => exact absurd (hhop.symm.trans h) Sum.inl_ne_inr
  · rintro rfl
    exact .done h

theorem not_hop_of_result (h : next p = .inr r) : ¬ Hop next p q := fun hhop =>
  absurd (hhop.symm.trans h) Sum.inl_ne_inr

/-- A chain that goes on from an item to itself goes on so from the one after it. -/
theorem transGen_hop (h : Hop next p q) (hp : TransGen (Hop next) p p) :
    TransGen (Hop next) q q := by
  rw [TransGen.head'_iff] at hp
  obtain ⟨q', hhop, hback⟩ := hp
  obtain rfl := h.unique hhop
  exact TransGen.tail' hback h

theorem revisits_hop (h : Hop next p q) : Revisits next p ↔ Revisits next q := by
  constructor
  · rintro ⟨x, hpx, hxx⟩
    rcases ReflTransGen.cases_head hpx with rfl | ⟨q', hhop, hqx⟩
    · exact ⟨q, .refl, transGen_hop h hxx⟩
    · exact ⟨x, h.unique hhop ▸ hqx, hxx⟩
  · rintro ⟨x, hqx, hxx⟩
    exact ⟨x, .head h hqx, hxx⟩

theorem not_revisits_of_result (h : next p = .inr r) : ¬ Revisits next p := by
  rintro ⟨x, hpx, hxx⟩
  have hnone : ∀ y, ¬ Hop next p y := fun y => not_hop_of_result h
  rcases ReflTransGen.cases_head hpx with rfl | ⟨y, hy, _⟩
  · obtain ⟨y, hy, _⟩ := TransGen.head'_iff.1 hxx
    exact hnone y hy
  · exact hnone y hy

/-- A chain that ends comes back to nothing. -/
theorem Reaches.not_revisits (h : Reaches next p r) : ¬ Revisits next p := by
  induction h with
  | done h => exact not_revisits_of_result h
  | hop h _ ih => exact fun hp => ih ((revisits_hop h).1 hp)

theorem Reaches.unique {x : ρ} (h : Reaches next p r) (h' : Reaches next p x) : r = x := by
  induction h with
  | done h => exact ((reaches_of_result h).1 h').symm
  | hop h _ ih => exact ih ((reaches_hop h).1 h')

theorem Answer.hop {cycle : ρ} (h : Hop next p q) (hq : Answer next cycle q r) :
    Answer next cycle p r :=
  hq.imp (reaches_hop h).2 (And.imp_left (revisits_hop h).2)

theorem Answer.of_hop {cycle : ρ} (h : Hop next p q) (hp : Answer next cycle p r) :
    Answer next cycle q r :=
  hp.imp (reaches_hop h).1 (And.imp_left (revisits_hop h).1)

/-- **A chain has one answer.** -/
theorem Answer.unique {cycle x : ρ} (h : Answer next cycle p r) (h' : Answer next cycle p x) :
    r = x := by
  rcases h with h | ⟨h, rfl⟩ <;> rcases h' with h' | ⟨h', rfl⟩
  · exact h.unique h'
  · exact absurd h' h.not_revisits
  · exact absurd h h'.not_revisits
  · rfl

/-- Where the result for a cycle is the end of no chain, it is the answer of a cycle only. -/
theorem Answer.eq_cycle_iff {cycle : ρ} (h : Answer next cycle p r)
    (hcycle : ∀ p, next p ≠ .inr cycle) : r = cycle ↔ Revisits next p := by
  have hnever : ∀ {p}, ¬ Reaches next p cycle := by
    intro p hp
    generalize hc : cycle = c at hp
    induction hp with
    | done h => exact hcycle _ (hc ▸ h)
    | hop _ _ ih => exact ih hc
  rcases h with h | ⟨h, rfl⟩
  · exact ⟨fun hr => absurd (hr ▸ h) hnever, fun hp => absurd hp h.not_revisits⟩
  · exact ⟨fun _ => h, fun _ => rfl⟩

/-- **A chain that stops short** on some items, with the same result on all of them, has the answers
of the whole chain just where that is the answer of those it comes by. -/
theorem answer_of_cut_iff {cut : κ → κ ⊕ ρ} {S : κ → Prop} {miss cycle : ρ}
    (hcut : ∀ p, S p → cut p = .inr miss) (hsame : ∀ p, ¬ S p → cut p = next p) :
    (∀ r, Answer cut cycle p r → Answer next cycle p r) ↔
      ∀ q, ReflTransGen (Hop next) p q → S q → Answer next cycle q miss := by
  have hhop : ∀ {x y}, Hop cut x y → Hop next x y := by
    intro x y h
    by_cases hx : S x
    · exact absurd h (not_hop_of_result (hcut x hx))
    · exact (hsame x hx).symm.trans h
  constructor
  · intro h q hlead hq
    induction hlead using ReflTransGen.head_induction_on with
    | refl => exact h miss (Or.inl (.done (hcut q hq)))
    | head hstep hlead ih =>
        rename_i x y
        by_cases hx : S x
        · have hmiss := h miss (Or.inl (.done (hcut x hx)))
          have halong : ∀ z, ReflTransGen (Hop next) x z → Answer next cycle z miss := by
            intro z hz
            induction hz with
            | refl => exact hmiss
            | tail _ hlast hz => exact hz.of_hop hlast
          exact halong q (.head hstep hlead)
        · exact ih fun r hr =>
            (h r (hr.hop ((hsame x hx).trans hstep))).of_hop hstep
  · intro h r hr
    rcases hr with hr | ⟨⟨q, hpq, hqq⟩, rfl⟩
    · induction hr with
      | done hdone =>
          rename_i x _
          by_cases hx : S x
          · obtain rfl := Sum.inr.inj ((hcut x hx).symm.trans hdone)
            exact h x .refl hx
          · exact Or.inl (.done ((hsame x hx).symm.trans hdone))
      | hop hstep _ ih =>
          exact (ih fun q hlead => h q (.head (hhop hstep) hlead)).hop (hhop hstep)
    · exact Or.inr ⟨⟨q, hpq.lift id fun _ _ => hhop, hqq.lift id fun _ _ => hhop⟩, rfl⟩

/-! ## By labels -/

section Labels

variable {ℓ : Type} (label : κ → ℓ) (cycle : ρ)

variable (next) in
/-- Following a chain that is taken to be a cycle where an item has a label that is there already:
the one of an item before it, or one given. -/
inductive Told : List ℓ → κ → ρ → Prop
  | again {seen : List ℓ} {p : κ} (h : label p ∈ seen) : Told seen p cycle
  | done {seen : List ℓ} {p : κ} {r : ρ} (hfresh : label p ∉ seen) (h : next p = .inr r) :
    Told seen p r
  | hop {seen : List ℓ} {p q : κ} {r : ρ} (hfresh : label p ∉ seen) (h : Hop next p q)
    (hq : Told (label p :: seen) q r) : Told seen p r

variable {label cycle} {seen : List ℓ}

theorem Told.unique {x : ρ} (h : Told next label cycle seen p r)
    (h' : Told next label cycle seen p x) : r = x := by
  induction h with
  | again h =>
      cases h' with
      | again _ => rfl
      | done hfresh _ => exact absurd h hfresh
      | hop hfresh _ _ => exact absurd h hfresh
  | done hfresh h =>
      cases h' with
      | again hseen => exact absurd hseen hfresh
      | done _ h' => exact Sum.inr.inj (h.symm.trans h')
      | hop _ hhop _ => exact absurd hhop (not_hop_of_result h)
  | hop hfresh h _ ih =>
      cases h' with
      | again hseen => exact absurd hseen hfresh
      | done _ h' => exact absurd h (not_hop_of_result h')
      | hop _ hhop hq => exact ih (h.unique hhop ▸ hq)

/-- Another result than that of a cycle is found with any fewer labels given. -/
theorem Told.of_subset {fewer : List ℓ} (h : Told next label cycle seen p r) (hr : r ≠ cycle)
    (hfewer : fewer ⊆ seen) : Told next label cycle fewer p r := by
  induction h generalizing fewer with
  | again _ => exact absurd rfl hr
  | done hfresh h => exact .done (fun hp => hfresh (hfewer hp)) h
  | hop hfresh h _ ih =>
      exact .hop (fun hp => hfresh (hfewer hp)) h (ih hr (List.cons_subset_cons _ hfewer))

/-- A cycle is found with any more labels given. -/
theorem Told.cycle_of_subset {more : List ℓ} (h : Told next label cycle seen p r)
    (hcycle : ∀ p, next p ≠ .inr cycle) (hr : r = cycle) (hmore : seen ⊆ more) :
    Told next label cycle more p r := by
  induction h generalizing more with
  | again h => exact .again (hmore h)
  | done _ h => exact absurd (hr ▸ h) (hcycle _)
  | @hop _ p _ _ _ h _ ih =>
      by_cases hp : label p ∈ more
      · exact hr ▸ .again hp
      · exact .hop hp h (ih hr (List.cons_subset_cons _ hmore))

/-- A label more makes no difference where the chain comes to no item of that label. -/
theorem Told.or_meets {k : ℓ} (h : Told next label cycle seen p r) (hr : r ≠ cycle) :
    Told next label cycle (k :: seen) p r ∨
      ∃ x, ReflTransGen (Hop next) p x ∧ label x = k ∧ Told next label cycle [] x r := by
  induction h with
  | again _ => exact absurd rfl hr
  | @done _ p _ hfresh h =>
      by_cases hp : label p = k
      · exact Or.inr ⟨p, .refl, hp, (Told.done hfresh h).of_subset hr (List.nil_subset _)⟩
      · exact Or.inl (.done (fun hmem => (List.mem_cons.1 hmem).elim hp hfresh) h)
  | @hop seen p q _ hfresh h hq ih =>
      by_cases hp : label p = k
      · exact Or.inr ⟨p, .refl, hp, (Told.hop hfresh h hq).of_subset hr (List.nil_subset _)⟩
      · rcases ih hr with htold | ⟨x, hlead, hx⟩
        · have hswap : label p :: k :: seen ⊆ k :: label p :: seen :=
            (List.Perm.swap k (label p) seen).subset
          exact Or.inl (.hop (fun hmem => (List.mem_cons.1 hmem).elim hp hfresh) h
            (htold.of_subset hr hswap))
        · exact Or.inr ⟨x, .head h hlead, hx⟩

/-- On the way to another result than that of a cycle no label is met that was given. -/
theorem Told.fresh (h : Told next label cycle seen p r) (hr : r ≠ cycle)
    (hlead : ReflTransGen (Hop next) p q) : label q ∉ seen := by
  induction h with
  | again _ => exact absurd rfl hr
  | done hfresh h =>
      rcases ReflTransGen.cases_head hlead with rfl | ⟨x, hx, _⟩
      · exact hfresh
      · exact absurd hx (not_hop_of_result h)
  | hop hfresh h _ ih =>
      rcases ReflTransGen.cases_head hlead with rfl | ⟨x, hx, hrest⟩
      · exact hfresh
      · exact fun hmem => ih hr (h.unique hx ▸ hrest) (List.mem_cons_of_mem _ hmem)

end Labels

/-! ## So many steps -/

section Walk

variable (next)

/-- The result of the chain if it comes within so many steps. -/
def walk (spent : ρ) : ℕ → κ → ρ
  | 0, _ => spent
  | fuel + 1, p =>
    match next p with
    | .inl q => walk spent fuel q
    | .inr r => r

variable [DecidableEq κ]

/-- The same walk, which from the step `after` on keeps the items that it has passed, and ends where
it comes back to one of them. -/
def watchedWalk (spent : ρ) (after : ℕ) : ℕ → ℕ → List κ → κ → ρ
  | 0, _, _, _ => spent
  | fuel + 1, step, seen, p =>
    match next p with
    | .inl q =>
      if after ≤ step then
        if p ∈ seen then spent else watchedWalk spent after fuel (step + 1) (p :: seen) q
      else watchedWalk spent after fuel (step + 1) seen q
    | .inr r => r

variable {next}

omit [DecidableEq κ] in
/-- A chain that comes back to its start has no result, after however many steps. -/
theorem walk_of_transGen {spent : ρ} (h : TransGen (Hop next) p p) (fuel : ℕ) :
    walk next spent fuel p = spent := by
  induction fuel generalizing p with
  | zero => rfl
  | succ fuel ih =>
      obtain ⟨q, hhop, -⟩ := TransGen.head'_iff.1 h
      rw [walk, show next p = .inl q from hhop]
      exact ih (transGen_hop hhop h)

/-- **Watching makes no difference**, where the items kept all lead to where the walk is. -/
theorem watchedWalk_eq {spent : ρ} {after fuel step : ℕ} {seen : List κ}
    (hseen : ∀ x ∈ seen, TransGen (Hop next) x p) :
    watchedWalk next spent after fuel step seen p = walk next spent fuel p := by
  induction fuel generalizing p step seen with
  | zero => rfl
  | succ fuel ih =>
      by_cases hback : p ∈ seen ∧ after ≤ step
      · have hcycle := hseen p hback.1
        obtain ⟨q, hhop, -⟩ := TransGen.head'_iff.1 hcycle
        rw [walk_of_transGen hcycle, watchedWalk, show next p = .inl q from hhop]
        simp only [if_pos hback.1, if_pos hback.2]
      · rw [watchedWalk, walk]
        cases hnext : next p with
        | inr r => rfl
        | inl q =>
            have hq : ∀ x ∈ seen, TransGen (Hop next) x q := fun x hx => (hseen x hx).tail hnext
            by_cases hafter : after ≤ step
            · have hfresh : p ∉ seen := fun hp => hback ⟨hp, hafter⟩
              simp only [if_pos hafter, if_neg hfresh]
              exact ih (List.forall_mem_cons.2 ⟨.single hnext, hq⟩)
            · simp only [if_neg hafter]
              exact ih hq

end Walk

end Chain

import FigmaDevMcp.Read.AliasResolution

set_option autoImplicit false

/-!
# Resolving aliases against the clock

What a read answers and memoises when its deadline passes at any point. A lookup of a collection
that the deadline takes away is taken for a collection without a default mode, and the variable
for a missing node.

* `resolveFrom_memo`, `resolveFrom_adds`: **what is memoised stays**;
* `openEnded`, `frames_memo`, `frames_cutShort`: how a chain ends, and what it leaves in the memo;
* `Keyed`, `unlimited_eq_some`: what the code gives without a deadline, keys and all;
* `Ran`: the resolutions of a read, in the session each was made in;
* `definite_iff`: no answer of a read is about the deadline, or about another pair, just where the
  deadline takes no lookup away and no keys are mixed up.
-/

namespace FigmaDevMcp

open JsValue Chain Relation

/-- An error that is not retryable. -/
def AliasResolution.isFinal : AliasResolution → Bool
  | .error _ retryable => !retryable
  | .success _ => false

namespace FigmaVariables

variable {api : FigmaVariables} {clock : Clock}

/-! ## What is memoised stays -/

theorem get_memoise (s : VariableSession) (p : VariableMode) (r : AliasResolution) (k : JsString) :
    (s.memoise p r).memo.get k = if k = memoKey p then some r else s.memo.get k :=
  JsMap.get_set ..

/-- The pair that `resolveFrom` looks a variable up for is not in the memo. -/
theorem enter_memo {s t : VariableSession} {p : VariableMode} {stack : List JsString}
    (h : enter clock p stack s = (none, t)) : s.memo.get (memoKey p) = none := by
  rw [enter] at h
  cases hmemo : s.memo.get (memoKey p) with
  | some r =>
      rw [hmemo] at h
      cases h
  | none => rfl

/-- An answer of the memo is not replaced. -/
theorem resolveFrom_memo {fuel : ℕ} {p : VariableMode} {stack : List JsString}
    {s t : VariableSession} {r x : AliasResolution} {k : JsString} (hs : Cached api s)
    (h : api.resolveFrom clock fuel p stack s = some (r, t)) (hk : s.memo.get k = some x) :
    t.memo.get k = some x := by
  induction fuel generalizing p stack s t r with
  | zero => cases h
  | succ fuel ih =>
      rw [resolveFrom] at h
      cases henter : enter clock p stack s with
      | mk y u =>
          obtain ⟨honward, hvariables, hcollections, _⟩ := enter_spec henter
          have hu := hs.of_eq hvariables hcollections
          rw [henter] at h
          cases y with
          | some early =>
              obtain ⟨rfl, rfl⟩ := Prod.mk.inj (Option.some.inj h)
              rwa [honward.memo]
          | none =>
              have hne : k ≠ memoKey p := by
                rintro rfl
                exact Option.some_ne_none x (hk.symm.trans (enter_memo henter))
              cases hvisit : api.visit clock p u with
              | mk y v =>
                  obtain ⟨hv, honward', _⟩ := visit_spec hu hvisit
                  have hkept : v.memo.get k = some x := by
                    rwa [(honward.trans honward').memo]
                  simp only [hvisit] at h
                  cases y with
                  | exhausted =>
                      obtain ⟨rfl, rfl⟩ := Prod.mk.inj (Option.some.inj h)
                      exact hkept
                  | answer y =>
                      obtain ⟨rfl, rfl⟩ := Prod.mk.inj (Option.some.inj h)
                      rwa [get_memoise, if_neg hne]
                  | alias_ q =>
                      obtain ⟨⟨r', w⟩, hresolve, hrt⟩ := Option.map_eq_some_iff.1 h
                      obtain ⟨rfl, rfl⟩ := Prod.mk.inj hrt
                      rw [get_memoise, if_neg hne]
                      exact ih hv hresolve hkept

/-- What the deadline cuts short comes to a missing node. -/
theorem visit_of_cutShort {s : VariableSession} {p : VariableMode} (hs : Cached api s)
    (htripped : s.tripped = false) (h : CutShort api clock s p) :
    (api.visit clock p s).1 = .answer .missing := by
  obtain ⟨raw, hfound, hundefined, hlate⟩ := h
  rw [visit]
  cases hlookup : api.lookupVariable clock p.1 s with
  | mk found u =>
      obtain ⟨hu, _, hvariable⟩ := lookupVariable_spec hs hlookup
      rw [hlookup] at hfound hlate
      obtain rfl : found = some raw := hfound
      have hopen : u.tripped = false :=
        (hvariable.resolve_right fun h => Option.some_ne_none raw h.1).2 htripped
      cases hcollection : api.lookupCollection clock (collectionId raw) u with
      | mk collection v =>
          obtain ⟨_, _, hanswer⟩ := lookupCollection_spec hu hcollection
          simp only [hcollection] at hlate ⊢
          rcases hanswer with ⟨_, hstays⟩ | ⟨rfl, _⟩
          · rw [hstays hopen] at hlate
            cases hlate
          · rw [if_pos hundefined]
            show Visit.of (verdict ((valuesByMode raw).property p.2) p.2) = _
            rw [verdict, if_pos hundefined]
            rfl

/-- No variable is looked up for a pair whose key is on the stack. -/
theorem frames_fresh {fuel : ℕ} {p : VariableMode} {stack : List JsString} {s : VariableSession}
    {f : VariableSession × VariableMode} (h : f ∈ api.frames clock fuel p stack s) :
    memoKey f.2 ∉ stack := by
  induction fuel generalizing p stack s with
  | zero => cases h
  | succ fuel ih =>
      rw [frames] at h
      cases henter : enter clock p stack s with
      | mk y u =>
          obtain ⟨_, _, _, _, hnone⟩ := enter_spec henter
          rw [henter] at h
          cases y with
          | some early => cases h
          | none =>
              rcases List.mem_cons.1 h with rfl | h
              · exact (hnone rfl).2
              · cases hvisit : api.visit clock p u with
                | mk y v =>
                    rw [hvisit] at h
                    cases y with
                    | exhausted => cases h
                    | answer r => cases h
                    | alias_ q => exact fun hmem => ih h (List.mem_cons_of_mem _ hmem)

/-- A call memoises nothing but what it returns. -/
theorem resolveFrom_adds {fuel : ℕ} {p : VariableMode} {stack : List JsString}
    {s t : VariableSession} {r x : AliasResolution} {k : JsString} (hs : Cached api s)
    (h : api.resolveFrom clock fuel p stack s = some (r, t)) (hk : t.memo.get k = some x) :
    s.memo.get k = some x ∨ x = r := by
  induction fuel generalizing p stack s t r with
  | zero => cases h
  | succ fuel ih =>
      rw [resolveFrom] at h
      cases henter : enter clock p stack s with
      | mk y u =>
          obtain ⟨honward, hvariables, hcollections, _⟩ := enter_spec henter
          have hu := hs.of_eq hvariables hcollections
          rw [henter] at h
          cases y with
          | some early =>
              obtain ⟨rfl, rfl⟩ := Prod.mk.inj (Option.some.inj h)
              exact Or.inl (honward.memo ▸ hk)
          | none =>
              cases hvisit : api.visit clock p u with
              | mk y v =>
                  obtain ⟨hv, honward', _⟩ := visit_spec hu hvisit
                  have hmemo : v.memo = s.memo := (honward.trans honward').memo
                  simp only [hvisit] at h
                  cases y with
                  | exhausted =>
                      obtain ⟨rfl, rfl⟩ := Prod.mk.inj (Option.some.inj h)
                      exact Or.inl (hmemo ▸ hk)
                  | answer y =>
                      obtain ⟨rfl, rfl⟩ := Prod.mk.inj (Option.some.inj h)
                      rw [get_memoise] at hk
                      split_ifs at hk
                      · exact Or.inr (Option.some.inj hk).symm
                      · exact Or.inl (hmemo ▸ hk)
                  | alias_ q =>
                      obtain ⟨⟨r', w⟩, hresolve, hrt⟩ := Option.map_eq_some_iff.1 h
                      obtain ⟨rfl, rfl⟩ := Prod.mk.inj hrt
                      rw [get_memoise] at hk
                      split_ifs at hk
                      · exact Or.inr (Option.some.inj hk).symm
                      · exact hmemo ▸ ih hv hresolve hk

/-! ## Where a chain ends -/

variable (api clock) in
/-- Whether a chain ends where no final error is answered that is new: at what the memo has that is
no such error, or where the deadline has passed. -/
def openEnded : ℕ → VariableMode → List JsString → VariableSession → Bool
  | 0, _, _, _ => true
  | fuel + 1, p, stack, s =>
    match enter clock p stack s with
    | (some r, _) => !r.isFinal
    | (none, s) =>
      match api.visit clock p s with
      | (.exhausted, _) => true
      | (.answer _, _) => false
      | (.alias_ q, s) => openEnded fuel q (memoKey p :: stack) s

/-- The answer there is no final error. -/
theorem not_isFinal_of_openEnded {fuel : ℕ} {p : VariableMode} {stack : List JsString}
    {s t : VariableSession} {r : AliasResolution}
    (h : api.resolveFrom clock fuel p stack s = some (r, t))
    (hopen : api.openEnded clock fuel p stack s = true) : r.isFinal = false := by
  induction fuel generalizing p stack s t r with
  | zero => cases h
  | succ fuel ih =>
      rw [resolveFrom] at h
      rw [openEnded] at hopen
      cases henter : enter clock p stack s with
      | mk y u =>
          rw [henter] at h hopen
          cases y with
          | some early =>
              obtain ⟨rfl, rfl⟩ := Prod.mk.inj (Option.some.inj h)
              exact (Bool.not_eq_true' _).mp hopen
          | none =>
              cases hvisit : api.visit clock p u with
              | mk y v =>
                  simp only [hvisit] at h hopen
                  cases y with
                  | exhausted =>
                      obtain ⟨rfl, rfl⟩ := Prod.mk.inj (Option.some.inj h)
                      rfl
                  | answer y => cases hopen
                  | alias_ q =>
                      obtain ⟨⟨r', w⟩, hresolve, hrt⟩ := Option.map_eq_some_iff.1 h
                      obtain ⟨rfl, rfl⟩ := Prod.mk.inj hrt
                      exact ih hresolve hopen

/-- Elsewhere the answer is memoised for every pair that a variable was looked up for. -/
theorem frames_memo {fuel : ℕ} {p : VariableMode} {stack : List JsString} {s t : VariableSession}
    {r : AliasResolution} (h : api.resolveFrom clock fuel p stack s = some (r, t))
    (hclosed : api.openEnded clock fuel p stack s = false) :
    ∀ f ∈ api.frames clock fuel p stack s, t.memo.get (memoKey f.2) = some r := by
  induction fuel generalizing p stack s t r with
  | zero => cases h
  | succ fuel ih =>
      rw [resolveFrom] at h
      rw [openEnded] at hclosed
      rw [frames]
      cases henter : enter clock p stack s with
      | mk y u =>
          rw [henter] at h hclosed
          cases y with
          | some early => exact List.forall_mem_nil _
          | none =>
              cases hvisit : api.visit clock p u with
              | mk y v =>
                  simp only [hvisit] at h hclosed ⊢
                  cases y with
                  | exhausted => cases hclosed
                  | answer y =>
                      obtain ⟨rfl, rfl⟩ := Prod.mk.inj (Option.some.inj h)
                      refine List.forall_mem_singleton.2 ?_
                      rw [get_memoise, if_pos rfl]
                  | alias_ q =>
                      obtain ⟨⟨r', w⟩, hresolve, hrt⟩ := Option.map_eq_some_iff.1 h
                      obtain ⟨rfl, rfl⟩ := Prod.mk.inj hrt
                      refine List.forall_mem_cons.2 ⟨?_, fun f hf => ?_⟩
                      · rw [get_memoise, if_pos rfl]
                      · have hne : memoKey f.2 ≠ memoKey p := fun heq =>
                          frames_fresh hf (heq ▸ List.mem_cons_self)
                        rw [get_memoise, if_neg hne]
                        exact ih hresolve hclosed f hf

/-- **What the deadline cuts short is answered as a missing node.** -/
theorem frames_cutShort {fuel : ℕ} {p : VariableMode} {stack : List JsString}
    {s t : VariableSession} {r : AliasResolution} {f : VariableSession × VariableMode}
    (hs : Cached api s) (h : api.resolveFrom clock fuel p stack s = some (r, t))
    (hf : f ∈ api.frames clock fuel p stack s) (hcut : CutShort api clock f.1 f.2) :
    api.openEnded clock fuel p stack s = false ∧ r = .missing := by
  induction fuel generalizing p stack s t r with
  | zero => cases h
  | succ fuel ih =>
      rw [resolveFrom] at h
      rw [frames] at hf
      rw [openEnded]
      cases henter : enter clock p stack s with
      | mk y u =>
          obtain ⟨_, hvariables, hcollections, _, hnone⟩ := enter_spec henter
          have hu := hs.of_eq hvariables hcollections
          rw [henter] at h hf
          cases y with
          | some early => cases hf
          | none =>
              cases hvisit : api.visit clock p u with
              | mk y v =>
                  have hv := (visit_spec hu hvisit).1
                  simp only [hvisit] at h hf ⊢
                  rcases List.mem_cons.1 hf with rfl | hf
                  · have hvisited := visit_of_cutShort hu (hnone rfl).1 hcut
                    rw [hvisit] at hvisited
                    obtain rfl : y = .answer .missing := hvisited
                    exact ⟨rfl, (Prod.mk.inj (Option.some.inj h)).1.symm⟩
                  · cases y with
                    | exhausted => cases hf
                    | answer y => cases hf
                    | alias_ q =>
                        obtain ⟨⟨r', w⟩, hresolve, hrt⟩ := Option.map_eq_some_iff.1 h
                        obtain ⟨rfl, rfl⟩ := Prod.mk.inj hrt
                        exact ih hv hresolve hf

/-! ## Without a deadline -/

/-- Following a chain by the keys of its pairs. -/
abbrev Keyed (api : FigmaVariables) (stack : List JsString) (p : VariableMode)
    (r : AliasResolution) : Prop :=
  Told api.next memoKey .cycle stack p r

/-- What resolving a pair gives in a new session where no deadline passes. -/
def unlimited (api : FigmaVariables) (p : VariableMode) : Option AliasResolution :=
  (api.resolveFrom (fun _ => false) (api.fuel p) p [] {}).map Prod.fst

/-- With nothing in the memo, a chain is followed by its keys. -/
theorem keyed_of_empty {fuel : ℕ} {p : VariableMode} {stack : List JsString}
    {s t : VariableSession} {r : AliasResolution} (hs : Cached api s) (hopen : s.tripped = false)
    (hmemo : ∀ k, s.memo.get k = none)
    (h : api.resolveFrom (fun _ => false) fuel p stack s = some (r, t)) : Keyed api stack p r := by
  have hnever : ∀ i, (fun _ => false : Clock) i = false := fun _ => rfl
  induction fuel generalizing p stack s t r with
  | zero => cases h
  | succ fuel ih =>
      rw [resolveFrom] at h
      have hentered := enter_never hnever hopen p stack
      cases henter : enter (fun _ => false) p stack s with
      | mk y u =>
          obtain ⟨honward, hvariables, hcollections, hsome, hnone⟩ := enter_spec henter
          have hu := hs.of_eq hvariables hcollections
          rw [henter] at h hentered
          cases y with
          | some early =>
              obtain ⟨rfl, rfl⟩ := Prod.mk.inj (Option.some.inj h)
              rcases hsome _ rfl with hget | ⟨_, htripped⟩ | ⟨rfl, hseen⟩
              · exact absurd ((hmemo _).symm.trans hget) (Option.some_ne_none _).symm
              · exact absurd (hentered.symm.trans htripped) Bool.false_ne_true
              · exact .again hseen
          | none =>
              have hfresh := (hnone rfl).2
              have hvisited : (api.visit _ p u).2.tripped = false := visit_never hnever hentered p
              cases hvisit : api.visit (fun _ => false) p u with
              | mk y v =>
                  obtain ⟨hv, honward', hy⟩ := visit_spec hu hvisit
                  rw [hvisit] at hvisited
                  simp only [hvisit] at h
                  cases y with
                  | exhausted =>
                      rcases hy with ⟨_, htripped⟩ | hy | ⟨_, hy⟩
                      · exact absurd (hvisited.symm.trans htripped) Bool.false_ne_true
                      · cases hnext : api.next p <;> rw [hnext] at hy <;> cases hy
                      · cases hy
                  | answer y =>
                      obtain ⟨rfl, rfl⟩ := Prod.mk.inj (Option.some.inj h)
                      exact .done hfresh (answer_next (fun _ => rfl) hentered hu hvisit)
                  | alias_ q =>
                      obtain ⟨⟨r', w⟩, hresolve, hrt⟩ := Option.map_eq_some_iff.1 h
                      obtain ⟨rfl, rfl⟩ := Prod.mk.inj hrt
                      refine .hop hfresh (hop_of_visit hy) (ih hv hvisited (fun k => ?_) hresolve)
                      rw [(honward.trans honward').memo]
                      exact hmemo k

theorem unlimited_eq_some {p : VariableMode} {r : AliasResolution} :
    api.unlimited p = some r ↔ Keyed api [] p r := by
  have hterminates : (api.resolveFrom (fun _ => false) (api.fuel p) p [] {}).isSome = true :=
    resolveFrom_isSome cached_start List.mem_cons_self List.nodup_nil (List.forall_mem_nil _)
      (Nat.lt_succ_self _)
  obtain ⟨⟨x, t⟩, hx⟩ := Option.isSome_iff_exists.1 hterminates
  have hkeyed : Keyed api [] p x := keyed_of_empty cached_start rfl (fun _ => rfl) hx
  rw [unlimited, hx]
  constructor
  · intro h
    obtain rfl := Option.some.inj h
    exact hkeyed
  · intro h
    exact congrArg some (hkeyed.unique h)

/-- A chain that comes back to the key it starts with is a cycle. -/
theorem unlimited_of_around {p q : VariableMode} (hlead : TransGen (Hop api.next) p q)
    (hkey : memoKey q = memoKey p) : api.unlimited p = some .cycle := by
  obtain ⟨r, hr⟩ : ∃ r, api.unlimited p = some r := by
    have hsome : (api.unlimited p).isSome = true := by
      rw [unlimited, Option.isSome_map]
      exact resolveFrom_isSome cached_start List.mem_cons_self List.nodup_nil
        (List.forall_mem_nil _) (Nat.lt_succ_self _)
    exact Option.isSome_iff_exists.1 hsome
  rw [hr]
  by_contra hcycle
  have hne : r ≠ .cycle := fun h => hcycle (congrArg some h)
  obtain ⟨x, hhop, hrest⟩ := TransGen.head'_iff.1 hlead
  cases unlimited_eq_some.1 hr with
  | again h => cases h
  | done _ h => exact not_hop_of_result h hhop
  | hop _ h hx =>
      obtain rfl := h.unique hhop
      exact hx.fresh hne hrest (hkey ▸ List.mem_cons_self)

/-- Where an answer is no final error and is not open, it is that of each pair looked up. -/
theorem keyed_of_closed {fuel : ℕ} {p : VariableMode} {stack : List JsString}
    {s t : VariableSession} {r : AliasResolution} (hs : Cached api s)
    (h : api.resolveFrom clock fuel p stack s = some (r, t))
    (hclosed : api.openEnded clock fuel p stack s = false) (hr : r.isFinal = false) :
    Keyed api stack p r ∧ ∀ f ∈ api.frames clock fuel p stack s, Keyed api [] f.2 r := by
  have hcycle : r ≠ .cycle := by
    rintro rfl
    cases hr
  induction fuel generalizing p stack s t r with
  | zero => cases h
  | succ fuel ih =>
      rw [resolveFrom] at h
      rw [openEnded] at hclosed
      rw [frames]
      cases henter : enter clock p stack s with
      | mk y u =>
          obtain ⟨_, hvariables, hcollections, _, hnone⟩ := enter_spec henter
          have hu := hs.of_eq hvariables hcollections
          rw [henter] at h hclosed
          cases y with
          | some early =>
              obtain ⟨rfl, rfl⟩ := Prod.mk.inj (Option.some.inj h)
              exact absurd (hr.symm.trans ((Bool.not_eq_false' _).mp hclosed)) Bool.false_ne_true
          | none =>
              have hfresh := (hnone rfl).2
              cases hvisit : api.visit clock p u with
              | mk y v =>
                  obtain ⟨hv, _, hy⟩ := visit_spec hu hvisit
                  simp only [hvisit] at h hclosed ⊢
                  cases y with
                  | exhausted => cases hclosed
                  | answer y =>
                      obtain ⟨rfl, rfl⟩ := Prod.mk.inj (Option.some.inj h)
                      rcases hy with ⟨hy, _⟩ | hy | ⟨_, hy⟩
                      · cases hy
                      · have hp : Keyed api stack p y := .done hfresh (result_of_visit hy)
                        exact ⟨hp, List.forall_mem_singleton.2
                          (hp.of_subset hcycle (List.nil_subset _))⟩
                      · obtain rfl := Visit.answer.inj hy
                        cases hr
                  | alias_ q =>
                      obtain ⟨⟨r', w⟩, hresolve, hrt⟩ := Option.map_eq_some_iff.1 h
                      obtain ⟨rfl, rfl⟩ := Prod.mk.inj hrt
                      obtain ⟨hq, hframes⟩ := ih hv hresolve hclosed hr hcycle
                      have hp : Keyed api stack p r' := .hop hfresh (hop_of_visit hy) hq
                      exact ⟨hp, List.forall_mem_cons.2
                        ⟨hp.of_subset hcycle (List.nil_subset _), hframes⟩⟩

/-! ## The resolutions of a read -/

/-- One call of `resolve`, with the session it is made in. -/
structure Resolve where
  session : VariableSession
  pair : VariableMode
  fuel : ℕ
  result : AliasResolution

variable (api clock) in
/-- The resolutions of a read, the last first, and the session after them. -/
inductive Ran : List Resolve → VariableSession → Prop
  | start : Ran [] {}
  | variable_ {calls : List Resolve} {s : VariableSession} (h : Ran calls s) (id : JsString) :
    Ran calls (api.lookupVariable clock id s).2
  | collection {calls : List Resolve} {s : VariableSession} (h : Ran calls s) (id : JsString) :
    Ran calls (api.lookupCollection clock id s).2
  | resolve {calls : List Resolve} {s t : VariableSession} (h : Ran calls s) {p : VariableMode}
    {fuel : ℕ} {r : AliasResolution} (hr : api.resolveFrom clock fuel p [] s = some (r, t)) :
    Ran (⟨s, p, fuel, r⟩ :: calls) t

/-- The pairs that the chains of the calls go through. -/
def Met (api : FigmaVariables) (calls : List Resolve) (p : VariableMode) : Prop :=
  ∃ c ∈ calls, ReflTransGen (Hop api.next) c.pair p

/-- Every error that is final, returned or memoised, is what resolving the pair gives where no
deadline passes. -/
structure Definite (api : FigmaVariables) (calls : List Resolve) (s : VariableSession) : Prop where
  returned : ∀ c ∈ calls, ∀ code, c.result = .error code false →
    api.unlimited c.pair = some (.error code false)
  memoised : ∀ p, Met api calls p → ∀ code, s.memo.get (memoKey p) = some (.error code false) →
    api.unlimited p = some (.error code false)

/-- The deadline takes no lookup of a collection away from a chain that does not end with a missing
node. -/
def Harmless (api : FigmaVariables) (clock : Clock) (calls : List Resolve) : Prop :=
  ∀ c ∈ calls, ∀ f ∈ api.frames clock c.fuel c.pair [] c.session,
    CutShort api clock f.1 f.2 → api.unlimited f.2 = some .missing

/-- The pairs `P` of the same key have the same final error as the pair, if that has one. -/
def Alone (api : FigmaVariables) (P : VariableMode → Prop) (p : VariableMode) : Prop :=
  ∀ q, P q → memoKey q = memoKey p → ∀ code, api.unlimited p = some (.error code false) →
    api.unlimited q = some (.error code false)

/-- No pair that a variable is looked up for has the key of another pair of the read that it does not
share its final error with, in a call that does not end open. -/
def Unmixed (api : FigmaVariables) (clock : Clock) (P : VariableMode → Prop)
    (calls : List Resolve) : Prop :=
  ∀ c ∈ calls, api.openEnded clock c.fuel c.pair [] c.session = false →
    ∀ f ∈ api.frames clock c.fuel c.pair [] c.session, Alone api P f.2

theorem met_hop {calls : List Resolve} {p q : VariableMode} (hp : Met api calls p)
    (h : Hop api.next p q) : Met api calls q := by
  obtain ⟨c, hc, hlead⟩ := hp
  exact ⟨c, hc, hlead.tail h⟩

/-- Ids without U+0000 are not mixed up. -/
theorem unmixed_of_nulFree (hnul : api.NulFree) {calls : List Resolve}
    (hcalls : ∀ c ∈ calls, Clean c.pair) (hcached : ∀ c ∈ calls, Cached api c.session) :
    Unmixed api clock (Met api calls) calls := by
  intro c hc _ f hf q _ hkey code hcode
  have hclean : Clean f.2 := of_leads (fun _ _ hp hhop => hp.hop hnul hhop) (hcalls c hc)
    (frames_lead (hcached c hc) hf)
  rwa [← memoKey_inj hclean hkey.symm]

/-- An answer of a pair, as far as it is a final error. -/
def FinalAnswer (api : FigmaVariables) (p : VariableMode) (r : AliasResolution) : Prop :=
  r.isFinal = true → api.unlimited p = some r

theorem eq_error_of_isFinal {r : AliasResolution} (h : r.isFinal = true) :
    ∃ code, r = .error code false := by
  cases r with
  | success value => cases h
  | error code retryable =>
      cases retryable with
      | true => cases h
      | false => exact ⟨code, rfl⟩

/-- A pair that shares its final error with those of its key may be memoised. -/
theorem Alone.fair {P : VariableMode → Prop} (hP : ∀ p q, P p → Hop api.next p q → P q)
    {p : VariableMode} (hp : P p) (h : Alone api P p) : Fair api P (FinalAnswer api) p where
  done r hr _ := unlimited_eq_some.2 (.done (List.not_mem_nil) hr)
  shared q r hq hkey hr hfinal := by
    obtain ⟨code, rfl⟩ := eq_error_of_isFinal hfinal
    exact h q hq hkey code (hr hfinal)
  around q hlead hkey _ := unlimited_of_around hlead hkey
  back q r hhop hq hfinal := by
    have hr := unlimited_eq_some.1 (hq hfinal)
    refine unlimited_eq_some.2 (.hop List.not_mem_nil hhop ?_)
    by_cases hcycle : r = .cycle
    · exact hr.cycle_of_subset next_ne_cycle hcycle (List.nil_subset _)
    · refine (hr.or_meets hcycle).resolve_right ?_
      rintro ⟨x, hlead, hkey, hx⟩
      -- The pair comes back to its own key, and is told a cycle; so is the pair it comes to.
      have hback := unlimited_of_around (TransGen.head' hhop hlead) hkey
      have hsame := h x (of_leads hP hp (.head hhop hlead)) hkey .limitExceeded hback
      exact hcycle (Option.some.inj ((unlimited_eq_some.2 hx).symm.trans hsame))

theorem Ran.cached {calls : List Resolve} {s : VariableSession} (h : api.Ran clock calls s) :
    Cached api s := by
  induction h with
  | start => exact cached_start
  | variable_ _ id ih => exact (lookupVariable_onward ih id).1
  | collection _ id ih => exact (lookupCollection_onward ih id).1
  | resolve _ hr ih => exact resolveFrom_cached ih hr

/-- Where the deadline takes nothing away and no pairs are mixed up, all final errors are right. -/
theorem Ran.sound {P : VariableMode → Prop} (hP : ∀ p q, P p → Hop api.next p q → P q)
    {calls : List Resolve} {s : VariableSession} (h : api.Ran clock calls s)
    (hcalls : ∀ c ∈ calls, P c.pair) (hharmless : Harmless api clock calls)
    (hunmixed : Unmixed api clock P calls) :
    MemoSound P (FinalAnswer api) s ∧ ∀ c ∈ calls, Right (FinalAnswer api) c.pair c.result := by
  induction h with
  | start => exact ⟨memoSound_start, List.forall_mem_nil _⟩
  | variable_ hs id ih =>
      have ⟨hmemo, hright⟩ := ih hcalls hharmless hunmixed
      exact ⟨hmemo.of_eq (lookupVariable_onward hs.cached id).2.memo, hright⟩
  | collection hs id ih =>
      have ⟨hmemo, hright⟩ := ih hcalls hharmless hunmixed
      exact ⟨hmemo.of_eq (lookupCollection_onward hs.cached id).2.memo, hright⟩
  | @resolve _ s t hs p fuel r hr ih =>
      have ⟨hpair, hpairs⟩ := List.forall_mem_cons.1 hcalls
      have ⟨hframes, hearlier⟩ := List.forall_mem_cons.1 hharmless
      have ⟨halone, hbefore⟩ := List.forall_mem_cons.1 hunmixed
      have ⟨hmemo, hright⟩ := ih hpairs hearlier hbefore
      cases hopen : api.openEnded clock fuel p [] s with
      | true =>
          have hlight := not_isFinal_of_openEnded hr hopen
          have hanswer : ∀ q, Right (FinalAnswer api) q r := fun q =>
            Or.inr fun hfinal => absurd (hlight.symm.trans hfinal) Bool.false_ne_true
          refine ⟨fun q hq x hx => ?_, List.forall_mem_cons.2 ⟨hanswer p, hright⟩⟩
          rcases resolveFrom_adds hs.cached hr hx with hold | rfl
          · exact hmemo q hq x hold
          · exact hanswer q
      | false =>
          have hlead : ∀ f ∈ api.frames clock fuel p [] s, P f.2 := fun f hf =>
            of_leads hP hpair (frames_lead hs.cached hf)
          have ⟨hmemo', hright'⟩ := resolveFrom_sound hP hs.cached hpair (List.forall_mem_nil _) hr
            hmemo fun f hf =>
              ⟨(halone hopen f hf).fair hP (hlead f hf), fun hcut _ => hframes f hf hcut⟩
          exact ⟨hmemo', List.forall_mem_cons.2 ⟨hright', hright⟩⟩

/-- What a call has memoised is still memoised after the read. -/
theorem Ran.memo {calls : List Resolve} {s : VariableSession} (h : api.Ran clock calls s)
    {c : Resolve} (hc : c ∈ calls)
    (hclosed : api.openEnded clock c.fuel c.pair [] c.session = false)
    {f : VariableSession × VariableMode} (hf : f ∈ api.frames clock c.fuel c.pair [] c.session) :
    s.memo.get (memoKey f.2) = some c.result := by
  induction h with
  | start => cases hc
  | variable_ hs id ih =>
      rw [(lookupVariable_onward hs.cached id).2.memo]
      exact ih hc
  | collection hs id ih =>
      rw [(lookupCollection_onward hs.cached id).2.memo]
      exact ih hc
  | resolve hs hr ih =>
      rcases List.mem_cons.1 hc with rfl | hc
      · exact frames_memo hr hclosed f hf
      · exact resolveFrom_memo hs.cached hr (ih hc)

/-- The call of a list of calls, as it was made. -/
theorem Ran.made {calls : List Resolve} {s : VariableSession} (h : api.Ran clock calls s)
    {c : Resolve} (hc : c ∈ calls) :
    Cached api c.session ∧
      ∃ t, api.resolveFrom clock c.fuel c.pair [] c.session = some (c.result, t) := by
  induction h with
  | start => cases hc
  | variable_ _ _ ih => exact ih hc
  | collection _ _ ih => exact ih hc
  | @resolve _ _ t hs _ _ _ hr ih =>
      rcases List.mem_cons.1 hc with rfl | hc
      · exact ⟨hs.cached, t, hr⟩
      · exact ih hc

/-- **Where a final error is one.** Every final error that a read has been given, or that its memo
holds, is the one that the pair has without a deadline, if and only if the deadline cuts no chain
short that would not end with a missing node, and no pair is looked up, in a call that is not open
in the end, whose final error another pair of the read with the same key does not have. -/
theorem definite_iff {calls : List Resolve} {s : VariableSession} (h : api.Ran clock calls s) :
    Definite api calls s ↔
      Harmless api clock calls ∧ Unmixed api clock (Met api calls) calls := by
  have hmet : ∀ c ∈ calls, Met api calls c.pair := fun c hc => ⟨c, hc, .refl⟩
  have hlooked : ∀ c ∈ calls, ∀ f ∈ api.frames clock c.fuel c.pair [] c.session,
      Met api calls f.2 := fun c hc f hf => ⟨c, hc, frames_lead (h.made hc).1 hf⟩
  constructor
  · intro hdefinite
    refine ⟨fun c hc f hf hcut => ?_, fun c hc hclosed f hf q hq hkey code hcode => ?_⟩
    · obtain ⟨hcached, t, hr⟩ := h.made hc
      obtain ⟨hclosed, hmissing⟩ := frames_cutShort hcached hr hf hcut
      exact hdefinite.memoised f.2 (hlooked c hc f hf) .nodeNotFound
        ((h.memo hc hclosed hf).trans (congrArg some hmissing))
    · obtain ⟨hcached, t, hr⟩ := h.made hc
      have hmemo := h.memo hc hclosed hf
      cases hfinal : c.result.isFinal with
      | true =>
          obtain ⟨other, hother⟩ := eq_error_of_isFinal hfinal
          rw [hother] at hmemo
          have hp := hdefinite.memoised f.2 (hlooked c hc f hf) other hmemo
          rw [hcode] at hp
          obtain rfl : other = code := (AliasResolution.error.inj (Option.some.inj hp)).1.symm
          exact hdefinite.memoised q hq other (hkey ▸ hmemo)
      | false =>
          have hkeyed := (keyed_of_closed hcached hr hclosed hfinal).2 f hf
          rw [unlimited_eq_some.2 hkeyed] at hcode
          rw [Option.some.inj hcode] at hfinal
          cases hfinal
  · rintro ⟨hharmless, hunmixed⟩
    have ⟨hmemo, hright⟩ := h.sound (fun _ _ => met_hop) hmet hharmless hunmixed
    refine ⟨fun c hc code hcode => ?_, fun p hp code hcode => ?_⟩
    · rcases hright c hc with hlate | hanswer
      · cases hcode.symm.trans hlate
      · exact hcode ▸ hanswer (hcode ▸ rfl)
    · rcases hmemo p hp _ hcode with hlate | hanswer
      · cases hlate
      · exact hanswer rfl

/-- `a` is resolved in a new session, and the deadline passes when the collection of `b` is to be
looked up. -/
def lateCall : Resolve := ⟨{}, (text "a", text "light"), 3, .missing⟩

theorem ran_lateCall : ∃ t, themed.Ran (fun n => n == 4) [lateCall] t :=
  ⟨_, .resolve (r := .missing) .start rfl⟩

theorem not_definite_lateCall (t : VariableSession) : ¬ Definite themed [lateCall] t := by
  intro h
  have hfinal := h.returned lateCall List.mem_cons_self .nodeNotFound rfl
  have hvalue : themed.unlimited lateCall.pair = some (.success (.float 8)) := rfl
  rw [hvalue] at hfinal
  cases hfinal

/-- The variable has a value, and is answered to be missing. -/
theorem definite_fails_late : ¬ ∀ (api : FigmaVariables) (clock : Clock) (calls : List Resolve)
    (s : VariableSession), api.Ran clock calls s → Definite api calls s := by
  intro h
  obtain ⟨t, ht⟩ := ran_lateCall
  exact not_definite_lateCall t (h themed _ _ t ht)

theorem definite_iff_late :
    ¬ Harmless themed (fun n => n == 4) [lateCall] ∧
      Unmixed themed (fun n => n == 4) (Met themed [lateCall]) [lateCall] := by
  obtain ⟨t, ht⟩ := ran_lateCall
  have hunmixed : Unmixed themed (fun n => n == 4) (Met themed [lateCall]) [lateCall] :=
    unmixed_of_nulFree nulFree_themed (List.forall_mem_singleton.2 clean_themed)
      (List.forall_mem_singleton.2 cached_start)
  exact ⟨fun hharmless => not_definite_lateCall t ((definite_iff ht).2 ⟨hharmless, hunmixed⟩),
    hunmixed⟩

end FigmaVariables

end FigmaDevMcp

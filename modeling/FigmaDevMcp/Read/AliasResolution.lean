import FigmaDevMcp.Read.VariableSession

set_option autoImplicit false

/-!
# Resolving aliases

The memo, the stack of the chain and the fallback of modes, together: a session answers for each
pair what following its chain gives, whatever it has answered before.

* `lookupVariable_spec`, `lookupCollection_spec`, `visit_spec`: what one lookup can do;
* `CutShort`: a lookup of a collection that the deadline takes away;
* `Fair`, `MemoSound`, `resolveFrom_sound`: **what the memo holds**;
* `resolveFrom_isSome`: **resolution terminates**;
* `resolve_faithful_iff`: what a session answers where the deadline does not pass, and where that is
  what it should.
-/

namespace FigmaDevMcp

open JsValue Chain Relation

/-! ## One lookup -/

namespace VariableSession

/-- A step that leaves the memo as it is. The deadline stays passed. -/
structure Onward (s t : VariableSession) : Prop where
  memo : t.memo = s.memo
  tripped : s.tripped = true → t.tripped = true

theorem Onward.refl (s : VariableSession) : Onward s s := ⟨rfl, id⟩

theorem Onward.trans {s t u : VariableSession} (h : Onward s t) (h' : Onward t u) : Onward s u :=
  ⟨h'.memo.trans h.memo, h'.tripped ∘ h.tripped⟩

variable {clock : Clock} {s t : VariableSession} {late : Bool}

/-- Reading the clock. -/
theorem expired_spec (h : s.expired clock = (late, t)) :
    Onward s t ∧ late = t.tripped ∧ t.variableCache = s.variableCache ∧
      t.collectionCache = s.collectionCache := by
  rw [expired] at h
  by_cases htripped : s.tripped = true
  · rw [if_pos htripped] at h
    obtain ⟨rfl, rfl⟩ := Prod.mk.inj h
    exact ⟨.refl s, htripped.symm, rfl, rfl⟩
  · rw [if_neg htripped] at h
    obtain ⟨rfl, rfl⟩ := Prod.mk.inj h
    exact ⟨⟨rfl, fun h => absurd h htripped⟩, rfl, rfl, rfl⟩

end VariableSession

namespace FigmaVariables

open VariableSession

variable {api : FigmaVariables} {clock : Clock}

/-- The caches hold what the host answers. -/
structure Cached (api : FigmaVariables) (s : VariableSession) : Prop where
  variable_ : ∀ id value, s.variableCache.get id = some value → value = api.variableOf id
  collection : ∀ id value, s.collectionCache.get id = some value → value = api.collectionOf id

theorem Cached.of_eq {s t : VariableSession} (h : Cached api s)
    (hvariables : t.variableCache = s.variableCache)
    (hcollections : t.collectionCache = s.collectionCache) : Cached api t :=
  ⟨hvariables ▸ h.variable_, hcollections ▸ h.collection⟩

theorem lookupVariable_spec {s t : VariableSession} {id : JsString} {value : Option JsValue}
    (hs : Cached api s) (h : api.lookupVariable clock id s = (value, t)) :
    Cached api t ∧ Onward s t ∧
      (value = api.variableOf id ∧ (s.tripped = false → t.tripped = false) ∨
        value = none ∧ t.tripped = true) := by
  rw [lookupVariable] at h
  cases hcache : s.variableCache.get id with
  | some cached =>
      rw [hcache] at h
      obtain ⟨rfl, rfl⟩ := Prod.mk.inj h
      exact ⟨hs, .refl s, Or.inl ⟨hs.variable_ id cached hcache, fun h => h⟩⟩
  | none =>
      rw [hcache] at h
      cases hexpired : s.expired clock with
      | mk late u =>
          have ⟨honward, hlate, hvariables, hcollections⟩ := expired_spec hexpired
          have hu := hs.of_eq hvariables hcollections
          simp only [hexpired] at h
          cases late with
          | true =>
              obtain ⟨rfl, rfl⟩ := Prod.mk.inj h
              exact ⟨hu, honward, Or.inr ⟨rfl, hlate.symm⟩⟩
          | false =>
              obtain ⟨rfl, rfl⟩ := Prod.mk.inj h
              refine ⟨⟨fun other value hget => ?_, hu.collection⟩, ⟨honward.memo, honward.tripped⟩,
                Or.inl ⟨rfl, fun _ => hlate.symm⟩⟩
              rw [JsMap.get_set] at hget
              by_cases hid : other = id
              · rw [if_pos hid] at hget
                rw [← Option.some.inj hget, hid]
                rfl
              · rw [if_neg hid] at hget
                exact hu.variable_ other value hget

theorem lookupCollection_spec {s t : VariableSession} {id : JsString} {value : Option JsValue}
    (hs : Cached api s) (h : api.lookupCollection clock id s = (value, t)) :
    Cached api t ∧ Onward s t ∧
      (value = api.collectionOf id ∧ (s.tripped = false → t.tripped = false) ∨
        value = none ∧ t.tripped = true) := by
  rw [lookupCollection] at h
  cases hcache : s.collectionCache.get id with
  | some cached =>
      rw [hcache] at h
      obtain ⟨rfl, rfl⟩ := Prod.mk.inj h
      exact ⟨hs, .refl s, Or.inl ⟨hs.collection id cached hcache, fun h => h⟩⟩
  | none =>
      rw [hcache] at h
      cases hexpired : s.expired clock with
      | mk late u =>
          have ⟨honward, hlate, hvariables, hcollections⟩ := expired_spec hexpired
          have hu := hs.of_eq hvariables hcollections
          simp only [hexpired] at h
          cases late with
          | true =>
              obtain ⟨rfl, rfl⟩ := Prod.mk.inj h
              exact ⟨hu, honward, Or.inr ⟨rfl, hlate.symm⟩⟩
          | false =>
              cases hlookup : api.getVariableCollectionByIdAsync with
              | none =>
                  simp only [hlookup] at h
                  obtain ⟨rfl, rfl⟩ := Prod.mk.inj h
                  refine ⟨hu, honward, Or.inl ⟨?_, fun _ => hlate.symm⟩⟩
                  rw [collectionOf, hlookup]
                  rfl
              | some lookup =>
                  simp only [hlookup] at h
                  obtain ⟨rfl, rfl⟩ := Prod.mk.inj h
                  have hvalue : settle (lookup id) = api.collectionOf id := by
                    rw [collectionOf, hlookup]
                    rfl
                  refine ⟨⟨hu.variable_, fun other value hget => ?_⟩,
                    ⟨honward.memo, honward.tripped⟩, Or.inl ⟨hvalue, fun _ => hlate.symm⟩⟩
                  rw [JsMap.get_set] at hget
                  by_cases hid : other = id
                  · rw [if_pos hid] at hget
                    rw [← Option.some.inj hget, hid, hvalue]
                  · rw [if_neg hid] at hget
                    exact hu.collection other value hget

theorem lookupVariable_onward {s : VariableSession} (hs : Cached api s) (id : JsString) :
    Cached api (api.lookupVariable clock id s).2 ∧ Onward s (api.lookupVariable clock id s).2 :=
  (lookupVariable_spec hs (rfl : api.lookupVariable clock id s = (_, _))).imp_right And.left

theorem lookupCollection_onward {s : VariableSession} (hs : Cached api s) (id : JsString) :
    Cached api (api.lookupCollection clock id s).2 ∧ Onward s (api.lookupCollection clock id s).2 :=
  (lookupCollection_spec hs (rfl : api.lookupCollection clock id s = (_, _))).imp_right And.left

/-! ## One variable of a chain -/

/-- The variable has no value in its mode, and the deadline has passed when its collection is to be
looked up. -/
def CutShort (api : FigmaVariables) (clock : Clock) (s : VariableSession) (p : VariableMode) : Prop :=
  ∃ raw, (api.lookupVariable clock p.1 s).1 = some raw ∧
    isUndefined ((valuesByMode raw).property p.2) = true ∧
    (api.lookupCollection clock (collectionId raw) (api.lookupVariable clock p.1 s).2).2.tripped =
      true

theorem next_of_variableOf {p : VariableMode} {raw : JsValue} (h : api.variableOf p.1 = some raw) :
    api.next p = verdict ((valuesByMode raw).property (api.modeOf raw p.2)) (api.modeOf raw p.2) := by
  rw [next, h]

/-- **What looking up one variable comes to**: what the pair leads to, except past the deadline. -/
theorem visit_spec {s t : VariableSession} {p : VariableMode} {x : Visit} (hs : Cached api s)
    (h : api.visit clock p s = (x, t)) :
    Cached api t ∧ Onward s t ∧
      (x = .exhausted ∧ t.tripped = true ∨ x = .of (api.next p) ∨
        CutShort api clock s p ∧ x = .answer .missing) := by
  rw [visit] at h
  cases hlookup : api.lookupVariable clock p.1 s with
  | mk found u =>
      have ⟨hu, honward, hfound⟩ := lookupVariable_spec hs hlookup
      rw [hlookup] at h
      cases found with
      | none =>
          obtain ⟨rfl, rfl⟩ := Prod.mk.inj h
          refine ⟨hu, honward, ?_⟩
          by_cases htripped : u.tripped = true
          · exact Or.inl ⟨if_pos htripped, htripped⟩
          · refine Or.inr (Or.inl ((if_neg htripped).trans ?_))
            have hnone := (hfound.resolve_right fun h => htripped h.2).1
            rw [next, ← hnone]
            rfl
      | some raw =>
          have hraw : api.variableOf p.1 = some raw :=
            (hfound.resolve_right fun h => Option.some_ne_none raw h.1).1.symm
          dsimp only at h
          by_cases hundefined : isUndefined ((valuesByMode raw).property p.2) = true
          · rw [if_pos hundefined] at h
            cases hcollection : api.lookupCollection clock (collectionId raw) u with
            | mk collection v =>
                have ⟨hv, honward', hanswer⟩ := lookupCollection_spec hu hcollection
                rw [hcollection] at h
                obtain ⟨rfl, rfl⟩ := Prod.mk.inj h
                refine ⟨hv, honward.trans honward', Or.inr ?_⟩
                rcases hanswer with ⟨rfl, _⟩ | ⟨rfl, htripped⟩
                · have hmode : api.modeOf raw p.2 =
                      fallbackMode (api.collectionOf (collectionId raw)) p.2 := if_pos hundefined
                  refine Or.inl ?_
                  rw [next_of_variableOf hraw, hmode]
                · refine Or.inr ⟨⟨raw, ?_, hundefined, ?_⟩, ?_⟩
                  · rw [hlookup]
                  · rw [hlookup, hcollection]
                    exact htripped
                  · show Visit.of (verdict ((valuesByMode raw).property p.2) p.2) = _
                    rw [verdict, if_pos hundefined]
                    rfl
          · rw [if_neg hundefined] at h
            obtain ⟨rfl, rfl⟩ := Prod.mk.inj h
            have hmode : api.modeOf raw p.2 = p.2 := if_neg hundefined
            refine ⟨hu, honward, Or.inr (Or.inl ?_)⟩
            rw [next_of_variableOf hraw, hmode]

theorem clean_fallbackMode (hnul : api.NulFree) {id mode : JsString} (h : 0 ∉ mode) :
    0 ∉ fallbackMode (api.collectionOf id) mode := by
  rw [fallbackMode, recordOf]
  cases hcollection : api.collectionOf id with
  | none => exact h
  | some collection =>
      cases hfield : (record collection).field "defaultModeId" with
      | string s =>
          show 0 ∉ stringOr ((record collection).field "defaultModeId") mode
          rw [hfield]
          exact hnul.mode id collection s hcollection hfield
      | _ =>
          show 0 ∉ stringOr ((record collection).field "defaultModeId") mode
          rw [hfield]
          exact h

theorem alias_of_verdict {source : JsValue} {mode : JsString} {q : VariableMode}
    (h : verdict source mode = .inl q) : aliasId source = some q.1 ∧ mode = q.2 := by
  rw [verdict] at h
  by_cases hundefined : isUndefined source = true
  · rw [if_pos hundefined] at h
    cases h
  · rw [if_neg hundefined] at h
    cases halias : aliasId source with
    | some id =>
        rw [halias] at h
        obtain rfl := Sum.inl.inj h
        exact ⟨rfl, rfl⟩
    | none =>
        rw [halias] at h
        cases hvalue : normalizeValue source <;> rw [hvalue] at h <;> cases h

/-- The mode that an alias is resolved in. -/
theorem mode_of_hop {p q : VariableMode} (h : Hop api.next p q) :
    ∃ raw, api.variableOf p.1 = some raw ∧ q.2 = api.modeOf raw p.2 ∧
      aliasId ((valuesByMode raw).property q.2) = some q.1 := by
  cases hraw : api.variableOf p.1 with
  | none =>
      rw [Hop, next, hraw] at h
      cases h
  | some raw =>
      obtain ⟨halias, hmode⟩ := alias_of_verdict ((next_of_variableOf hraw).symm.trans h)
      exact ⟨raw, rfl, hmode.symm, hmode ▸ halias⟩

theorem Clean.hop (hnul : api.NulFree) {p q : VariableMode} (hp : Clean p)
    (h : Hop api.next p q) : Clean q := by
  obtain ⟨raw, hraw, hmode, halias⟩ := mode_of_hop h
  refine ⟨hnul.alias_ p.1 raw q.2 q.1 hraw halias, ?_⟩
  rw [hmode, modeOf]
  by_cases hundefined : isUndefined ((valuesByMode raw).property p.2) = true
  · rw [if_pos hundefined]
    exact clean_fallbackMode hnul hp.2
  · rw [if_neg hundefined]
    exact hp.2

/-- What the steps of a chain keep, the chain keeps. -/
theorem of_leads {P : VariableMode → Prop} (hP : ∀ p q, P p → Hop api.next p q → P q)
    {p q : VariableMode} (hp : P p) (h : ReflTransGen (Hop api.next) p q) : P q := by
  induction h with
  | refl => exact hp
  | tail _ hhop ih => exact hP _ _ ih hhop

/-- Without U+0000 the key of a pair determines it. -/
theorem memoKey_inj {p q : VariableMode} (hp : Clean p) (h : memoKey p = memoKey q) : p = q := by
  have ⟨hvariable, _, hmode⟩ := (List.append_cons_inj_of_notMem hp.1 hp.2).1 h
  exact Prod.ext hvariable hmode

theorem verdict_cases {source : JsValue} {mode : JsString} {r : AliasResolution}
    (h : verdict source mode = .inr r) : r = .missing ∨ ∃ value, r = .success value := by
  simp only [verdict] at h
  split_ifs at h
  · exact Or.inl (Sum.inr.inj h).symm
  · split at h
    · cases h
    · split at h
      · exact Or.inl (Sum.inr.inj h).symm
      · exact Or.inr ⟨_, (Sum.inr.inj h).symm⟩

/-- A chain ends with a value or a missing node. -/
theorem next_cases {p : VariableMode} {r : AliasResolution} (h : api.next p = .inr r) :
    r = .missing ∨ ∃ value, r = .success value := by
  cases hraw : api.variableOf p.1 with
  | none =>
      rw [next, hraw] at h
      exact Or.inl (Sum.inr.inj h).symm
  | some raw => exact verdict_cases ((next_of_variableOf hraw).symm.trans h)

theorem next_ne_exhausted {p : VariableMode} {r : AliasResolution} (h : api.next p = .inr r) :
    r ≠ .exhausted := by
  rcases next_cases h with rfl | ⟨value, rfl⟩ <;> exact nofun

theorem next_ne_cycle (p : VariableMode) : api.next p ≠ .inr .cycle := by
  intro h
  rcases next_cases h with h | ⟨value, h⟩ <;> cases h

/-! ## The memo -/

/-- A pair of which an answer may be memoised: it is that of where the pair leads, it serves the
pairs `P` of the same key, and a chain that comes to the key again is a cycle. -/
structure Fair (api : FigmaVariables) (P : VariableMode → Prop)
    (A : VariableMode → AliasResolution → Prop) (p : VariableMode) : Prop where
  back : ∀ q r, Hop api.next p q → A q r → A p r
  done : ∀ r, api.next p = .inr r → A p r
  shared : ∀ q r, P q → memoKey q = memoKey p → A p r → A q r
  around : ∀ q, TransGen (Hop api.next) p q → memoKey q = memoKey p → A p .cycle

/-- Without U+0000 each pair has its own key. -/
theorem Clean.fair {p : VariableMode} (hp : Clean p) :
    Fair api Clean api.Resolution p where
  back _ _ hhop hq := hq.hop hhop
  done _ h := Or.inl (.done h)
  shared q r hq hkey h := memoKey_inj hq hkey ▸ h
  around q hlead hkey := by
    obtain rfl := memoKey_inj hp hkey.symm
    exact Or.inr ⟨⟨p, .refl, hlead⟩, rfl⟩

variable {P : VariableMode → Prop} {A : VariableMode → AliasResolution → Prop}

/-- An answer is one of the pair, or that the deadline has passed. -/
def Right (A : VariableMode → AliasResolution → Prop) (p : VariableMode) (r : AliasResolution) :
    Prop :=
  r = .exhausted ∨ A p r

/-- What the memo holds for the pairs is right. -/
def MemoSound (P : VariableMode → Prop) (A : VariableMode → AliasResolution → Prop)
    (s : VariableSession) : Prop :=
  ∀ p, P p → ∀ r, s.memo.get (memoKey p) = some r → Right A p r

theorem MemoSound.of_eq {s t : VariableSession} (h : MemoSound P A s) (hmemo : t.memo = s.memo) :
    MemoSound P A t := by
  rwa [MemoSound, hmemo]

theorem MemoSound.memoise {s : VariableSession} {p : VariableMode} (hp : Fair api P A p)
    (h : MemoSound P A s) {r : AliasResolution} (hr : Right A p r) :
    MemoSound P A (s.memoise p r) := by
  intro q hq x hx
  rw [VariableSession.memoise, JsMap.get_set] at hx
  by_cases hkey : memoKey q = memoKey p
  · rw [if_pos hkey] at hx
    obtain rfl := Option.some.inj hx
    exact hr.imp id (hp.shared q r hq hkey)
  · rw [if_neg hkey] at hx
    exact h q hq x hx

theorem Cached.memoise {s : VariableSession} (h : Cached api s) (p : VariableMode)
    (r : AliasResolution) : Cached api (s.memoise p r) :=
  h.of_eq rfl rfl

theorem enter_spec {s t : VariableSession} {p : VariableMode} {stack : List JsString}
    {x : Option AliasResolution} (h : enter clock p stack s = (x, t)) :
    Onward s t ∧ t.variableCache = s.variableCache ∧ t.collectionCache = s.collectionCache ∧
      (∀ r, x = some r → s.memo.get (memoKey p) = some r ∨ r = .exhausted ∧ t.tripped = true ∨
        r = .cycle ∧ memoKey p ∈ stack) ∧
      (x = none → t.tripped = false ∧ memoKey p ∉ stack) := by
  rw [enter] at h
  cases hmemo : s.memo.get (memoKey p) with
  | some r =>
      rw [hmemo] at h
      obtain ⟨rfl, rfl⟩ := Prod.mk.inj h
      exact ⟨.refl s, rfl, rfl, fun r' hr => Or.inl hr, nofun⟩
  | none =>
      rw [hmemo] at h
      cases hexpired : s.expired clock with
      | mk late u =>
          have ⟨honward, hlate, hvariables, hcollections⟩ := expired_spec hexpired
          simp only [hexpired] at h
          cases late with
          | true =>
              obtain ⟨rfl, rfl⟩ := Prod.mk.inj h
              exact ⟨honward, hvariables, hcollections,
                fun r hr => Or.inr (Or.inl ⟨(Option.some.inj hr).symm, hlate.symm⟩), nofun⟩
          | false =>
              rw [if_neg Bool.false_ne_true] at h
              by_cases hstack : memoKey p ∈ stack
              · rw [if_pos hstack] at h
                obtain ⟨rfl, rfl⟩ := Prod.mk.inj h
                exact ⟨honward, hvariables, hcollections,
                  fun r hr => Or.inr (Or.inr ⟨(Option.some.inj hr).symm, hstack⟩), nofun⟩
              · rw [if_neg hstack] at h
                obtain ⟨rfl, rfl⟩ := Prod.mk.inj h
                exact ⟨honward, hvariables, hcollections, nofun, fun _ => ⟨hlate.symm, hstack⟩⟩

/-! ## The chain -/

variable (api clock) in
/-- The sessions in which `resolveFrom` looks a variable up, with the pair it does so for. -/
def frames : ℕ → VariableMode → List JsString → VariableSession →
    List (VariableSession × VariableMode)
  | 0, _, _, _ => []
  | fuel + 1, p, stack, s =>
    match enter clock p stack s with
    | (some _, _) => []
    | (none, s) => (s, p) ::
      match api.visit clock p s with
      | (.alias_ q, s) => frames fuel q (memoKey p :: stack) s
      | _ => []

/-- The keys on the stack are those of pairs that lead to the pair. -/
def OnChain (api : FigmaVariables) (F : VariableMode → Prop) (stack : List JsString)
    (p : VariableMode) : Prop :=
  ∀ k ∈ stack, ∃ q, F q ∧ memoKey q = k ∧ TransGen (Hop api.next) q p

theorem OnChain.hop {F : VariableMode → Prop} {stack : List JsString} {p q : VariableMode}
    (h : OnChain api F stack p) (hp : F p) (hhop : Hop api.next p q) :
    OnChain api F (memoKey p :: stack) q := by
  refine List.forall_mem_cons.2 ⟨⟨p, hp, rfl, .single hhop⟩, fun k hk => ?_⟩
  obtain ⟨x, hx, hkey, hlead⟩ := h k hk
  exact ⟨x, hx, hkey, hlead.tail hhop⟩

/-- An alias that a visit gives is where the pair leads. -/
theorem hop_of_visit {s t : VariableSession} {p q : VariableMode}
    (h : Visit.alias_ q = .exhausted ∧ t.tripped = true ∨ Visit.alias_ q = .of (api.next p) ∨
      CutShort api clock s p ∧ Visit.alias_ q = .answer .missing) : Hop api.next p q := by
  rcases h with ⟨h, _⟩ | h | ⟨_, h⟩
  · cases h
  · rw [Hop]
    cases hnext : api.next p with
    | inl x =>
        rw [hnext] at h
        exact congrArg Sum.inl (Visit.alias_.inj h).symm
    | inr r =>
        rw [hnext] at h
        cases h
  · cases h

theorem result_of_visit {x : VariableMode ⊕ AliasResolution} {r : AliasResolution}
    (h : Visit.answer r = .of x) : x = .inr r := by
  cases x with
  | inl p => cases h
  | inr r' => exact congrArg Sum.inr (Visit.answer.inj h).symm

/-- A variable is looked up for pairs of the chain. -/
theorem frames_lead {fuel : ℕ} {p : VariableMode} {stack : List JsString} {s : VariableSession}
    (hs : Cached api s) {f : VariableSession × VariableMode}
    (h : f ∈ api.frames clock fuel p stack s) : ReflTransGen (Hop api.next) p f.2 := by
  induction fuel generalizing p stack s with
  | zero => cases h
  | succ fuel ih =>
      rw [frames] at h
      cases henter : enter clock p stack s with
      | mk y u =>
          obtain ⟨_, hvariables, hcollections, _⟩ := enter_spec henter
          have hu := hs.of_eq hvariables hcollections
          rw [henter] at h
          cases y with
          | some early => cases h
          | none =>
              rcases List.mem_cons.1 h with rfl | h
              · exact .refl
              · cases hvisit : api.visit clock p u with
                | mk y v =>
                    obtain ⟨hv, _, hy⟩ := visit_spec hu hvisit
                    rw [hvisit] at h
                    cases y with
                    | exhausted => cases h
                    | answer r => cases h
                    | alias_ q => exact .head (hop_of_visit hy) (ih hv h)

/-- The caches stay right. -/
theorem resolveFrom_cached {fuel : ℕ} {p : VariableMode} {stack : List JsString}
    {s t : VariableSession} {r : AliasResolution} (hs : Cached api s)
    (h : api.resolveFrom clock fuel p stack s = some (r, t)) : Cached api t := by
  induction fuel generalizing p stack s t r with
  | zero => cases h
  | succ fuel ih =>
      rw [resolveFrom] at h
      cases henter : enter clock p stack s with
      | mk x u =>
          have ⟨_, hvariables, hcollections, _⟩ := enter_spec henter
          have hu := hs.of_eq hvariables hcollections
          rw [henter] at h
          cases x with
          | some early =>
              obtain ⟨rfl, rfl⟩ := Prod.mk.inj (Option.some.inj h)
              exact hu
          | none =>
              cases hvisit : api.visit clock p u with
              | mk x v =>
                  have hv := (visit_spec hu hvisit).1
                  simp only [hvisit] at h
                  cases x with
                  | exhausted =>
                      obtain ⟨rfl, rfl⟩ := Prod.mk.inj (Option.some.inj h)
                      exact hv
                  | answer x =>
                      obtain ⟨rfl, rfl⟩ := Prod.mk.inj (Option.some.inj h)
                      exact hv.memoise p _
                  | alias_ q =>
                      obtain ⟨⟨r', w⟩, hresolve, hrt⟩ := Option.map_eq_some_iff.1 h
                      obtain ⟨rfl, rfl⟩ := Prod.mk.inj hrt
                      exact (ih hv hresolve).memoise p _

/-- **What the memo holds** is right, and so is what is answered, where the pairs looked up may be
memoised and the deadline takes no other answer away than a missing node. -/
theorem resolveFrom_sound (hP : ∀ p q, P p → Hop api.next p q → P q) {fuel : ℕ} {p : VariableMode}
    {stack : List JsString} {s t : VariableSession} {r : AliasResolution} (hs : Cached api s)
    (hp : P p) (hstack : OnChain api (Fair api P A) stack p)
    (h : api.resolveFrom clock fuel p stack s = some (r, t)) (hmemo : MemoSound P A s)
    (hframes : ∀ f ∈ api.frames clock fuel p stack s,
      Fair api P A f.2 ∧ (CutShort api clock f.1 f.2 → A f.2 .missing)) :
    MemoSound P A t ∧ Right A p r := by
  induction fuel generalizing p stack s t r with
  | zero => cases h
  | succ fuel ih =>
      rw [resolveFrom] at h
      rw [frames] at hframes
      cases henter : enter clock p stack s with
      | mk x u =>
          have ⟨honward, hvariables, hcollections, hsome, _⟩ := enter_spec henter
          have hu := hs.of_eq hvariables hcollections
          rw [henter] at h hframes
          cases x with
          | some early =>
              obtain ⟨rfl, rfl⟩ := Prod.mk.inj (Option.some.inj h)
              refine ⟨hmemo.of_eq honward.memo, ?_⟩
              rcases hsome _ rfl with hget | ⟨rfl, _⟩ | ⟨rfl, hkey⟩
              · exact hmemo p hp _ hget
              · exact Or.inl rfl
              · obtain ⟨q, hq, hkey, hlead⟩ := hstack _ hkey
                exact Or.inr (hq.shared p .cycle hp hkey.symm (hq.around p hlead hkey.symm))
          | none =>
              have ⟨hfair, hcutShort⟩ := hframes _ List.mem_cons_self
              cases hvisit : api.visit clock p u with
              | mk x v =>
                  have ⟨hv, honward', hx⟩ := visit_spec hu hvisit
                  have hmemoV := hmemo.of_eq (honward.trans honward').memo
                  simp only [hvisit] at h hframes
                  cases x with
                  | exhausted =>
                      obtain ⟨rfl, rfl⟩ := Prod.mk.inj (Option.some.inj h)
                      exact ⟨hmemoV, Or.inl rfl⟩
                  | answer x =>
                      obtain ⟨rfl, rfl⟩ := Prod.mk.inj (Option.some.inj h)
                      have hright : Right A p x := by
                        rcases hx with ⟨h, _⟩ | h | ⟨hcut, h⟩
                        · cases h
                        · exact Or.inr (hfair.done x (result_of_visit h))
                        · obtain rfl := Visit.answer.inj h
                          exact Or.inr (hcutShort hcut)
                      exact ⟨hmemoV.memoise hfair hright, hright⟩
                  | alias_ q =>
                      obtain ⟨⟨r', w⟩, hresolve, hrt⟩ := Option.map_eq_some_iff.1 h
                      obtain ⟨rfl, rfl⟩ := Prod.mk.inj hrt
                      have hhop := hop_of_visit hx
                      have ⟨hmemoW, hright⟩ := ih hv (hP p q hp hhop) (hstack.hop hfair hhop)
                        hresolve hmemoV fun f hf => hframes f (List.mem_cons_of_mem _ hf)
                      have hrightP : Right A p r' := hright.imp id (hfair.back q r' hhop)
                      exact ⟨hmemoW.memoise hfair hrightP, hrightP⟩

/-! ## Termination -/

theorem fallbackMode_cases (collection : Option JsValue) (mode : JsString) :
    fallbackMode collection mode = mode ∨
      fallbackMode collection mode = fallbackMode collection [] := by
  rw [fallbackMode, fallbackMode]
  cases (recordOf collection).field "defaultModeId" with
  | string s => exact Or.inr rfl
  | _ => exact Or.inl rfl

variable (api) in
/-- The modes that a variable of the host may fall back to. -/
def defaultModes : List JsString :=
  api.ids.map fun id => fallbackMode (api.collectionOf (collectionId ((api.variableOf id).getD .null))) []

variable (api) in
/-- The keys of the pairs that a chain from a mode may go on from. -/
def chainKeys (mode : JsString) : List JsString :=
  (api.ids ×ˢ (mode :: api.defaultModes)).map memoKey

variable (api) in
/-- Calls enough for a chain from the pair. -/
def fuel (p : VariableMode) : ℕ := (api.chainKeys p.2).length + 1

theorem hop_mem {mode : JsString} {p q : VariableMode} (h : Hop api.next p q)
    (hmode : p.2 ∈ mode :: api.defaultModes) :
    memoKey p ∈ api.chainKeys mode ∧ q.2 ∈ mode :: api.defaultModes := by
  obtain ⟨raw, hraw, hq, _⟩ := mode_of_hop h
  have hid : p.1 ∈ api.ids :=
    api.mem_ids p.1 fun hnone => Option.some_ne_none raw (hraw.symm.trans hnone)
  refine ⟨List.mem_map.2 ⟨p, List.mem_product.2 ⟨hid, hmode⟩, rfl⟩, ?_⟩
  rw [hq, modeOf]
  by_cases hundefined : isUndefined ((valuesByMode raw).property p.2) = true
  · rw [if_pos hundefined]
    rcases fallbackMode_cases (api.collectionOf (collectionId raw)) p.2 with heq | heq
    · rwa [heq]
    · rw [heq]
      refine List.mem_cons_of_mem _ (List.mem_map.2 ⟨p.1, hid, ?_⟩)
      rw [hraw]
      rfl
  · rwa [if_neg hundefined]

/-- **Resolution terminates**: each call puts one more key of finitely many on the stack. -/
theorem resolveFrom_isSome {mode : JsString} {n : ℕ} {p : VariableMode} {stack : List JsString}
    {s : VariableSession} (hs : Cached api s) (hmode : p.2 ∈ mode :: api.defaultModes)
    (hnodup : stack.Nodup) (hstack : ∀ k ∈ stack, k ∈ api.chainKeys mode)
    (hn : (api.chainKeys mode).length < n + stack.length) :
    (api.resolveFrom clock n p stack s).isSome = true := by
  induction n generalizing p stack s with
  | zero =>
      have hle := (List.subperm_of_subset hnodup hstack).length_le
      omega
  | succ n ih =>
      rw [resolveFrom]
      cases henter : enter clock p stack s with
      | mk x u =>
          have ⟨_, hvariables, hcollections, _, hnone⟩ := enter_spec henter
          cases x with
          | some r => rfl
          | none =>
              have hu := hs.of_eq hvariables hcollections
              cases hvisit : api.visit clock p u with
              | mk x v =>
                  have ⟨hv, _, hx⟩ := visit_spec hu hvisit
                  simp only [hvisit]
                  cases x with
                  | exhausted => rfl
                  | answer r => rfl
                  | alias_ q =>
                      have hhop := hop_of_visit hx
                      have ⟨hkey, hq⟩ := hop_mem hhop hmode
                      rw [Option.isSome_map]
                      refine ih hv hq (List.nodup_cons.2 ⟨(hnone rfl).2, hnodup⟩)
                        (List.forall_mem_cons.2 ⟨hkey, hstack⟩) ?_
                      rw [List.length_cons]
                      omega

/-! ## A deadline that does not pass -/

/-- No answer of the memo is about the deadline. -/
def Unspent (s : VariableSession) : Prop :=
  s.tripped = false ∧ ∀ k, s.memo.get k ≠ some .exhausted

theorem Unspent.memoise {s : VariableSession} (h : Unspent s) (p : VariableMode)
    {r : AliasResolution} (hr : r ≠ .exhausted) : Unspent (s.memoise p r) := by
  refine ⟨h.1, fun k hk => ?_⟩
  rw [VariableSession.memoise, JsMap.get_set] at hk
  by_cases hkey : k = memoKey p
  · rw [if_pos hkey] at hk
    exact hr (Option.some.inj hk)
  · rw [if_neg hkey] at hk
    exact h.2 k hk

theorem Unspent.of_onward {s t : VariableSession} (h : Unspent s) (honward : Onward s t)
    (ht : t.tripped = false) : Unspent t := by
  refine ⟨ht, ?_⟩
  rw [honward.memo]
  exact h.2

section Never

variable (hclock : ∀ n, clock n = false)

include hclock

theorem expired_never {s : VariableSession} (hs : s.tripped = false) :
    (s.expired clock).2.tripped = false := by
  rw [expired, hs, if_neg Bool.false_ne_true]
  exact hclock _

theorem lookupVariable_never {s : VariableSession} (hs : s.tripped = false) (id : JsString) :
    (api.lookupVariable clock id s).2.tripped = false := by
  have hexpired := expired_never hclock hs
  rw [lookupVariable]
  cases s.variableCache.get id with
  | some value => exact hs
  | none =>
      dsimp only
      split_ifs
      · exact hexpired
      · exact hexpired

theorem lookupCollection_never {s : VariableSession} (hs : s.tripped = false) (id : JsString) :
    (api.lookupCollection clock id s).2.tripped = false := by
  have hexpired := expired_never hclock hs
  rw [lookupCollection]
  cases s.collectionCache.get id with
  | some value => exact hs
  | none =>
      dsimp only
      split_ifs
      · exact hexpired
      · cases api.getVariableCollectionByIdAsync <;> exact hexpired

theorem not_cutShort {s : VariableSession} (hs : s.tripped = false) (p : VariableMode) :
    ¬ CutShort api clock s p := by
  rintro ⟨raw, _, _, htripped⟩
  rw [lookupCollection_never hclock (lookupVariable_never hclock hs p.1)] at htripped
  cases htripped

theorem visit_never {s : VariableSession} (hs : s.tripped = false) (p : VariableMode) :
    (api.visit clock p s).2.tripped = false := by
  have hvariable : (api.lookupVariable clock p.1 s).2.tripped = false :=
    lookupVariable_never hclock hs p.1
  rw [visit]
  cases hlookup : api.lookupVariable clock p.1 s with
  | mk found u =>
      rw [hlookup] at hvariable
      cases found with
      | none => exact hvariable
      | some raw =>
          dsimp only
          split_ifs
          · exact lookupCollection_never hclock hvariable _
          · exact hvariable

theorem enter_never {s : VariableSession} (hs : s.tripped = false) (p : VariableMode)
    (stack : List JsString) : (enter clock p stack s).2.tripped = false := by
  have hexpired := expired_never hclock hs
  rw [enter]
  cases s.memo.get (memoKey p) with
  | some r => exact hs
  | none =>
      dsimp only
      split_ifs <;> exact hexpired

/-- What a visit answers is what the pair leads to. -/
theorem answer_next {s t : VariableSession} {p : VariableMode} {r : AliasResolution}
    (hs : s.tripped = false) (hcached : Cached api s)
    (h : api.visit clock p s = (.answer r, t)) : api.next p = .inr r := by
  obtain ⟨_, _, hx⟩ := visit_spec hcached h
  rcases hx with ⟨hx, _⟩ | hx | ⟨hcut, _⟩
  · cases hx
  · exact result_of_visit hx
  · exact absurd hcut (not_cutShort hclock hs p)

theorem resolveFrom_never {n : ℕ} {p : VariableMode} {stack : List JsString}
    {s t : VariableSession} {r : AliasResolution} (hcached : Cached api s) (hs : Unspent s)
    (h : api.resolveFrom clock n p stack s = some (r, t)) :
    Unspent t ∧ r ≠ .exhausted ∧
      ∀ f ∈ api.frames clock n p stack s, ¬ CutShort api clock f.1 f.2 := by
  induction n generalizing p stack s t r with
  | zero => cases h
  | succ n ih =>
      rw [resolveFrom] at h
      rw [frames]
      have hentered := enter_never hclock hs.1 p stack
      cases henter : enter clock p stack s with
      | mk x u =>
          have ⟨honward, hvariables, hcollections, hsome, _⟩ := enter_spec henter
          have hu := hcached.of_eq hvariables hcollections
          rw [henter] at h hentered
          have hunspent := hs.of_onward honward hentered
          cases x with
          | some early =>
              obtain ⟨rfl, rfl⟩ := Prod.mk.inj (Option.some.inj h)
              refine ⟨hunspent, ?_, List.forall_mem_nil _⟩
              rintro rfl
              rcases hsome _ rfl with hget | ⟨_, htripped⟩ | ⟨hcycle, _⟩
              · exact hs.2 _ hget
              · exact absurd (hentered.symm.trans htripped) Bool.false_ne_true
              · cases hcycle
          | none =>
              have hcut : ¬ CutShort api clock u p := not_cutShort hclock hentered p
              have hvisited : (api.visit clock p u).2.tripped = false := visit_never hclock hentered p
              cases hvisit : api.visit clock p u with
              | mk x v =>
                  have ⟨hv, honward', hx⟩ := visit_spec hu hvisit
                  rw [hvisit] at hvisited
                  simp only [hvisit] at h ⊢
                  have hunspent' := hunspent.of_onward honward' hvisited
                  cases x with
                  | exhausted =>
                      rcases hx with ⟨_, htripped⟩ | hx | ⟨_, hx⟩
                      · exact absurd (hvisited.symm.trans htripped) Bool.false_ne_true
                      · cases hnext : api.next p <;> rw [hnext] at hx <;> cases hx
                      · cases hx
                  | answer x =>
                      obtain ⟨rfl, rfl⟩ := Prod.mk.inj (Option.some.inj h)
                      have hne := next_ne_exhausted (answer_next hclock hentered hu hvisit)
                      exact ⟨hunspent'.memoise p hne, hne, List.forall_mem_singleton.2 hcut⟩
                  | alias_ q =>
                      obtain ⟨⟨r', w⟩, hresolve, hrt⟩ := Option.map_eq_some_iff.1 h
                      obtain ⟨rfl, rfl⟩ := Prod.mk.inj hrt
                      have ⟨hw, hne, hframes⟩ := ih hv hunspent' hresolve
                      exact ⟨hw.memoise p hne, hne, List.forall_mem_cons.2 ⟨hcut, hframes⟩⟩

end Never

/-- Where the deadline does not pass, a chain is answered with what it ends with. -/
theorem resolution_of_never (hclock : ∀ n, clock n = false) (hnul : api.NulFree) {n : ℕ}
    {p : VariableMode} {s t : VariableSession} {r : AliasResolution} (hcached : Cached api s)
    (hs : Unspent s) (hmemo : MemoSound Clean api.Resolution s) (hp : Clean p)
    (h : api.resolveFrom clock n p [] s = some (r, t)) :
    Unspent t ∧ MemoSound Clean api.Resolution t ∧ api.Resolution p r := by
  have ⟨hunspent, hne, hframes⟩ := resolveFrom_never hclock hcached hs h
  have hclean : ∀ f ∈ api.frames clock n p [] s, Clean f.2 := fun f hf =>
    of_leads (fun _ _ hp hhop => hp.hop hnul hhop) hp (frames_lead hcached hf)
  have ⟨hmemo', hright⟩ := resolveFrom_sound (fun _ _ hp hhop => hp.hop hnul hhop) hcached hp
    (List.forall_mem_nil _) h hmemo
    fun f hf => ⟨(hclean f hf).fair, fun hcut => absurd hcut (hframes f hf)⟩
  exact ⟨hunspent, hmemo', hright.resolve_left hne⟩

/-! ## What a session answers -/

theorem cached_start : Cached api {} := ⟨nofun, nofun⟩

theorem unspent_start : Unspent {} := ⟨rfl, nofun⟩

theorem memoSound_start : MemoSound P A {} := fun _ _ => nofun

theorem Reached.cached {s : VariableSession} (h : api.Reached clock s) : Cached api s := by
  induction h with
  | start => exact cached_start
  | variable_ _ id ih => exact (lookupVariable_onward ih id).1
  | collection _ id ih => exact (lookupCollection_onward ih id).1
  | resolve _ _ hr ih => exact resolveFrom_cached ih hr

/-- Where the deadline does not pass, the memo holds only right answers. -/
theorem Reached.never {s : VariableSession} (hnul : api.NulFree) (hclock : ∀ n, clock n = false)
    (h : api.Reached clock s) : Unspent s ∧ MemoSound Clean api.Resolution s := by
  induction h with
  | start => exact ⟨unspent_start, memoSound_start⟩
  | variable_ hs id ih =>
      have honward : Onward _ (api.lookupVariable clock id _).2 :=
        (lookupVariable_onward hs.cached id).2
      exact ⟨ih.1.of_onward honward (lookupVariable_never hclock ih.1.1 id), ih.2.of_eq honward.memo⟩
  | collection hs id ih =>
      have honward : Onward _ (api.lookupCollection clock id _).2 :=
        (lookupCollection_onward hs.cached id).2
      exact ⟨ih.1.of_onward honward (lookupCollection_never hclock ih.1.1 id),
        ih.2.of_eq honward.memo⟩
  | resolve hs hp hr ih =>
      have ⟨hunspent, hmemo, _⟩ :=
        resolution_of_never hclock hnul hs.cached ih.1 ih.2 hp hr
      exact ⟨hunspent, hmemo⟩

/-! ## What an object inherits -/

/-- An alias is a value of the variable's own. -/
theorem aliasId_property {value : JsValue} {key id : JsString}
    (h : aliasId (value.property key) = some id) :
    ∃ source, value.ownProperty key = some source ∧ aliasId source = some id := by
  cases hown : value.ownProperty key with
  | some source => exact ⟨source, rfl, property_of_own hown ▸ h⟩
  | none =>
      rw [property_of_none hown] at h
      rcases inheritedProperty_cases value key with hinherited | hinherited | hinherited <;>
        rw [hinherited] at h <;> cases h

theorem verdict_inheritedProperty (value : JsValue) (key mode : JsString) :
    verdict (value.inheritedProperty key) mode = .inr .missing := by
  rcases inheritedProperty_cases value key with h | h | h <;> rw [h] <;> rfl

/-- What is not undefined is the variable's own value, or what every object has. -/
theorem property_eq_valueIn {raw : JsValue} {mode : JsString}
    (h : (valuesByMode raw).ownProperty mode = none →
      isUndefined ((valuesByMode raw).inheritedProperty mode) = true) :
    (valuesByMode raw).property mode = valueIn raw mode := by
  rw [valueIn]
  cases hown : (valuesByMode raw).ownProperty mode with
  | some value => exact property_of_own hown
  | none =>
      rw [property_of_none hown]
      have hundefined := h hown
      cases hinherited : (valuesByMode raw).inheritedProperty mode with
      | undefined => rfl
      | _ =>
          rw [hinherited] at hundefined
          cases hundefined

/-- In the default mode too, what every object has is no value. -/
theorem verdict_property (raw : JsValue) (mode : JsString) :
    verdict ((valuesByMode raw).property mode) mode = verdict (valueIn raw mode) mode := by
  cases hown : (valuesByMode raw).ownProperty mode with
  | some value => rw [property_of_own hown, valueIn, hown, Option.getD_some]
  | none =>
      rw [property_of_none hown, verdict_inheritedProperty, valueIn, hown]
      rfl

/-- **A variable without a value in a mode of such a name is taken for a missing node.** -/
theorem next_of_inherits {p : VariableMode} (h : api.Inherits p) : api.next p = .inr .missing := by
  obtain ⟨raw, hraw, hown, hinherited⟩ := h
  have hdefined : ¬ isUndefined ((valuesByMode raw).property p.2) = true := by
    rw [property_of_none hown, hinherited]
    exact Bool.false_ne_true
  have hmode : api.modeOf raw p.2 = p.2 := if_neg hdefined
  rw [next_of_variableOf hraw, hmode, property_of_none hown, verdict_inheritedProperty]

theorem next_of_not_inherits {p : VariableMode} (h : ¬ api.Inherits p) : api.next p = api.aim p := by
  rw [aim]
  cases hraw : api.variableOf p.1 with
  | none => rw [next, hraw]
  | some raw =>
      have hvalue : (valuesByMode raw).property p.2 = valueIn raw p.2 := by
        refine property_eq_valueIn fun hown => ?_
        by_contra hinherited
        exact h ⟨raw, hraw, hown, Bool.eq_false_of_not_eq_true hinherited⟩
      rw [next_of_variableOf hraw, verdict_property, modeOf, hvalue]
      dsimp only
      split_ifs <;> rfl

theorem aim_ne_cycle (p : VariableMode) : api.aim p ≠ .inr .cycle := by
  have hverdict : ∀ source mode, verdict source mode ≠ .inr .cycle := by
    intro source mode h
    rcases verdict_cases h with h | ⟨value, h⟩ <;> cases h
  intro h
  rw [aim] at h
  cases hraw : api.variableOf p.1 with
  | none =>
      rw [hraw] at h
      cases h
  | some raw =>
      rw [hraw] at h
      dsimp only at h
      split_ifs at h <;> exact hverdict _ _ h

/-- A session answers a pair with what its values, as they are read, lead to. -/
theorem resolution_of_reached (hnul : api.NulFree) (hclock : ∀ n, clock n = false)
    {s t : VariableSession} (hs : api.Reached clock s) {p : VariableMode} (hp : Clean p) {n : ℕ}
    {r : AliasResolution} (h : api.resolveFrom clock n p [] s = some (r, t)) :
    api.Resolution p r := by
  have ⟨hunspent, hmemo⟩ := hs.never hnul hclock
  exact (resolution_of_never hclock hnul hs.cached hunspent hmemo hp h).2.2

/-- **What resolution is faithful to.** In every session of a read it returns; where the deadline
does not pass, all sessions return the same; and that is the value reached by following aliases with
fallback to default modes, or the error of a cycle just if these come back to a pair, just where no
variable on the way lacks a value in a mode named as something that every object has, unless the
aliases end with a missing node. -/
theorem resolve_faithful_iff (hnul : api.NulFree) {p : VariableMode} (hp : Clean p) :
    (∀ clock s, api.Reached clock s → ∀ n, api.fuel p ≤ n →
      (api.resolveFrom clock n p [] s).isSome = true) ∧
    (∀ clock s n r t clock' s' n' r' t', (∀ n, clock n = false) → (∀ n, clock' n = false) →
      api.Reached clock s → api.resolveFrom clock n p [] s = some (r, t) →
      api.Reached clock' s' → api.resolveFrom clock' n' p [] s' = some (r', t') → r' = r) ∧
    ((∀ clock s n r t, (∀ n, clock n = false) → api.Reached clock s →
        api.resolveFrom clock n p [] s = some (r, t) →
        (Reaches api.aim p r ∨ Revisits api.aim p ∧ r = .error .limitExceeded false) ∧
        (r = .error .limitExceeded false ↔ Revisits api.aim p)) ↔
      ∀ q, ReflTransGen (Hop api.aim) p q → api.Inherits q → api.Aimed q .missing) := by
  have hreturns : ∀ clock s, api.Reached clock s → ∀ n, api.fuel p ≤ n →
      (api.resolveFrom clock n p [] s).isSome = true := by
    intro clock s hs n hn
    refine resolveFrom_isSome hs.cached List.mem_cons_self List.nodup_nil
      (List.forall_mem_nil _) ?_
    rw [fuel] at hn
    exact Nat.lt_of_succ_le hn
  refine ⟨hreturns, ?_, ?_⟩
  · intro clock s n r t clock' s' n' r' t' hclock hclock' hs h hs' h'
    exact (resolution_of_reached hnul hclock' hs' hp h').unique
      (resolution_of_reached hnul hclock hs hp h)
  · rw [← answer_of_cut_iff (fun _ => next_of_inherits) (fun _ => next_of_not_inherits)]
    constructor
    · intro h r hr
      obtain ⟨⟨x, t⟩, hx⟩ := Option.isSome_iff_exists.1
        (hreturns (fun _ => false) {} .start _ le_rfl)
      have hsame := hr.unique (resolution_of_reached hnul (fun _ => rfl) .start hp hx)
      exact hsame ▸ (h _ _ _ x t (fun _ => rfl) .start hx).1
    · intro h clock s n r t hclock hs hr
      have haimed := h r (resolution_of_reached hnul hclock hs hp hr)
      exact ⟨haimed, haimed.eq_cycle_iff aim_ne_cycle⟩

/-- A variable `a` that names `b`, which has its value in the default mode of its collection. -/
def themed : FigmaVariables where
  getVariableByIdAsync id :=
    if id = text "a" then
      some (.object [(text "valuesByMode", .object [(text "light", .object
        [(text "type", .string (text "VARIABLE_ALIAS")), (text "id", .string (text "b"))])])])
    else if id = text "b" then
      some (.object [(text "variableCollectionId", .string (text "c")),
        (text "valuesByMode", .object [(text "base", rational 8)])])
    else none
  getVariableCollectionByIdAsync := some fun id =>
    if id = text "c" then some (.object [(text "defaultModeId", .string (text "base"))]) else none
  ids := [text "a", text "b"]
  mem_ids id h := by
    split_ifs at h with ha hb
    · exact ha ▸ List.mem_cons_self
    · exact hb ▸ List.mem_cons_of_mem _ List.mem_cons_self
    · exact absurd rfl h

theorem nulFree_themed : themed.NulFree where
  alias_ id raw mode target hraw htarget := by
    obtain ⟨source, hown, halias⟩ := aliasId_property htarget
    simp only [variableOf, themed] at hraw
    split_ifs at hraw
    · obtain rfl := Option.some.inj hraw
      rw [show valuesByMode _ = .object [(text "light", _)] from rfl, ownProperty, lookup_cons]
        at hown
      split_ifs at hown
      · obtain rfl := Option.some.inj hown
        obtain rfl : text "b" = target := Option.some.inj halias
        decide
      · cases hown
    · obtain rfl := Option.some.inj hraw
      rw [show valuesByMode _ = .object [(text "base", _)] from rfl, ownProperty, lookup_cons]
        at hown
      split_ifs at hown
      · obtain rfl := Option.some.inj hown
        cases halias
      · cases hown
    · cases hraw
  mode id collection mode hcollection hmode := by
    rw [show themed.collectionOf id = settle (if id = text "c" then _ else none) from rfl]
      at hcollection
    split_ifs at hcollection
    · obtain rfl := Option.some.inj hcollection
      obtain rfl : text "base" = mode := JsValue.string.inj hmode
      decide
    · cases hcollection

theorem clean_themed : Clean (text "a", text "light") := ⟨by decide, by decide⟩

/-- The aliases of `a` come by `b`, and no other pair. -/
theorem aim_themed {q : VariableMode}
    (h : ReflTransGen (Hop themed.aim) (text "a", text "light") q) : q.2 = text "light" := by
  have ha : Hop themed.aim (text "a", text "light") (text "b", text "light") := rfl
  have hb : themed.aim (text "b", text "light") = .inr (.success (.float 8)) := rfl
  rcases ReflTransGen.cases_head h with rfl | ⟨x, hx, h⟩
  · rfl
  obtain rfl := ha.unique hx
  rcases ReflTransGen.cases_head h with rfl | ⟨y, hy, _⟩
  · rfl
  · exact absurd hy (not_hop_of_result hb)

/-- `a` comes to the value of `b`, in a session that has looked `b` up. -/
theorem resolve_faithful_themed : ∃ t,
    themed.resolveFrom (fun _ => false) 3 (text "a", text "light") []
      (themed.lookupVariable (fun _ => false) (text "b") {}).2 = some (.success (.float 8), t) ∧
    Reaches themed.aim (text "a", text "light") (.success (.float 8)) := by
  obtain ⟨t, ht⟩ : ∃ t, themed.resolveFrom (fun _ => false) 3 (text "a", text "light") []
      (themed.lookupVariable (fun _ => false) (text "b") {}).2 = some (.success (.float 8), t) :=
    ⟨_, rfl⟩
  have hfaithful := (resolve_faithful_iff nulFree_themed clean_themed).2.2.2 ?_ (fun _ => false)
    _ 3 _ t (fun _ => rfl) (Reached.variable_ .start (text "b")) ht
  · exact ⟨t, ht, hfaithful.1.resolve_right fun h => by cases h.2⟩
  · rintro q hlead ⟨raw, _, _, hinherited⟩
    rw [aim_themed hlead, inheritedProperty_eq_undefined _ (by decide) (by decide)] at hinherited
    cases hinherited

/-- `b` has no value in a mode "constructor". Every object has a member of this name, and the value
of `b` in the default mode is not found. -/
theorem resolve_faithful_fails : ¬ ∀ (api : FigmaVariables) (p : VariableMode), api.NulFree →
    Clean p → ∀ n r t, api.resolveFrom (fun _ => false) n p [] {} = some (r, t) →
      Reaches api.aim p r ∨ Revisits api.aim p ∧ r = .cycle := by
  intro h
  obtain ⟨t, ht⟩ : ∃ t, themed.resolveFrom (fun _ => false) 1 (text "b", text "constructor") [] {} =
      some (.missing, t) := ⟨_, rfl⟩
  have hvalue : Reaches themed.aim (text "b", text "constructor") (.success (.float 8)) := .done rfl
  rcases h themed (text "b", text "constructor") nulFree_themed ⟨by decide, by decide⟩ 1 _ t ht with
    hreaches | ⟨_, hcycle⟩
  · cases hreaches.unique hvalue
  · cases hcycle

end FigmaVariables

end FigmaDevMcp

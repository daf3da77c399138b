import FigmaDevMcp.Shared.VariablesResult

set_option autoImplicit false

/-!
# Variables within the bounds

The lists of what `getVariables` emits. The read has a limit for collections, one for time and one
for bytes, and none for the lists in a collection.

* `Settled`, `readDefinitions_fits`: a collection that has been looked up, and its definitions;
* `GroupFits`, `EmitsFitting`: what the lists of a document have to keep to;
* `emitCollections_closed`, `emitCollections_cut`: the number of collections, and the counts of the
  loop;
* `emitCollections_fits`: **which collections fit**.
-/

namespace FigmaDevMcp

open JsValue

/-! ## The lists of a collection -/

/-- The variable has an id. -/
def hasId (raw : JsValue) : Bool := decide (string ((record raw).field "id") ≠ [])

/-- The lists of a variable are within the bound, in the modes of its collection. -/
structure VariableFits (collection raw : JsValue) : Prop where
  scopes : (scopes ((record raw).field "scopes")).length ≤ maxReturnedNodes
  values : ((modeIdsOf collection (valuesByMode raw)).filter fun modeId =>
    (FigmaVariables.sourceIn (valuesByMode raw) modeId).isSome).length ≤ maxReturnedNodes

/-- The modes and the variables of a collection are within the bound, and so are their lists. -/
structure GroupFits (group : VariableGroup) (raw : Option JsValue) : Prop where
  modes : (collectionOfGroup group raw []).modes.length ≤ maxReturnedNodes
  variables_ : (group.2.filter hasId).length ≤ maxReturnedNodes
  each : ∀ v ∈ group.2, hasId v = true → VariableFits (recordOf raw) v

theorem codeSyntax_length_le (value : JsValue) : (codeSyntax value).length ≤ maxReturnedNodes :=
  le_trans (List.length_filterMap_le _ _) (by decide)

namespace FigmaVariables

variable {api : FigmaVariables} {clock : Clock} {id : JsString} {answer : Option JsValue}
  {s t : VariableSession} {resolveAliases : Bool}

/-! ## A collection that has been looked up -/

/-- The session has the answer for the collection, and keeps it. -/
def Settled (api : FigmaVariables) (id : JsString) (answer : Option JsValue)
    (s : VariableSession) : Prop :=
  s.collectionCache.get id = some answer ∨
    answer = none ∧ s.collectionCache.get id = none ∧
      (s.tripped = true ∨ api.getVariableCollectionByIdAsync = none)

theorem Settled.of_eq (h : Settled api id answer s) (hcache : t.collectionCache = s.collectionCache)
    (htripped : s.tripped = true → t.tripped = true) : Settled api id answer t := by
  rw [Settled, hcache]
  exact h.imp_right fun ⟨hnone, hget, hlate⟩ => ⟨hnone, hget, hlate.imp_left htripped⟩

theorem settled_expired (h : Settled api id answer s) :
    Settled api id answer (s.expired clock).2 := by
  have ⟨honward, _, _, hcollections⟩ := VariableSession.expired_spec
    (rfl : s.expired clock = (_, _))
  exact h.of_eq hcollections honward.tripped

theorem expired_of_tripped (h : s.tripped = true) : s.expired clock = (true, s) := if_pos h

/-- What is answered once is answered again. -/
theorem lookupCollection_of_settled (h : Settled api id answer s) :
    (api.lookupCollection clock id s).1 = answer := by
  unfold lookupCollection
  rcases h with hget | ⟨rfl, hget, htripped | hmissing⟩
  · rw [hget]
  · rw [hget]
    dsimp only
    rw [expired_of_tripped htripped]
    rfl
  · rw [hget, hmissing]
    dsimp only
    split_ifs <;> rfl

theorem settled_lookupCollection (id : JsString) (s : VariableSession) :
    Settled api id (api.lookupCollection clock id s).1 (api.lookupCollection clock id s).2 := by
  have ⟨_, hlate, _, hcollections⟩ := VariableSession.expired_spec (rfl : s.expired clock = (_, _))
  unfold lookupCollection
  cases hget : s.collectionCache.get id with
  | some value => exact Or.inl hget
  | none =>
      have hmissed : (s.expired clock).2.collectionCache.get id = none := hcollections ▸ hget
      dsimp only
      by_cases hexpired : (s.expired clock).1 = true
      · rw [if_pos hexpired]
        exact Or.inr ⟨rfl, hmissed, Or.inl (hlate ▸ hexpired)⟩
      · rw [if_neg hexpired]
        cases hapi : api.getVariableCollectionByIdAsync with
        | none => exact Or.inr ⟨rfl, hmissed, Or.inr hapi⟩
        | some lookup => exact Or.inl ((JsMap.get_set _ _ _ _).trans (if_pos rfl))

theorem keeps_settled : Keeps api clock (Settled api id answer) where
  expired s hs := settled_expired hs
  variable_ other s hs := by
    have hexpired : Settled api id answer (s.expired clock).2 := settled_expired hs
    unfold lookupVariable
    cases s.variableCache.get other with
    | some value => exact hs
    | none =>
        dsimp only
        split_ifs
        · exact hexpired
        · exact hexpired
  collection other s hs := by
    have hexpired : Settled api id answer (s.expired clock).2 := settled_expired hs
    by_cases hother : other = id
    · have hsettled : Settled api id (api.lookupCollection clock id s).1
          (api.lookupCollection clock id s).2 := settled_lookupCollection id s
      rw [lookupCollection_of_settled hs] at hsettled
      exact hother ▸ hsettled
    · unfold lookupCollection
      cases s.collectionCache.get other with
      | some value => exact hs
      | none =>
          dsimp only
          split_ifs
          · exact hexpired
          · cases api.getVariableCollectionByIdAsync with
            | none => exact hexpired
            | some lookup =>
                rw [Settled]
                dsimp only
                rw [JsMap.get_set, if_neg (Ne.symm hother)]
                exact hexpired
  memoise p r s hs := hs.of_eq rfl fun h => h

/-- **The definitions that are read**: one for each variable with an id, and all of them fit just
if the variables do. -/
theorem readDefinitions_fits {group : List JsValue} {definitions : List VariableDefinition}
    (hs : Settled api id answer s) (hgroup : ∀ raw ∈ group, collectionId raw = id)
    (hr : api.readDefinitions clock resolveAliases group s = some (definitions, t)) :
    definitions.length = (group.filter hasId).length ∧
      ((∀ d ∈ definitions, d.Fits) ↔
        ∀ raw ∈ group, hasId raw = true → VariableFits (recordOf answer) raw) := by
  induction group generalizing s definitions t with
  | nil =>
      obtain ⟨rfl, -⟩ := Prod.mk.inj (Option.some.inj hr)
      exact ⟨rfl, iff_of_true (List.forall_mem_nil _) (List.forall_mem_nil _)⟩
  | cons raw group ih =>
      obtain ⟨hraw, hrest⟩ := List.forall_mem_cons.1 hgroup
      rw [readDefinitions] at hr
      obtain ⟨⟨definition, u⟩, hdefinition, hr⟩ := Option.bind_eq_some_iff.1 hr
      obtain ⟨⟨rest, v⟩, hread, hrt⟩ := Option.map_eq_some_iff.1 hr
      obtain ⟨rfl, rfl⟩ := Prod.mk.inj hrt
      obtain ⟨hlength, hfits⟩ := ih (keeps_settled.readDefinition hs hdefinition) hrest hread
      rw [List.forall_mem_cons, ← hfits]
      rcases readDefinition_cases hdefinition with ⟨hid, rfl, -⟩ | ⟨hid, values, hvalues, rfl⟩
      · have hno : hasId raw = false := decide_eq_false (not_not.2 hid)
        rw [List.filter_cons, hno]
        exact ⟨hlength, (and_iff_right (absurd · Bool.false_ne_true)).symm⟩
      · have hyes : hasId raw = true := decide_eq_true hid
        rw [hraw, lookupCollection_of_settled hs] at hvalues
        have hcount := (readValues_spec keeps_settled
          (hraw ▸ keeps_settled.collection _ s hs) hvalues).2
        rw [List.filter_cons, hyes]
        refine ⟨congrArg Nat.succ hlength, ?_⟩
        rw [Option.toList_some, List.singleton_append, List.forall_mem_cons]
        refine and_congr_left fun _ => ⟨fun h _ => ⟨h.scopes, hcount ▸ h.values⟩, fun h => ?_⟩
        have hfit := h rfl
        exact ⟨hfit.scopes, hcount ▸ hfit.values, codeSyntax_length_le _⟩

end FigmaVariables

/-! ## The loop -/

namespace VariableEmission

variable {limits : SerializerLimits} {e next : VariableEmission} {go : Bool}

/-- What considering a collection does: it counts it, and goes on where there is room. -/
theorem consider_spec (h : e.consider limits = (go, next)) :
    next.collections = e.collections ∧ next.returned = e.returned ∧ next.encoded = e.encoded ∧
      next.visited = e.visited + 1 ∧
      (go = true → e.returned < limits.returnedNodes ∧ next.truncation = e.truncation) ∧
      (go = false → e.truncation = none → next.truncation = some (.nodeLimit (e.visited + 1))) := by
  unfold consider at h
  dsimp only at h
  split_ifs at h with htruncation hlimit
  · obtain ⟨rfl, rfl⟩ := Prod.mk.inj h
    refine ⟨rfl, rfl, rfl, rfl, nofun, fun _ hnone => ?_⟩
    rw [hnone] at htruncation
    cases htruncation
  · obtain ⟨rfl, rfl⟩ := Prod.mk.inj h
    exact ⟨rfl, rfl, rfl, rfl, nofun, fun _ _ => rfl⟩
  · obtain ⟨rfl, rfl⟩ := Prod.mk.inj h
    exact ⟨rfl, rfl, rfl, rfl, fun _ => ⟨Nat.lt_of_not_le hlimit, rfl⟩, nofun⟩

theorem pushCollection_spec {c : VariableCollection} (h : e.pushCollection limits c = (go, next)) :
    next.visited = e.visited ∧
      (go = true → next.collections = e.collections ++ [c] ∧ next.returned = e.returned + 1 ∧
        next.truncation = e.truncation) ∧
      (go = false → next.collections = e.collections ∧ next.returned = e.returned ∧
        next.truncation = some (.byteLimit (e.encoded + byteLength c.toJs))) := by
  unfold pushCollection at h
  dsimp only at h
  split_ifs at h with hbytes
  · obtain ⟨rfl, rfl⟩ := Prod.mk.inj h
    exact ⟨rfl, (absurd · Bool.false_ne_true), fun _ => ⟨rfl, rfl, rfl⟩⟩
  · obtain ⟨rfl, rfl⟩ := Prod.mk.inj h
    exact ⟨rfl, fun _ => ⟨rfl, rfl, rfl⟩, (absurd ·.symm Bool.false_ne_true)⟩

/-- Before a collection is considered, after `k` without an id. -/
structure Open (limits : SerializerLimits) (k : ℕ) (e : VariableEmission) : Prop where
  returned : e.returned = e.collections.length
  room : e.returned ≤ limits.returnedNodes
  visited : e.visited ≤ e.returned + k
  truncation : e.truncation = none

/-- When the loop is over. -/
structure Closed (limits : SerializerLimits) (k : ℕ) (e : VariableEmission) : Prop where
  room : e.collections.length ≤ limits.returnedNodes
  visited : e.visited ≤ limits.returnedNodes + k + 1
  truncation : ∀ t ∈ e.truncation, (∃ n ≤ limits.returnedNodes + k + 1, t = .nodeLimit n) ∨
    ∃ n, t = .byteLimit n

theorem Open.closed {k : ℕ} (h : Open limits k e) : Closed limits k e where
  room := h.returned ▸ h.room
  visited := by have hroom := h.room; have hvisited := h.visited; omega
  truncation := by rw [h.truncation]; exact nofun

theorem Closed.mono {k l : ℕ} (h : Closed limits k e) (hkl : k ≤ l) : Closed limits l e where
  room := h.room
  visited := le_trans h.visited (by omega)
  truncation t ht := (h.truncation t ht).imp_left fun ⟨n, hn, hn'⟩ =>
    ⟨n, le_trans hn (by omega), hn'⟩

end VariableEmission

namespace FigmaVariables

open VariableEmission

variable {api : FigmaVariables} {clock : Clock} {limits : SerializerLimits} {resolveAliases : Bool}
  {run next : EmissionRun} {more : Bool}

/-- One collection: the loop stays open where it goes on. -/
theorem emitCollection_open {k : ℕ} {group : VariableGroup} (h : Open limits k run.emission)
    (hr : api.emitCollection clock limits resolveAliases group run = some (more, next)) :
    (more = true → Open limits (k + if group.1 = [] then 1 else 0) next.emission) ∧
      (more = false → Closed limits k next.emission) := by
  have hroom := h.room
  have hvisits := h.visited
  cases hconsider : run.emission.consider limits with
  | mk go e =>
      obtain ⟨hcollections, hreturned, _, hvisited, hgo, hstop⟩ :=
        VariableEmission.consider_spec hconsider
      rcases emitCollection_cases hr with ⟨hno, rfl, rfl⟩ | ⟨hyes, hid, rfl, rfl⟩ |
        ⟨hyes, hid, definitions, _, hpush⟩
      · rw [hconsider] at hno ⊢
        refine ⟨(absurd · Bool.false_ne_true),
          fun _ => ⟨?_, ?_, fun t ht => Or.inl ⟨run.emission.visited + 1, ?_, ?_⟩⟩⟩
        · exact hcollections ▸ h.returned ▸ h.room
        · show e.visited ≤ _
          omega
        · omega
        · exact (Option.some.inj ((hstop hno h.truncation).symm.trans ht)).symm
      · rw [hconsider] at hyes ⊢
        rw [if_pos hid]
        obtain ⟨hlt, htruncation⟩ := hgo hyes
        refine ⟨fun _ => ⟨?_, ?_, ?_, ?_⟩, (absurd ·.symm Bool.false_ne_true)⟩
        · exact hreturned.trans (h.returned.trans (congrArg _ hcollections.symm))
        · exact hreturned ▸ h.room
        · show e.visited ≤ e.returned + (k + 1)
          omega
        · exact htruncation.trans h.truncation
      · rw [hconsider] at hyes hpush
        dsimp only at hpush
        obtain ⟨hlt, htruncation⟩ := hgo hyes
        obtain ⟨hsame, hpushed, hcut⟩ := pushCollection_spec hpush
        rw [if_neg hid]
        refine ⟨fun hmore => ?_, fun hmore => ?_⟩
        · obtain ⟨hlist, hcount, hnone⟩ := hpushed hmore
          have hlength : next.emission.collections.length = e.collections.length + 1 := by
            rw [hlist, List.length_append, List.length_singleton]
          have hbefore : e.collections.length = run.emission.collections.length :=
            congrArg _ hcollections
          have hstart := h.returned
          exact ⟨by omega, by omega, by omega, hnone.trans (htruncation.trans h.truncation)⟩
        · obtain ⟨hlist, hcount, hbytes⟩ := hcut hmore
          have hstart := h.returned
          refine ⟨?_, ?_, fun t ht => Or.inr ⟨e.encoded + byteLength (collectionOfGroup group
            (api.lookupCollection clock group.1 run.session).1 definitions).toJs, ?_⟩⟩
          · rw [hlist, hcollections, ← hstart]
            exact hroom
          · omega
          · exact (Option.some.inj (hbytes.symm.trans ht)).symm

theorem emitCollections_closed {groups : List VariableGroup} {k : ℕ}
    (h : Open limits k run.emission)
    (hr : api.emitCollections clock limits resolveAliases groups run = some next) :
    Closed limits (k + (groups.filter (·.1 = [])).length) next.emission := by
  induction groups generalizing run k with
  | nil =>
      obtain rfl := Option.some.inj hr
      exact h.closed
  | cons group groups ih =>
      rw [emitCollections] at hr
      obtain ⟨⟨more, u⟩, hemit, hr⟩ := Option.bind_eq_some_iff.1 hr
      obtain ⟨hopen, hclosed⟩ := emitCollection_open h hemit
      cases more with
      | true =>
          have hrest := ih (hopen rfl) hr
          refine hrest.mono (le_of_eq ?_)
          rw [List.filter_cons]
          by_cases hid : group.1 = []
          · simp only [hid, decide_true, if_true, List.length_cons]
            omega
          · simp only [hid, decide_false, if_false, Bool.false_eq_true, Nat.add_zero]
      | false =>
          obtain rfl := Option.some.inj hr
          exact (hclosed rfl).mono (Nat.le_add_right _ _)

theorem encoded_emitCollection {group : VariableGroup}
    (h : run.emission.encoded ≤ limits.encodedBytes)
    (hr : api.emitCollection clock limits resolveAliases group run = some (more, next)) :
    next.emission.encoded ≤ limits.encodedBytes := by
  have hconsidered : (run.emission.consider limits).2.encoded = run.emission.encoded :=
    (VariableEmission.consider_spec (Prod.mk.eta).symm).2.2.1
  rcases emitCollection_cases hr with ⟨-, -, rfl⟩ | ⟨-, -, -, rfl⟩ | ⟨-, -, definitions, -, hpush⟩
  · exact hconsidered.trans_le h
  · exact hconsidered.trans_le h
  · unfold pushCollection at hpush
    dsimp only at hpush
    split_ifs at hpush with hbytes
    · rw [← (Prod.mk.inj hpush).2]
      exact hconsidered.trans_le h
    · rw [← (Prod.mk.inj hpush).2]
      exact Nat.le_of_not_lt hbytes

/-- **Where a collection is cut**: the bytes that are reported are those of the texts of collections
within the budget and of one more. -/
theorem emitCollections_cut {groups : List VariableGroup} {k : ℕ} (hopen : Open limits k run.emission)
    (hencoded : run.emission.encoded ≤ limits.encodedBytes)
    (hr : api.emitCollections clock limits resolveAliases groups run = some next) {n : ℕ}
    (hcut : next.emission.truncation = some (.byteLimit n)) :
    ∃ group ∈ groups, ∃ raw definitions s t,
      api.readDefinitions clock resolveAliases group.2 s = some (definitions, t) ∧
        n ≤ limits.encodedBytes + byteLength (collectionOfGroup group raw definitions).toJs := by
  induction groups generalizing run k with
  | nil =>
      obtain rfl := Option.some.inj hr
      rw [hopen.truncation] at hcut
      cases hcut
  | cons group groups ih =>
      rw [emitCollections] at hr
      obtain ⟨⟨more, u⟩, hemit, hr⟩ := Option.bind_eq_some_iff.1 hr
      cases more with
      | true =>
          have hnext := (emitCollection_open hopen hemit).1 rfl
          obtain ⟨other, hother, hmade⟩ := ih hnext (encoded_emitCollection hencoded hemit) hr
          exact ⟨other, List.mem_cons_of_mem _ hother, hmade⟩
      | false =>
          obtain rfl := Option.some.inj hr
          obtain ⟨-, -, hbytes, -, -, hstop⟩ :=
            VariableEmission.consider_spec (Prod.mk.eta (p := run.emission.consider limits)).symm
          rcases emitCollection_cases hemit with ⟨hno, -, rfl⟩ | ⟨-, -, hmore, -⟩ |
            ⟨-, -, definitions, hread, hpush⟩
          · rw [hstop hno hopen.truncation] at hcut
            cases hcut
          · cases hmore
          · rw [((pushCollection_spec hpush).2.2 rfl).2.2] at hcut
            injection hcut with hcut
            injection hcut with _ _ _ hcut
            injection hcut with hn
            refine ⟨group, List.mem_cons_self, (api.lookupCollection clock group.1 run.session).1,
              definitions, _, _, hread, ?_⟩
            rw [← hn]
            exact Nat.add_le_add_right (hbytes.trans_le hencoded) _

/-- The collections that the loop goes on after are within the bounds. -/
def EmitsFitting (api : FigmaVariables) (clock : Clock) (limits : SerializerLimits)
    (resolveAliases : Bool) : List VariableGroup → EmissionRun → Prop
  | [], _ => True
  | group :: rest, run =>
    match api.emitCollection clock limits resolveAliases group run with
    | some (true, next) =>
      (group.1 ≠ [] → GroupFits group (api.lookupCollection clock group.1 run.session).1) ∧
        EmitsFitting api clock limits resolveAliases rest next
    | _ => True

/-- The variables of each group are those of its collection. -/
def Sorted (groups : List VariableGroup) : Prop :=
  ∀ group ∈ groups, ∀ raw ∈ group.2, collectionId raw = group.1

theorem collectionOfGroup_fits {group : VariableGroup} {s t : VariableSession}
    {definitions : List VariableDefinition} (hgroup : ∀ raw ∈ group.2, collectionId raw = group.1)
    (hr : api.readDefinitions clock resolveAliases group.2 (api.lookupCollection clock group.1 s).2 =
      some (definitions, t)) :
    (collectionOfGroup group (api.lookupCollection clock group.1 s).1 definitions).Fits ↔
      GroupFits group (api.lookupCollection clock group.1 s).1 := by
  have ⟨hlength, heach⟩ := readDefinitions_fits (settled_lookupCollection group.1 s) hgroup hr
  constructor
  · intro h
    exact ⟨h.modes, hlength ▸ h.definitions, heach.1 h.each⟩
  · intro h
    exact ⟨h.modes, hlength ▸ h.variables_, heach.2 h.each⟩

theorem emitCollections_fits {groups : List VariableGroup} (hgroups : Sorted groups)
    (hr : api.emitCollections clock limits resolveAliases groups run = some next) :
    (∀ c ∈ next.emission.collections, c.Fits) ↔
      (∀ c ∈ run.emission.collections, c.Fits) ∧
        EmitsFitting api clock limits resolveAliases groups run := by
  induction groups generalizing run with
  | nil =>
      obtain rfl := Option.some.inj hr
      exact (and_iff_left trivial).symm
  | cons group groups ih =>
      obtain ⟨hgroup, hrest⟩ := List.forall_mem_cons.1 hgroups
      rw [emitCollections] at hr
      obtain ⟨⟨more, u⟩, hemit, hr⟩ := Option.bind_eq_some_iff.1 hr
      rw [EmitsFitting, hemit]
      have hconsidered : (run.emission.consider limits).2.collections =
          run.emission.collections := (VariableEmission.consider_spec (Prod.mk.eta).symm).1
      rcases emitCollection_cases hemit with ⟨-, rfl, rfl⟩ | ⟨-, hid, rfl, rfl⟩ |
        ⟨-, hid, definitions, hread, hpush⟩
      · obtain rfl := Option.some.inj hr
        dsimp only
        rw [hconsidered]
        exact (and_iff_left trivial).symm
      · rw [ih hrest hr]
        dsimp only
        rw [hconsidered]
        exact and_congr_right fun _ => (and_iff_right fun h => absurd hid h).symm
      · obtain ⟨_, hpushed, hcut⟩ := pushCollection_spec hpush
        cases more with
        | true =>
            have hfits := collectionOfGroup_fits hgroup hread
            rw [ih hrest hr, (hpushed rfl).1, hconsidered, List.forall_mem_append,
              List.forall_mem_singleton, hfits, and_assoc]
            exact and_congr_right fun _ => and_congr_left fun _ => ⟨fun h _ => h, fun h => h hid⟩
        | false =>
            obtain rfl := Option.some.inj hr
            rw [(hcut rfl).1, hconsidered]
            exact (and_iff_left trivial).symm

/-- No more ids are looked up than there are. -/
theorem attempted_lookUpPending (pending : List JsString) (run : LookupRun) :
    (api.lookUpPending clock pending run).attempted ≤ run.attempted + pending.length := by
  induction pending generalizing run with
  | nil => exact Nat.le_refl _
  | cons id pending ih =>
      rw [lookUpPending]
      dsimp only
      split_ifs
      · exact Nat.le_add_right _ _
      · refine (ih _).trans ?_
        rw [List.length_cons]
        dsimp only
        omega

theorem lookUpPending_sorted {pending : List JsString} {run : LookupRun}
    (h : Sorted run.grouped.entries) :
    Sorted (api.lookUpPending clock pending run).grouped.entries := by
  induction pending generalizing run with
  | nil => exact h
  | cons id pending ih =>
      rw [lookUpPending]
      dsimp only
      split_ifs
      · exact h
      · refine ih ?_
        dsimp only
        cases (api.lookupVariable clock id (run.session.expired clock).2).1 with
        | none => exact h
        | some raw =>
            intro group hgroup
            rcases JsMap.mem_set.1 hgroup with rfl | ⟨hgroup, -⟩
            · intro other hother
              rcases List.mem_append.1 hother with hother | hother
              · cases hget : run.grouped.get (collectionId raw) with
                | none =>
                    rw [hget] at hother
                    cases hother
                | some members =>
                    rw [hget] at hother
                    exact h _ (JsMap.get_eq_some.1 hget) other hother
              · exact congrArg collectionId (List.mem_singleton.1 hother)
            · exact h group hgroup

end FigmaVariables

end FigmaDevMcp

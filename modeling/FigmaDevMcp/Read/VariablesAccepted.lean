import FigmaDevMcp.Read.ByteBudget
import FigmaDevMcp.Read.VariablesFit
import Mathlib.Algebra.Order.BigOperators.Group.List

set_option autoImplicit false

/-!
# The variables that are sent

Which results of `getVariables` the plugin accepts and sends: what the read makes is well formed
whatever the document holds, but its lists may be longer than those of a result may be.

* `CountFits`, `VariablesFit`: the counts of the read and the lists of the document;
* `getVariables_accepted_iff`: **which results are accepted**;
* `variablesFit_of_bounds`: the counts fit in every document that is not beyond all bounds;
* `palette`, `getVariables_refused`: **a collection of 2001 variables** is refused.
-/

namespace FigmaDevMcp

open JsValue ResultValidation

/-! ## The result -/

theorem nodeLimit_counted {n : ℕ} : (Truncation.nodeLimit n).Counted ↔ n ≤ maxSafeInteger :=
  ⟨fun h => h.visitedNodes n rfl, fun h => ⟨nofun, fun _ hm => Option.some.inj hm ▸ h, nofun⟩⟩

theorem byteLimit_counted {n : ℕ} : (Truncation.byteLimit n).Counted ↔ n ≤ maxSafeInteger :=
  ⟨fun h => h.encodedBytes n rfl, fun h => ⟨nofun, nofun, fun _ hm => Option.some.inj hm ▸ h⟩⟩

/-- The count that a read reports where its walk is not cut is a number that the validator takes. -/
def CountFits (attempted : ℕ) (run : EmissionRun) : Prop :=
  if run.session.tripped then attempted ≤ maxSafeInteger
  else ∀ n, run.emission.truncation = some (.byteLimit n) → n ≤ maxSafeInteger

theorem reported_counted {walk : Option Truncation} {attempted : ℕ} {run : EmissionRun}
    (hwalk : ∀ t ∈ walk, t.Counted) (hrun : run.emission.Closed {} 1) :
    (∀ t ∈ walk <|> (if run.session.tripped then some (.nodeLimit attempted) else none) <|>
        run.emission.truncation <|>
        (if 0 < run.unresolvedCollections then some (.nodeLimit run.emission.visited) else none),
      t.Counted) ↔ (walk = none → CountFits attempted run) := by
  have hbound : ({} : SerializerLimits).returnedNodes + 1 + 1 ≤ maxSafeInteger := by decide
  cases walk with
  | some t => exact iff_of_true (fun t' ht => hwalk t' ht) nofun
  | none =>
      rw [CountFits]
      by_cases htripped : run.session.tripped = true
      · simp [htripped, nodeLimit_counted]
      · rw [if_neg htripped, if_neg htripped]
        cases htruncation : run.emission.truncation with
        | none =>
            refine iff_of_true (fun t ht => ?_) fun _ => nofun
            have ht' : t ∈ if 0 < run.unresolvedCollections then
              some (Truncation.nodeLimit run.emission.visited) else none := ht
            split_ifs at ht'
            · obtain rfl := Option.some.inj ht'
              exact nodeLimit_counted.2 (le_trans hrun.visited hbound)
            · cases ht'
        | some t =>
            rcases hrun.truncation t htruncation with ⟨n, hn, rfl⟩ | ⟨n, rfl⟩
            · refine iff_of_true (fun t ht => ?_) fun _ n hn => nomatch hn
              obtain rfl := Option.some.inj ht
              exact nodeLimit_counted.2 (le_trans hn hbound)
            · constructor
              · intro h _ m hm
                obtain rfl : n = m := by injection hm with hm; injection hm with _ _ _ hm; injection hm
                exact byteLimit_counted.1 (h _ rfl)
              · intro h t ht
                obtain rfl := Option.some.inj ht
                exact byteLimit_counted.2 (h rfl n rfl)

namespace VariablesFigma

variable {ρ : Type} [DecidableEq ρ]

/-- The ids that the nodes of the scope are bound to, each looked up. -/
def lookedUp (figma : VariablesFigma ρ) (api : FigmaVariables) (clock : Clock) (roots : List ρ) :
    FigmaVariables.LookupRun :=
  api.lookUpPending clock (figma.walkNodeForest {} figma.addVariableIds roots []).seen {}

/-- No collection that the read takes has a list beyond the bound, and its counts are numbers that
the validator takes. -/
def VariablesFit (figma : VariablesFigma ρ) (clock : Clock) (selector : Option Selector)
    (resolveAliases : Bool) : Prop :=
  ∀ api found, figma.variablesApi = some api → figma.resolveDesignRoots selector = .ok found →
    let looked := figma.lookedUp api clock found.roots
    let start : EmissionRun := { session := looked.session }
    api.EmitsFitting clock {} resolveAliases looked.grouped.entries start ∧
      ((figma.walkNodeForest {} figma.addVariableIds found.roots []).context.truncation = none →
        ∀ run, api.emitCollections clock {} resolveAliases looked.grouped.entries start = some run →
          CountFits looked.attempted run)

theorem getVariables_ok {figma : VariablesFigma ρ} {clock : Clock} {selector : Option Selector}
    {resolveAliases : Bool} {startedAt completedAt : IsoDate} {result : GetVariablesResult} :
    figma.getVariables clock {} selector resolveAliases startedAt completedAt = .ok (some result) ↔
      ∃ api found run, figma.variablesApi = some api ∧
        figma.resolveDesignRoots selector = .ok found ∧
        api.emitCollections clock {} resolveAliases
          (figma.lookedUp api clock found.roots).grouped.entries
          { session := (figma.lookedUp api clock found.roots).session } = some run ∧
        result = {
          collections := run.emission.collections
          truncation :=
            (figma.walkNodeForest {} figma.addVariableIds found.roots []).context.truncation <|>
            (if run.session.tripped then
              some (.nodeLimit (figma.lookedUp api clock found.roots).attempted) else none) <|>
            run.emission.truncation <|>
            (if 0 < run.unresolvedCollections then some (.nodeLimit run.emission.visited) else none)
          startedAt
          completedAt } := by
  unfold getVariables
  cases hapi : figma.variablesApi with
  | none => exact iff_of_false nofun fun ⟨_, _, _, h, _⟩ => nomatch h
  | some api =>
      constructor
      · intro h
        obtain ⟨found, hfound, h⟩ := Guard.bind_eq_ok.1 h
        obtain ⟨run, hrun, rfl⟩ := Option.map_eq_some_iff.1 (Except.ok.inj h)
        exact ⟨api, found, run, rfl, hfound, hrun, rfl⟩
      · rintro ⟨_, found, run, hsome, hfound, hrun, rfl⟩
        obtain rfl := Option.some.inj hsome
        exact Guard.bind_eq_ok.2 ⟨found, hfound,
          congrArg Except.ok (Option.map_eq_some_iff.2 ⟨run, hrun, rfl⟩)⟩

section Run

variable {figma : VariablesFigma ρ} {api : FigmaVariables} {clock : Clock} {roots : List ρ}
  {resolveAliases : Bool} {run : EmissionRun}

theorem walk_counted : ∀ t ∈
    (figma.walkNodeForest {} figma.addVariableIds roots []).context.truncation, t.Counted := by
  intro t ht
  rw [Host.walkNodeForest_truncation t ht]
  exact nodeLimit_counted.2 (by decide)

theorem lookedUp_sorted :
    FigmaVariables.Sorted (figma.lookedUp api clock roots).grouped.entries :=
  FigmaVariables.lookUpPending_sorted (List.forall_mem_nil _)

theorem emitted_closed
    (hrun : api.emitCollections clock {} resolveAliases
      (figma.lookedUp api clock roots).grouped.entries
      { session := (figma.lookedUp api clock roots).session } = some run) :
    run.emission.Closed {} 1 := by
  have hclosed := FigmaVariables.emitCollections_closed (k := 0)
    ⟨rfl, Nat.zero_le _, le_refl _, rfl⟩ hrun
  refine hclosed.mono ?_
  rw [Nat.zero_add]
  exact JsMap.length_filter_key _ fun e _ he => of_decide_eq_true he

theorem exists_emitted : ∃ run, api.emitCollections clock {} resolveAliases
    (figma.lookedUp api clock roots).grouped.entries
    { session := (figma.lookedUp api clock roots).session } = some run :=
  Option.isSome_iff_exists.1 (FigmaVariables.emitCollections_isSome
    (FigmaVariables.lookUpPending_cached FigmaVariables.cached_start) _)

end Run

/-- **Which results are accepted**: a result that the read of variables makes is refused just where
a collection of it has more modes, variables, scopes or values than the bound of a result. -/
theorem getVariables_accepted_iff (figma : VariablesFigma ρ) (clock : Clock)
    (selector : Option Selector) (resolveAliases : Bool) (startedAt completedAt : IsoDate) :
    (∀ result, figma.getVariables clock {} selector resolveAliases startedAt completedAt =
        .ok (some result) →
      (parseVariablesResult result.toJs (text "get_variables result")).isOk = true) ↔
      figma.VariablesFit clock selector resolveAliases := by
  constructor
  · intro h api found hapi hfound
    obtain ⟨run, hrun⟩ : ∃ run, api.emitCollections clock {} resolveAliases
        (figma.lookedUp api clock found.roots).grouped.entries
        { session := (figma.lookedUp api clock found.roots).session } = some run := exists_emitted
    have haccepted := h _ (getVariables_ok.2 ⟨api, found, run, hapi, hfound, hrun, rfl⟩)
    have hfits := (parseVariablesResult_isOk _ _).1 haccepted
    have ⟨_, hemits⟩ := (FigmaVariables.emitCollections_fits lookedUp_sorted hrun).1 hfits.each
    refine ⟨hemits, fun hwalk run' hrun' => ?_⟩
    obtain rfl := Option.some.inj (hrun.symm.trans hrun')
    exact (reported_counted walk_counted (emitted_closed hrun)).1 hfits.truncation hwalk
  · intro h result hresult
    obtain ⟨api, found, run, hapi, hfound, hrun, rfl⟩ := getVariables_ok.1 hresult
    have ⟨hemits, hcount⟩ := h api found hapi hfound
    have hclosed := emitted_closed hrun
    refine (parseVariablesResult_isOk _ _).2 ⟨hclosed.room, ?_, ?_⟩
    · exact (FigmaVariables.emitCollections_fits lookedUp_sorted hrun).2
        ⟨List.forall_mem_nil _, hemits⟩
    · exact (reported_counted walk_counted hclosed).2 fun hwalk => hcount hwalk run hrun

/-- **Where the counts fit**: the scope is bound to no more ids than the greatest number that is
safe, and no collection has a text that is longer, with the budget of bytes. -/
theorem variablesFit_of_bounds {figma : VariablesFigma ρ} {clock : Clock}
    {selector : Option Selector} {resolveAliases : Bool}
    (hlists : ∀ api found, figma.variablesApi = some api →
      figma.resolveDesignRoots selector = .ok found →
        api.EmitsFitting clock {} resolveAliases
          (figma.lookedUp api clock found.roots).grouped.entries
          { session := (figma.lookedUp api clock found.roots).session })
    (hids : ∀ found, figma.resolveDesignRoots selector = .ok found →
      (figma.walkNodeForest {} figma.addVariableIds found.roots []).seen.length ≤ maxSafeInteger)
    (htexts : ∀ api, figma.variablesApi = some api → ∀ group raw definitions s t,
      api.readDefinitions clock resolveAliases group.2 s = some (definitions, t) →
        ({} : SerializerLimits).encodedBytes +
          byteLength (collectionOfGroup group raw definitions).toJs ≤ maxSafeInteger) :
    figma.VariablesFit clock selector resolveAliases := by
  intro api found hapi hfound
  refine ⟨hlists api found hapi hfound, fun _ run hrun => ?_⟩
  unfold CountFits
  split_ifs
  · have hattempted : (figma.lookedUp api clock found.roots).attempted ≤
        0 + (figma.walkNodeForest {} figma.addVariableIds found.roots []).seen.length :=
      FigmaVariables.attempted_lookUpPending _ _
    rw [Nat.zero_add] at hattempted
    exact hattempted.trans (hids found hfound)
  · intro n hcut
    obtain ⟨group, _, raw, definitions, s, t, hread, hn⟩ := FigmaVariables.emitCollections_cut
      (k := 0) ⟨rfl, Nat.zero_le _, le_refl _, rfl⟩ (Nat.zero_le _) hrun hcut
    exact hn.trans (htexts api hapi group raw definitions s t hread)

end VariablesFigma

/-! ## A large collection -/

/-- Three digits or capital letters. -/
def swatchId (k : ℕ) : JsString := [0x30 + k / 1600, 0x30 + k / 40 % 40, 0x30 + k % 40]

/-- The ids of the swatches. -/
def swatchIds (n : ℕ) : List JsString := (List.range n).map swatchId

/-- A variable of the palette, with a value in its one mode. -/
def swatch (id : JsString) : JsValue :=
  .object [(text "id", .string id), (text "variableCollectionId", word "c"),
    (text "valuesByMode", .object [(text "m", .bool true)])]

/-- The collection of the swatches. -/
def paletteCollection : JsValue :=
  .object [(text "modes", .array [.object [(text "modeId", word "m")]])]

/-- A collection with that many variables. -/
def palette (n : ℕ) : FigmaVariables where
  getVariableByIdAsync id := if id ∈ swatchIds n then some (swatch id) else none
  getVariableCollectionByIdAsync := some fun _ => some paletteCollection
  ids := swatchIds n
  mem_ids id h := by
    by_contra hid
    rw [if_neg hid] at h
    exact h rfl

/-- A page that is bound to all of them. -/
def painted (n : ℕ) : VariablesFigma ℕ where
  get _ key :=
    if key = "type" then word "PAGE"
    else if key = "boundVariables" then
      .object [(text "fills", .array ((swatchIds n).map fun id => .object [(text "id", .string id)]))]
    else .undefined
  parent _ := none
  children _ := []
  children_length _ := by decide
  get_units node key s h := by
    split_ifs at h
    exact JsValue.string.inj h ▸ Utf16.units_ofString _
  currentPage := 0
  currentPage_isPage := by
    show isWord (word "PAGE") "PAGE" = true
    decide
  selection := []
  getNodeByIdAsync := none
  loadAsync _ := true
  variablesApi := some (palette n)

theorem swatchId_injective : Function.Injective swatchId := by
  intro j k h
  simp only [swatchId, List.cons.injEq] at h
  omega

theorem nodup_swatchIds (n : ℕ) : (swatchIds n).Nodup := List.nodup_range.map swatchId_injective

theorem ne_nil_of_mem_swatchIds {n : ℕ} {id : JsString} (h : id ∈ swatchIds n) : id ≠ [] := by
  obtain ⟨k, -, rfl⟩ := List.mem_map.1 h
  exact List.cons_ne_nil _ _

theorem visitItems_ids {ids seen : List JsString} (hnodup : (seen ++ ids).Nodup)
    (hne : ∀ id ∈ ids, id ≠ []) :
    visitItems seen (ids.map fun id => .object [(text "id", .string id)]) = seen ++ ids := by
  induction ids generalizing seen with
  | nil => exact (List.append_nil seen).symm
  | cons id ids ih =>
      have ⟨hid, hrest⟩ := List.forall_mem_cons.1 hne
      have hfresh : id ∉ seen := fun hmem =>
        (List.disjoint_of_nodup_append hnodup) hmem List.mem_cons_self
      have hvisit : visitVariables seen (.object [(text "id", .string id)]) = seen ++ [id] := by
        have hfield : (JsValue.object [(text "id", .string id)]).field "id" = .string id := by simp
        have hown : (if id ≠ [] ∧ id ∉ seen then seen ++ [id] else seen) = seen ++ [id] :=
          if_pos ⟨hid, hfresh⟩
        rw [visitVariables, hfield]
        exact hown
      rw [List.map_cons, visitItems, hvisit, ih (by rwa [List.append_assoc]) hrest,
        List.append_assoc]
      rfl

theorem variableIdsOf_painted (n node : ℕ) : (painted n).variableIdsOf node = swatchIds n := by
  have hget : (painted n).get node "boundVariables" = .object [(text "fills",
      .array ((swatchIds n).map fun id => .object [(text "id", .string id)]))] := by
    simp [painted]
  rw [Host.variableIdsOf, hget]
  exact visitItems_ids (nodup_swatchIds n) fun _ => ne_nil_of_mem_swatchIds

theorem foldl_unseen {ids seen : List JsString} (hnodup : (seen ++ ids).Nodup) :
    ids.foldl (fun pending id => if id ∈ pending then pending else pending ++ [id]) seen =
      seen ++ ids := by
  induction ids generalizing seen with
  | nil => exact (List.append_nil seen).symm
  | cons id ids ih =>
      have hfresh : id ∉ seen := fun hmem =>
        (List.disjoint_of_nodup_append hnodup) hmem List.mem_cons_self
      rw [List.foldl_cons, if_neg hfresh, ih (by rwa [List.append_assoc]), List.append_assoc]
      rfl

theorem seen_painted (n : ℕ) :
    ((painted n).walkNodeForest {} (painted n).addVariableIds [(painted n).currentPage] []).seen =
      swatchIds n := by
  have hwalk : ∀ fuel, ((painted n).walkNode {} (painted n).addVariableIds (fuel + 1) 0 []
      { seen := [] }).seen = (painted n).addVariableIds 0 [] := by
    intro fuel
    rw [Host.walkNode, if_neg (by decide)]
    dsimp only
    split_ifs <;> rfl
  have hids : (painted n).addVariableIds 0 [] = swatchIds n := by
    rw [VariablesFigma.addVariableIds, variableIdsOf_painted]
    exact foldl_unseen (nodup_swatchIds n)
  rw [Host.walkNodeForest, ForestWalk.walkRow]
  split_ifs
  · exact (hwalk _).trans hids
  · exact (hwalk _).trans hids


/-- The clock of a read that has time. -/
def early : Clock := fun _ => false

namespace FigmaVariables

/-- A session in time that has not looked up any of these variables, nor a collection. -/
structure Fresh (ids : List JsString) (s : VariableSession) : Prop where
  variable_ : ∀ id ∈ ids, s.variableCache.get id = none
  collection : ∀ id, s.collectionCache.get id = none
  tripped : s.tripped = false

theorem expired_early {s : VariableSession} (hs : s.tripped = false) :
    s.expired early = (false, { s with tripped := false, reads := s.reads + 1 }) := by
  rw [VariableSession.expired, hs, if_neg Bool.false_ne_true]
  rfl

theorem lookupVariable_palette {n : ℕ} {id : JsString} {ids : List JsString} {s : VariableSession}
    (hs : Fresh (id :: ids) s) (hid : id ∈ swatchIds n) (hfresh : id ∉ ids) :
    ((palette n).lookupVariable early id s).1 = some (swatch id) ∧
      Fresh ids ((palette n).lookupVariable early id s).2 := by
  have hvalue : settle ((palette n).getVariableByIdAsync id) = some (swatch id) :=
    congrArg settle (if_pos hid)
  rw [lookupVariable, hs.variable_ id List.mem_cons_self]
  dsimp only
  rw [expired_early hs.tripped, if_neg Bool.false_ne_true]
  refine ⟨hvalue, fun other hother => ?_, hs.collection, rfl⟩
  have hne : other ≠ id := fun h => hfresh (h ▸ hother)
  exact (JsMap.get_set _ _ _ _).trans
    ((if_neg hne).trans (hs.variable_ other (List.mem_cons_of_mem _ hother)))

theorem collectionId_swatch (id : JsString) : collectionId (swatch id) = text "c" := by
  simp [collectionId, swatch, record, lookup_cons, string]

/-- One variable of the palette joins its group. -/
theorem lookUpPending_swatch {n : ℕ} {id : JsString} {ids : List JsString} {run : LookupRun}
    (hs : Fresh (id :: ids) run.session) (hid : id ∈ swatchIds n) (hfresh : id ∉ ids) :
    ∃ next, (palette n).lookUpPending early (id :: ids) run =
        (palette n).lookUpPending early ids next ∧
      next.grouped = run.grouped.set (text "c")
        ((run.grouped.get (text "c")).getD [] ++ [swatch id]) ∧
      Fresh ids next.session := by
  have hstart : Fresh (id :: ids)
      { run.session with tripped := false, reads := run.session.reads + 1 } :=
    ⟨hs.variable_, hs.collection, rfl⟩
  have ⟨hvalue, hsession⟩ := lookupVariable_palette hstart hid hfresh
  rw [lookUpPending, expired_early hs.tripped]
  dsimp only
  rw [if_neg Bool.false_ne_true, hvalue]
  dsimp only
  rw [collectionId_swatch]
  exact ⟨_, rfl, rfl, hsession⟩

theorem lookUpPending_palette {n : ℕ} {ids : List JsString} {run : LookupRun} {seen : List JsValue}
    (hs : Fresh ids run.session) (hids : ∀ id ∈ ids, id ∈ swatchIds n) (hnodup : ids.Nodup)
    (hgrouped : run.grouped.entries = [(text "c", seen)]) :
    ((palette n).lookUpPending early ids run).grouped.entries =
        [(text "c", seen ++ ids.map swatch)] ∧
      Fresh [] ((palette n).lookUpPending early ids run).session := by
  induction ids generalizing run seen with
  | nil =>
      refine ⟨?_, hs⟩
      rw [List.map_nil, List.append_nil]
      exact hgrouped
  | cons id ids ih =>
      have ⟨hid, hrest⟩ := List.forall_mem_cons.1 hids
      have ⟨hfresh, hnodup'⟩ := List.nodup_cons.1 hnodup
      obtain ⟨next, hnext, hgroup, hsession⟩ := lookUpPending_swatch hs hid hfresh
      have hget : run.grouped.get (text "c") = some seen := by
        rw [JsMap.get_eq_some, hgrouped]
        exact List.mem_singleton_self _
      have hentries : next.grouped.entries = [(text "c", seen ++ [swatch id])] := by
        rw [hgroup, hget, JsMap.set]
        dsimp only
        rw [hgrouped, JsMap.setEntries, if_pos rfl, Option.getD_some]
      rw [hnext, List.map_cons, List.append_cons]
      exact ih hsession hrest hnodup' hentries

/-- All variables of the palette are one group. -/
theorem lookedUp_palette (n : ℕ) :
    ((palette (n + 1)).lookUpPending early (swatchIds (n + 1)) {}).grouped.entries =
        [(text "c", (swatchIds (n + 1)).map swatch)] ∧
      Fresh [] ((palette (n + 1)).lookUpPending early (swatchIds (n + 1)) {}).session := by
  have hstart : ∀ ids, Fresh ids {} := fun ids => ⟨fun _ _ => rfl, fun _ => rfl, rfl⟩
  have hnodup := nodup_swatchIds (n + 1)
  have hids : ∀ id ∈ swatchIds (n + 1), id ∈ swatchIds (n + 1) := fun _ => id
  revert hnodup hids
  generalize hcase : swatchIds (n + 1) = ids
  intro hnodup hids
  cases ids with
  | nil => exact absurd (congrArg List.length hcase) (by simp [swatchIds])
  | cons id ids =>
      have ⟨hfresh, hnodup'⟩ := List.nodup_cons.1 hnodup
      obtain ⟨next, hnext, hgroup, hsession⟩ := @lookUpPending_swatch (n + 1) id ids {}
        (hstart (id :: ids)) (hcase ▸ List.mem_cons_self) hfresh
      have hrest : ∀ other ∈ ids, other ∈ swatchIds (n + 1) := by
        rw [hcase]
        exact fun other hother => List.mem_cons_of_mem _ hother
      have hentries : next.grouped.entries = [(text "c", [swatch id])] := by
        rw [hgroup]
        rfl
      rw [hnext]
      exact lookUpPending_palette hsession hrest hnodup' hentries

end FigmaVariables

/-! ## What is read of it -/

/-- A swatch, as it is sent. -/
def swatchDefinition (id : JsString) : VariableDefinition where
  id
  name := []
  collectionId := text "c"
  scopes := []
  values := [{ modeId := text "m", source := .boolean true }]
  codeSyntax := []

/-- The palette, as it is sent. -/
def paletteOf (n : ℕ) : VariableCollection where
  id := text "c"
  name := []
  modes := [{ id := text "m", name := [] }]
  definitions := (swatchIds n).map swatchDefinition

namespace FigmaVariables

theorem readDefinition_swatch {n : ℕ} {id : JsString} {s : VariableSession} (hid : id ≠ [])
    (hs : s.collectionCache.get (text "c") = some (some paletteCollection)) :
    (palette n).readDefinition early false (swatch id) s = some (some (swatchDefinition id), s) := by
  have hlookup : (palette n).lookupCollection early (text "c") s = (some paletteCollection, s) := by
    rw [lookupCollection, hs]
  have hown : string ((record (swatch id)).field "id") = id := by
    simp [swatch, record, lookup_cons, string]
  have hmodes : valuesByMode (swatch id) = .object [(text "m", .bool true)] := by
    simp [valuesByMode, swatch, record, lookup_cons]
  have hscopes : scopes ((record (swatch id)).field "scopes") = [] := by
    simp [swatch, record, lookup_cons, scopes, array]
  have hname : string ((record (swatch id)).field "name") = [] := by
    simp [swatch, record, lookup_cons, string]
  have hcodeSyntax : codeSyntax ((record (swatch id)).field "codeSyntax") = [] := by
    simp [swatch, record, lookup_cons, codeSyntax, codeSyntaxPlatforms]
  have hids : modeIdsOf (recordOf (some paletteCollection)) (.object [(text "m", .bool true)]) =
      [text "m"] := by
    rfl
  rw [readDefinition, hown, if_neg hid, collectionId_swatch, hlookup, hmodes, hscopes, hname,
    hcodeSyntax]
  dsimp only
  rw [hids]
  rfl

theorem readDefinitions_swatches {n : ℕ} {ids : List JsString} {s : VariableSession}
    (hids : ∀ id ∈ ids, id ≠ [])
    (hs : s.collectionCache.get (text "c") = some (some paletteCollection)) :
    (palette n).readDefinitions early false (ids.map swatch) s =
      some (ids.map swatchDefinition, s) := by
  induction ids with
  | nil => rfl
  | cons id ids ih =>
      have ⟨hid, hrest⟩ := List.forall_mem_cons.1 hids
      rw [List.map_cons, readDefinitions, readDefinition_swatch hid hs, Option.bind_some]
      dsimp only
      rw [ih hrest]
      rfl

end FigmaVariables

/-! ## Its bytes -/

/-- What a variable has beside its id. -/
def swatchMembers : List Member :=
  member "name" (.string []) ++ member "collectionId" (word "c") ++ member "scopes" (.array []) ++
    member "values" (.array [({ modeId := text "m", source := .boolean true } :
      VariableModeValue).toJs]) ++
    member "codeSyntax" (.array [])

/-- A variable has at most this many bytes. -/
theorem byteLength_swatch {id : JsString} (hid : ∀ u ∈ id, 0x30 ≤ u ∧ u < 0x5b)
    (hlength : id.length = 3) : byteLength (swatchDefinition id).toJs ≤ 200 := by
  have hobject : (swatchDefinition id).toJs =
      .object ([] ++ (text "id", .string id) :: swatchMembers) := rfl
  have htext : HasText (.string id) := rfl
  have hbytes : (swatchMembers.map memberBytes).sum ≤ 150 := by decide +kernel
  have hname : utf8ByteLength (quote (text "id")) = 4 := by decide +kernel
  have hcount : swatchMembers.length = 5 := rfl
  have hown : byteLength (.string id) = 5 := by rw [byteLength_plain hid, hlength]
  rw [hobject, byteLength_object_among htext (by decide +kernel), List.nil_append, memberBytes]
  dsimp only
  omega

/-- What the palette has beside its variables. -/
def paletteMembers : List Member :=
  member "id" (word "c") ++ member "name" (.string []) ++
    member "modes" (.array [({ id := text "m", name := [] } : DeclaredMode).toJs])

theorem byteLength_swatch_of_mem {n : ℕ} (hn : n ≤ 2001) {id : JsString} (h : id ∈ swatchIds n) :
    byteLength (swatchDefinition id).toJs ≤ 200 := by
  obtain ⟨k, hk, rfl⟩ := List.mem_map.1 h
  have hlt := List.mem_range.1 hk
  refine byteLength_swatch ?_ rfl
  simp only [swatchId, List.mem_cons, List.not_mem_nil, or_false]
  rintro u (rfl | rfl | rfl) <;> omega

theorem byteLength_paletteOf {n : ℕ} (hn : n ≤ 2001) :
    byteLength (paletteOf n).toJs ≤ n * 201 + 200 := by
  have hobject : (paletteOf n).toJs = .object (paletteMembers ++
      (text "variables", .array (((swatchIds n).map swatchDefinition).map
        VariableDefinition.toJs)) :: []) := rfl
  have htext : ∀ items, HasText (.array items) := fun _ => rfl
  have hbytes : ((paletteMembers ++ []).map memberBytes).sum ≤ 100 := by decide +kernel
  have hname : utf8ByteLength (quote (text "variables")) = 11 := by decide +kernel
  have hcount : (paletteMembers ++ []).length = 3 := rfl
  have hitems : ∀ item ∈ ((swatchIds n).map swatchDefinition).map VariableDefinition.toJs,
      HasText item ∧ byteLength item ≤ 200 := by
    intro item hitem
    simp only [List.mem_map, exists_exists_and_eq_and] at hitem
    obtain ⟨id, hid, rfl⟩ := hitem
    exact ⟨rfl, byteLength_swatch_of_mem hn hid⟩
  have hsum : ((((swatchIds n).map swatchDefinition).map VariableDefinition.toJs).map
      byteLength).sum ≤ n * 200 := by
    refine le_trans (List.sum_le_card_nsmul _ 200 ?_) ?_
    · intro bytes hmem
      obtain ⟨item, hitem, rfl⟩ := List.mem_map.1 hmem
      exact (hitems item hitem).2
    · simp [swatchIds]
  have harray := byteLength_array fun item hitem => (hitems item hitem).1
  have hlength : (((swatchIds n).map swatchDefinition).map VariableDefinition.toJs).length = n := by
    simp [swatchIds]
  rw [hlength] at harray
  rw [hobject, byteLength_object_among (htext _) (by decide +kernel), memberBytes]
  dsimp only
  omega

/-! ## The read of it -/

namespace FigmaVariables

theorem lookupCollection_palette {n : ℕ} {s : VariableSession} (hs : Fresh [] s) :
    ((palette n).lookupCollection early (text "c") s).1 = some paletteCollection ∧
      ((palette n).lookupCollection early (text "c") s).2.collectionCache.get (text "c") =
        some (some paletteCollection) := by
  rw [lookupCollection, hs.collection]
  dsimp only
  rw [expired_early hs.tripped, if_neg Bool.false_ne_true]
  exact ⟨rfl, (JsMap.get_set _ _ _ _).trans (if_pos rfl)⟩

/-- The palette is within the budget of bytes, and is emitted. -/
theorem emitCollections_palette {n : ℕ} (hn : n ≤ 2001) {s : VariableSession} (hs : Fresh [] s) :
    ∃ run, (palette n).emitCollections early {} false [(text "c", (swatchIds n).map swatch)]
        { session := s } = some run ∧ run.emission.collections = [paletteOf n] := by
  have ⟨hfound, hcache⟩ := lookupCollection_palette (n := n) hs
  have hread := readDefinitions_swatches (n := n)
    (fun id (hid : id ∈ swatchIds n) => ne_nil_of_mem_swatchIds hid) hcache
  have hmade : collectionOfGroup (text "c", (swatchIds n).map swatch) (some paletteCollection)
      ((swatchIds n).map swatchDefinition) = paletteOf n := rfl
  have hbytes : ¬ ({} : SerializerLimits).encodedBytes < 0 + byteLength (paletteOf n).toJs := by
    have hle := byteLength_paletteOf hn
    have hlimit : ({} : SerializerLimits).encodedBytes = 8388608 := by decide
    omega
  have hne : text "c" ≠ [] := by decide
  have hconsider : ({} : VariableEmission).consider {} = (true, { visited := 1 }) := rfl
  rw [emitCollections, emitCollection, hconsider]
  dsimp only
  rw [if_neg (by decide), if_neg hne, hread, hfound]
  dsimp only [Option.map_some, Option.bind_some]
  rw [hmade, VariableEmission.pushCollection]
  dsimp only
  rw [if_neg hbytes]
  exact ⟨_, rfl, rfl⟩

end FigmaVariables

namespace VariablesFigma

theorem getVariables_painted {n : ℕ} (hn : n < 2001) (startedAt completedAt : IsoDate) :
    ∃ result, (painted (n + 1)).getVariables early {} none false startedAt completedAt =
      .ok (some result) ∧ result.collections = [paletteOf (n + 1)] := by
  have hlooked : (painted (n + 1)).lookedUp (palette (n + 1)) early [(painted (n + 1)).currentPage] =
      (palette (n + 1)).lookUpPending early (swatchIds (n + 1)) {} := by
    rw [lookedUp, seen_painted]
  have ⟨hentries, hfresh⟩ := FigmaVariables.lookedUp_palette n
  obtain ⟨run, hrun, hcollections⟩ := FigmaVariables.emitCollections_palette hn hfresh
  refine ⟨_, getVariables_ok.2 ⟨palette (n + 1), _, run, rfl, rfl, ?_, rfl⟩, hcollections⟩
  rw [hlooked, hentries]
  exact hrun

/-- A time. -/
def paintedAt : IsoDate where
  value := text "2026-08-20T00:00:00.000Z"
  ascii := by decide
  length_le := by decide

/-- **A collection of 2001 variables** is read, and the result is refused. -/
theorem getVariables_refused :
    ∃ result, (painted 2001).getVariables early {} none false paintedAt paintedAt =
      .ok (some result) ∧
        (parseVariablesResult result.toJs (text "get_variables result")).isOk = false := by
  obtain ⟨result, hresult, hcollections⟩ :=
    getVariables_painted (n := 2000) (by decide) paintedAt paintedAt
  refine ⟨result, hresult, ?_⟩
  rw [Bool.eq_false_iff]
  intro haccepted
  have hfits := ((parseVariablesResult_isOk _ _).1 haccepted).each (paletteOf 2001)
    (hcollections ▸ List.mem_singleton_self _)
  have hlength : (paletteOf 2001).definitions.length = 2001 := by
    simp [paletteOf, swatchIds]
  have hbound := hfits.definitions
  rw [hlength] at hbound
  exact absurd hbound (by decide)

end VariablesFigma

end FigmaDevMcp

import FigmaDevMcp.Lib.Firsts
import FigmaDevMcp.Read.Getters
import FigmaDevMcp.Read.ItemEmission
import FigmaDevMcp.Read.VariableSession

set_option autoImplicit false

/-!
# The styles of a scope

`getStyles` of `styles.ts`: the local styles of the document, and those that the visible nodes in
scope refer to, each style once.

* `serializeStyle`: a style of the host, if it is one;
* `StyleEmission`: the styles emitted so far, and what has cut them;
* `emitLocal`, `emitReferenced`, `getStyles`: the two passes and the read.
-/

namespace FigmaDevMcp

open JsValue

/-! ## The values -/

/-- What every style has. -/
structure StyleIdentity where
  id : JsString
  name : JsString
  description : Option JsString := none
  remote : Option Bool := none
  key : Option JsString := none
deriving DecidableEq

/-- The members that every style has, as they are sent. -/
def StyleIdentity.members (s : StyleIdentity) : List Member :=
  member "id" (.string s.id) ++ member "name" (.string s.name) ++
    optional "description" (s.description.map .string) ++ optional "remote" (s.remote.map .bool) ++
    optional "key" (s.key.map .string)

/-- What a style is besides its identity. -/
inductive StyleBody
  | paint (paints : List PaintValue)
  | text (value : TextValue)
  | effect (effects : List EffectValue)
  | grid (pattern : JsString) (size : ℚ)
deriving DecidableEq

/-- A style. -/
structure StyleValue extends StyleIdentity where
  body : StyleBody
deriving DecidableEq

/-- A style, as it is sent. -/
def StyleValue.toJs (s : StyleValue) : JsValue :=
  match s.body with
  | .paint paints =>
    .object (member "styleType" (word "paint") ++ s.members ++
      member "paints" (.array (paints.map PaintValue.toJs)))
  | .text value =>
    .object (member "styleType" (word "text") ++ s.members ++ member "text" value.toJs)
  | .effect effects =>
    .object (member "styleType" (word "effect") ++ s.members ++
      member "effects" (.array (effects.map EffectValue.toJs)))
  | .grid pattern size =>
    .object (member "styleType" (word "grid") ++ s.members ++ member "pattern" (.string pattern) ++
      member "size" (.rational size))

/-! ## A style of the host -/

/-- What every style has, if it has an id. -/
def styleIdentity (style : JsValue) : Option StyleIdentity :=
  if string (style.field "id") = [] then none
  else
    some
      { id := string (style.field "id")
        name := string (style.field "name")
        description :=
          match style.field "description" with
          | .string s => some s
          | _ => none
        remote :=
          match style.field "remote" with
          | .bool b => some b
          | _ => none
        key :=
          match style.field "key" with
          | .string s => some s
          | _ => none }

section CaseMapping

variable (cm : CaseMapping)

/-- The pattern of a grid. -/
def gridPattern (value : JsValue) : JsString :=
  if isWord value "ROWS" then text "rows"
  else if isWord value "COLUMNS" then text "columns"
  else if isWord value "GRID" then text "grid"
  else toLowerCase cm (string value)

/-- What a style of its kind has. -/
def styleBody (style : JsValue) : Option StyleBody :=
  if isWord (style.field "type") "PAINT" then some (.paint (paints (style.field "paints")))
  else if isWord (style.field "type") "TEXT" then
    some (.text { characters := [], defaultStyle := textStyle style.field, styledRanges := [] })
  else if isWord (style.field "type") "EFFECT" then some (.effect (effects (style.field "effects")))
  else if isWord (style.field "type") "GRID" then
    let grid := record ((array (style.field "layoutGrids"))[0]?.getD .undefined)
    some (.grid (gridPattern cm (grid.field "pattern")) (finite (grid.field "sectionSize")))
  else none

/-- A style without an id, or of another type, is not reported. -/
def serializeStyle (raw : JsValue) : Option StyleValue := do
  let identity ← styleIdentity (record raw)
  let body ← styleBody cm (record raw)
  return { identity with body }

end CaseMapping

/-! ## The references of a node -/

/-- The plugin API with its styles. A call that fails gives nothing. -/
structure StyleFigma (ρ : Type) extends ThrowingFigma ρ where
  getLocalPaintStylesAsync : Option (Option (List JsValue))
  getLocalTextStylesAsync : Option (Option (List JsValue))
  getLocalEffectStylesAsync : Option (Option (List JsValue))
  getLocalGridStylesAsync : Option (Option (List JsValue))
  getStyleByIdAsync : Option (JsString → HostAnswer)
  /-- `getStyledTextSegments` of a node, for the ids of its styles. -/
  styleSegments : ρ → HostAnswer

/-- `pushStyleId` -/
def usableStyleId (value : JsValue) : Option JsString :=
  match value with
  | .string id => if id = [] ∨ isMixed value = true then none else some id
  | _ => none

namespace StyleFigma

variable {ρ : Type} (figma : StyleFigma ρ)

/-- The ids of the styles in the segments of a text. -/
def segmentStyleIds (node : ρ) : Except ReadError (List JsString) := do
  if !isWord (← figma.read node "type") "TEXT" then return []
  match ← figma.read node "getStyledTextSegments" with
  | .method _ =>
    return (array ((figma.styleSegments node).getD .undefined)).flatMap fun segment =>
      (usableStyleId ((record segment).field "textStyleId")).toList ++
        (usableStyleId ((record segment).field "fillStyleId")).toList
  | _ => return []

/-- The fields with the styles of a node. -/
def styleIdNames : List String :=
  ["fillStyleId", "strokeStyleId", "textStyleId", "effectStyleId", "gridStyleId"]

/-- The ids of the styles that a node uses. -/
def styleIds (node : ρ) : Except ReadError (List JsString) := do
  let values ← styleIdNames.mapM (figma.read node)
  return values.filterMap usableStyleId ++ (← figma.segmentStyleIds node)

end StyleFigma

/-! ## The emission -/

/-- The styles of a read, of which `seen` is the ids. -/
structure StyleEmission where
  styles : List StyleValue := []
  visited : ℕ := 0
  encoded : ℕ := 0
  truncation : Option Truncation := none

namespace StyleEmission

/-- The ids of the styles in the result. -/
def seen (e : StyleEmission) : List JsString := e.styles.map (·.id)

/-- One more style is looked at, if the limits allow it. -/
def consider (limits : SerializerLimits) (e : StyleEmission) : Bool × StyleEmission :=
  let e := { e with visited := e.visited + 1 }
  if e.truncation.isSome then (false, e)
  else if limits.returnedNodes ≤ e.styles.length then
    (false, { e with truncation := some (.nodeLimit e.visited) })
  else (true, e)

/-- A style goes into the result, once for an id. -/
def push (limits : SerializerLimits) (e : StyleEmission) (style : StyleValue) : Bool × StyleEmission :=
  if style.id ∈ e.seen then (true, e)
  else
    let encoded := e.encoded + byteLength style.toJs
    if limits.encodedBytes < encoded then (false, { e with truncation := some (.byteLimit encoded) })
    else (true, { e with encoded, styles := e.styles ++ [style] })

/-- The first cut stays. -/
def mark (e : StyleEmission) (truncation : Truncation) : StyleEmission :=
  if e.truncation.isNone then { e with truncation := some truncation } else e

end StyleEmission

section Emit

variable {α : Type} (limits : SerializerLimits) (style : α → Except ReadError (Option StyleValue))

/-- The loop of both passes, up to the style that is not emitted. -/
def emitStyles : List α → StyleEmission → Except ReadError StyleEmission
  | [], e => .ok e
  | raw :: rest, e =>
    match e.consider limits with
    | (false, e) => .ok e
    | (true, e) => do
      match ← style raw with
      | none => emitStyles rest e
      | some value =>
        match e.push limits value with
        | (true, e) => emitStyles rest e
        | (false, e) => .ok e

end Emit

/-- The styles of a read. -/
structure GetStylesResult where
  styles : List StyleValue
  truncated : Bool
  truncation : Option Truncation

/-- The styles that a reader of the host settles with. -/
def localStylesOf : Option (List JsValue) → Except ReadError (List JsValue)
  | some styles => .ok styles
  | none => .error .other

namespace StyleFigma

variable {ρ : Type} (figma : StyleFigma ρ) (cm : CaseMapping) (limits : SerializerLimits)

/-- The groups of `emitLocal`, one after the other. -/
def localStyles : Except ReadError (List JsValue) :=
  match figma.getLocalPaintStylesAsync, figma.getLocalTextStylesAsync,
    figma.getLocalEffectStylesAsync, figma.getLocalGridStylesAsync with
  | some paint, some text, some effect, some grid => do
    return (← localStylesOf paint) ++ (← localStylesOf text) ++ (← localStylesOf effect) ++
      (← localStylesOf grid)
  | _, _, _, _ => throw (.read .capabilityUnavailable false)

/-- The styles of the file go into the result. -/
def emitLocal (e : StyleEmission) : Except ReadError StyleEmission := do
  emitStyles limits (fun raw => .ok (serializeStyle cm raw)) (← figma.localStyles) e

/-- One id that is neither in `seen` nor pending. -/
def resolveStyle (lookup : JsString → HostAnswer) (id : JsString) :
    Except ReadError (Option StyleValue) :=
  match lookup id with
  | none => .error .other
  | some .null | some .undefined => .ok none
  | some raw => .ok (serializeStyle cm raw)

variable [DecidableEq ρ]

/-- The styles that nodes use go into the result. -/
def emitReferenced (selector : Option Selector) (e : StyleEmission) :
    Except ReadError StyleEmission :=
  match figma.getStyleByIdAsync with
  | none => throw (.read .capabilityUnavailable false)
  | some lookup => do
    let found ← figma.resolveDesignRoots selector
    -- `pendingSeen` is `seen` with the ids that are pending
    let (pending, truncation) ← figma.readForest figma.styleIds
      (fun pending ids => Firsts.addAll (fun id => id) pending (ids.filter fun id => id ∉ e.seen))
      limits found.roots []
    emitStyles limits (resolveStyle cm lookup) pending ((truncation.map e.mark).getD e)

/-- The styles of the file, those that nodes use, or both. -/
def getStyles (selector : Option Selector) (source : Option StyleSource) :
    Except ReadError GetStylesResult := do
  let source := source.getD .both
  let emission ←
    (if source = .local ∨ source = .both then figma.emitLocal cm limits {} else .ok {})
  let emission ←
    (if (source = .referenced ∨ source = .both) ∧ emission.truncation.isNone then
      figma.emitReferenced cm limits selector emission
    else .ok emission)
  return {
    styles := emission.styles
    truncated := emission.truncation.isSome
    truncation := emission.truncation }

end StyleFigma

/-! ## What is emitted -/

section Emitted

variable {α : Type} {limits : SerializerLimits} {style : α → Except ReadError (Option StyleValue)}
  {e e' : StyleEmission}

/-- What considering a style can do. -/
theorem consider_spec (limits : SerializerLimits) (e : StyleEmission) :
    (∃ e', e.consider limits = (true, e') ∧ e'.styles = e.styles ∧ e.truncation = none ∧
      e'.truncation = none) ∨
    (∃ e', e.consider limits = (false, e') ∧ e'.styles = e.styles ∧ e'.truncation ≠ none) := by
  rw [StyleEmission.consider]
  cases htruncation : e.truncation with
  | some truncation => exact Or.inr ⟨_, rfl, rfl, Option.some_ne_none truncation⟩
  | none =>
      by_cases hfull : limits.returnedNodes ≤ e.styles.length
      · exact Or.inr ⟨_, if_pos hfull, rfl, Option.some_ne_none _⟩
      · exact Or.inl ⟨_, if_neg hfull, rfl, rfl, rfl⟩

/-- What emitting a style can do. -/
theorem push_style_spec (limits : SerializerLimits) (e : StyleEmission) (value : StyleValue) :
    (∃ e', e.push limits value = (true, e') ∧ e'.styles = Firsts.add (·.id) e.styles value ∧
      e'.truncation = e.truncation) ∨
    (∃ e', e.push limits value = (false, e') ∧ e'.styles = e.styles ∧ e'.truncation ≠ none) := by
  rw [StyleEmission.push]
  by_cases hseen : value.id ∈ e.seen
  · rw [if_pos hseen]
    exact Or.inl ⟨e, rfl, (Firsts.add_of_mem hseen).symm, rfl⟩
  · rw [if_neg hseen]
    by_cases hbytes : limits.encodedBytes < e.encoded + byteLength value.toJs
    · exact Or.inr ⟨_, if_pos hbytes, rfl, Option.some_ne_none _⟩
    · exact Or.inl ⟨_, if_neg hbytes, (Firsts.add_of_not_mem hseen).symm, rfl⟩

/-- From `e` to `e'` the styles have been emitted, each once, up to a limit. -/
structure Emitted (values : List StyleValue) (e e' : StyleEmission) : Prop where
  start : e'.styles <+: Firsts.addAll (·.id) e.styles values
  whole : e'.truncation = none →
    e.truncation = none ∧ e'.styles = Firsts.addAll (·.id) e.styles values

theorem Emitted.cut {values : List StyleValue} (hstyles : e'.styles = e.styles)
    (htruncation : e'.truncation ≠ none) : Emitted values e e' :=
  ⟨hstyles ▸ Firsts.prefix_addAll, fun h => absurd h htruncation⟩

/-- Both passes, one after the other. -/
theorem Emitted.append {values more : List StyleValue} {e₁ e₂ : StyleEmission}
    (h : Emitted values e e₁) (hwhole : e₁.truncation = none) (hmore : Emitted more e₁ e₂) :
    Emitted (values ++ more) e e₂ := by
  have ⟨hopen, hstyles⟩ := h.whole hwhole
  refine ⟨?_, fun hnone => ⟨hopen, ?_⟩⟩
  · rw [Firsts.addAll_append, ← hstyles]
    exact hmore.start
  · rw [Firsts.addAll_append, ← hstyles]
    exact (hmore.whole hnone).2

theorem Emitted.append_of_cut {values more : List StyleValue} {e₁ : StyleEmission}
    (h : Emitted values e e₁) (hcut : e₁.truncation ≠ none) : Emitted (values ++ more) e e₁ := by
  refine ⟨h.start.trans ?_, fun hnone => absurd hnone hcut⟩
  rw [Firsts.addAll_append]
  exact Firsts.prefix_addAll

/-- **A pass emits its styles in order**, each once, up to a limit. -/
theorem emitStyles_spec {xs : List α} (h : emitStyles limits style xs e = .ok e') :
    Emitted (xs.filterMap (content style)) e e' := by
  induction xs generalizing e with
  | nil =>
      obtain rfl := Except.ok.inj h
      exact ⟨List.prefix_rfl, fun hwhole => ⟨hwhole, rfl⟩⟩
  | cons raw rest ih =>
      rw [emitStyles] at h
      rcases consider_spec limits e with ⟨e₁, hconsider, hstyles, hopen, hopen₁⟩ |
        ⟨e₁, hconsider, hstyles, hcut⟩
      · simp only [hconsider] at h
        obtain ⟨value, hvalue, h⟩ := Guard.bind_eq_ok.1 h
        have hcontent := content_eq hvalue
        cases value with
        | none =>
            have ⟨hstart, hwhole⟩ := ih h
            rw [hstyles] at hstart hwhole
            rw [List.filterMap_cons_none hcontent]
            exact ⟨hstart, fun hnone => ⟨hopen, (hwhole hnone).2⟩⟩
        | some value =>
            rw [List.filterMap_cons_some hcontent]
            rcases push_style_spec limits e₁ value with ⟨e₂, hpush, hadd, _⟩ |
              ⟨e₂, hpush, hstyles₂, hcut⟩
            · simp only [hpush] at h
              have ⟨hstart, hwhole⟩ := ih h
              rw [hadd, hstyles] at hstart hwhole
              exact ⟨hstart, fun hnone => ⟨hopen, (hwhole hnone).2⟩⟩
            · simp only [hpush] at h
              obtain rfl := Except.ok.inj h
              exact .cut (hstyles₂.trans hstyles) hcut
      · simp only [hconsider] at h
        obtain rfl := Except.ok.inj h
        exact .cut hstyles hcut

/-- A pass that is cut before it begins emits nothing. -/
theorem styles_emitStyles_of_cut {xs : List α} (he : e.truncation ≠ none)
    (h : emitStyles limits style xs e = .ok e') : e'.styles = e.styles ∧ e'.truncation ≠ none := by
  cases xs with
  | nil =>
      obtain rfl := Except.ok.inj h
      exact ⟨rfl, he⟩
  | cons raw rest =>
      rw [emitStyles] at h
      rcases consider_spec limits e with ⟨_, _, _, hopen, _⟩ | ⟨e₁, hconsider, hstyles, hcut⟩
      · exact absurd hopen he
      · simp only [hconsider] at h
        obtain rfl := Except.ok.inj h
        exact ⟨hstyles, hcut⟩

end Emitted

namespace StyleFigma

variable {ρ : Type} (figma : StyleFigma ρ) (cm : CaseMapping)

/-! ## What a read gives -/

/-- The matching local styles, in order. -/
def matchingLocal : List StyleValue :=
  match figma.localStyles with
  | .ok raws => raws.filterMap (serializeStyle cm)
  | .error _ => []

/-- The styles that a node refers to. -/
def references (node : ρ) : List JsString :=
  match figma.styleIds node with
  | .ok ids => ids
  | .error _ => []

/-- The style of an id, if the id resolves to one. -/
def resolved (id : JsString) : Option StyleValue :=
  figma.getStyleByIdAsync.bind fun lookup => content (resolveStyle cm lookup) id

/-- The matching styles that the nodes refer to, in the order of the first references, but for
those already listed. -/
def matchingReferenced (nodes : List ρ) (listed : List JsString) : List StyleValue :=
  let pending := (nodes.flatMap figma.references).filter fun id => id ∉ listed
  (Firsts.firsts (fun id => id) pending).filterMap (figma.resolved cm)

/-- The local styles and then the referenced ones, each style once. -/
def merged (source : StyleSource) (nodes : List ρ) : List StyleValue :=
  let matching := if source = .referenced then [] else figma.matchingLocal cm
  Firsts.firsts (·.id) (matching ++
    if source = .local then [] else figma.matchingReferenced cm nodes (matching.map (·.id)))

variable {figma cm} {limits : SerializerLimits} {height : ρ → ℕ} {selector : Option Selector}
  {e e' : StyleEmission}

theorem emitLocal_spec (h : figma.emitLocal cm limits e = .ok e') :
    Emitted (figma.matchingLocal cm) e e' := by
  obtain ⟨raws, hraws, h⟩ := Guard.bind_eq_ok.1 h
  rw [matchingLocal, hraws]
  exact emitStyles_spec h

theorem flatten_of_mapM {nodes : List ρ} {found : List (List JsString)}
    (h : nodes.mapM figma.styleIds = .ok found) : found.flatten = nodes.flatMap figma.references := by
  have hall := Guard.mapM_eq_ok.1 h
  clear h
  induction hall with
  | nil => rfl
  | cons hfirst _ ih => rw [List.flatten_cons, List.flatMap_cons, references, hfirst, ih]

variable [DecidableEq ρ]

/-- **The second pass** adds the styles that the nodes refer to, or is cut. -/
theorem emitReferenced_spec (htree : figma.IsTree height)
    (hids : figma.OwnIds (figma.scope height selector)) (he : e.truncation = none)
    (h : figma.emitReferenced cm limits selector e = .ok e') :
    Emitted (figma.matchingReferenced cm (figma.scope height selector) e.seen) e e' := by
  rw [emitReferenced] at h
  cases hlookup : figma.getStyleByIdAsync with
  | none =>
      rw [hlookup] at h
      cases h
  | some lookup =>
      rw [hlookup] at h
      obtain ⟨found, hfound, h⟩ := Guard.bind_eq_ok.1 h
      obtain ⟨⟨pending, truncation⟩, hread, h⟩ := Guard.bind_eq_ok.1 h
      rw [Figma.scope_eq hfound] at hids ⊢
      obtain ⟨⟨ids, hids, rfl⟩, rfl⟩ := (ThrowingFigma.readForest_eq_ok htree hids).1 hread
      by_cases hfits : (figma.visibleNodes height found.roots).length ≤ limits.visitedNodes
      · rw [if_pos hfits] at h
        rw [List.take_of_length_le hfits] at hids
        have hemitted := emitStyles_spec h
        rw [Firsts.foldl_addAll, flatten_of_mapM hids] at hemitted
        have hresolved : figma.resolved cm = content (resolveStyle cm lookup) := by
          funext id
          rw [resolved, hlookup, Option.bind_some]
        rw [matchingReferenced, hresolved]
        exact hemitted
      · rw [if_neg hfits] at h
        have hmark : (e.mark (.nodeLimit limits.visitedNodes)).truncation ≠ none := by
          rw [StyleEmission.mark, he]
          exact Option.some_ne_none _
        have ⟨hstyles, hcut⟩ := styles_emitStyles_of_cut hmark h
        refine .cut (hstyles.trans ?_) hcut
        rw [StyleEmission.mark, he]
        rfl

omit [DecidableEq ρ] in
/-- Whether a listed style has an id is a matter of the styles, not of how often they come. -/
theorem matchingReferenced_congr {nodes : List ρ} {listed others : List JsString}
    (h : ∀ id, id ∈ listed ↔ id ∈ others) :
    figma.matchingReferenced cm nodes listed = figma.matchingReferenced cm nodes others := by
  rw [matchingReferenced, matchingReferenced,
    List.filter_congr fun id _ => decide_eq_decide.2 (not_congr (h id))]

/-- What a read emits. -/
theorem getStyles_emitted (htree : figma.IsTree height)
    (hids : figma.OwnIds (figma.scope height selector)) {source : Option StyleSource}
    {r : GetStylesResult} (h : figma.getStyles cm limits selector source = .ok r) :
    r.styles <+: figma.merged cm (source.getD .both) (figma.scope height selector) ∧
      (r.truncated = false →
        r.styles = figma.merged cm (source.getD .both) (figma.scope height selector)) := by
  obtain ⟨e₁, hlocal, h⟩ := Guard.bind_eq_ok.1 h
  obtain ⟨e₂, hreferenced, h⟩ := Guard.bind_eq_ok.1 h
  obtain rfl := Except.ok.inj h
  rw [merged]
  generalize source.getD .both = source at hlocal hreferenced ⊢
  let matching := if source = .referenced then [] else figma.matchingLocal cm
  let nodes := figma.scope height selector
  have hfirst : Emitted matching {} e₁ := by
    cases source with
    | referenced =>
        obtain rfl := Except.ok.inj hlocal
        exact ⟨List.prefix_rfl, fun _ => ⟨rfl, rfl⟩⟩
    | «local» | both => exact emitLocal_spec hlocal
  suffices hemitted : Emitted (matching ++ if source = .local then [] else
      figma.matchingReferenced cm nodes (matching.map (·.id))) {} e₂ by
    refine ⟨hemitted.start, fun hwhole => (hemitted.whole ?_).2⟩
    exact Option.not_isSome_iff_eq_none.1 (Bool.eq_false_iff.1 hwhole)
  by_cases hcut : e₁.truncation = none
  · have hseen : ∀ id, id ∈ e₁.seen ↔ id ∈ matching.map (·.id) := by
      intro id
      rw [StyleEmission.seen, (hfirst.whole hcut).2, Firsts.mem_keys_addAll]
      exact or_iff_right List.not_mem_nil
    refine hfirst.append hcut ?_
    rw [← matchingReferenced_congr hseen]
    cases source with
    | «local» =>
        obtain rfl := Except.ok.inj hreferenced
        exact ⟨List.prefix_rfl, fun hnone => ⟨hnone, rfl⟩⟩
    | referenced | both =>
        rw [hcut] at hreferenced
        exact emitReferenced_spec htree hids hcut hreferenced
  · rw [if_neg (by simp [hcut])] at hreferenced
    obtain rfl := Except.ok.inj hreferenced
    exact hfirst.append_of_cut hcut

omit [DecidableEq ρ] in
theorem mem_merged_of_local {source : StyleSource} (hsource : source ≠ .referenced) {nodes : List ρ}
    {raws : List JsValue} (hraws : figma.localStyles = .ok raws) {raw : JsValue} (hraw : raw ∈ raws)
    {style : StyleValue} (hstyle : serializeStyle cm raw = some style) :
    style.id ∈ (figma.merged cm source nodes).map (·.id) := by
  rw [merged, if_neg hsource, matchingLocal, hraws]
  refine Firsts.mem_keys_addAll.2 (Or.inr (List.mem_map_of_mem (List.mem_append_left _ ?_)))
  exact List.mem_filterMap.2 ⟨raw, hraw, hstyle⟩

omit [DecidableEq ρ] in
theorem mem_merged_of_reference {source : StyleSource} (hsource : source ≠ .local) {nodes : List ρ}
    {node : ρ} (hnode : node ∈ nodes) {id : JsString} (hid : id ∈ figma.references node)
    {style : StyleValue} (hstyle : figma.resolved cm id = some style) (hstyleId : style.id = id) :
    id ∈ (figma.merged cm source nodes).map (·.id) := by
  rw [merged, if_neg hsource]
  refine Firsts.mem_keys_addAll.2 (Or.inr ?_)
  generalize (if source = .referenced then [] else figma.matchingLocal cm) = matching
  rw [List.map_append, List.mem_append]
  by_cases hlisted : id ∈ matching.map (·.id)
  · exact Or.inl hlisted
  · refine Or.inr (List.mem_map.2 ⟨style, List.mem_filterMap.2 ⟨id, ?_, hstyle⟩, hstyleId⟩)
    have hpending : id ∈ (nodes.flatMap figma.references).filter
        fun id => id ∉ matching.map (·.id) :=
      List.mem_filter.2 ⟨List.mem_flatMap.2 ⟨node, hnode, hid⟩, decide_eq_true hlisted⟩
    exact Firsts.mem_firsts_self.2 hpending

omit [DecidableEq ρ] in
theorem nodup_merged (source : StyleSource) (nodes : List ρ) :
    ((figma.merged cm source nodes).map (·.id)).Nodup := Firsts.nodup_addAll List.nodup_nil

/-- **A read of styles** lists no style twice. It lists the local styles and then the referenced
ones, up to a limit; a read that is not truncated lists all of them, with every local style and
every style of a reference that resolves. -/
theorem getStyles_merged (htree : figma.IsTree height)
    (hids : figma.OwnIds (figma.scope height selector)) {source : Option StyleSource}
    {r : GetStylesResult} (h : figma.getStyles cm limits selector source = .ok r) :
    let listed := figma.merged cm (source.getD .both) (figma.scope height selector)
    (r.styles.map (·.id)).Nodup ∧ r.styles <+: listed ∧
      (r.truncated = false → r.styles = listed ∧
        (source ≠ some .referenced → ∀ raws, figma.localStyles = .ok raws → ∀ raw ∈ raws, ∀ style,
          serializeStyle cm raw = some style → style.id ∈ r.styles.map (·.id)) ∧
        (source ≠ some .local → ∀ node ∈ figma.scope height selector, ∀ ids,
          figma.styleIds node = .ok ids → ∀ id ∈ ids, ∀ style, figma.resolved cm id = some style →
            style.id = id → id ∈ r.styles.map (·.id))) := by
  intro listed
  obtain ⟨hstart, hwhole⟩ := getStyles_emitted htree hids h
  refine ⟨(nodup_merged _ _).sublist (hstart.sublist.map _), hstart, fun hnone => ?_⟩
  rw [hwhole hnone]
  refine ⟨rfl, fun hsource raws hraws raw hraw style hstyle => ?_,
    fun hsource node hnode ids hids id hid style hstyle hstyleId => ?_⟩
  · refine mem_merged_of_local (fun heq => hsource ?_) hraws hraw hstyle
    cases source with
    | none => cases heq
    | some source => exact congrArg some heq
  · refine mem_merged_of_reference (fun heq => hsource ?_) hnode ?_ hstyle hstyleId
    · cases source with
      | none => cases heq
      | some source => exact congrArg some heq
    · rwa [references, hids]

/-- A document with a local style, which its frame uses, and a layer that uses a style of a
library. -/
def styled : StyleFigma ℕ where
  toFigma :=
    { Figma.framed with
      get := fun node key =>
        if key = "id" then .string (text (if node = 0 then "1:2" else "1:3"))
        else if key = "type" then .string (text (if node = 2 then "PAGE" else "FRAME"))
        else if key = "fillStyleId" then .string (text (if node = 0 then "S:1" else "S:2"))
        else .undefined
      children_length := Figma.framed_children_length
      get_units := fun node key s h => by
        split_ifs at h <;> exact JsValue.string.inj h ▸ Utf16.units_ofString _
      currentPage_isPage := by decide
      getNodeByIdAsync := some fun id => .found (if id = text "1:2" then 0 else 1) }
  throws _ _ := false
  getLocalPaintStylesAsync :=
    some (some [.object [(text "id", word "S:1"), (text "type", word "PAINT")]])
  getLocalTextStylesAsync := some (some [])
  getLocalEffectStylesAsync := some (some [])
  getLocalGridStylesAsync := some (some [])
  getStyleByIdAsync :=
    some fun id => some (.object [(text "id", .string id), (text "type", word "GRID")])
  styleSegments _ := none

/-- The frame and the layer in it. -/
def frameAndLayer : Option Selector := some (.nodeIds [text "1:2", text "1:3"])

/-- The walk meets the layer twice. Its style is listed once. -/
theorem getStyles_merged_styled :
    ∃ r, styled.getStyles (fun _ u _ => [u]) {} frameAndLayer none = .ok r ∧
      styled.scope (fun node => 1 - node) frameAndLayer = [0, 1, 1] ∧
      (r.styles.map (·.id)).Nodup ∧ r.styles.map (·.id) = [text "S:1", text "S:2"] := by
  have hlisted : ((styled.getStyles (fun _ u _ => [u]) {} frameAndLayer none).toOption.map
      fun r => r.styles.map (·.id)) = some [text "S:1", text "S:2"] := by
    decide +kernel
  obtain ⟨r, hr, hlisted⟩ := Option.map_eq_some_iff.1 hlisted
  have hread := Guard.toOption_eq_some.1 hr
  have hnodes : styled.scope (fun node => 1 - node) frameAndLayer = [0, 1, 1] := by
    decide +kernel
  have htree : styled.IsTree fun node => 1 - node := by
    intro node child hchild
    have hmem := (Host.mem_visibleChildren _).1 hchild |>.1
    simp only [styled, Figma.framed] at hmem
    split_ifs at hmem with hnode
    · obtain rfl := List.mem_singleton.1 hmem
      rw [hnode]
      exact Nat.zero_lt_one
    · cases hmem
  have hids : styled.OwnIds (styled.scope (fun node => 1 - node) frameAndLayer) := by
    rw [hnodes]
    unfold Host.OwnIds
    decide +kernel
  exact ⟨r, hread, hnodes, (getStyles_merged htree hids hread).1, hlisted⟩

end StyleFigma

end FigmaDevMcp

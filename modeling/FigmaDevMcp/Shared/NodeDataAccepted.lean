import FigmaDevMcp.Shared.PaintsAccepted

set_option autoImplicit false

/-!
# Node data that is accepted

Which of the data that a read makes of a node the validator takes, at each level of detail.

* `TextValue.Fits`, `ComponentValue.Fits`, `NodeData.Fits`: lists, counts and names within bounds;
* `parseTextValue_isOk`, `parseComponentValue_isOk`, …: the parts of the data;
* `parseNodeData_isOk`: **which data is accepted**.
-/

namespace FigmaDevMcp

/-! ## Within the bounds -/

/-- What the validator bounds of a range. -/
structure StyledTextRange.Fits (r : StyledTextRange) : Prop where
  start : SafeInteger r.start
  stop : SafeInteger r.stop
  paints : PaintsFit r.style.paints

/-- What the validator bounds of a text. -/
structure TextValue.Fits (t : TextValue) : Prop where
  paints : PaintsFit t.defaultStyle.paints
  ranges : t.styledRanges.length ≤ maxReturnedNodes
  each : ∀ r ∈ t.styledRanges, r.Fits

/-- What the validator bounds of a component. -/
structure ComponentValue.Fits (c : ComponentValue) : Prop where
  componentId : Plugin.IsIdentifier c.componentId
  properties : c.properties.length ≤ maxReturnedNodes
  componentSetId : ∀ id ∈ c.componentSetId, Plugin.IsIdentifier id

/-- The name of a style may be shown. -/
def StyleReference.Fits (r : StyleReference) : Prop :=
  ∀ name ∈ r.name, utf8ByteLength name ≤ maxDisplayTextBytes

/-- What the validator bounds of the styles and variables of a node. -/
structure ReferencesFit (styles : List StyleReference) (variables_ : List VariableReference) :
    Prop where
  styleCount : styles.length ≤ maxReturnedNodes
  variableCount : variables_.length ≤ maxReturnedNodes
  each : ∀ r ∈ styles, r.Fits

/-- What the validator bounds of the data of a compact read. -/
structure CompactNodeData.Fits (d : CompactNodeData) : Prop where
  references : ReferencesFit d.styleReferences d.variableReferences
  textSummary : ∀ t ∈ d.textSummary, t.characterCount ≤ ResultValidation.maxSafeInteger
  component : ∀ c ∈ d.component, c.Fits
  inst : ∀ c ∈ d.inst, c.Fits

/-- What the validator bounds of the data of a full read. -/
structure FullNodeData.Fits (d : FullNodeData) : Prop where
  paints : PaintsFit d.paints
  effects : d.effects.length ≤ maxReturnedNodes
  references : ReferencesFit d.styleReferences d.variableReferences
  textValue : ∀ t ∈ d.textValue, t.Fits
  component : ∀ c ∈ d.component, c.Fits
  inst : ∀ c ∈ d.inst, c.Fits
  strokes : ∀ s ∈ d.strokes, s.Fits

/-- What the validator bounds of the data of a node. -/
def NodeData.Fits : NodeData → Prop
  | .minimal => True
  | .compact data => data.Fits
  | .full data => data.Fits

/-- The detail that the data of a node has. -/
def NodeData.detail : NodeData → DetailLevel
  | .minimal => .minimal
  | .compact _ => .compact
  | .full _ => .full

namespace ResultValidation

open JsValue

/-! ## Text -/

theorem parseStyledRange_isOk (r : StyledTextRange) (label : JsString) :
    (parseStyledRange r.toJs label).isOk = true ↔ r.Fits := by
  rw [parseStyledRange, StyledTextRange.toJs]
  generalize hmembers : member "start" (.rational r.start) ++ member "end" (.rational r.stop) ++
    member "style" r.style.toJs = members
  have hexact : Exactly members ["start", "end", "style"] [] :=
    ⟨by simp [← hmembers, member],
      by simp [← hmembers, lookup_append, Plugin.lookup_member]⟩
  have hstart : lookup (text "start") members = some (.rational r.start) := by
    simp [← hmembers, lookup_append, Plugin.lookup_member]
  have hstop : lookup (text "end") members = some (.rational r.stop) := by
    simp [← hmembers, lookup_append, Plugin.lookup_member]
  have hstyle : lookup (text "style") members = some r.style.toJs := by
    simp [← hmembers, lookup_append, Plugin.lookup_member]
  rw [isOk_exact_bind hexact]
  refine (isOk_bind_and fun _ _ => isOk_bind_and fun _ _ =>
    isOk_bind_and (p := True) fun _ _ => iff_true_intro rfl).trans ?_
  rw [required_isOk hstart (integerValue_isOk r.start), required_isOk hstop (integerValue_isOk r.stop),
    required_isOk hstyle (parseTextStyle_isOk r.style)]
  constructor
  · rintro ⟨hs, he, hp, -⟩
    exact ⟨hs, he, hp⟩
  · intro h
    exact ⟨h.start, h.stop, h.paints, trivial⟩

theorem parseTextValue_isOk (t : TextValue) (label : JsString) :
    (parseTextValue t.toJs label).isOk = true ↔ t.Fits := by
  rw [parseTextValue, TextValue.toJs]
  generalize hmembers : member "characters" (.string t.characters) ++
    member "defaultStyle" t.defaultStyle.toJs ++
    member "styledRanges" (.array (t.styledRanges.map StyledTextRange.toJs)) ++
    optional "alignHorizontal" (t.alignHorizontal.map fun a => FigmaDevMcp.word a.word) ++
    optional "alignVertical" (t.alignVertical.map fun a => FigmaDevMcp.word a.word) ++
    optional "autoResize" (t.autoResize.map fun a => FigmaDevMcp.word a.word) = members
  have hknown : Known (["characters", "defaultStyle", "styledRanges"] ++
      ["alignHorizontal", "alignVertical", "autoResize"]) members := by
    rw [← hmembers]
    repeat' apply Known.append
    all_goals first | exact known_member (by simp) | exact known_optional (by simp)
  have hexact : Exactly members ["characters", "defaultStyle", "styledRanges"]
      ["alignHorizontal", "alignVertical", "autoResize"] :=
    ⟨hknown, by simp [← hmembers, lookup_append, Plugin.lookup_member]⟩
  have hcharacters : lookup (text "characters") members = some (.string t.characters) := by
    simp [← hmembers, lookup_append, Plugin.lookup_member]
  have hstyle : lookup (text "defaultStyle") members = some t.defaultStyle.toJs := by
    simp [← hmembers, lookup_append, Plugin.lookup_member]
  have hranges : lookup (text "styledRanges") members =
      some (.array (t.styledRanges.map StyledTextRange.toJs)) := by
    simp [← hmembers, lookup_append, Plugin.lookup_member]
  have hhorizontal : ∀ a : TextAlignHorizontal,
      a.word ∈ ["left", "center", "right", "justified"] := by
    intro a
    cases a <;> decide
  have hvertical : ∀ a : TextAlignVertical, a.word ∈ ["top", "center", "bottom"] := by
    intro a
    cases a <;> decide
  have hresize : ∀ a : TextAutoResize,
      a.word ∈ ["none", "widthAndHeight", "height", "truncate"] := by
    intro a
    cases a <;> decide
  rw [isOk_exact_bind hexact]
  refine (isOk_bind_iff (required_ok hcharacters (stringValue_ok t.characters)) fun _ =>
    isOk_bind_and fun _ _ => isOk_bind_and (p := True) fun _ _ => iff_true_intro ?_).trans ?_
  · refine isOk_bind_of (permitted_map_ok (o := t.alignHorizontal) ?_ fun a =>
        oneOfValue_ok (hhorizontal a)) fun _ =>
      isOk_bind_of (permitted_map_ok (o := t.alignVertical) ?_ fun a =>
        oneOfValue_ok (hvertical a)) fun _ =>
      isOk_bind_of (permitted_map_ok (o := t.autoResize) ?_ fun a =>
        oneOfValue_ok (hresize a)) fun _ => rfl
    all_goals simp [← hmembers, lookup_append, Plugin.lookup_member, Plugin.lookup_optional]
  · rw [required_isOk hstyle (parseTextStyle_isOk t.defaultStyle),
      required_isOk hranges (arrayValue_isOk parseStyledRange_isOk)]
    constructor
    · rintro ⟨hp, ⟨hlength, heach⟩, -⟩
      exact ⟨hp, hlength, heach⟩
    · intro h
      exact ⟨h.paints, ⟨h.ranges, h.each⟩, trivial⟩

theorem integerValue_natural (n : ℕ) (label : JsString) :
    (integerValue (natural n) label).isOk = true ↔ n ≤ maxSafeInteger := by
  rw [integerValue, isOk_map, integer_isOk, and_self]

theorem parseTextSummary_isOk (t : TextSummary) (label : JsString) :
    (parseTextSummary t.toJs label).isOk = true ↔ t.characterCount ≤ maxSafeInteger := by
  rw [parseTextSummary, TextSummary.toJs]
  generalize hmembers : member "characterCount" (natural t.characterCount) ++
    member "preview" (.string t.preview) = members
  have hexact : Exactly members ["characterCount", "preview"] [] :=
    ⟨by simp [← hmembers, member],
      by simp [← hmembers, lookup_append, Plugin.lookup_member]⟩
  have hcount : lookup (text "characterCount") members = some (natural t.characterCount) := by
    simp [← hmembers, lookup_append, Plugin.lookup_member]
  have hpreview : lookup (text "preview") members = some (.string t.preview) := by
    simp [← hmembers, lookup_append, Plugin.lookup_member]
  rw [isOk_exact_bind hexact]
  refine (isOk_bind_and (p := True) fun _ _ => iff_true_intro
    (isOk_bind_of (required_ok hpreview (stringValue_ok t.preview)) fun _ => rfl)).trans ?_
  rw [required_isOk hcount (integerValue_natural t.characterCount), and_true]

/-! ## Components -/

theorem parseComponentProperty_isOk (v : ComponentPropertyValue) (label : JsString) :
    (parseComponentProperty v.toJs label).isOk = true := by
  have hexact : ∀ kind value, Exactly (member "kind" (word kind) ++ member "value" value)
      ["kind", "value"] [] := by
    intro kind value
    exact exactly_of (K := ["kind", "value"]) (by simp [member]) (by simp) (by simp)
  have htext : ∀ kind s, kind ∈ ["text", "instanceSwap", "variant"] →
      (parseComponentProperty (.object (member "kind" (word kind) ++ member "value" (.string s)))
        label).isOk = true := by
    intro kind s hkind
    have hfield : (JsValue.object (member "kind" (word kind) ++ member "value" (.string s))).field
        "kind" = word kind := by
      simp [lookup_append, Plugin.lookup_member]
    rw [parseComponentProperty, isOk_exact_bind (hexact _ _)]
    simp only [hfield, any_isWord_word, hkind, decide_true, if_true]
    refine isOk_bind_of (required_ok ?_ (stringValue_ok s)) fun _ => rfl
    simp [lookup_append, Plugin.lookup_member]
  cases v with
  | text value => exact htext "text" value (by decide)
  | instanceSwap value => exact htext "instanceSwap" value (by decide)
  | variant value => exact htext "variant" value (by decide)
  | boolean value =>
      have hfield : (JsValue.object (member "kind" (word "boolean") ++
          member "value" (.bool value))).field "kind" = word "boolean" := by
        simp [lookup_append, Plugin.lookup_member]
      have hkind : "boolean" ∉ ["text", "instanceSwap", "variant"] := by decide
      rw [parseComponentProperty, ComponentPropertyValue.toJs, isOk_exact_bind (hexact _ _)]
      simp only [hfield, any_isWord_word, isWord_word, hkind, decide_true, decide_false,
        Bool.false_eq_true, if_true, if_false]
      refine isOk_bind_of (required_ok ?_ (booleanValue_ok value)) fun _ => rfl
      simp [lookup_append, Plugin.lookup_member]

theorem parseNamedComponentProperty_isOk (p : NamedComponentProperty) (label : JsString) :
    (parseNamedComponentProperty p.toJs label).isOk = true := by
  rw [parseNamedComponentProperty, NamedComponentProperty.toJs]
  generalize hmembers : member "name" (.string p.name) ++ member "value" p.value.toJs = members
  have hexact : Exactly members ["name", "value"] [] :=
    ⟨by simp [← hmembers, member],
      by simp [← hmembers, lookup_append, Plugin.lookup_member]⟩
  rw [isOk_exact_bind hexact]
  refine isOk_bind_of (required_ok ?_ (stringValue_ok p.name)) fun _ =>
    isOk_bind_of (required_ok ?_ (parseComponentProperty_isOk p.value)) fun _ => rfl
  all_goals simp [← hmembers, lookup_append, Plugin.lookup_member]

theorem identifier_isOk (s : JsString) (label : JsString) :
    (identifier (.string s) label).isOk = true ↔ Plugin.IsIdentifier s := by
  rw [← identifierValue_isOk s label, identifierValue, isOk_map]

/-- An identifier that may be missing. -/
theorem optionalId_map_isOk {members : List Member} {key : String} {value : Option JsString}
    (hlookup : lookup (text key) members = value.map .string) :
    (optionalString (.object members) key identifier).isOk = true ↔
      ∀ id ∈ value, Plugin.IsIdentifier id := by
  rw [optionalString, optionalMember_isOk
    (p := fun v => (identifier v (text key)).isOk = true) fun _ => Iff.rfl, hlookup]
  cases value with
  | none => simp
  | some id => simp [identifier_isOk]

theorem parseComponentValue_isOk (c : ComponentValue) (label : JsString) :
    (parseComponentValue c.toJs label).isOk = true ↔ c.Fits := by
  rw [parseComponentValue, ComponentValue.toJs]
  generalize hmembers : member "componentId" (.string c.componentId) ++
    member "properties" (.array (c.properties.map NamedComponentProperty.toJs)) ++
    optional "componentSetId" (c.componentSetId.map .string) = members
  have hknown : Known (["componentId", "properties"] ++ ["componentSetId"]) members := by
    rw [← hmembers]
    repeat' apply Known.append
    all_goals first | exact known_member (by simp) | exact known_optional (by simp)
  have hexact : Exactly members ["componentId", "properties"] ["componentSetId"] :=
    ⟨hknown, by simp [← hmembers, lookup_append, Plugin.lookup_member]⟩
  have hid : lookup (text "componentId") members = some (.string c.componentId) := by
    simp [← hmembers, lookup_append, Plugin.lookup_member]
  have hproperties : lookup (text "properties") members =
      some (.array (c.properties.map NamedComponentProperty.toJs)) := by
    simp [← hmembers, lookup_append, Plugin.lookup_member]
  have hset : lookup (text "componentSetId") members = c.componentSetId.map .string := by
    simp [← hmembers, lookup_append, Plugin.lookup_member, Plugin.lookup_optional]
  have hoptional : (optionalId (.object members) "componentSetId").isOk = true ↔
      ∀ id ∈ c.componentSetId, Plugin.IsIdentifier id := by
    rw [← optionalId_map_isOk hset, optionalId]
    exact (isOk_bind_and (p := True) fun _ _ => iff_true_intro rfl).trans (and_iff_left trivial)
  rw [isOk_exact_bind hexact]
  refine (isOk_bind_and fun _ _ => isOk_bind_and fun _ _ =>
    isOk_bind_and (p := True) fun _ _ => iff_true_intro rfl).trans ?_
  rw [required_isOk hid (identifierValue_isOk c.componentId),
    required_isOk hproperties (arrayValue_length parseNamedComponentProperty_isOk), hoptional]
  constructor
  · rintro ⟨hi, hp, hs, -⟩
    exact ⟨hi, hp, hs⟩
  · intro h
    exact ⟨h.componentId, h.properties, h.componentSetId, trivial⟩

/-! ## Geometry and references -/

theorem parseRect_isOk (r : Rect) (label : JsString) : (parseRect r.toJs label).isOk = true := by
  have hexact : Exactly (member "x" (.rational r.x) ++ member "y" (.rational r.y) ++
      member "width" (.rational r.width) ++ member "height" (.rational r.height))
      ["x", "y", "width", "height"] [] :=
    exactly_of (K := ["x", "y", "width", "height"]) (by simp [member]) (by simp) (by simp)
  rw [parseRect, Rect.toJs, isOk_exact_bind hexact]
  simp [lookup_append, Plugin.lookup_member, finite_rational, Guard.ok_bind]
  rfl

theorem parseGeometry_isOk (g : GeometryValue) (label : JsString) :
    (parseGeometry g.toJs label).isOk = true := by
  rw [parseGeometry, GeometryValue.toJs]
  generalize hmembers : member "rotation" (.rational g.rotation) ++
    member "opacity" (.rational g.opacity) ++ member "transform" g.transform.toJs ++
    optional "bounds" (g.bounds.map Rect.toJs) = members
  have hknown : Known (["rotation", "opacity", "transform"] ++ ["bounds"]) members := by
    rw [← hmembers]
    repeat' apply Known.append
    all_goals first | exact known_member (by simp) | exact known_optional (by simp)
  have hexact : Exactly members ["rotation", "opacity", "transform"] ["bounds"] :=
    ⟨hknown, by simp [← hmembers, lookup_append, Plugin.lookup_member]⟩
  rw [isOk_exact_bind hexact]
  refine isOk_bind_of (required_ok ?_ (finiteValue_ok g.rotation)) fun _ =>
    isOk_bind_of (required_ok ?_ (finiteValue_ok g.opacity)) fun _ =>
    isOk_bind_of (required_ok ?_ (parseTransform_isOk g.transform)) fun _ =>
    isOk_bind_of (permitted_map_ok (o := g.bounds) ?_ parseRect_isOk) fun _ => rfl
  all_goals simp [← hmembers, lookup_append, Plugin.lookup_member, Plugin.lookup_optional]

theorem parseConstraints_isOk (c : LayoutConstraints) (label : JsString) :
    (parseConstraints c.toJs label).isOk = true := by
  have haxis : ∀ a : ConstraintAxis, a.word ∈ constraintAxisValues := by
    intro a
    cases a <;> decide
  rw [parseConstraints, LayoutConstraints.toJs]
  generalize hmembers : member "horizontal" (word c.horizontal.word) ++
    member "vertical" (word c.vertical.word) = members
  have hexact : Exactly members ["horizontal", "vertical"] [] :=
    ⟨by simp [← hmembers, member],
      by simp [← hmembers, lookup_append, Plugin.lookup_member]⟩
  rw [isOk_exact_bind hexact]
  refine isOk_bind_of (required_ok ?_ (oneOfValue_ok (haxis c.horizontal))) fun _ =>
    isOk_bind_of (required_ok ?_ (oneOfValue_ok (haxis c.vertical))) fun _ => rfl
  all_goals simp [← hmembers, lookup_append, Plugin.lookup_member]

theorem parseStyleReference_isOk (r : StyleReference) (label : JsString) :
    (parseStyleReference r.toJs label).isOk = true ↔ r.Fits := by
  have hkinds : ∀ k : StyleKind, k.word ∈ ["paint", "stroke", "text", "effect", "grid"] := by
    intro k
    cases k <;> decide
  rw [parseStyleReference, StyleReference.toJs]
  generalize hmembers : member "id" (.string r.id) ++ member "kind" (word r.kind.word) ++
    optional "name" (r.name.map .string) = members
  have hknown : Known (["id", "kind"] ++ ["name"]) members := by
    rw [← hmembers]
    repeat' apply Known.append
    all_goals first | exact known_member (by simp) | exact known_optional (by simp)
  have hexact : Exactly members ["id", "kind"] ["name"] :=
    ⟨hknown, by simp [← hmembers, lookup_append, Plugin.lookup_member]⟩
  have hid : lookup (text "id") members = some (.string r.id) := by
    simp [← hmembers, lookup_append, Plugin.lookup_member]
  have hkind : lookup (text "kind") members = some (word r.kind.word) := by
    simp [← hmembers, lookup_append, Plugin.lookup_member]
  have hname : lookup (text "name") members = r.name.map .string := by
    simp [← hmembers, lookup_append, Plugin.lookup_member, Plugin.lookup_optional]
  rw [isOk_exact_bind hexact]
  refine (isOk_bind_iff (required_ok hid (stringValue_ok r.id)) fun _ =>
    isOk_bind_iff (required_ok hkind (oneOfValue_ok (hkinds r.kind))) fun _ =>
    isOk_bind_and (p := True) fun _ _ => iff_true_intro rfl).trans ?_
  rw [permitted_map_isOk hname displayValue_isOk, and_true]
  rfl

theorem parseVariableReference_isOk (r : VariableReference) (label : JsString) :
    (parseVariableReference r.toJs label).isOk = true := by
  rw [parseVariableReference, VariableReference.toJs]
  generalize hmembers : member "id" (.string r.id) ++ optional "name" (r.name.map .string) = members
  have hknown : Known (["id"] ++ ["name"]) members := by
    rw [← hmembers]
    repeat' apply Known.append
    all_goals first | exact known_member (by simp) | exact known_optional (by simp)
  have hexact : Exactly members ["id"] ["name"] :=
    ⟨hknown, by simp [← hmembers, lookup_append, Plugin.lookup_member]⟩
  have hid : lookup (text "id") members = some (.string r.id) := by
    simp [← hmembers, lookup_append, Plugin.lookup_member]
  have hname : lookup (text "name") members = r.name.map .string := by
    simp [← hmembers, lookup_append, Plugin.lookup_member, Plugin.lookup_optional]
  rw [isOk_exact_bind hexact]
  refine isOk_bind_of (required_ok hid (stringValue_ok r.id)) fun _ => isOk_bind_of ?_ fun _ => rfl
  refine optionalMember_of_lookup hname fun v hv => ?_
  cases hr : r.name with
  | none =>
      rw [hr] at hv
      cases hv
  | some name =>
      rw [hr] at hv
      rw [← Option.some.inj hv]
      rfl

/-! ## The data -/

theorem references_isOk {members : List Member} (label : JsString)
    {styles : List StyleReference} {variables_ : List VariableReference}
    (hstyles : lookup (text "styleReferences") members =
      some (.array (styles.map StyleReference.toJs)))
    (hvariables : lookup (text "variableReferences") members =
      some (.array (variables_.map VariableReference.toJs))) :
    ((required (.object members) "styleReferences" (arrayValue parseStyleReference) label).isOk =
        true ∧
      (required (.object members) "variableReferences" (arrayValue parseVariableReference)
        label).isOk = true) ↔ ReferencesFit styles variables_ := by
  rw [required_isOk hstyles (arrayValue_isOk parseStyleReference_isOk),
    required_isOk hvariables (arrayValue_length parseVariableReference_isOk)]
  constructor
  · rintro ⟨⟨hstyle, heach⟩, hvariable⟩
    exact ⟨hstyle, hvariable, heach⟩
  · intro h
    exact ⟨⟨h.styleCount, h.each⟩, h.variableCount⟩

theorem parseCompactData_isOk (d : CompactNodeData) (label : JsString) :
    (parseCompactData d.toJs label).isOk = true ↔ d.Fits := by
  rw [parseCompactData, CompactNodeData.toJs]
  generalize hmembers : optional "geometry" (d.geometry.map GeometryValue.toJs) ++
    member "styleReferences" (.array (d.styleReferences.map StyleReference.toJs)) ++
    member "variableReferences" (.array (d.variableReferences.map VariableReference.toJs)) ++
    optional "autoLayout" (d.autoLayout.map LayoutValue.toJs) ++
    optional "constraints" (d.constraints.map LayoutConstraints.toJs) ++
    optional "component" (d.component.map ComponentValue.toJs) ++
    optional "instance" (d.inst.map ComponentValue.toJs) ++
    optional "text" (d.textSummary.map TextSummary.toJs) = members
  have hknown : Known (["styleReferences", "variableReferences"] ++
      ["geometry", "constraints", "autoLayout", "text", "component", "instance"]) members := by
    rw [← hmembers]
    repeat' apply Known.append
    all_goals first | exact known_member (by simp) | exact known_optional (by simp)
  have hexact : Exactly members ["styleReferences", "variableReferences"]
      ["geometry", "constraints", "autoLayout", "text", "component", "instance"] :=
    ⟨hknown, by simp [← hmembers, lookup_append, Plugin.lookup_member]⟩
  have hstyles : lookup (text "styleReferences") members =
      some (.array (d.styleReferences.map StyleReference.toJs)) := by
    simp [← hmembers, lookup_append, Plugin.lookup_member, Plugin.lookup_optional]
  have hvariables : lookup (text "variableReferences") members =
      some (.array (d.variableReferences.map VariableReference.toJs)) := by
    simp [← hmembers, lookup_append, Plugin.lookup_member, Plugin.lookup_optional]
  have hgeometry : lookup (text "geometry") members = d.geometry.map GeometryValue.toJs := by
    simp [← hmembers, lookup_append, Plugin.lookup_member, Plugin.lookup_optional]
  have hconstraints : lookup (text "constraints") members =
      d.constraints.map LayoutConstraints.toJs := by
    simp [← hmembers, lookup_append, Plugin.lookup_member, Plugin.lookup_optional]
  have hlayout : lookup (text "autoLayout") members = d.autoLayout.map LayoutValue.toJs := by
    simp [← hmembers, lookup_append, Plugin.lookup_member, Plugin.lookup_optional]
  have htext : lookup (text "text") members = d.textSummary.map TextSummary.toJs := by
    simp [← hmembers, lookup_append, Plugin.lookup_member, Plugin.lookup_optional]
  have hcomponent : lookup (text "component") members = d.component.map ComponentValue.toJs := by
    simp [← hmembers, lookup_append, Plugin.lookup_member, Plugin.lookup_optional]
  have hinstance : lookup (text "instance") members = d.inst.map ComponentValue.toJs := by
    simp [← hmembers, lookup_append, Plugin.lookup_member, Plugin.lookup_optional]
  rw [isOk_exact_bind hexact]
  refine (isOk_bind_and fun _ _ => isOk_bind_and fun _ _ =>
    isOk_bind_iff (permitted_map_ok hgeometry parseGeometry_isOk) fun _ =>
    isOk_bind_iff (permitted_map_ok hconstraints parseConstraints_isOk) fun _ =>
    isOk_bind_iff (permitted_map_ok hlayout parseLayout_isOk) fun _ =>
    isOk_bind_and fun _ _ => isOk_bind_and fun _ _ =>
    isOk_bind_and (p := True) fun _ _ => iff_true_intro rfl).trans ?_
  rw [← and_assoc, references_isOk label hstyles hvariables,
    permitted_map_isOk htext parseTextSummary_isOk,
    permitted_map_isOk hcomponent parseComponentValue_isOk,
    permitted_map_isOk hinstance parseComponentValue_isOk]
  constructor
  · rintro ⟨hr, ht, hc, hi, -⟩
    exact ⟨hr, ht, hc, hi⟩
  · intro h
    exact ⟨h.references, h.textSummary, h.component, h.inst, trivial⟩

theorem parseFullData_isOk (d : FullNodeData) (label : JsString) :
    (parseFullData d.toJs label).isOk = true ↔ d.Fits := by
  rw [parseFullData, FullNodeData.toJs]
  generalize hmembers : member "styleReferences"
      (.array (d.styleReferences.map StyleReference.toJs)) ++
    member "variableReferences" (.array (d.variableReferences.map VariableReference.toJs)) ++
    member "paints" (.array (d.paints.map PaintValue.toJs)) ++
    member "effects" (.array (d.effects.map EffectValue.toJs)) ++
    optional "geometry" (d.geometry.map GeometryValue.toJs) ++
    optional "autoLayout" (d.autoLayout.map LayoutValue.toJs) ++
    optional "constraints" (d.constraints.map LayoutConstraints.toJs) ++
    optional "component" (d.component.map ComponentValue.toJs) ++
    optional "instance" (d.inst.map ComponentValue.toJs) ++
    optional "strokes" (d.strokes.map StrokeValue.toJs) ++
    optional "cornerRadius" (d.cornerRadius.map CornerRadiusValue.toJs) ++
    optional "cornerSmoothing" (d.cornerSmoothing.map .rational) ++
    optional "clipsContent" (d.clipsContent.map .bool) ++
    optional "blendMode" (d.blendMode.map fun m => FigmaDevMcp.word m.word) ++
    optional "text" (d.textValue.map TextValue.toJs) = members
  have hknown : Known (["paints", "effects", "styleReferences", "variableReferences"] ++
      ["geometry", "constraints", "autoLayout", "text", "component", "instance", "strokes",
        "cornerRadius", "cornerSmoothing", "clipsContent", "blendMode"]) members := by
    rw [← hmembers]
    repeat' apply Known.append
    all_goals first | exact known_member (by simp) | exact known_optional (by simp)
  have hexact : Exactly members ["paints", "effects", "styleReferences", "variableReferences"]
      ["geometry", "constraints", "autoLayout", "text", "component", "instance", "strokes",
        "cornerRadius", "cornerSmoothing", "clipsContent", "blendMode"] :=
    ⟨hknown, by simp [← hmembers, lookup_append, Plugin.lookup_member]⟩
  have hpaints : lookup (text "paints") members = some (.array (d.paints.map PaintValue.toJs)) := by
    simp [← hmembers, lookup_append, Plugin.lookup_member]
  have heffects : lookup (text "effects") members =
      some (.array (d.effects.map EffectValue.toJs)) := by
    simp [← hmembers, lookup_append, Plugin.lookup_member]
  have hstyles : lookup (text "styleReferences") members =
      some (.array (d.styleReferences.map StyleReference.toJs)) := by
    simp [← hmembers, lookup_append, Plugin.lookup_member]
  have hvariables : lookup (text "variableReferences") members =
      some (.array (d.variableReferences.map VariableReference.toJs)) := by
    simp [← hmembers, lookup_append, Plugin.lookup_member]
  have hgeometry : lookup (text "geometry") members = d.geometry.map GeometryValue.toJs := by
    simp [← hmembers, lookup_append, Plugin.lookup_member, Plugin.lookup_optional]
  have hconstraints : lookup (text "constraints") members =
      d.constraints.map LayoutConstraints.toJs := by
    simp [← hmembers, lookup_append, Plugin.lookup_member, Plugin.lookup_optional]
  have hlayout : lookup (text "autoLayout") members = d.autoLayout.map LayoutValue.toJs := by
    simp [← hmembers, lookup_append, Plugin.lookup_member, Plugin.lookup_optional]
  have htext : lookup (text "text") members = d.textValue.map TextValue.toJs := by
    simp [← hmembers, lookup_append, Plugin.lookup_member, Plugin.lookup_optional]
  have hcomponent : lookup (text "component") members = d.component.map ComponentValue.toJs := by
    simp [← hmembers, lookup_append, Plugin.lookup_member, Plugin.lookup_optional]
  have hinstance : lookup (text "instance") members = d.inst.map ComponentValue.toJs := by
    simp [← hmembers, lookup_append, Plugin.lookup_member, Plugin.lookup_optional]
  have hstrokes : lookup (text "strokes") members = d.strokes.map StrokeValue.toJs := by
    simp [← hmembers, lookup_append, Plugin.lookup_member, Plugin.lookup_optional]
  have hmode : ∀ m : BlendMode, m.word ∈ blendModeValues := by
    intro m
    cases m <;> decide
  rw [isOk_exact_bind hexact]
  refine (isOk_bind_and fun _ _ => isOk_bind_and fun _ _ =>
    isOk_bind_and fun _ _ => isOk_bind_and fun _ _ =>
    isOk_bind_iff (permitted_map_ok hgeometry parseGeometry_isOk) fun _ =>
    isOk_bind_iff (permitted_map_ok hconstraints parseConstraints_isOk) fun _ =>
    isOk_bind_iff (permitted_map_ok hlayout parseLayout_isOk) fun _ =>
    isOk_bind_and fun _ _ => isOk_bind_and fun _ _ => isOk_bind_and fun _ _ =>
    isOk_bind_and (p := True) fun _ _ => iff_true_intro ?_).trans ?_
  · refine isOk_bind_of (permitted_map_ok (o := d.cornerRadius) ?_ parseCornerRadius_isOk)
        fun _ =>
      isOk_bind_of (permitted_map_ok (o := d.cornerSmoothing) ?_ finiteValue_ok) fun _ =>
      isOk_bind_of (permitted_map_ok (o := d.clipsContent) ?_ booleanValue_ok) fun _ =>
      isOk_bind_of (permitted_map_ok (o := d.blendMode) ?_ fun m => oneOfValue_ok (hmode m))
        fun _ => rfl
    all_goals simp [← hmembers, lookup_append, Plugin.lookup_member, Plugin.lookup_optional]
  · rw [required_isOk hpaints (paintsValue_isOk d.paints),
      required_isOk heffects (arrayValue_length parseEffect_isOk),
      permitted_map_isOk htext parseTextValue_isOk,
      permitted_map_isOk hcomponent parseComponentValue_isOk,
      permitted_map_isOk hinstance parseComponentValue_isOk,
      permitted_map_isOk hstrokes parseStrokes_isOk]
    have hreferences := references_isOk label hstyles hvariables
    constructor
    · rintro ⟨hp, he, hs, hv, ht, hc, hi, hst, -⟩
      exact ⟨hp, he, hreferences.1 ⟨hs, hv⟩, ht, hc, hi, hst⟩
    · intro h
      exact ⟨h.paints, h.effects, (hreferences.2 h.references).1, (hreferences.2 h.references).2,
        h.textValue, h.component, h.inst, h.strokes, trivial⟩

theorem parseNodeData_isOk {detail : DetailLevel} {data : NodeData} (hdetail : data.detail = detail)
    (label : JsString) : (parseNodeData detail data.toJs label).isOk = true ↔ data.Fits := by
  subst hdetail
  cases data with
  | minimal => exact iff_of_true rfl trivial
  | compact data => exact parseCompactData_isOk data label
  | full data => exact parseFullData_isOk data label

end ResultValidation

end FigmaDevMcp

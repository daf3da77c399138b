import FigmaDevMcp.Shared.NodeDataParsing

set_option autoImplicit false

/-!
# Paints, strokes and styles that are accepted

The records that a read makes of the looks of a node are well formed whatever the host says, so the
validator refuses them only for a list that is too long.

* `PaintsFit`, `StrokeValue.Fits`: lists within the bound of a result;
* `required_isOk`, `permitted_map_isOk`: members of an object that is known;
* `parsePaint_isOk`, `parseStrokes_isOk`, `parseTextStyle_isOk`, …: **which records are accepted**.
-/

namespace FigmaDevMcp

/-! ## Within the bounds -/

/-- A number that the validator takes as a count. -/
def SafeInteger (q : ℚ) : Prop :=
  q.den = 1 ∧ 0 ≤ q.num ∧ q.num ≤ ResultValidation.maxSafeInteger

/-- The stops of a gradient. -/
def PaintValue.Fits : PaintValue → Prop
  | .gradient _ stops _ _ => stops.length ≤ maxReturnedNodes
  | _ => True

/-- What the validator bounds of a list of paints. -/
def PaintsFit (paints : List PaintValue) : Prop :=
  paints.length ≤ maxReturnedNodes ∧ ∀ p ∈ paints, p.Fits

/-- What the validator bounds of the strokes of a node. -/
structure StrokeValue.Fits (s : StrokeValue) : Prop where
  paints : PaintsFit s.paints
  dashPattern : ∀ d ∈ s.dashPattern, d.length ≤ maxReturnedNodes

namespace ResultValidation

open JsValue

/-! ## Members that are there -/

section Members

variable {members : List Member} {label : JsString} {parser : JsValue → JsString → Validated JsValue}
  {key : String} {p : Prop}

theorem required_isOk {value : JsValue} (hlookup : lookup (text key) members = some value)
    (h : ∀ label, (parser value label).isOk = true ↔ p) :
    (required (.object members) key parser label).isOk = true ↔ p := by
  rw [required, isOk_map, field_of_lookup hlookup, h]

/-- A member that may be missing, and is made of a value. -/
theorem permitted_map_isOk {α : Type} {o : Option α} {f : α → JsValue} {q : α → Prop}
    (hlookup : lookup (text key) members = o.map f)
    (h : ∀ a label, (parser (f a) label).isOk = true ↔ q a) :
    (permitted (.object members) key parser label).isOk = true ↔ ∀ a ∈ o, q a := by
  rw [permitted, isOk_map,
    optionalMember_isOk (p := fun v => (parser v (dot label key)).isOk = true) fun _ => Iff.rfl,
    hlookup]
  cases o with
  | none => simp
  | some a =>
      constructor
      · intro hall b hb
        obtain rfl := Option.some.inj hb
        exact (h a _).1 (hall _ rfl)
      · intro hall v hv
        obtain rfl := Option.some.inj hv
        exact (h a _).2 (hall a rfl)

theorem permitted_map_ok {α : Type} {o : Option α} {f : α → JsValue}
    (hlookup : lookup (text key) members = o.map f)
    (h : ∀ a label, (parser (f a) label).isOk = true) :
    (permitted (.object members) key parser label).isOk = true :=
  (permitted_map_isOk (q := fun _ => True) hlookup fun a label => iff_true_intro (h a label)).2
    fun _ _ => trivial

theorem required_ok {value : JsValue} (hlookup : lookup (text key) members = some value)
    (h : ∀ label, (parser value label).isOk = true) :
    (required (.object members) key parser label).isOk = true :=
  (required_isOk (p := True) hlookup fun label => iff_true_intro (h label)).2 trivial

end Members

/-! ## Single values -/

section Values

variable {label : JsString}

theorem finiteValue_ok (q : ℚ) (label : JsString) : (finiteValue (.rational q) label).isOk = true :=
  rfl

theorem stringValue_ok (s : JsString) (label : JsString) :
    (stringValue (.string s) label).isOk = true := rfl

theorem booleanValue_ok (b : Bool) (label : JsString) : (booleanValue (.bool b) label).isOk = true :=
  rfl

theorem oneOfValue_ok {allowed : List String} {w : String} (h : w ∈ allowed) (label : JsString) :
    (oneOfValue allowed (word w) label).isOk = true := by
  rw [oneOfValue, isOk_map]
  exact oneOf_isOk.2 ⟨w, h, rfl⟩

theorem arrayValue_isOk {ι : Type} {f : ι → JsValue} {parser : JsValue → JsString → Validated JsValue}
    {p : ι → Prop} {xs : List ι} (h : ∀ x label, (parser (f x) label).isOk = true ↔ p x)
    (label : JsString) :
    (arrayValue parser (.array (xs.map f)) label).isOk = true ↔
      xs.length ≤ maxReturnedNodes ∧ ∀ x ∈ xs, p x := by
  rw [arrayValue, isOk_map, arrayOf_map_isOk h]

/-- A list whose items are taken is bounded by its length alone. -/
theorem arrayValue_length {ι : Type} {f : ι → JsValue}
    {parser : JsValue → JsString → Validated JsValue} {xs : List ι}
    (h : ∀ x label, (parser (f x) label).isOk = true) (label : JsString) :
    (arrayValue parser (.array (xs.map f)) label).isOk = true ↔ xs.length ≤ maxReturnedNodes := by
  rw [arrayValue_isOk (p := fun _ => True) fun x label => iff_true_intro (h x label)]
  exact and_iff_left fun _ _ => trivial

theorem integerValue_isOk (q : ℚ) (label : JsString) :
    (integerValue (.rational q) label).isOk = true ↔ SafeInteger q := by
  have hfinite : finite (.rational q) label = .ok q := rfl
  rw [integerValue, isOk_map, integer, hfinite, Guard.ok_bind]
  split_ifs with h
  · exact iff_of_true rfl ⟨h.1, h.2.1, h.2.2.1⟩
  · exact iff_of_false Bool.false_ne_true fun hq => h ⟨hq.1, hq.2.1, hq.2.2, hq.2.2⟩

theorem boundedString_isOk {s : JsString} {maximumBytes : ℕ} {allowEmpty : Bool} :
    (boundedString (.string s) label maximumBytes allowEmpty).isOk = true ↔
      (allowEmpty = false → s ≠ []) ∧ utf8ByteLength s ≤ maximumBytes := by
  constructor
  · intro h
    rw [boundedString, string_string, Guard.ok_bind] at h
    split_ifs at h with hblank hbytes
    · cases h
    · cases h
    · exact ⟨fun hallow hs => hblank ⟨hallow, hs⟩, Nat.not_lt.1 hbytes⟩
  · intro h
    rw [boundedString_ok h.1 h.2]
    rfl

theorem identifierValue_isOk (s : JsString) (label : JsString) :
    (identifierValue (.string s) label).isOk = true ↔ Plugin.IsIdentifier s := by
  rw [identifierValue, isOk_map]
  exact boundedString_isOk.trans (and_congr_left fun _ => ⟨fun h => h rfl, fun h _ => h⟩)

theorem displayValue_isOk (s : JsString) (label : JsString) :
    (displayValue (.string s) label).isOk = true ↔ utf8ByteLength s ≤ maxDisplayTextBytes := by
  rw [displayValue, isOk_map]
  exact boundedString_isOk.trans (and_iff_right fun h => absurd h.symm Bool.false_ne_true)

end Values

/-! ## Paints and effects -/

theorem parseGradientStop_isOk (s : GradientStop) (label : JsString) :
    (parseGradientStop s.toJs label).isOk = true := by
  rw [parseGradientStop, GradientStop.toJs]
  generalize hmembers : member "position" (.rational s.position) ++
    member "color" s.color.toJs = members
  have hexact : Exactly members ["position", "color"] [] :=
    ⟨by simp [← hmembers, member],
      by simp [← hmembers, lookup_append, Plugin.lookup_member]⟩
  rw [isOk_exact_bind hexact]
  refine isOk_bind_of (required_ok ?_ (finiteValue_ok s.position)) fun _ =>
    isOk_bind_of (required_ok ?_ (parseColor_isOk s.color)) fun _ => rfl
  all_goals simp [← hmembers, lookup_append, Plugin.lookup_member]

theorem parseTransform_isOk (t : Transform2D) (label : JsString) :
    (parseTransform t.toJs label).isOk = true := by
  rw [parseTransform, Transform2D.toJs]
  generalize hmembers : member "m00" (.rational t.m00) ++ member "m01" (.rational t.m01) ++
    member "m02" (.rational t.m02) ++ member "m10" (.rational t.m10) ++
    member "m11" (.rational t.m11) ++ member "m12" (.rational t.m12) = members
  have hexact : Exactly members ["m00", "m01", "m02", "m10", "m11", "m12"] [] :=
    ⟨by simp [← hmembers, member],
      by simp [← hmembers, lookup_append, Plugin.lookup_member]⟩
  rw [isOk_exact_bind hexact]
  refine isOk_bind_of (required_ok ?_ (finiteValue_ok t.m00)) fun _ =>
    isOk_bind_of (required_ok ?_ (finiteValue_ok t.m01)) fun _ =>
    isOk_bind_of (required_ok ?_ (finiteValue_ok t.m02)) fun _ =>
    isOk_bind_of (required_ok ?_ (finiteValue_ok t.m10)) fun _ =>
    isOk_bind_of (required_ok ?_ (finiteValue_ok t.m11)) fun _ =>
    isOk_bind_of (required_ok ?_ (finiteValue_ok t.m12)) fun _ => rfl
  all_goals simp [← hmembers, lookup_append, Plugin.lookup_member]

theorem record_object (members : List Member) (label : JsString) :
    record (.object members) label = .ok (.object members) := rfl

theorem parsePaint_isOk (paint : PaintValue) (label : JsString) :
    (parsePaint paint.toJs label).isOk = true ↔ paint.Fits := by
  cases paint with
  | solid color opacity =>
      refine iff_of_true ?_ trivial
      rw [parsePaint, PaintValue.toJs]
      generalize hmembers : member "type" (word "solid") ++ member "color" color.toJs ++
        member "opacity" (.rational opacity) = members
      have htype : (JsValue.object members).field "type" = word "solid" := by
        simp [← hmembers, lookup_append, Plugin.lookup_member]
      have hexact : Exactly members ["type", "color", "opacity"] [] :=
        ⟨by simp [← hmembers, member],
          by simp [← hmembers, lookup_append, Plugin.lookup_member]⟩
      simp only [record_object, Guard.ok_bind, htype, isWord_word, decide_true, if_true]
      rw [isOk_exact_bind hexact]
      refine isOk_bind_of (required_ok ?_ (parseColor_isOk color)) fun _ =>
        isOk_bind_of (required_ok ?_ (finiteValue_ok opacity)) fun _ => rfl
      all_goals simp [← hmembers, lookup_append, Plugin.lookup_member]
  | gradient kind stops transform opacity =>
      rw [parsePaint, PaintValue.toJs]
      generalize hmembers : member "type" (word kind.word) ++
        member "stops" (.array (stops.map GradientStop.toJs)) ++
        member "gradientTransform" transform.toJs ++ member "opacity" (.rational opacity) = members
      have htype : (JsValue.object members).field "type" = word kind.word := by
        simp [← hmembers, lookup_append, Plugin.lookup_member]
      have hexact : Exactly members ["type", "stops", "gradientTransform", "opacity"] [] :=
        ⟨by simp [← hmembers, member],
          by simp [← hmembers, lookup_append, Plugin.lookup_member]⟩
      have hsolid : ¬ kind.word = "solid" := by cases kind <;> decide
      have hgradient : kind.word ∈ gradientKinds := by cases kind <;> decide
      simp only [record_object, Guard.ok_bind, htype, isWord_word, any_isWord_word, hsolid,
        hgradient, decide_true, decide_false, Bool.false_eq_true, if_true, if_false]
      rw [isOk_exact_bind hexact]
      have hstops : lookup (text "stops") members =
          some (.array (stops.map GradientStop.toJs)) := by
        simp [← hmembers, lookup_append, Plugin.lookup_member]
      rw [isOk_bind_and (p := True) fun _ _ => iff_true_intro ?_,
        required_isOk hstops (arrayValue_length parseGradientStop_isOk), and_true]
      · rfl
      · refine isOk_bind_of (required_ok ?_ (parseTransform_isOk transform)) fun _ =>
          isOk_bind_of (required_ok ?_ (finiteValue_ok opacity)) fun _ => rfl
        all_goals simp [← hmembers, lookup_append, Plugin.lookup_member]
  | image imageRef scaleMode opacity =>
      refine iff_of_true ?_ trivial
      rw [parsePaint, PaintValue.toJs]
      generalize hmembers : member "type" (word "image") ++ member "imageRef" (.string imageRef) ++
        member "scaleMode" (word scaleMode.word) ++ member "opacity" (.rational opacity) = members
      have htype : (JsValue.object members).field "type" = word "image" := by
        simp [← hmembers, lookup_append, Plugin.lookup_member]
      have hexact : Exactly members ["type", "imageRef", "scaleMode", "opacity"] [] :=
        ⟨by simp [← hmembers, member],
          by simp [← hmembers, lookup_append, Plugin.lookup_member]⟩
      have hmode : scaleMode.word ∈ ["fill", "fit", "crop", "tile"] := by cases scaleMode <;> decide
      have hsolid : ¬ "image" = "solid" := by decide
      have hgradient : "image" ∉ gradientKinds := by decide
      simp only [record_object, Guard.ok_bind, htype, isWord_word, any_isWord_word, hsolid,
        hgradient, decide_true, decide_false, Bool.false_eq_true, if_true, if_false]
      rw [isOk_exact_bind hexact]
      refine isOk_bind_of (required_ok ?_ (stringValue_ok imageRef)) fun _ =>
        isOk_bind_of (required_ok ?_ (oneOfValue_ok hmode)) fun _ =>
        isOk_bind_of (required_ok ?_ (finiteValue_ok opacity)) fun _ => rfl
      all_goals simp [← hmembers, lookup_append, Plugin.lookup_member]
  | mixed =>
      refine iff_of_true ?_ trivial
      rw [parsePaint, PaintValue.toJs]
      generalize hmembers : member "type" (word "mixed") = members
      have htype : (JsValue.object members).field "type" = word "mixed" := by
        simp [← hmembers, Plugin.lookup_member]
      have hexact : Exactly members ["type"] [] :=
        ⟨by simp [← hmembers, member], by simp [← hmembers, Plugin.lookup_member]⟩
      have hsolid : ¬ "mixed" = "solid" := by decide
      have hgradient : "mixed" ∉ gradientKinds := by decide
      have himage : ¬ "mixed" = "image" := by decide
      simp only [record_object, Guard.ok_bind, htype, isWord_word, any_isWord_word, hsolid,
        hgradient, himage, decide_true, decide_false, Bool.false_eq_true, if_true, if_false]
      rw [isOk_exact_bind hexact]
      rfl
  | unsupported figmaType =>
      refine iff_of_true ?_ trivial
      rw [parsePaint, PaintValue.toJs]
      generalize hmembers : member "type" (word "unsupported") ++
        member "figmaType" (.string figmaType) = members
      have htype : (JsValue.object members).field "type" = word "unsupported" := by
        simp [← hmembers, lookup_append, Plugin.lookup_member]
      have hexact : Exactly members ["type", "figmaType"] [] :=
        ⟨by simp [← hmembers, member],
          by simp [← hmembers, lookup_append, Plugin.lookup_member]⟩
      have hsolid : ¬ "unsupported" = "solid" := by decide
      have hgradient : "unsupported" ∉ gradientKinds := by decide
      have himage : ¬ "unsupported" = "image" := by decide
      have hmixed : ¬ "unsupported" = "mixed" := by decide
      simp only [record_object, Guard.ok_bind, htype, isWord_word, any_isWord_word, hsolid,
        hgradient, himage, hmixed, decide_true, decide_false, Bool.false_eq_true, if_true, if_false]
      rw [isOk_exact_bind hexact]
      refine isOk_bind_of (required_ok ?_ (stringValue_ok figmaType)) fun _ => rfl
      simp [← hmembers, lookup_append, Plugin.lookup_member]

/-- A list of paints. -/
theorem paintsValue_isOk (paints : List PaintValue) (label : JsString) :
    (arrayValue parsePaint (.array (paints.map PaintValue.toJs)) label).isOk = true ↔
      PaintsFit paints :=
  arrayValue_isOk parsePaint_isOk label

theorem parseEffect_isOk (effect : EffectValue) (label : JsString) :
    (parseEffect effect.toJs label).isOk = true := by
  cases effect with
  | shadow kind color offsetX offsetY radius spread =>
      rw [parseEffect, EffectValue.toJs]
      generalize hmembers : member "type" (word kind.word) ++ member "color" color.toJs ++
        member "offsetX" (.rational offsetX) ++ member "offsetY" (.rational offsetY) ++
        member "radius" (.rational radius) ++ member "spread" (.rational spread) = members
      have htype : (JsValue.object members).field "type" = word kind.word := by
        simp [← hmembers, lookup_append, Plugin.lookup_member]
      have hexact : Exactly members
          ["type", "color", "offsetX", "offsetY", "radius", "spread"] [] :=
        ⟨by simp [← hmembers, member],
          by simp [← hmembers, lookup_append, Plugin.lookup_member]⟩
      have hshadow : kind.word ∈ ["dropShadow", "innerShadow"] := by cases kind <;> decide
      simp only [record_object, Guard.ok_bind, htype, any_isWord_word, hshadow, decide_true,
        if_true]
      rw [isOk_exact_bind hexact]
      refine isOk_bind_of (required_ok ?_ (parseColor_isOk color)) fun _ =>
        isOk_bind_of (required_ok ?_ (finiteValue_ok offsetX)) fun _ =>
        isOk_bind_of (required_ok ?_ (finiteValue_ok offsetY)) fun _ =>
        isOk_bind_of (required_ok ?_ (finiteValue_ok radius)) fun _ =>
        isOk_bind_of (required_ok ?_ (finiteValue_ok spread)) fun _ => rfl
      all_goals simp [← hmembers, lookup_append, Plugin.lookup_member]
  | blur kind radius =>
      rw [parseEffect, EffectValue.toJs]
      generalize hmembers : member "type" (word kind.word) ++ member "radius" (.rational radius) =
        members
      have htype : (JsValue.object members).field "type" = word kind.word := by
        simp [← hmembers, lookup_append, Plugin.lookup_member]
      have hexact : Exactly members ["type", "radius"] [] :=
        ⟨by simp [← hmembers, member],
          by simp [← hmembers, lookup_append, Plugin.lookup_member]⟩
      have hshadow : kind.word ∉ ["dropShadow", "innerShadow"] := by cases kind <;> decide
      have hblur : kind.word ∈ ["layerBlur", "backgroundBlur"] := by cases kind <;> decide
      simp only [record_object, Guard.ok_bind, htype, any_isWord_word, hshadow, hblur, decide_true,
        decide_false, Bool.false_eq_true, if_true, if_false]
      rw [isOk_exact_bind hexact]
      refine isOk_bind_of (required_ok ?_ (finiteValue_ok radius)) fun _ => rfl
      simp [← hmembers, lookup_append, Plugin.lookup_member]
  | unsupported figmaType =>
      rw [parseEffect, EffectValue.toJs]
      generalize hmembers : member "type" (word "unsupported") ++
        member "figmaType" (.string figmaType) = members
      have htype : (JsValue.object members).field "type" = word "unsupported" := by
        simp [← hmembers, lookup_append, Plugin.lookup_member]
      have hexact : Exactly members ["type", "figmaType"] [] :=
        ⟨by simp [← hmembers, member],
          by simp [← hmembers, lookup_append, Plugin.lookup_member]⟩
      have hshadow : "unsupported" ∉ ["dropShadow", "innerShadow"] := by decide
      have hblur : "unsupported" ∉ ["layerBlur", "backgroundBlur"] := by decide
      simp only [record_object, Guard.ok_bind, htype, isWord_word, any_isWord_word, hshadow, hblur,
        decide_true, decide_false, Bool.false_eq_true, if_true, if_false]
      rw [isOk_exact_bind hexact]
      refine isOk_bind_of (required_ok ?_ (stringValue_ok figmaType)) fun _ => rfl
      simp [← hmembers, lookup_append, Plugin.lookup_member]

/-! ## Strokes, corners and layout -/

theorem parseStrokes_isOk (s : StrokeValue) (label : JsString) :
    (parseStrokes s.toJs label).isOk = true ↔ s.Fits := by
  rw [parseStrokes, StrokeValue.toJs]
  generalize hmembers : member "paints" (.array (s.paints.map PaintValue.toJs)) ++
    optional "weight" (s.weight.map .rational) ++
    optional "align" (s.align.map fun a => FigmaDevMcp.word a.word) ++
    optional "dashPattern" (s.dashPattern.map fun d => .array (d.map .rational)) = members
  have hknown : Known (["paints"] ++ ["weight", "align", "dashPattern"]) members := by
    rw [← hmembers]
    repeat' apply Known.append
    all_goals first | exact known_member (by simp) | exact known_optional (by simp)
  have hexact : Exactly members ["paints"] ["weight", "align", "dashPattern"] :=
    ⟨hknown, by simp [← hmembers, lookup_append, Plugin.lookup_member]⟩
  have hpaints : lookup (text "paints") members =
      some (.array (s.paints.map PaintValue.toJs)) := by
    simp [← hmembers, lookup_append, Plugin.lookup_member]
  have hweight : lookup (text "weight") members = s.weight.map .rational := by
    simp [← hmembers, lookup_append, Plugin.lookup_member, Plugin.lookup_optional]
  have halign : lookup (text "align") members =
      s.align.map fun a => FigmaDevMcp.word a.word := by
    simp [← hmembers, lookup_append, Plugin.lookup_member, Plugin.lookup_optional]
  have hdash : lookup (text "dashPattern") members =
      s.dashPattern.map fun d => .array (d.map .rational) := by
    simp [← hmembers, lookup_append, Plugin.lookup_member, Plugin.lookup_optional]
  rw [isOk_exact_bind hexact]
  refine (isOk_bind_and fun _ _ =>
    isOk_bind_iff (permitted_map_ok hweight finiteValue_ok) fun _ =>
    isOk_bind_iff (permitted_map_ok halign fun a =>
      oneOfValue_ok (by cases a <;> decide)) fun _ =>
    isOk_bind_and (p := True) fun _ _ => iff_true_intro rfl).trans ?_
  rw [required_isOk hpaints (paintsValue_isOk s.paints),
    permitted_map_isOk hdash fun d => arrayValue_length finiteValue_ok]
  constructor
  · rintro ⟨hp, hd, -⟩
    exact ⟨hp, hd⟩
  · intro h
    exact ⟨h.paints, h.dashPattern, trivial⟩

theorem parseCornerRadius_isOk (c : CornerRadiusValue) (label : JsString) :
    (parseCornerRadius c.toJs label).isOk = true := by
  cases c with
  | uniform radius =>
      rw [parseCornerRadius, CornerRadiusValue.toJs]
      generalize hmembers : member "kind" (word "uniform") ++ member "radius" (.rational radius) =
        members
      have hkind : (JsValue.object members).field "kind" = word "uniform" := by
        simp [← hmembers, lookup_append, Plugin.lookup_member]
      have hexact : Exactly members ["kind", "radius"] [] :=
        ⟨by simp [← hmembers, member],
          by simp [← hmembers, lookup_append, Plugin.lookup_member]⟩
      simp only [record_object, Guard.ok_bind, hkind, isWord_word, decide_true, if_true]
      rw [isOk_exact_bind hexact]
      refine isOk_bind_of (required_ok ?_ (finiteValue_ok radius)) fun _ => rfl
      simp [← hmembers, lookup_append, Plugin.lookup_member]
  | perCorner topLeft topRight bottomRight bottomLeft =>
      rw [parseCornerRadius, CornerRadiusValue.toJs]
      generalize hmembers : member "kind" (word "perCorner") ++
        member "topLeft" (.rational topLeft) ++ member "topRight" (.rational topRight) ++
        member "bottomRight" (.rational bottomRight) ++
        member "bottomLeft" (.rational bottomLeft) = members
      have hkind : (JsValue.object members).field "kind" = word "perCorner" := by
        simp [← hmembers, lookup_append, Plugin.lookup_member]
      have hexact : Exactly members
          ["kind", "topLeft", "topRight", "bottomRight", "bottomLeft"] [] :=
        ⟨by simp [← hmembers, member],
          by simp [← hmembers, lookup_append, Plugin.lookup_member]⟩
      have huniform : ¬ "perCorner" = "uniform" := by decide
      simp only [record_object, Guard.ok_bind, hkind, isWord_word, huniform, decide_true,
        decide_false, Bool.false_eq_true, if_true, if_false]
      rw [isOk_exact_bind hexact]
      refine isOk_bind_of (required_ok ?_ (finiteValue_ok topLeft)) fun _ =>
        isOk_bind_of (required_ok ?_ (finiteValue_ok topRight)) fun _ =>
        isOk_bind_of (required_ok ?_ (finiteValue_ok bottomRight)) fun _ =>
        isOk_bind_of (required_ok ?_ (finiteValue_ok bottomLeft)) fun _ => rfl
      all_goals simp [← hmembers, lookup_append, Plugin.lookup_member]

theorem axisAlign_mem (a : AxisAlign) : a.word ∈ axisAlignValues := by cases a <;> decide

theorem sizing_mem (s : LayoutSizing) : s.word ∈ ["fixed", "hug", "fill"] := by cases s <;> decide

theorem parseLayout_isOk (l : LayoutValue) (label : JsString) :
    (parseLayout l.toJs label).isOk = true := by
  rw [parseLayout, LayoutValue.toJs]
  generalize hmembers : member "mode" (word l.mode.word) ++
    member "primarySizing" (word l.primarySizing.word) ++
    member "counterSizing" (word l.counterSizing.word) ++ member "gap" (.rational l.gap) ++
    member "paddingTop" (.rational l.paddingTop) ++
    member "paddingRight" (.rational l.paddingRight) ++
    member "paddingBottom" (.rational l.paddingBottom) ++
    member "paddingLeft" (.rational l.paddingLeft) ++
    optional "primaryAlign" (l.primaryAlign.map fun a => FigmaDevMcp.word a.word) ++
    optional "counterAlign" (l.counterAlign.map fun a => FigmaDevMcp.word a.word) ++
    optional "wrap" (l.wrap.map .bool) ++
    optional "counterAxisSpacing" (l.counterAxisSpacing.map .rational) = members
  have hknown : Known (["mode", "primarySizing", "counterSizing", "gap", "paddingTop",
      "paddingRight", "paddingBottom", "paddingLeft"] ++
        ["primaryAlign", "counterAlign", "wrap", "counterAxisSpacing"]) members := by
    rw [← hmembers]
    repeat' apply Known.append
    all_goals first | exact known_member (by simp) | exact known_optional (by simp)
  have hexact : Exactly members
      ["mode", "primarySizing", "counterSizing", "gap", "paddingTop", "paddingRight",
        "paddingBottom", "paddingLeft"]
      ["primaryAlign", "counterAlign", "wrap", "counterAxisSpacing"] :=
    ⟨hknown, by simp [← hmembers, lookup_append, Plugin.lookup_member]⟩
  have hmode : l.mode.word ∈ ["none", "horizontal", "vertical", "grid"] := by
    cases l.mode <;> decide
  rw [isOk_exact_bind hexact]
  refine isOk_bind_of (required_ok ?_ (oneOfValue_ok hmode)) fun _ =>
    isOk_bind_of (required_ok ?_ (oneOfValue_ok (sizing_mem l.primarySizing))) fun _ =>
    isOk_bind_of (required_ok ?_ (oneOfValue_ok (sizing_mem l.counterSizing))) fun _ =>
    isOk_bind_of (required_ok ?_ (finiteValue_ok l.gap)) fun _ =>
    isOk_bind_of (required_ok ?_ (finiteValue_ok l.paddingTop)) fun _ =>
    isOk_bind_of (required_ok ?_ (finiteValue_ok l.paddingRight)) fun _ =>
    isOk_bind_of (required_ok ?_ (finiteValue_ok l.paddingBottom)) fun _ =>
    isOk_bind_of (required_ok ?_ (finiteValue_ok l.paddingLeft)) fun _ =>
    isOk_bind_of (permitted_map_ok (o := l.primaryAlign) ?_ fun a =>
      oneOfValue_ok (axisAlign_mem a)) fun _ =>
    isOk_bind_of (permitted_map_ok (o := l.counterAlign) ?_ fun a =>
      oneOfValue_ok (axisAlign_mem a)) fun _ =>
    isOk_bind_of (permitted_map_ok (o := l.wrap) ?_ booleanValue_ok) fun _ =>
    isOk_bind_of (permitted_map_ok (o := l.counterAxisSpacing) ?_ finiteValue_ok) fun _ => rfl
  all_goals simp [← hmembers, lookup_append, Plugin.lookup_member, Plugin.lookup_optional]

/-! ## Text -/

theorem parseLineHeight_isOk (h : LineHeightValue) (label : JsString) :
    (parseLineHeight h.toJs label).isOk = true := by
  have hmeasured : ∀ (unit : String) (value : ℚ), unit ∈ ["pixels", "percent"] →
      (parseLineHeight (.object (member "unit" (word unit) ++ member "value" (.rational value)))
        label).isOk = true := by
    intro unit value hunit
    rw [parseLineHeight]
    generalize hmembers : member "unit" (word unit) ++ member "value" (.rational value) = members
    have hfield : (JsValue.object members).field "unit" = word unit := by
      simp [← hmembers, lookup_append, Plugin.lookup_member]
    have hexact : Exactly members ["unit"] ["value"] :=
      ⟨by simp [← hmembers, member],
        by simp [← hmembers, lookup_append, Plugin.lookup_member]⟩
    have hlookup : lookup (text "value") members = some (.rational value) := by
      simp [← hmembers, lookup_append, Plugin.lookup_member]
    rw [isOk_exact_bind hexact]
    simp only [hfield, any_isWord_word, hunit, hasOwn_object, hlookup, Option.isSome_some,
      Bool.not_true, decide_true, Bool.false_eq_true, if_true, if_false]
    exact isOk_bind_of (required_ok hlookup (finiteValue_ok value)) fun _ => rfl
  cases h with
  | pixels value => exact hmeasured "pixels" value (by decide)
  | percent value => exact hmeasured "percent" value (by decide)
  | auto =>
      rw [parseLineHeight, LineHeightValue.toJs]
      generalize hmembers : member "unit" (word "auto") = members
      have hfield : (JsValue.object members).field "unit" = word "auto" := by
        simp [← hmembers, Plugin.lookup_member]
      have hexact : Exactly members ["unit"] ["value"] :=
        ⟨by simp [← hmembers, member], by simp [← hmembers, Plugin.lookup_member]⟩
      have hlookup : lookup (text "value") members = none := by
        simp [← hmembers, Plugin.lookup_member]
      have hmeasure : "auto" ∉ ["pixels", "percent"] := by decide
      rw [isOk_exact_bind hexact]
      simp only [hfield, any_isWord_word, isWord_word, hmeasure, hasOwn_object, hlookup,
        Option.isSome_none, decide_true, decide_false, Bool.false_eq_true, if_true, if_false]
      rfl

theorem parseLetterSpacing_isOk (s : LetterSpacingValue) (label : JsString) :
    (parseLetterSpacing s.toJs label).isOk = true := by
  have hmeasured : ∀ (unit : String) (value : ℚ), unit ∈ ["pixels", "percent"] →
      (parseLetterSpacing (.object (member "unit" (word unit) ++ member "value" (.rational value)))
        label).isOk = true := by
    intro unit value hunit
    rw [parseLetterSpacing]
    generalize hmembers : member "unit" (word unit) ++ member "value" (.rational value) = members
    have hfield : (JsValue.object members).field "unit" = word unit := by
      simp [← hmembers, lookup_append, Plugin.lookup_member]
    have hexact : Exactly members ["unit", "value"] [] :=
      ⟨by simp [← hmembers, member],
        by simp [← hmembers, lookup_append, Plugin.lookup_member]⟩
    rw [isOk_exact_bind hexact]
    simp only [hfield, any_isWord_word, hunit, decide_true, if_true]
    refine isOk_bind_of (required_ok ?_ (finiteValue_ok value)) fun _ => rfl
    simp [← hmembers, lookup_append, Plugin.lookup_member]
  cases s with
  | pixels value => exact hmeasured "pixels" value (by decide)
  | percent value => exact hmeasured "percent" value (by decide)

theorem parseTextStyle_isOk (s : TextStyle) (label : JsString) :
    (parseTextStyle s.toJs label).isOk = true ↔ PaintsFit s.paints := by
  rw [parseTextStyle, TextStyle.toJs]
  generalize hmembers : member "fontFamily" (.string s.fontFamily) ++
    member "fontStyle" (.string s.fontStyle) ++
    member "paints" (.array (s.paints.map PaintValue.toJs)) ++
    optional "fontSize" (s.fontSize.map .rational) ++
    optional "lineHeight" (s.lineHeight.map LineHeightValue.toJs) ++
    optional "letterSpacing" (s.letterSpacing.map LetterSpacingValue.toJs) ++
    optional "fontWeight" (s.fontWeight.map .rational) ++
    optional "textDecoration" (s.textDecoration.map fun d => FigmaDevMcp.word d.word) = members
  have hknown : Known (["fontFamily", "fontStyle", "paints"] ++
      ["fontSize", "lineHeight", "letterSpacing", "fontWeight", "textDecoration"]) members := by
    rw [← hmembers]
    repeat' apply Known.append
    all_goals first | exact known_member (by simp) | exact known_optional (by simp)
  have hexact : Exactly members ["fontFamily", "fontStyle", "paints"]
      ["fontSize", "lineHeight", "letterSpacing", "fontWeight", "textDecoration"] :=
    ⟨hknown, by simp [← hmembers, lookup_append, Plugin.lookup_member]⟩
  have hdecoration : ∀ d : TextDecoration, d.word ∈ ["none", "underline", "strikethrough"] := by
    intro d
    cases d <;> decide
  rw [isOk_exact_bind hexact]
  refine isOk_bind_iff (required_ok ?_ (stringValue_ok s.fontFamily)) fun _ =>
    isOk_bind_iff (required_ok ?_ (stringValue_ok s.fontStyle)) fun _ =>
    (isOk_bind_and (p := True) fun _ _ => iff_true_intro ?_).trans
      ((and_iff_left trivial).trans (required_isOk ?_ (paintsValue_isOk s.paints)))
  rotate_left 2
  · refine isOk_bind_of (permitted_map_ok (o := s.fontSize) ?_ finiteValue_ok) fun _ =>
      isOk_bind_of (permitted_map_ok (o := s.lineHeight) ?_ parseLineHeight_isOk) fun _ =>
      isOk_bind_of (permitted_map_ok (o := s.letterSpacing) ?_ parseLetterSpacing_isOk) fun _ =>
      isOk_bind_of (permitted_map_ok (o := s.fontWeight) ?_ finiteValue_ok) fun _ =>
      isOk_bind_of (permitted_map_ok (o := s.textDecoration) ?_ fun d =>
        oneOfValue_ok (hdecoration d)) fun _ => rfl
    all_goals simp [← hmembers, lookup_append, Plugin.lookup_member, Plugin.lookup_optional]
  all_goals simp [← hmembers, lookup_append, Plugin.lookup_member]

end ResultValidation

end FigmaDevMcp

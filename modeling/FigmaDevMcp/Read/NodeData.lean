import FigmaDevMcp.Read.Host

set_option autoImplicit false

/-!
# The data of a node

What `serialize.ts` makes of the properties of a host node, at each level of detail.

* `paints`, `effects`, `textStyle`, …: one definition for each emitter;
* `variableIdsOf`: the variables a node is bound to, in order, each once;
* `nodeData`: the whole record.
-/

namespace FigmaDevMcp

open JsValue

/-- The entry of a table of host words. -/
def tableLookup {α : Type} (table : List (String × α)) (key : JsString) : Option α :=
  (table.find? fun entry => text entry.1 == key).map Prod.snd

/-! ## Paints and effects -/

/-- A color; numbers that are missing are their defaults. -/
def toColor (value : JsValue) : Color :=
  let color := record value
  { r := finite (color.field "r")
    g := finite (color.field "g")
    b := finite (color.field "b")
    a := finite (color.field "a") 1 }

/-- The two rows of a transform. -/
def toTransform (value : JsValue) : Transform2D :=
  let row0 := array ((array value)[0]?.getD .undefined)
  let row1 := array ((array value)[1]?.getD .undefined)
  { m00 := finite (row0[0]?.getD .undefined) 1
    m01 := finite (row0[1]?.getD .undefined)
    m02 := finite (row0[2]?.getD .undefined)
    m10 := finite (row1[0]?.getD .undefined)
    m11 := finite (row1[1]?.getD .undefined) 1
    m12 := finite (row1[2]?.getD .undefined) }

/-- The kinds of gradients by the host's words. -/
def gradientTypes : List (String × GradientKind) :=
  [("GRADIENT_LINEAR", .linear), ("GRADIENT_RADIAL", .radial), ("GRADIENT_ANGULAR", .angular),
    ("GRADIENT_DIAMOND", .diamond)]

/-- How an image fills its shape. -/
def imageScaleMode (value : JsValue) : ImageScaleMode :=
  if isWord value "FIT" then .fit
  else if isWord value "CROP" then .crop
  else if isWord value "TILE" then .tile
  else .fill

/-- A stop of a gradient. -/
def gradientStop (stop : JsValue) : GradientStop :=
  let source := record stop
  { position := finite (source.field "position"), color := toColor (source.field "color") }

/-- A paint that is switched off is dropped, and so is one without a type. -/
def toPaint (value : JsValue) : Option PaintValue :=
  if isMixed value then some .mixed
  else
    let paint := record value
    if !boolean (paint.field "visible") true then none
    else if isWord (paint.field "type") "SOLID" then
      some (.solid (toColor (paint.field "color")) (finite (paint.field "opacity") 1))
    else
      match tableLookup gradientTypes (string (paint.field "type")) with
      | some kind =>
        some (.gradient kind ((array (paint.field "gradientStops")).map gradientStop)
          (toTransform (paint.field "gradientTransform")) (finite (paint.field "opacity") 1))
      | none =>
        if isWord (paint.field "type") "IMAGE" then
          some (.image (string (paint.field "imageHash")) (imageScaleMode (paint.field "scaleMode"))
            (finite (paint.field "opacity") 1))
        else if string (paint.field "type") = [] then none
        else some (.unsupported (string (paint.field "type")))

/-- The paints that show, one for a mixture. -/
def paints (value : JsValue) : List PaintValue :=
  if isMixed value then [.mixed] else (array value).filterMap toPaint

/-- An effect that shows. -/
def toEffect (effect : JsValue) : Option EffectValue :=
  let source := record effect
  let shadow (kind : ShadowKind) : EffectValue :=
    .shadow kind (toColor (source.field "color")) (finite ((record (source.field "offset")).field "x"))
      (finite ((record (source.field "offset")).field "y")) (finite (source.field "radius"))
      (finite (source.field "spread"))
  if !boolean (source.field "visible") true then none
  else if isWord (source.field "type") "DROP_SHADOW" then some (shadow .dropShadow)
  else if isWord (source.field "type") "INNER_SHADOW" then some (shadow .innerShadow)
  else if isWord (source.field "type") "LAYER_BLUR" then
    some (.blur .layerBlur (finite (source.field "radius")))
  else if isWord (source.field "type") "BACKGROUND_BLUR" then
    some (.blur .backgroundBlur (finite (source.field "radius")))
  else if string (source.field "type") = [] then none
  else some (.unsupported (string (source.field "type")))

/-- The effects that show. -/
def effects (value : JsValue) : List EffectValue := (array value).filterMap toEffect

/-! ## Text -/

/-- The units that a text keeps. -/
def textClampLimit : ℕ := 256

/-- At most `limit` code units, without half a pair at the cut. -/
def clampText (value : JsString) (limit : ℕ := textClampLimit) : JsString :=
  if value.length ≤ limit then value
  else
    match (value.take limit).getLast? with
    | some last => if Utf16.isHighSurrogate last then (value.take limit).dropLast else value.take limit
    | none => value.take limit

/-- The height of lines, if it is one for all. -/
def lineHeightValue (raw : JsValue) : Option LineHeightValue :=
  if isMixed raw then none
  else if string ((record raw).field "unit") = text "AUTO" then some .auto
  else
    (optionalFinite ((record raw).field "value")).bind fun value =>
      if string ((record raw).field "unit") = text "PIXELS" then some (.pixels value)
      else if string ((record raw).field "unit") = text "PERCENT" then some (.percent value)
      else none

/-- The space between letters, if it is one for all. -/
def letterSpacingValue (raw : JsValue) : Option LetterSpacingValue :=
  if isMixed raw then none
  else
    (optionalFinite ((record raw).field "value")).bind fun value =>
      if string ((record raw).field "unit") = text "PIXELS" then some (.pixels value)
      else if string ((record raw).field "unit") = text "PERCENT" then some (.percent value)
      else none

/-- The decorations by the host's words. -/
def textDecorations : List (String × TextDecoration) :=
  [("UNDERLINE", .underline), ("STRIKETHROUGH", .strikethrough)]

/-- The alignments of lines by the host's words. -/
def textAlignHorizontals : List (String × TextAlignHorizontal) :=
  [("CENTER", .center), ("RIGHT", .right), ("JUSTIFIED", .justified)]

/-- The alignments of texts by the host's words. -/
def textAlignVerticals : List (String × TextAlignVertical) :=
  [("CENTER", .center), ("BOTTOM", .bottom)]

/-- How a text box grows, by the host's words. -/
def textAutoResizes : List (String × TextAutoResize) :=
  [("WIDTH_AND_HEIGHT", .widthAndHeight), ("HEIGHT", .height), ("TRUNCATE", .truncate)]

/-- The style of a text node, or of one segment of it: `source` reads a property. -/
def textStyle (source : String → JsValue) : TextStyle :=
  let font := record (source "fontName")
  { fontFamily := string (font.field "family")
    fontStyle := string (font.field "style")
    paints := paints (source "fills")
    fontSize := optionalFinite (source "fontSize")
    lineHeight := lineHeightValue (source "lineHeight")
    letterSpacing := letterSpacingValue (source "letterSpacing")
    fontWeight := optionalFinite (source "fontWeight")
    textDecoration := tableLookup textDecorations (string (source "textDecoration")) }

/-- A range of characters with its style. -/
def styledRange (segment : JsValue) : StyledTextRange :=
  let source := record segment
  { start := finite (source.field "start")
    stop := finite (source.field "end")
    style := textStyle source.field }

/-! ## Properties of components -/

/-- The value of a property that has the type that it names. -/
def componentPropertyValue (type : JsString) (value : JsValue) : Option ComponentPropertyValue :=
  if type = text "TEXT" then
    match value with
    | .string s => some (.text s)
    | _ => none
  else if type = text "BOOLEAN" then
    match value with
    | .bool b => some (.boolean b)
    | _ => none
  else if type = text "INSTANCE_SWAP" then
    match value with
    | .string s => some (.instanceSwap s)
    | _ => none
  else if type = text "VARIANT" then
    match value with
    | .string s => some (.variant s)
    | _ => none
  else none

/-- The value of a property, cut short if it is a text. -/
def clampPropertyValue : JsValue → JsValue
  | .string s => .string (clampText s)
  | value => value

/-- `left.name < right.name` or equal, by code units. -/
def nameLE (left right : NamedComponentProperty) : Bool := decide (left.name ≤ right.name)

/-- A property of an instance. -/
def namedComponentProperty (entry : JsString × JsValue) : Option NamedComponentProperty :=
  let property := record entry.2
  (componentPropertyValue (string (property.field "type"))
    (clampPropertyValue (property.field "value"))).map fun value => ⟨entry.1, value⟩

/-! ## Bound variables -/

mutual

/-- The ids in a bound value, after those `seen`. -/
def visitVariables (seen : List JsString) : JsValue → List JsString
  | .object members =>
    let id := string ((JsValue.object members).field "id")
    visitMembers (if id ≠ [] ∧ id ∉ seen then seen ++ [id] else seen) members
  | .array items => visitItems seen items
  | _ => seen

/-- The ids of variables in the values of members. -/
def visitMembers (seen : List JsString) : List (JsString × JsValue) → List JsString
  | [] => seen
  | (_, value) :: rest => visitMembers (visitVariables seen value) rest

/-- The ids of variables in items. -/
def visitItems (seen : List JsString) : List JsValue → List JsString
  | [] => seen
  | item :: rest => visitItems (visitVariables seen item) rest

end

namespace Host

variable {ρ : Type} (host : Host ρ)

/-- The properties of an instance that are understood. -/
def namedComponentProperties (node : ρ) : List NamedComponentProperty :=
  ((record (host.get node "componentProperties")).entries.filterMap
    namedComponentProperty).mergeSort nameLE

/-- The ids of the variables that a node is bound to. -/
def variableIdsOf (node : ρ) : List JsString :=
  (record (host.get node "boundVariables")).values.foldl visitVariables []

/-- The variables that a node is bound to, with their names. -/
def variableReferences (node : ρ) (names : JsString → Option JsString) : List VariableReference :=
  (host.variableIdsOf node).map fun id =>
    { id, name := ((names id).filter (· ≠ [])).map clampText }

/-! ## References, geometry and layout -/

/-- The fields with the styles of a node. -/
def styleIdFields : List (String × StyleKind) :=
  [("fillStyleId", .paint), ("strokeStyleId", .stroke), ("textStyleId", .text),
    ("effectStyleId", .effect), ("gridStyleId", .grid)]

/-- The id of a style of a node, if it has one. -/
def styleId (node : ρ) (field : String) : Option JsString :=
  match host.get node field with
  | .string id => if id = [] ∨ id = text "mixed" then none else some id
  | _ => none

/-- The styles of a node, with their names. -/
def styleReferences (node : ρ) (names : JsString → Option JsString) : List StyleReference :=
  styleIdFields.filterMap fun entry =>
    (host.styleId node entry.1).map fun id =>
      { id, kind := entry.2, name := ((names id).filter (· ≠ [])).map clampText }

/-- The box of a node, if it has one. -/
def bounds (node : ρ) : Option Rect :=
  let value := record (host.get node "absoluteBoundingBox")
  if value.hasOwn (text "x") && value.hasOwn (text "y") then
    some ⟨finite (value.field "x"), finite (value.field "y"), finite (value.field "width"),
      finite (value.field "height")⟩
  else none

/-- Where a node is and how it is drawn there. -/
def geometry (node : ρ) : GeometryValue :=
  { rotation := finite (host.get node "rotation")
    opacity := finite (host.get node "opacity") 1
    transform := toTransform (host.get node "absoluteTransform")
    bounds := host.bounds node }

/-- The alignments of children by the host's words. -/
def axisAligns : List (String × AxisAlign) :=
  [("MIN", .min), ("CENTER", .center), ("MAX", .max), ("SPACE_BETWEEN", .spaceBetween),
    ("BASELINE", .baseline)]

/-- How a frame is sized along an axis. -/
def sizing (value : JsValue) : LayoutSizing :=
  if isWord value "AUTO" then .hug else if isWord value "FILL" then .fill else .fixed

/-- The layout of a frame that has one. -/
def autoLayout (node : ρ) : Option LayoutValue :=
  match host.get node "layoutMode" with
  | .string layoutMode =>
    if layoutMode = text "NONE" then none
    else
      some
        { mode :=
            if layoutMode = text "HORIZONTAL" then .horizontal
            else if layoutMode = text "VERTICAL" then .vertical
            else .grid
          primarySizing := sizing (host.get node "primaryAxisSizingMode")
          counterSizing := sizing (host.get node "counterAxisSizingMode")
          gap := finite (host.get node "itemSpacing")
          paddingTop := finite (host.get node "paddingTop")
          paddingRight := finite (host.get node "paddingRight")
          paddingBottom := finite (host.get node "paddingBottom")
          paddingLeft := finite (host.get node "paddingLeft")
          primaryAlign := tableLookup axisAligns (string (host.get node "primaryAxisAlignItems"))
          counterAlign := tableLookup axisAligns (string (host.get node "counterAxisAlignItems"))
          wrap := if isWord (host.get node "layoutWrap") "WRAP" then some true else none
          counterAxisSpacing :=
            if isWord (host.get node "layoutWrap") "WRAP" then
              optionalFinite (host.get node "counterAxisSpacing")
            else none }
  | _ => none

/-- The constraints by the host's words. -/
def constraintAxes : List (String × ConstraintAxis) :=
  [("MIN", .min), ("CENTER", .center), ("MAX", .max), ("STRETCH", .stretch), ("SCALE", .scale)]

/-- Nothing for the default, `MIN` on both axes. -/
def layoutConstraints (node : ρ) : Option LayoutConstraints :=
  let source := record (host.get node "constraints")
  match tableLookup constraintAxes (string (source.field "horizontal")),
    tableLookup constraintAxes (string (source.field "vertical")) with
  | some horizontal, some vertical =>
    if horizontal = .min ∧ vertical = .min then none else some ⟨horizontal, vertical⟩
  | _, _ => none

/-! ## Strokes, corners and blending -/

/-- The places of a stroke by the host's words. -/
def strokeAligns : List (String × StrokeAlign) :=
  [("INSIDE", .inside), ("OUTSIDE", .outside), ("CENTER", .center)]

/-- Reported when some stroke is switched on, whatever `toPaint` makes of it. -/
def strokes (node : ρ) : Option StrokeValue :=
  let rawStrokes := host.get node "strokes"
  let liveStrokes := (array rawStrokes).filter fun stroke => boolean ((record stroke).field "visible") true
  let dashPattern := (array (host.get node "dashPattern")).filterMap optionalFinite
  if !isMixed rawStrokes && liveStrokes.isEmpty then none
  else
    some
      { paints := paints rawStrokes
        weight := optionalFinite (host.get node "strokeWeight")
        align := tableLookup strokeAligns (string (host.get node "strokeAlign"))
        dashPattern := if dashPattern = [] then none else some dashPattern }

/-- A mixed radius is one radius for each corner. -/
def cornerRadius (node : ρ) : Option CornerRadiusValue :=
  let uniform := host.get node "cornerRadius"
  if !isMixed uniform then
    ((optionalFinite uniform).filter (· ≠ 0)).map .uniform
  else
    match optionalFinite (host.get node "topLeftRadius"),
      optionalFinite (host.get node "topRightRadius"),
      optionalFinite (host.get node "bottomRightRadius"),
      optionalFinite (host.get node "bottomLeftRadius") with
    | some topLeft, some topRight, some bottomRight, some bottomLeft =>
      some (.perCorner topLeft topRight bottomRight bottomLeft)
    | _, _, _, _ => none

/-- The blend modes by the host's words. -/
def blendModes : List (String × BlendMode) :=
  [("PASS_THROUGH", .passThrough), ("NORMAL", .normal), ("DARKEN", .darken),
    ("MULTIPLY", .multiply), ("LINEAR_BURN", .linearBurn), ("COLOR_BURN", .colorBurn),
    ("LIGHTEN", .lighten), ("SCREEN", .screen), ("LINEAR_DODGE", .linearDodge),
    ("COLOR_DODGE", .colorDodge), ("OVERLAY", .overlay), ("SOFT_LIGHT", .softLight),
    ("HARD_LIGHT", .hardLight), ("DIFFERENCE", .difference), ("EXCLUSION", .exclusion),
    ("HUE", .hue), ("SATURATION", .saturation), ("COLOR", .color), ("LUMINOSITY", .luminosity)]

/-- The two defaults are not reported. -/
def blendMode (node : ρ) : Option BlendMode :=
  (tableLookup blendModes (string (host.get node "blendMode"))).filter fun mode =>
    mode ≠ .normal && mode ≠ .passThrough

/-! ## Components and text of a node -/

/-- What a node says of the component that it is. -/
def componentValue (node : ρ) : Option ComponentValue :=
  if (host.isType node "COMPONENT" || host.isType node "COMPONENT_SET") && host.id node ≠ [] then
    some { componentId := host.id node, properties := [] }
  else none

/-- What the pre-pass has resolved for the instance, or what the node itself says. -/
def instanceValue (node : ρ) (identities : JsString → Option InstanceValue) :
    Option InstanceValue :=
  if !host.isType node "INSTANCE" then none
  else
    match if host.id node = [] then none else identities (host.id node) with
    | some resolved => some resolved
    | none =>
      let componentId := string (host.get node "componentId")
      let componentSetId := string (host.get node "componentSetId")
      if componentId = [] then none
      else
        some
          { componentId
            properties := host.namedComponentProperties node
            componentSetId := if componentSetId = [] then none else some componentSetId }

/-- `getStyledTextSegments`, called by the node. -/
def getStyledRanges (node : ρ) : List StyledTextRange :=
  match host.get node "getStyledTextSegments" with
  | .method result => (array result).map styledRange
  | _ => []

/-- A text with its styles. -/
def fullText (node : ρ) : TextValue :=
  { characters := string (host.get node "characters")
    defaultStyle := textStyle (host.get node)
    styledRanges := host.getStyledRanges node
    alignHorizontal :=
      tableLookup textAlignHorizontals (string (host.get node "textAlignHorizontal"))
    alignVertical := tableLookup textAlignVerticals (string (host.get node "textAlignVertical"))
    autoResize := tableLookup textAutoResizes (string (host.get node "textAutoResize")) }

/-- The length and the start of a text. -/
def compactText (node : ρ) : TextSummary :=
  let characters := string (host.get node "characters")
  { characterCount := characters.length, preview := clampText characters }

end Host

/-- What the pre-passes have found, by id. -/
structure Names where
  instanceIdentities : JsString → Option InstanceValue := fun _ => none
  styleNames : JsString → Option JsString := fun _ => none
  variableNames : JsString → Option JsString := fun _ => none

namespace Host

variable {ρ : Type} (host : Host ρ)

/-- What is told of a node in a compact read. -/
def compactData (names : Names) (node : ρ) : CompactNodeData :=
  { geometry := some (host.geometry node)
    styleReferences := host.styleReferences node names.styleNames
    variableReferences := host.variableReferences node names.variableNames
    autoLayout := host.autoLayout node
    constraints := host.layoutConstraints node
    component := host.componentValue node
    inst := host.instanceValue node names.instanceIdentities
    textSummary := if host.isType node "TEXT" then some (host.compactText node) else none }

/-- What is told of a node in a full read. -/
def fullData (names : Names) (node : ρ) : FullNodeData :=
  let compact := host.compactData names node
  { styleReferences := compact.styleReferences
    variableReferences := compact.variableReferences
    paints := paints (host.get node "fills")
    effects := effects (host.get node "effects")
    geometry := compact.geometry
    autoLayout := compact.autoLayout
    constraints := compact.constraints
    component := compact.component
    inst := compact.inst
    strokes := host.strokes node
    cornerRadius := host.cornerRadius node
    cornerSmoothing := (optionalFinite (host.get node "cornerSmoothing")).filter (· ≠ 0)
    clipsContent := if boolean (host.get node "clipsContent") then some true else none
    blendMode := host.blendMode node
    textValue := if host.isType node "TEXT" then some (host.fullText node) else none }

/-- What is told of a node. -/
def nodeData (detail : DetailLevel) (names : Names) (node : ρ) : NodeData :=
  match detail with
  | .minimal => .minimal
  | .compact => .compact (host.compactData names node)
  | .full => .full (host.fullData names node)

/-- The data of the stub of a component that has been emitted before. -/
def identityData (detail : DetailLevel) (componentId : JsString) : NodeData :=
  let component : ComponentValue := { componentId, properties := [] }
  match detail with
  | .minimal => .minimal
  | .compact =>
    .compact { styleReferences := [], variableReferences := [], component := some component }
  | .full =>
    .full { styleReferences := [], variableReferences := [], paints := [], effects := [],
            component := some component }

end Host

end FigmaDevMcp

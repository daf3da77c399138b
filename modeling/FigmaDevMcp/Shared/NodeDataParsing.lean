import FigmaDevMcp.Shared.ResultParts

set_option autoImplicit false

/-!
# Validation of the data of a node

The parsers of `result-validation.ts` for what a node has at each level of detail.

* `parsePaint`, `parseEffect`, `parseStrokes`, …: one definition for each parser;
* `parseNodeData`: the parser of a detail.
-/

namespace FigmaDevMcp.ResultValidation

open JsValue

/-! ## Members -/

/-- A finite number, as it is kept. -/
def finiteValue (value : JsValue) (label : JsString) : Validated JsValue :=
  (finite value label).map .rational

/-- A string, as it is kept. -/
def stringValue (value : JsValue) (label : JsString) : Validated JsValue :=
  (string value label).map .string

/-- A boolean, as it is kept. -/
def booleanValue (value : JsValue) (label : JsString) : Validated JsValue :=
  (boolean value label).map .bool

/-- One of several words, as it is kept. -/
def oneOfValue (allowed : List String) (value : JsValue) (label : JsString) : Validated JsValue :=
  (oneOf value allowed label).map .string

/-- An array, as it is kept. -/
def arrayValue (parser : JsValue → JsString → Validated JsValue) (value : JsValue)
    (label : JsString) : Validated JsValue :=
  (arrayOf value label parser).map .array

/-- A member of an object under its own name. -/
def required (object : JsValue) (key : String) (parser : JsValue → JsString → Validated JsValue)
    (label : JsString) : Validated (List Member) :=
  (parser (object.field key) (dot label key)).map (member key)

/-- A member that may be missing. -/
def permitted (object : JsValue) (key : String) (parser : JsValue → JsString → Validated JsValue)
    (label : JsString) : Validated (List Member) :=
  (optionalMember object key parser (dot label key)).map (optional key)

/-! ## Paints and effects -/

/-- A stop of a gradient. -/
def parseGradientStop (value : JsValue) (label : JsString) : Validated JsValue := do
  let object ← exact value label ["position", "color"]
  let position ← required object "position" finiteValue label
  let color ← required object "color" parseColor label
  return .object (position ++ color)

/-- A transform. -/
def parseTransform (value : JsValue) (label : JsString) : Validated JsValue := do
  let object ← exact value label ["m00", "m01", "m02", "m10", "m11", "m12"]
  let m00 ← required object "m00" finiteValue label
  let m01 ← required object "m01" finiteValue label
  let m02 ← required object "m02" finiteValue label
  let m10 ← required object "m10" finiteValue label
  let m11 ← required object "m11" finiteValue label
  let m12 ← required object "m12" finiteValue label
  return .object (m00 ++ m01 ++ m02 ++ m10 ++ m11 ++ m12)

/-- The words of gradients. -/
def gradientKinds : List String :=
  ["linearGradient", "radialGradient", "angularGradient", "diamondGradient"]

/-- A paint by its type. -/
def parsePaint (value : JsValue) (label : JsString) : Validated JsValue := do
  let object ← record value label
  let type := object.field "type"
  if isWord type "solid" then do
    let solid ← exact object label ["type", "color", "opacity"]
    let color ← required solid "color" parseColor label
    let opacity ← required solid "opacity" finiteValue label
    return .object (member "type" type ++ color ++ opacity)
  else if gradientKinds.any (isWord type) then do
    let gradient ← exact object label ["type", "stops", "gradientTransform", "opacity"]
    let stops ← required gradient "stops" (arrayValue parseGradientStop) label
    let gradientTransform ← required gradient "gradientTransform" parseTransform label
    let opacity ← required gradient "opacity" finiteValue label
    return .object (member "type" type ++ stops ++ gradientTransform ++ opacity)
  else if isWord type "image" then do
    let image ← exact object label ["type", "imageRef", "scaleMode", "opacity"]
    let imageRef ← required image "imageRef" stringValue label
    let scaleMode ← required image "scaleMode" (oneOfValue ["fill", "fit", "crop", "tile"]) label
    let opacity ← required image "opacity" finiteValue label
    return .object (member "type" type ++ imageRef ++ scaleMode ++ opacity)
  else if isWord type "mixed" then do
    let _ ← exact object label ["type"]
    return .object (member "type" type)
  else if isWord type "unsupported" then do
    let unsupported ← exact object label ["type", "figmaType"]
    let figmaType ← required unsupported "figmaType" stringValue label
    return .object (member "type" type ++ figmaType)
  else fail (dot label "type" ++ text " is not allowed")

/-- An effect by its type. -/
def parseEffect (value : JsValue) (label : JsString) : Validated JsValue := do
  let object ← record value label
  let type := object.field "type"
  if ["dropShadow", "innerShadow"].any (isWord type) then do
    let shadow ← exact object label ["type", "color", "offsetX", "offsetY", "radius", "spread"]
    let color ← required shadow "color" parseColor label
    let offsetX ← required shadow "offsetX" finiteValue label
    let offsetY ← required shadow "offsetY" finiteValue label
    let radius ← required shadow "radius" finiteValue label
    let spread ← required shadow "spread" finiteValue label
    return .object (member "type" type ++ color ++ offsetX ++ offsetY ++ radius ++ spread)
  else if ["layerBlur", "backgroundBlur"].any (isWord type) then do
    let blur ← exact object label ["type", "radius"]
    let radius ← required blur "radius" finiteValue label
    return .object (member "type" type ++ radius)
  else if isWord type "unsupported" then do
    let unsupported ← exact object label ["type", "figmaType"]
    let figmaType ← required unsupported "figmaType" stringValue label
    return .object (member "type" type ++ figmaType)
  else fail (dot label "type" ++ text " is not allowed")

/-! ## Strokes, corners and layout -/

/-- The strokes of a node. -/
def parseStrokes (value : JsValue) (label : JsString) : Validated JsValue := do
  let object ← exact value label ["paints"] ["weight", "align", "dashPattern"]
  let paints ← required object "paints" (arrayValue parsePaint) label
  let weight ← permitted object "weight" finiteValue label
  let align ← permitted object "align" (oneOfValue ["inside", "outside", "center"]) label
  let dashPattern ← permitted object "dashPattern" (arrayValue finiteValue) label
  return .object (paints ++ weight ++ align ++ dashPattern)

/-- The radius of corners by its kind. -/
def parseCornerRadius (value : JsValue) (label : JsString) : Validated JsValue := do
  let object ← record value label
  let kind := object.field "kind"
  if isWord kind "uniform" then do
    let uniform ← exact object label ["kind", "radius"]
    let radius ← required uniform "radius" finiteValue label
    return .object (member "kind" kind ++ radius)
  else if isWord kind "perCorner" then do
    let corners ← exact object label ["kind", "topLeft", "topRight", "bottomRight", "bottomLeft"]
    let topLeft ← required corners "topLeft" finiteValue label
    let topRight ← required corners "topRight" finiteValue label
    let bottomRight ← required corners "bottomRight" finiteValue label
    let bottomLeft ← required corners "bottomLeft" finiteValue label
    return .object (member "kind" kind ++ topLeft ++ topRight ++ bottomRight ++ bottomLeft)
  else fail (dot label "kind" ++ text " is not allowed")

/-- The words of alignments. -/
def axisAlignValues : List String := ["min", "center", "max", "spaceBetween", "baseline"]

/-- The words of blend modes. -/
def blendModeValues : List String :=
  ["passThrough", "normal", "darken", "multiply", "linearBurn", "colorBurn", "lighten", "screen",
    "linearDodge", "colorDodge", "overlay", "softLight", "hardLight", "difference", "exclusion",
    "hue", "saturation", "color", "luminosity"]

/-- The layout of a frame. -/
def parseLayout (value : JsValue) (label : JsString) : Validated JsValue := do
  let object ← exact value label
    ["mode", "primarySizing", "counterSizing", "gap", "paddingTop", "paddingRight",
      "paddingBottom", "paddingLeft"]
    ["primaryAlign", "counterAlign", "wrap", "counterAxisSpacing"]
  let mode ← required object "mode" (oneOfValue ["none", "horizontal", "vertical", "grid"]) label
  let primarySizing ← required object "primarySizing" (oneOfValue ["fixed", "hug", "fill"]) label
  let counterSizing ← required object "counterSizing" (oneOfValue ["fixed", "hug", "fill"]) label
  let gap ← required object "gap" finiteValue label
  let paddingTop ← required object "paddingTop" finiteValue label
  let paddingRight ← required object "paddingRight" finiteValue label
  let paddingBottom ← required object "paddingBottom" finiteValue label
  let paddingLeft ← required object "paddingLeft" finiteValue label
  let primaryAlign ← permitted object "primaryAlign" (oneOfValue axisAlignValues) label
  let counterAlign ← permitted object "counterAlign" (oneOfValue axisAlignValues) label
  let wrap ← permitted object "wrap" booleanValue label
  let counterAxisSpacing ← permitted object "counterAxisSpacing" finiteValue label
  return .object (mode ++ primarySizing ++ counterSizing ++ gap ++ paddingTop ++ paddingRight ++
    paddingBottom ++ paddingLeft ++ primaryAlign ++ counterAlign ++ wrap ++ counterAxisSpacing)

/-! ## Text -/

/-- The height of lines by its unit. -/
def parseLineHeight (value : JsValue) (label : JsString) : Validated JsValue := do
  let object ← exact value label ["unit"] ["value"]
  let hasValue := object.hasOwn (text "value")
  let unit := object.field "unit"
  if ["pixels", "percent"].any (isWord unit) then
    if !hasValue then fail (label ++ text " is missing value")
    else do
      let value ← required object "value" finiteValue label
      return .object (member "unit" unit ++ value)
  else if isWord unit "auto" then
    if hasValue then fail (label ++ text " must not carry a value")
    else return .object (member "unit" unit)
  else fail (dot label "unit" ++ text " is not allowed")

/-- The space between letters. -/
def parseLetterSpacing (value : JsValue) (label : JsString) : Validated JsValue := do
  let object ← exact value label ["unit", "value"]
  let unit := object.field "unit"
  if ["pixels", "percent"].any (isWord unit) then do
    let value ← required object "value" finiteValue label
    return .object (member "unit" unit ++ value)
  else fail (dot label "unit" ++ text " is not allowed")

/-- The style of a text. -/
def parseTextStyle (value : JsValue) (label : JsString) : Validated JsValue := do
  let object ← exact value label ["fontFamily", "fontStyle", "paints"]
    ["fontSize", "lineHeight", "letterSpacing", "fontWeight", "textDecoration"]
  let fontFamily ← required object "fontFamily" stringValue label
  let fontStyle ← required object "fontStyle" stringValue label
  let paints ← required object "paints" (arrayValue parsePaint) label
  let fontSize ← permitted object "fontSize" finiteValue label
  let lineHeight ← permitted object "lineHeight" parseLineHeight label
  let letterSpacing ← permitted object "letterSpacing" parseLetterSpacing label
  let fontWeight ← permitted object "fontWeight" finiteValue label
  let textDecoration ← permitted object "textDecoration"
    (oneOfValue ["none", "underline", "strikethrough"]) label
  return .object (fontFamily ++ fontStyle ++ paints ++ fontSize ++ lineHeight ++ letterSpacing ++
    fontWeight ++ textDecoration)

/-- An integer, as it is kept. -/
def integerValue (value : JsValue) (label : JsString) : Validated JsValue :=
  (integer value label).map natural

/-- A range of characters with its style. -/
def parseStyledRange (value : JsValue) (label : JsString) : Validated JsValue := do
  let object ← exact value label ["start", "end", "style"]
  let start ← required object "start" integerValue label
  let stop ← required object "end" integerValue label
  let style ← required object "style" parseTextStyle label
  return .object (start ++ stop ++ style)

/-- A text with its styles. -/
def parseTextValue (value : JsValue) (label : JsString) : Validated JsValue := do
  let object ← exact value label ["characters", "defaultStyle", "styledRanges"]
    ["alignHorizontal", "alignVertical", "autoResize"]
  let characters ← required object "characters" stringValue label
  let defaultStyle ← required object "defaultStyle" parseTextStyle label
  let styledRanges ← required object "styledRanges" (arrayValue parseStyledRange) label
  let alignHorizontal ← permitted object "alignHorizontal"
    (oneOfValue ["left", "center", "right", "justified"]) label
  let alignVertical ← permitted object "alignVertical" (oneOfValue ["top", "center", "bottom"]) label
  let autoResize ← permitted object "autoResize"
    (oneOfValue ["none", "widthAndHeight", "height", "truncate"]) label
  return .object (characters ++ defaultStyle ++ styledRanges ++ alignHorizontal ++ alignVertical ++
    autoResize)

/-- The length and the start of a text. -/
def parseTextSummary (value : JsValue) (label : JsString) : Validated JsValue := do
  let object ← exact value label ["characterCount", "preview"]
  let characterCount ← required object "characterCount" integerValue label
  let preview ← required object "preview" stringValue label
  return .object (characterCount ++ preview)

/-! ## Components -/

/-- The value of a property by its kind. -/
def parseComponentProperty (value : JsValue) (label : JsString) : Validated JsValue := do
  let object ← exact value label ["kind", "value"]
  let kind := object.field "kind"
  if ["text", "instanceSwap", "variant"].any (isWord kind) then do
    let value ← required object "value" stringValue label
    return .object (member "kind" kind ++ value)
  else if isWord kind "boolean" then do
    let value ← required object "value" booleanValue label
    return .object (member "kind" kind ++ value)
  else fail (dot label "kind" ++ text " is not allowed")

/-- A property of an instance. -/
def parseNamedComponentProperty (value : JsValue) (label : JsString) : Validated JsValue := do
  let object ← exact value label ["name", "value"]
  let name ← required object "name" stringValue label
  let value ← required object "value" parseComponentProperty label
  return .object (name ++ value)

/-- An id, as it is kept. -/
def identifierValue (value : JsValue) (label : JsString) : Validated JsValue :=
  (identifier value label).map .string

/-- What a node says of the component that it is. -/
def parseComponentValue (value : JsValue) (label : JsString) : Validated JsValue := do
  let object ← exact value label ["componentId", "properties"] ["componentSetId"]
  let componentId ← required object "componentId" identifierValue label
  let properties ← required object "properties" (arrayValue parseNamedComponentProperty) label
  let componentSetId ← optionalId object "componentSetId"
  return .object (componentId ++ properties ++ componentSetId)

/-! ## Geometry and references -/

/-- Where a node is and how it is drawn there. -/
def parseGeometry (value : JsValue) (label : JsString) : Validated JsValue := do
  let object ← exact value label ["rotation", "opacity", "transform"] ["bounds"]
  let rotation ← required object "rotation" finiteValue label
  let opacity ← required object "opacity" finiteValue label
  let transform ← required object "transform" parseTransform label
  let bounds ← permitted object "bounds" parseRect label
  return .object (rotation ++ opacity ++ transform ++ bounds)

/-- The words of constraints. -/
def constraintAxisValues : List String := ["min", "center", "max", "stretch", "scale"]

/-- The constraints of a node. -/
def parseConstraints (value : JsValue) (label : JsString) : Validated JsValue := do
  let object ← exact value label ["horizontal", "vertical"]
  let horizontal ← required object "horizontal" (oneOfValue constraintAxisValues) label
  let vertical ← required object "vertical" (oneOfValue constraintAxisValues) label
  return .object (horizontal ++ vertical)

/-- A display text, as it is kept. -/
def displayValue (value : JsValue) (label : JsString) : Validated JsValue :=
  (displayText value label).map .string

/-- A style of a node. -/
def parseStyleReference (value : JsValue) (label : JsString) : Validated JsValue := do
  let object ← exact value label ["id", "kind"] ["name"]
  let id ← required object "id" stringValue label
  let kind ← required object "kind" (oneOfValue ["paint", "stroke", "text", "effect", "grid"]) label
  let name ← permitted object "name" displayValue label
  return .object (id ++ kind ++ name)

/-- A variable of a node. -/
def parseVariableReference (value : JsValue) (label : JsString) : Validated JsValue := do
  let object ← exact value label ["id"] ["name"]
  let id ← required object "id" stringValue label
  let name ← optionalString object "name"
  return .object (id ++ optional "name" (name.map .string))

/-! ## The data -/

/-- The data of a minimal read. -/
def parseMinimalData (value : JsValue) (label : JsString) : Validated JsValue := do
  let _ ← exact value label []
  return .object []

/-- The data of a compact read. -/
def parseCompactData (value : JsValue) (label : JsString) : Validated JsValue := do
  let object ← exact value label ["styleReferences", "variableReferences"]
    ["geometry", "constraints", "autoLayout", "text", "component", "instance"]
  let styleReferences ← required object "styleReferences" (arrayValue parseStyleReference) label
  let variableReferences ← required object "variableReferences" (arrayValue parseVariableReference)
    label
  let geometry ← permitted object "geometry" parseGeometry label
  let constraints ← permitted object "constraints" parseConstraints label
  let autoLayout ← permitted object "autoLayout" parseLayout label
  let textSummary ← permitted object "text" parseTextSummary label
  let component ← permitted object "component" parseComponentValue label
  let inst ← permitted object "instance" parseComponentValue label
  return .object (styleReferences ++ variableReferences ++ geometry ++ constraints ++ autoLayout ++
    textSummary ++ component ++ inst)

/-- The data of a full read. -/
def parseFullData (value : JsValue) (label : JsString) : Validated JsValue := do
  let object ← exact value label ["paints", "effects", "styleReferences", "variableReferences"]
    ["geometry", "constraints", "autoLayout", "text", "component", "instance", "strokes",
      "cornerRadius", "cornerSmoothing", "clipsContent", "blendMode"]
  let paints ← required object "paints" (arrayValue parsePaint) label
  let effects ← required object "effects" (arrayValue parseEffect) label
  let styleReferences ← required object "styleReferences" (arrayValue parseStyleReference) label
  let variableReferences ← required object "variableReferences" (arrayValue parseVariableReference)
    label
  let geometry ← permitted object "geometry" parseGeometry label
  let constraints ← permitted object "constraints" parseConstraints label
  let autoLayout ← permitted object "autoLayout" parseLayout label
  let textValue ← permitted object "text" parseTextValue label
  let component ← permitted object "component" parseComponentValue label
  let inst ← permitted object "instance" parseComponentValue label
  let strokes ← permitted object "strokes" parseStrokes label
  let cornerRadius ← permitted object "cornerRadius" parseCornerRadius label
  let cornerSmoothing ← permitted object "cornerSmoothing" finiteValue label
  let clipsContent ← permitted object "clipsContent" booleanValue label
  let blendMode ← permitted object "blendMode" (oneOfValue blendModeValues) label
  return .object (paints ++ effects ++ styleReferences ++ variableReferences ++ geometry ++
    constraints ++ autoLayout ++ textValue ++ component ++ inst ++ strokes ++ cornerRadius ++
    cornerSmoothing ++ clipsContent ++ blendMode)

/-- The parser of the data that a detail has. -/
def parseNodeData : DetailLevel → JsValue → JsString → Validated JsValue
  | .minimal => parseMinimalData
  | .compact => parseCompactData
  | .full => parseFullData

end FigmaDevMcp.ResultValidation

import FigmaDevMcp.Lib.JsValue
import FigmaDevMcp.Ui.Text

set_option autoImplicit false

/-!
# Read results

The values of `results.ts` that a node forest is made of, and the JavaScript object each of them
is. A closed set of words is an enumeration with the word of each member; a number is finite by
its type.

* enumerations with their words;
* the data of a node, at three levels of detail;
* `DesignNode`, `NodeData`, `NodeSummary`.
-/

namespace FigmaDevMcp

open JsValue

/-- A member of an object. -/
abbrev Member := JsString × JsValue

/-- One member. -/
def member (key : String) (value : JsValue) : List Member := [(text key, value)]

/-- One member, or none. -/
def optional (key : String) (value : Option JsValue) : List Member :=
  match value with
  | some v => [(text key, v)]
  | none => []

/-- A string of the source. -/
abbrev word (s : String) : JsValue := .string (text s)

/-- A number that is an integer. -/
def natural (n : ℕ) : JsValue := .rational n

/-! ## Enumerations -/

/-- Why a result is cut. -/
inductive TruncationReason
  | depthLimit | nodeLimit | byteLimit
deriving DecidableEq

/-- The word of a reason. -/
def TruncationReason.word : TruncationReason → String
  | depthLimit => "depthLimit"
  | nodeLimit => "nodeLimit"
  | byteLimit => "byteLimit"

/-- The kinds of gradients. -/
inductive GradientKind
  | linear | radial | angular | diamond
deriving DecidableEq

/-- The word of a kind. -/
def GradientKind.word : GradientKind → String
  | linear => "linearGradient"
  | radial => "radialGradient"
  | angular => "angularGradient"
  | diamond => "diamondGradient"

/-- How an image fills its shape. -/
inductive ImageScaleMode
  | fill | fit | crop | tile
deriving DecidableEq

/-- The word of a mode. -/
def ImageScaleMode.word : ImageScaleMode → String
  | fill => "fill"
  | fit => "fit"
  | crop => "crop"
  | tile => "tile"

/-- The kinds of shadows. -/
inductive ShadowKind
  | dropShadow | innerShadow
deriving DecidableEq

/-- The word of a kind. -/
def ShadowKind.word : ShadowKind → String
  | dropShadow => "dropShadow"
  | innerShadow => "innerShadow"

/-- The kinds of blurs. -/
inductive BlurKind
  | layerBlur | backgroundBlur
deriving DecidableEq

/-- The word of a kind. -/
def BlurKind.word : BlurKind → String
  | layerBlur => "layerBlur"
  | backgroundBlur => "backgroundBlur"

/-- Where a stroke is. -/
inductive StrokeAlign
  | inside | outside | center
deriving DecidableEq

/-- The word of a place. -/
def StrokeAlign.word : StrokeAlign → String
  | inside => "inside"
  | outside => "outside"
  | center => "center"

/-- How a node is blended with what is below. -/
inductive BlendMode
  | passThrough | normal | darken | multiply | linearBurn | colorBurn | lighten | screen
  | linearDodge | colorDodge | overlay | softLight | hardLight | difference | exclusion | hue
  | saturation | color | luminosity
deriving DecidableEq

/-- The word of a mode. -/
def BlendMode.word : BlendMode → String
  | passThrough => "passThrough"
  | normal => "normal"
  | darken => "darken"
  | multiply => "multiply"
  | linearBurn => "linearBurn"
  | colorBurn => "colorBurn"
  | lighten => "lighten"
  | screen => "screen"
  | linearDodge => "linearDodge"
  | colorDodge => "colorDodge"
  | overlay => "overlay"
  | softLight => "softLight"
  | hardLight => "hardLight"
  | difference => "difference"
  | exclusion => "exclusion"
  | hue => "hue"
  | saturation => "saturation"
  | color => "color"
  | luminosity => "luminosity"

/-- How the children of a frame are laid out. -/
inductive LayoutMode
  | none | horizontal | vertical | grid
deriving DecidableEq

/-- The word of a mode. -/
def LayoutMode.word : LayoutMode → String
  | none => "none"
  | horizontal => "horizontal"
  | vertical => "vertical"
  | grid => "grid"

/-- How a frame is sized along an axis. -/
inductive LayoutSizing
  | fixed | hug | fill
deriving DecidableEq

/-- The word of a sizing. -/
def LayoutSizing.word : LayoutSizing → String
  | fixed => "fixed"
  | hug => "hug"
  | fill => "fill"

/-- Where the children of a frame are along an axis. -/
inductive AxisAlign
  | min | center | max | spaceBetween | baseline
deriving DecidableEq

/-- The word of an alignment. -/
def AxisAlign.word : AxisAlign → String
  | min => "min"
  | center => "center"
  | max => "max"
  | spaceBetween => "spaceBetween"
  | baseline => "baseline"

/-- The line under or through a text. -/
inductive TextDecoration
  | none | underline | strikethrough
deriving DecidableEq

/-- The word of a decoration. -/
def TextDecoration.word : TextDecoration → String
  | none => "none"
  | underline => "underline"
  | strikethrough => "strikethrough"

/-- Where the lines of a text are. -/
inductive TextAlignHorizontal
  | left | center | right | justified
deriving DecidableEq

/-- The word of an alignment. -/
def TextAlignHorizontal.word : TextAlignHorizontal → String
  | left => "left"
  | center => "center"
  | right => "right"
  | justified => "justified"

/-- Where a text is in its box. -/
inductive TextAlignVertical
  | top | center | bottom
deriving DecidableEq

/-- The word of an alignment. -/
def TextAlignVertical.word : TextAlignVertical → String
  | top => "top"
  | center => "center"
  | bottom => "bottom"

/-- How a text box grows. -/
inductive TextAutoResize
  | none | widthAndHeight | height | truncate
deriving DecidableEq

/-- The word of a growth. -/
def TextAutoResize.word : TextAutoResize → String
  | none => "none"
  | widthAndHeight => "widthAndHeight"
  | height => "height"
  | truncate => "truncate"

/-- The kinds of styles. -/
inductive StyleKind
  | paint | stroke | text | effect | grid
deriving DecidableEq

/-- The word of a kind. -/
def StyleKind.word : StyleKind → String
  | paint => "paint"
  | stroke => "stroke"
  | text => "text"
  | effect => "effect"
  | grid => "grid"

/-- What a node is held to along an axis. -/
inductive ConstraintAxis
  | min | center | max | stretch | scale
deriving DecidableEq

/-- The word of a constraint. -/
def ConstraintAxis.word : ConstraintAxis → String
  | min => "min"
  | center => "center"
  | max => "max"
  | stretch => "stretch"
  | scale => "scale"

/-! ## Values of a node -/

/-- Where a result is cut. -/
structure Truncation where
  reason : TruncationReason
  appliedDepth : Option ℕ := none
  visitedNodes : Option ℕ := none
  encodedBytes : Option ℕ := none
deriving DecidableEq

/-- A cut, as it is sent. -/
def Truncation.toJs (t : Truncation) : JsValue :=
  .object (member "reason" (word t.reason.word) ++
    optional "appliedDepth" (t.appliedDepth.map natural) ++
    optional "visitedNodes" (t.visitedNodes.map natural) ++
    optional "encodedBytes" (t.encodedBytes.map natural))

/-- A rectangle. -/
structure Rect where
  x : ℚ
  y : ℚ
  width : ℚ
  height : ℚ
deriving DecidableEq

/-- A rectangle, as it is sent. -/
def Rect.toJs (r : Rect) : JsValue :=
  .object (member "x" (.rational r.x) ++ member "y" (.rational r.y) ++
    member "width" (.rational r.width) ++ member "height" (.rational r.height))

/-- A color. -/
structure Color where
  r : ℚ
  g : ℚ
  b : ℚ
  a : ℚ
deriving DecidableEq

/-- A color, as it is sent. -/
def Color.toJs (c : Color) : JsValue :=
  .object (member "r" (.rational c.r) ++ member "g" (.rational c.g) ++
    member "b" (.rational c.b) ++ member "a" (.rational c.a))

/-- A stop of a gradient. -/
structure GradientStop where
  position : ℚ
  color : Color
deriving DecidableEq

/-- A stop, as it is sent. -/
def GradientStop.toJs (s : GradientStop) : JsValue :=
  .object (member "position" (.rational s.position) ++ member "color" s.color.toJs)

/-- The two rows of a transform. -/
structure Transform2D where
  m00 : ℚ
  m01 : ℚ
  m02 : ℚ
  m10 : ℚ
  m11 : ℚ
  m12 : ℚ
deriving DecidableEq

/-- A transform, as it is sent. -/
def Transform2D.toJs (t : Transform2D) : JsValue :=
  .object (member "m00" (.rational t.m00) ++ member "m01" (.rational t.m01) ++
    member "m02" (.rational t.m02) ++ member "m10" (.rational t.m10) ++
    member "m11" (.rational t.m11) ++ member "m12" (.rational t.m12))

/-- A paint. -/
inductive PaintValue
  | solid (color : Color) (opacity : ℚ)
  | gradient (kind : GradientKind) (stops : List GradientStop) (gradientTransform : Transform2D)
      (opacity : ℚ)
  | image (imageRef : JsString) (scaleMode : ImageScaleMode) (opacity : ℚ)
  | mixed
  | unsupported (figmaType : JsString)
deriving DecidableEq

/-- A paint, as it is sent. -/
def PaintValue.toJs : PaintValue → JsValue
  | solid color opacity =>
    .object (member "type" (word "solid") ++ member "color" color.toJs ++
      member "opacity" (.rational opacity))
  | gradient kind stops gradientTransform opacity =>
    .object (member "type" (word kind.word) ++
      member "stops" (.array (stops.map GradientStop.toJs)) ++
      member "gradientTransform" gradientTransform.toJs ++ member "opacity" (.rational opacity))
  | image imageRef scaleMode opacity =>
    .object (member "type" (word "image") ++ member "imageRef" (.string imageRef) ++
      member "scaleMode" (word scaleMode.word) ++ member "opacity" (.rational opacity))
  | mixed => .object (member "type" (word "mixed"))
  | unsupported figmaType =>
    .object (member "type" (word "unsupported") ++ member "figmaType" (.string figmaType))

/-- An effect. -/
inductive EffectValue
  | shadow (kind : ShadowKind) (color : Color) (offsetX offsetY radius spread : ℚ)
  | blur (kind : BlurKind) (radius : ℚ)
  | unsupported (figmaType : JsString)
deriving DecidableEq

/-- An effect, as it is sent. -/
def EffectValue.toJs : EffectValue → JsValue
  | shadow kind color offsetX offsetY radius spread =>
    .object (member "type" (word kind.word) ++ member "color" color.toJs ++
      member "offsetX" (.rational offsetX) ++ member "offsetY" (.rational offsetY) ++
      member "radius" (.rational radius) ++ member "spread" (.rational spread))
  | blur kind radius =>
    .object (member "type" (word kind.word) ++ member "radius" (.rational radius))
  | unsupported figmaType =>
    .object (member "type" (word "unsupported") ++ member "figmaType" (.string figmaType))

/-- The strokes of a node. -/
structure StrokeValue where
  paints : List PaintValue
  weight : Option ℚ := none
  align : Option StrokeAlign := none
  dashPattern : Option (List ℚ) := none
deriving DecidableEq

/-- The strokes of a node, as they are sent. -/
def StrokeValue.toJs (s : StrokeValue) : JsValue :=
  .object (member "paints" (.array (s.paints.map PaintValue.toJs)) ++
    optional "weight" (s.weight.map .rational) ++
    optional "align" (s.align.map fun a => FigmaDevMcp.word a.word) ++
    optional "dashPattern" (s.dashPattern.map fun d => .array (d.map .rational)))

/-- The radius of the corners, one for all or one for each. -/
inductive CornerRadiusValue
  | uniform (radius : ℚ)
  | perCorner (topLeft topRight bottomRight bottomLeft : ℚ)
deriving DecidableEq

/-- A radius, as it is sent. -/
def CornerRadiusValue.toJs : CornerRadiusValue → JsValue
  | uniform radius => .object (member "kind" (word "uniform") ++ member "radius" (.rational radius))
  | perCorner topLeft topRight bottomRight bottomLeft =>
    .object (member "kind" (word "perCorner") ++ member "topLeft" (.rational topLeft) ++
      member "topRight" (.rational topRight) ++ member "bottomRight" (.rational bottomRight) ++
      member "bottomLeft" (.rational bottomLeft))

/-- The layout of a frame. -/
structure LayoutValue where
  mode : LayoutMode
  primarySizing : LayoutSizing
  counterSizing : LayoutSizing
  gap : ℚ
  paddingTop : ℚ
  paddingRight : ℚ
  paddingBottom : ℚ
  paddingLeft : ℚ
  primaryAlign : Option AxisAlign := none
  counterAlign : Option AxisAlign := none
  wrap : Option Bool := none
  counterAxisSpacing : Option ℚ := none
deriving DecidableEq

/-- A layout, as it is sent. -/
def LayoutValue.toJs (l : LayoutValue) : JsValue :=
  .object (member "mode" (word l.mode.word) ++ member "primarySizing" (word l.primarySizing.word) ++
    member "counterSizing" (word l.counterSizing.word) ++ member "gap" (.rational l.gap) ++
    member "paddingTop" (.rational l.paddingTop) ++
    member "paddingRight" (.rational l.paddingRight) ++
    member "paddingBottom" (.rational l.paddingBottom) ++
    member "paddingLeft" (.rational l.paddingLeft) ++
    optional "primaryAlign" (l.primaryAlign.map fun a => FigmaDevMcp.word a.word) ++
    optional "counterAlign" (l.counterAlign.map fun a => FigmaDevMcp.word a.word) ++
    optional "wrap" (l.wrap.map .bool) ++
    optional "counterAxisSpacing" (l.counterAxisSpacing.map .rational))

/-- The height of lines. -/
inductive LineHeightValue
  | pixels (value : ℚ)
  | percent (value : ℚ)
  | auto
deriving DecidableEq

/-- A height, as it is sent. -/
def LineHeightValue.toJs : LineHeightValue → JsValue
  | pixels value => .object (member "unit" (word "pixels") ++ member "value" (.rational value))
  | percent value => .object (member "unit" (word "percent") ++ member "value" (.rational value))
  | auto => .object (member "unit" (word "auto"))

/-- The space between letters. -/
inductive LetterSpacingValue
  | pixels (value : ℚ)
  | percent (value : ℚ)
deriving DecidableEq

/-- A space, as it is sent. -/
def LetterSpacingValue.toJs : LetterSpacingValue → JsValue
  | pixels value => .object (member "unit" (word "pixels") ++ member "value" (.rational value))
  | percent value => .object (member "unit" (word "percent") ++ member "value" (.rational value))

/-- The style of a text. -/
structure TextStyle where
  fontFamily : JsString
  fontStyle : JsString
  paints : List PaintValue
  fontSize : Option ℚ := none
  lineHeight : Option LineHeightValue := none
  letterSpacing : Option LetterSpacingValue := none
  fontWeight : Option ℚ := none
  textDecoration : Option TextDecoration := none
deriving DecidableEq

/-- A style, as it is sent. -/
def TextStyle.toJs (s : TextStyle) : JsValue :=
  .object (member "fontFamily" (.string s.fontFamily) ++ member "fontStyle" (.string s.fontStyle) ++
    member "paints" (.array (s.paints.map PaintValue.toJs)) ++
    optional "fontSize" (s.fontSize.map .rational) ++
    optional "lineHeight" (s.lineHeight.map LineHeightValue.toJs) ++
    optional "letterSpacing" (s.letterSpacing.map LetterSpacingValue.toJs) ++
    optional "fontWeight" (s.fontWeight.map .rational) ++
    optional "textDecoration" (s.textDecoration.map fun d => FigmaDevMcp.word d.word))

/-- A range of characters with its style. -/
structure StyledTextRange where
  start : ℚ
  stop : ℚ
  style : TextStyle
deriving DecidableEq

/-- A range, as it is sent. -/
def StyledTextRange.toJs (r : StyledTextRange) : JsValue :=
  .object (member "start" (.rational r.start) ++ member "end" (.rational r.stop) ++
    member "style" r.style.toJs)

/-- A text with its styles. -/
structure TextValue where
  characters : JsString
  defaultStyle : TextStyle
  styledRanges : List StyledTextRange
  alignHorizontal : Option TextAlignHorizontal := none
  alignVertical : Option TextAlignVertical := none
  autoResize : Option TextAutoResize := none
deriving DecidableEq

/-- A text, as it is sent. -/
def TextValue.toJs (t : TextValue) : JsValue :=
  .object (member "characters" (.string t.characters) ++
    member "defaultStyle" t.defaultStyle.toJs ++
    member "styledRanges" (.array (t.styledRanges.map StyledTextRange.toJs)) ++
    optional "alignHorizontal" (t.alignHorizontal.map fun a => FigmaDevMcp.word a.word) ++
    optional "alignVertical" (t.alignVertical.map fun a => FigmaDevMcp.word a.word) ++
    optional "autoResize" (t.autoResize.map fun a => FigmaDevMcp.word a.word))

/-- The length and the start of a text. -/
structure TextSummary where
  characterCount : ℕ
  preview : JsString
deriving DecidableEq

/-- The length and the start of a text, as they are sent. -/
def TextSummary.toJs (t : TextSummary) : JsValue :=
  .object (member "characterCount" (natural t.characterCount) ++
    member "preview" (.string t.preview))

/-- The value of a property of a component. -/
inductive ComponentPropertyValue
  | text (value : JsString)
  | boolean (value : Bool)
  | instanceSwap (value : JsString)
  | variant (value : JsString)
deriving DecidableEq

/-- The value of a property, as it is sent. -/
def ComponentPropertyValue.toJs : ComponentPropertyValue → JsValue
  | .text value => .object (member "kind" (word "text") ++ member "value" (.string value))
  | .boolean value => .object (member "kind" (word "boolean") ++ member "value" (.bool value))
  | .instanceSwap value =>
    .object (member "kind" (word "instanceSwap") ++ member "value" (.string value))
  | .variant value => .object (member "kind" (word "variant") ++ member "value" (.string value))

/-- A property of an instance. -/
structure NamedComponentProperty where
  name : JsString
  value : ComponentPropertyValue
deriving DecidableEq

/-- A property, as it is sent. -/
def NamedComponentProperty.toJs (p : NamedComponentProperty) : JsValue :=
  .object (member "name" (.string p.name) ++ member "value" p.value.toJs)

/-- What a node says of the component that it is. -/
structure ComponentValue where
  componentId : JsString
  properties : List NamedComponentProperty
  componentSetId : Option JsString := none
deriving DecidableEq

/-- What an instance says of its component. -/
abbrev InstanceValue := ComponentValue

/-- A component, as it is sent. -/
def ComponentValue.toJs (c : ComponentValue) : JsValue :=
  .object (member "componentId" (.string c.componentId) ++
    member "properties" (.array (c.properties.map NamedComponentProperty.toJs)) ++
    optional "componentSetId" (c.componentSetId.map .string))

/-- Where a node is and how it is drawn there. -/
structure GeometryValue where
  rotation : ℚ
  opacity : ℚ
  transform : Transform2D
  bounds : Option Rect := none
deriving DecidableEq

/-- A geometry, as it is sent. -/
def GeometryValue.toJs (g : GeometryValue) : JsValue :=
  .object (member "rotation" (.rational g.rotation) ++ member "opacity" (.rational g.opacity) ++
    member "transform" g.transform.toJs ++ optional "bounds" (g.bounds.map Rect.toJs))

/-- What a node is held to along both axes. -/
structure LayoutConstraints where
  horizontal : ConstraintAxis
  vertical : ConstraintAxis
deriving DecidableEq

/-- The constraints, as they are sent. -/
def LayoutConstraints.toJs (c : LayoutConstraints) : JsValue :=
  .object (member "horizontal" (word c.horizontal.word) ++ member "vertical" (word c.vertical.word))

/-- A style of a node. -/
structure StyleReference where
  id : JsString
  kind : StyleKind
  name : Option JsString := none
deriving DecidableEq

/-- A style of a node, as it is sent. -/
def StyleReference.toJs (r : StyleReference) : JsValue :=
  .object (member "id" (.string r.id) ++ member "kind" (word r.kind.word) ++
    optional "name" (r.name.map .string))

/-- A variable of a node. -/
structure VariableReference where
  id : JsString
  name : Option JsString := none
deriving DecidableEq

/-- A variable of a node, as it is sent. -/
def VariableReference.toJs (r : VariableReference) : JsValue :=
  .object (member "id" (.string r.id) ++ optional "name" (r.name.map .string))

/-! ## Nodes -/

/-- What is told of every node. -/
structure NodeSummary where
  id : JsString
  name : JsString
  nodeType : JsString
  parentId : Option JsString := none
  childIds : Option (List JsString) := none
  bounds : Option Rect := none
deriving DecidableEq

/-- What is told of every node, as it is sent. -/
def NodeSummary.toJs (s : NodeSummary) : JsValue :=
  .object (member "id" (.string s.id) ++ member "name" (.string s.name) ++
    member "nodeType" (.string s.nodeType) ++ optional "parentId" (s.parentId.map .string) ++
    optional "childIds" (s.childIds.map fun ids => .array (ids.map .string)) ++
    optional "bounds" (s.bounds.map Rect.toJs))

/-- The data of a compact read. -/
structure CompactNodeData where
  geometry : Option GeometryValue := none
  styleReferences : List StyleReference
  variableReferences : List VariableReference
  autoLayout : Option LayoutValue := none
  constraints : Option LayoutConstraints := none
  component : Option ComponentValue := none
  inst : Option InstanceValue := none
  textSummary : Option TextSummary := none
deriving DecidableEq

/-- The data of a compact read, as it is sent. -/
def CompactNodeData.toJs (d : CompactNodeData) : JsValue :=
  .object (optional "geometry" (d.geometry.map GeometryValue.toJs) ++
    member "styleReferences" (.array (d.styleReferences.map StyleReference.toJs)) ++
    member "variableReferences" (.array (d.variableReferences.map VariableReference.toJs)) ++
    optional "autoLayout" (d.autoLayout.map LayoutValue.toJs) ++
    optional "constraints" (d.constraints.map LayoutConstraints.toJs) ++
    optional "component" (d.component.map ComponentValue.toJs) ++
    optional "instance" (d.inst.map ComponentValue.toJs) ++
    optional "text" (d.textSummary.map TextSummary.toJs))

/-- The data of a full read. -/
structure FullNodeData where
  styleReferences : List StyleReference
  variableReferences : List VariableReference
  paints : List PaintValue
  effects : List EffectValue
  geometry : Option GeometryValue := none
  autoLayout : Option LayoutValue := none
  constraints : Option LayoutConstraints := none
  component : Option ComponentValue := none
  inst : Option InstanceValue := none
  strokes : Option StrokeValue := none
  cornerRadius : Option CornerRadiusValue := none
  cornerSmoothing : Option ℚ := none
  clipsContent : Option Bool := none
  blendMode : Option BlendMode := none
  textValue : Option TextValue := none
deriving DecidableEq

/-- The data of a full read, as it is sent. -/
def FullNodeData.toJs (d : FullNodeData) : JsValue :=
  .object (member "styleReferences" (.array (d.styleReferences.map StyleReference.toJs)) ++
    member "variableReferences" (.array (d.variableReferences.map VariableReference.toJs)) ++
    member "paints" (.array (d.paints.map PaintValue.toJs)) ++
    member "effects" (.array (d.effects.map EffectValue.toJs)) ++
    optional "geometry" (d.geometry.map GeometryValue.toJs) ++
    optional "autoLayout" (d.autoLayout.map LayoutValue.toJs) ++
    optional "constraints" (d.constraints.map LayoutConstraints.toJs) ++
    optional "component" (d.component.map ComponentValue.toJs) ++
    optional "instance" (d.inst.map ComponentValue.toJs) ++
    optional "strokes" (d.strokes.map StrokeValue.toJs) ++
    optional "cornerRadius" (d.cornerRadius.map CornerRadiusValue.toJs) ++
    optional "cornerSmoothing" (d.cornerSmoothing.map .rational) ++
    optional "clipsContent" (d.clipsContent.map .bool) ++
    optional "blendMode" (d.blendMode.map fun m => FigmaDevMcp.word m.word) ++
    optional "text" (d.textValue.map TextValue.toJs))

/-- How much is told of a node. -/
inductive DetailLevel
  | minimal | compact | full
deriving DecidableEq

/-- The data of a node. -/
inductive NodeData
  | minimal
  | compact (data : CompactNodeData)
  | full (data : FullNodeData)
deriving DecidableEq

/-- The data of a node, as it is sent. -/
def NodeData.toJs : NodeData → JsValue
  | minimal => .object []
  | compact data => data.toJs
  | full data => data.toJs

/-- A node with its children. -/
structure DesignNode where
  summary : NodeSummary
  data : NodeData
  children : List DesignNode
  childrenTruncated : Bool
  childrenTruncation : Option Truncation := none

mutual

/-- A node, as it is sent. -/
def DesignNode.toJs : DesignNode → JsValue
  | ⟨summary, data, children, childrenTruncated, childrenTruncation⟩ =>
    .object (member "summary" summary.toJs ++ member "data" data.toJs ++
      member "children" (.array (forestToJs children)) ++
      member "childrenTruncated" (.bool childrenTruncated) ++
      optional "childrenTruncation" (childrenTruncation.map Truncation.toJs))

/-- The trees of a forest, as they are sent. -/
def forestToJs : List DesignNode → List JsValue
  | [] => []
  | node :: rest => node.toJs :: forestToJs rest

end

mutual

/-- A node and all below it in preorder, each with its level. -/
def DesignNode.levels (level : ℕ) : DesignNode → List (ℕ × DesignNode)
  | ⟨summary, data, children, childrenTruncated, childrenTruncation⟩ =>
    (level, ⟨summary, data, children, childrenTruncated, childrenTruncation⟩) ::
      forestLevels (level + 1) children

/-- The nodes of a forest with their levels. -/
def forestLevels (level : ℕ) : List DesignNode → List (ℕ × DesignNode)
  | [] => []
  | node :: rest => node.levels level ++ forestLevels level rest

end

/-- How many nodes a forest has. -/
def forestCount (forest : List DesignNode) : ℕ := (forestLevels 0 forest).length

end FigmaDevMcp

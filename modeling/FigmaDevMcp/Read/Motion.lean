import FigmaDevMcp.Lib.JsonText
import FigmaDevMcp.Read.DevMode

set_option autoImplicit false

/-!
# Reading motion

`getMotion` of `motion.ts`: the animations of every visible node that has some, and an error for
every node that cannot have any.

* `motionEasing`, `keyframeValue`, `keyframe`, `tracks`: the values of an animation;
* `flatten`: the bindings of a node, of its properties and of its indexed items;
* `serializeMotion`: the record of a node;
* `getMotion`: the read.
-/

namespace FigmaDevMcp

open JsValue

/-! ## Object keys and numbers -/

/-- The own members of an object, the items of an array under their indices. -/
def ownMembers : JsValue → List Member
  | .object members => members
  | .array items => items.mapIdx fun index item => (NumberText.decimal index, item)
  | _ => []

/-- `Object.keys(raw).sort()`, with the values. -/
def sortedMembers (raw : JsValue) : List Member :=
  (ownMembers raw).mergeSort fun a b => decide (a.1 ≤ b.1)

/-- The number of digits in a base, of which there must be one. -/
def prefixedDigits (digit : ℕ → Option ℕ) (base : ℕ) (s : JsString) : Option ℚ :=
  (s.mapM digit).bind fun digits =>
    if digits = [] then none else some (Nat.ofDigits base digits.reverse : ℕ)

/-- The value of a digit of a base. -/
def digitBelow (base : ℕ) (u : ℕ) : Option ℕ := (hexValue u).filter (· < base)

/-- A decimal literal, without its sign. -/
def decimalLiteral (s : JsString) : Option ℚ :=
  let (whole, rest) := takeDigits s
  let (fraction, rest) := match rest with
    | 0x2e :: rest => takeDigits rest
    | _ => ([], rest)
  if whole = [] ∧ fraction = [] then none
  else
    match parseExponent rest with
    | some (exponent, []) =>
      some (NumberText.undecimal (whole ++ fraction) * (10 : ℚ) ^ (exponent - fraction.length))
    | _ => none

/-- `Number(s)` where it is finite and not negative. -/
def toNonNegative (s : JsString) : Option ℚ :=
  let literal := match trim s with
    | [] => some 0
    | 0x30 :: 0x78 :: digits | 0x30 :: 0x58 :: digits => prefixedDigits (digitBelow 16) 16 digits
    | 0x30 :: 0x6f :: digits | 0x30 :: 0x4f :: digits => prefixedDigits (digitBelow 8) 8 digits
    | 0x30 :: 0x62 :: digits | 0x30 :: 0x42 :: digits => prefixedDigits (digitBelow 2) 2 digits
    | 0x2b :: s => decimalLiteral s
    | 0x2d :: s => (decimalLiteral s).filter (· = 0)
    | s => decimalLiteral s
  literal.bind NumberText.toDouble

/-- The indices that the keys of a group are read as, in order. -/
def numericIndices (raw : JsValue) : List ℚ :=
  (((ownMembers raw).filterMap fun m => toNonNegative m.1).filter fun q => q.den = 1).mergeSort
    fun a b => decide (a ≤ b)

/-- `record(raw)[String(index)]` -/
def itemAt (raw : JsValue) (index : ℚ) : JsValue :=
  (lookup (NumberText.toText index) (ownMembers raw)).getD .undefined

/-! ## Easings and keyframes -/

/-- The curves of an easing. -/
inductive MotionEasingType
  | linear | easeIn | easeOut | easeInAndOut | easeInBack | easeOutBack | easeInAndOutBack
  | customCubicBezier | gentle | quick | bouncy | slow | customSpring | hold
deriving DecidableEq

/-- The word of a curve. -/
def MotionEasingType.word : MotionEasingType → String
  | linear => "LINEAR"
  | easeIn => "EASE_IN"
  | easeOut => "EASE_OUT"
  | easeInAndOut => "EASE_IN_AND_OUT"
  | easeInBack => "EASE_IN_BACK"
  | easeOutBack => "EASE_OUT_BACK"
  | easeInAndOutBack => "EASE_IN_AND_OUT_BACK"
  | customCubicBezier => "CUSTOM_CUBIC_BEZIER"
  | gentle => "GENTLE"
  | quick => "QUICK"
  | bouncy => "BOUNCY"
  | slow => "SLOW"
  | customSpring => "CUSTOM_SPRING"
  | hold => "HOLD"

/-- The types, but for that of an alias of a variable. -/
def easingTypes : List MotionEasingType :=
  [.linear, .easeIn, .easeOut, .easeInAndOut, .easeInBack, .easeOutBack, .easeInAndOutBack,
    .customCubicBezier, .gentle, .quick, .bouncy, .slow, .customSpring, .hold]

/-- A curve of its own. -/
structure CubicBezier where
  x1 : ℚ
  y1 : ℚ
  x2 : ℚ
  y2 : ℚ

/-- How a value moves to the next. -/
inductive MotionEasing
  | variableAlias (id : JsString)
  | curve (type : MotionEasingType) (bezier : Option CubicBezier) (bounce : Option ℚ)

/-- An easing, as it is sent. -/
def MotionEasing.toJs : MotionEasing → JsValue
  | variableAlias id => .object (member "type" (word "VARIABLE_ALIAS") ++ member "id" (.string id))
  | curve type bezier bounce =>
    .object (member "type" (word type.word) ++
      optional "easingFunctionCubicBezier" (bezier.map fun b =>
        .object (member "x1" (.rational b.x1) ++ member "y1" (.rational b.y1) ++
          member "x2" (.rational b.x2) ++ member "y2" (.rational b.y2))) ++
      optional "easingFunctionSpring" (bounce.map fun b => .object (member "bounce" (.rational b))))

/-- A curve with all its numbers. -/
def cubicBezier (raw : JsValue) : Option CubicBezier := do
  let bezier := record raw
  let x1 ← optionalFinite (bezier.field "x1")
  let y1 ← optionalFinite (bezier.field "y1")
  let x2 ← optionalFinite (bezier.field "x2")
  let y2 ← optionalFinite (bezier.field "y2")
  return { x1, y1, x2, y2 }

/-- An easing that is understood. -/
def motionEasing (raw : JsValue) : Option MotionEasing :=
  let value := record raw
  if isWord (value.field "type") "VARIABLE_ALIAS" then
    (nonEmpty (value.field "id")).map .variableAlias
  else
    (easingTypes.find? fun type => isWord (value.field "type") type.word).map fun type =>
      .curve type (cubicBezier (value.field "easingFunctionCubicBezier"))
        (optionalFinite ((record (value.field "easingFunctionSpring")).field "bounce"))

/-- The value of a keyframe. -/
inductive MotionKeyframeValue
  | float (value : ℚ)
  | color (value : Color)
  | textData (value : JsString)
  | vector (x y : ℚ)
  | bool (value : Bool)
  | circle (x y radius : ℚ)
  | line (x y x2 y2 : ℚ)
  | circlePoint (x y radius angle : ℚ)
  | colorPoint (x y : ℚ) (color : Color)
  | unsupported (tag : JsString)

/-- The value of a keyframe, as it is sent. -/
def MotionKeyframeValue.toJs (v : MotionKeyframeValue) : JsValue :=
  let tagged (tag : String) (value : JsValue) : JsValue :=
    .object (member "type" (word tag) ++ member "value" value)
  let numbers (members : List (String × ℚ)) : List Member :=
    members.map fun m => (text m.1, .rational m.2)
  match v with
  | float value => tagged "FLOAT" (.rational value)
  | color value => tagged "COLOR" value.toJs
  | textData value => tagged "TEXT_DATA" (.string value)
  | vector x y => tagged "VECTOR" (.object (numbers [("x", x), ("y", y)]))
  | bool value => tagged "BOOL" (.bool value)
  | circle x y radius => tagged "CIRCLE" (.object (numbers [("x", x), ("y", y), ("radius", radius)]))
  | line x y x2 y2 =>
    tagged "LINE" (.object (numbers [("x", x), ("y", y), ("x2", x2), ("y2", y2)]))
  | circlePoint x y radius angle =>
    tagged "CIRCLE_POINT"
      (.object (numbers [("x", x), ("y", y), ("radius", radius), ("angle", angle)]))
  | colorPoint x y c =>
    tagged "COLOR_POINT" (.object (numbers [("x", x), ("y", y)] ++ member "color" c.toJs))
  | unsupported tag => .object (member "type" (word "unsupported") ++ member "tag" (.string tag))

/-- A color with all its numbers. -/
def motionColor (raw : JsValue) : Option Color := do
  let value := record raw
  let r ← optionalFinite (value.field "r")
  let g ← optionalFinite (value.field "g")
  let b ← optionalFinite (value.field "b")
  let a ← optionalFinite (value.field "a")
  return { r, g, b, a }

/-- A value that has the type that it names. -/
def keyframeValue (raw : JsValue) : Option MotionKeyframeValue :=
  let value := record raw
  let type := value.field "type"
  let inner := value.field "value"
  let number (key : String) : Option ℚ := optionalFinite ((record inner).field key)
  if isWord type "FLOAT" then (optionalFinite inner).map .float
  else if isWord type "COLOR" then (motionColor inner).map .color
  else if isWord type "TEXT_DATA" then (stringOf inner).map .textData
  else if isWord type "VECTOR" then do return .vector (← number "x") (← number "y")
  else if isWord type "BOOL" then
    match inner with
    | .bool b => some (.bool b)
    | _ => none
  else if isWord type "CIRCLE" then do
    return .circle (← number "x") (← number "y") (← number "radius")
  else if isWord type "LINE" then do
    return .line (← number "x") (← number "y") (← number "x2") (← number "y2")
  else if isWord type "CIRCLE_POINT" then do
    return .circlePoint (← number "x") (← number "y") (← number "radius") (← number "angle")
  else if isWord type "COLOR_POINT" then do
    return .colorPoint (← number "x") (← number "y")
      (← motionColor ((record inner).field "color"))
  else (stringOf type).map .unsupported

/-- A value at a place on the timeline. -/
structure MotionKeyframe where
  id : JsString
  timelinePosition : ℚ
  value : MotionKeyframeValue
  easing : MotionEasing

/-- A keyframe, as it is sent. -/
def MotionKeyframe.toJs (k : MotionKeyframe) : JsValue :=
  .object (member "id" (.string k.id) ++ member "timelinePosition" (.rational k.timelinePosition) ++
    member "value" k.value.toJs ++ member "easing" k.easing.toJs)

/-- A keyframe with all its parts. -/
def keyframe (raw : JsValue) : Option MotionKeyframe := do
  let value := record raw
  let id ← nonEmpty (value.field "id")
  let timelinePosition ← optionalFinite (value.field "timelinePosition")
  let parsed ← keyframeValue (value.field "value")
  let easing ← motionEasing (value.field "easing")
  return { id, timelinePosition, value := parsed, easing }

/-- The keyframes that have all their parts. -/
def keyframes (raw : JsValue) : List MotionKeyframe := (array raw).filterMap keyframe

/-! ## Bindings -/

/-- What a keyframe does to the base value. -/
inductive KeyframeOperation
  | set | offset | scale
deriving DecidableEq

/-- The word of an operation. -/
def KeyframeOperation.word : KeyframeOperation → String
  | set => "SET"
  | offset => "OFFSET"
  | scale => "SCALE"

/-- An operation by its word. -/
def operation (raw : JsValue) : Option KeyframeOperation :=
  tableLookup [("SET", .set), ("OFFSET", .offset), ("SCALE", .scale)] (string raw)

/-- The keyframes of a track. -/
structure AnimationTrack where
  id : JsString
  keyframeOperation : KeyframeOperation
  keyframes : List MotionKeyframe

/-- A track, as it is sent. -/
def AnimationTrack.toJs (t : AnimationTrack) : JsValue :=
  .object (member "id" (.string t.id) ++
    member "keyframeOperation" (word t.keyframeOperation.word) ++
    member "keyframes" (.array (t.keyframes.map MotionKeyframe.toJs)))

/-- The tracks with an id and an operation. -/
def tracks (raw : JsValue) : List AnimationTrack :=
  (array raw).filterMap fun item => do
    let id ← nonEmpty ((record item).field "id")
    let keyframeOperation ← operation ((record item).field "keyframeOperation")
    return { id, keyframeOperation, keyframes := keyframes ((record item).field "keyframes") }

/-- The fields of a node whose items are animated one by one. -/
inductive IndexedCollection
  | fills | strokes | effects
deriving DecidableEq

/-- The word of a collection. -/
def IndexedCollection.word : IndexedCollection → String
  | fills => "fills"
  | strokes => "strokes"
  | effects => "effects"

/-- What is animated. -/
inductive KeyframeField
  | property (name : JsString)
  | indexedItem (collection : IndexedCollection) (index : ℚ) (field propertyId : Option JsString)

/-- What is animated, as it is sent. -/
def KeyframeField.toJs : KeyframeField → JsValue
  | property name => .object (member "type" (word "property") ++ member "name" (.string name))
  | indexedItem collection index field propertyId =>
    .object (member "type" (word "indexedItem") ++ member "collection" (word collection.word) ++
      member "index" (.rational index) ++ optional "field" (field.map .string) ++
      optional "propertyId" (propertyId.map .string))

/-- A field with its animation. -/
structure AnimationBinding where
  field : KeyframeField
  baseValue : MotionKeyframeValue
  timelineDuration : ℚ
  tracks : List AnimationTrack

/-- An animation, as it is sent. -/
def AnimationBinding.toJs (b : AnimationBinding) : JsValue :=
  .object (member "field" b.field.toJs ++ member "baseValue" b.baseValue.toJs ++
    member "timelineDuration" (.rational b.timelineDuration) ++
    member "tracks" (.array (b.tracks.map AnimationTrack.toJs)))

/-- A field with keyframes of its own. -/
structure ManualTrackBinding where
  field : KeyframeField
  id : JsString
  baseValue : MotionKeyframeValue
  keyframes : List MotionKeyframe

/-- A manual track, as it is sent. -/
def ManualTrackBinding.toJs (b : ManualTrackBinding) : JsValue :=
  .object (member "field" b.field.toJs ++ member "id" (.string b.id) ++
    member "baseValue" b.baseValue.toJs ++
    member "keyframes" (.array (b.keyframes.map MotionKeyframe.toJs)))

/-- The value has the members of an animation. -/
def isKeyframeBinding (raw : JsValue) : Bool :=
  (record raw).hasOwn (text "tracks") || (record raw).hasOwn (text "timelineDuration")

/-- The value has the members of a manual track. -/
def isManualBinding (raw : JsValue) : Bool :=
  (record raw).hasOwn (text "keyframes") && (record raw).hasOwn (text "id")

/-- An animation with all its parts. -/
def animationBinding (field : KeyframeField) (raw : JsValue) : Option AnimationBinding :=
  if isKeyframeBinding raw then do
    let value := record raw
    let baseValue ← keyframeValue (value.field "baseValue")
    let timelineDuration ← optionalFinite (value.field "timelineDuration")
    return { field, baseValue, timelineDuration, tracks := tracks (value.field "tracks") }
  else none

/-- A manual track with all its parts. -/
def manualBinding (field : KeyframeField) (raw : JsValue) : Option ManualTrackBinding :=
  if isManualBinding raw then do
    let value := record raw
    let id ← nonEmpty (value.field "id")
    let baseValue ← keyframeValue (value.field "baseValue")
    return { field, id, baseValue, keyframes := keyframes (value.field "keyframes") }
  else none

section Flatten

variable {β : Type} (isBinding : JsValue → Bool) (binding : KeyframeField → JsValue → Option β)

/-- The bindings of one item of an indexed collection. An effect has some in its own fields and some
under its properties; a fill or a stroke is a binding itself, or has some under its properties. -/
def flattenItem (collection : IndexedCollection) (index : ℚ) (item : JsValue) : List β :=
  let underProperties := (sortedMembers (record ((record item).field "properties"))).filterMap
    fun m => binding (.indexedItem collection index none (some m.1)) m.2
  if collection = .effects then
    ((sortedMembers (record item)).filter fun m => m.1 ≠ text "properties").filterMap
      (fun m => binding (.indexedItem collection index (some m.1) none) m.2) ++ underProperties
  else if isBinding item then (binding (.indexedItem collection index none none) item).toList
  else underProperties

/-- The bindings of the properties of a node, then those of its indexed collections. -/
def flatten (raw : JsValue) : List β :=
  let map := record raw
  ((sortedMembers map).filter fun m =>
      m.1 ≠ text "fills" ∧ m.1 ≠ text "strokes" ∧ m.1 ≠ text "effects").filterMap
    (fun m => binding (.property m.1) m.2) ++
  [IndexedCollection.fills, .strokes, .effects].flatMap fun collection =>
    let group := map.field collection.word
    (numericIndices group).flatMap fun index =>
      flattenItem isBinding binding collection index (itemAt group index)

end Flatten

/-- The animations of a node. -/
def flattenAnimations : JsValue → List AnimationBinding := flatten isKeyframeBinding animationBinding

/-- The manual tracks of a node. -/
def flattenManual : JsValue → List ManualTrackBinding := flatten isManualBinding manualBinding

/-! ## Styles and timelines -/

/-- The value of a property of an animation style. -/
inductive AppliedStylePropValue
  | string (value : JsString)
  | bool (value : Bool)
  | number (value : ℚ)
  | easing (value : MotionEasing)

/-- The value of a property, as it is sent. -/
def AppliedStylePropValue.toJs : AppliedStylePropValue → JsValue
  | string value => .string value
  | bool value => .bool value
  | number value => .rational value
  | easing value => value.toJs

/-- A value that is understood. -/
def appliedPropValue (raw : JsValue) : Option AppliedStylePropValue :=
  match raw with
  | .string s => some (.string s)
  | .bool b => some (.bool b)
  | .number (.finite q) => some (.number q)
  | raw => (motionEasing raw).map .easing

/-- A property of an animation style on a node. -/
structure AppliedStyleProp where
  name : JsString
  value : AppliedStylePropValue

/-- A property, as it is sent. -/
def AppliedStyleProp.toJs (p : AppliedStyleProp) : JsValue :=
  .object (member "name" (.string p.name) ++ member "value" p.value.toJs)

/-- The value has members. -/
def isRecord : JsValue → Bool
  | .object _ | .array _ => true
  | _ => false

/-- The properties that are understood, by their names. -/
def appliedProps (raw : JsValue) : Option (List AppliedStyleProp) :=
  if isRecord raw then
    some ((sortedMembers raw).filterMap fun m =>
      (appliedPropValue m.2).map fun value => { name := m.1, value })
  else none

/-- An animation style on a node. -/
structure AppliedAnimationStyle where
  id : JsString
  styleId : JsString
  name : JsString
  duration : Option ℚ
  timelineOffset : Option ℚ
  props : Option (List AppliedStyleProp)

/-- An animation style on a node, as it is sent. -/
def AppliedAnimationStyle.toJs (s : AppliedAnimationStyle) : JsValue :=
  .object (member "id" (.string s.id) ++ member "styleId" (.string s.styleId) ++
    member "name" (.string s.name) ++ optional "duration" (s.duration.map .rational) ++
    optional "timelineOffset" (s.timelineOffset.map .rational) ++
    optional "props" (s.props.map fun props => .array (props.map AppliedStyleProp.toJs)))

/-- The animation styles with an id, a style and a name. -/
def appliedStyles (raw : JsValue) : List AppliedAnimationStyle :=
  (array raw).filterMap fun item => do
    let style := record item
    let id ← nonEmpty (style.field "id")
    let styleId ← nonEmpty (style.field "styleId")
    return {
      id
      styleId
      name := string (style.field "name")
      duration := optionalFinite (style.field "duration")
      timelineOffset := optionalFinite (style.field "timelineOffset")
      props := appliedProps (style.field "props") }

/-- A timeline with its duration. -/
structure MotionTimeline where
  id : JsString
  duration : ℚ

/-- A timeline, as it is sent. -/
def MotionTimeline.toJs (t : MotionTimeline) : JsValue :=
  .object (member "id" (.string t.id) ++ member "duration" (.rational t.duration))

/-- The timelines with an id and a duration. -/
def timelines (raw : JsValue) : List MotionTimeline :=
  (array raw).filterMap fun item => do
    let id ← nonEmpty ((record item).field "id")
    let duration ← optionalFinite ((record item).field "duration")
    return { id, duration }

/-- A property that an animation style has. -/
structure AvailableStyleProp where
  name : JsString
  value : JsString

/-- An animation style of the file. -/
structure AvailableAnimationStyle where
  styleId : JsString
  name : JsString
  description : Option JsString
  props : Option (List AvailableStyleProp)

/-- The animation styles with an id. -/
def availableStyles (raw : JsValue) : List AvailableAnimationStyle :=
  (array raw).filterMap fun item =>
    let style := record item
    (nonEmpty (style.field "styleId")).map fun styleId =>
      { styleId
        name := string (style.field "name")
        description := stringOf (style.field "description")
        props :=
          if isRecord (style.field "props") then
            some ((sortedMembers (style.field "props")).filterMap fun m =>
              (stringOf m.2).map fun value => { name := m.1, value })
          else none }

/-! ## The record of a node -/

/-- The animations of a node. -/
structure NodeMotion where
  nodeId : JsString
  animationStyles : List AppliedAnimationStyle
  animations : List AnimationBinding
  manualKeyframeTracks : List ManualTrackBinding
  timelines : List MotionTimeline

/-- The animations of a node, as they are sent. -/
def NodeMotion.toJs (m : NodeMotion) : JsValue :=
  .object (member "nodeId" (.string m.nodeId) ++
    member "animationStyles" (.array (m.animationStyles.map AppliedAnimationStyle.toJs)) ++
    member "animations" (.array (m.animations.map AnimationBinding.toJs)) ++
    member "manualKeyframeTracks"
      (.array (m.manualKeyframeTracks.map ManualTrackBinding.toJs)) ++
    member "timelines" (.array (m.timelines.map MotionTimeline.toJs)))

/-- An error item is that of a node which cannot have motion. -/
def motionItemToJs : ItemResult NodeMotion → JsValue
  | .success value => .object (member "status" (word "success") ++ member "value" value.toJs)
  | .error e =>
    .object (member "status" (word "error") ++
      member "error" (.object (member "code" (word "UNSUPPORTED_NODE") ++
        member "message" (word "The requested node type is not supported.") ++
        member "retryable" (.bool e.retryable))))

/-- The error of a node that cannot be animated. -/
def unsupportedItem : ItemResult NodeMotion := .error (.new .unsupportedNode false)

/-- The node is animated. -/
def NodeMotion.hasContent (value : NodeMotion) : Bool :=
  !value.animations.isEmpty || !value.animationStyles.isEmpty ||
    !value.manualKeyframeTracks.isEmpty

/-- There is something to tell of the node. -/
def itemHasContent : ItemResult NodeMotion → Bool
  | .error _ => true
  | .success value => value.hasContent

/-- The plugin API with what motion needs: which fields a node has, and what
`figma.motion.figmaAnimationStyles` returns, if it is a function; `none` within is a call that
throws. -/
structure MotionFigma (ρ : Type) extends Figma ρ where
  hasHostField : ρ → String → Bool
  figmaAnimationStyles : Option (Option JsValue)

/-- What `getMotion` gives, beside its items: the styles that there are, if asked for. -/
structure GetMotionResult extends Inspection (ItemResult NodeMotion) where
  availableStyles : List AvailableAnimationStyle

namespace MotionFigma

variable {ρ : Type} [DecidableEq ρ] (figma : MotionFigma ρ)

/-- The host has the fields of an animated node. -/
def supportsMotion (node : ρ) : Bool :=
  figma.hasHostField node "animationStyles" && figma.hasHostField node "animations" &&
    figma.hasHostField node "manualKeyframeTracks" && figma.hasHostField node "timelines"

/-- The animations of a node, or its error. -/
def serializeMotion (node : ρ) : ItemResult NodeMotion :=
  if figma.id node = [] ∨ figma.supportsMotion node = false then unsupportedItem
  else .success {
    nodeId := figma.id node
    animationStyles := appliedStyles (figma.get node "animationStyles")
    animations := flattenAnimations (figma.get node "animations")
    manualKeyframeTracks := flattenManual (figma.get node "manualKeyframeTracks")
    timelines := timelines (figma.get node "timelines") }

/-- The item of a node that has one. -/
def motionRecord (node : ρ) : Except ReadError (Option (ItemResult NodeMotion)) :=
  .ok (withContent itemHasContent (some (figma.serializeMotion node)))

/-- The catalog of styles, which is read if it is asked for. -/
def catalog (includeAvailableStyles : Bool) : Except ReadError (List AvailableAnimationStyle) :=
  match figma.figmaAnimationStyles with
  | none => .error (.read .capabilityUnavailable false)
  | some styles =>
    if includeAvailableStyles then
      match styles with
      | some raw => .ok (availableStyles raw)
      | none => .error .other
    else .ok []

/-- The animations below the roots, with the styles of the file. -/
def getMotion (includeAvailableStyles : Bool) (selector : Option Selector)
    (limits : SerializerLimits) : Except ReadError GetMotionResult := do
  let catalog ← figma.catalog includeAvailableStyles
  let inspection ← readItems limits (fun item => byteLength (motionItemToJs item))
    figma.motionRecord figma.toFigma selector
  return { inspection with availableStyles := catalog }

end MotionFigma

end FigmaDevMcp

import FigmaDevMcp.Read.ItemEmission

set_option autoImplicit false

/-!
# Reading reactions

`getReactions` of `reactions.ts`: the reactions of every visible node that has some, with what
each of them does and where it leads.

* `triggerOf`, `actionOf`, `overlaySettings`: the words and settings of a reaction;
* `serializeReactions`, `serializeNode`: the record of a node;
* `getReactions`: the read.
-/

namespace FigmaDevMcp

open JsValue

/-! ## The values -/

/-- What a reaction waits for. -/
inductive ReactionTrigger
  | click | drag | hover | press | keyDown | afterDelay | mouseEnter | mouseLeave | mouseUp
  | mouseDown | mediaHit | mediaEnd
deriving DecidableEq

/-- The word of a trigger. -/
def ReactionTrigger.word : ReactionTrigger → String
  | click => "click"
  | drag => "drag"
  | hover => "hover"
  | press => "press"
  | keyDown => "keyDown"
  | afterDelay => "afterDelay"
  | mouseEnter => "mouseEnter"
  | mouseLeave => "mouseLeave"
  | mouseUp => "mouseUp"
  | mouseDown => "mouseDown"
  | mediaHit => "mediaHit"
  | mediaEnd => "mediaEnd"

/-- The actions that lead to a node. -/
inductive NodeAction
  | navigate | openOverlay | swapOverlay | changeTo | scrollTo
deriving DecidableEq

/-- The word of an action. -/
def NodeAction.word : NodeAction → String
  | navigate => "navigate"
  | openOverlay => "openOverlay"
  | swapOverlay => "swapOverlay"
  | changeTo => "changeTo"
  | scrollTo => "scrollTo"

/-- What is done to a video. -/
inductive MediaRuntimeAction
  | play | pause | togglePlayPause | mute | unmute | toggleMuteUnmute | skipForward
  | skipBackward | skipTo
deriving DecidableEq

/-- The word of an action on a video. -/
def MediaRuntimeAction.word : MediaRuntimeAction → String
  | play => "play"
  | pause => "pause"
  | togglePlayPause => "togglePlayPause"
  | mute => "mute"
  | unmute => "unmute"
  | toggleMuteUnmute => "toggleMuteUnmute"
  | skipForward => "skipForward"
  | skipBackward => "skipBackward"
  | skipTo => "skipTo"

/-- What a reaction does. -/
inductive ReactionAction
  | back
  | closeOverlay
  | setVariable (variableId : Option JsString)
  | setVariableMode (variableCollectionId variableModeId : Option JsString)
  | conditional
  | updateMediaRuntime (mediaAction : MediaRuntimeAction) (destinationId : Option JsString)
      (amountToSkip newTimestamp : Option ℚ)
  | openLink (uri : JsString)
  | toNode (type : NodeAction) (destinationId : Option JsString)

/-- An action, as it is sent. -/
def ReactionAction.toJs : ReactionAction → JsValue
  | back => .object (member "type" (word "back"))
  | closeOverlay => .object (member "type" (word "closeOverlay"))
  | setVariable variableId =>
    .object (member "type" (word "setVariable") ++ optional "variableId" (variableId.map .string))
  | setVariableMode variableCollectionId variableModeId =>
    .object (member "type" (word "setVariableMode") ++
      optional "variableCollectionId" (variableCollectionId.map .string) ++
      optional "variableModeId" (variableModeId.map .string))
  | conditional => .object (member "type" (word "conditional"))
  | updateMediaRuntime mediaAction destinationId amountToSkip newTimestamp =>
    .object (member "type" (word "updateMediaRuntime") ++
      member "mediaAction" (word mediaAction.word) ++
      optional "destinationId" (destinationId.map .string) ++
      optional "amountToSkip" (amountToSkip.map .rational) ++
      optional "newTimestamp" (newTimestamp.map .rational))
  | openLink uri => .object (member "type" (word "openLink") ++ member "uri" (.string uri))
  | toNode type destinationId =>
    .object (member "type" (word type.word) ++ optional "destinationId" (destinationId.map .string))

/-- Where an overlay opens. -/
inductive OverlayPositionType
  | center | topLeft | topCenter | topRight | bottomLeft | bottomCenter | bottomRight | manual
deriving DecidableEq

/-- The word of a position. -/
def OverlayPositionType.word : OverlayPositionType → String
  | center => "center"
  | topLeft => "topLeft"
  | topCenter => "topCenter"
  | topRight => "topRight"
  | bottomLeft => "bottomLeft"
  | bottomCenter => "bottomCenter"
  | bottomRight => "bottomRight"
  | manual => "manual"

/-- What is behind an overlay. -/
inductive OverlayBackground
  | none
  | solidColor (color : Color)

/-- A background, as it is sent. -/
def OverlayBackground.toJs : OverlayBackground → JsValue
  | none => .object (member "type" (word "none"))
  | solidColor color => .object (member "type" (word "solidColor") ++ member "color" color.toJs)

/-- What a click outside an overlay does. -/
inductive OverlayBackgroundInteraction
  | none | closeOnClickOutside
deriving DecidableEq

/-- The word of an interaction. -/
def OverlayBackgroundInteraction.word : OverlayBackgroundInteraction → String
  | none => "none"
  | closeOnClickOutside => "closeOnClickOutside"

/-- How an overlay opens. -/
structure ReactionOverlay where
  relativePosition : Option (ℚ × ℚ)
  positionType : Option OverlayPositionType
  background : Option OverlayBackground
  backgroundInteraction : Option OverlayBackgroundInteraction

/-- An overlay, as it is sent. -/
def ReactionOverlay.toJs (o : ReactionOverlay) : JsValue :=
  .object (optional "relativePosition" (o.relativePosition.map fun p =>
      .object (member "x" (.rational p.1) ++ member "y" (.rational p.2))) ++
    optional "positionType" (o.positionType.map fun t => .string (text t.word)) ++
    optional "background" (o.background.map OverlayBackground.toJs) ++
    optional "backgroundInteraction" (o.backgroundInteraction.map fun i => .string (text i.word)))

/-- A trigger with its action. -/
structure Reaction where
  trigger : ReactionTrigger
  action : ReactionAction
  destinationAccessible : Bool
  timeout : Option ℚ
  delay : Option ℚ
  keyCodes : Option (List ℚ)
  device : Option JsString
  mediaHitTime : Option ℚ
  transitionId : Option JsString
  transitionDuration : Option ℚ
  overlay : Option ReactionOverlay

/-- A reaction, as it is sent. -/
def Reaction.toJs (r : Reaction) : JsValue :=
  .object (member "trigger" (word r.trigger.word) ++ member "action" r.action.toJs ++
    member "destinationAccessible" (.bool r.destinationAccessible) ++
    optional "timeout" (r.timeout.map .rational) ++ optional "delay" (r.delay.map .rational) ++
    optional "keyCodes" (r.keyCodes.map fun codes => .array (codes.map .rational)) ++
    optional "device" (r.device.map .string) ++
    optional "mediaHitTime" (r.mediaHitTime.map .rational) ++
    optional "transitionId" (r.transitionId.map .string) ++
    optional "transitionDuration" (r.transitionDuration.map .rational) ++
    optional "overlay" (r.overlay.map ReactionOverlay.toJs))

/-- The reactions of a node. -/
structure NodeReactions where
  nodeId : JsString
  reactions : List Reaction

/-- The reactions of a node, as they are sent. -/
def NodeReactions.toJs (r : NodeReactions) : JsValue :=
  .object (member "nodeId" (.string r.nodeId) ++
    member "reactions" (.array (r.reactions.map Reaction.toJs)))

/-! ## Words of the host -/

/-- A trigger by the host's word. -/
def triggerOf (raw : JsValue) : Option ReactionTrigger :=
  tableLookup
    [("ON_CLICK", .click), ("ON_DRAG", .drag), ("ON_HOVER", .hover), ("ON_PRESS", .press),
      ("ON_KEY_DOWN", .keyDown), ("AFTER_TIMEOUT", .afterDelay), ("MOUSE_ENTER", .mouseEnter),
      ("MOUSE_LEAVE", .mouseLeave), ("MOUSE_UP", .mouseUp), ("MOUSE_DOWN", .mouseDown),
      ("ON_MEDIA_HIT", .mediaHit), ("ON_MEDIA_END", .mediaEnd)]
    (string ((record raw).field "type"))

/-- An action on a node by the host's word. -/
def nodeAction (navigation : JsValue) : Option NodeAction :=
  tableLookup
    [("NAVIGATE", .navigate), ("OVERLAY", .openOverlay), ("SWAP", .swapOverlay),
      ("CHANGE_TO", .changeTo), ("SCROLL_TO", .scrollTo)] (string navigation)

/-- An action on a video by the host's word. -/
def mediaActionOf (raw : JsValue) : Option MediaRuntimeAction :=
  tableLookup
    [("PLAY", .play), ("PAUSE", .pause), ("TOGGLE_PLAY_PAUSE", .togglePlayPause), ("MUTE", .mute),
      ("UNMUTE", .unmute), ("TOGGLE_MUTE_UNMUTE", .toggleMuteUnmute),
      ("SKIP_FORWARD", .skipForward), ("SKIP_BACKWARD", .skipBackward), ("SKIP_TO", .skipTo)]
    (string raw)

/-- A position by the host's word. -/
def overlayPositionType (raw : JsValue) : Option OverlayPositionType :=
  tableLookup
    [("CENTER", .center), ("TOP_LEFT", .topLeft), ("TOP_CENTER", .topCenter),
      ("TOP_RIGHT", .topRight), ("BOTTOM_LEFT", .bottomLeft), ("BOTTOM_CENTER", .bottomCenter),
      ("BOTTOM_RIGHT", .bottomRight), ("MANUAL", .manual)] (string raw)

/-- An interaction by the host's word. -/
def overlayBackgroundInteraction (raw : JsValue) : Option OverlayBackgroundInteraction :=
  tableLookup [("NONE", .none), ("CLOSE_ON_CLICK_OUTSIDE", .closeOnClickOutside)] (string raw)

/-! ## One reaction -/

/-- A string that is not empty. -/
def nonEmpty (value : JsValue) : Option JsString :=
  if string value = [] then none else some (string value)

/-- An action that is understood. -/
def actionOf (raw : JsValue) : Option ReactionAction :=
  let action := record raw
  if isWord (action.field "type") "BACK" then some .back
  else if isWord (action.field "type") "CLOSE" then some .closeOverlay
  else if isWord (action.field "type") "SET_VARIABLE" then
    some (.setVariable (nonEmpty (action.field "variableId")))
  else if isWord (action.field "type") "SET_VARIABLE_MODE" then
    some (.setVariableMode (nonEmpty (action.field "variableCollectionId"))
      (nonEmpty (action.field "variableModeId")))
  else if isWord (action.field "type") "CONDITIONAL" then some .conditional
  else if isWord (action.field "type") "UPDATE_MEDIA_RUNTIME" then
    (mediaActionOf (action.field "mediaAction")).map fun mediaAction =>
      .updateMediaRuntime mediaAction (nonEmpty (action.field "destinationId"))
        (optionalFinite (action.field "amountToSkip"))
        (optionalFinite (action.field "newTimestamp"))
  else if isWord (action.field "type") "URL" then
    (nonEmpty (action.field "url")).map .openLink
  else if isWord (action.field "type") "NODE" then
    (nodeAction (action.field "navigation")).map fun type =>
      .toNode type (nonEmpty (action.field "destinationId"))
  else none

/-- A background that is understood. -/
def overlayBackground (raw : JsValue) : Option OverlayBackground :=
  let value := record raw
  if isWord (value.field "type") "NONE" then some .none
  else if isWord (value.field "type") "SOLID_COLOR" then do
    let color := record (value.field "color")
    let r ← optionalFinite (color.field "r")
    let g ← optionalFinite (color.field "g")
    let b ← optionalFinite (color.field "b")
    let a ← optionalFinite (color.field "a")
    return .solidColor ⟨r, g, b, a⟩
  else none

/-- A position with both its numbers. -/
def relativePosition (raw : JsValue) : Option (ℚ × ℚ) := do
  let x ← optionalFinite ((record raw).field "x")
  let y ← optionalFinite ((record raw).field "y")
  return (x, y)

/-- The action opens an overlay. -/
def ReactionAction.isOverlay : ReactionAction → Bool
  | toNode .openOverlay _ | toNode .swapOverlay _ => true
  | _ => false

/-- The settings of an overlay: its place is the action's, the others are those of the node that is
shown, whose properties `destination` reads. -/
def overlaySettings (action : ReactionAction) (actionRaw : JsValue) (destination : String → JsValue) :
    Option ReactionOverlay :=
  let overlay : ReactionOverlay :=
    { relativePosition := relativePosition ((record actionRaw).field "overlayRelativePosition")
      positionType :=
        if action.isOverlay then overlayPositionType (destination "overlayPositionType") else none
      background :=
        if action.isOverlay then overlayBackground (destination "overlayBackground") else none
      backgroundInteraction :=
        if action.isOverlay then
          overlayBackgroundInteraction (destination "overlayBackgroundInteraction")
        else none }
  if overlay.relativePosition.isNone && overlay.positionType.isNone && overlay.background.isNone &&
      overlay.backgroundInteraction.isNone then none
  else some overlay

/-- The actions of a reaction, of which it may have one or several. -/
def reactionActions (raw : JsValue) : List JsValue :=
  match (record raw).field "actions" with
  | .array items => items
  | _ =>
    match (record raw).field "action" with
    | .undefined => []
    | action => [action]

/-- A trigger of the mouse, which may have a delay. -/
def ReactionTrigger.isMouse : ReactionTrigger → Bool
  | mouseEnter | mouseLeave | mouseUp | mouseDown => true
  | _ => false

/-- The codes of the keys, where they are a list. -/
def keyCodes (raw : JsValue) : Option (List ℚ) :=
  match raw with
  | .array codes => some (codes.filterMap optionalFinite)
  | _ => none

namespace Figma

variable {ρ : Type} [DecidableEq ρ] (figma : Figma ρ)

/-- A lookup that rejects fails the read. -/
def lookupDestination (id : JsString) : Except ReadError (Option ρ) :=
  match figma.getNodeByIdAsync with
  | none => .ok none
  | some getNodeByIdAsync =>
    match getNodeByIdAsync id with
    | .found node => .ok (some node)
    | .absent => .ok none
    | .failed => .error .other

/-- The node that an action leads to, and whether it can be read. -/
def destinationAccessible : ReactionAction → Except ReadError (Bool × Option ρ)
  | .closeOverlay | .back | .openLink _ => .ok (true, none)
  | .setVariable _ | .setVariableMode _ _ | .conditional => .ok (false, none)
  | .updateMediaRuntime _ destinationId _ _ | .toNode _ destinationId =>
    match destinationId with
    | none => .ok (false, none)
    | some id => do
      let node ← figma.lookupDestination id
      return (node.isSome, node)

/-- The reaction of one action, none for an action that is not known. -/
def serializeReaction (trigger : ReactionTrigger) (triggerRaw candidate : JsValue) :
    Except ReadError (Option Reaction) := do
  match actionOf candidate with
  | none => return none
  | some action =>
    let (accessible, node) ← figma.destinationAccessible action
    let transition := record ((record candidate).field "transition")
    return some {
      trigger
      action
      destinationAccessible := accessible
      timeout := if trigger = .afterDelay then optionalFinite (triggerRaw.field "timeout") else none
      delay := if trigger.isMouse then optionalFinite (triggerRaw.field "delay") else none
      keyCodes := if trigger = .keyDown then keyCodes (triggerRaw.field "keyCodes") else none
      device := if trigger = .keyDown then nonEmpty (triggerRaw.field "device") else none
      mediaHitTime :=
        if trigger = .mediaHit then
          optionalFinite (triggerRaw.field "mediaHitTime") <|>
            optionalFinite (triggerRaw.field "timestamp")
        else none
      transitionId := nonEmpty (transition.field "type")
      transitionDuration := optionalFinite (transition.field "duration")
      overlay := overlaySettings action candidate fun key =>
        match node with
        | some node => figma.get node key
        | none => .undefined }

/-- The reactions that are understood. -/
def serializeReactions (raw : JsValue) : Except ReadError (List Reaction) := do
  let rows ← (array raw).mapM fun item =>
    match triggerOf ((record item).field "trigger") with
    | none => return []
    | some trigger =>
      (reactionActions item).mapM
        (figma.serializeReaction trigger (record ((record item).field "trigger")))
  return rows.flatten.reduceOption

/-- The record of a node with an id. A node without the field has no reactions. -/
def serializeReactionsOf (node : ρ) : Except ReadError (Option NodeReactions) := do
  if figma.id node = [] then return none
  else return some { nodeId := figma.id node, reactions := ← figma.serializeReactions (figma.get node "reactions") }

end Figma

/-- The node has reactions. -/
def NodeReactions.hasContent (value : NodeReactions) : Bool := !value.reactions.isEmpty

/-- A record that has content. -/
def withContent {β : Type} (hasContent : β → Bool) (value : Option β) : Option β :=
  value.filter hasContent

namespace Figma

variable {ρ : Type} [DecidableEq ρ] (figma : Figma ρ)

/-- The record of a node that has one. -/
def reactionsRecord (node : ρ) : Except ReadError (Option NodeReactions) :=
  (figma.serializeReactionsOf node).map (withContent NodeReactions.hasContent)

/-- The reactions below the roots. -/
def getReactions (selector : Option Selector) (limits : SerializerLimits) :
    Except ReadError (Inspection (ItemResult NodeReactions)) :=
  (readItems limits (fun value => byteLength value.toJs) figma.reactionsRecord figma selector).map
    Inspection.successes

end Figma

end FigmaDevMcp

import FigmaDevMcp.Lib.Async
import FigmaDevMcp.Read.Completeness
import FigmaDevMcp.Read.Navigation
import FigmaDevMcp.Ui.Svg

set_option autoImplicit false

/-!
# Batches of nodes

`readNodes` of `navigation.ts` and `getScreenshot` of `render.ts` while the document changes, hosts
throw and signals are aborted, without progress reports and times of observation.

* `Live`: a document that changes whenever the plugin waits;
* `Live.readNodes`, `Live.getScreenshot`: the reads, from the source;
* `NodeOutcome`, `AssetOutcome`: what one id can come to, by itself;
* `batches_correspond`: **the items of a batch are those of its ids**, one to one and in order.
-/

namespace FigmaDevMcp

/-- What code of the plugin throws. -/
inductive Thrown
  | read (code : ErrorCode) (retryable : Bool)
  | cancelled
  | other

/-- What `exportAsync` is asked for. -/
inductive ExportSettings
  | svg (svgOutlineText svgIdAttribute svgSimplifyStroke : Bool)
  | raster (format : ScreenshotFormat) (scale : ℚ)

/-- What `exportAsync` resolves to. -/
inductive Exported
  | text (source : JsString)
  | bytes (data : List ℕ)
  | other

/-- An image that was taken. -/
inductive ScreenshotAsset
  | svg (nodeId source : JsString) (safe : Bool) (rejection : Option SvgRejection)
  | raster (format : ScreenshotFormat) (nodeId dataBase64 : JsString) (width height : ℕ)

/-- The node that an image was taken of. -/
def ScreenshotAsset.nodeId : ScreenshotAsset → JsString
  | svg nodeId _ _ _ | raster _ nodeId _ _ _ => nodeId

/-- A raster image that the UI thread has encoded. -/
structure RasterEncodeSuccess where
  dataBase64 : JsString
  width : ℕ
  height : ℕ

/-- A document that the UI thread has encoded and looked through. -/
structure SvgEncodeSuccess where
  source : JsString
  safe : Bool
  rejection : Option SvgRejection

/-- What the UI thread does for a screenshot. -/
structure ScreenshotCodec (ω : Type) where
  encodeRaster : ScreenshotFormat → List ℕ → Async ω Thrown (Except ErrorCode RasterEncodeSuccess)
  encodeSvg : JsString → Async ω Thrown (Except ErrorCode SvgEncodeSuccess)

/-- The images of a read, and its errors. -/
structure GetScreenshotResult where
  assets : List (ItemResult ScreenshotAsset)
  truncated : Bool

/-- A document, as it stands in each world, and what else the reads meet there. -/
structure Live (ω ρ : Type) where
  figma : ω → Figma ρ
  /-- What happens while the plugin waits. -/
  wait : ω → ω
  aborted : ω → Bool
  /-- What reading the properties of a node throws, if it throws. -/
  reads : ω → ρ → Option Thrown
  /-- What the pre-passes of a forest find, or throw. -/
  names : ω → List ρ → Except Thrown Names
  exportAsync : ω → ρ → Option (ExportSettings → Except Thrown Exported)

/-- The error of an item. -/
def itemError {α : Type} (code : ErrorCode) : ItemResult α := .error (nodeError code)

/-- A `PluginReadError` and a `LocalCancellationError` end the batch, anything else is an error of
its item. -/
def Thrown.captured {α : Type} : Thrown → Option (ItemResult α)
  | .read _ _ | .cancelled => none
  | .other => some (itemError .internalError)

namespace Live

open Async

variable {ω ρ : Type} [DecidableEq ρ] (live : Live ω ρ)

/-- Time in which the world may change. -/
def pause : Async ω Thrown Unit := fun w => (.ok (), live.wait w)

/-- The read stops here once it is aborted. -/
def throwIfAborted : Async ω Thrown Unit :=
  look fun w => if live.aborted w then .error .cancelled else .ok ()

/-- A look at a node whose properties may throw. -/
def inspect {α : Type} (node : ρ) (f : Figma ρ → α) : Async ω Thrown α :=
  look fun w =>
    match live.reads w node with
    | some thrown => .error thrown
    | none => .ok (f (live.figma w))

/-- A call of `getNodeByIdAsync`, which may be missing. -/
def callLookup (id : JsString) : Async ω Thrown (Lookup ρ) := do
  let answer ← look fun w =>
    match (live.figma w).getNodeByIdAsync with
    | some getNodeByIdAsync => .ok (getNodeByIdAsync id)
    | none => .error (.read .capabilityUnavailable false)
  live.pause
  return answer

/-- `lookupNode` of `navigation.ts`. -/
def lookupNode (id : JsString) : Async ω Thrown (Option ρ) := do
  match ← live.callLookup id with
  | .found node => return some node
  | .absent | .failed => return none

/-- A node that is a page is loaded. -/
def loadPageIfNeeded (node : ρ) : Async ω Thrown ρ := do
  if ← live.inspect node (·.isType node "PAGE") then
    live.pause
    look fun w => if (live.figma w).loadAsync node then .ok node else .error .other
  else return node

/-- The pages of roots that are documents are loaded. -/
def loadDocumentPages (roots : List ρ) : Async ω Thrown Unit :=
  roots.forM fun root => do
    live.throwIfAborted
    if ← live.inspect root (·.isType root "DOCUMENT") then
      let children ← live.inspect root (·.children root)
      children.forM fun child => do
        live.throwIfAborted
        let _ ← live.loadPageIfNeeded child
    else return ()

/-- The names that the pre-passes find, unless the detail needs none. -/
def prepareNames (detail : DetailLevel) (roots : List ρ) : Async ω Thrown Names := do
  if detail = .minimal then return {}
  else
    live.pause
    look fun w => live.names w roots

/-- The forest of a root, after its pages and its names. -/
def serializePreparedForest (root : ρ) (detail : DetailLevel) (depth : ℕ) :
    Async ω Thrown SerializedNodeForest := do
  live.loadDocumentPages [root]
  let names ← live.prepareNames detail [root]
  live.throwIfAborted
  live.inspect root fun figma =>
    figma.serializeNodeForest
      { detail, depth, dedupeComponents := false, names := names.forDetail detail } [root]

/-! ## Nodes -/

/-- An item of `readNodes`, with the truncation of a value that has one. -/
abbrev NodeAnswer : Type := ItemResult DesignNode × Option Truncation

variable (detail : DetailLevel) (depth : ℕ)

/-- A node that was found is read, if it renders. -/
def readFound (node : ρ) : Async ω Thrown NodeAnswer := do
  match ← look fun w => .ok ((live.figma w).visibilityOf node) with
  | .hidden => return (itemError .nodeNotVisible, none)
  | .undetermined => return (itemError .limitExceeded, none)
  | .renders =>
    let loaded ← live.loadPageIfNeeded node
    let serialized ← live.serializePreparedForest loaded detail depth
    match serialized.nodes with
    | [] => return (itemError .internalError, none)
    | value :: _ => return (.success value, serialized.truncation)

/-- The answer to one id. -/
def readNode (id : JsString) : Async ω Thrown NodeAnswer := do
  match ← live.lookupNode id with
  | none => return (itemError .nodeNotFound, none)
  | some node => live.readFound detail depth node

/-- One turn of the loop, where `available` says whether there is a lookup. -/
def nextNode (available : Bool) (id : JsString) : Async ω Thrown NodeAnswer := do
  live.throwIfAborted
  if available then
    recover (live.readNode detail depth id) fun thrown => thrown.captured.map (·, none)
  else return (itemError .capabilityUnavailable, none)

/-- The answers to all ids, one after another. -/
def readNodes (input : GetNodesInput) : Async ω Thrown GetNodesResult := do
  let detail := defaultDetail input.detail
  let depth := defaultDepth input.depth
  let available ← look fun w => .ok (live.figma w).getNodeByIdAsync.isSome
  let answers ← forEach (live.nextNode detail depth available) input.nodeIds []
  return {
    detail
    items := answers.map Prod.fst
    truncated := answers.any fun answer => answer.2.isSome
    truncation := answers.findSome? Prod.snd }

/-! ## Screenshots -/

end Live

/-- What a screenshot is taken of. -/
def GetScreenshotInput.selector : GetScreenshotInput → Selector
  | .raster _ _ selector _ | .svg _ selector _ _ _ => selector

/-- The settings that an input asks for. A scale is between a quarter and four. -/
def exportSettings : GetScreenshotInput → Except Thrown ExportSettings
  | .svg _ _ svgOutlineText svgIdAttribute svgSimplifyStroke =>
    .ok (.svg svgOutlineText svgIdAttribute svgSimplifyStroke)
  | .raster format _ _ scale =>
    let scale := scale.getD 1
    if scale < 1 / 4 ∨ 4 < scale then .error (.read .limitExceeded false)
    else .ok (.raster format scale)

section

variable {ω : Type}

/-- An exported node is encoded by the UI thread. -/
def encodeAsset (codec : ScreenshotCodec ω) (input : GetScreenshotInput) (nodeId : JsString)
    (exported : Exported) : Async ω Thrown (ItemResult ScreenshotAsset) :=
  match input, exported with
  | .svg _ _ _ _ _, .text source => do
    match ← codec.encodeSvg source with
    | .error code => return itemError code
    | .ok encoded => return .success (.svg nodeId encoded.source encoded.safe encoded.rejection)
  | .raster format _ _ _, .bytes data => do
    match ← codec.encodeRaster format data with
    | .error code => return itemError code
    | .ok encoded =>
      return .success (.raster format nodeId encoded.dataBase64 encoded.width encoded.height)
  | _, _ => return itemError .internalError

end

namespace Live

open Async

variable {ω ρ : Type} [DecidableEq ρ] (live : Live ω ρ)

/-- No input has one of the selectors of pages. -/
def captureNodeIds (w : ω) : Selector → List JsString
  | .selection => (live.figma w).selection
  | .nodeId id => [id]
  | .nodeIds ids => ids
  | .pageId _ | .pageIds _ => []

/-- The node has nothing to export. -/
def rendersNothing (figma : Figma ρ) (node : ρ) : Bool :=
  match figma.get node "absoluteRenderBounds" with
  | .null => true
  | _ => false

variable (codec : ScreenshotCodec ω) (input : GetScreenshotInput) (settings : ExportSettings)

/-- The part of a turn that is within `try`. -/
def exportNode (id : JsString) (exporter : ExportSettings → Except Thrown Exported) :
    Async ω Thrown (ItemResult ScreenshotAsset) := do
  let exported ← look fun _ => exporter settings
  live.pause
  let asset ← encodeAsset codec input id exported
  live.throwIfAborted
  return asset

/-- The image of one node. -/
def shootNode (id : JsString) (node : ρ) : Async ω Thrown (ItemResult ScreenshotAsset) := do
  let node ← live.loadPageIfNeeded node
  let found ← look fun w =>
    match live.reads w node with
    | some thrown => .error thrown
    | none => .ok (live.exportAsync w node)
  match found with
  | none => return itemError .unsupportedNode
  | some exporter =>
    match ← look fun w => .ok ((live.figma w).visibilityOf node) with
    | .hidden => return itemError .nodeNotVisible
    | .undetermined => return itemError .limitExceeded
    | .renders =>
      if ← look fun w => .ok (rendersNothing (live.figma w) node) then
        return itemError .emptyNodeBounds
      else recover (live.exportNode codec input settings id exporter) Thrown.captured

/-- One turn of the loop. -/
def nextAsset (id : JsString) : Async ω Thrown (ItemResult ScreenshotAsset) := do
  live.throwIfAborted
  if ← look fun w => .ok (live.figma w).getNodeByIdAsync.isSome then
    match ← live.callLookup id with
    | .failed | .absent => return itemError .nodeNotFound
    | .found node => live.shootNode codec input settings id node
  else return itemError .capabilityUnavailable

/-- The images of all nodes, one after another. -/
def getScreenshot : Async ω Thrown GetScreenshotResult := do
  let ids ← look fun w => .ok (live.captureNodeIds w input.selector)
  let settings ← look fun _ => exportSettings input
  let available ← look fun w => .ok (live.figma w).getNodeByIdAsync.isSome
  if ids ≠ [] ∧ available = false then throw (.read .capabilityUnavailable false)
  else
    let assets ← forEach (live.nextAsset codec input settings) ids []
    return { assets, truncated := false }

/-! ## What one id comes to -/

/-- A lookup finds the node under the id. -/
def Finds (id : JsString) (node : ρ) : Prop :=
  ∃ w getNodeByIdAsync, (live.figma w).getNodeByIdAsync = some getNodeByIdAsync ∧
    getNodeByIdAsync id = .found node

/-- A lookup does not find a node under the id. -/
def Misses (id : JsString) : Prop :=
  ∃ w getNodeByIdAsync, (live.figma w).getNodeByIdAsync = some getNodeByIdAsync ∧
    ∀ node, getNodeByIdAsync id ≠ .found node

/-- What an item of `readNodes` can be for an id: the record of its node, or what is wrong with it. -/
inductive NodeOutcome (detail : DetailLevel) (depth : ℕ) (id : JsString) : ItemResult DesignNode → Prop
  | unavailable (w : ω) (h : (live.figma w).getNodeByIdAsync = none) :
      NodeOutcome detail depth id (itemError .capabilityUnavailable)
  | notFound (h : live.Misses id) : NodeOutcome detail depth id (itemError .nodeNotFound)
  | hidden (node : ρ) (hnode : live.Finds id node) (w : ω)
      (h : (live.figma w).visibilityOf node = .hidden) :
      NodeOutcome detail depth id (itemError .nodeNotVisible)
  | undetermined (node : ρ) (hnode : live.Finds id node) (w : ω)
      (h : (live.figma w).visibilityOf node = .undetermined) :
      NodeOutcome detail depth id (itemError .limitExceeded)
  | serialized (node : ρ) (hnode : live.Finds id node) (w w' : ω)
      (hrenders : (live.figma w).visibilityOf node = .renders) (names : Names) (value : DesignNode)
      (hvalue : ((live.figma w').serializeNodeForest
        { detail, depth, dedupeComponents := false, names } [node]).nodes.head? = some value) :
      NodeOutcome detail depth id (.success value)
  | empty (node : ρ) (hnode : live.Finds id node) (w : ω) (names : Names)
      (h : ((live.figma w).serializeNodeForest
        { detail, depth, dedupeComponents := false, names } [node]).nodes = []) :
      NodeOutcome detail depth id (itemError .internalError)
  | threw (w w' : ω) (h : live.readNode detail depth id w = (.error .other, w')) :
      NodeOutcome detail depth id (itemError .internalError)

/-- What an asset of `getScreenshot` can be for an id. -/
inductive AssetOutcome (id : JsString) : ItemResult ScreenshotAsset → Prop
  | unavailable (w : ω) (h : (live.figma w).getNodeByIdAsync = none) :
      AssetOutcome id (itemError .capabilityUnavailable)
  | notFound (h : live.Misses id) : AssetOutcome id (itemError .nodeNotFound)
  | unsupported (node : ρ) (hnode : live.Finds id node) (w : ω) (h : live.exportAsync w node = none) :
      AssetOutcome id (itemError .unsupportedNode)
  | hidden (node : ρ) (hnode : live.Finds id node) (w : ω)
      (h : (live.figma w).visibilityOf node = .hidden) : AssetOutcome id (itemError .nodeNotVisible)
  | undetermined (node : ρ) (hnode : live.Finds id node) (w : ω)
      (h : (live.figma w).visibilityOf node = .undetermined) :
      AssetOutcome id (itemError .limitExceeded)
  | noBounds (node : ρ) (hnode : live.Finds id node) (w : ω)
      (h : rendersNothing (live.figma w) node = true) : AssetOutcome id (itemError .emptyNodeBounds)
  | encoded (node : ρ) (hnode : live.Finds id node) (w w₁ w₂ : ω)
      (exporter : ExportSettings → Except Thrown Exported)
      (hexporter : live.exportAsync w node = some exporter) (exported : Exported)
      (hexported : exporter settings = .ok exported) (asset : ItemResult ScreenshotAsset)
      (hasset : encodeAsset codec input id exported w₁ = (.ok asset, w₂)) : AssetOutcome id asset
  | threw (node : ρ) (hnode : live.Finds id node) (w w₁ w₂ : ω)
      (exporter : ExportSettings → Except Thrown Exported)
      (hexporter : live.exportAsync w node = some exporter)
      (h : live.exportNode codec input settings id exporter w₁ = (.error .other, w₂)) :
      AssetOutcome id (itemError .internalError)

/-- Lookups find nodes under their own ids, which they keep. -/
def FindsById : Prop :=
  ∀ id node, live.Finds id node → ∀ w, (live.figma w).id node = id

variable {live detail depth}

theorem NodeOutcome.names {id : JsString} {value : DesignNode}
    (h : live.NodeOutcome detail depth id (.success value)) (hids : live.FindsById) :
    value.summary.id = id := by
  generalize hitem : ItemResult.success value = item at h
  cases h with
  | serialized node hnode w w' _ names found hvalue =>
      obtain rfl := ItemResult.success.inj hitem
      have hdepicts := ((live.figma w').serializeNodeForest_complete
        { detail, depth, dedupeComponents := false, names } [node]).1
      obtain ⟨rest, hnodes⟩ := List.head?_eq_some_iff.1 hvalue
      rw [hnodes] at hdepicts
      obtain ⟨summary, data, children, childrenTruncated, childrenTruncation⟩ := value
      exact hdepicts.1.1.id.trans (hids id node hnode w')
  | _ => cases hitem

variable {codec input settings}

theorem encodeAsset_nodeId {id : JsString} {exported : Exported} {asset : ScreenshotAsset} {w w' : ω}
    (h : encodeAsset codec input id exported w = (.ok (.success asset), w')) : asset.nodeId = id := by
  unfold encodeAsset at h
  split at h
  · obtain ⟨answer, _, -, h⟩ := bind_ok.1 h
    cases answer <;> obtain ⟨h, -⟩ := pure_ok.1 h <;> cases h
    rfl
  · obtain ⟨answer, _, -, h⟩ := bind_ok.1 h
    cases answer <;> obtain ⟨h, -⟩ := pure_ok.1 h <;> cases h
    rfl
  · obtain ⟨h, -⟩ := pure_ok.1 h
    cases h

theorem AssetOutcome.names {id : JsString} {asset : ScreenshotAsset}
    (h : live.AssetOutcome codec input settings id (.success asset)) : asset.nodeId = id := by
  generalize hitem : ItemResult.success asset = item at h
  cases h with
  | encoded node _ w w₁ w₂ exporter _ exported _ item hasset =>
      subst hitem
      exact encodeAsset_nodeId hasset
  | _ => cases hitem

end Live

end FigmaDevMcp

import FigmaDevMcp.Shared.Results

set_option autoImplicit false

/-!
# Inputs of the reads

The inputs of the read operations, as `protocol.ts` declares them, and the JavaScript object each
of them is.

* `Selector`, `SearchScope`: where a read looks;
* the inputs;
* `ReadOperation`: an operation with its input.
-/

namespace FigmaDevMcp

open JsValue

/-- The word of a detail. -/
def DetailLevel.word : DetailLevel → String
  | .minimal => "minimal"
  | .compact => "compact"
  | .full => "full"

/-- What a read starts from. -/
inductive Selector
  | selection
  | nodeId (id : JsString)
  | nodeIds (ids : List JsString)
  | pageId (id : JsString)
  | pageIds (ids : List JsString)
deriving DecidableEq

/-- A selector, as it is sent. -/
def Selector.toJs : Selector → JsValue
  | .selection => .object (member "selection" (.bool true))
  | .nodeId id => .object (member "nodeId" (.string id))
  | .nodeIds ids => .object (member "nodeIds" (.array (ids.map .string)))
  | .pageId id => .object (member "pageId" (.string id))
  | .pageIds ids => .object (member "pageIds" (.array (ids.map .string)))

/-- What a search starts from. -/
inductive SearchScope
  | pageId (id : JsString)
  | nodeId (id : JsString)
deriving DecidableEq

/-- The scope as a selector. -/
def SearchScope.selector : SearchScope → Selector
  | .pageId id => .pageId id
  | .nodeId id => .nodeId id

/-- How a text is compared with a query. -/
inductive SearchMatchMode
  | exact
  | contains
deriving DecidableEq

/-- The word of a mode. -/
def SearchMatchMode.word : SearchMatchMode → String
  | .exact => "exact"
  | .contains => "contains"

/-- Which styles are read. -/
inductive StyleSource
  | local
  | referenced
  | both
deriving DecidableEq

/-- The word of a source. -/
def StyleSource.word : StyleSource → String
  | .local => "local"
  | .referenced => "referenced"
  | .both => "both"

/-- The formats of raster images. -/
inductive ScreenshotFormat
  | png
  | jpeg
deriving DecidableEq

/-- The word of a format. -/
def ScreenshotFormat.word : ScreenshotFormat → String
  | .png => "png"
  | .jpeg => "jpeg"

/-! ## The inputs -/

/-- An input that may name a connection. -/
structure FileScopedInput where
  connectionId : Option JsString := none
deriving DecidableEq

/-- An input with a selector. -/
structure ScopedInput where
  connectionId : Option JsString := none
  selector : Option Selector := none
deriving DecidableEq

/-- The input of `get_selection`. -/
structure GetSelectionInput where
  connectionId : Option JsString := none
  detail : Option DetailLevel := none
  depth : Option ℕ := none
deriving DecidableEq

/-- The input of `get_nodes`. -/
structure GetNodesInput where
  connectionId : Option JsString := none
  nodeIds : List JsString
  detail : Option DetailLevel := none
  depth : Option ℕ := none
deriving DecidableEq

/-- The input of `search_nodes`. -/
structure SearchNodesInput where
  connectionId : Option JsString := none
  scope : SearchScope
  query : Option JsString := none
  types : Option (List JsString) := none
  matchMode : SearchMatchMode
  limit : ℕ
  cursor : Option JsString := none
deriving DecidableEq

/-- The input of `get_design_context`. -/
structure GetDesignContextInput where
  connectionId : Option JsString := none
  selector : Option Selector := none
  detail : Option DetailLevel := none
  depth : Option ℕ := none
  dedupeComponents : Bool := false
deriving DecidableEq

/-- The input of `get_styles`. -/
structure GetStylesInput extends ScopedInput where
  source : StyleSource
deriving DecidableEq

/-- The input of `get_variables`. -/
structure GetVariablesInput extends ScopedInput where
  resolveAliases : Bool
deriving DecidableEq

/-- The input of `get_motion`. -/
structure GetMotionInput extends ScopedInput where
  includeAvailableStyles : Bool
deriving DecidableEq

/-- The input of `get_screenshot`. -/
inductive GetScreenshotInput
  | raster (format : ScreenshotFormat) (connectionId : Option JsString) (selector : Selector)
      (scale : Option ℚ)
  | svg (connectionId : Option JsString) (selector : Selector)
      (svgOutlineText svgIdAttribute svgSimplifyStroke : Bool)
deriving DecidableEq

/-- The thirteen operations with their inputs. -/
inductive ReadOperation
  | getMetadata (input : FileScopedInput)
  | getSelection (input : GetSelectionInput)
  | getNodes (input : GetNodesInput)
  | searchNodes (input : SearchNodesInput)
  | getDesignContext (input : GetDesignContextInput)
  | getStyles (input : GetStylesInput)
  | getVariables (input : GetVariablesInput)
  | getComponents (input : ScopedInput)
  | getFonts (input : ScopedInput)
  | getDevModeData (input : ScopedInput)
  | getReactions (input : ScopedInput)
  | getMotion (input : GetMotionInput)
  | getScreenshot (input : GetScreenshotInput)
deriving DecidableEq

/-! ## Their objects -/

/-- The member of a connection. -/
def fileScope (connectionId : Option JsString) : List Member :=
  optional "connectionId" (connectionId.map .string)

/-- The members of a detail and a depth. -/
def detailAndDepth (detail : Option DetailLevel) (depth : Option ℕ) : List Member :=
  optional "detail" (detail.map fun level => FigmaDevMcp.word level.word) ++
    optional "depth" (depth.map natural)

/-- An input, as it is sent. -/
def FileScopedInput.toJs (input : FileScopedInput) : JsValue := .object (fileScope input.connectionId)

/-- The members of an input with a selector. -/
def ScopedInput.members (input : ScopedInput) : List Member :=
  fileScope input.connectionId ++ optional "selector" (input.selector.map Selector.toJs)

/-- An input, as it is sent. -/
def ScopedInput.toJs (input : ScopedInput) : JsValue := .object input.members

/-- An input, as it is sent. -/
def GetSelectionInput.toJs (input : GetSelectionInput) : JsValue :=
  .object (fileScope input.connectionId ++ detailAndDepth input.detail input.depth)

/-- An input, as it is sent. -/
def GetNodesInput.toJs (input : GetNodesInput) : JsValue :=
  .object (fileScope input.connectionId ++ member "nodeIds" (.array (input.nodeIds.map .string)) ++
    detailAndDepth input.detail input.depth)

/-- An input, as it is sent. -/
def SearchNodesInput.toJs (input : SearchNodesInput) : JsValue :=
  .object (fileScope input.connectionId ++ member "scope" input.scope.selector.toJs ++
    member "match" (FigmaDevMcp.word input.matchMode.word) ++ member "limit" (natural input.limit) ++
    optional "query" (input.query.map .string) ++
    optional "types" (input.types.map fun types => .array (types.map .string)) ++
    optional "cursor" (input.cursor.map .string))

/-- An input, as it is sent. -/
def GetDesignContextInput.toJs (input : GetDesignContextInput) : JsValue :=
  .object (fileScope input.connectionId ++ member "dedupeComponents" (.bool input.dedupeComponents) ++
    optional "selector" (input.selector.map Selector.toJs) ++ detailAndDepth input.detail input.depth)

/-- An input, as it is sent. -/
def GetStylesInput.toJs (input : GetStylesInput) : JsValue :=
  .object (input.members ++ member "source" (FigmaDevMcp.word input.source.word))

/-- An input, as it is sent. -/
def GetVariablesInput.toJs (input : GetVariablesInput) : JsValue :=
  .object (input.members ++ member "resolveAliases" (.bool input.resolveAliases))

/-- An input, as it is sent. -/
def GetMotionInput.toJs (input : GetMotionInput) : JsValue :=
  .object (input.members ++ member "includeAvailableStyles" (.bool input.includeAvailableStyles))

/-- An input, as it is sent. -/
def GetScreenshotInput.toJs : GetScreenshotInput → JsValue
  | .raster format connectionId selector scale =>
    .object (member "format" (FigmaDevMcp.word format.word) ++ fileScope connectionId ++
      member "selector" selector.toJs ++ optional "scale" (scale.map .rational))
  | .svg connectionId selector svgOutlineText svgIdAttribute svgSimplifyStroke =>
    .object (member "format" (FigmaDevMcp.word "svg") ++ fileScope connectionId ++
      member "selector" selector.toJs ++ member "svgOutlineText" (.bool svgOutlineText) ++
      member "svgIdAttribute" (.bool svgIdAttribute) ++
      member "svgSimplifyStroke" (.bool svgSimplifyStroke))

namespace ReadOperation

/-- The name of an operation. -/
def name : ReadOperation → String
  | .getMetadata _ => "get_metadata"
  | .getSelection _ => "get_selection"
  | .getNodes _ => "get_nodes"
  | .searchNodes _ => "search_nodes"
  | .getDesignContext _ => "get_design_context"
  | .getStyles _ => "get_styles"
  | .getVariables _ => "get_variables"
  | .getComponents _ => "get_components"
  | .getFonts _ => "get_fonts"
  | .getDevModeData _ => "get_dev_mode_data"
  | .getReactions _ => "get_reactions"
  | .getMotion _ => "get_motion"
  | .getScreenshot _ => "get_screenshot"

/-- The input of an operation, as it is sent. -/
def input : ReadOperation → JsValue
  | .getMetadata input => input.toJs
  | .getSelection input => input.toJs
  | .getNodes input => input.toJs
  | .searchNodes input => input.toJs
  | .getDesignContext input => input.toJs
  | .getStyles input => input.toJs
  | .getVariables input => input.toJs
  | .getComponents input | .getFonts input | .getDevModeData input | .getReactions input => input.toJs
  | .getMotion input => input.toJs
  | .getScreenshot input => input.toJs

/-- An operation, as it is sent. -/
def toJs (operation : ReadOperation) : JsValue :=
  .object (member "operation" (FigmaDevMcp.word operation.name) ++ member "input" operation.input)

end ReadOperation

end FigmaDevMcp

import FigmaDevMcp.Protocol.Limits
import FigmaDevMcp.Shared.Messages
import FigmaDevMcp.Shared.Text

set_option autoImplicit false

/-!
# Validation of messages

The parsers of `validation.ts` for what the plugin receives. They throw on a value that is no
message, and otherwise build the message anew.

* `record`, `exact`, `boundedString` and the other checks of one value;
* the inputs of the reads, `parseReadOperation`;
* `parseBrokerToPlugin`, `parseControllerBoundMessage`: the messages.
-/

namespace FigmaDevMcp.Plugin

open JsValue

/-- What a parser gives, or the message that it throws. -/
abbrev Parsed (α : Type) := Except JsString α

variable {α : Type}

/-- The text of every error of a message starts alike. -/
def fail (message : JsString) : Parsed α := .error (text "Invalid plugin protocol: " ++ message)

/-! ## Checks of one value -/

/-- An object. -/
def record (value : JsValue) (label : JsString) : Parsed JsValue :=
  match value with
  | .object members => .ok (.object members)
  | _ => fail (label ++ text " must be an object")

/-- The names of the members. -/
def keys (value : JsValue) : List JsString := value.entries.map Prod.fst

/-- The first name that is not allowed, and the first that is missing. -/
def exactKeys (object : JsValue) (label : JsString) (required optional : List String) :
    Parsed JsValue :=
  match (keys object).find? fun key => decide (key ∉ (required ++ optional).map text) with
  | some key => fail (label ++ text " contains unknown field " ++ key)
  | none =>
    match required.find? fun key => !object.hasOwn (text key) with
    | some key => fail (label ++ text " is missing " ++ text key)
    | none => .ok object

/-- An object with members of these names only, and those that it must have. -/
def exact (value : JsValue) (label : JsString) (required : List String)
    (optional : List String := []) : Parsed JsValue := do
  exactKeys (← record value label) label required optional

/-- A string whose bytes are within a bound. -/
def boundedString (value : JsValue) (label : JsString) (maximumBytes : ℕ)
    (allowEmpty : Bool := false) : Parsed JsString :=
  match value with
  | .string s =>
    if allowEmpty = false ∧ s = [] then fail (label ++ text " must not be blank")
    else if maximumBytes < utf8ByteLength s then
      fail (label ++ text " exceeds " ++ NumberText.decimal maximumBytes ++ text " UTF-8 bytes")
    else .ok s
  | _ => fail (label ++ text " must be a string")

/-- A string that can be an id. -/
def identifier (value : JsValue) (label : JsString) : Parsed JsString :=
  boundedString value label maxIdentifierBytes

/-- A boolean. -/
def boolean (value : JsValue) (label : JsString) : Parsed Bool :=
  match value with
  | .bool b => .ok b
  | _ => fail (label ++ text " must be boolean")

/-- A finite number. -/
def finiteNumber (value : JsValue) (label : JsString) : Parsed ℚ :=
  match value with
  | .number (.finite q) => .ok q
  | _ => fail (label ++ text " must be finite")

/-- `Number.isSafeInteger`, and no sign. -/
def safeInteger (parsed : ℚ) (label : JsString) : Parsed ℕ :=
  if parsed.den = 1 ∧ 0 ≤ parsed.num ∧ parsed.num < 2 ^ 53 then .ok parsed.num.toNat
  else fail (label ++ text " must be a non-negative safe integer")

/-- An integer that is not negative. -/
def unsignedInteger (value : JsValue) (label : JsString) : Parsed ℕ := do
  safeInteger (← finiteNumber value label) label

/-- A member that may be missing. -/
def optionalMember (object : JsValue) (key : String) (parser : JsValue → JsString → Parsed α) :
    Parsed (Option α) :=
  if object.hasOwn (text key) then (parser (object.field key) (text key)).map some else .ok none

/-- A member that is an id, if it is there. -/
def optionalIdentifier (object : JsValue) (key : String) : Parsed (Option JsString) :=
  optionalMember object key identifier

/-- The label of an item. -/
def itemLabel (label : JsString) (index : ℕ) : JsString :=
  label ++ text "[" ++ NumberText.decimal index ++ text "]"

/-- The items of an array from an index on, each with its label. -/
def parseItems (parser : JsValue → JsString → Parsed α) (label : JsString) :
    ℕ → List JsValue → Parsed (List α)
  | _, [] => .ok []
  | index, item :: rest => do
    let parsed ← parser item (itemLabel label index)
    return parsed :: (← parseItems parser label (index + 1) rest)

/-- A list of different ids. -/
def stringList (value : JsValue) (label : JsString) (maximum : ℕ) : Parsed (List JsString) :=
  match value with
  | .array items =>
    if maximum < items.length then
      fail (label ++ text " exceeds " ++ NumberText.decimal maximum ++ text " items")
    else parseItems identifier label 0 items
  | _ => fail (label ++ text " must be an array")

/-- `value === word` -/
def isWord (value : JsValue) (w : String) : Bool :=
  match value with
  | .string s => s = text w
  | _ => false

/-- A detail by its word. -/
def detailLevel (value : JsValue) (_ : JsString) : Parsed DetailLevel :=
  if isWord value "minimal" then .ok .minimal
  else if isWord value "compact" then .ok .compact
  else if isWord value "full" then .ok .full
  else fail (text "detail must be minimal, compact, or full")

/-- A depth within its bound. -/
def depthUpTo (value : JsValue) (label : JsString) : Parsed ℕ := do
  let depth ← unsignedInteger value label
  if maxDepth < depth then fail (text "depth exceeds " ++ NumberText.decimal maxDepth) else .ok depth

/-- The depth, if there is one. -/
def optionalDepth (object : JsValue) : Parsed (Option ℕ) := optionalMember object "depth" depthUpTo

/-! ## Inputs -/

/-- A selector by the member that it has. -/
def parseSelector (value : JsValue) (pageLimit : ℕ := maxPageIds) : Parsed Selector := do
  let object ← record value (text "selector")
  match keys object with
  | [key] =>
    if key = text "selection" then
      match object.field "selection" with
      | .bool true => .ok .selection
      | _ => fail (text "selection must be literal true")
    else if key = text "pageId" then
      return .pageId (← identifier (object.field "pageId") (text "pageId"))
    else if key = text "pageIds" then
      return .pageIds (← stringList (object.field "pageIds") (text "pageIds") pageLimit)
    else if key = text "nodeId" then
      return .nodeId (← identifier (object.field "nodeId") (text "nodeId"))
    else if key = text "nodeIds" then
      return .nodeIds (← stringList (object.field "nodeIds") (text "nodeIds") maxInputIds)
    else fail (text "selector contains an unknown field")
  | _ => fail (text "selector must contain exactly one field")

/-- An object that may name a connection. -/
def parseFileScope (value : JsValue) (label : JsString) (optional : List String := []) :
    Parsed JsValue :=
  exact value label [] ("connectionId" :: optional)

/-- The connection, if there is one. -/
def copyFileScope (object : JsValue) : Parsed (Option JsString) :=
  optionalIdentifier object "connectionId"

/-- The selector, if there is one. -/
def optionalSelector (object : JsValue) : Parsed (Option Selector) :=
  optionalMember object "selector" fun value _ => parseSelector value

/-- An input with a selector. -/
def parseScopedInput (value : JsValue) (label : JsString) : Parsed ScopedInput := do
  let object ← parseFileScope value label ["selector"]
  return { connectionId := ← copyFileScope object, selector := ← optionalSelector object }

/-- The input of `get_selection`. -/
def parseGetSelectionInput (value : JsValue) : Parsed GetSelectionInput := do
  let object ← parseFileScope value (text "get_selection input") ["detail", "depth"]
  return {
    connectionId := ← copyFileScope object
    detail := ← optionalMember object "detail" detailLevel
    depth := ← optionalDepth object }

/-- The input of `get_nodes`. -/
def parseGetNodesInput (value : JsValue) : Parsed GetNodesInput := do
  let object ← exact value (text "get_nodes input") ["nodeIds"] ["connectionId", "detail", "depth"]
  return {
    connectionId := ← copyFileScope object
    nodeIds := ← stringList (object.field "nodeIds") (text "nodeIds") maxInputIds
    detail := ← optionalMember object "detail" detailLevel
    depth := ← optionalDepth object }

/-- A mode by its word. -/
def parseSearchMatchMode (value : JsValue) (label : JsString) : Parsed SearchMatchMode :=
  if isWord value "exact" then .ok .exact
  else if isWord value "contains" then .ok .contains
  else fail (label ++ text " must be exact or contains")

/-- A selector that a search can start from. -/
def searchScope : Selector → Parsed SearchScope
  | .pageId id => .ok (.pageId id)
  | .nodeId id => .ok (.nodeId id)
  | _ => fail (text "search scope must contain exactly one pageId or nodeId")

/-- A limit within its bounds. -/
def searchLimit (limit : ℕ) : Parsed ℕ :=
  if limit < 1 ∨ maxReturnedNodes < limit then
    fail (text "limit must be between 1 and " ++ NumberText.decimal maxReturnedNodes)
  else .ok limit

/-- A query without white space at its ends, which must leave something. -/
def searchQuery (value : JsValue) (label : JsString) : Parsed JsString := do
  let query := trim (← boundedString value label maxQueryBytes true)
  if query = [] then fail (label ++ text " must be non-empty after trimming") else .ok query

/-- The types from an index on, trimmed. -/
def searchTypesFrom (label : JsString) : ℕ → List JsString → Parsed (List JsString)
  | _, [] => .ok []
  | index, type :: rest =>
    if trim type = [] then fail (itemLabel label index ++ text " must be non-empty after trimming")
    else do return trim type :: (← searchTypesFrom label (index + 1) rest)

/-- Types without white space at their ends, which must leave something of each. -/
def searchTypes (value : JsValue) (label : JsString) : Parsed (List JsString) := do
  searchTypesFrom label 0 (← stringList value label maxInputIds)

/-- No types are as good as none given. -/
def someTypes : Option (List JsString) → Option (List JsString)
  | some (type :: types) => some (type :: types)
  | _ => none

/-- A cursor within its bound. It is trimmed only then. -/
def searchCursor (value : JsValue) (label : JsString) : Parsed JsString :=
  (boundedString value label maxSearchCursorBytes).map trim

/-- A search looks for something. -/
def checkSearch (query : Option JsString) (types : Option (List JsString)) : Parsed Unit :=
  if query = none ∧ types = none then fail (text "search must include query or types") else .ok ()

/-- The input of `search_nodes`. -/
def parseSearchNodesInput (value : JsValue) : Parsed SearchNodesInput := do
  let object ← exact value (text "search_nodes input") ["scope", "match", "limit"]
    ["connectionId", "query", "types", "cursor"]
  let scope ← searchScope (← parseSelector (object.field "scope"))
  let connectionId ← copyFileScope object
  let matchMode ← parseSearchMatchMode (object.field "match") (text "match")
  let limit ← searchLimit (← unsignedInteger (object.field "limit") (text "limit"))
  let query ← optionalMember object "query" searchQuery
  let types := someTypes (← optionalMember object "types" searchTypes)
  checkSearch query types
  let cursor ← optionalMember object "cursor" searchCursor
  return { connectionId, scope, query, types, matchMode, limit, cursor }

/-- The input of `get_design_context`. -/
def parseGetDesignContextInput (value : JsValue) : Parsed GetDesignContextInput := do
  let object ← parseFileScope value (text "get_design_context input")
    ["selector", "depth", "detail", "dedupeComponents"]
  return {
    connectionId := ← copyFileScope object
    dedupeComponents := (← optionalMember object "dedupeComponents" boolean).getD false
    selector := ← optionalSelector object
    detail := ← optionalMember object "detail" detailLevel
    depth := ← optionalDepth object }

/-- A source by its word. -/
def parseStyleSource (value : JsValue) (_ : JsString) : Parsed StyleSource :=
  if isWord value "local" then .ok .local
  else if isWord value "referenced" then .ok .referenced
  else if isWord value "both" then .ok .both
  else fail (text "source must be local, referenced, or both")

/-- An object without the members of a name. -/
def without (object : JsValue) (key : String) : JsValue :=
  .object (object.entries.filter fun entry => entry.1 ≠ text key)

/-- A scoped input with one more member, which has a default. -/
def parseScopedWith (value : JsValue) (label : JsString) (key : String)
    (parser : JsValue → JsString → Parsed α) (default : α) : Parsed (ScopedInput × α) := do
  let object ← parseFileScope value label ["selector", key]
  let input ← parseScopedInput (without object key) label
  return (input, (← optionalMember object key parser).getD default)

/-- The input of `get_styles`. -/
def parseGetStylesInput (value : JsValue) : Parsed GetStylesInput :=
  (parseScopedWith value (text "get_styles input") "source" parseStyleSource .both).map
    fun parsed => { parsed.1 with source := parsed.2 }

/-- The input of `get_variables`. -/
def parseGetVariablesInput (value : JsValue) : Parsed GetVariablesInput :=
  (parseScopedWith value (text "get_variables input") "resolveAliases" boolean false).map
    fun parsed => { parsed.1 with resolveAliases := parsed.2 }

/-- The input of `get_motion`. -/
def parseGetMotionInput (value : JsValue) : Parsed GetMotionInput :=
  (parseScopedWith value (text "get_motion input") "includeAvailableStyles" boolean false).map
    fun parsed => { parsed.1 with includeAvailableStyles := parsed.2 }

/-- A selector of nodes. -/
def parseScreenshotSelector (value : JsValue) : Parsed Selector := do
  match ← parseSelector value with
  | .pageId _ | .pageIds _ => fail (text "screenshot selector must be selection, nodeId, or nodeIds")
  | selector => return selector

/-- A scale within its bounds. -/
def screenshotScale (value : JsValue) (label : JsString) : Parsed ℚ := do
  let scale ← finiteNumber value label
  if scale < 1 / 4 ∨ 4 < scale then fail (text "scale must be between 0.25 and 4") else .ok scale

/-- The input of `get_screenshot` for a raster image. -/
def parseRasterInput (object : JsValue) (format : ScreenshotFormat) : Parsed GetScreenshotInput := do
  let raster ← exact object (text "raster screenshot input") ["format", "selector"]
    ["connectionId", "scale"]
  let connectionId ← copyFileScope raster
  let selector ← parseScreenshotSelector (raster.field "selector")
  return .raster format connectionId selector (← optionalMember raster "scale" screenshotScale)

/-- The input of `get_screenshot` for a document. -/
def parseSvgInput (object : JsValue) : Parsed GetScreenshotInput := do
  let svg ← exact object (text "SVG screenshot input") ["format", "selector"]
    ["connectionId", "svgOutlineText", "svgIdAttribute", "svgSimplifyStroke"]
  let connectionId ← copyFileScope svg
  let selector ← parseScreenshotSelector (svg.field "selector")
  let svgOutlineText := (← optionalMember svg "svgOutlineText" boolean).getD true
  let svgIdAttribute := (← optionalMember svg "svgIdAttribute" boolean).getD false
  let svgSimplifyStroke := (← optionalMember svg "svgSimplifyStroke" boolean).getD true
  return .svg connectionId selector svgOutlineText svgIdAttribute svgSimplifyStroke

/-- The input of `get_screenshot`. -/
def parseScreenshotInput (value : JsValue) : Parsed GetScreenshotInput := do
  let object ← record value (text "get_screenshot input")
  let format := object.field "format"
  if isWord format "png" then parseRasterInput object .png
  else if isWord format "jpeg" then parseRasterInput object .jpeg
  else if isWord format "svg" then parseSvgInput object
  else fail (text "screenshot format must be png, jpeg, or svg")

/-- The input of an operation, by the name of the operation. -/
def parseOperationInput (name input : JsValue) : Parsed ReadOperation :=
  if isWord name "get_metadata" then do
    let object ← parseFileScope input (text "get_metadata input")
    return .getMetadata { connectionId := ← copyFileScope object }
  else if isWord name "get_selection" then (parseGetSelectionInput input).map .getSelection
  else if isWord name "get_nodes" then (parseGetNodesInput input).map .getNodes
  else if isWord name "search_nodes" then (parseSearchNodesInput input).map .searchNodes
  else if isWord name "get_design_context" then
    (parseGetDesignContextInput input).map .getDesignContext
  else if isWord name "get_styles" then (parseGetStylesInput input).map .getStyles
  else if isWord name "get_variables" then (parseGetVariablesInput input).map .getVariables
  else if isWord name "get_components" then
    (parseScopedInput input (text "get_components input")).map .getComponents
  else if isWord name "get_fonts" then (parseScopedInput input (text "get_fonts input")).map .getFonts
  else if isWord name "get_dev_mode_data" then
    (parseScopedInput input (text "get_dev_mode_data input")).map .getDevModeData
  else if isWord name "get_reactions" then
    (parseScopedInput input (text "get_reactions input")).map .getReactions
  else if isWord name "get_motion" then (parseGetMotionInput input).map .getMotion
  else if isWord name "get_screenshot" then (parseScreenshotInput input).map .getScreenshot
  else fail (text "unknown or non-read operation")

/-- An operation by its name, with its input. -/
def parseReadOperation (value : JsValue) : Parsed ReadOperation := do
  let object ← exact value (text "read operation") ["operation", "input"]
  parseOperationInput (object.field "operation") (object.field "input")

/-! ## Messages -/

/-- The hexadecimal digits of an identifier, and its hyphens. -/
def uuidUnit (index code : ℕ) : Bool :=
  if index = 8 ∨ index = 13 ∨ index = 18 ∨ index = 23 then code == 0x2d
  else if index = 14 then 0x31 ≤ code && code ≤ 0x38
  else if index = 19 then
    code == 0x38 || code == 0x39 || code == 0x41 || code == 0x42 || code == 0x61 || code == 0x62
  else isHexChar code

/-- `UUID_PATTERN.test` -/
def isUuid (value : JsString) : Bool :=
  value.length = 36 && (List.range 36).all fun index => uuidUnit index (value.getD index 0)

/-- A UUID in small letters. -/
def parseUuid (value : JsValue) : Parsed JsString := do
  let uuid ← boundedString value (text "UUID") 36
  if isUuid uuid then .ok (uuid.map foldCase) else fail (text "malformed UUID")

/-- The file key of a target. -/
def parseTarget (value : JsValue) (label : JsString) : Parsed (Option JsString) := do
  optionalIdentifier (← exact value label [] ["fileKey"]) "fileKey"

/-- The rest of a request. -/
def parseRequest (request : JsValue) (fileKey : Option JsString) : Parsed Request := do
  let requestId ← identifier (request.field "requestId") (text "requestId")
  let deadlineMs ← unsignedInteger (request.field "deadlineMs") (text "deadlineMs")
  return { requestId, deadlineMs, fileKey, operation := ← parseReadOperation (request.field "operation") }

/-- A message of the broker. -/
def parseBrokerToPlugin (value : JsValue) : Parsed BrokerToPlugin := do
  let object ← record value (text "broker message")
  let type := object.field "type"
  if isWord type "request" then
    let request ← exact object (text "request")
      ["type", "requestId", "deadlineMs", "target", "operation"]
    let fileKey ← parseTarget (request.field "target") (text "request target")
    return .request (← parseRequest request fileKey)
  else if isWord type "cancel" then
    let cancel ← exact object (text "cancel") ["type", "requestId"]
    return .cancel (← identifier (cancel.field "requestId") (text "requestId"))
  else if isWord type "ping" then
    let ping ← exact object (text "ping") ["type", "nonce"]
    return .ping (← unsignedInteger (ping.field "nonce") (text "nonce"))
  else fail (text "unknown broker message tag")

/-- A message of the UI thread. -/
def parseControllerBoundMessage (value : JsValue) : Parsed ControllerBoundMessage := do
  let object ← record value (text "controller-bound message")
  let type := object.field "type"
  if isWord type "request" then
    let request ← exact object (text "controller request")
      ["type", "controllerRequestId", "requestId", "deadlineMs", "target", "operation"]
    let fileKey ← parseTarget (request.field "target") (text "controller request target")
    let controllerRequestId ← parseUuid (request.field "controllerRequestId")
    return .request controllerRequestId (← parseRequest request fileKey)
  else if isWord type "cancel" then
    let cancel ← exact object (text "controller cancel") ["type", "controllerRequestId", "requestId"]
    let controllerRequestId ← parseUuid (cancel.field "controllerRequestId")
    return .cancel controllerRequestId (← identifier (cancel.field "requestId") (text "requestId"))
  else fail (text "unknown controller-bound message tag")

end FigmaDevMcp.Plugin

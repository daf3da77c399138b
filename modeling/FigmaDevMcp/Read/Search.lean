import FigmaDevMcp.Lib.Base64Url
import FigmaDevMcp.Lib.JsonText
import FigmaDevMcp.Lib.PreorderWalk
import FigmaDevMcp.Read.Figma
import FigmaDevMcp.Read.Serialize
import FigmaDevMcp.Shared.Input

set_option autoImplicit false

/-!
# Searching for nodes

`searchNodes` of `search.ts`, without the time of observation. A getter that throws fails a
search; the documents here have none.

* `compilePredicate`, `matchReasons`: what is searched for;
* `searchKey`, `cursorFor`, `parseCursor`: the cursor of a page;
* `initialStack`, `pushChildren`, `searchFrom`: the walk over the visible nodes, last pushed
  first;
* `searchNodes`: one page.
-/

namespace FigmaDevMcp

open JsValue

/-- Why a node was found. -/
inductive MatchReason
  | name | nodeType | text
deriving DecidableEq

/-- The word of a reason. -/
def MatchReason.word : MatchReason → String
  | .name => "name"
  | .nodeType => "nodeType"
  | .text => "text"

/-- What a search looks for, with its strings trimmed. -/
structure SearchPredicate where
  query : Option JsString := none
  types : Option (List JsString) := none
  matchMode : SearchMatchMode
deriving DecidableEq

/-- A node that was found. -/
structure NodeMatch where
  node : NodeSummary
  reasons : List MatchReason

/-- A node that was found, as it is sent. -/
def NodeMatch.toJs (m : NodeMatch) : JsValue :=
  .object (member "node" m.node.toJs ++
    member "reasons" (.array (m.reasons.map fun reason => .string (FigmaDevMcp.text reason.word))))

/-- A page of a search. -/
structure SearchNodesResult where
  found : List NodeMatch
  truncated : Bool
  truncation : Option Truncation
  nextCursor : Option JsString

/-! ## The predicate -/

/-- The types that are left after trimming, each once; nothing where one is blank. -/
def trimTypes : List JsString → List JsString → Option (List JsString)
  | [], types => some types
  | type :: rest, types =>
    let trimmed := trim type
    if trimmed = [] then none
    else trimTypes rest (if trimmed ∈ types then types else types ++ [trimmed])

/-- The query without white space at its ends, which must leave something. -/
def compileQuery : Option JsString → Except ReadError (Option JsString)
  | none => .ok none
  | some query => if trim query = [] then .error .other else .ok (some (trim query))

/-- The different types without white space at their ends. -/
def compileTypes : Option (List JsString) → Except ReadError (Option (List JsString))
  | none => .ok none
  | some types =>
    match trimTypes types [] with
    | none => .error .other
    | some [] => .ok none
    | some (type :: types) => .ok (some (type :: types))

/-- What a search looks for, which must be something. -/
def compilePredicate (input : SearchNodesInput) : Except ReadError SearchPredicate := do
  let query ← compileQuery input.query
  let types ← compileTypes input.types
  if query = none ∧ types = none then throw .other
  else return { query, types, matchMode := input.matchMode }

/-- A text is what is looked for, or has it in it, in small or capital letters. -/
def textMatches (cm : CaseMapping) (haystack query : JsString) (mode : SearchMatchMode) : Bool :=
  match mode with
  | .exact => toLowerCase cm haystack = toLowerCase cm query
  | .contains => toLowerCase cm query <:+: toLowerCase cm haystack

namespace Host

variable {ρ : Type} (host : Host ρ)

/-- `node.id === id` -/
def hasId (node : ρ) (id : JsString) : Bool :=
  match host.get node "id" with
  | .string s => s == id
  | _ => false

/-- The characters of a text node. -/
def textCharacters (node : ρ) : Option JsString :=
  if host.isType node "TEXT" then
    match host.get node "characters" with
    | .string characters => some characters
    | _ => none
  else none

/-- The reasons of a match, none where there is no match. -/
def matchReasons (cm : CaseMapping) (predicate : SearchPredicate) (node : ρ) : List MatchReason :=
  let typed : Option (List MatchReason) :=
    match predicate.types with
    | none => some []
    | some types => if string (host.get node "type") ∈ types then some [.nodeType] else none
  match typed, predicate.query with
  | none, _ => []
  | some reasons, none => reasons
  | some reasons, some query =>
    let named := textMatches cm (string (host.get node "name")) query predicate.matchMode
    let worded := (host.textCharacters node).any fun characters =>
      textMatches cm characters query predicate.matchMode
    if named || worded then
      reasons ++ (if named then [.name] else []) ++ (if worded then [.text] else [])
    else []

end Host

/-! ## Cursors -/

/-- What a cursor must have been made for. -/
def searchKey (input : SearchNodesInput) (predicate : SearchPredicate) : JsString :=
  let scope := match input.scope with
    | .pageId id => [.string (text "page"), .string id]
    | .nodeId id => [.string (text "node"), .string id]
  let types := ((predicate.types.getD []).mergeSort fun a b => decide (a ≤ b)).map .string
  (stringify (.object (member "scope" (.array scope) ++
    member "query" ((predicate.query.map .string).getD .null) ++
    member "types" (.array types) ++
    member "match" (.string (text predicate.matchMode.word))))).getD []

/-- A node on the stack, with its place under the root and the ids above it. -/
structure WalkItem (ρ : Type) where
  node : ρ
  path : List ℕ := []
  ancestors : List JsString := []

/-- What a cursor says. -/
structure SearchCursorPayload where
  path : List ℕ
  id : JsString
  after : Bool

/-- The bytes that `encodeURIComponent` spells out, read as numbers. -/
def encodeBase64Url (value : JsString) : Option JsString :=
  (Utf16.utf8 value).map fun bytes => Base64Url.encode (bytes.map UInt8.toNat)

/-- The text of a cursor. -/
def decodeBase64Url (value : JsString) : Option JsString :=
  (Base64Url.decode value).bind fun bytes => Utf16.ofUtf8 (bytes.map UInt8.ofNat)

/-- A number that `Number.isSafeInteger` accepts and that is not negative. -/
def pathIndex : JsValue → Option ℕ
  | .number (.finite q) => if q.den = 1 ∧ 0 ≤ q ∧ q.num < 2 ^ 53 then some q.num.toNat else none
  | _ => none

/-- What a cursor says, if it was made for the key. -/
def parseCursor (value : JsString) (key : JsString) : Option SearchCursorPayload := do
  let parsed ← parse (← decodeBase64Url value)
  guard (parsed.field "v" matches .number (.finite 1))
  match parsed.field "key", parsed.field "id", parsed.field "path" with
  | .string found, .string id, .array path =>
    guard (found = key)
    return {
      path := ← path.mapM pathIndex
      id
      after := parsed.field "after" matches .bool true }
  | _, _, _ => none

/-- The cursor of an input, which must be read if there is one. -/
def readCursor (cursor : Option JsString) (key : JsString) :
    Except ReadError (Option SearchCursorPayload) :=
  match cursor with
  | none => .ok none
  | some value =>
    match parseCursor value key with
    | none => .error (.read .invalidCursor false)
    | some cursor => .ok (some cursor)

namespace Host

variable {ρ : Type} [DecidableEq ρ] (host : Host ρ)

/-- What the cursor of an item says. -/
def cursorPayload (key : JsString) (item : WalkItem ρ) (after : Bool) : JsValue :=
  .object (member "v" (natural 1) ++ member "key" (.string key) ++
    member "path" (.array (item.path.map natural)) ++ member "id" (.string (host.id item.node)) ++
    member "after" (.bool after))

/-- Nothing where `encodeURIComponent` throws. -/
def cursorFor (key : JsString) (item : WalkItem ρ) (after : Bool) : Option JsString :=
  (stringify (host.cursorPayload key item after)).bind encodeBase64Url

/-! ## The walk -/

/-- The visible children of an item, in order. -/
def childItems (item : WalkItem ρ) : List (WalkItem ρ) :=
  let id := host.id item.node
  let ancestors := if id ≠ [] then id :: item.ancestors else item.ancestors
  (host.visibleChildren item.node).mapIdx fun index child =>
    { node := child, path := item.path ++ [index], ancestors }

/-- The children of an item come before what is left, unless it is its own ancestor. -/
def pushChildren (stack : List (WalkItem ρ)) (item : WalkItem ρ) : List (WalkItem ρ) :=
  if host.repeated item.ancestors item.node then stack else host.childItems item ++ stack

/-- The top of the stack is the head of the list. The path of a cursor is walked down, the later
siblings on the way going on the stack. -/
def initialStack (root : ρ) (cursor : Option SearchCursorPayload) :
    Except ReadError (List (WalkItem ρ)) :=
  match cursor with
  | none => .ok [{ node := root }]
  | some cursor =>
    match PreorderWalk.descend host.childItems [] { node := root } cursor.path with
    | none => .error (.read .invalidCursor false)
    | some (item, stack) =>
      if host.id item.node ≠ cursor.id then .error (.read .invalidCursor false)
      else .ok (if cursor.after then host.pushChildren stack item else item :: stack)

/-- What is told of a node that was found. -/
def summarizeMatch (node : ρ) (includeChildren : Bool) : NodeSummary :=
  host.summarize node (if includeChildren then host.visibleChildren node else [])

/-- A node with the reasons for which it was found. -/
def nodeMatch (cm : CaseMapping) (predicate : SearchPredicate) (includeChildren : Bool) (node : ρ) :
    NodeMatch :=
  { node := host.summarizeMatch node includeChildren
    reasons := host.matchReasons cm predicate node }

/-- What the loop leaves: a page that is full ends at an item. -/
structure SearchPage (ρ : Type) where
  found : List NodeMatch
  truncation : Option Truncation
  pageEnd : Option (WalkItem ρ)

/-- The loop, with `left` visits left. -/
def searchFrom (cm : CaseMapping) (predicate : SearchPredicate) (limits : SerializerLimits)
    (returnedLimit : ℕ) :
    ℕ → List (WalkItem ρ) → ℕ → ℕ → List NodeMatch → SearchPage ρ
  | _, [], _, _, found => ⟨found, none, none⟩
  | 0, _ :: _, visitedNodes, _, found => ⟨found, some (.nodeLimit visitedNodes), none⟩
  | left + 1, item :: stack, visitedNodes, encodedBytes, found =>
    if host.matchReasons cm predicate item.node = [] then
      searchFrom cm predicate limits returnedLimit left (host.pushChildren stack item)
        (visitedNodes + 1) encodedBytes found
    else
      let hit := host.nodeMatch cm predicate (found.length + 1 < returnedLimit) item.node
      let nextBytes := encodedBytes + byteLength hit.toJs
      if limits.encodedBytes < nextBytes then ⟨found, some (.byteLimit nextBytes), none⟩
      else if returnedLimit ≤ found.length + 1 then
        if limits.returnedNodes ≤ found.length + 1 then
          ⟨found ++ [hit], some (.nodeLimit (visitedNodes + 1)), none⟩
        else ⟨found ++ [hit], none, some item⟩
      else
        searchFrom cm predicate limits returnedLimit left (host.pushChildren stack item)
          (visitedNodes + 1) nextBytes (found ++ [hit])

/-- The cursor of a page that is full. -/
def nextCursor (key : JsString) (page : SearchPage ρ) : Except ReadError (Option JsString) :=
  match page.pageEnd with
  | none => .ok none
  | some item =>
    match host.cursorFor key item true with
    | none => .error .other
    | some cursor => .ok (some cursor)

end Host

namespace Figma

variable {ρ : Type} [DecidableEq ρ] (figma : Figma ρ)

/-- Unlike elsewhere a lookup that fails fails the search. -/
def searchLookup (id : JsString) : Except ReadError (Option ρ) :=
  match figma.getNodeByIdAsync with
  | none => .error (.read .capabilityUnavailable false)
  | some getNodeByIdAsync =>
    match getNodeByIdAsync id with
    | .found node => .ok (some node)
    | .absent => .ok none
    | .failed => .error .other

/-- The node that a search starts from. -/
def resolveSearchRoot : SearchScope → Except ReadError ρ
  | .pageId id =>
    if figma.hasId figma.currentPage id then .ok figma.currentPage
    else do
      match ← figma.searchLookup id with
      | none => throw (.read .pageNotFound false)
      | some node =>
        if figma.isType node "PAGE" then figma.loadPageIfNeeded node
        else throw (.read .pageNotFound false)
  | .nodeId id => do
    match ← figma.searchLookup id with
    | none => throw (.read .nodeNotFound false)
    | some node =>
      match figma.visibilityOf node with
      | .renders => figma.loadPageIfNeeded node
      | .hidden => throw (.read .nodeNotVisible false)
      | .undetermined => throw (.read .limitExceeded false)

/-- One page of a search. -/
def searchNodes (cm : CaseMapping) (input : SearchNodesInput) (limits : SerializerLimits := {}) :
    Except ReadError SearchNodesResult := do
  let predicate ← compilePredicate input
  let key := searchKey input predicate
  let root ← figma.resolveSearchRoot input.scope
  let cursor ← readCursor input.cursor key
  let stack ← figma.initialStack root cursor
  let page := figma.searchFrom cm predicate limits (min input.limit limits.returnedNodes)
    limits.visitedNodes stack 0 0 []
  let nextCursor ← figma.nextCursor key page
  return {
    found := page.found
    truncated := page.truncation.isSome
    truncation := page.truncation
    nextCursor }

end Figma

end FigmaDevMcp

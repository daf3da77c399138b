import FigmaDevMcp.Lib.SharedBudget
import FigmaDevMcp.Protocol.Reading
import FigmaDevMcp.Shared.ResultValidation

set_option autoImplicit false

/-!
# Validation of node forests

The parsers of `result-validation.ts` for trees of design nodes. They count the nodes of a whole
forest, or of all items of a batch, and they stop below a depth. What the data of a node is depends
on the detail, so its parser is a parameter.

* `parseNodeSummary`, `parseToolError`: the other parts of a node and of an item;
* `parseDesignNode`, `parseNodeForest`, `parseNodeBatch`: the parsers;
* `Parses`, `ParsesItem`: the trees of a value whatever their number and depth;
* `parseNodeForest_isOk`, `parseNodeBatch_isOk`: **which forests and batches are accepted**.
-/

namespace FigmaDevMcp

open SharedBudget

/-- What a design node has beside its children. -/
structure NodeFields (S D T : Type) where
  summary : S
  data : D
  childrenTruncated : Bool
  childrenTruncation : Option T

/-- A node with its children. -/
abbrev NodeTree (S D T : Type) := Rose (NodeFields S D T)

/-- Within the bounds of a result: the roots have depth zero. -/
def FitsResult {ι : Type} (forest : List (Rose ι)) : Prop :=
  Rose.Within maxDepth maxReturnedNodes forest

namespace ResultValidation

open JsValue

/-! ## The parts of a node -/

/-- A rectangle. -/
def parseRect (value : JsValue) (label : JsString) : Validated JsValue := do
  let object ← exact value label ["x", "y", "width", "height"]
  let x ← finite (object.field "x") (dot label "x")
  let y ← finite (object.field "y") (dot label "y")
  let width ← finite (object.field "width") (dot label "width")
  let height ← finite (object.field "height") (dot label "height")
  return .object (member "x" (.rational x) ++ member "y" (.rational y) ++
    member "width" (.rational width) ++ member "height" (.rational height))

/-- A list of children without any is left out. -/
def parseNodeSummary (value : JsValue) (label : JsString) : Validated JsValue := do
  let object ← exact value label ["id", "name", "nodeType"] ["parentId", "childIds", "bounds"]
  let id ← identifier (object.field "id") (dot label "id")
  let name ← displayText (object.field "name") (dot label "name")
  let nodeType ← identifier (object.field "nodeType") (dot label "nodeType")
  let parentId ← optionalString object "parentId" identifier
  let childIds ← optionalMember object "childIds" (arrayOf · · identifier maxInputIds)
    (dot label "childIds")
  let bounds ← optionalMember object "bounds" parseRect (dot label "bounds")
  return .object (member "id" (.string id) ++ member "name" (.string name) ++
    member "nodeType" (.string nodeType) ++ optional "parentId" (parentId.map .string) ++
    optional "childIds" ((childIds.filter (· ≠ [])).map fun ids => .array (ids.map .string)) ++
    optional "bounds" bounds)

/-- The plugin has the codes and the messages of the protocol. -/
def errorCode (value : JsValue) : Validated ErrorCode :=
  match Protocol.errorCodeWords.find? fun candidate => isWord value candidate.1 with
  | some candidate => .ok candidate.2
  | none => fail (text "error code is not an allowed value")

/-- The message of an error is that of its code. -/
def canonical (code : ErrorCode) (message label : JsString) : Validated PUnit :=
  if message ≠ text (Protocol.canonicalMessage code) then
    fail (label ++ text ".message is not canonical")
  else .ok ⟨⟩

/-- The error of an item. -/
def parseItemError (value : JsValue) (label : JsString) : Validated JsValue := do
  let object ← exact value label ["index", "code", "message", "retryable"] ["id"]
  let code ← errorCode (object.field "code")
  let message ← string (object.field "message") (dot label "message")
  canonical code message label
  let index ← integer (object.field "index") (dot label "index")
  let retryable ← boolean (object.field "retryable") (dot label "retryable")
  let id ← optionalString object "id" identifier
  return .object (member "index" (natural index) ++ member "code" (object.field "code") ++
    member "message" (.string message) ++ member "retryable" (.bool retryable) ++
    optional "id" (id.map .string))

/-- An error. -/
def parseToolError (value : JsValue) (label : JsString) : Validated JsValue := do
  let object ← exact value label ["code", "message", "retryable"] ["items"]
  let code ← errorCode (object.field "code")
  let message ← string (object.field "message") (dot label "message")
  canonical code message label
  let retryable ← boolean (object.field "retryable") (dot label "retryable")
  let items ← optionalMember object "items" (arrayOf · · parseItemError maxInputIds)
    (dot label "items")
  return .object (member "code" (object.field "code") ++ member "message" (.string message) ++
    member "retryable" (.bool retryable) ++ optional "items" (items.map .array))

/-! ## Nodes -/

/-- The items of an array, each with its label. -/
def labelled (label : JsString) (items : List JsValue) : List (JsString × JsValue) :=
  items.mapIdx fun index item => (itemLabel label index, item)

section Nodes

variable {D : Type} (parseData : JsValue → JsString → Validated D)

/-- What a node has beside its children, with the items of these. -/
def parseNodeFields (value : JsValue) (label : JsString) :
    Validated (NodeFields JsValue D JsValue × List JsValue) := do
  let object ← exact value label ["summary", "data", "children", "childrenTruncated"]
    ["childrenTruncation"]
  let data ← parseData (object.field "data") (dot label "data")
  match object.field "children" with
  | .array items => do
    let summary ← parseNodeSummary (object.field "summary") (dot label "summary")
    let childrenTruncated ← boolean (object.field "childrenTruncated")
      (dot label "childrenTruncated")
    let childrenTruncation ← optionalMember object "childrenTruncation" parseTruncation
      (dot label "childrenTruncation")
    return ({ summary, data, childrenTruncated, childrenTruncation }, items)
  | _ => fail (dot label "children" ++ text " must be an array")

/-- A node with that many levels left for it and its children; the state counts the nodes. -/
def parseDesignNode : ℕ → JsString × JsValue → StateT ℕ Validated (NodeTree JsValue D JsValue)
  | 0, (label, _) => fun _ =>
    fail (label ++ text " exceeds node depth " ++ NumberText.decimal maxDepth)
  | levels + 1, (label, value) => fun count =>
    if maxReturnedNodes < count + 1 then
      fail (text "returned node count exceeds " ++ NumberText.decimal maxReturnedNodes)
    else do
      let object ← exact value label ["summary", "data", "children", "childrenTruncated"]
        ["childrenTruncation"]
      let data ← parseData (object.field "data") (dot label "data")
      match object.field "children" with
      | .array items =>
        if maxReturnedNodes < items.length then
          fail (dot label "children" ++ text " exceeds " ++ NumberText.decimal maxReturnedNodes ++
            text " items")
        else do
          let (children, count) ←
            ((labelled (dot label "children") items).mapM (parseDesignNode levels)).run (count + 1)
          let summary ← parseNodeSummary (object.field "summary") (dot label "summary")
          let childrenTruncated ← boolean (object.field "childrenTruncated")
            (dot label "childrenTruncated")
          let childrenTruncation ← optionalMember object "childrenTruncation" parseTruncation
            (dot label "childrenTruncation")
          return (.node { summary, data, childrenTruncated, childrenTruncation } children, count)
      | _ => fail (dot label "children" ++ text " must be an array")

/-- A forest, which is counted after it is read. -/
def parseNodeForest (value : JsValue) (label : JsString) :
    Validated (List (NodeTree JsValue D JsValue)) :=
  match value with
  | .array items =>
    if maxReturnedNodes < items.length then fail (label ++ text " exceeds node limit")
    else (((labelled label items).mapM (parseDesignNode parseData (maxDepth + 1))).run 0).map Prod.fst
  | _ => fail (label ++ text " must be an array")

/-! ## Batches -/

/-- An item that was read. -/
inductive ParsedItem (α : Type)
  | success (value : α)
  | error (error : JsValue)

/-- The tree of an item that has one. -/
def ParsedItem.value {α : Type} : ParsedItem α → Option α
  | success value => some value
  | error _ => none

/-- An item, whose value goes on with the count. -/
def parseItemResult {α : Type} (parser : JsString × JsValue → StateT ℕ Validated α) :
    JsString × JsValue → StateT ℕ Validated (ParsedItem α)
  | (label, value) => fun count => do
    let object ← record value label
    if isWord (object.field "status") "success" then do
      let success ← exact object label ["status", "value"]
      let (parsed, count) ← (parser (dot label "value", success.field "value")).run count
      return (.success parsed, count)
    else if isWord (object.field "status") "error" then do
      let error ← exact object label ["status", "error"]
      let parsed ← parseToolError (error.field "error") (dot label "error")
      return (.error parsed, count)
    else fail (label ++ text ".status is not allowed")

/-- A batch, whose trees are counted together. -/
def parseNodeBatch (value : JsValue) (label : JsString) :
    Validated (List (ParsedItem (NodeTree JsValue D JsValue))) :=
  match value with
  | .array items =>
    if maxInputIds < items.length then
      fail (label ++ text " exceeds " ++ NumberText.decimal maxInputIds ++ text " items")
    else
      (((labelled label items).mapM
        (parseItemResult (parseDesignNode parseData (maxDepth + 1)))).run 0).map Prod.fst
  | _ => fail (label ++ text " must be an array")

end Nodes

/-! ## The trees of a value -/

section Accepted

variable {D : Type} {parseData : JsValue → JsString → Validated D}

variable (parseData) in
/-- What a value with a label is made of as a node: its fields, and the values of its children. -/
def nodeParts (item : JsString × JsValue) :
    Option (NodeFields JsValue D JsValue × List (JsString × JsValue)) :=
  (parseNodeFields parseData item.2 item.1).toOption.map fun parts =>
    (parts.1, labelled (dot item.1 "children") parts.2)

variable (parseData) in
/-- The value stands for the tree: its nodes have the fields that they should have, however many
they are and however deep they lie. -/
def Parses : JsString × JsValue → NodeTree JsValue D JsValue → Prop :=
  Unfolds (nodeParts parseData)

theorem parses_node {label : JsString} {value : JsValue} {own : NodeFields JsValue D JsValue}
    {children : List (NodeTree JsValue D JsValue)} :
    Parses parseData (label, value) (.node own children) ↔
      ∃ items, parseNodeFields parseData value label = .ok (own, items) ∧
        List.Forall₂ (Parses parseData) (labelled (dot label "children") items) children := by
  rw [Parses, unfolds_node]
  constructor
  · rintro ⟨items, hparts, hchildren⟩
    rw [nodeParts, Option.map_eq_some_iff] at hparts
    obtain ⟨⟨own', items'⟩, hfields, h⟩ := hparts
    obtain ⟨rfl, rfl⟩ := Prod.mk.inj h
    exact ⟨items', Guard.toOption_eq_some.1 hfields, hchildren⟩
  · rintro ⟨items, hfields, hchildren⟩
    refine ⟨_, ?_, hchildren⟩
    rw [nodeParts, hfields]
    rfl

theorem length_labelled (label : JsString) (items : List JsValue) :
    (labelled label items).length = items.length := List.length_mapIdx

/-- A node that is not one too many. -/
theorem parseDesignNode_succ {levels count count' : ℕ} {label : JsString} {value : JsValue}
    {node : NodeTree JsValue D JsValue} (hcount : count + 1 ≤ maxReturnedNodes) :
    (parseDesignNode parseData (levels + 1) (label, value)).run count = .ok (node, count') ↔
      ∃ own items children, parseNodeFields parseData value label = .ok (own, items) ∧
        items.length ≤ maxReturnedNodes ∧
        ((labelled (dot label "children") items).mapM (parseDesignNode parseData levels)).run
          (count + 1) = .ok (children, count') ∧
        node = .node own children := by
  show parseDesignNode parseData (levels + 1) (label, value) count = _ ↔ _
  simp only [parseDesignNode, if_neg (Nat.not_lt.2 hcount), parseNodeFields, Guard.bind_eq_ok]
  constructor
  · rintro ⟨object, hexact, data, hdata, h⟩
    cases hchildren : object.field "children" with
    | array items =>
        rw [hchildren] at h
        by_cases hlength : maxReturnedNodes < items.length
        · simp only [if_pos hlength] at h
          cases h
        · simp only [if_neg hlength, Guard.bind_eq_ok] at h
          obtain ⟨⟨children, count''⟩, hitems, summary, hsummary, truncated, htruncated, truncation,
            htruncation, h⟩ := h
          obtain ⟨rfl, rfl⟩ := Prod.mk.inj (Except.ok.inj h)
          refine ⟨_, items, children, ⟨object, hexact, data, hdata, ?_⟩, Nat.not_lt.1 hlength, hitems,
            rfl⟩
          simp only [hchildren, Guard.bind_eq_ok]
          exact ⟨summary, hsummary, truncated, htruncated, truncation, htruncation, rfl⟩
    | _ =>
        rw [hchildren] at h
        cases h
  · rintro ⟨own, items, children, ⟨object, hexact, data, hdata, h⟩, hlength, hitems, rfl⟩
    refine ⟨object, hexact, data, hdata, ?_⟩
    cases hchildren : object.field "children" with
    | array others =>
        simp only [hchildren, Guard.bind_eq_ok] at h
        obtain ⟨summary, hsummary, truncated, htruncated, truncation, htruncation, h⟩ := h
        obtain ⟨rfl, rfl⟩ := Prod.mk.inj (Except.ok.inj h)
        simp only [if_neg (Nat.not_lt.2 hlength), Guard.bind_eq_ok]
        exact ⟨(children, count'), hitems, summary, hsummary, truncated, htruncated, truncation,
          htruncation, rfl⟩
    | _ =>
        rw [hchildren] at h
        cases h

/-- **A node is accepted where there is room for it** and for all below it. -/
theorem spends_parseDesignNode (levels : ℕ) (item : JsString × JsValue) :
    Spends (.up maxReturnedNodes) (parseDesignNode parseData levels item)
      (fun node => Parses parseData item node ∧ node.levels ≤ levels) Rose.count := by
  induction levels generalizing item with
  | zero =>
      intro count _ node count'
      refine ⟨nofun, fun h => ?_⟩
      cases node
      exact absurd h.1.2 (by simp)
  | succ levels ih =>
      intro count hvalid node count'
      obtain ⟨label, value⟩ := item
      by_cases hcount : count + 1 ≤ maxReturnedNodes
      · rw [parseDesignNode_succ hcount]
        constructor
        · rintro ⟨own, items, children, hfields, -, hitems, rfl⟩
          obtain ⟨⟨hchildren, hlevels⟩, hspend⟩ := (Spends.forest (fun _ _ => ih _) _ hcount _ _).1 hitems
          refine ⟨⟨parses_node.2 ⟨items, hfields, hchildren⟩, ?_⟩, ?_⟩
          · rw [Rose.levels_node]
            omega
          · rw [Budget.up_spend_eq_some] at hspend ⊢
            rw [Rose.count_node]
            omega
        · rintro ⟨⟨hparses, hlevels⟩, hspend⟩
          obtain ⟨own, children⟩ := node
          obtain ⟨items, hfields, hchildren⟩ := parses_node.1 hparses
          rw [Rose.levels_node] at hlevels
          rw [Budget.up_spend_eq_some, Rose.count_node] at hspend
          have hlength := hchildren.length_eq
          rw [length_labelled] at hlength
          have hle := Rose.length_le_forestCount children
          refine ⟨own, items, children, hfields, by omega,
            (Spends.forest (fun _ _ => ih _) _ hcount _ _).2 ⟨⟨hchildren, by omega⟩, ?_⟩, rfl⟩
          rw [Budget.up_spend_eq_some]
          omega
      · have hfull : (parseDesignNode parseData (levels + 1) (label, value)).run count =
            fail (text "returned node count exceeds " ++ NumberText.decimal maxReturnedNodes) := by
          show parseDesignNode parseData (levels + 1) (label, value) count = _
          simp only [parseDesignNode, if_pos (Nat.lt_of_not_le hcount)]
        rw [hfull]
        refine ⟨nofun, fun h => ?_⟩
        have hspend := h.2
        cases node
        rw [Budget.up_spend_eq_some, Rose.count_node] at hspend
        omega

variable (parseData) in
/-- The value stands for the item: for a node, or for an error. -/
inductive ParsesItem : JsString × JsValue → ParsedItem (NodeTree JsValue D JsValue) → Prop
  | success {label : JsString} {object : JsValue} {node : NodeTree JsValue D JsValue}
      (hstatus : isWord (object.field "status") "success" = true)
      (hexact : exact object label ["status", "value"] = .ok object)
      (hvalue : Parses parseData (dot label "value", object.field "value") node) :
      ParsesItem (label, object) (.success node)
  | error {label : JsString} {object error : JsValue}
      (hstatus : isWord (object.field "status") "error" = true)
      (hexact : exact object label ["status", "error"] = .ok object)
      (herror : parseToolError (object.field "error") (dot label "error") = .ok error) :
      ParsesItem (label, object) (.error error)

theorem not_isWord_of_isWord {value : JsValue} {v w : String} (h : isWord value v = true)
    (hne : text v ≠ text w) : ¬ isWord value w = true := by
  intro hw
  rw [isWord_iff.1 h] at hw
  exact hne (JsValue.string.inj (isWord_iff.1 hw))

theorem spends_parseItemResult (levels : ℕ) (item : JsString × JsValue) :
    Spends (.up maxReturnedNodes) (parseItemResult (parseDesignNode parseData levels) item)
      (fun parsed => ParsesItem parseData item parsed ∧ ∀ node ∈ parsed.value, node.levels ≤ levels)
      (priceOf ParsedItem.value) := by
  intro count hvalid parsed count'
  obtain ⟨label, value⟩ := item
  show parseItemResult (parseDesignNode parseData levels) (label, value) count = _ ↔ _
  simp only [parseItemResult, Guard.bind_eq_ok]
  constructor
  · rintro ⟨object, hrecord, h⟩
    obtain rfl : value = object := by
      cases value with
      | object members => exact Except.ok.inj hrecord
      | _ => cases hrecord
    split_ifs at h with hsuccess herror
    · simp only [Guard.bind_eq_ok] at h
      obtain ⟨success, hexact, ⟨node, count''⟩, hnode, h⟩ := h
      obtain ⟨rfl, rfl⟩ := Prod.mk.inj (Except.ok.inj h)
      obtain rfl := (exact_eq_ok.1 hexact).1
      obtain ⟨⟨hparses, hlevels⟩, hspend⟩ := (spends_parseDesignNode levels _ _ hvalid _ _).1 hnode
      exact ⟨⟨.success hsuccess hexact hparses, fun _ h => Option.some.inj h ▸ hlevels⟩, hspend⟩
    · simp only [Guard.bind_eq_ok] at h
      obtain ⟨error, hexact, parsed, hparsed, h⟩ := h
      obtain ⟨rfl, rfl⟩ := Prod.mk.inj (Except.ok.inj h)
      obtain rfl := (exact_eq_ok.1 hexact).1
      refine ⟨⟨.error herror hexact hparsed, fun node hnode => ?_⟩, Budget.spend_zero _ _ hvalid⟩
      cases hnode
    · cases h
  · rintro ⟨⟨hparses, hlevels⟩, hspend⟩
    cases hparses with
    | @success _ _ node hstatus hexact hvalue =>
        obtain ⟨_, members, hobject, _⟩ := exact_eq_ok.1 hexact
        refine ⟨value, by rw [hobject]; rfl, ?_⟩
        simp only [if_pos hstatus, Guard.bind_eq_ok]
        exact ⟨value, hexact, (node, count'), (spends_parseDesignNode levels _ _ hvalid _ _).2
          ⟨⟨hvalue, hlevels node rfl⟩, hspend⟩, rfl⟩
    | @error _ _ error hstatus hexact herror =>
        obtain ⟨_, members, hobject, _⟩ := exact_eq_ok.1 hexact
        have hother : ¬ isWord (value.field "status") "success" = true :=
          not_isWord_of_isWord hstatus (by decide)
        refine ⟨value, by rw [hobject]; rfl, ?_⟩
        simp only [if_neg hother, if_pos hstatus, Guard.bind_eq_ok]
        obtain rfl := Option.some.inj ((Budget.spend_zero _ count hvalid).symm.trans hspend)
        exact ⟨value, hexact, error, herror, rfl⟩

/-- **Which forests are accepted.** -/
theorem parseNodeForest_eq_ok {items : List JsValue} {label : JsString}
    {forest : List (NodeTree JsValue D JsValue)} :
    parseNodeForest parseData (.array items) label = .ok forest ↔
      List.Forall₂ (Parses parseData) (labelled label items) forest ∧ FitsResult forest := by
  rw [parseNodeForest]
  by_cases hlength : maxReturnedNodes < items.length
  · rw [if_pos hlength]
    refine ⟨nofun, fun ⟨hparses, _, hcount⟩ => ?_⟩
    have hforest := hparses.length_eq
    have hle := Rose.length_le_forestCount forest
    rw [length_labelled] at hforest
    omega
  · rw [if_neg hlength, map_fst_eq_ok, exists_spends_up
      (Spends.forest fun item _ => spends_parseDesignNode (maxDepth + 1) item), and_assoc]
    rfl

/-- **Which batches are accepted.** -/
theorem parseNodeBatch_eq_ok {items : List JsValue} {label : JsString}
    {batch : List (ParsedItem (NodeTree JsValue D JsValue))} :
    parseNodeBatch parseData (.array items) label = .ok batch ↔ items.length ≤ maxInputIds ∧
      List.Forall₂ (ParsesItem parseData) (labelled label items) batch ∧
        FitsResult (batch.filterMap ParsedItem.value) := by
  rw [parseNodeBatch]
  by_cases hlength : maxInputIds < items.length
  · rw [if_pos hlength]
    exact ⟨nofun, fun h => absurd h.1 (Nat.not_le.2 hlength)⟩
  · rw [if_neg hlength, map_fst_eq_ok, exists_spends_up
      (Spends.batch fun item _ => spends_parseItemResult (maxDepth + 1) item), and_assoc,
      and_iff_right (Nat.not_lt.1 hlength)]
    rfl

end Accepted

end ResultValidation

end FigmaDevMcp

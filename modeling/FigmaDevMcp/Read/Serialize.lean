import FigmaDevMcp.Lib.BudgetedWalk
import FigmaDevMcp.Protocol.Limits
import FigmaDevMcp.Read.NodeData
import FigmaDevMcp.Shared.Text

set_option autoImplicit false

/-!
# The node serializer

`serializeNode` and `serializeNodeForest` of `serialize.ts`, and the walk on a budget that they
are. Nothing can abort a signal while the serializer runs, so a run that is not aborted at its
start is followed here, without its progress reports.

* `summarize`, `markTruncated`, `serializeNode`, `serializeNodeForest`: from the source;
* `scene`, `decorate`: the graph the serializer walks, and the node made of a kept item;
* `serializeNode_eq`, `serializeNodeForest_eq`: the serializer is that walk, decorated.
-/

namespace FigmaDevMcp

open JsValue

/-- The limits of a read. -/
structure SerializerLimits where
  returnedNodes : ℕ := maxReturnedNodes
  visitedNodes : ℕ := maxVisitedNodes
  encodedBytes : ℕ := maxTextBytes

/-- How a forest is serialized. -/
structure SerializeNodeForestOptions where
  detail : DetailLevel
  depth : ℤ
  dedupeComponents : Bool
  names : Names := {}
  limits : SerializerLimits := {}

/-- What has been serialized so far. -/
structure SerializerContext where
  emittedComponents : List JsString := []
  visitedNodes : ℕ := 0
  returnedNodes : ℕ := 0
  encodedBytes : ℕ := 0
  truncation : Option Truncation := none

/-- A forest, and where it was cut. -/
structure SerializedNodeForest where
  nodes : List DesignNode
  truncated : Bool
  truncation : Option Truncation

namespace Truncation

/-- A cut because of the depth. -/
def depthLimit (appliedDepth : ℕ) : Truncation :=
  { reason := .depthLimit, appliedDepth := some appliedDepth }

/-- A cut because of the number of nodes. -/
def nodeLimit (visitedNodes : ℕ) : Truncation :=
  { reason := .nodeLimit, visitedNodes := some visitedNodes }

/-- A cut because of the bytes. -/
def byteLimit (encodedBytes : ℕ) : Truncation :=
  { reason := .byteLimit, encodedBytes := some encodedBytes }

end Truncation

/-- The depth of the context: `Math.max(0, options.depth)`. -/
def SerializeNodeForestOptions.appliedDepth (options : SerializeNodeForestOptions) : ℕ :=
  (max 0 options.depth).toNat

/-- The first cut stays. -/
def SerializerContext.markTruncated (context : SerializerContext) (truncation : Truncation) :
    SerializerContext :=
  match context.truncation with
  | none => { context with truncation := some truncation }
  | some current =>
    if current.reason = .depthLimit ∧ truncation.reason ≠ .depthLimit then
      { context with truncation := some truncation }
    else context

namespace SerializerContext

/-- One more node is visited. -/
def visit (context : SerializerContext) : SerializerContext :=
  { context with visitedNodes := context.visitedNodes + 1 }

/-- One more node is returned, with its bytes. -/
def charge (context : SerializerContext) (bytes : ℕ) : SerializerContext :=
  { context with
    encodedBytes := context.encodedBytes + bytes
    returnedNodes := context.returnedNodes + 1 }

/-- A component is remembered. -/
def emit (context : SerializerContext) (id : JsString) : SerializerContext :=
  { context with emittedComponents := id :: context.emittedComponents }

end SerializerContext

/-- The bytes of a value as a text of JSON. -/
def byteLength (value : JsValue) : ℕ := utf8ByteLength ((stringify value).getD [])

/-- What a loop over siblings has serialized, and whether one was refused. -/
structure SerializedRow where
  nodes : List DesignNode
  stopped : Bool
  context : SerializerContext

/-- Nodes in a row, up to the first that is not serialized. -/
def serializeAll {ρ : Type}
    (serialize : ρ → SerializerContext → Option DesignNode × SerializerContext) :
    List ρ → SerializerContext → SerializedRow
  | [], context => ⟨[], false, context⟩
  | node :: rest, context =>
    match serialize node context with
    | (none, context) => ⟨[], true, context⟩
    | (some child, context) =>
      let row := serializeAll serialize rest context
      ⟨child :: row.nodes, row.stopped, row.context⟩

namespace Host

variable {ρ : Type} [DecidableEq ρ] (host : Host ρ)

/-- The id of the parent. -/
def parentId (node : ρ) : Option JsString :=
  match (host.parent node).map fun parent => host.get parent "id" with
  | some (.string id) => some id
  | _ => none

/-- What is told of every node. -/
def summarize (node : ρ) (children : List ρ) : NodeSummary :=
  let childIds := (children.map host.id).filter (· ≠ [])
  { id := host.id node
    name := string (host.get node "name")
    nodeType := string (host.get node "type")
    parentId := host.parentId node
    childIds := if childIds = [] then none else some childIds
    bounds := host.bounds node }

/-- A component or a set of them. -/
def isComponent (node : ρ) : Bool := host.isType node "COMPONENT" || host.isType node "COMPONENT_SET"

variable (options : SerializeNodeForestOptions)

/-- The record of a node without its children. -/
def candidate (node : ρ) : DesignNode :=
  { summary := host.summarize node (host.visibleChildren node)
    data := host.nodeData options.detail options.names node
    children := []
    childrenTruncated := false }

/-- The record of a component that has been emitted before. -/
def stub (node : ρ) : DesignNode :=
  { summary :=
      { id := host.id node
        name := string (host.get node "name")
        nodeType := string (host.get node "type") }
    data := identityData options.detail (host.id node)
    children := []
    childrenTruncated := true }

/-- A component that dedupe keeps track of. -/
def shared (node : ρ) : Bool :=
  options.dedupeComponents && host.isComponent node && host.id node ≠ []

/-- The node is its own ancestor. -/
def repeated (ancestors : List JsString) (node : ρ) : Bool :=
  host.id node ≠ [] && host.id node ∈ ancestors

/-- The component has been emitted before, and is not its own ancestor. -/
def stubbed (ancestors : List JsString) (node : ρ) (context : SerializerContext) : Bool :=
  host.shared options node && host.id node ∈ context.emittedComponents &&
    !host.repeated ancestors node

/-- A node with `below` levels left under it: `context.depth - level` of the source. -/
def serializeNode (below : ℕ) (ancestors : List JsString) (node : ρ) (context : SerializerContext) :
    Option DesignNode × SerializerContext :=
  if options.limits.visitedNodes ≤ context.visitedNodes then
    (none, context.markTruncated (.nodeLimit context.visitedNodes))
  else if options.limits.returnedNodes ≤ context.returnedNodes then
    (none, context.visit.markTruncated (.nodeLimit context.visit.visitedNodes))
  else if host.stubbed options ancestors node context then
    let stubBytes := byteLength (host.stub options node).toJs
    if options.limits.encodedBytes < context.encodedBytes + stubBytes then
      (none, context.visit.markTruncated (.byteLimit (context.encodedBytes + stubBytes)))
    else (some (host.stub options node), context.visit.charge stubBytes)
  else
    let result := host.candidate options node
    let candidateBytes := byteLength result.toJs
    if options.limits.encodedBytes < context.encodedBytes + candidateBytes then
      (none, context.visit.markTruncated (.byteLimit (context.encodedBytes + candidateBytes)))
    else
      let context := context.visit.charge candidateBytes
      let emitted := if host.shared options node then context.emit (host.id node) else context
      if host.visibleChildren node = [] then (some result, emitted)
      else if host.repeated ancestors node then
        let truncation := Truncation.nodeLimit context.visitedNodes
        (some { result with childrenTruncated := true, childrenTruncation := some truncation },
          context.markTruncated truncation)
      else
        match below with
        | 0 =>
          let truncation := Truncation.depthLimit options.appliedDepth
          (some { result with childrenTruncated := true, childrenTruncation := some truncation },
            emitted.markTruncated truncation)
        | below + 1 =>
          let nextAncestors := if host.id node ≠ [] then host.id node :: ancestors else ancestors
          let row := serializeAll (serializeNode below nextAncestors) (host.visibleChildren node) emitted
          if row.stopped then
            (some
              { result with
                children := row.nodes
                childrenTruncated := true
                childrenTruncation := row.context.truncation }, row.context)
          else (some { result with children := row.nodes }, row.context)

/-- The forest below the roots. -/
def serializeNodeForest (roots : List ρ) : SerializedNodeForest :=
  let row := serializeAll (host.serializeNode options options.appliedDepth []) roots {}
  { nodes := row.nodes
    truncated := row.context.truncation.isSome
    truncation := row.context.truncation }

/-! ## The serializer is a walk on a budget -/

/-- The graph of the visible nodes, weighed by the text of their records. -/
def scene : Walk.Scene ρ JsString where
  children := host.visibleChildren
  label node := if host.id node = [] then none else some (host.id node)
  shared := host.isComponent
  weight node := byteLength (host.candidate options node).toJs
  stubWeight node := byteLength (host.stub options node).toJs

theorem scene_children (node : ρ) : (host.scene options).children node = host.visibleChildren node :=
  rfl

theorem scene_weight (node : ρ) :
    (host.scene options).weight node = byteLength (host.candidate options node).toJs := rfl

theorem scene_stubWeight (node : ρ) :
    (host.scene options).stubWeight node = byteLength (host.stub options node).toJs := rfl

end Host

/-- The limits as a budget of the walk. -/
def SerializerLimits.budget (limits : SerializerLimits) : Walk.Budget where
  visits := limits.visitedNodes
  returns := limits.returnedNodes
  weight := limits.encodedBytes

theorem SerializerLimits.budget_visits (limits : SerializerLimits) :
    limits.budget.visits = limits.visitedNodes := rfl

theorem SerializerLimits.budget_returns (limits : SerializerLimits) :
    limits.budget.returns = limits.returnedNodes := rfl

theorem SerializerLimits.budget_weight (limits : SerializerLimits) :
    limits.budget.weight = limits.encodedBytes := rfl

/-- The truncation that reports a cut. -/
def truncationOf (depth : ℕ) : Walk.Cut → Truncation
  | .depth => .depthLimit depth
  | .count visited => .nodeLimit visited
  | .weight spent => .byteLimit spent

/-- The context that a state of the walk stands for. -/
def contextOf (depth : ℕ) (s : Walk.State JsString) : SerializerContext where
  emittedComponents := s.emitted
  visitedNodes := s.visited
  returnedNodes := s.returned
  encodedBytes := s.spent
  truncation := s.cut.map (truncationOf depth)

section

variable (depth : ℕ) (s : Walk.State JsString)

theorem contextOf_visitedNodes : (contextOf depth s).visitedNodes = s.visited := rfl

theorem contextOf_returnedNodes : (contextOf depth s).returnedNodes = s.returned := rfl

theorem contextOf_encodedBytes : (contextOf depth s).encodedBytes = s.spent := rfl

theorem contextOf_emittedComponents : (contextOf depth s).emittedComponents = s.emitted := rfl

theorem contextOf_visit : contextOf depth s.visit = (contextOf depth s).visit := rfl

theorem contextOf_charge (bytes : ℕ) :
    contextOf depth (s.charge bytes) = (contextOf depth s).charge bytes := rfl

end

theorem truncationOf_reason {depth : ℕ} {c : Walk.Cut} :
    (truncationOf depth c).reason = .depthLimit ↔ c = .depth := by
  cases c <;> simp [truncationOf, Truncation.depthLimit, Truncation.nodeLimit, Truncation.byteLimit]

theorem contextOf_mark (depth : ℕ) (s : Walk.State JsString) (c : Walk.Cut) :
    contextOf depth (s.mark c) = (contextOf depth s).markTruncated (truncationOf depth c) := by
  obtain ⟨visited, returned, spent, emitted, cut⟩ := s
  rcases cut with _ | d
  · rfl
  · simp only [SerializerContext.markTruncated, contextOf, Option.map_some, truncationOf_reason, ne_eq]
    cases d with
    | depth =>
        by_cases hc : c = .depth
        · rw [if_neg (by simp [hc]), Walk.State.mark, if_pos hc]
          rfl
        · rw [if_pos ⟨rfl, hc⟩, Walk.State.mark, if_neg hc]
          rfl
    | count | weight => rfl

namespace Host

variable {ρ : Type} [DecidableEq ρ] (host : Host ρ) (options : SerializeNodeForestOptions)

mutual

/-- The record of a kept node. -/
def decorate : Walk.Kept ρ → DesignNode
  | .mk node true _ _ => host.stub options node
  | .mk node false cut children =>
    { host.candidate options node with
      children := decorateAll children
      childrenTruncated := cut.isSome
      childrenTruncation := cut.map (truncationOf options.appliedDepth) }

/-- The records of the items of a forest. -/
def decorateAll : List (Walk.Kept ρ) → List DesignNode
  | [] => []
  | k :: ks => decorate k :: decorateAll ks

end

theorem repeats_scene (ancestors : List JsString) (node : ρ) :
    (host.scene options).repeats ancestors node = host.repeated ancestors node := by
  by_cases h : host.id node = [] <;> simp [Walk.Scene.repeats, scene, repeated, h]

theorem sharedLabel_scene (node : ρ) :
    (host.scene options).sharedLabel options.dedupeComponents node =
      if host.shared options node then some (host.id node) else none := by
  by_cases h : host.id node = [] <;>
    cases hd : options.dedupeComponents <;> cases hc : host.isComponent node <;>
      simp [Walk.Scene.sharedLabel, scene, shared, h, hd, hc]

theorem stubbed_scene (depth : ℕ) (ancestors : List JsString) (node : ρ) (s : Walk.State JsString) :
    (host.scene options).stubbed options.dedupeComponents ancestors node s =
      host.stubbed options ancestors node (contextOf depth s) := by
  rw [Walk.Scene.stubbed, sharedLabel_scene, repeats_scene, stubbed, contextOf_emittedComponents]
  cases host.shared options node with
  | true =>
      rw [if_pos rfl, Bool.true_and]
      dsimp only
      congr
  | false => rfl

theorem contextOf_emit (depth : ℕ) (node : ρ) (s : Walk.State JsString) :
    contextOf depth (s.emit ((host.scene options).sharedLabel options.dedupeComponents node)) =
      if host.shared options node then (contextOf depth s).emit (host.id node)
      else contextOf depth s := by
  rw [sharedLabel_scene]
  split_ifs <;> rfl

theorem nextAncestors_scene (ancestors : List JsString) (node : ρ) :
    (((host.scene options).label node).toList ++ ancestors) =
      if host.id node ≠ [] then host.id node :: ancestors else ancestors := by
  by_cases h : host.id node = [] <;> simp [scene, h]

/-- What a visit of the walk is to the serializer. -/
def decorateResult (r : Option (Walk.Kept ρ) × Walk.State JsString) :
    Option DesignNode × SerializerContext :=
  (r.1.map (host.decorate options), contextOf options.appliedDepth r.2)

/-- A row of serialized nodes is a row of the walk, decorated. -/
theorem serializeAll_eq
    {serialize : ρ → SerializerContext → Option DesignNode × SerializerContext}
    {f : ρ → Walk.State JsString → Option (Walk.Kept ρ) × Walk.State JsString}
    (hf : ∀ node s, serialize node (contextOf options.appliedDepth s) =
      host.decorateResult options (f node s)) (nodes : List ρ) (s : Walk.State JsString) :
    serializeAll serialize nodes (contextOf options.appliedDepth s) =
      ⟨host.decorateAll options (Walk.walkAll f nodes s).kept, (Walk.walkAll f nodes s).stopped,
        contextOf options.appliedDepth (Walk.walkAll f nodes s).state⟩ := by
  induction nodes generalizing s with
  | nil => rfl
  | cons node rest ih =>
      rw [serializeAll, hf, decorateResult]
      cases h : (f node s).1 with
      | none => rw [Walk.walkAll_cons_none h]; rfl
      | some k =>
          rw [Walk.walkAll_cons_some h]
          simp only [Option.map_some, ih]
          rfl

theorem decorateResult_refused (s : Walk.State JsString) (c : Walk.Cut) :
    host.decorateResult options (none, s.mark c) =
      (none, (contextOf options.appliedDepth s).markTruncated (truncationOf options.appliedDepth c)) := by
  rw [decorateResult, contextOf_mark]
  rfl

/-- **The serializer is the walk on a budget, decorated.** -/
theorem serializeNode_eq (below : ℕ) (ancestors : List JsString) (node : ρ)
    (s : Walk.State JsString) :
    host.serializeNode options below ancestors node (contextOf options.appliedDepth s) =
      host.decorateResult options
        (Walk.walk (host.scene options) options.limits.budget options.dedupeComponents below ancestors
          node s) := by
  induction below using Nat.strongRecOn generalizing ancestors node s with
  | ind below ih =>
      rw [serializeNode.eq_def, Walk.walk.eq_def,
        stubbed_scene host options options.appliedDepth, repeats_scene]
      simp only [contextOf_visitedNodes, contextOf_returnedNodes, contextOf_encodedBytes,
        SerializerLimits.budget_visits, SerializerLimits.budget_returns,
        SerializerLimits.budget_weight, scene_children, scene_weight, scene_stubWeight, ← contextOf_visit, ← contextOf_charge]
      by_cases hvisits : options.limits.visitedNodes ≤ s.visited
      · simp only [hvisits, if_true, decorateResult_refused]
        rfl
      by_cases hreturns : options.limits.returnedNodes ≤ s.returned
      · simp only [hvisits, hreturns, if_true, if_false, decorateResult_refused]
        rfl
      by_cases hstub : host.stubbed options ancestors node (contextOf options.appliedDepth s) = true
      · by_cases hweight : options.limits.encodedBytes < s.spent + byteLength (host.stub options node).toJs
        · simp only [hvisits, hreturns, hstub, hweight, if_true, if_false, decorateResult_refused]
          rfl
        · simp only [hvisits, hreturns, hstub, hweight, if_true, if_false]
          rfl
      by_cases hweight : options.limits.encodedBytes < s.spent + byteLength (host.candidate options node).toJs
      · simp only [hvisits, hreturns, hstub, hweight, Bool.false_eq_true, if_true, if_false, decorateResult_refused]
        rfl
      by_cases hchildren : host.visibleChildren node = []
      · simp only [hvisits, hreturns, hstub, hweight, hchildren, Bool.false_eq_true, if_true, if_false, decorateResult,
          contextOf_emit]
        rfl
      by_cases hrepeated : host.repeated ancestors node = true
      · simp only [hvisits, hreturns, hstub, hweight, hchildren, hrepeated, Bool.false_eq_true, if_true, if_false,
          decorateResult, contextOf_mark]
        rfl
      simp only [hvisits, hreturns, hstub, hweight, hchildren, hrepeated, Bool.false_eq_true, if_false,
        ← contextOf_emit]
      cases below with
      | zero =>
          simp only [decorateResult, contextOf_mark]
          rfl
      | succ left =>
          have hrow := serializeAll_eq host options
            (f := Walk.walk (host.scene options) options.limits.budget options.dedupeComponents left
              (if host.id node ≠ [] then host.id node :: ancestors else ancestors))
            (fun b t => ih left (by omega) _ b t) (host.visibleChildren node)
            ((s.visit.charge (byteLength (host.candidate options node).toJs)).emit
              ((host.scene options).sharedLabel options.dedupeComponents node))
          have hhalted := Walk.walkAll_stopped
            (f := Walk.walk (host.scene options) options.limits.budget options.dedupeComponents left
              (if host.id node ≠ [] then host.id node :: ancestors else ancestors))
            (fun _ _ hk => Walk.walk_refused hk) (l := host.visibleChildren node)
            (s := (s.visit.charge (byteLength (host.candidate options node).toJs)).emit
              ((host.scene options).sharedLabel options.dedupeComponents node))
          simp only [hrow, nextAncestors_scene]
          generalize Walk.walkAll _ (host.visibleChildren node) _ = row at hhalted ⊢
          cases hstopped : row.stopped with
          | true =>
              obtain ⟨c, hc, -⟩ := hhalted hstopped
              simp only [if_true, hc, contextOf, decorateResult, Option.map_some, decorate,
                Option.isSome_some]
          | false => rfl

/-- **A forest of serialized nodes is a row of the walk, decorated.** -/
theorem serializeNodeForest_eq (roots : List ρ) :
    host.serializeNodeForest options roots =
      let row := Walk.walkAll (Walk.walk (host.scene options) options.limits.budget
        options.dedupeComponents options.appliedDepth []) roots {}
      { nodes := host.decorateAll options row.kept
        truncated := row.state.cut.isSome
        truncation := row.state.cut.map (truncationOf options.appliedDepth) } := by
  have hrow := serializeAll_eq host options
    (fun node s => serializeNode_eq host options options.appliedDepth [] node s) roots {}
  rw [show contextOf options.appliedDepth {} = {} from rfl] at hrow
  simp only [serializeNodeForest, hrow, contextOf, Option.isSome_map]

end Host

end FigmaDevMcp

import FigmaDevMcp.Lib.Guard
import FigmaDevMcp.Read.Figma
import FigmaDevMcp.Read.Serialize
import FigmaDevMcp.Shared.Input

set_option autoImplicit false

/-!
# Reading the selection, nodes and design context

`readSelection`, `readNodes` and `readDesignContext` of `navigation.ts`, without the times of
observation.

* `lookupNode`, `loadDocumentPages`, `serializePreparedForest`: the steps that the reads share;
* `resolveDesignRoots`: the roots of a selector;
* `readSelection`, `readNodes`, `readDesignContext`: the reads;
* `roots_resolveDesignRoots`: a root renders, or is a page that was asked for.
-/

namespace FigmaDevMcp

/-- An id that no node was found for. -/
structure UnresolvedNode where
  id : JsString
  error : ToolError

/-- The answer for one item. -/
inductive ItemResult (α : Type)
  | success (value : α)
  | error (error : ToolError)

/-- The selection, as it is read. -/
structure GetSelectionResult where
  detail : DetailLevel
  nodes : List DesignNode
  truncated : Bool
  truncation : Option Truncation
  unresolved : List UnresolvedNode

/-- The nodes of a list of ids, as they are read. -/
structure GetNodesResult where
  detail : DetailLevel
  items : List (ItemResult DesignNode)
  truncated : Bool
  truncation : Option Truncation

/-- The nodes that a selector names, as they are read. -/
structure GetDesignContextResult where
  detail : DetailLevel
  roots : List DesignNode
  truncated : Bool
  truncation : Option Truncation
  unresolved : List UnresolvedNode

/-- The detail that a read has. -/
def defaultDetail (detail : Option DetailLevel) : DetailLevel := detail.getD .compact

/-- The depth that a read has. -/
def defaultDepth (depth : Option ℕ) : ℕ := min (depth.getD 2) maxDepth

/-- The message of an error is that of its code. -/
def nodeError (code : ErrorCode) : ToolError := .new code false

/-- The entry over the limit is dropped. -/
def recordUnresolved (unresolved : List UnresolvedNode) (id : JsString) : List UnresolvedNode :=
  if maxReturnedNodes ≤ unresolved.length then unresolved
  else unresolved ++ [{ id, error := nodeError .limitExceeded }]

/-- The names that a level of detail may carry, of those the pre-passes would find. -/
def Names.forDetail (detail : DetailLevel) (names : Names) : Names :=
  match detail with
  | .minimal => {}
  | .compact => { instanceIdentities := names.instanceIdentities }
  | .full => names

/-- The roots of a forest, and the nodes that could not be judged. -/
structure DesignRoots (ρ : Type) where
  roots : List ρ := []
  unresolved : List UnresolvedNode := []

namespace Figma

variable {ρ : Type} [DecidableEq ρ] (figma : Figma ρ)

/-- A lookup that fails is a node that is not there. -/
def lookupNode (id : JsString) : Except ReadError (Option ρ) :=
  match figma.getNodeByIdAsync with
  | none => .error (.read .capabilityUnavailable false)
  | some getNodeByIdAsync =>
    match getNodeByIdAsync id with
    | .found node => .ok (some node)
    | .absent | .failed => .ok none

/-- The pages of roots that are documents are loaded. -/
def loadDocumentPages (roots : List ρ) : Except ReadError Unit :=
  roots.forM fun root =>
    if figma.isType root "DOCUMENT" then
      (figma.children root).forM fun child => do let _ ← figma.loadPageIfNeeded child
    else pure ()

/-- The forest of roots, after their pages are loaded. -/
def serializePreparedForest (roots : List ρ) (detail : DetailLevel) (depth : ℕ)
    (dedupeComponents : Bool) (names : Names) : Except ReadError SerializedNodeForest := do
  figma.loadDocumentPages roots
  return figma.serializeNodeForest
    { detail, depth, dedupeComponents, names := names.forDetail detail } roots

/-- A root that is switched off is left out, one that could not be judged is recorded. -/
def selectRoots : List JsString → DesignRoots ρ → Except ReadError (DesignRoots ρ)
  | [], found => .ok found
  | id :: ids, found => do
    match ← figma.lookupNode id with
    | none => selectRoots ids found
    | some node =>
      match figma.visibilityOf node with
      | .renders => selectRoots ids { found with roots := found.roots ++ [node] }
      | .hidden => selectRoots ids found
      | .undetermined =>
        selectRoots ids { found with unresolved := recordUnresolved found.unresolved id }

/-- The roots of the selection, none where nodes cannot be looked up. -/
def selectionRoots : Except ReadError (DesignRoots ρ) :=
  if figma.getNodeByIdAsync.isSome then figma.selectRoots figma.selection {} else .ok {}

/-- The forest of the selection. -/
def readSelection (input : GetSelectionInput) (names : Names) :
    Except ReadError GetSelectionResult :=
  let detail := defaultDetail input.detail
  let depth := defaultDepth input.depth
  if figma.selection ≠ [] ∧ figma.getNodeByIdAsync.isNone then
    throw (.read .capabilityUnavailable false)
  else do
    let found ← figma.selectionRoots
    let serialized ← figma.serializePreparedForest found.roots detail depth false names
    return {
      detail
      nodes := serialized.nodes
      truncated := serialized.truncated
      truncation := serialized.truncation
      unresolved := found.unresolved }

/-- One item of `readNodes`, with the truncation of a value that has one. -/
def readNode (detail : DetailLevel) (depth : ℕ) (names : Names) (id : JsString) :
    ItemResult DesignNode × Option Truncation :=
  match figma.lookupNode id with
  | .error _ => (.error (nodeError .capabilityUnavailable), none)
  | .ok none => (.error (nodeError .nodeNotFound), none)
  | .ok (some node) =>
    match figma.visibilityOf node with
    | .hidden => (.error (nodeError .nodeNotVisible), none)
    | .undetermined => (.error (nodeError .limitExceeded), none)
    | .renders =>
      match (do
        let loaded ← figma.loadPageIfNeeded node
        figma.serializePreparedForest [loaded] detail depth false names) with
      | .error _ => (.error (nodeError .internalError), none)
      | .ok serialized =>
        match serialized.nodes with
        | [] => (.error (nodeError .internalError), none)
        | value :: _ => (.success value, serialized.truncation)

/-- Each id is read by itself, with the names that the pre-passes find for it. -/
def readNodes (input : GetNodesInput) (names : ℕ → Names) : GetNodesResult :=
  let detail := defaultDetail input.detail
  let depth := defaultDepth input.depth
  let answers := input.nodeIds.mapIdx fun index id => figma.readNode detail depth (names index) id
  { detail
    items := answers.map Prod.fst
    truncated := answers.any fun answer => answer.2.isSome
    truncation := answers.findSome? Prod.snd }

/-- The page of an id. -/
def loadExplicitPage (id : JsString) : Except ReadError ρ := do
  match ← figma.lookupNode id with
  | none => throw (.read .pageNotFound false)
  | some node =>
    if figma.isType node "PAGE" then figma.loadPageIfNeeded node
    else throw (.read .pageNotFound false)

/-- The roots of a list of ids, each of which must be there. -/
def resolveNodeIds : List JsString → DesignRoots ρ → Except ReadError (DesignRoots ρ)
  | [], found => .ok found
  | id :: ids, found => do
    match ← figma.lookupNode id with
    | none => throw (.read .nodeNotFound false)
    | some node =>
      match figma.visibilityOf node with
      | .renders =>
        let loaded ← figma.loadPageIfNeeded node
        resolveNodeIds ids { found with roots := found.roots ++ [loaded] }
      | .hidden => resolveNodeIds ids found
      | .undetermined =>
        resolveNodeIds ids { found with unresolved := recordUnresolved found.unresolved id }

/-- The roots that a selector names. -/
def resolveDesignRoots : Option Selector → Except ReadError (DesignRoots ρ)
  | none => .ok { roots := [figma.currentPage] }
  | some .selection => figma.selectRoots figma.selection {}
  | some (.nodeId id) => do
    match ← figma.lookupNode id with
    | none => throw (.read .nodeNotFound false)
    | some node =>
      match figma.visibilityOf node with
      | .hidden => return {}
      | .undetermined => return { unresolved := [{ id, error := nodeError .limitExceeded }] }
      | .renders => return { roots := [← figma.loadPageIfNeeded node] }
  | some (.nodeIds ids) => figma.resolveNodeIds ids {}
  | some (.pageId id) => return { roots := [← figma.loadExplicitPage id] }
  | some (.pageIds ids) => return { roots := ← ids.mapM figma.loadExplicitPage }

/-- The forest of the roots that a selector names. -/
def readDesignContext (input : GetDesignContextInput) (names : Names) :
    Except ReadError GetDesignContextResult := do
  let detail := defaultDetail input.detail
  let depth := defaultDepth input.depth
  let found ← figma.resolveDesignRoots input.selector
  let serialized ←
    figma.serializePreparedForest found.roots detail depth input.dedupeComponents names
  return {
    detail
    roots := serialized.nodes
    truncated := serialized.truncated
    truncation := serialized.truncation
    unresolved := found.unresolved }

/-! ## What the roots are -/

theorem serializePreparedForest_eq {roots : List ρ} {detail : DetailLevel} {depth : ℕ}
    {dedupeComponents : Bool} {names : Names} {forest : SerializedNodeForest}
    (h : figma.serializePreparedForest roots detail depth dedupeComponents names = .ok forest) :
    forest = figma.serializeNodeForest
      { detail, depth, dedupeComponents, names := names.forDetail detail } roots := by
  obtain ⟨-, -, h⟩ := Guard.bind_eq_ok.1 h
  exact (Except.ok.inj h).symm

theorem showable_append {found : List ρ} {node : ρ} (hfound : ∀ root ∈ found, figma.Showable root)
    (hnode : figma.Showable node) : ∀ root ∈ found ++ [node], figma.Showable root :=
  List.forall_mem_append.2 ⟨hfound, List.forall_mem_singleton.2 hnode⟩

theorem roots_selectRoots {ids : List JsString} {found r : DesignRoots ρ}
    (h : figma.selectRoots ids found = .ok r) (hfound : ∀ root ∈ found.roots, figma.Showable root) :
    ∀ root ∈ r.roots, figma.Showable root := by
  induction ids generalizing found with
  | nil => exact Except.ok.inj h ▸ hfound
  | cons id ids ih =>
      rw [selectRoots] at h
      obtain ⟨answer, -, h⟩ := Guard.bind_eq_ok.1 h
      cases answer with
      | none => exact ih h hfound
      | some node =>
          cases hverdict : figma.visibilityOf node with
          | renders =>
              simp only [hverdict] at h
              exact ih h (figma.showable_append hfound (Or.inl hverdict))
          | hidden | undetermined =>
              simp only [hverdict] at h
              exact ih h hfound

theorem roots_resolveNodeIds {ids : List JsString} {found r : DesignRoots ρ}
    (h : figma.resolveNodeIds ids found = .ok r) (hfound : ∀ root ∈ found.roots, figma.Showable root) :
    ∀ root ∈ r.roots, figma.Showable root := by
  induction ids generalizing found with
  | nil => exact Except.ok.inj h ▸ hfound
  | cons id ids ih =>
      rw [resolveNodeIds] at h
      obtain ⟨answer, -, h⟩ := Guard.bind_eq_ok.1 h
      cases answer with
      | none => cases h
      | some node =>
          cases hverdict : figma.visibilityOf node with
          | renders =>
              simp only [hverdict] at h
              obtain ⟨loaded, hloaded, hrest⟩ := Guard.bind_eq_ok.1 h
              obtain rfl := figma.loadPageIfNeeded_eq hloaded
              exact ih hrest (figma.showable_append hfound (Or.inl hverdict))
          | hidden | undetermined =>
              simp only [hverdict] at h
              exact ih h hfound

theorem showable_loadExplicitPage {id : JsString} {page : ρ}
    (h : figma.loadExplicitPage id = .ok page) : figma.Showable page := by
  obtain ⟨answer, -, h⟩ := Guard.bind_eq_ok.1 h
  cases answer with
  | none => cases h
  | some node =>
      dsimp only at h
      split_ifs at h with hpage
      obtain rfl := figma.loadPageIfNeeded_eq h
      exact Or.inr hpage

/-- **A root of a design context renders, or is a page.** -/
theorem roots_resolveDesignRoots {selector : Option Selector} {r : DesignRoots ρ}
    (h : figma.resolveDesignRoots selector = .ok r) : ∀ root ∈ r.roots, figma.Showable root := by
  cases selector with
  | none =>
      obtain rfl := Except.ok.inj h
      exact List.forall_mem_singleton.2 (Or.inr figma.currentPage_isPage)
  | some selector =>
      cases selector with
      | selection => exact figma.roots_selectRoots h (List.forall_mem_nil _)
      | nodeIds ids => exact figma.roots_resolveNodeIds h (List.forall_mem_nil _)
      | nodeId id =>
          obtain ⟨answer, -, h⟩ := Guard.bind_eq_ok.1 h
          cases answer with
          | none => cases h
          | some node =>
              cases hverdict : figma.visibilityOf node with
              | renders =>
                  simp only [hverdict] at h
                  obtain ⟨loaded, hloaded, hr⟩ := Guard.bind_eq_ok.1 h
                  obtain rfl := figma.loadPageIfNeeded_eq hloaded
                  obtain rfl := Except.ok.inj hr
                  exact List.forall_mem_singleton.2 (Or.inl hverdict)
              | hidden | undetermined =>
                  simp only [hverdict] at h
                  obtain rfl := Except.ok.inj h
                  exact List.forall_mem_nil _
      | pageId id =>
          obtain ⟨page, hpage, h⟩ := Guard.bind_eq_ok.1 h
          obtain rfl := Except.ok.inj h
          exact List.forall_mem_singleton.2 (figma.showable_loadExplicitPage hpage)
      | pageIds ids =>
          obtain ⟨pages, hpages, h⟩ := Guard.bind_eq_ok.1 h
          obtain rfl := Except.ok.inj h
          intro page hpage
          obtain ⟨id, -, hid⟩ := Guard.exists_of_mem_mapM hpages hpage
          exact figma.showable_loadExplicitPage hid

end Figma

end FigmaDevMcp

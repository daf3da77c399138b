import FigmaDevMcp.Lib.WeighedWalk
import FigmaDevMcp.Read.Completeness
import FigmaDevMcp.Read.Navigation

set_option autoImplicit false

/-!
# The nodes of a batch

`readNodes` serializes each id on limits of its own, while those who receive the batch count over
all of it.

* `share`: the nodes that one id puts into a batch, from the document alone;
* `nodeCount_readNodes`: a batch has the nodes of the shares of its ids;
* `nodeCount_readNodes_le_iff`: when a batch stays within the budget of its receivers.
-/

namespace FigmaDevMcp

/-- What both ends accept of the ids and the depth of `get_nodes`. -/
def GetNodesInput.Accepted (input : GetNodesInput) : Prop :=
  input.nodeIds.length ≤ maxInputIds ∧
    (∀ id ∈ input.nodeIds, id ≠ [] ∧ utf8ByteLength id ≤ maxIdentifierBytes) ∧
    ∀ depth ∈ input.depth, depth ≤ maxDepth

/-- The nodes of an item. -/
def ItemResult.nodeCount : ItemResult DesignNode → ℕ
  | .success value => forestCount [value]
  | .error _ => 0

/-- The nodes of a batch. -/
def GetNodesResult.nodeCount (result : GetNodesResult) : ℕ :=
  (result.items.map ItemResult.nodeCount).sum

namespace Host

variable {ρ : Type} [DecidableEq ρ] (host : Host ρ) (options : SerializeNodeForestOptions)

/-- Nothing is kept under a stub. -/
def StubsBare (k : Walk.Kept ρ) : Prop := k.stub = true → k.children = []

theorem stubsBare_walk {below level : ℕ} {ancestors : List JsString} {node : ρ}
    {s : Walk.State JsString} {k : Walk.Kept ρ}
    (h : (Walk.walk (host.scene options) options.limits.budget options.dedupeComponents below
      ancestors node s).1 = some k) : k.Forall (fun _ k => StubsBare k) level :=
  Walk.walk_forall (P := fun _ k => StubsBare k) (fun _ _ _ _ _ => rfl) (fun _ _ _ _ => nofun)
    (fun _ _ _ _ _ => nofun) (fun _ => nofun) (fun _ _ _ _ _ _ _ _ => nofun) rfl h

mutual

/-- There is one record for each kept node. -/
theorem length_levels_decorate (level : ℕ) : ∀ k : Walk.Kept ρ,
    k.Forall (fun _ k => StubsBare k) level →
      ((host.decorate options k).levels level).length = k.items.length
  | .mk node true cut children, h => by
    obtain rfl : children = [] := h.1 rfl
    rfl
  | .mk node false cut children, h => by
    show (forestLevels (level + 1) (host.decorateAll options children)).length + 1 =
      (Walk.Kept.itemsAll children).length + 1
    rw [length_forestLevels_decorate (level + 1) children h.2]

theorem length_forestLevels_decorate (level : ℕ) : ∀ ks : List (Walk.Kept ρ),
    Walk.Kept.ForallAll (fun _ k => StubsBare k) level ks →
      (forestLevels level (host.decorateAll options ks)).length =
        (Walk.Kept.itemsAll ks).length
  | [], _ => rfl
  | k :: ks, h => by
    show ((host.decorate options k).levels level ++
        forestLevels level (host.decorateAll options ks)).length =
      (k.items ++ Walk.Kept.itemsAll ks).length
    rw [List.length_append, List.length_append, length_levels_decorate level k h.1,
      length_forestLevels_decorate level ks h.2]

end

/-- The nodes of the visible subtree that the budgets of one read admit: down to the depth, no
more than their number and the text of their records allow. -/
def admitted (node : ρ) : ℕ :=
  min options.limits.returnedNodes
    (Walk.weighed (Walk.weigh (host.scene options) options.limits.encodedBytes
      options.appliedDepth [] node 0))

theorem forestCount_serializeNodeForest (hdedupe : options.dedupeComponents = false)
    (hvisits : 2 * options.limits.returnedNodes ≤ options.limits.visitedNodes) (node : ρ) :
    forestCount (host.serializeNodeForest options [node]).nodes = host.admitted options node := by
  rw [nodes_serializeNodeForest, forestCount, length_forestLevels_decorate]
  · rw [forestRow, Walk.length_itemsAll_singleton, hdedupe]
    exact Walk.keptCount_walk hvisits options.appliedDepth [] node
  · exact Walk.walkAll_forall (fun _ _ _ hk => host.stubsBare_walk options hk) [node] {}

/-- The forest of one root has at most one tree. -/
theorem nodes_singleton (node : ρ) :
    (host.serializeNodeForest options [node]).nodes = [] ∨
      ∃ value, (host.serializeNodeForest options [node]).nodes = [value] := by
  have hlength := (host.forestRow_prefix options [node]).1.length_le
  rw [nodes_serializeNodeForest, decorateAll_eq_map]
  rw [List.length_map] at hlength
  rcases hkept : (host.forestRow options [node]).kept with _ | ⟨k, _ | ⟨j, ks⟩⟩
  · exact Or.inl rfl
  · exact Or.inr ⟨_, rfl⟩
  · rw [hkept] at hlength
    exact absurd hlength (by simp)

end Host

namespace Figma

variable {ρ : Type} [DecidableEq ρ] (figma : Figma ρ)

/-- The pages that a read of the node loads do load. -/
def loads (node : ρ) : Bool :=
  (figma.loadPageIfNeeded node).isOk && (figma.loadDocumentPages [node]).isOk

/-- The nodes that one id puts into a batch. -/
def share (detail : DetailLevel) (depth : ℕ) (names : Names) (id : JsString) : ℕ :=
  match figma.lookupNode id with
  | .ok (some node) =>
    if figma.visibilityOf node = .renders ∧ figma.loads node = true then
      figma.admitted
        { detail, depth, dedupeComponents := false, names := names.forDetail detail } node
    else 0
  | _ => 0

theorem readForest_eq {node : ρ} (h : figma.loads node = true) {detail : DetailLevel} {depth : ℕ}
    {names : Names} :
    (do
      let loaded ← figma.loadPageIfNeeded node
      figma.serializePreparedForest [loaded] detail depth false names) =
      .ok (figma.serializeNodeForest
        { detail, depth, dedupeComponents := false, names := names.forDetail detail } [node]) := by
  rw [loads, Bool.and_eq_true] at h
  cases hload : figma.loadPageIfNeeded node with
  | error e => rw [hload] at h; cases h.1
  | ok loaded =>
      obtain rfl := figma.loadPageIfNeeded_eq hload
      cases hpages : figma.loadDocumentPages [loaded] with
      | error e => rw [hpages] at h; cases h.2
      | ok _ =>
          show figma.serializePreparedForest [loaded] detail depth false names = _
          rw [serializePreparedForest, hpages]
          rfl

theorem readForest_error {node : ρ} (h : figma.loads node = false) {detail : DetailLevel}
    {depth : ℕ} {names : Names} :
    ∃ e, (do
      let loaded ← figma.loadPageIfNeeded node
      figma.serializePreparedForest [loaded] detail depth false names) = .error e := by
  cases hload : figma.loadPageIfNeeded node with
  | error e => exact ⟨e, rfl⟩
  | ok loaded =>
      obtain rfl := figma.loadPageIfNeeded_eq hload
      cases hpages : figma.loadDocumentPages [loaded] with
      | ok _ =>
          rw [loads, hload, hpages] at h
          cases h
      | error e =>
          refine ⟨e, ?_⟩
          show figma.serializePreparedForest [loaded] detail depth false names = _
          rw [serializePreparedForest, hpages]
          rfl

theorem nodeCount_serialized {host : Host ρ} (options : SerializeNodeForestOptions)
    (hdedupe : options.dedupeComponents = false)
    (hvisits : 2 * options.limits.returnedNodes ≤ options.limits.visitedNodes) (node : ρ) :
    (match (host.serializeNodeForest options [node]).nodes with
      | [] => (ItemResult.error (nodeError .internalError), none)
      | value :: _ =>
        (ItemResult.success value, (host.serializeNodeForest options [node]).truncation)).1.nodeCount =
      host.admitted options node := by
  rw [← host.forestCount_serializeNodeForest options hdedupe hvisits]
  rcases host.nodes_singleton options node with h | ⟨value, h⟩
  · rw [h]
    rfl
  · rw [h]
    rfl

theorem nodeCount_readNode (detail : DetailLevel) (depth : ℕ) (names : Names) (id : JsString) :
    (figma.readNode detail depth names id).1.nodeCount = figma.share detail depth names id := by
  unfold readNode share
  cases hlookup : figma.lookupNode id with
  | error e => rfl
  | ok answer =>
      cases answer with
      | none => rfl
      | some node =>
          dsimp only
          cases hverdict : figma.visibilityOf node with
          | hidden | undetermined => simp [ItemResult.nodeCount]
          | renders =>
              simp only [true_and]
              cases hloads : figma.loads node with
              | false =>
                  obtain ⟨e, he⟩ := figma.readForest_error hloads
                  rw [he]
                  rfl
              | true =>
                  rw [figma.readForest_eq hloads, if_pos rfl]
                  exact nodeCount_serialized _ rfl (show 2 * maxReturnedNodes ≤ maxVisitedNodes by decide) node

/-- The nodes of a batch are those of the shares of its ids. -/
theorem nodeCount_readNodes (input : GetNodesInput) (names : ℕ → Names) :
    (figma.readNodes input names).nodeCount =
      (input.nodeIds.mapIdx fun index id =>
        figma.share (defaultDetail input.detail) (defaultDepth input.depth) (names index) id).sum := by
  rw [GetNodesResult.nodeCount, readNodes, List.map_map]
  congr 1
  refine List.ext_getElem (by simp) fun index _ _ => ?_
  simp only [List.getElem_map, List.getElem_mapIdx, Function.comp_apply]
  exact figma.nodeCount_readNode _ _ _ _

/-- **When a batch stays within the budget of those who receive it.** -/
theorem nodeCount_readNodes_le_iff (input : GetNodesInput) (names : ℕ → Names) :
    (figma.readNodes input names).nodeCount ≤ maxReturnedNodes ↔
      (input.nodeIds.mapIdx fun index id =>
        figma.share (defaultDetail input.detail) (defaultDepth input.depth) (names index)
          id).sum ≤ maxReturnedNodes := by
  rw [nodeCount_readNodes]

theorem share_framed (id : JsString) : framed.share .minimal 1 {} id = 2 := by
  have hlookup : framed.lookupNode id = .ok (some 0) := rfl
  have hrenders : framed.visibilityOf 0 = .renders := by decide +kernel
  have hloads : framed.loads 0 = true := by decide +kernel
  rw [share, hlookup]
  dsimp only
  rw [if_pos ⟨hrenders, hloads⟩]
  decide +kernel

theorem sum_mapIdx_const (ids : List JsString) (n : ℕ) :
    (ids.mapIdx fun _ _ => n).sum = ids.length * n := by
  induction ids with
  | nil => rw [List.mapIdx_nil, List.length_nil, Nat.zero_mul, List.sum_nil]
  | cons id ids ih => rw [List.mapIdx_cons, List.sum_cons, ih, List.length_cons, Nat.add_one_mul, Nat.add_comm]

/-- The frame with its layer, `n` times. -/
def frames (n : ℕ) : GetNodesInput :=
  { nodeIds := List.replicate n [0x30], detail := some .minimal, depth := some 1 }

theorem accepted_frames {n : ℕ} (h : n ≤ maxInputIds) : (frames n).Accepted := by
  refine ⟨(List.length_replicate (n := n)).trans_le h, fun id hid => ?_, fun depth hdepth => ?_⟩
  · rw [(List.mem_replicate.1 hid).2]
    decide
  · obtain rfl : 1 = depth := Option.some.inj hdepth
    decide

theorem nodeCount_frames (n : ℕ) :
    (framed.readNodes (frames n) fun _ => {}).nodeCount = n * 2 := by
  have hshare : ∀ id, framed.share (defaultDetail (frames n).detail) (defaultDepth (frames n).depth) {} id = 2 :=
    share_framed
  rw [nodeCount_readNodes]
  simp only [hshare, sum_mapIdx_const]
  exact congrArg (· * 2) (List.length_replicate ..)

/-- A thousand and one times the frame are two thousand and two nodes. -/
theorem readNodes_over_budget :
    ∃ input : GetNodesInput, input.Accepted ∧
      ¬ (framed.readNodes input fun _ => {}).nodeCount ≤ maxReturnedNodes := by
  have hover : ¬ (framed.readNodes (frames 1001) fun _ => {}).nodeCount ≤ maxReturnedNodes := by
    rw [nodeCount_frames, maxReturnedNodes]
    omega
  exact ⟨frames 1001, accepted_frames (by rw [maxInputIds]; omega), hover⟩

end Figma

end FigmaDevMcp

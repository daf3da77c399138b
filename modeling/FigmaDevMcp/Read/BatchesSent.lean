import FigmaDevMcp.Read.BatchBudget
import FigmaDevMcp.Read.ForestsSent
import FigmaDevMcp.Shared.VariablesResult
import FigmaDevMcp.Tools.TextBudget

set_option autoImplicit false

/-!
# Batches that are sent

Which answers to `get_nodes` the validator of the plugin lets through. It asks of each item what it
asks of a forest, and counts the nodes of all of them.

* `ItemResult.toJs`, `batchForest`: an item as it is sent, and the trees of a batch;
* `parseNodeBatch_isOk`: which batches of records are accepted;
* `ShareFits`: what the document has to keep to at one id;
* **`readNodes_accepted_iff`**: which batches are sent.
-/

namespace FigmaDevMcp

open JsValue SharedBudget

/-- An item of a batch, as it is sent. -/
def ItemResult.toJs : ItemResult DesignNode → JsValue
  | .success value => .object (member "status" (word "success") ++ member "value" value.toJs)
  | .error e => .object (member "status" (word "error") ++ member "error" (nodeErrorToJs e))

/-- The tree of an item that has one. -/
def ItemResult.value : ItemResult DesignNode → Option DesignNode
  | .success value => some value
  | .error _ => none

/-- The trees of a batch. -/
def batchForest (items : List (ItemResult DesignNode)) : List DesignNode :=
  items.filterMap ItemResult.value

theorem forestCount_append (l r : List DesignNode) :
    forestCount (l ++ r) = forestCount l + forestCount r := by
  induction l with
  | nil => exact (Nat.zero_add _).symm
  | cons node l ih =>
      simp only [forestCount, List.cons_append, forestLevels, List.length_append] at ih ⊢
      omega

theorem forestCount_batchForest (items : List (ItemResult DesignNode)) :
    forestCount (batchForest items) = (items.map ItemResult.nodeCount).sum := by
  induction items with
  | nil => rfl
  | cons item items ih =>
      rw [List.map_cons, List.sum_cons, ← ih]
      cases item with
      | success value => exact forestCount_append [value] (batchForest items)
      | error e => exact (Nat.zero_add _).symm

theorem mem_forestLevels_batchForest {p : ℕ × DesignNode} {items : List (ItemResult DesignNode)} :
    p ∈ forestLevels 0 (batchForest items) ↔ ∃ item ∈ items, p ∈ forestLevels 0 (batchForest [item]) := by
  induction items with
  | nil => simp [batchForest, forestLevels]
  | cons item items ih =>
      rw [List.exists_mem_cons_iff, ← ih]
      cases item with
      | success value =>
          have hone : forestLevels 0 (batchForest [.success value]) = value.levels 0 := List.append_nil _
          rw [hone]
          exact List.mem_append
      | error e => exact (or_iff_right List.not_mem_nil).symm

namespace ResultValidation

/-! ## One item -/

theorem parseToolError_nodeErrorToJs (e : ToolError) (label : JsString) :
    (parseToolError (nodeErrorToJs e) label).isOk = true := by
  have hexact : Exactly (member "code" (word (Protocol.errorCodeWord e.code)) ++
      member "message" (word (Protocol.canonicalMessage e.code)) ++
      member "retryable" (.bool e.retryable)) ["code", "message", "retryable"] ["items"] :=
    exactly_of (K := ["code", "message", "retryable"]) (by simp [member]) (by simp) (by simp)
  have hmessage : canonical e.code (text (Protocol.canonicalMessage e.code)) label = .ok ⟨⟩ :=
    if_neg (not_not_intro rfl)
  rw [parseToolError, nodeErrorToJs, isOk_exact_bind hexact]
  simp [lookup_append, Plugin.lookup_member, errorCode_word, word, string_string, hmessage,
    boolean_bool, optionalMember, Guard.ok_bind]
  rfl

theorem field_pair {key : String} (name : String) (value : JsValue) (h : "status" ≠ key) :
    (JsValue.object (member "status" (word name) ++ member key value)).field "status" = word name ∧
      (JsValue.object (member "status" (word name) ++ member key value)).field key = value := by
  simp [lookup_append, Plugin.lookup_member, h]

theorem exactly_pair (key name : String) (value : JsValue) :
    Exactly (member "status" (word name) ++ member key value) ["status", key] [] := by
  refine ⟨Known.append (known_member (by simp)) (known_member (by simp)), ?_⟩
  simp [lookup_append, Plugin.lookup_member]

theorem parsesItem_success {detail : DetailLevel} {label : JsString} {value : DesignNode}
    {item : ParsedItem (NodeTree JsValue JsValue JsValue)} :
    ParsesItem (parseNodeData detail) (label, (ItemResult.success value).toJs) item ↔
      ∃ tree, item = .success tree ∧
        Parses (parseNodeData detail) (dot label "value", value.toJs) tree := by
  obtain ⟨hstatus, hvalue⟩ := field_pair "success" value.toJs (by decide : "status" ≠ "value")
  constructor
  · intro h
    cases h with
    | success _ _ h => exact ⟨_, rfl, hvalue ▸ h⟩
    | error h =>
        rw [ItemResult.toJs, hstatus] at h
        exact absurd h (by decide)
  · rintro ⟨tree, rfl, htree⟩
    refine .success (hstatus ▸ by decide) (exact_object (exactly_pair _ _ _)) ?_
    rw [ItemResult.toJs, hvalue]
    exact htree

theorem parsesItem_error {detail : DetailLevel} {label : JsString} {e : ToolError}
    {item : ParsedItem (NodeTree JsValue JsValue JsValue)} :
    ParsesItem (parseNodeData detail) (label, (ItemResult.error e).toJs) item ↔
      ∃ value, item = .error value ∧
        parseToolError (nodeErrorToJs e) (dot label "error") = .ok value := by
  obtain ⟨hstatus, hvalue⟩ := field_pair "error" (nodeErrorToJs e) (by decide : "status" ≠ "error")
  constructor
  · intro h
    cases h with
    | success h =>
        rw [ItemResult.toJs, hstatus] at h
        exact absurd h (by decide)
    | error _ _ h => exact ⟨_, rfl, hvalue ▸ h⟩
  · rintro ⟨value, rfl, hparsed⟩
    refine .error (hstatus ▸ by decide) (exact_object (exactly_pair _ _ _)) ?_
    rw [ItemResult.toJs, hvalue]
    exact hparsed

/-! ## The items of a batch -/

section Batches

variable {detail : DetailLevel}

/-- The trees of a batch that is parsed have the shapes of its records, which all fit. -/
theorem fits_of_forall₂_parsesItem : ∀ (items : List (ItemResult DesignNode))
    (labels : List (JsString × JsValue)) (batch : List (ParsedItem (NodeTree JsValue JsValue JsValue))),
    labels.map Prod.snd = items.map ItemResult.toJs →
      (∀ p ∈ forestLevels 0 (batchForest items), p.2.data.detail = detail) →
        List.Forall₂ (ParsesItem (parseNodeData detail)) labels batch →
          Rose.forestShape (batch.filterMap ParsedItem.value) = forestShape (batchForest items) ∧
            ∀ p ∈ forestLevels 0 (batchForest items), p.2.Fits
  | [], labels, batch, hlabels, _, h => by
    obtain rfl := List.map_eq_nil_iff.1 hlabels
    cases h
    exact ⟨rfl, List.forall_mem_nil _⟩
  | .success value :: items, labels, batch, hlabels, hdetail, h => by
    obtain ⟨⟨label, sent⟩, others, rfl, rfl, hothers⟩ := List.map_eq_cons_iff.1 hlabels
    have hdetail : ∀ p ∈ value.levels 0 ++ forestLevels 0 (batchForest items),
      p.2.data.detail = detail := hdetail
    rw [List.forall_mem_append] at hdetail
    cases h with
    | cons hitem hrest =>
        obtain ⟨tree, rfl, htree⟩ := parsesItem_success.1 hitem
        obtain ⟨hshape, hfits⟩ := fits_of_parses 0 value _ tree hdetail.1 htree
        obtain ⟨hshapes, hall⟩ := fits_of_forall₂_parsesItem items others _ hothers hdetail.2 hrest
        refine ⟨?_, List.forall_mem_append.2 ⟨hfits, hall⟩⟩
        exact congrArg₂ List.cons hshape hshapes
  | .error e :: items, labels, batch, hlabels, hdetail, h => by
    obtain ⟨⟨label, sent⟩, others, rfl, rfl, hothers⟩ := List.map_eq_cons_iff.1 hlabels
    cases h with
    | @cons _ _ _ batch hitem hrest =>
        obtain ⟨value, rfl, -⟩ := parsesItem_error.1 hitem
        exact fits_of_forall₂_parsesItem items others batch hothers hdetail hrest

theorem exists_forall₂_parsesItem : ∀ (items : List (ItemResult DesignNode))
    (labels : List (JsString × JsValue)), labels.map Prod.snd = items.map ItemResult.toJs →
      (∀ p ∈ forestLevels 0 (batchForest items), p.2.data.detail = detail) →
        (∀ p ∈ forestLevels 0 (batchForest items), p.2.Fits) →
          ∃ batch, List.Forall₂ (ParsesItem (parseNodeData detail)) labels batch
  | [], labels, hlabels, _, _ => by
    obtain rfl := List.map_eq_nil_iff.1 hlabels
    exact ⟨[], .nil⟩
  | .success value :: items, labels, hlabels, hdetail, hfits => by
    obtain ⟨⟨label, sent⟩, others, rfl, rfl, hothers⟩ := List.map_eq_cons_iff.1 hlabels
    have hdetail : ∀ p ∈ value.levels 0 ++ forestLevels 0 (batchForest items),
      p.2.data.detail = detail := hdetail
    have hfits : ∀ p ∈ value.levels 0 ++ forestLevels 0 (batchForest items), p.2.Fits := hfits
    rw [List.forall_mem_append] at hdetail hfits
    obtain ⟨tree, htree⟩ := exists_parses 0 value (dot label "value") hdetail.1 hfits.1
    obtain ⟨batch, hbatch⟩ := exists_forall₂_parsesItem items others hothers hdetail.2 hfits.2
    exact ⟨.success tree :: batch, .cons (parsesItem_success.2 ⟨tree, rfl, htree⟩) hbatch⟩
  | .error e :: items, labels, hlabels, hdetail, hfits => by
    obtain ⟨⟨label, sent⟩, others, rfl, rfl, hothers⟩ := List.map_eq_cons_iff.1 hlabels
    obtain ⟨value, hvalue⟩ := isOk_iff.1 (parseToolError_nodeErrorToJs e (dot label "error"))
    obtain ⟨batch, hbatch⟩ := exists_forall₂_parsesItem items others hothers hdetail hfits
    exact ⟨.error value :: batch, .cons (parsesItem_error.2 ⟨value, rfl, hvalue⟩) hbatch⟩

/-- **Which batches of records are accepted.** -/
theorem parseNodeBatch_isOk {items : List (ItemResult DesignNode)}
    (hdetail : ∀ p ∈ forestLevels 0 (batchForest items), p.2.data.detail = detail) (label : JsString) :
    (parseNodeBatch (parseNodeData detail) (.array (items.map ItemResult.toJs)) label).isOk = true ↔
      items.length ≤ maxInputIds ∧
        (∀ p ∈ forestLevels 0 (batchForest items), p.1 ≤ maxDepth ∧ p.2.Fits) ∧
          (items.map ItemResult.nodeCount).sum ≤ maxReturnedNodes := by
  have hsnd := map_snd_labelled label (items.map ItemResult.toJs)
  have hwithin : ∀ batch : List (ParsedItem (NodeTree JsValue JsValue JsValue)),
      Rose.forestShape (batch.filterMap ParsedItem.value) = forestShape (batchForest items) →
        (FitsResult (batch.filterMap ParsedItem.value) ↔ FitsResult (forestShape (batchForest items))) := by
    intro batch hshape
    rw [FitsResult, FitsResult, Rose.Within, ← Rose.forestLevels_shape, ← Rose.forestCount_shape,
      hshape, Rose.Within]
  rw [isOk_iff, ← forestCount_batchForest]
  constructor
  · rintro ⟨batch, h⟩
    obtain ⟨hlength, hbatch, hresult⟩ := parseNodeBatch_eq_ok.1 h
    obtain ⟨hshape, hfits⟩ := fits_of_forall₂_parsesItem items _ batch hsnd hdetail hbatch
    obtain ⟨hlevels, hcount⟩ := (fitsResult_shape _).1 ((hwithin batch hshape).1 hresult)
    rw [List.length_map] at hlength
    exact ⟨hlength, fun p hp => ⟨hlevels p hp, hfits p hp⟩, hcount⟩
  · rintro ⟨hlength, hall, hcount⟩
    obtain ⟨batch, hbatch⟩ :=
      exists_forall₂_parsesItem items _ hsnd hdetail fun p hp => (hall p hp).2
    have hshape := (fits_of_forall₂_parsesItem items _ batch hsnd hdetail hbatch).1
    refine ⟨batch, parseNodeBatch_eq_ok.2 ⟨?_, hbatch, (hwithin batch hshape).2 ?_⟩⟩
    · rwa [List.length_map]
    · exact (fitsResult_shape _).2 ⟨fun p hp => (hall p hp).1, hcount⟩

end Batches

end ResultValidation

/-! ## The batch of a read -/

namespace Host

variable {ρ : Type} [DecidableEq ρ] {host : Host ρ}

theorem batchForest_serialized (options : SerializeNodeForestOptions) (node : ρ) :
    batchForest [(match (host.serializeNodeForest options [node]).nodes with
      | [] => (ItemResult.error (nodeError .internalError), none)
      | value :: _ =>
        (ItemResult.success value, (host.serializeNodeForest options [node]).truncation)).1] =
      (host.serializeNodeForest options [node]).nodes := by
  rcases host.nodes_singleton options node with h | ⟨value, h⟩
  · rw [h]
    rfl
  · rw [h]
    rfl

end Host

namespace Figma

variable {ρ : Type} [DecidableEq ρ] (figma : Figma ρ)

/-- What each id of a batch is serialized with. -/
abbrev shareOptions (detail : DetailLevel) (depth : ℕ) (names : Names) : SerializeNodeForestOptions :=
  { detail, depth, dedupeComponents := false, names := names.forDetail detail }

/-- The node that an id is read from, where there is one that renders and loads. -/
def Reads (id : JsString) (node : ρ) : Prop :=
  figma.lookupNode id = .ok (some node) ∧ figma.visibilityOf node = .renders ∧
    figma.loads node = true

/-- What the validator bounds of the forest that one id is read to. -/
def ShareFits (detail : DetailLevel) (depth : ℕ) (names : Names) (id : JsString) : Prop :=
  ∀ node, figma.Reads id node →
    Walk.Kept.ForallAll (fun _ k => figma.RecordFits (shareOptions detail depth names) k) 0
      (figma.forestRow (shareOptions detail depth names) [node]).kept

/-- What one id is read to: an error, or the forest of its node. -/
theorem readNode_cases (detail : DetailLevel) (depth : ℕ) (names : Names) (id : JsString) :
    (∃ node, figma.Reads id node ∧ batchForest [(figma.readNode detail depth names id).1] =
        (figma.serializeNodeForest (shareOptions detail depth names) [node]).nodes) ∨
      (∀ node, ¬ figma.Reads id node) ∧ batchForest [(figma.readNode detail depth names id).1] = [] := by
  unfold readNode Reads
  cases hlookup : figma.lookupNode id with
  | error e => exact Or.inr ⟨by simp, rfl⟩
  | ok answer =>
      cases answer with
      | none => exact Or.inr ⟨by simp, rfl⟩
      | some node =>
          dsimp only
          cases hverdict : figma.visibilityOf node with
          | hidden => exact Or.inr ⟨by simp [hverdict], rfl⟩
          | undetermined => exact Or.inr ⟨by simp [hverdict], rfl⟩
          | renders =>
              cases hloads : figma.loads node with
              | false =>
                  obtain ⟨e, he⟩ := figma.readForest_error hloads
                  rw [he]
                  exact Or.inr ⟨by simp [hloads], rfl⟩
              | true =>
                  rw [figma.readForest_eq hloads]
                  exact Or.inl ⟨node, ⟨rfl, hverdict, hloads⟩,
                    Host.batchForest_serialized (shareOptions detail depth names) node⟩

theorem items_readNodes (input : GetNodesInput) (names : ℕ → Names) :
    (figma.readNodes input names).items = input.nodeIds.mapIdx fun index id =>
      (figma.readNode (defaultDetail input.detail) (defaultDepth input.depth) (names index) id).1 := by
  rw [readNodes]
  exact List.ext_getElem (by simp) fun index _ _ => by
    rw [List.getElem_map, List.getElem_mapIdx, List.getElem_mapIdx]

theorem detail_readNode {detail : DetailLevel} {depth : ℕ} {names : Names} {id : JsString} :
    ∀ p ∈ forestLevels 0 (batchForest [(figma.readNode detail depth names id).1]),
      p.2.data.detail = detail := by
  rcases figma.readNode_cases detail depth names id with ⟨node, -, hforest⟩ | ⟨-, hforest⟩
  · rw [hforest]
    exact figma.detail_serializeNodeForest (shareOptions detail depth names) [node]
  · rw [hforest]
    exact List.forall_mem_nil _

theorem fits_readNode (h : figma.Identifiable) {detail : DetailLevel} {depth : ℕ}
    (hdepth : depth ≤ maxDepth) {names : Names} {id : JsString} :
    (∀ p ∈ forestLevels 0 (batchForest [(figma.readNode detail depth names id).1]),
        p.1 ≤ maxDepth ∧ p.2.Fits) ↔ figma.ShareFits detail depth names id := by
  rcases figma.readNode_cases detail depth names id with ⟨node, hreads, hforest⟩ | ⟨hreads, hforest⟩
  · have hdepth : (shareOptions detail depth names).depth ≤ maxDepth := Int.ofNat_le.2 hdepth
    rw [hforest, figma.levels_serializeNodeForest_iff _ h hdepth]
    constructor
    · intro hfits other hother
      obtain rfl : node = other :=
        Option.some.inj (Except.ok.inj (hreads.1.symm.trans hother.1))
      exact hfits
    · exact fun hfits => hfits node hreads
  · rw [hforest]
    exact iff_of_true (List.forall_mem_nil _) fun node hnode => absurd hnode (hreads node)

/-- **Which batches are sent**: those whose forests have records within the bounds, and no more nodes
than a result may have. -/
theorem readNodes_accepted_iff (h : figma.Identifiable) {input : GetNodesInput}
    (haccepted : input.Accepted) (names : ℕ → Names) (label : JsString) :
    (ResultValidation.parseNodeBatch
        (ResultValidation.parseNodeData (defaultDetail input.detail))
        (.array ((figma.readNodes input names).items.map ItemResult.toJs)) label).isOk = true ↔
      (∀ i id, input.nodeIds[i]? = some id →
        figma.ShareFits (defaultDetail input.detail) (defaultDepth input.depth) (names i) id) ∧
      (input.nodeIds.mapIdx fun index id =>
        figma.share (defaultDetail input.detail) (defaultDepth input.depth) (names index)
          id).sum ≤ maxReturnedNodes := by
  have hdepth : defaultDepth input.depth ≤ maxDepth := Nat.min_le_right _ _
  have hitems := figma.items_readNodes input names
  have hdetail : ∀ p ∈ forestLevels 0 (batchForest (figma.readNodes input names).items),
      p.2.data.detail = defaultDetail input.detail := by
    intro p hp
    obtain ⟨item, hitem, hp⟩ := mem_forestLevels_batchForest.1 hp
    rw [hitems] at hitem
    obtain ⟨index, hindex, rfl⟩ := List.mem_mapIdx.1 hitem
    exact figma.detail_readNode p hp
  have hlength : (figma.readNodes input names).items.length ≤ maxInputIds := by
    rw [hitems, List.length_mapIdx]
    exact haccepted.1
  rw [ResultValidation.parseNodeBatch_isOk hdetail, and_iff_right hlength,
    ← figma.nodeCount_readNodes input names]
  refine and_congr_left' ?_
  constructor
  · intro hall index id hid
    refine (figma.fits_readNode h hdepth).1 fun p hp => hall p (mem_forestLevels_batchForest.2 ⟨_, ?_, hp⟩)
    rw [hitems]
    exact List.mem_iff_getElem?.2 ⟨index, by rw [List.getElem?_mapIdx, hid]; rfl⟩
  · intro hall p hp
    obtain ⟨item, hitem, hp⟩ := mem_forestLevels_batchForest.1 hp
    rw [hitems] at hitem
    obtain ⟨index, hindex, rfl⟩ := List.mem_mapIdx.1 hitem
    exact (figma.fits_readNode h hdepth).2 (hall index _ (List.getElem?_eq_getElem hindex)) p hp

end Figma

end FigmaDevMcp

import FigmaDevMcp.Read.ByteBudget
import FigmaDevMcp.Shared.ForestsAccepted

set_option autoImplicit false

/-!
# Forests that are sent

The validator bounds what the serializer copies from the host as it is: names, lists of children,
paints, properties. Nothing else that the serializer makes can be refused.

* `Host.DataFits`: the properties of a node that the validator bounds, at a level of detail;
* `nodeData_fits`: the data of a node is accepted when they are within the bounds;
* `Host.RecordFits`: the same of a kept node with its name, its children and its cut;
* `levels_serializeNodeForest_iff`: which forests have records within the bounds;
* `serializeNodeForest_accepted_iff`: **which serialized forests are accepted**;
* `serializeNodeForest_parses_iff`: the same, whatever the limits of the read.
-/

namespace FigmaDevMcp

open JsValue

/-! ## Names that are cut short -/

theorem utf8ByteLength_le (s : JsString) : utf8ByteLength s ≤ 3 * s.length := by
  induction s using utf8ByteLength.induct with
  | case1 code next rest h ih =>
      rw [utf8ByteLength, if_pos h, List.length_cons]
      omega
  | case2 code next rest h h' ih =>
      rw [utf8ByteLength, if_neg h, if_pos h', List.length_cons]
      omega
  | case3 code next rest h h' hpair ih =>
      rw [utf8ByteLength, if_neg h, if_neg h', if_pos hpair, List.length_cons, List.length_cons]
      omega
  | case4 code next rest h h' hpair ih =>
      rw [utf8ByteLength, if_neg h, if_neg h', if_neg hpair, List.length_cons]
      omega
  | case5 code h => simp [utf8ByteLength, h]
  | case6 code h h' => simp [utf8ByteLength, h, h']
  | case7 code h h' => simp [utf8ByteLength, h, h']
  | case8 => exact Nat.zero_le _

theorem length_clampText (s : JsString) (limit : ℕ) : (clampText s limit).length ≤ limit := by
  have htake : (s.take limit).length ≤ limit := List.length_take_le limit s
  rw [clampText]
  split_ifs with hshort
  · exact hshort
  · split
    · split_ifs
      · rw [List.length_dropLast]
        omega
      · exact htake
    · exact htake

/-- A name that has been cut short may be shown. -/
theorem clampText_fits (s : JsString) : utf8ByteLength (clampText s) ≤ maxDisplayTextBytes := by
  have hlength : (clampText s).length ≤ 256 := length_clampText s textClampLimit
  refine (utf8ByteLength_le (clampText s)).trans ?_
  rw [maxDisplayTextBytes]
  omega

namespace Host

variable {ρ : Type} (host : Host ρ)

/-- Every node says who it is, in a text that the protocol can carry. -/
structure Identifiable : Prop where
  id : ∀ node, Plugin.IsIdentifier (host.id node)
  nodeType : ∀ node, Plugin.IsIdentifier (string (host.get node "type"))

/-- What the validator bounds of the properties of a node. -/
structure DataFits (detail : DetailLevel) (names : Names) (node : ρ) : Prop where
  variableIds : detail ≠ .minimal → (host.variableIdsOf node).length ≤ maxReturnedNodes
  inst : detail ≠ .minimal → ∀ c ∈ host.instanceValue node names.instanceIdentities, c.Fits
  characters : detail = .compact → host.isType node "TEXT" = true →
    (string (host.get node "characters")).length ≤ ResultValidation.maxSafeInteger
  fills : detail = .full → PaintsFit (paints (host.get node "fills"))
  effects : detail = .full → (effects (host.get node "effects")).length ≤ maxReturnedNodes
  strokes : detail = .full → ∀ s ∈ host.strokes node, s.Fits
  ranges : detail = .full → host.isType node "TEXT" = true →
    (host.getStyledRanges node).length ≤ maxReturnedNodes ∧
      ∀ r ∈ host.getStyledRanges node, r.Fits

/-! ## The data of a node -/

section Data

variable {node : ρ} {names : Names} {detail : DetailLevel}

theorem styleReferences_fits (node : ρ) (names : JsString → Option JsString) :
    (host.styleReferences node names).length ≤ maxReturnedNodes ∧
      ∀ r ∈ host.styleReferences node names, r.Fits := by
  constructor
  · refine (List.length_filterMap_le ..).trans ?_
    decide
  · intro r hr name hname
    obtain ⟨entry, -, hentry⟩ := List.mem_filterMap.1 hr
    obtain ⟨id, -, rfl⟩ := Option.map_eq_some_iff.1 hentry
    obtain ⟨long, -, rfl⟩ := Option.map_eq_some_iff.1 (Option.mem_def.1 hname)
    exact clampText_fits long

theorem references_fit_iff :
    ReferencesFit (host.styleReferences node names.styleNames)
        (host.variableReferences node names.variableNames) ↔
      (host.variableIdsOf node).length ≤ maxReturnedNodes := by
  have hlength : (host.variableReferences node names.variableNames).length =
      (host.variableIdsOf node).length := List.length_map _
  have hstyles := host.styleReferences_fits node names.styleNames
  constructor
  · intro h
    rw [← hlength]
    exact h.variableCount
  · intro h
    exact ⟨hstyles.1, hlength.trans_le h, hstyles.2⟩

/-- A component that is known by its id alone. -/
theorem ComponentValue.fits_of_id {id : JsString} (h : Plugin.IsIdentifier id) :
    (({ componentId := id, properties := [] } : ComponentValue)).Fits :=
  ⟨h, Nat.zero_le _, by simp⟩

theorem componentValue_fits (hid : Plugin.IsIdentifier (host.id node)) :
    ∀ c ∈ host.componentValue node, c.Fits := by
  intro c hc
  rw [componentValue, Option.mem_def] at hc
  split_ifs at hc
  rw [← Option.some.inj hc]
  exact ComponentValue.fits_of_id hid

theorem compactData_fits (hid : Plugin.IsIdentifier (host.id node)) :
    (host.compactData names node).Fits ↔ host.DataFits .compact names node := by
  have hreferences : ReferencesFit (host.styleReferences node names.styleNames)
      (host.variableReferences node names.variableNames) ↔
        (host.variableIdsOf node).length ≤ maxReturnedNodes := host.references_fit_iff
  constructor
  · intro h
    refine ⟨fun _ => hreferences.1 h.references, fun _ => h.inst, fun _ htext => ?_, nofun, nofun,
      nofun, nofun⟩
    have hsummary : (host.compactData names node).textSummary = some (host.compactText node) :=
      if_pos htext
    exact h.textSummary _ hsummary
  · intro h
    refine ⟨hreferences.2 (h.variableIds nofun), ?_, host.componentValue_fits hid, h.inst nofun⟩
    intro t ht
    rw [compactData, Option.mem_def] at ht
    dsimp only at ht
    split_ifs at ht with htext
    rw [← Option.some.inj ht]
    exact h.characters rfl htext

theorem fullData_fits (hid : Plugin.IsIdentifier (host.id node)) :
    (host.fullData names node).Fits ↔ host.DataFits .full names node := by
  have hreferences : ReferencesFit (host.styleReferences node names.styleNames)
      (host.variableReferences node names.variableNames) ↔
        (host.variableIdsOf node).length ≤ maxReturnedNodes := host.references_fit_iff
  constructor
  · intro h
    refine ⟨fun _ => hreferences.1 h.references, fun _ => h.inst, nofun, fun _ => h.paints,
      fun _ => h.effects, fun _ => h.strokes, fun _ htext => ?_⟩
    have hvalue : (host.fullData names node).textValue = some (host.fullText node) := if_pos htext
    exact ⟨(h.textValue _ hvalue).ranges, (h.textValue _ hvalue).each⟩
  · intro h
    refine ⟨h.fills rfl, h.effects rfl, hreferences.2 (h.variableIds nofun), ?_,
      host.componentValue_fits hid, h.inst nofun, h.strokes rfl⟩
    intro t ht
    rw [fullData, Option.mem_def] at ht
    dsimp only at ht
    split_ifs at ht with htext
    rw [← Option.some.inj ht]
    exact ⟨h.fills rfl, (h.ranges rfl htext).1, (h.ranges rfl htext).2⟩

/-- **The data of a node is accepted when the properties it is made of are within the bounds.** -/
theorem nodeData_fits (hid : Plugin.IsIdentifier (host.id node)) :
    (host.nodeData detail names node).Fits ↔ host.DataFits detail names node := by
  cases detail with
  | minimal =>
      refine iff_of_true trivial ⟨?_, ?_, nofun, nofun, nofun, nofun, nofun⟩
      · exact fun h => absurd rfl h
      · exact fun h => absurd rfl h
  | compact => exact host.compactData_fits hid
  | full => exact host.fullData_fits hid

theorem identityData_fits {id : JsString} (hid : Plugin.IsIdentifier id) :
    (identityData detail id).Fits := by
  have hcomponent : ∀ c ∈ (some { componentId := id, properties := [] } : Option ComponentValue),
      c.Fits := by
    intro c hc
    rw [← Option.some.inj hc]
    exact ComponentValue.fits_of_id hid
  have hnone : ReferencesFit [] [] := ⟨Nat.zero_le _, Nat.zero_le _, List.forall_mem_nil _⟩
  cases detail with
  | minimal => trivial
  | compact => exact ⟨hnone, by simp, hcomponent, by simp⟩
  | full =>
      exact ⟨⟨Nat.zero_le _, List.forall_mem_nil _⟩, Nat.zero_le _, hnone, by simp, hcomponent,
        by simp, by simp⟩

end Data

/-! ## Kept nodes and their records -/

section Records

variable (options : SerializeNodeForestOptions)

theorem parentId_isIdentifier (h : host.Identifiable) (node : ρ) :
    ∀ id ∈ host.parentId node, Plugin.IsIdentifier id := by
  intro id hid
  rw [parentId, Option.mem_def] at hid
  cases hparent : host.parent node with
  | none =>
      rw [hparent] at hid
      cases hid
  | some parent =>
      rw [hparent, Option.map_some] at hid
      have hget : host.get parent "id" = .string id := by
        generalize host.get parent "id" = value at hid
        cases value with
        | string s => rw [Option.some.inj hid]
        | _ => cases hid
      have hown := h.id parent
      rw [Host.id, hget] at hown
      exact hown

theorem summarize_fits (h : host.Identifiable) (node : ρ) (children : List ρ) :
    (host.summarize node children).Fits ↔
      utf8ByteLength (string (host.get node "name")) ≤ maxDisplayTextBytes ∧
        children.length ≤ maxInputIds := by
  have hnamed : (children.map host.id).filter (· ≠ []) = children.map host.id := by
    rw [List.filter_eq_self]
    intro id hid
    obtain ⟨child, -, rfl⟩ := List.mem_map.1 hid
    exact decide_eq_true (h.id child).1
  have hids : (host.summarize node children).childIds =
      if children.map host.id = [] then none else some (children.map host.id) := by
    rw [summarize, hnamed]
  constructor
  · intro hfits
    refine ⟨hfits.name, ?_⟩
    by_cases hnil : children.map host.id = []
    · rw [List.map_eq_nil_iff.1 hnil]
      exact Nat.zero_le _
    · rw [if_neg hnil] at hids
      rw [← List.length_map host.id]
      exact (hfits.childIds _ hids).1
  · rintro ⟨hname, hlength⟩
    refine ⟨h.id node, hname, h.nodeType node, host.parentId_isIdentifier h node, fun ids hmem => ?_⟩
    rw [hids, Option.mem_def] at hmem
    split_ifs at hmem
    rw [← Option.some.inj hmem]
    refine ⟨(List.length_map host.id).trans_le hlength, fun id hid => ?_⟩
    obtain ⟨child, -, rfl⟩ := List.mem_map.1 hid
    exact h.id child

theorem stub_fits (h : host.Identifiable) (node : ρ) :
    (host.stub options node).Fits ↔
      utf8ByteLength (string (host.get node "name")) ≤ maxDisplayTextBytes := by
  constructor
  · intro hfits
    exact hfits.summary.name
  · intro hname
    exact ⟨⟨h.id node, hname, h.nodeType node, by simp [stub], by simp [stub]⟩,
      identityData_fits (h.id node), by simp [stub]⟩

variable [DecidableEq ρ]

/-- What the validator bounds of a kept node. Of a stub that is its name alone. -/
structure RecordFits (k : Walk.Kept ρ) : Prop where
  name : utf8ByteLength (string (host.get k.item "name")) ≤ maxDisplayTextBytes
  childIds : k.stub = false → (host.visibleChildren k.item).length ≤ maxInputIds
  data : k.stub = false → host.DataFits options.detail options.names k.item
  cut : k.stub = false → ∀ c ∈ k.cut, (truncationOf options.appliedDepth c).Counted

theorem decorate_fits (h : host.Identifiable) (k : Walk.Kept ρ) :
    (host.decorate options k).Fits ↔ host.RecordFits options k := by
  obtain ⟨node, stubbed, cut, children⟩ := k
  have hcut : (∀ t ∈ cut.map (truncationOf options.appliedDepth), t.Counted) ↔
      ∀ c ∈ cut, (truncationOf options.appliedDepth c).Counted := by
    cases cut <;> simp
  cases stubbed with
  | true =>
      rw [decorate, host.stub_fits options h]
      constructor
      · intro hname
        exact ⟨hname, fun hstub => absurd hstub.symm Bool.false_ne_true,
          fun hstub => absurd hstub.symm Bool.false_ne_true,
          fun hstub => absurd hstub.symm Bool.false_ne_true⟩
      · exact RecordFits.name
  | false =>
      constructor
      · intro hfits
        have hsummary := (host.summarize_fits h node _).1 hfits.summary
        exact ⟨hsummary.1, fun _ => hsummary.2,
          fun _ => (host.nodeData_fits (h.id node)).1 hfits.data, fun _ => hcut.1 hfits.truncation⟩
      · intro hfits
        exact ⟨(host.summarize_fits h node _).2 ⟨hfits.name, hfits.childIds rfl⟩,
          (host.nodeData_fits (h.id node)).2 (hfits.data rfl), hcut.2 (hfits.cut rfl)⟩

theorem detail_decorate (k : Walk.Kept ρ) :
    (host.decorate options k).data.detail = options.detail := by
  obtain ⟨node, stubbed, cut, children⟩ := k
  cases stubbed with
  | true =>
      show (identityData options.detail (host.id node)).detail = options.detail
      cases options.detail <;> rfl
  | false =>
      show (host.nodeData options.detail options.names node).detail = options.detail
      cases options.detail <;> rfl

mutual

/-- What holds of the records holds of the kept items that they are made of. -/
theorem forall_of_levels_decorate {Q : ℕ → DesignNode → Prop} (level : ℕ) : ∀ k : Walk.Kept ρ,
    k.Forall (fun _ k => StubsBare k) level →
      (∀ p ∈ (host.decorate options k).levels level, Q p.1 p.2) →
        k.Forall (fun level k => Q level (host.decorate options k)) level
  | .mk node true cut children, hbare, h => by
    obtain rfl : children = [] := hbare.1 rfl
    exact ⟨h _ (List.mem_cons_self ..), trivial⟩
  | .mk node false cut children, hbare, h => by
    rw [decorate, DesignNode.levels, List.forall_mem_cons] at h
    exact ⟨h.1, forallAll_of_levels_decorate (level + 1) children hbare.2 h.2⟩

theorem forallAll_of_levels_decorate {Q : ℕ → DesignNode → Prop} (level : ℕ) :
    ∀ ks : List (Walk.Kept ρ), Walk.Kept.ForallAll (fun _ k => StubsBare k) level ks →
      (∀ p ∈ forestLevels level (host.decorateAll options ks), Q p.1 p.2) →
        Walk.Kept.ForallAll (fun level k => Q level (host.decorate options k)) level ks
  | [], _, _ => trivial
  | k :: ks, hbare, h => by
    rw [decorateAll, forestLevels, List.forall_mem_append] at h
    exact ⟨forall_of_levels_decorate level k hbare.1 h.1,
      forallAll_of_levels_decorate level ks hbare.2 h.2⟩

end

/-! ## Forests -/

/-- No kept node is below the depth of the walk. -/
theorem level_le_forestRow (roots : List ρ) :
    Walk.Kept.ForallAll (fun level _ => level ≤ options.appliedDepth) 0
      (host.forestRow options roots).kept := by
  refine Walk.walkAll_forall (fun root s k hk => ?_) roots {}
  refine Walk.walk_forall (P := fun level _ => level ≤ options.appliedDepth)
    (fun _ _ hlevel _ => hlevel) (fun _ _ hlevel _ => hlevel) (fun _ _ _ hlevel _ => hlevel)
    (fun _ => le_rfl) (fun _ _ _ _ hlevel _ _ _ => le_of_lt hlevel) (Nat.zero_add _) hk

/-- The walk keeps no more nodes than it may return. -/
theorem length_items_forestRow (roots : List ρ) :
    (Walk.Kept.itemsAll (host.forestRow options roots).kept).length ≤
      options.limits.returnedNodes := by
  obtain ⟨hcount, hbound⟩ := Walk.walkAll_returned
    (f := Walk.walk (host.scene options) options.limits.budget options.dedupeComponents
      options.appliedDepth []) (n := options.limits.budget.returns)
    (Walk.walk_returned options.appliedDepth []) roots {}
  have hzero : (Walk.Kept.itemsAll (host.forestRow options roots).kept).length =
      (host.forestRow options roots).state.returned := by
    rw [forestRow, hcount]
    exact (Nat.zero_add _).symm
  rw [hzero]
  exact hbound (Nat.zero_le _)

theorem detail_serializeNodeForest (roots : List ρ) :
    ∀ p ∈ forestLevels 0 (host.serializeNodeForest options roots).nodes,
      p.2.data.detail = options.detail := by
  rw [nodes_serializeNodeForest]
  exact host.forestLevels_decorate options (Q := fun _ record => record.data.detail = options.detail)
    (fun _ k _ => host.detail_decorate options k) 0 _ (host.stubsBare_forestRow options roots)

/-- **Which records fit.** The levels of a read whose depth is within the bound of a result are, so
that only what the records are made of is left. -/
theorem levels_serializeNodeForest_iff (h : host.Identifiable) (hdepth : options.depth ≤ maxDepth)
    (roots : List ρ) :
    (∀ p ∈ forestLevels 0 (host.serializeNodeForest options roots).nodes,
        p.1 ≤ maxDepth ∧ p.2.Fits) ↔
      Walk.Kept.ForallAll (fun _ k => host.RecordFits options k) 0
        (host.forestRow options roots).kept := by
  have hbare := host.stubsBare_forestRow options roots
  have happlied : options.appliedDepth ≤ maxDepth := by
    rw [SerializeNodeForestOptions.appliedDepth, Int.toNat_le]
    exact max_le (Int.natCast_nonneg _) hdepth
  have hlevels := host.forestLevels_decorate options
    (Q := fun level _ => level ≤ options.appliedDepth) (fun _ _ hlevel => hlevel) 0 _
    (host.level_le_forestRow options roots)
  rw [nodes_serializeNodeForest]
  constructor
  · intro hall
    have hfits := host.forallAll_of_levels_decorate options
      (Q := fun _ record => record.Fits) 0 _ hbare fun p hp => (hall p hp).2
    simpa only [host.decorate_fits options h] using hfits
  · intro hall p hp
    refine ⟨(hlevels p hp).trans happlied, ?_⟩
    exact host.forestLevels_decorate options (Q := fun _ record => record.Fits)
      (fun _ k hk => (host.decorate_fits options h k).2 hk) 0 _ hall p hp

/-- There is one record for each node that the walk keeps. -/
theorem forestCount_nodes (roots : List ρ) :
    forestCount (host.serializeNodeForest options roots).nodes =
      (Walk.Kept.itemsAll (host.forestRow options roots).kept).length := by
  rw [nodes_serializeNodeForest, forestCount,
    length_forestLevels_decorate host options 0 _ (host.stubsBare_forestRow options roots)]

/-- **Which serialized forests are accepted.** For a read whose depth and number of nodes are within
the bounds of a result, these are the forests whose nodes have names, children, data and cuts within
theirs. -/
theorem serializeNodeForest_accepted_iff (h : host.Identifiable)
    (hdepth : options.depth ≤ maxDepth) (hreturns : options.limits.returnedNodes ≤ maxReturnedNodes)
    (roots : List ρ) (label : JsString) :
    (ResultValidation.parseNodeForest (ResultValidation.parseNodeData options.detail)
        (.array (forestToJs (host.serializeNodeForest options roots).nodes)) label).isOk = true ↔
      Walk.Kept.ForallAll (fun _ k => host.RecordFits options k) 0
        (host.forestRow options roots).kept := by
  have hcount : forestCount (host.serializeNodeForest options roots).nodes ≤ maxReturnedNodes := by
    rw [forestCount_nodes]
    exact (host.length_items_forestRow options roots).trans hreturns
  rw [ResultValidation.parseNodeForest_isOk (host.detail_serializeNodeForest options roots),
    and_iff_left hcount]
  exact host.levels_serializeNodeForest_iff options h hdepth roots

/-- What has a node that is out of bounds is refused. -/
theorem not_isOk_of_not_recordFits (h : host.Identifiable) (hdepth : options.depth ≤ maxDepth)
    (roots : List ρ) (label : JsString)
    (hnot : ¬ Walk.Kept.ForallAll (fun _ k => host.RecordFits options k) 0
      (host.forestRow options roots).kept) :
    ¬ (ResultValidation.parseNodeForest (ResultValidation.parseNodeData options.detail)
      (.array (forestToJs (host.serializeNodeForest options roots).nodes)) label).isOk = true := by
  rw [ResultValidation.parseNodeForest_isOk (host.detail_serializeNodeForest options roots)]
  rintro ⟨hlevels, -⟩
  exact hnot ((host.levels_serializeNodeForest_iff options h hdepth roots).1 hlevels)

/-- **Under which limits and names a forest is accepted.** Whatever the limits of a read to a depth
within the bound, the nodes that it keeps have to be within their number, and each of them within
its bounds. -/
theorem serializeNodeForest_parses_iff (h : host.Identifiable) (hdepth : options.depth ≤ maxDepth)
    (roots : List ρ) (label : JsString) :
    (ResultValidation.parseNodeForest (ResultValidation.parseNodeData options.detail)
        (.array (forestToJs (host.serializeNodeForest options roots).nodes)) label).isOk = true ↔
      (Walk.Kept.itemsAll (host.forestRow options roots).kept).length ≤ maxReturnedNodes ∧
        Walk.Kept.ForallAll (fun _ k => host.RecordFits options k) 0
          (host.forestRow options roots).kept := by
  rw [ResultValidation.parseNodeForest_isOk (host.detail_serializeNodeForest options roots),
    forestCount_nodes, and_comm]
  exact and_congr_right' (host.levels_serializeNodeForest_iff options h hdepth roots)

end Records

/-- A frame, a component in it and a layer in that. The name of the component has `n` letters of three
bytes each. -/
def named (n : ℕ) : Host (Fin 3) where
  get node key :=
    if key = "id" then .string [0x30 + node]
    else if key = "type" then .string (text (if node = 1 then "COMPONENT" else "FRAME"))
    else if key = "name" then .string (if node = 1 then List.replicate n 0x4e00 else text "a")
    else .undefined
  parent node := if node = 0 then none else some (node - 1)
  children node := if node = 2 then [] else [node + 1]
  children_length node := by split_ifs <;> simp

/-- The frame and the component, each with its children, and the component once. -/
def namedOptions : SerializeNodeForestOptions :=
  { detail := .minimal, depth := 1, dedupeComponents := true }

theorem identifiable_named (n : ℕ) : (named n).Identifiable := by
  have hid : ∀ node : Fin 3, [0x30 + node.val] ≠ [] ∧
      utf8ByteLength [0x30 + node.val] ≤ maxIdentifierBytes := by decide
  have htype : ∀ node : Fin 3, text (if node = 1 then "COMPONENT" else "FRAME") ≠ [] ∧
      utf8ByteLength (text (if node = 1 then "COMPONENT" else "FRAME")) ≤ maxIdentifierBytes := by
    decide
  exact ⟨hid, htype⟩

theorem utf8ByteLength_replicate (n : ℕ) : utf8ByteLength (List.replicate n 0x4e00) = 3 * n := by
  induction n with
  | zero => rfl
  | succ n ih =>
      cases n with
      | zero => rfl
      | succ n =>
          have hpair : ¬ (Utf16.isHighSurrogate 0x4e00 && Utf16.isLowSurrogate 0x4e00) = true := by
            decide
          rw [List.replicate_succ] at ih
          rw [List.replicate_succ, List.replicate_succ, utf8ByteLength, if_neg (by decide),
            if_neg (by decide), if_neg hpair, ih]
          omega

/-- How long a name is, in bytes. -/
def namedBytes (n : ℕ) (node : Fin 3) : ℕ := if node = 1 then 3 * n else 1

theorem utf8ByteLength_named (n : ℕ) (node : Fin 3) :
    utf8ByteLength (string ((named n).get node "name")) = namedBytes n node := by
  have hname : string ((named n).get node "name") =
      if node = 1 then List.replicate n 0x4e00 else text "a" := rfl
  rw [hname, namedBytes, ← utf8ByteLength_replicate]
  split_ifs
  · rfl
  · decide

theorem recordFits_named {n : ℕ} {options : SerializeNodeForestOptions}
    (hdetail : options.detail = .minimal) (hdepth : options.depth ≤ maxDepth) {k : Walk.Kept (Fin 3)}
    (hcut : k.cut = none ∨ k.cut = some .depth) :
    (named n).RecordFits options k ↔ namedBytes n k.item ≤ maxDisplayTextBytes := by
  rw [← utf8ByteLength_named]
  constructor
  · exact RecordFits.name
  · intro h
    have hchildren : ∀ node : Fin 3, (if node = 2 then [] else [node + 1]).length ≤ 1 := by decide
    have hvisible : ((named n).visibleChildren k.item).length ≤ 1 :=
      (List.length_filter_le _ _).trans (hchildren k.item)
    have hdata : (named n).DataFits options.detail options.names k.item := by
      rw [hdetail]
      exact ((named n).nodeData_fits ((identifiable_named n).id k.item)).1 trivial
    have happlied : options.appliedDepth ≤ 255 := by
      rw [SerializeNodeForestOptions.appliedDepth, Int.toNat_le]
      exact max_le (Int.natCast_nonneg _) (hdepth.trans (by decide))
    refine ⟨h, fun _ => hvisible.trans (by decide), fun _ => hdata, fun _ c hc => ?_⟩
    rcases hcut with hcut | hcut
    · rw [hcut] at hc
      cases hc
    · obtain rfl := Option.some.inj (hcut.symm.trans hc)
      refine ⟨fun n hn => ?_, fun n hn => ?_, fun n hn => ?_⟩
      · exact (Option.some.inj hn).symm.trans_le happlied
      · cases hn
      · cases hn

/-- Where no limit cuts the walk, the names alone decide. -/
theorem fits_named (n : ℕ) {options : SerializeNodeForestOptions}
    (hdetail : options.detail = .minimal) (hdepth : options.depth ≤ maxDepth)
    {kept : List (Walk.Kept (Fin 3))}
    (hcuts : Walk.Kept.ForallAll (fun _ k => k.cut = none ∨ k.cut = some .depth) 0 kept) :
    Walk.Kept.ForallAll (fun _ k => (named n).RecordFits options k) 0 kept ↔
      Walk.Kept.ForallAll (fun _ k => namedBytes n k.item ≤ maxDisplayTextBytes) 0 kept :=
  Walk.Kept.ForallAll.congr (fun _ _ hcut => recordFits_named hdetail hdepth hcut) 0 _ hcuts

theorem cuts_named :
    Walk.Kept.ForallAll (fun _ k => k.cut = none ∨ k.cut = some .depth) 0
        ((named 341).forestRow namedOptions [0, 1]).kept ∧
      Walk.Kept.ForallAll (fun _ k => k.cut = none ∨ k.cut = some .depth) 0
        ((named 342).forestRow namedOptions [0, 1]).kept := by
  decide +kernel

theorem names_named :
    Walk.Kept.ForallAll (fun _ k => namedBytes 341 k.item ≤ maxDisplayTextBytes) 0
        ((named 341).forestRow namedOptions [0, 1]).kept ∧
      ¬ Walk.Kept.ForallAll (fun _ k => namedBytes 342 k.item ≤ maxDisplayTextBytes) 0
        ((named 342).forestRow namedOptions [0, 1]).kept := by
  decide +kernel

/-- The frame, with the component in it, and a stub of the component: their names are sent when the
long one has 1023 bytes, and refused when it has 1026. -/
theorem serializeNodeForest_accepted_named :
    (ResultValidation.parseNodeForest (ResultValidation.parseNodeData .minimal)
        (.array (forestToJs ((named 341).serializeNodeForest namedOptions [0, 1]).nodes)) []).isOk =
        true ∧
      ¬ (ResultValidation.parseNodeForest (ResultValidation.parseNodeData .minimal)
        (.array (forestToJs ((named 342).serializeNodeForest namedOptions [0, 1]).nodes)) []).isOk =
        true := by
  have hdepth : namedOptions.depth ≤ maxDepth := by decide
  have hreturns : namedOptions.limits.returnedNodes ≤ maxReturnedNodes := by decide
  have hfits := (named 341).serializeNodeForest_accepted_iff namedOptions (identifiable_named 341)
    hdepth hreturns [0, 1] []
  have hlong := (named 342).serializeNodeForest_accepted_iff namedOptions (identifiable_named 342)
    hdepth hreturns [0, 1] []
  have hcuts := cuts_named
  have hnames := names_named
  generalize ((named 341).forestRow namedOptions [0, 1]).kept = short at hfits hcuts hnames
  generalize ((named 342).forestRow namedOptions [0, 1]).kept = wide at hlong hcuts hnames
  rw [fits_named 341 rfl hdepth hcuts.1] at hfits
  rw [fits_named 342 rfl hdepth hcuts.2] at hlong
  exact ⟨hfits.2 hnames.1, fun hok => hnames.2 (hlong.1 hok)⟩

/-- Not every forest is accepted: a name of 1026 bytes is sent as it is. -/
theorem not_all_forests_parse :
    ¬ ∀ {ρ : Type} [DecidableEq ρ] (host : Host ρ) (options : SerializeNodeForestOptions),
      host.Identifiable → options.depth ≤ maxDepth → ∀ (roots : List ρ) (label : JsString),
        (ResultValidation.parseNodeForest (ResultValidation.parseNodeData options.detail)
          (.array (forestToJs (host.serializeNodeForest options roots).nodes)) label).isOk = true := by
  intro h
  have hdepth : namedOptions.depth ≤ maxDepth := by decide
  have hok := h (named 342) namedOptions (identifiable_named 342) hdepth [0, 1] []
  have hrefused := (named 342).not_isOk_of_not_recordFits namedOptions (identifiable_named 342) hdepth
    [0, 1] []
  have hcuts := cuts_named
  have hnames := names_named
  generalize ((named 342).forestRow namedOptions [0, 1]).kept = wide at hrefused hcuts hnames
  rw [fits_named 342 rfl hdepth hcuts.2] at hrefused
  exact hrefused hnames.2 hok

/-- The whole trees, under a limit that is above the number of nodes of a result. -/
def wholeOptions : SerializeNodeForestOptions :=
  { detail := .minimal, depth := 2, dedupeComponents := false, limits := { returnedNodes := 3000 } }

theorem kept_whole :
    (Walk.Kept.itemsAll ((named 341).forestRow wholeOptions [0, 1]).kept).length = 5 ∧
      Walk.Kept.ForallAll (fun _ k => k.cut = none ∨ k.cut = some .depth) 0
        ((named 341).forestRow wholeOptions [0, 1]).kept ∧
      Walk.Kept.ForallAll (fun _ k => namedBytes 341 k.item ≤ maxDisplayTextBytes) 0
        ((named 341).forestRow wholeOptions [0, 1]).kept := by
  decide +kernel

/-- The frame with all that is below it, and once more the component with its layer: five nodes. -/
theorem serializeNodeForest_parses_whole :
    (ResultValidation.parseNodeForest (ResultValidation.parseNodeData .minimal)
      (.array (forestToJs ((named 341).serializeNodeForest wholeOptions [0, 1]).nodes)) []).isOk =
      true := by
  have hdepth : wholeOptions.depth ≤ maxDepth := by decide
  have hparses := (named 341).serializeNodeForest_parses_iff wholeOptions (identifiable_named 341)
    hdepth [0, 1] []
  have hkept := kept_whole
  generalize ((named 341).forestRow wholeOptions [0, 1]).kept = kept at hparses hkept
  obtain ⟨hcount, hcuts, hnames⟩ := hkept
  rw [fits_named 341 rfl hdepth hcuts] at hparses
  refine hparses.2 ⟨?_, hnames⟩
  rw [hcount]
  decide

end Host

end FigmaDevMcp

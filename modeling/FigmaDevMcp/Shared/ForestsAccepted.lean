import FigmaDevMcp.Shared.NodeDataAccepted

set_option autoImplicit false

/-!
# Forests that are accepted

Which forests of records the validator takes: it asks the same of every node, and bounds their
number and their levels.

* `DesignNode.Fits`: a node whose summary, data and truncation are accepted;
* `DesignNode.shape`: the tree of a record, whose levels and number are those of its nodes;
* `fits_of_parses`, `exists_parses`: a record and the tree that is read from it;
* `parseNodeForest_isOk`: **which forests are accepted**.
-/

namespace FigmaDevMcp

open SharedBudget

/-! ## Summaries and nodes -/

/-- The ids and the type are identifiers, and neither the name nor the list of children is too
long. -/
structure NodeSummary.Fits (s : NodeSummary) : Prop where
  id : Plugin.IsIdentifier s.id
  name : utf8ByteLength s.name ≤ maxDisplayTextBytes
  nodeType : Plugin.IsIdentifier s.nodeType
  parentId : ∀ id ∈ s.parentId, Plugin.IsIdentifier id
  childIds : ∀ ids ∈ s.childIds, ids.length ≤ maxInputIds ∧ ∀ id ∈ ids, Plugin.IsIdentifier id

/-- What a node has beside its children. -/
structure DesignNode.Fits (node : DesignNode) : Prop where
  summary : node.summary.Fits
  data : node.data.Fits
  truncation : ∀ t ∈ node.childrenTruncation, t.Counted

mutual

/-- The tree that a node spans. -/
def DesignNode.shape : DesignNode → Rose Unit
  | ⟨_, _, children, _, _⟩ => .node () (forestShape children)

/-- The shapes of the trees of a forest. -/
def forestShape : List DesignNode → List (Rose Unit)
  | [] => []
  | node :: rest => node.shape :: forestShape rest

end

mutual

theorem DesignNode.levels_shape (level n : ℕ) : ∀ node : DesignNode,
    node.shape.levels ≤ n ↔ ∀ p ∈ node.levels level, p.1 < level + n
  | ⟨summary, data, children, truncated, truncation⟩ => by
    rw [DesignNode.shape, Rose.levels_node, DesignNode.levels, List.forall_mem_cons]
    cases n with
    | zero => exact iff_of_false (Nat.not_succ_le_zero _) fun h => absurd h.1 (Nat.lt_irrefl _)
    | succ n =>
        rw [Nat.succ_le_succ_iff, forestLevels_shape (level + 1) n children,
          Nat.add_right_comm level 1 n]
        exact (and_iff_right (Nat.lt_add_of_pos_right (Nat.succ_pos n))).symm

theorem forestLevels_shape (level n : ℕ) : ∀ forest : List DesignNode,
    Rose.forestLevels (forestShape forest) ≤ n ↔ ∀ p ∈ forestLevels level forest, p.1 < level + n
  | [] => iff_of_true (Nat.zero_le n) (List.forall_mem_nil _)
  | node :: rest => by
    rw [forestShape, Rose.forestLevels, Nat.max_le, forestLevels, List.forall_mem_append,
      DesignNode.levels_shape level n node, forestLevels_shape level n rest]

end

mutual

theorem DesignNode.count_shape (level : ℕ) : ∀ node : DesignNode,
    node.shape.count = (node.levels level).length
  | ⟨summary, data, children, truncated, truncation⟩ => by
    rw [DesignNode.shape, Rose.count_node, DesignNode.levels, List.length_cons,
      forestCount_shape (level + 1) children]

theorem forestCount_shape (level : ℕ) : ∀ forest : List DesignNode,
    Rose.forestCount (forestShape forest) = (forestLevels level forest).length
  | [] => rfl
  | node :: rest => by
    rw [forestShape, Rose.forestCount, forestLevels, List.length_append,
      DesignNode.count_shape level node, forestCount_shape level rest]

end

/-- Which forests are within the bounds of a result. -/
theorem fitsResult_shape (forest : List DesignNode) :
    FitsResult (forestShape forest) ↔
      (∀ p ∈ forestLevels 0 forest, p.1 ≤ maxDepth) ∧ forestCount forest ≤ maxReturnedNodes := by
  rw [FitsResult, Rose.Within, forestLevels_shape 0, forestCount_shape 0, forestCount]
  refine and_congr_left fun _ => forall_congr' fun p => forall_congr' fun _ => ?_
  rw [Nat.zero_add, Nat.lt_succ_iff]

namespace ResultValidation

open JsValue

theorem displayText_isOk (s : JsString) (label : JsString) :
    (displayText (.string s) label).isOk = true ↔ utf8ByteLength s ≤ maxDisplayTextBytes := by
  rw [← displayValue_isOk s label, displayValue, isOk_map]

theorem childIds_isOk {members : List Member} {childIds : Option (List JsString)} {label : JsString}
    (hlookup : lookup (text "childIds") members =
      childIds.map fun ids => .array (ids.map .string)) :
    (optionalMember (.object members) "childIds" (arrayOf · · identifier maxInputIds) label).isOk =
        true ↔
      ∀ ids ∈ childIds, ids.length ≤ maxInputIds ∧ ∀ id ∈ ids, Plugin.IsIdentifier id := by
  rw [optionalMember_isOk (p := fun v => (arrayOf v label identifier maxInputIds).isOk = true)
    fun _ => Iff.rfl, hlookup]
  cases childIds with
  | none => simp
  | some ids => simp [arrayOf_map_isOk identifier_isOk]

theorem parseNodeSummary_isOk (s : NodeSummary) (label : JsString) :
    (parseNodeSummary s.toJs label).isOk = true ↔ s.Fits := by
  rw [parseNodeSummary, NodeSummary.toJs]
  generalize hmembers : member "id" (.string s.id) ++ member "name" (.string s.name) ++
    member "nodeType" (.string s.nodeType) ++ optional "parentId" (s.parentId.map .string) ++
    optional "childIds" (s.childIds.map fun ids => .array (ids.map .string)) ++
    optional "bounds" (s.bounds.map Rect.toJs) = members
  have hknown : Known (["id", "name", "nodeType"] ++ ["parentId", "childIds", "bounds"]) members := by
    rw [← hmembers]
    repeat' apply Known.append
    all_goals first | exact known_member (by simp) | exact known_optional (by simp)
  have hexact : Exactly members ["id", "name", "nodeType"] ["parentId", "childIds", "bounds"] :=
    ⟨hknown, by simp [← hmembers, lookup_append, Plugin.lookup_member]⟩
  have hid : (JsValue.object members).field "id" = .string s.id := by
    simp [← hmembers, lookup_append, Plugin.lookup_member]
  have hname : (JsValue.object members).field "name" = .string s.name := by
    simp [← hmembers, lookup_append, Plugin.lookup_member]
  have htype : (JsValue.object members).field "nodeType" = .string s.nodeType := by
    simp [← hmembers, lookup_append, Plugin.lookup_member]
  have hparent : lookup (text "parentId") members = s.parentId.map .string := by
    simp [← hmembers, lookup_append, Plugin.lookup_member, Plugin.lookup_optional]
  have hchildren : lookup (text "childIds") members =
      s.childIds.map fun ids => .array (ids.map .string) := by
    simp [← hmembers, lookup_append, Plugin.lookup_member, Plugin.lookup_optional]
  have hbounds : lookup (text "bounds") members = s.bounds.map Rect.toJs := by
    simp [← hmembers, lookup_append, Plugin.lookup_member, Plugin.lookup_optional]
  have hrect : (optionalMember (.object members) "bounds" parseRect (dot label "bounds")).isOk =
      true := by
    refine optionalMember_of_lookup hbounds fun v hv => ?_
    obtain ⟨r, -, rfl⟩ := Option.map_eq_some_iff.1 hv
    exact parseRect_isOk r _
  rw [isOk_exact_bind hexact, hid, hname, htype]
  refine (isOk_bind_and fun _ _ => isOk_bind_and fun _ _ => isOk_bind_and fun _ _ =>
    isOk_bind_and fun _ _ => isOk_bind_and fun _ _ => isOk_bind_iff hrect fun _ =>
    iff_true_intro rfl).trans ?_
  rw [identifier_isOk, displayText_isOk, identifier_isOk, optionalId_map_isOk hparent,
    childIds_isOk hchildren]
  constructor
  · rintro ⟨hi, hn, ht, hp, hc, -⟩
    exact ⟨hi, hn, ht, hp, hc⟩
  · intro h
    exact ⟨h.id, h.name, h.nodeType, h.parentId, h.childIds, trivial⟩

/-! ## Forests -/

section Forests

variable {detail : DetailLevel}

/-- The fields of a node that are accepted. -/
theorem parseNodeFields_designNode {node : DesignNode} (hdetail : node.data.detail = detail)
    (label : JsString) (items : List JsValue) :
    (∃ own, parseNodeFields (parseNodeData detail) node.toJs label = .ok (own, items)) ↔
      node.Fits ∧ items = forestToJs node.children := by
  obtain ⟨summary, data, children, truncated, truncation⟩ := node
  rw [parseNodeFields, DesignNode.toJs]
  generalize hmembers : member "summary" summary.toJs ++ member "data" data.toJs ++
    member "children" (.array (forestToJs children)) ++
    member "childrenTruncated" (.bool truncated) ++
    optional "childrenTruncation" (truncation.map Truncation.toJs) = members
  have hknown : Known (["summary", "data", "children", "childrenTruncated"] ++
      ["childrenTruncation"]) members := by
    rw [← hmembers]
    repeat' apply Known.append
    all_goals first | exact known_member (by simp) | exact known_optional (by simp)
  have hexact : Exactly members ["summary", "data", "children", "childrenTruncated"]
      ["childrenTruncation"] :=
    ⟨hknown, by simp [← hmembers, lookup_append, Plugin.lookup_member]⟩
  have hsummary : (JsValue.object members).field "summary" = summary.toJs := by
    simp [← hmembers, lookup_append, Plugin.lookup_member]
  have hdata : (JsValue.object members).field "data" = data.toJs := by
    simp [← hmembers, lookup_append, Plugin.lookup_member]
  have hchildren : (JsValue.object members).field "children" = .array (forestToJs children) := by
    simp [← hmembers, lookup_append, Plugin.lookup_member]
  have htruncated : (JsValue.object members).field "childrenTruncated" = .bool truncated := by
    simp [← hmembers, lookup_append, Plugin.lookup_member]
  have htruncation : lookup (text "childrenTruncation") members =
      truncation.map Truncation.toJs := by
    simp [← hmembers, lookup_append, Plugin.lookup_member, Plugin.lookup_optional]
  have hcut : (optionalMember (.object members) "childrenTruncation" parseTruncation
      (dot label "childrenTruncation")).isOk = true ↔ ∀ t ∈ truncation, t.Counted := by
    rw [optionalMember_isOk (p := fun v =>
      (parseTruncation v (dot label "childrenTruncation")).isOk = true) fun _ => Iff.rfl, htruncation]
    cases truncation with
    | none => simp
    | some t => simp [parseTruncation_isOk]
  rw [exact_object hexact, Guard.ok_bind, hdata, hchildren, hsummary, htruncated]
  simp only [boolean_bool, Guard.ok_bind, Guard.bind_eq_ok]
  constructor
  · rintro ⟨own, d, hd, s, hs, t, ht, h⟩
    obtain ⟨-, rfl⟩ := Prod.mk.inj (Except.ok.inj h)
    refine ⟨⟨(parseNodeSummary_isOk _ _).1 (isOk_iff.2 ⟨s, hs⟩),
      (parseNodeData_isOk hdetail _).1 (isOk_iff.2 ⟨d, hd⟩), hcut.1 (isOk_iff.2 ⟨t, ht⟩)⟩, rfl⟩
  · rintro ⟨hfits, rfl⟩
    obtain ⟨d, hd⟩ := isOk_iff.1 ((parseNodeData_isOk hdetail (dot label "data")).2 hfits.data)
    obtain ⟨s, hs⟩ := isOk_iff.1 ((parseNodeSummary_isOk _ (dot label "summary")).2 hfits.summary)
    obtain ⟨t, ht⟩ := isOk_iff.1 (hcut.2 hfits.truncation)
    exact ⟨_, d, hd, s, hs, t, ht, rfl⟩

theorem map_snd_labelled (label : JsString) (items : List JsValue) :
    (labelled label items).map Prod.snd = items := by
  apply List.ext_getElem?
  intro i
  simp [labelled]

mutual

/-- A tree that a node stands for has its shape, and then all of its nodes fit. -/
theorem fits_of_parses (level : ℕ) : ∀ (node : DesignNode) (label : JsString)
    (tree : NodeTree JsValue JsValue JsValue),
    (∀ p ∈ node.levels level, p.2.data.detail = detail) →
      Parses (parseNodeData detail) (label, node.toJs) tree →
        tree.shape = node.shape ∧ ∀ p ∈ node.levels level, p.2.Fits
  | ⟨summary, data, children, truncated, truncation⟩, label, .node own trees, hdetail, h => by
    rw [DesignNode.levels, List.forall_mem_cons] at hdetail
    obtain ⟨items, hfields, htrees⟩ := parses_node.1 h
    obtain ⟨hfits, rfl⟩ :=
      (parseNodeFields_designNode hdetail.1 label items).1 ⟨own, hfields⟩
    have hsnd := map_snd_labelled (dot label "children") (forestToJs children)
    obtain ⟨hshape, hrest⟩ := fits_of_forall₂_parses (level + 1) children _ trees hsnd hdetail.2 htrees
    refine ⟨?_, ?_⟩
    · rw [Rose.shape, DesignNode.shape, hshape]
    · rw [DesignNode.levels, List.forall_mem_cons]
      exact ⟨hfits, hrest⟩

theorem fits_of_forall₂_parses (level : ℕ) : ∀ (forest : List DesignNode)
    (items : List (JsString × JsValue)) (trees : List (NodeTree JsValue JsValue JsValue)),
    items.map Prod.snd = forestToJs forest →
      (∀ p ∈ forestLevels level forest, p.2.data.detail = detail) →
        List.Forall₂ (Parses (parseNodeData detail)) items trees →
          Rose.forestShape trees = forestShape forest ∧ ∀ p ∈ forestLevels level forest, p.2.Fits
  | [], items, trees, hitems, _, h => by
    obtain rfl := List.map_eq_nil_iff.1 hitems
    cases h
    exact ⟨rfl, List.forall_mem_nil _⟩
  | node :: rest, items, trees, hitems, hdetail, h => by
    obtain ⟨⟨label, value⟩, others, rfl, rfl, hothers⟩ := List.map_eq_cons_iff.1 hitems
    rw [forestLevels, List.forall_mem_append] at hdetail
    cases h with
    | cons hnode hrest =>
        obtain ⟨hshape, hfits⟩ := fits_of_parses level node label _ hdetail.1 hnode
        obtain ⟨hshapes, hall⟩ := fits_of_forall₂_parses level rest others _ hothers hdetail.2 hrest
        refine ⟨?_, ?_⟩
        · rw [Rose.forestShape, forestShape, hshape, hshapes]
        · rw [forestLevels, List.forall_mem_append]
          exact ⟨hfits, hall⟩

end

mutual

theorem exists_parses (level : ℕ) : ∀ (node : DesignNode) (label : JsString),
    (∀ p ∈ node.levels level, p.2.data.detail = detail) → (∀ p ∈ node.levels level, p.2.Fits) →
      ∃ tree, Parses (parseNodeData detail) (label, node.toJs) tree
  | ⟨summary, data, children, truncated, truncation⟩, label, hdetail, hfits => by
    rw [DesignNode.levels, List.forall_mem_cons] at hdetail hfits
    obtain ⟨own, hown⟩ := (parseNodeFields_designNode hdetail.1 label _).2 ⟨hfits.1, rfl⟩
    have hsnd := map_snd_labelled (dot label "children") (forestToJs children)
    obtain ⟨trees, htrees⟩ := exists_forall₂_parses (level + 1) children _ hsnd hdetail.2 hfits.2
    exact ⟨.node own trees, parses_node.2 ⟨_, hown, htrees⟩⟩

theorem exists_forall₂_parses (level : ℕ) : ∀ (forest : List DesignNode)
    (items : List (JsString × JsValue)), items.map Prod.snd = forestToJs forest →
      (∀ p ∈ forestLevels level forest, p.2.data.detail = detail) →
        (∀ p ∈ forestLevels level forest, p.2.Fits) →
          ∃ trees, List.Forall₂ (Parses (parseNodeData detail)) items trees
  | [], items, hitems, _, _ => by
    obtain rfl := List.map_eq_nil_iff.1 hitems
    exact ⟨[], .nil⟩
  | node :: rest, items, hitems, hdetail, hfits => by
    obtain ⟨⟨label, value⟩, others, rfl, rfl, hothers⟩ := List.map_eq_cons_iff.1 hitems
    rw [forestLevels, List.forall_mem_append] at hdetail hfits
    obtain ⟨tree, htree⟩ := exists_parses level node label hdetail.1 hfits.1
    obtain ⟨trees, htrees⟩ := exists_forall₂_parses level rest others hothers hdetail.2 hfits.2
    exact ⟨tree :: trees, .cons htree htrees⟩

end

/-- **Which forests of records are accepted.** -/
theorem parseNodeForest_isOk {forest : List DesignNode}
    (hdetail : ∀ p ∈ forestLevels 0 forest, p.2.data.detail = detail) (label : JsString) :
    (parseNodeForest (parseNodeData detail) (.array (forestToJs forest)) label).isOk = true ↔
      (∀ p ∈ forestLevels 0 forest, p.1 ≤ maxDepth ∧ p.2.Fits) ∧
        forestCount forest ≤ maxReturnedNodes := by
  have hsnd := map_snd_labelled label (forestToJs forest)
  have hwithin : ∀ trees : List (NodeTree JsValue JsValue JsValue),
      Rose.forestShape trees = forestShape forest →
        (FitsResult trees ↔ FitsResult (forestShape forest)) := by
    intro trees hshape
    rw [FitsResult, FitsResult, Rose.Within, ← Rose.forestLevels_shape trees,
      ← Rose.forestCount_shape trees, hshape, Rose.Within]
  rw [isOk_iff]
  constructor
  · rintro ⟨trees, h⟩
    obtain ⟨htrees, hresult⟩ := parseNodeForest_eq_ok.1 h
    obtain ⟨hshape, hfits⟩ := fits_of_forall₂_parses 0 forest _ trees hsnd hdetail htrees
    obtain ⟨hlevels, hcount⟩ := (fitsResult_shape forest).1 ((hwithin trees hshape).1 hresult)
    exact ⟨fun p hp => ⟨hlevels p hp, hfits p hp⟩, hcount⟩
  · rintro ⟨hall, hcount⟩
    obtain ⟨trees, htrees⟩ :=
      exists_forall₂_parses 0 forest _ hsnd hdetail fun p hp => (hall p hp).2
    have hshape := (fits_of_forall₂_parses 0 forest _ trees hsnd hdetail htrees).1
    refine ⟨trees, parseNodeForest_eq_ok.2 ⟨htrees, (hwithin trees hshape).2 ?_⟩⟩
    exact (fitsResult_shape forest).2 ⟨fun p hp => (hall p hp).1, hcount⟩

end Forests

end ResultValidation

end FigmaDevMcp

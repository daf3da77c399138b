import FigmaDevMcp.Lib.WeighedWalk
import FigmaDevMcp.Read.BatchBudget
import FigmaDevMcp.Read.SearchPages

set_option autoImplicit false

/-!
# No hidden layer leaks

A read shows the nodes that it starts from, which it has judged, and their visible children, over
and over.

* `Seen`: a summary of a node that renders, with the ids of children that render;
* `seen_serializeNodeForest`, `searchFrom_seen`: the two walks show nothing else;
* `no_hidden_layer`: nor do the four reads.
-/

namespace FigmaDevMcp

open PreorderWalk

namespace Host

variable {ρ : Type} [DecidableEq ρ] (host : Host ρ)

/-- The summary is of a node that renders, unless it is of a page, and its child ids are of
children of the node that render. -/
def Seen (summary : NodeSummary) : Prop :=
  ∃ node, host.IsOf node summary ∧
    (summary.nodeType ≠ text "PAGE" → host.visibilityOf node = .renders) ∧
    ∀ id ∈ summary.childIds.getD [],
      ∃ child ∈ host.children node, host.id child = id ∧ host.visibilityOf child = .renders

theorem showable_child {node child : ρ} (h : child ∈ host.visibleChildren node) :
    host.Showable child := Or.inl (host.mem_visibleChildren.1 h).2

theorem Showable.visible {node : ρ} (h : host.Showable node)
    (hpage : string (host.get node "type") ≠ text "PAGE") : host.visibilityOf node = .renders := by
  refine h.resolve_right fun htype => hpage ?_
  unfold isType isWord at htype
  cases hget : host.get node "type" with
  | string s =>
      rw [hget] at htype
      exact eq_of_beq htype
  | _ => rw [hget] at htype; cases htype

/-- A summary of a node with some of its visible children. -/
theorem seen_summarize {node : ρ} (h : host.Showable node) {children : List ρ}
    (hchildren : ∀ child ∈ children, child ∈ host.visibleChildren node) :
    host.Seen (host.summarize node children) := by
  refine ⟨node, ⟨rfl, rfl, rfl⟩, h.visible, fun id hid => ?_⟩
  have hmem : id ∈ (children.map host.id).filter (· ≠ []) := by
    unfold summarize at hid
    dsimp only at hid
    split_ifs at hid with hnone
    · cases hid
    · exact hid
  obtain ⟨child, hchild, rfl⟩ := List.mem_map.1 (List.mem_filter.1 hmem).1
  have ⟨hof, hrenders⟩ := host.mem_visibleChildren.1 (hchildren child hchild)
  exact ⟨child, hof, rfl, hrenders⟩

/-! ## The serializer -/

variable (options : SerializeNodeForestOptions)

theorem seen_decorate (k : Walk.Kept ρ) (h : host.Showable k.item) :
    host.Seen (host.decorate options k).summary := by
  obtain ⟨node, stub, cut, children⟩ := k
  cases stub with
  | true => exact ⟨node, ⟨rfl, rfl, rfl⟩, h.visible, nofun⟩
  | false => exact host.seen_summarize h fun _ hchild => hchild

/-- **A forest shows its roots and their visible descendants.** -/
theorem seen_serializeNodeForest {roots : List ρ} (hroots : ∀ root ∈ roots, host.Showable root) :
    ∀ p ∈ forestLevels 0 (host.serializeNodeForest options roots).nodes, host.Seen p.2.summary := by
  rw [nodes_serializeNodeForest]
  refine host.forestLevels_decorate options (P := fun _ k => host.Showable k.item)
    (Q := fun _ record => host.Seen record.summary) (fun _ k hk => host.seen_decorate options k hk)
    0 _ ?_
  refine Walk.Kept.forallAll_item (P := fun _ k => host.KeptWell k) (fun _ _ h => h.1)
    (fun _ _ _ hchild => host.showable_child hchild) ?_ fun k hk => ?_
  · exact Walk.walkAll_forall (fun _ _ _ hk => host.keptWell_walk options hk) roots {}
  · exact hroots _ ((host.forestRow_prefix options roots).1.subset (List.mem_map_of_mem hk))

/-! ## The search -/

theorem showable_childItems (item : WalkItem ρ) :
    ∀ child ∈ host.childItems item, host.Showable child.node := by
  intro child hchild
  obtain ⟨j, hj⟩ := List.mem_iff_getElem?.1 hchild
  exact host.showable_child (host.childItems_getElem? hj).2.1

/-- **A search shows what it walks over.** -/
theorem searchFrom_seen {cm : CaseMapping} {predicate : SearchPredicate} {limits : SerializerLimits}
    {returnedLimit left visitedNodes encodedBytes : ℕ} {stack : List (WalkItem ρ)}
    {before : List NodeMatch} (hstack : ∀ item ∈ stack, host.Showable item.node)
    (hbefore : ∀ m ∈ before, host.Seen m.node) :
    ∀ m ∈ (host.searchFrom cm predicate limits returnedLimit left stack visitedNodes encodedBytes
      before).found, host.Seen m.node := by
  induction left generalizing stack visitedNodes encodedBytes before with
  | zero => cases stack <;> rw [searchFrom] <;> exact hbefore
  | succ left ih =>
      cases stack with
      | nil =>
          rw [searchFrom]
          exact hbefore
      | cons item stack =>
          obtain ⟨hitem, hrest⟩ := List.forall_mem_cons.1 hstack
          have hpush : ∀ next ∈ host.pushChildren stack item, host.Showable next.node :=
            host.forall_pushChildren (fun item _ => host.showable_childItems item) hitem hrest
          have hseen : ∀ includeChildren, host.Seen
              (host.nodeMatch cm predicate includeChildren item.node).node := by
            intro includeChildren
            cases includeChildren with
            | true => exact host.seen_summarize hitem fun _ hchild => hchild
            | false => exact host.seen_summarize hitem (List.forall_mem_nil _)
          rw [searchFrom]
          dsimp only
          split_ifs
          · exact ih hpush hbefore
          · exact hbefore
          · exact List.forall_mem_append.2 ⟨hbefore, List.forall_mem_singleton.2 (hseen _)⟩
          · exact List.forall_mem_append.2 ⟨hbefore, List.forall_mem_singleton.2 (hseen _)⟩
          · exact ih hpush (List.forall_mem_append.2 ⟨hbefore, List.forall_mem_singleton.2 (hseen _)⟩)

end Host

namespace Figma

variable {ρ : Type} [DecidableEq ρ] (figma : Figma ρ)

/-! ## The reads -/

theorem seen_serializePreparedForest {roots : List ρ} {detail : DetailLevel} {depth : ℕ}
    {dedupeComponents : Bool} {names : Names} {forest : SerializedNodeForest}
    (h : figma.serializePreparedForest roots detail depth dedupeComponents names = .ok forest)
    (hroots : ∀ root ∈ roots, figma.Showable root) :
    ∀ p ∈ forestLevels 0 forest.nodes, figma.Seen p.2.summary := by
  rw [figma.serializePreparedForest_eq h]
  exact figma.seen_serializeNodeForest _ hroots

theorem seen_readSelection {input : GetSelectionInput} {names : Names} {result : GetSelectionResult}
    (h : figma.readSelection input names = .ok result) :
    ∀ p ∈ forestLevels 0 result.nodes, figma.Seen p.2.summary := by
  obtain ⟨-, h⟩ := Guard.ite_throw_eq_ok.1 h
  obtain ⟨found, hfound, h⟩ := Guard.bind_eq_ok.1 h
  obtain ⟨forest, hforest, h⟩ := Guard.bind_eq_ok.1 h
  obtain rfl := Guard.pure_eq_ok.1 h
  refine figma.seen_serializePreparedForest hforest ?_
  unfold selectionRoots at hfound
  split_ifs at hfound
  · exact figma.roots_selectRoots hfound nofun
  · obtain rfl := Except.ok.inj hfound
    exact nofun

theorem seen_readDesignContext {input : GetDesignContextInput} {names : Names}
    {result : GetDesignContextResult} (h : figma.readDesignContext input names = .ok result) :
    ∀ p ∈ forestLevels 0 result.roots, figma.Seen p.2.summary := by
  obtain ⟨found, hfound, h⟩ := Guard.bind_eq_ok.1 h
  obtain ⟨forest, hforest, h⟩ := Guard.bind_eq_ok.1 h
  obtain rfl := Guard.pure_eq_ok.1 h
  exact figma.seen_serializePreparedForest hforest (figma.roots_resolveDesignRoots hfound)

theorem seen_readNode {detail : DetailLevel} {depth : ℕ} {names : Names} {id : JsString}
    {value : DesignNode} (h : (figma.readNode detail depth names id).1 = .success value) :
    ∀ p ∈ value.levels 0, figma.Seen p.2.summary := by
  unfold readNode at h
  cases hlookup : figma.lookupNode id with
  | error e => rw [hlookup] at h; cases h
  | ok answer =>
      rw [hlookup] at h
      cases answer with
      | none => cases h
      | some node =>
          cases hverdict : figma.visibilityOf node with
          | hidden | undetermined => simp only [hverdict] at h; cases h
          | renders =>
              simp only [hverdict] at h
              cases hloads : figma.loads node with
              | false =>
                  obtain ⟨e, he⟩ := figma.readForest_error hloads
                  rw [he] at h
                  cases h
              | true =>
                  rw [figma.readForest_eq hloads] at h
                  have hseen := figma.seen_serializeNodeForest
                    { detail, depth, dedupeComponents := false, names := names.forDetail detail }
                    (List.forall_mem_singleton.2 (Or.inl hverdict) : ∀ root ∈ [node], figma.Showable root)
                  rcases figma.nodes_singleton
                    { detail, depth, dedupeComponents := false, names := names.forDetail detail } node
                    with hnodes | ⟨v, hnodes⟩
                  · simp only [hnodes] at h
                    cases h
                  · simp only [hnodes] at h hseen
                    obtain rfl := ItemResult.success.inj h
                    exact fun p hp => hseen p (List.mem_append_left _ hp)

theorem showable_resolveSearchRoot {scope : SearchScope} {root : ρ}
    (h : figma.resolveSearchRoot scope = .ok root) : figma.Showable root := by
  cases scope with
  | pageId id =>
      rw [resolveSearchRoot] at h
      split_ifs at h
      · obtain rfl := Except.ok.inj h
        exact Or.inr figma.currentPage_isPage
      · obtain ⟨answer, -, h⟩ := Guard.bind_eq_ok.1 h
        cases answer with
        | none => cases h
        | some node =>
            dsimp only at h
            split_ifs at h with hpage
            obtain rfl := figma.loadPageIfNeeded_eq h
            exact Or.inr hpage
  | nodeId id =>
      obtain ⟨answer, -, h⟩ := Guard.bind_eq_ok.1 h
      cases answer with
      | none => cases h
      | some node =>
          cases hverdict : figma.visibilityOf node with
          | renders =>
              simp only [hverdict] at h
              obtain rfl := figma.loadPageIfNeeded_eq h
              exact Or.inl hverdict
          | hidden | undetermined => simp only [hverdict] at h; cases h

theorem seen_searchNodes {cm : CaseMapping} {input : SearchNodesInput} {limits : SerializerLimits}
    {result : SearchNodesResult} (h : figma.searchNodes cm input limits = .ok result) :
    ∀ m ∈ result.found, figma.Seen m.node := by
  obtain ⟨predicate, -, h⟩ := Guard.bind_eq_ok.1 h
  obtain ⟨root, hroot, h⟩ := Guard.bind_eq_ok.1 h
  obtain ⟨cursor, -, h⟩ := Guard.bind_eq_ok.1 h
  obtain ⟨stack, hstack, h⟩ := Guard.bind_eq_ok.1 h
  obtain ⟨next, -, h⟩ := Guard.bind_eq_ok.1 h
  obtain rfl := Guard.pure_eq_ok.1 h
  refine figma.searchFrom_seen ?_ nofun
  exact figma.forall_initialStack (P := fun item => figma.Showable item.node)
    (fun item _ => figma.showable_childItems item) (figma.showable_resolveSearchRoot hroot) hstack

/-- **No hidden layer leaks.** What the four reads show, of any document and for any request, are
nodes that render, or pages, and ids of children that render. -/
theorem no_hidden_layer :
    (∀ input names result, figma.readSelection input names = .ok result →
      ∀ p ∈ forestLevels 0 result.nodes, figma.Seen p.2.summary) ∧
    (∀ input names value, .success value ∈ (figma.readNodes input names).items →
      ∀ p ∈ value.levels 0, figma.Seen p.2.summary) ∧
    (∀ input names result, figma.readDesignContext input names = .ok result →
      ∀ p ∈ forestLevels 0 result.roots, figma.Seen p.2.summary) ∧
    ∀ cm input limits result, figma.searchNodes cm input limits = .ok result →
      ∀ m ∈ result.found, figma.Seen m.node := by
  refine ⟨fun _ _ _ => figma.seen_readSelection, fun input names value hvalue => ?_,
    fun _ _ _ => figma.seen_readDesignContext, fun _ _ _ _ => figma.seen_searchNodes⟩
  obtain ⟨answer, hanswer, hsuccess⟩ := List.mem_map.1 hvalue
  obtain ⟨index, hindex, rfl⟩ := List.mem_mapIdx.1 hanswer
  exact figma.seen_readNode hsuccess

end Figma

end FigmaDevMcp

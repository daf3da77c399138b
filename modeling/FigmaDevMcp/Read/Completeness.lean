import FigmaDevMcp.Read.Serialize

set_option autoImplicit false

/-!
# What a serialized forest leaves out

* `Depicts`, `Shows`: a record against its host node, with or without gaps that it reports;
* `serializeNodeForest_complete`: a node that reports no gap has all its visible children, and a
  forest that reports no truncation has everything;
* `CoversTo`: everything down to a level is there;
* `truncation_truthful`: what the reason of a truncation says is so.
-/

namespace FigmaDevMcp

namespace Host

variable {ρ : Type} [DecidableEq ρ] (host : Host ρ)

/-- The record is that of the host node. -/
structure IsOf (node : ρ) (summary : NodeSummary) : Prop where
  id : summary.id = host.id node
  name : summary.name = string (host.get node "name")
  nodeType : summary.nodeType = string (host.get node "type")

mutual

/-- The children of the record are of the first visible children of the node, in order, and of
all of them unless it reports that some are missing. -/
def Depicts : DesignNode → ρ → Prop
  | ⟨summary, _, children, childrenTruncated, _⟩, node =>
    host.IsOf node summary ∧
      (childrenTruncated = false → children.length = (host.visibleChildren node).length) ∧
      DepictsAll children (host.visibleChildren node)

/-- The children that are sent depict the children that are visible, in order. -/
def DepictsAll : List DesignNode → List ρ → Prop
  | [], _ => True
  | _ :: _, [] => False
  | child :: rest, node :: nodes => Depicts child node ∧ DepictsAll rest nodes

end

mutual

/-- The whole visible subtree of the node is there, one to one and in order, and nothing reports
that children are missing. -/
def Shows : DesignNode → ρ → Prop
  | ⟨summary, _, children, childrenTruncated, _⟩, node =>
    host.IsOf node summary ∧ childrenTruncated = false ∧
      ShowsAll children (host.visibleChildren node)

/-- The children that are sent show the same nodes, in order. -/
def ShowsAll : List DesignNode → List ρ → Prop
  | [], [] => True
  | child :: rest, node :: nodes => Shows child node ∧ ShowsAll rest nodes
  | _, _ => False

end

/-- Every visible node at most `below` levels under the node is there. -/
def CoversTo : ℕ → DesignNode → ρ → Prop
  | 0, record, node => host.IsOf node record.summary
  | below + 1, record, node =>
    host.IsOf node record.summary ∧
      List.Forall₂ (CoversTo below) record.children (host.visibleChildren node)

variable (options : SerializeNodeForestOptions)

/-! ## Records of kept nodes -/

theorem isOf_decorate (k : Walk.Kept ρ) :
    host.IsOf k.item (host.decorate options k).summary := by
  obtain ⟨node, stub, cut, children⟩ := k
  cases stub <;> exact ⟨rfl, rfl, rfl⟩

theorem decorateAll_eq_map (ks : List (Walk.Kept ρ)) :
    host.decorateAll options ks = ks.map (host.decorate options) := by
  induction ks with
  | nil => rfl
  | cons k ks ih => rw [decorateAll, ih, List.map_cons]

/-- A kept item is faithful to the graph. -/
def KeptWell (k : Walk.Kept ρ) : Prop :=
  k.children.map Walk.Kept.item <+: host.visibleChildren k.item ∧
    (k.stub = false → k.cut = none → k.children.map Walk.Kept.item = host.visibleChildren k.item)

theorem keptWell_walk {below : ℕ} {ancestors : List JsString} {node : ρ} {s : Walk.State JsString}
    {k : Walk.Kept ρ} {level : ℕ}
    (h : (Walk.walk (host.scene options) options.limits.budget options.dedupeComponents below
      ancestors node s).1 = some k) :
    k.Forall (fun _ k => host.KeptWell k) level := by
  refine Walk.walk_forall (P := fun _ k => host.KeptWell k) (fun _ _ _ _ => ?_)
    (fun _ a _ ha => ?_) (fun _ _ _ _ _ => ?_) (fun _ => ?_) (fun _ _ _ _ _ _ hpre hall => ?_) rfl h
  · exact ⟨List.nil_prefix, nofun⟩
  · exact ⟨List.nil_prefix, fun _ _ => ha.symm⟩
  · exact ⟨List.nil_prefix, nofun⟩
  · exact ⟨List.nil_prefix, nofun⟩
  · exact ⟨hpre, fun _ hnone => hall hnone⟩

mutual

theorem depicts_decorate (level : ℕ) : ∀ k : Walk.Kept ρ,
    k.Forall (fun _ k => host.KeptWell k) level → host.Depicts (host.decorate options k) k.item
  | .mk node true cut children, _ =>
    ⟨host.isOf_decorate options (.mk node true cut children), nofun, trivial⟩
  | .mk node false cut children, h => by
    obtain ⟨⟨hpre, hall⟩, hchildren⟩ := h
    refine ⟨host.isOf_decorate options (.mk node false cut children), fun hcut => ?_,
      depictsAll_decorate (level + 1) children _ hpre hchildren⟩
    have hnone : cut = none := Option.not_isSome_iff_eq_none.mp (by simpa [decorate] using hcut)
    rw [decorateAll_eq_map, List.length_map, ← List.length_map Walk.Kept.item]
    exact congrArg List.length (hall rfl hnone)

theorem depictsAll_decorate (level : ℕ) : ∀ (ks : List (Walk.Kept ρ)) (nodes : List ρ),
    ks.map Walk.Kept.item <+: nodes →
      Walk.Kept.ForallAll (fun _ k => host.KeptWell k) level ks →
        host.DepictsAll (host.decorateAll options ks) nodes
  | [], _, _, _ => trivial
  | _ :: _, [], h, _ => absurd h (by simp)
  | k :: ks, node :: nodes, h, hks => by
    obtain ⟨hnode, h⟩ := List.cons_prefix_cons.1 h
    exact ⟨hnode ▸ depicts_decorate level k hks.1, depictsAll_decorate level ks nodes h hks.2⟩

end

theorem covers_unfold (below : ℕ) (node : ρ) :
    host.CoversTo below (host.decorate options (Walk.unfold (host.scene options) below node)) node := by
  induction below generalizing node with
  | zero => exact host.isOf_decorate options (Walk.unfold (host.scene options) 0 node)
  | succ below ih =>
      refine ⟨host.isOf_decorate options (Walk.unfold (host.scene options) (below + 1) node), ?_⟩
      show List.Forall₂ _ (host.decorateAll options ((host.visibleChildren node).map
        (Walk.unfold (host.scene options) below))) _
      rw [decorateAll_eq_map, List.map_map, List.forall₂_map_left_iff]
      exact List.forall₂_same.2 fun child _ => ih child

theorem showsAll_of_forall₂ {records : List DesignNode} {nodes : List ρ}
    (h : List.Forall₂ host.Shows records nodes) : host.ShowsAll records nodes := by
  induction h with
  | nil => trivial
  | cons hnode _ ih => exact ⟨hnode, ih⟩

theorem shows_unfold {below level : ℕ} {node : ρ}
    (h : (Walk.unfold (host.scene options) below node).Forall
      (fun _ k => k.stub = false ∧ k.cut = none) level) :
    host.Shows (host.decorate options (Walk.unfold (host.scene options) below node)) node := by
  induction below generalizing level node with
  | zero =>
      have hchildren : host.visibleChildren node = [] := by
        by_contra hne
        exact absurd h.1.2 (by simp [Walk.Kept.cut, scene_children, hne])
      refine ⟨host.isOf_decorate options (Walk.unfold (host.scene options) 0 node), ?_, ?_⟩
      · show (if host.visibleChildren node = [] then none else some Walk.Cut.depth).isSome = false
        rw [if_pos hchildren]
        rfl
      · rw [hchildren]
        trivial
  | succ below ih =>
      refine ⟨host.isOf_decorate options (Walk.unfold (host.scene options) (below + 1) node), rfl,
        showsAll_of_forall₂ host ?_⟩
      show List.Forall₂ _ (host.decorateAll options ((host.visibleChildren node).map
        (Walk.unfold (host.scene options) below))) _
      rw [decorateAll_eq_map, List.map_map, List.forall₂_map_left_iff]
      exact List.forall₂_same.2 fun child hchild =>
        ih (Walk.Kept.forallAll_iff.1 h.2 _ (List.mem_map_of_mem hchild))

mutual

/-- What holds of the kept items holds of their records. -/
theorem levels_decorate {P : ℕ → Walk.Kept ρ → Prop} {Q : ℕ → DesignNode → Prop}
    (hPQ : ∀ level k, P level k → Q level (host.decorate options k)) (level : ℕ) :
    ∀ k : Walk.Kept ρ, k.Forall P level →
      ∀ p ∈ (host.decorate options k).levels level, Q p.1 p.2
  | .mk node true cut children, h, p, hp => by
    obtain rfl : p = (level, host.stub options node) := by
      simpa [decorate, DesignNode.levels, stub, forestLevels] using hp
    exact hPQ _ _ h.1
  | .mk node false cut children, h, p, hp => by
    rcases List.mem_cons.mp hp with rfl | hp
    · exact hPQ _ _ h.1
    · exact forestLevels_decorate hPQ (level + 1) children h.2 p hp

theorem forestLevels_decorate {P : ℕ → Walk.Kept ρ → Prop} {Q : ℕ → DesignNode → Prop}
    (hPQ : ∀ level k, P level k → Q level (host.decorate options k)) (level : ℕ) :
    ∀ ks : List (Walk.Kept ρ), Walk.Kept.ForallAll P level ks →
      ∀ p ∈ forestLevels level (host.decorateAll options ks), Q p.1 p.2
  | [], _, _, hp => absurd hp List.not_mem_nil
  | k :: ks, h, p, hp => by
    rcases List.mem_append.mp hp with hp | hp
    · exact levels_decorate hPQ level k h.1 p hp
    · exact forestLevels_decorate hPQ level ks h.2 p hp

end

/-! ## Forests -/

/-- The walk behind `serializeNodeForest`. -/
def forestRow (roots : List ρ) : Walk.Row ρ JsString :=
  Walk.walkAll (Walk.walk (host.scene options) options.limits.budget options.dedupeComponents
    options.appliedDepth []) roots {}

theorem nodes_serializeNodeForest (roots : List ρ) :
    (host.serializeNodeForest options roots).nodes =
      host.decorateAll options (host.forestRow options roots).kept := by
  rw [serializeNodeForest_eq]
  rfl

theorem truncation_serializeNodeForest (roots : List ρ) :
    (host.serializeNodeForest options roots).truncation =
      (host.forestRow options roots).state.cut.map (truncationOf options.appliedDepth) := by
  rw [serializeNodeForest_eq]
  rfl

theorem truncated_serializeNodeForest (roots : List ρ) :
    (host.serializeNodeForest options roots).truncated =
      (host.forestRow options roots).state.cut.isSome := by
  rw [serializeNodeForest_eq]
  rfl

theorem forestRow_prefix (roots : List ρ) :
    (host.forestRow options roots).kept.map Walk.Kept.item <+: roots ∧
      ((host.forestRow options roots).stopped = false →
        (host.forestRow options roots).kept.map Walk.Kept.item = roots) :=
  Walk.walkAll_prefix (fun _ _ _ hk => Walk.walk_item hk) roots {}

theorem forestRow_unfold (hdedupe : options.dedupeComponents = false) {roots : List ρ}
    (h : ¬ (host.forestRow options roots).state.Halted) :
    (host.forestRow options roots).kept =
      roots.map (Walk.unfold (host.scene options) options.appliedDepth) := by
  unfold forestRow at h ⊢
  rw [hdedupe] at h ⊢
  exact (Walk.walkAll_unfold (fun _ _ hk => Walk.walk_unfold hk)
    (fun _ _ hs => Walk.walk_halted _ _ _ hs) h).2

/-- **The serializer is complete.** A node that reports no gap has records of all its visible
children, in order; a forest without dedupe that reports no truncation is the whole forest. -/
theorem serializeNodeForest_complete (roots : List ρ) :
    host.DepictsAll (host.serializeNodeForest options roots).nodes roots ∧
      (options.dedupeComponents = false →
        (host.serializeNodeForest options roots).truncated = false →
          host.ShowsAll (host.serializeNodeForest options roots).nodes roots) := by
  rw [nodes_serializeNodeForest, truncated_serializeNodeForest]
  refine ⟨host.depictsAll_decorate options 0 _ roots (host.forestRow_prefix options roots).1 ?_,
    fun hdedupe htruncated => ?_⟩
  · exact Walk.walkAll_forall (fun _ _ _ hk => host.keptWell_walk options hk) roots {}
  · have hcut : (host.forestRow options roots).state.cut = none :=
      Option.not_isSome_iff_eq_none.mp (by simp [htruncated])
    have hrun : ¬ (host.forestRow options roots).state.Halted := fun h => h.cut_ne_none hcut
    rw [host.forestRow_unfold options hdedupe hrun, decorateAll_eq_map, List.map_map]
    refine showsAll_of_forall₂ host (List.forall₂_map_left_iff.2 (List.forall₂_same.2 fun root hroot => ?_))
    unfold forestRow at hcut
    rw [hdedupe] at hcut
    obtain ⟨s, hs⟩ := Walk.walkAll_cut (fun _ _ h => Walk.walk_cut_ne_none _ _ _ h)
      (fun _ _ hk => Walk.walk_refused hk) hcut root hroot
    have huncut : (Walk.unfold (host.scene options) options.appliedDepth root).Forall
        (fun _ k => k.stub = false ∧ k.cut = none) 0 := Walk.walk_uncut hs
    exact host.shows_unfold options huncut

/-! ## The reason of a truncation -/

theorem keptAt_walk {below level : ℕ} {ancestors : List JsString} {node : ρ}
    {s : Walk.State JsString} {k : Walk.Kept ρ} (hlevel : level + below = options.appliedDepth)
    (h : (Walk.walk (host.scene options) options.limits.budget options.dedupeComponents below
      ancestors node s).1 = some k) :
    k.Forall (fun level k => k.cut = some .depth → level = options.appliedDepth) level :=
  Walk.walk_forall (P := fun level k => k.cut = some .depth → level = options.appliedDepth)
    (fun _ _ _ _ => nofun) (fun _ _ _ _ => nofun)
    (fun _ _ _ _ hc h => absurd (Option.some.inj h) hc)
    (fun _ _ => rfl) (fun _ _ _ _ _ hc _ _ h => absurd h hc) hlevel h

/-- Down to its depth the graph is cut for its depth only. -/
theorem unfold_cut (below level : ℕ) (node : ρ) :
    (Walk.unfold (host.scene options) below node).Forall
      (fun _ k => k.stub = false ∧ ∀ c, k.cut = some c → c = .depth) level := by
  induction below generalizing level node with
  | zero =>
      refine ⟨⟨rfl, fun c hc => ?_⟩, trivial⟩
      change (if (host.scene options).children node = [] then none else some Walk.Cut.depth) = some c at hc
      split_ifs at hc
      exact (Option.some.inj hc).symm
  | succ below ih =>
      refine ⟨⟨rfl, nofun⟩, Walk.Kept.forallAll_iff.2 fun k hk => ?_⟩
      obtain ⟨child, -, rfl⟩ := List.mem_map.mp hk
      exact ih _ child

end Host

/-- Children of the node are missing, and not for its depth. -/
def DesignNode.CutByBudget (node : DesignNode) : Prop :=
  node.childrenTruncated = true ∧ ∀ t, node.childrenTruncation = some t → t.reason ≠ .depthLimit

namespace Host

variable {ρ : Type} [DecidableEq ρ] (host : Host ρ) (options : SerializeNodeForestOptions)

theorem halted_of_truncation {roots : List ρ} :
    (host.forestRow options roots).state.Halted ↔
      ∃ t, (host.serializeNodeForest options roots).truncation = some t ∧ t.reason ≠ .depthLimit := by
  rw [truncation_serializeNodeForest]
  constructor
  · rintro ⟨c, hc, hne⟩
    exact ⟨_, by rw [hc]; rfl, fun h => hne (truncationOf_reason.1 h)⟩
  · rintro ⟨t, ht, hne⟩
    obtain ⟨c, hc, rfl⟩ := Option.map_eq_some_iff.1 ht
    exact ⟨c, hc, fun h => hne (truncationOf_reason.2 h)⟩

/-- A row that no budget has cut has a record of every root and no gap but for depth. -/
theorem no_cut_of_not_halted (hdedupe : options.dedupeComponents = false) {roots : List ρ}
    (h : ¬ (host.forestRow options roots).state.Halted) :
    (host.serializeNodeForest options roots).nodes.length = roots.length ∧
      ∀ p ∈ forestLevels 0 (host.serializeNodeForest options roots).nodes, ¬ p.2.CutByBudget := by
  rw [nodes_serializeNodeForest, host.forestRow_unfold options hdedupe h]
  refine ⟨by rw [decorateAll_eq_map, List.length_map, List.length_map], ?_⟩
  refine host.forestLevels_decorate options
    (P := fun _ k => k.stub = false ∧ ∀ c, k.cut = some c → c = .depth)
    (Q := fun _ record => ¬ record.CutByBudget) ?_ 0 _ ?_
  · rintro - ⟨node, stub, cut, children⟩ ⟨rfl, hcut⟩ ⟨htruncated, hreason⟩
    obtain ⟨c, rfl⟩ := Option.isSome_iff_exists.1 (show cut.isSome = true from htruncated)
    obtain rfl := hcut c rfl
    exact hreason _ rfl rfl
  · refine Walk.Kept.forallAll_iff.2 fun k hk => ?_
    obtain ⟨root, -, rfl⟩ := List.mem_map.mp hk
    exact host.unfold_cut options _ _ root

/-- **The reasons of truncations are truthful.** Under `depthLimit` everything down to the depth is
there; where a count, the bytes or a cycle has cut, the document says so; and only nodes at the
depth itself are cut for depth. -/
theorem truncation_truthful (hdedupe : options.dedupeComponents = false) (roots : List ρ) :
    ((∃ t, (host.serializeNodeForest options roots).truncation = some t ∧ t.reason = .depthLimit) →
        List.Forall₂ (host.CoversTo options.appliedDepth)
          (host.serializeNodeForest options roots).nodes roots) ∧
      ((host.serializeNodeForest options roots).nodes.length < roots.length ∨
          (∃ p ∈ forestLevels 0 (host.serializeNodeForest options roots).nodes, p.2.CutByBudget) →
        ∃ t, (host.serializeNodeForest options roots).truncation = some t ∧
          t.reason ≠ .depthLimit) ∧
      ∀ p ∈ forestLevels 0 (host.serializeNodeForest options roots).nodes,
        (∃ t, p.2.childrenTruncation = some t ∧ t.reason = .depthLimit) →
          p.1 = options.appliedDepth := by
  refine ⟨?_, fun hcut => ?_, ?_⟩
  · rintro ⟨t, ht, hreason⟩
    have hrun : ¬ (host.forestRow options roots).state.Halted := fun h => by
      obtain ⟨u, hu, hne⟩ := (host.halted_of_truncation options).1 h
      obtain rfl := Option.some.inj (ht.symm.trans hu)
      exact hne hreason
    rw [nodes_serializeNodeForest, host.forestRow_unfold options hdedupe hrun, decorateAll_eq_map,
      List.map_map, List.forall₂_map_left_iff]
    exact List.forall₂_same.2 fun root _ => host.covers_unfold options _ root
  · refine (host.halted_of_truncation options).1 (by_contra fun hrun => ?_)
    obtain ⟨hlength, hnodes⟩ := host.no_cut_of_not_halted options hdedupe hrun
    rcases hcut with hshort | ⟨p, hp, hnode⟩
    · omega
    · exact hnodes p hp hnode
  · rw [nodes_serializeNodeForest]
    refine host.forestLevels_decorate options
      (P := fun level k => k.cut = some .depth → level = options.appliedDepth)
      (Q := fun level record => (∃ t, record.childrenTruncation = some t ∧ t.reason = .depthLimit) →
        level = options.appliedDepth) ?_ 0 _
      (Walk.walkAll_forall (fun _ _ _ hk => host.keptAt_walk options (Nat.zero_add _) hk) roots {})
    rintro level ⟨node, stub, cut, children⟩ hP ⟨t, ht, hreason⟩
    cases stub with
    | true => cases ht
    | false =>
        obtain ⟨c, rfl, rfl⟩ := Option.map_eq_some_iff.1 (show cut.map _ = some t from ht)
        exact hP (congrArg some (truncationOf_reason.1 hreason))

/-- Four frames, each the only child of the one before. -/
def nested : Host ℕ where
  get node key := if key = "id" then .string [0x30 + node] else .undefined
  parent node := if node = 0 then none else some (node - 1)
  children node := if node < 3 then [node + 1] else []
  children_length node := by split_ifs <;> simp

/-- A read one level deep. -/
def nestedOptions : SerializeNodeForestOptions :=
  { detail := .minimal, depth := 1, dedupeComponents := false }

/-- Read to depth one, the frames are cut for depth, and the two at its levels are there. -/
theorem truncation_truthful_nested :
    (nested.serializeNodeForest nestedOptions [0]).truncation = some (.depthLimit 1) ∧
      List.Forall₂ (nested.CoversTo 1) (nested.serializeNodeForest nestedOptions [0]).nodes [0] := by
  have hdepth : (nested.serializeNodeForest nestedOptions [0]).truncation = some (.depthLimit 1) := by
    decide +kernel
  exact ⟨hdepth, (nested.truncation_truthful nestedOptions rfl [0]).1 ⟨_, hdepth, rfl⟩⟩

end Host

end FigmaDevMcp

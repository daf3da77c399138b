import FigmaDevMcp.Lib.JsMap
import FigmaDevMcp.Lib.WholeWalk
import FigmaDevMcp.Read.Completeness
import Mathlib.Data.List.Dedup

set_option autoImplicit false

/-!
# The passes before a forest is serialized

`collectInstanceIdentities`, `collectStyleNames` and `collectVariableNames` of `serialize.ts`. Each
goes through the forest before `serializeNodeForest` does, and looks up what that is to emit.

* `prepass`: the traversal that the three have in common;
* `collectStyleNames`, `collectVariableNames`, `collectInstanceIdentities`: from the source;
* `prepassForest_eq`, `records_of_not_halted`: **a pass visits the nodes that the serializer
  emits**;
* `get_lookUpNames`: the names that a pass comes back with;
* `prepasses_agree`: **what has been looked up is there in what is emitted**.
-/

namespace FigmaDevMcp

open JsValue PreorderWalk

/-! ## The passes -/

/-- The distinct ids of a pass, and those of them that it looks up. -/
structure PendingIds where
  pending : List JsString := []
  seen : List JsString := []

/-- An id is noted once, while there is room. -/
def PendingIds.add (limit : ℕ) (s : PendingIds) (id : JsString) : PendingIds :=
  if id ∈ s.seen then s
  else
    { pending := if s.pending.length < limit then s.pending ++ [id] else s.pending
      seen := s.seen ++ [id] }

/-- What `settleOrSkip` makes of the lookup of an id: nothing where the lookup throws or rejects,
or is late. -/
abbrev NameLookup := JsString → Option JsValue

/-- `string(hostGet(style, "name"))` -/
def NameLookup.name (lookup : NameLookup) (id : JsString) : JsString :=
  ((lookup id).map fun value => string ((record value).field "name")).getD []

/-- The loop over the pending ids; `elapsed` is the time that has passed before each lookup. -/
def lookUpNames (lookup : NameLookup) (elapsed : ℕ → ℕ) (budgetMs : ℕ) :
    ℕ → List JsString → JsMap JsString JsString → JsMap JsString JsString
  | _, [], names => names
  | index, id :: rest, names =>
    if budgetMs ≤ elapsed index then names
    else
      let name := lookup.name id
      lookUpNames lookup elapsed budgetMs (index + 1) rest
        (if name ≠ [] then names.set id name else names)

/-- `DEFAULT_STYLE_NAME_BUDGET_MS` -/
def defaultStyleNameBudgetMs : ℕ := 2000

/-- `MAX_STYLE_NAME_LOOKUPS` -/
def maxStyleNameLookups : ℕ := 200

/-- `DEFAULT_VARIABLE_NAME_BUDGET_MS` -/
def defaultVariableNameBudgetMs : ℕ := 2000

/-- `MAX_VARIABLE_NAME_LOOKUPS` -/
def maxVariableNameLookups : ℕ := 200

namespace Host

variable {ρ σ : Type} [DecidableEq ρ] (host : Host ρ)

/-- `visit`, with `below` levels left under the node: `depth - level` of the source. -/
def prepass (note : σ → ρ → σ) : ℕ → ρ → σ → σ
  | 0, node, s => note s node
  | below + 1, node, s =>
    (host.visibleChildren node).foldl (fun s child => prepass note below child s) (note s node)

/-- A pass over the roots, from level 0 on. -/
def prepassForest (note : σ → ρ → σ) (depth : ℤ) (roots : List ρ) (s : σ) : σ :=
  roots.foldl (fun s root => host.prepass note (max 0 depth).toNat root s) s

/-- The ids of the styles of a node are noted. -/
def noteStyles (s : PendingIds) (node : ρ) : PendingIds :=
  styleIdFields.foldl
    (fun s entry =>
      match host.styleId node entry.1 with
      | none => s
      | some id => s.add maxStyleNameLookups id) s

/-- The names of the styles of a forest. -/
def collectStyleNames (lookup : Option NameLookup) (depth : ℤ) (elapsed : ℕ → ℕ) (budgetMs : ℕ)
    (roots : List ρ) : JsMap JsString JsString :=
  match lookup with
  | none => .empty
  | some lookup =>
    let s := host.prepassForest host.noteStyles depth roots {}
    lookUpNames lookup elapsed budgetMs 0 s.pending .empty

/-- The ids of the variables of a node are noted. -/
def noteVariables (s : PendingIds) (node : ρ) : PendingIds :=
  (host.variableIdsOf node).foldl (PendingIds.add maxVariableNameLookups) s

/-- The names of the variables of a forest. -/
def collectVariableNames (lookup : Option NameLookup) (depth : ℤ) (elapsed : ℕ → ℕ) (budgetMs : ℕ)
    (roots : List ρ) : JsMap JsString JsString :=
  match lookup with
  | none => .empty
  | some lookup =>
    let s := host.prepassForest host.noteVariables depth roots {}
    lookUpNames lookup elapsed budgetMs 0 s.pending .empty

/-- An instance is noted. -/
def noteInstances (instances : List ρ) (node : ρ) : List ρ :=
  if host.isType node "INSTANCE" then instances ++ [node] else instances

/-- `main` is the main component that `getMainComponentAsync` settles with, in time. -/
def resolveInstanceIdentity (main : ρ → Option ρ) (node : ρ) : Option InstanceValue :=
  let component := main node
  let componentId := string (host.get node "componentId")
  let componentSetId := string (host.get node "componentSetId")
  let componentId :=
    if componentId = [] then (component.map host.id).getD [] else componentId
  let parent := (component.bind host.parent).filter fun parent =>
    host.isType parent "COMPONENT_SET"
  let componentSetId :=
    if componentSetId = [] then (parent.map host.id).getD [] else componentSetId
  if componentId = [] then none
  else
    some
      { componentId
        properties := host.namedComponentProperties node
        componentSetId := if componentSetId = [] then none else some componentSetId }

/-- The component of an instance is looked up, once for an id. -/
def addIdentity (main : ρ → Option ρ) (identities : JsMap JsString InstanceValue) (node : ρ) :
    JsMap JsString InstanceValue :=
  if host.id node = [] ∨ identities.has (host.id node) then identities
  else
    match host.resolveInstanceIdentity main node with
    | none => identities
    | some identity => identities.set (host.id node) identity

/-- The components of the instances of a forest. -/
def collectInstanceIdentities (main : ρ → Option ρ) (depth : ℤ) (roots : List ρ) :
    JsMap JsString InstanceValue :=
  (host.prepassForest host.noteInstances depth roots []).foldl (host.addIdentity main) .empty

/-! ## What a pass visits -/

/-- The nodes down to a depth, in preorder. -/
def nodesTo (depth : ℤ) (roots : List ρ) : List ρ :=
  roots.flatMap (preorder host.visibleChildren (max 0 depth).toNat)

variable {host}

theorem prepass_eq (note : σ → ρ → σ) (below : ℕ) (node : ρ) (s : σ) :
    host.prepass note below node s = (preorder host.visibleChildren below node).foldl note s := by
  induction below generalizing node s with
  | zero => rfl
  | succ below ih =>
      rw [prepass, preorder, List.foldl_cons, List.foldl_flatMap]
      congr 1
      funext s child
      exact ih child s

/-- **A pass visits the nodes down to its depth**, one after the other. -/
theorem prepassForest_eq (note : σ → ρ → σ) (depth : ℤ) (roots : List ρ) (s : σ) :
    host.prepassForest note depth roots s = (host.nodesTo depth roots).foldl note s := by
  rw [prepassForest, nodesTo, List.foldl_flatMap]
  congr 1
  funext s root
  exact prepass_eq note _ root s

end Host

/-! ## What the serializer emits -/

/-- The records of a forest, in preorder. -/
def SerializedNodeForest.records (forest : SerializedNodeForest) : List DesignNode :=
  (forestLevels 0 forest.nodes).map Prod.snd

theorem forestLevels_eq_flatMap (level : ℕ) (forest : List DesignNode) :
    forestLevels level forest = forest.flatMap (DesignNode.levels level) := by
  induction forest with
  | nil => rfl
  | cons node rest ih => rw [forestLevels, ih, List.flatMap_cons]

namespace Host

variable {ρ : Type} [DecidableEq ρ] {host : Host ρ} {options : SerializeNodeForestOptions}

/-- What a node is emitted as, besides its children. -/
def emitted (host : Host ρ) (options : SerializeNodeForestOptions) (node : ρ) :
    NodeSummary × NodeData :=
  (host.summarize node (host.visibleChildren node),
    host.nodeData options.detail options.names node)

theorem levels_unfold (below level : ℕ) (node : ρ) :
    ((host.decorate options (Walk.unfold (host.scene options) below node)).levels level).map
        (fun p => (p.2.summary, p.2.data)) =
      (preorder host.visibleChildren below node).map (host.emitted options) := by
  induction below generalizing level node with
  | zero => rfl
  | succ below ih =>
      rw [Walk.unfold, decorate, DesignNode.levels, preorder, List.map_cons, List.map_cons,
        decorateAll_eq_map, forestLevels_eq_flatMap, List.map_map, List.map_flatMap,
        List.flatMap_map, List.map_flatMap]
      congr 1
      apply List.flatMap_congr
      intro child _
      exact ih (level + 1) child

/-- What nothing but the depth cuts has a record of every node down to the depth. -/
theorem records_of_not_halted (hdedupe : options.dedupeComponents = false) {roots : List ρ}
    (h : ¬ (host.forestRow options roots).state.Halted) :
    (host.serializeNodeForest options roots).records.map (fun r => (r.summary, r.data)) =
      (host.nodesTo options.depth roots).map (host.emitted options) := by
  rw [SerializedNodeForest.records, nodes_serializeNodeForest,
    forestRow_unfold host options hdedupe h, decorateAll_eq_map, forestLevels_eq_flatMap,
    List.map_map, List.map_map, List.flatMap_map, List.map_flatMap, nodesTo, List.map_flatMap]
  apply List.flatMap_congr
  intro root _
  exact levels_unfold _ 0 root

/-- The forest is acyclic, for a walk that knows a node by its id. -/
structure Acyclic (host : Host ρ) (height : ρ → ℕ) : Prop where
  tree : host.IsTree height
  height_eq : ∀ a b, host.id a ≠ [] → host.id a = host.id b → height a = height b

/-- No limit of the serializer is below what these nodes need. -/
structure FitsLimits (host : Host ρ) (options : SerializeNodeForestOptions) (nodes : List ρ) :
    Prop where
  visits : nodes.length ≤ options.limits.visitedNodes
  returns : nodes.length ≤ options.limits.returnedNodes
  bytes : (nodes.map fun node => byteLength (host.candidate options node).toJs).sum ≤
    options.limits.encodedBytes

theorem not_halted_of_fitsLimits {height : ρ → ℕ} (hacyclic : host.Acyclic height)
    (hdedupe : options.dedupeComponents = false) {roots : List ρ}
    (h : host.FitsLimits options (host.nodesTo options.depth roots)) :
    ¬ (host.forestRow options roots).state.Halted := by
  have hbelow : ∀ a, ∀ b ∈ (host.scene options).children a, height b < height a := hacyclic.tree
  have hlabel : ∀ a b l, (host.scene options).label a = some l →
      (host.scene options).label b = some l → height a = height b := by
    intro a b l ha hb
    simp only [scene] at ha hb
    split_ifs at ha hb with hida hidb
    exact hacyclic.height_eq a b hida ((Option.some.inj ha).trans (Option.some.inj hb).symm)
  rw [forestRow, hdedupe]
  apply Walk.walkAll_walk_roomy hbelow hlabel
  refine ⟨?_, ?_, ?_⟩
  · show 0 + _ ≤ options.limits.visitedNodes
    rw [Nat.zero_add]
    exact h.visits
  · show 0 + _ ≤ options.limits.returnedNodes
    rw [Nat.zero_add]
    exact h.returns
  · show 0 + _ ≤ options.limits.encodedBytes
    rw [Nat.zero_add]
    exact h.bytes

end Host

/-! ## What the passes come back with -/

/-- The state after some ids. -/
structure PendingIds.Holds (limit : ℕ) (ids : List JsString) (s : PendingIds) : Prop where
  pending : s.pending = s.seen.take limit
  nodup : s.seen.Nodup
  mem : ∀ id, id ∈ s.seen ↔ id ∈ ids

theorem PendingIds.Holds.add {limit : ℕ} {ids : List JsString} {s : PendingIds}
    (h : s.Holds limit ids) (id : JsString) : (s.add limit id).Holds limit (ids ++ [id]) := by
  unfold PendingIds.add
  split_ifs with hseen hroom
  · refine ⟨h.pending, h.nodup, ?_⟩
    intro other
    rw [h.mem, List.mem_append, List.mem_singleton]
    constructor
    · exact Or.inl
    · rintro (hother | rfl)
      · exact hother
      · exact (h.mem _).1 hseen
  all_goals
    refine ⟨?_, ?_, ?_⟩
    rotate_left
    · exact List.nodup_append.2 ⟨h.nodup, List.nodup_singleton _, fun a ha b hb heq =>
        hseen (List.mem_singleton.1 hb ▸ heq ▸ ha)⟩
    · intro other
      rw [List.mem_append, List.mem_append, h.mem]
  · have hlt : s.seen.length < limit := by
      rw [h.pending, List.length_take] at hroom
      omega
    rw [h.pending, List.take_of_length_le (Nat.le_of_lt hlt),
      List.take_of_length_le (by rw [List.length_append, List.length_singleton]; omega)]
  · have hle : limit ≤ s.seen.length := by
      rw [h.pending, List.length_take] at hroom
      omega
    rw [h.pending, List.take_append_of_le_length hle]

theorem PendingIds.holds_foldl (limit : ℕ) (ids : List JsString) :
    (ids.foldl (PendingIds.add limit) {}).Holds limit ids := by
  induction ids using List.reverseRecOn with
  | nil => exact ⟨List.take_nil.symm, List.nodup_nil, fun _ => Iff.rfl⟩
  | append_singleton ids id ih =>
      rw [List.foldl_append]
      exact ih.add id

/-- A pass with few enough ids looks all of them up. -/
theorem PendingIds.mem_pending {limit : ℕ} {ids : List JsString}
    (h : ids.dedup.length ≤ limit) {id : JsString} :
    id ∈ (ids.foldl (PendingIds.add limit) {}).pending ↔ id ∈ ids := by
  have hholds := PendingIds.holds_foldl limit ids
  have hlength : (ids.foldl (PendingIds.add limit) {}).seen.length ≤ limit := by
    refine Nat.le_trans (List.Subperm.length_le ?_) h
    apply hholds.nodup.subperm
    intro other hother
    exact List.mem_dedup.2 ((hholds.mem other).1 hother)
  rw [hholds.pending, List.take_of_length_le hlength, hholds.mem]

/-- In time, the names are those of the pending ids that have one. -/
theorem get_lookUpNames {lookup : NameLookup} {elapsed : ℕ → ℕ} {budgetMs : ℕ}
    (htime : ∀ index, elapsed index < budgetMs) (index : ℕ) (ids : List JsString)
    (names : JsMap JsString JsString) (id : JsString) :
    (lookUpNames lookup elapsed budgetMs index ids names).get id =
      if id ∈ ids ∧ lookup.name id ≠ [] then some (lookup.name id) else names.get id := by
  induction ids generalizing index names with
  | nil => rw [lookUpNames, if_neg fun h => List.not_mem_nil h.1]
  | cons first rest ih =>
      rw [lookUpNames, if_neg (Nat.not_le.2 (htime index)), ih]
      by_cases hrest : id ∈ rest ∧ lookup.name id ≠ []
      · rw [if_pos hrest, if_pos ⟨List.mem_cons_of_mem _ hrest.1, hrest.2⟩]
      · rw [if_neg hrest]
        by_cases hfirst : id = first
        · subst hfirst
          by_cases hname : lookup.name id = []
          · simp [hname]
          · simp [hname, JsMap.get_set]
        · have hiff : id ∈ first :: rest ∧ lookup.name id ≠ [] ↔
              id ∈ rest ∧ lookup.name id ≠ [] := by
            rw [List.mem_cons, or_iff_right hfirst]
          rw [if_neg (hiff.not.2 hrest)]
          split_ifs
          · rw [JsMap.get_set, if_neg hfirst]
          · rfl

namespace Host

variable {ρ : Type} {host : Host ρ}

/-- The ids of the styles of a node. -/
def styleIdsOf (host : Host ρ) (node : ρ) : List JsString :=
  styleIdFields.filterMap fun entry => host.styleId node entry.1

theorem noteStyles_eq (s : PendingIds) (node : ρ) :
    host.noteStyles s node =
      (host.styleIdsOf node).foldl (PendingIds.add maxStyleNameLookups) s := by
  rw [noteStyles, styleIdsOf, List.foldl_filterMap]
  congr 1
  funext s entry
  cases host.styleId node entry.1 <;> rfl

/-! ## Identities -/

/-- The instances of a list, as a pass collects them. -/
theorem foldl_noteInstances (nodes instances : List ρ) :
    nodes.foldl host.noteInstances instances =
      instances ++ nodes.filter fun node => host.isType node "INSTANCE" := by
  induction nodes generalizing instances with
  | nil => exact (List.append_nil _).symm
  | cons node nodes ih =>
      rw [List.foldl_cons, ih, noteInstances, List.filter_cons]
      split_ifs <;> simp

variable {main : ρ → Option ρ} {identities : JsMap JsString InstanceValue}
  {identity : InstanceValue}

theorem get_addIdentity_other {node : ρ} {id : JsString} (h : host.id node ≠ id) :
    (host.addIdentity main identities node).get id = identities.get id := by
  unfold addIdentity
  split_ifs
  · rfl
  · cases host.resolveInstanceIdentity main node with
    | none => rfl
    | some other => exact (JsMap.get_set _ _ _ _).trans (if_neg (Ne.symm h))

theorem get_addIdentity_self {node : ρ} (hid : host.id node ≠ [])
    (hresolve : host.resolveInstanceIdentity main node = some identity)
    (hget : ∀ found, identities.get (host.id node) = some found → found = identity) :
    (host.addIdentity main identities node).get (host.id node) = some identity := by
  unfold addIdentity
  cases hhas : identities.get (host.id node) with
  | some found => rw [if_pos (Or.inr (by rw [JsMap.has, hhas]; rfl)), hhas, hget found hhas]
  | none =>
      rw [if_neg (not_or.2 ⟨hid, by rw [JsMap.has, hhas]; exact Bool.false_ne_true⟩), hresolve]
      exact (JsMap.get_set _ _ _ _).trans (if_pos rfl)

/-- The identity of an id, where all the instances that have the id resolve to it. -/
theorem get_foldl_addIdentity {id : JsString} (hid : id ≠ []) {instances : List ρ}
    (hsame : ∀ node ∈ instances, host.id node = id →
      host.resolveInstanceIdentity main node = some identity)
    (hget : ∀ found, identities.get id = some found → found = identity)
    (hsome : (identities.get id).isSome ∨ ∃ node ∈ instances, host.id node = id) :
    (instances.foldl (host.addIdentity main) identities).get id = some identity := by
  induction instances generalizing identities with
  | nil =>
      rcases hsome with hsome | ⟨node, hnode, -⟩
      · obtain ⟨found, hfound⟩ := Option.isSome_iff_exists.1 hsome
        rw [List.foldl_nil, hfound, hget found hfound]
      · exact absurd hnode List.not_mem_nil
  | cons node rest ih =>
      have hrest := fun other hother => hsame other (List.mem_cons_of_mem _ hother)
      rw [List.foldl_cons]
      by_cases hnode : host.id node = id
      · subst hnode
        have hself := get_addIdentity_self hid (hsame node List.mem_cons_self rfl) hget
        apply ih hrest
        · intro found hfound
          exact Option.some.inj (hfound.symm.trans hself)
        · exact Or.inl (by rw [hself]; rfl)
      · have hother : (host.addIdentity main identities node).get id = identities.get id :=
          get_addIdentity_other hnode
        apply ih hrest
        · rw [hother]
          exact hget
        · rw [hother]
          apply hsome.imp_right
          rintro ⟨other, hmem, rfl⟩
          rcases List.mem_cons.1 hmem with rfl | hmem
          · exact absurd rfl hnode
          · exact ⟨other, hmem, rfl⟩

/-! ## The passes over a forest -/

variable [DecidableEq ρ]

theorem get_collectStyleNames {lookup : NameLookup} {depth : ℤ} {elapsed : ℕ → ℕ} {budgetMs : ℕ}
    {roots : List ρ} (htime : ∀ index, elapsed index < budgetMs)
    (hfew : ((host.nodesTo depth roots).flatMap host.styleIdsOf).dedup.length ≤
      maxStyleNameLookups) {id : JsString}
    (hid : id ∈ (host.nodesTo depth roots).flatMap host.styleIdsOf) (hname : lookup.name id ≠ []) :
    (host.collectStyleNames (some lookup) depth elapsed budgetMs roots).get id =
      some (lookup.name id) := by
  have hpass : host.prepassForest host.noteStyles depth roots {} =
      ((host.nodesTo depth roots).flatMap host.styleIdsOf).foldl
        (PendingIds.add maxStyleNameLookups) {} := by
    rw [prepassForest_eq, List.foldl_flatMap]
    congr 1
    funext s node
    exact noteStyles_eq s node
  rw [collectStyleNames]
  rw [get_lookUpNames htime, hpass, if_pos ⟨(PendingIds.mem_pending hfew).2 hid, hname⟩]

theorem get_collectVariableNames {lookup : NameLookup} {depth : ℤ} {elapsed : ℕ → ℕ}
    {budgetMs : ℕ} {roots : List ρ} (htime : ∀ index, elapsed index < budgetMs)
    (hfew : ((host.nodesTo depth roots).flatMap host.variableIdsOf).dedup.length ≤
      maxVariableNameLookups) {id : JsString}
    (hid : id ∈ (host.nodesTo depth roots).flatMap host.variableIdsOf)
    (hname : lookup.name id ≠ []) :
    (host.collectVariableNames (some lookup) depth elapsed budgetMs roots).get id =
      some (lookup.name id) := by
  have hpass : host.prepassForest host.noteVariables depth roots {} =
      ((host.nodesTo depth roots).flatMap host.variableIdsOf).foldl
        (PendingIds.add maxVariableNameLookups) {} := by
    rw [prepassForest_eq, List.foldl_flatMap]
    rfl
  rw [collectVariableNames]
  rw [get_lookUpNames htime, hpass, if_pos ⟨(PendingIds.mem_pending hfew).2 hid, hname⟩]

/-- **An instance whose identity resolves is among the identities**, where it has an id that no
other instance has with another identity. -/
theorem get_collectInstanceIdentities {depth : ℤ} {roots : List ρ} {node : ρ}
    (hnode : node ∈ host.nodesTo depth roots) (hinstance : host.isType node "INSTANCE")
    (hid : host.id node ≠ [])
    (hsame : ∀ other ∈ host.nodesTo depth roots, host.isType other "INSTANCE" →
      host.id other = host.id node → host.resolveInstanceIdentity main other = some identity) :
    (host.collectInstanceIdentities main depth roots).get (host.id node) = some identity := by
  rw [collectInstanceIdentities, prepassForest_eq, foldl_noteInstances, List.nil_append]
  apply get_foldl_addIdentity hid
  · intro other hother
    exact hsame other (List.mem_filter.1 hother).1 (List.mem_filter.1 hother).2
  · intro found hfound
    cases hfound
  · exact Or.inr ⟨node, List.mem_filter.2 ⟨hnode, hinstance⟩, rfl⟩

end Host

/-! ## What is emitted carries what was looked up -/

/-- The styles in the data of a node. -/
def NodeData.styleReferences : NodeData → List StyleReference
  | .minimal => []
  | .compact data => data.styleReferences
  | .full data => data.styleReferences

/-- The variables in the data of a node. -/
def NodeData.variableReferences : NodeData → List VariableReference
  | .minimal => []
  | .compact data => data.variableReferences
  | .full data => data.variableReferences

/-- The component in the data of an instance. -/
def NodeData.inst : NodeData → Option InstanceValue
  | .minimal => none
  | .compact data => data.inst
  | .full data => data.inst

/-- What the passes ask of the host, and the time they have for it. -/
structure Lookups (ρ : Type) where
  style : NameLookup
  variable_ : NameLookup
  main : ρ → Option ρ
  styleTime : ℕ → ℕ
  styleBudgetMs : ℕ := defaultStyleNameBudgetMs
  variableTime : ℕ → ℕ
  variableBudgetMs : ℕ := defaultVariableNameBudgetMs

/-- No lookup is past its budget. -/
structure Lookups.InTime {ρ : Type} (lookups : Lookups ρ) : Prop where
  style : ∀ index, lookups.styleTime index < lookups.styleBudgetMs
  variable_ : ∀ index, lookups.variableTime index < lookups.variableBudgetMs

namespace Host

variable {ρ : Type} [DecidableEq ρ] {host : Host ρ} {options : SerializeNodeForestOptions}
  {lookups : Lookups ρ} {roots : List ρ}

/-- What the three passes come back with. -/
def collected (host : Host ρ) (lookups : Lookups ρ) (depth : ℤ) (roots : List ρ) : Names :=
  { instanceIdentities := (host.collectInstanceIdentities lookups.main depth roots).get
    styleNames :=
      (host.collectStyleNames (some lookups.style) depth lookups.styleTime lookups.styleBudgetMs
        roots).get
    variableNames :=
      (host.collectVariableNames (some lookups.variable_) depth lookups.variableTime
        lookups.variableBudgetMs roots).get }

omit [DecidableEq ρ] in
theorem mem_styleReferences {detail : DetailLevel} {names : Names} {node : ρ}
    {reference : StyleReference}
    (h : reference ∈ (host.nodeData detail names node).styleReferences) :
    reference.id ∈ host.styleIdsOf node ∧
      reference.name = ((names.styleNames reference.id).filter (· ≠ [])).map clampText := by
  have hmem : reference ∈ host.styleReferences node names.styleNames := by
    cases detail with
    | minimal => exact absurd h List.not_mem_nil
    | compact => exact h
    | full => exact h
  rw [styleReferences, List.mem_filterMap] at hmem
  obtain ⟨entry, hentry, hmem⟩ := hmem
  obtain ⟨id, hid, rfl⟩ := Option.map_eq_some_iff.1 hmem
  exact ⟨List.mem_filterMap.2 ⟨entry, hentry, hid⟩, rfl⟩

omit [DecidableEq ρ] in
theorem mem_variableReferences {detail : DetailLevel} {names : Names} {node : ρ}
    {reference : VariableReference}
    (h : reference ∈ (host.nodeData detail names node).variableReferences) :
    reference.id ∈ host.variableIdsOf node ∧
      reference.name = ((names.variableNames reference.id).filter (· ≠ [])).map clampText := by
  have hmem : reference ∈ host.variableReferences node names.variableNames := by
    cases detail with
    | minimal => exact absurd h List.not_mem_nil
    | compact => exact h
    | full => exact h
  rw [variableReferences, List.mem_map] at hmem
  obtain ⟨id, hid, rfl⟩ := hmem
  exact ⟨hid, rfl⟩

omit [DecidableEq ρ] in
theorem inst_nodeData {detail : DetailLevel} (hdetail : detail ≠ .minimal) {names : Names}
    {node : ρ} (hinstance : host.isType node "INSTANCE") (hid : host.id node ≠ [])
    {identity : InstanceValue}
    (h : names.instanceIdentities (host.id node) = some identity) :
    (host.nodeData detail names node).inst = some identity := by
  have hvalue : host.instanceValue node names.instanceIdentities = some identity := by
    rw [instanceValue, hinstance, if_neg (by simp), if_neg hid, h]
  cases detail with
  | minimal => exact absurd rfl hdetail
  | compact => exact hvalue
  | full => exact hvalue

/-- A name that is there is emitted, cut to the length of a text. -/
theorem filter_map_clampText {names : JsString → Option JsString} {id name : JsString}
    (h : names id = some name) (hname : name ≠ []) :
    ((names id).filter (· ≠ [])).map clampText = some (clampText name) := by
  rw [h, Option.filter_some, if_pos (decide_eq_true hname), Option.map_some]

/-- Where the other instances of its id have the identity of the node. -/
def SharesIdentity (host : Host ρ) (main : ρ → Option ρ) (nodes : List ρ) (node : ρ) : Prop :=
  ∀ other ∈ nodes, host.isType other "INSTANCE" → host.id other = host.id node →
    host.resolveInstanceIdentity main other = host.resolveInstanceIdentity main node

/-- **The passes and the serializer go through the same nodes, and what the passes have looked up
is there in what is emitted**: each name, cut to the length of a text, of no more ids than a pass
looks up, and each identity of an instance that has an id. -/
theorem prepasses_agree {height : ρ → ℕ} (hacyclic : host.Acyclic height)
    (hdedupe : options.dedupeComponents = false)
    (hlimits : host.FitsLimits options (host.nodesTo options.depth roots))
    (hnames : options.names = host.collected lookups options.depth roots)
    (htime : lookups.InTime) :
    (∀ {σ : Type} (note : σ → ρ → σ) (s : σ), host.prepassForest note options.depth roots s =
      (host.nodesTo options.depth roots).foldl note s) ∧
    (((host.nodesTo options.depth roots).flatMap host.styleIdsOf).dedup.length ≤
        maxStyleNameLookups →
      ∀ record ∈ (host.serializeNodeForest options roots).records,
        ∀ reference ∈ record.data.styleReferences, lookups.style.name reference.id ≠ [] →
          reference.name = some (clampText (lookups.style.name reference.id))) ∧
    (((host.nodesTo options.depth roots).flatMap host.variableIdsOf).dedup.length ≤
        maxVariableNameLookups →
      ∀ record ∈ (host.serializeNodeForest options roots).records,
        ∀ reference ∈ record.data.variableReferences,
          lookups.variable_.name reference.id ≠ [] →
          reference.name = some (clampText (lookups.variable_.name reference.id))) ∧
    List.Forall₂
      (fun record node =>
        (record.summary, record.data) = host.emitted options node ∧
        (options.detail ≠ .minimal → host.isType node "INSTANCE" → host.id node ≠ [] →
          host.SharesIdentity lookups.main (host.nodesTo options.depth roots) node →
          ∀ identity, host.resolveInstanceIdentity lookups.main node = some identity →
            record.data.inst = some identity))
      (host.serializeNodeForest options roots).records (host.nodesTo options.depth roots) := by
  have hrecords := records_of_not_halted hdedupe
    (not_halted_of_fitsLimits hacyclic hdedupe hlimits)
  -- a record is what a node on the list is emitted as
  have hdata : ∀ record ∈ (host.serializeNodeForest options roots).records,
      ∃ node ∈ host.nodesTo options.depth roots,
        record.data = host.nodeData options.detail options.names node := by
    intro record hrecord
    have hmem : (record.summary, record.data) ∈
        (host.nodesTo options.depth roots).map (host.emitted options) := by
      rw [← hrecords]
      exact List.mem_map.2 ⟨record, hrecord, rfl⟩
    obtain ⟨node, hnode, heq⟩ := List.mem_map.1 hmem
    exact ⟨node, hnode, (congrArg Prod.snd heq).symm⟩
  refine ⟨fun note s => prepassForest_eq note options.depth roots s, ?_, ?_, ?_⟩
  · intro hfew record hrecord reference hreference hname
    obtain ⟨node, hnode, heq⟩ := hdata record hrecord
    rw [heq] at hreference
    have ⟨hid, hvalue⟩ := mem_styleReferences hreference
    rw [hvalue, hnames]
    apply filter_map_clampText _ hname
    exact get_collectStyleNames htime.style hfew (List.mem_flatMap.2 ⟨node, hnode, hid⟩) hname
  · intro hfew record hrecord reference hreference hname
    obtain ⟨node, hnode, heq⟩ := hdata record hrecord
    rw [heq] at hreference
    have ⟨hid, hvalue⟩ := mem_variableReferences hreference
    rw [hvalue, hnames]
    apply filter_map_clampText _ hname
    exact get_collectVariableNames htime.variable_ hfew (List.mem_flatMap.2 ⟨node, hnode, hid⟩)
      hname
  · have hpairs : List.Forall₂
        (fun record node => (record.summary, record.data) = host.emitted options node)
        (host.serializeNodeForest options roots).records (host.nodesTo options.depth roots) := by
      rw [← List.forall₂_map_right_iff, ← List.forall₂_map_left_iff]
      exact List.forall₂_eq_eq_eq.symm ▸ hrecords
    rw [List.forall₂_iff_zip] at hpairs ⊢
    refine ⟨hpairs.1, ?_⟩
    intro record node hzip
    have heq := hpairs.2 hzip
    have hnode := (List.of_mem_zip hzip).2
    refine ⟨heq, fun hdetail hinstance hid hshares identity hresolve => ?_⟩
    have hvalue : record.data = host.nodeData options.detail options.names node :=
      congrArg Prod.snd heq
    rw [hvalue]
    apply inst_nodeData hdetail hinstance hid
    rw [hnames]
    apply get_collectInstanceIdentities hnode hinstance hid
    intro other hother hinst hsame
    exact (hshares other hother hinst hsame).trans hresolve

/-- A frame with an instance in it, and next to the instance a layer with a layer of its own. The
component of the instance is in a set. -/
def composed : Host (Fin 6) where
  get node key :=
    if key = "id" then .string (text (["1:1", "1:2", "1:3", "1:4", "2:1", "2:2"].get node))
    else if key = "type" then
      .string (text
        (["FRAME", "INSTANCE", "FRAME", "FRAME", "COMPONENT", "COMPONENT_SET"].get node))
    else if key = "fillStyleId" ∧ node = 1 then .string (text "S:1")
    else if key = "boundVariables" ∧ node = 2 then
      .object (member "fills" (.array [.object (member "id" (word "V:1"))]))
    else .undefined
  parent node := if node = 4 then some 5 else none
  children node := [[1, 2], [], [3], [], [], []].get node
  children_length := by decide

/-- A document in which every style and every variable has a name, and the instance a component. -/
def composedLookups : Lookups (Fin 6) where
  style _ := some (.object (member "name" (word "Red")))
  variable_ _ := some (.object (member "name" (word "accent")))
  main node := if node = 1 then some 4 else none
  styleTime _ := 0
  variableTime _ := 0

/-- A compact read one level deep, with the names that were found. -/
def composedOptions : SerializeNodeForestOptions :=
  { detail := .compact, depth := 1, dedupeComponents := false
    names := composed.collected composedLookups 1 [0] }

/-- The identity that is found by way of the component. -/
def composedIdentity : InstanceValue :=
  { componentId := text "2:1", properties := [], componentSetId := some (text "2:2") }

theorem nodesTo_composed : composed.nodesTo 1 [0] = [0, 1, 2] := by
  decide +kernel

theorem acyclic_composed : composed.Acyclic fun node => [2, 0, 1, 0, 0, 0].get node := by
  refine ⟨?_, by decide +kernel⟩
  show ∀ node, ∀ child ∈ composed.visibleChildren node, _
  decide +kernel

theorem fitsLimits_composed : composed.FitsLimits composedOptions (composed.nodesTo 1 [0]) := by
  rw [nodesTo_composed]
  exact ⟨by decide +kernel, by decide +kernel, by decide +kernel⟩

theorem resolveInstanceIdentity_composed :
    composed.resolveInstanceIdentity composedLookups.main 1 = some composedIdentity := by
  decide +kernel

/-- The style and the variable are emitted with their names, and the instance with the component
that has been resolved; the layer at level 2 is not emitted. -/
theorem prepasses_agree_composed :
    ∃ frame inst layer,
      (composed.serializeNodeForest composedOptions [0]).records = [frame, inst, layer] ∧
      inst.data.inst = some composedIdentity ∧
      inst.data.styleReferences.length = 1 ∧ layer.data.variableReferences.length = 1 ∧
      (∀ reference ∈ inst.data.styleReferences,
        composedLookups.style.name reference.id ≠ [] →
          reference.name = some (clampText (composedLookups.style.name reference.id))) ∧
      ∀ reference ∈ layer.data.variableReferences,
        composedLookups.variable_.name reference.id ≠ [] →
          reference.name = some (clampText (composedLookups.variable_.name reference.id)) := by
  have ⟨_, hstyles, hvariables, hrecords⟩ := @prepasses_agree (Fin 6) _ composed composedOptions
    composedLookups [0] _ acyclic_composed rfl fitsLimits_composed rfl
    ⟨fun _ => Nat.succ_pos 1999, fun _ => Nat.succ_pos 1999⟩
  have hnodes : composed.nodesTo composedOptions.depth [0] = [0, 1, 2] := nodesTo_composed
  rw [hnodes] at hstyles hvariables hrecords
  generalize (composed.serializeNodeForest composedOptions [0]).records = records at *
  cases hrecords with
  | cons hframe hrecords =>
  cases hrecords with
  | cons hinst hrecords =>
  cases hrecords with
  | cons hlayer hrecords =>
  cases hrecords
  refine ⟨_, _, _, rfl, ?_, ?_, ?_, hstyles (by decide +kernel) _ (by simp),
    hvariables (by decide +kernel) _ (by simp)⟩
  · refine hinst.2 (by decide) (by decide +kernel) (by decide +kernel) ?_ _
      resolveInstanceIdentity_composed
    unfold SharesIdentity
    decide +kernel
  · rw [(Prod.mk.inj hinst.1).2]
    decide +kernel
  · rw [(Prod.mk.inj hlayer.1).2]
    decide +kernel

/-- An instance that is painted with a style. -/
def styled : Host Unit where
  get _ key :=
    if key = "id" then .string (text "1:2")
    else if key = "type" then .string (text "INSTANCE")
    else if key = "componentId" then .string (text "1:1")
    else if key = "fillStyleId" then .string (text "S:1")
    else .undefined
  parent _ := none
  children _ := []
  children_length _ := by simp

/-- A document in which every style has the name. -/
def styledLookups (name : JsString) : Lookups Unit where
  style _ := some (.object [(text "name", .string name)])
  variable_ _ := none
  main _ := none
  styleTime _ := 0
  variableTime _ := 0

/-- A compact read of one node, with the name that was found. -/
def styledOptions (name : JsString) : SerializeNodeForestOptions :=
  { detail := .compact, depth := 0, dedupeComponents := false
    names := styled.collected (styledLookups name) 0 [()] }

theorem acyclic_styled : styled.Acyclic fun _ => 0 := by
  refine ⟨fun node child hchild => ?_, fun _ _ _ _ => rfl⟩
  exact absurd (List.mem_filter.1 hchild).1 List.not_mem_nil

theorem inTime_styledLookups (name : JsString) : (styledLookups name).InTime :=
  ⟨fun _ => Nat.succ_pos 1999, fun _ => Nat.succ_pos 1999⟩

/-- A name of 257 letters is looked up and not emitted: what is emitted is cut to 256. -/
theorem prepasses_disagree :
    styled.Acyclic (fun _ => 0) ∧
    styled.FitsLimits (styledOptions (List.replicate 257 0x41)) (styled.nodesTo 0 [()]) ∧
    (styledLookups (List.replicate 257 0x41)).InTime ∧
    ((styled.nodesTo 0 [()]).flatMap styled.styleIdsOf).dedup.length ≤ maxStyleNameLookups ∧
    ∃ record ∈ (styled.serializeNodeForest (styledOptions (List.replicate 257 0x41)) [()]).records,
      ∃ reference ∈ record.data.styleReferences,
        (styledLookups (List.replicate 257 0x41)).style.name reference.id ≠ [] ∧
        reference.name ≠
          some ((styledLookups (List.replicate 257 0x41)).style.name reference.id) := by
  refine ⟨acyclic_styled, ⟨by decide +kernel, by decide +kernel, by decide +kernel⟩,
    inTime_styledLookups _, by decide +kernel, ?_⟩
  decide +kernel

end Host

end FigmaDevMcp

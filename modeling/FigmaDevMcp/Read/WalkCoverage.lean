import FigmaDevMcp.Lib.WholeWalk
import FigmaDevMcp.Read.Completeness
import FigmaDevMcp.Read.Dedupe
import FigmaDevMcp.Read.ForestWalk
import Mathlib.Algebra.Order.BigOperators.Group.List
import Mathlib.Algebra.Order.Group.Nat

set_option autoImplicit false

/-!
# What a walk of a forest covers

`walkNodeForest` of `serialize.ts` for every visitor, also one that returns payloads to the walk.

* `NodeVisit`, `walkNodeWith`, `walkNodeForestWith`: the walk; on a graph with cycles nothing but its
  counter bounds it, so it is given fuel, and has no result where that runs out;
* `walkNodeForestWith_returns`: fuel for one visit more than the limit is always enough;
* `walkNodeForest_covers`: **a walk that is not truncated visits the nodes that the serializer
  emits**, in its order.
-/

namespace FigmaDevMcp

open PreorderWalk

/-- The counters of a walk, as its visitor reads them. -/
structure ForestWalkContext where
  visitedNodes : ℕ
  returnedNodes : ℕ
  encodedBytes : ℕ

/-- What a visitor does with a node: it returns payloads, learning of each whether it was taken, and
ends with what it has collected. -/
inductive NodeVisit (σ : Type)
  | collect (seen : σ)
  | tryReturn (payload : JsValue) (next : Bool → ForestWalkContext → NodeVisit σ)

namespace SerializerContext

/-- What a visitor sees of the context. -/
def walkVisitor (context : SerializerContext) : ForestWalkContext where
  visitedNodes := context.visitedNodes
  returnedNodes := context.returnedNodes
  encodedBytes := context.encodedBytes

variable (limits : SerializerLimits)

/-- A payload is returned, if the limits allow it. -/
def tryReturn (payload : JsValue) (context : SerializerContext) : Bool × SerializerContext :=
  if limits.returnedNodes ≤ context.returnedNodes then
    (false, context.markTruncated (.nodeLimit context.visitedNodes))
  else if limits.encodedBytes < context.encodedBytes + byteLength payload then
    (false, context.markTruncated (.byteLimit (context.encodedBytes + byteLength payload)))
  else (true, context.charge (byteLength payload))

theorem markTruncated_visitedNodes (context : SerializerContext) (truncation : Truncation) :
    (context.markTruncated truncation).visitedNodes = context.visitedNodes := by
  unfold markTruncated
  split
  · rfl
  · split_ifs <;> rfl

theorem markTruncated_isSome (context : SerializerContext) (truncation : Truncation) :
    (context.markTruncated truncation).truncation.isSome := by
  unfold markTruncated
  split
  · rfl
  · next hcurrent => split_ifs <;> simp [hcurrent]

theorem tryReturn_visitedNodes (payload : JsValue) (context : SerializerContext) :
    (tryReturn limits payload context).2.visitedNodes = context.visitedNodes := by
  unfold tryReturn
  split_ifs
  · exact markTruncated_visitedNodes _ _
  · exact markTruncated_visitedNodes _ _
  · rfl

end SerializerContext

/-- A visit, with the counters of the walk. -/
def NodeVisit.run {σ : Type} (limits : SerializerLimits) : NodeVisit σ → SerializerContext →
    σ × SerializerContext
  | collect seen, context => (seen, context)
  | tryReturn payload next, context =>
    let (taken, context) := context.tryReturn limits payload
    (next taken context.walkVisitor).run limits context

/-- No visit changes the number of visits. -/
theorem NodeVisit.run_visitedNodes {σ : Type} (limits : SerializerLimits) (v : NodeVisit σ)
    (context : SerializerContext) : (v.run limits context).2.visitedNodes = context.visitedNodes := by
  induction v generalizing context with
  | collect seen => rfl
  | tryReturn payload next ih =>
      rw [run]
      exact (ih _ _ _).trans (SerializerContext.tryReturn_visitedNodes limits payload context)

/-- A walk on its way: the nodes visited so far, what was collected, and the counters. -/
structure ForestVisits (ρ σ : Type) where
  visits : List ρ := []
  seen : σ
  context : SerializerContext := {}

namespace ForestVisits

variable {ρ σ : Type}

/-- A loop over nodes, up to the one at which the walk is cut. -/
def walkRow (walk : ρ → ForestVisits ρ σ → Option (ForestVisits ρ σ)) :
    List ρ → ForestVisits ρ σ → Option (ForestVisits ρ σ)
  | [], w => some w
  | node :: rest, w =>
    (walk node w).bind fun w =>
      if w.context.truncation.isSome then some w else walkRow walk rest w

/-- A visit of the walk to a node. -/
def visit (limits : SerializerLimits) (visitor : ρ → ForestWalkContext → σ → NodeVisit σ) (node : ρ)
    (w : ForestVisits ρ σ) : ForestVisits ρ σ :=
  let (seen, context) := (visitor node w.context.visit.walkVisitor w.seen).run limits w.context.visit
  { visits := w.visits ++ [node], seen, context }

theorem visit_visits (limits : SerializerLimits) (visitor : ρ → ForestWalkContext → σ → NodeVisit σ)
    (node : ρ) (w : ForestVisits ρ σ) : (w.visit limits visitor node).visits = w.visits ++ [node] :=
  rfl

theorem visit_visitedNodes (limits : SerializerLimits)
    (visitor : ρ → ForestWalkContext → σ → NodeVisit σ) (node : ρ) (w : ForestVisits ρ σ) :
    (w.visit limits visitor node).context.visitedNodes = w.context.visitedNodes + 1 :=
  NodeVisit.run_visitedNodes limits _ _

end ForestVisits

namespace Host

open ForestVisits

variable {ρ σ : Type} [DecidableEq ρ] (host : Host ρ) (limits : SerializerLimits)
  (visitor : ρ → ForestWalkContext → σ → NodeVisit σ)

/-- A visitor is walked over a node and what is below it, with fuel for the depth. -/
def walkNodeWith : ℕ → ρ → List JsString → ForestVisits ρ σ → Option (ForestVisits ρ σ)
  | 0, _, _, _ => none
  | fuel + 1, node, ancestors, w =>
    if limits.visitedNodes ≤ w.context.visitedNodes then
      some { w with context := w.context.markTruncated (.nodeLimit w.context.visitedNodes) }
    else
      let w := w.visit limits visitor node
      if w.context.truncation.isSome then some w
      else if host.id node ≠ [] ∧ host.id node ∈ ancestors then some w
      else
        let nextAncestors := if host.id node = [] then ancestors else host.id node :: ancestors
        walkRow (fun child => walkNodeWith fuel child nextAncestors) (host.visibleChildren node) w

/-- A visitor is walked over a forest, with fuel for the depth. -/
def walkNodeForestWith (fuel : ℕ) (roots : List ρ) (start : σ) : Option (ForestVisits ρ σ) :=
  walkRow (fun root => host.walkNodeWith limits visitor fuel root []) roots { seen := start }

end Host

/-! ## The walk ends -/

namespace ForestVisits

variable {ρ σ : Type} {limits : SerializerLimits}

/-- The counter counts the visits, and they are within the limit. -/
structure Counted (limits : SerializerLimits) (w : ForestVisits ρ σ) : Prop where
  visited : w.context.visitedNodes = w.visits.length
  within : w.context.visitedNodes ≤ limits.visitedNodes

/-- Where the walk ends on all fuel of which the limit leaves some. -/
structure Ends (limits : SerializerLimits) (walk : ℕ → ForestVisits ρ σ → Option (ForestVisits ρ σ))
    (w w' : ForestVisits ρ σ) : Prop where
  counted : Counted limits w'
  grows : w.context.visitedNodes ≤ w'.context.visitedNodes
  ends : ∀ fuel, limits.visitedNodes < fuel + w.context.visitedNodes → walk fuel w = some w'

theorem walkRow_ends {walk : ℕ → ρ → ForestVisits ρ σ → Option (ForestVisits ρ σ)} {n : ℕ}
    (hwalk : ∀ node (w : ForestVisits ρ σ), Counted limits w → n ≤ w.context.visitedNodes →
      ∃ w', Ends limits (fun fuel => walk fuel node) w w')
    (nodes : List ρ) {w : ForestVisits ρ σ} (hw : Counted limits w) (hn : n ≤ w.context.visitedNodes) :
    ∃ w', Ends limits (fun fuel => walkRow (walk fuel) nodes) w w' := by
  induction nodes generalizing w with
  | nil => exact ⟨w, hw, le_rfl, fun fuel _ => rfl⟩
  | cons node rest ih =>
      obtain ⟨first, hfirst⟩ := hwalk node w hw hn
      cases htruncated : first.context.truncation.isSome with
      | true =>
          refine ⟨first, hfirst.counted, hfirst.grows, fun fuel hfuel => ?_⟩
          rw [walkRow, hfirst.ends fuel hfuel, Option.bind_some, htruncated, if_pos rfl]
      | false =>
          obtain ⟨last, hlast⟩ := ih hfirst.counted (hn.trans hfirst.grows)
          refine ⟨last, hlast.counted, hfirst.grows.trans hlast.grows, fun fuel hfuel => ?_⟩
          have hgrows := hfirst.grows
          rw [walkRow, hfirst.ends fuel hfuel, Option.bind_some, htruncated, if_neg Bool.false_ne_true]
          exact hlast.ends fuel (by omega)

end ForestVisits

namespace Host

open ForestVisits

variable {ρ σ : Type} [DecidableEq ρ] {host : Host ρ} {limits : SerializerLimits}
  {visitor : ρ → ForestWalkContext → σ → NodeVisit σ}

/-- **Every level of a walk makes a visit**, so fuel beyond what the limit leaves is never used. -/
theorem walkNodeWith_ends (left : ℕ) (node : ρ) (ancestors : List JsString) {w : ForestVisits ρ σ}
    (hw : Counted limits w) (hleft : limits.visitedNodes < left + w.context.visitedNodes) :
    ∃ w', Ends limits (fun fuel => host.walkNodeWith limits visitor fuel node ancestors) w w' := by
  induction left generalizing node ancestors w with
  | zero =>
      have hwithin := hw.within
      omega
  | succ left ih =>
      by_cases hfull : limits.visitedNodes ≤ w.context.visitedNodes
      · refine ⟨{ w with context := w.context.markTruncated (.nodeLimit w.context.visitedNodes) },
          ⟨?_, ?_⟩, ?_, fun fuel hfuel => ?_⟩
        · exact (SerializerContext.markTruncated_visitedNodes _ _).trans hw.visited
        · exact (SerializerContext.markTruncated_visitedNodes _ _).trans_le hw.within
        · exact (SerializerContext.markTruncated_visitedNodes _ _).ge
        · obtain ⟨more, rfl⟩ := Nat.exists_eq_succ_of_ne_zero
            (show fuel ≠ 0 from fun h => by have := hw.within; omega)
          rw [walkNodeWith, if_pos hfull]
      have hvisit := visit_visitedNodes limits visitor node w
      have hcounted : Counted limits (w.visit limits visitor node) := by
        refine ⟨?_, by omega⟩
        rw [hvisit, hw.visited, visit_visits, List.length_append]
        rfl
      -- one visit, and then what comes of it on less fuel
      have hstep : ∀ {walk : ℕ → ForestVisits ρ σ → Option (ForestVisits ρ σ)} {w'},
          Ends limits walk (w.visit limits visitor node) w' →
          (∀ fuel, host.walkNodeWith limits visitor (fuel + 1) node ancestors w =
            walk fuel (w.visit limits visitor node)) →
          ∃ w', Ends limits (fun fuel => host.walkNodeWith limits visitor fuel node ancestors) w w' := by
        intro walk w' hends hwalk
        have hgrows := hends.grows
        refine ⟨w', hends.counted, by omega, fun fuel hfuel => ?_⟩
        obtain ⟨more, rfl⟩ := Nat.exists_eq_succ_of_ne_zero
          (show fuel ≠ 0 from fun h => by have := hw.within; omega)
        rw [Nat.succ_eq_add_one, hwalk]
        exact hends.ends more (by omega)
      have hstay : Ends limits (fun _ => some) (w.visit limits visitor node)
          (w.visit limits visitor node) := ⟨hcounted, le_rfl, fun _ _ => rfl⟩
      by_cases htruncated : (w.visit limits visitor node).context.truncation.isSome = true
      · refine hstep hstay fun fuel => ?_
        rw [walkNodeWith, if_neg hfull]
        dsimp only
        rw [if_pos htruncated]
      by_cases hcycle : host.id node ≠ [] ∧ host.id node ∈ ancestors
      · refine hstep hstay fun fuel => ?_
        rw [walkNodeWith, if_neg hfull]
        dsimp only
        rw [if_neg htruncated, if_pos hcycle]
      obtain ⟨w', hw'⟩ := @walkRow_ends _ _ limits
        (fun fuel child => host.walkNodeWith limits visitor fuel child
          (if host.id node = [] then ancestors else host.id node :: ancestors))
        (w.context.visitedNodes + 1) (fun child u hu hn => ih child _ hu (by omega))
        (host.visibleChildren node) _ hcounted hvisit.ge
      refine hstep hw' fun fuel => ?_
      rw [walkNodeWith, if_neg hfull]
      dsimp only
      rw [if_neg htruncated, if_neg hcycle]

variable (host limits visitor) in
/-- **A walk of any graph ends**, within its limit of visits. -/
theorem walkNodeForestWith_returns (roots : List ρ) (start : σ) :
    ∃ w, (∀ fuel, limits.visitedNodes < fuel →
        host.walkNodeForestWith limits visitor fuel roots start = some w) ∧
      w.visits.length ≤ limits.visitedNodes := by
  obtain ⟨w, hw⟩ := @walkRow_ends _ _ limits
    (fun fuel root => host.walkNodeWith limits visitor fuel root []) 0
    (fun root u hu _ => walkNodeWith_ends (limits.visitedNodes + 1) root [] hu (by omega))
    roots { seen := start } ⟨rfl, Nat.zero_le _⟩ le_rfl
  exact ⟨w, hw.ends, hw.counted.visited.ge.trans hw.counted.within⟩

end Host

/-! ## Visitors that only collect -/

/-- What such a walk is to its visitor. -/
def ForestVisits.walk {ρ σ : Type} (w : ForestVisits ρ σ) : ForestWalk σ := ⟨w.seen, w.context⟩

theorem ForestVisits.walkRow_walk {ρ σ : Type}
    {walk : ρ → ForestVisits ρ σ → Option (ForestVisits ρ σ)} {step : ρ → ForestWalk σ → ForestWalk σ}
    (hwalk : ∀ node w w', walk node w = some w' → step node w.walk = w'.walk) (nodes : List ρ)
    {w w' : ForestVisits ρ σ} (h : walkRow walk nodes w = some w') :
    ForestWalk.walkRow step nodes w.walk = w'.walk := by
  induction nodes generalizing w with
  | nil =>
      obtain rfl := Option.some.inj h
      rfl
  | cons node rest ih =>
      obtain ⟨first, hfirst, h⟩ := Option.bind_eq_some_iff.1 h
      rw [ForestWalk.walkRow, hwalk node w first hfirst]
      show (if first.context.truncation.isSome then first.walk else _) = _
      split_ifs at h ⊢ with htruncated
      · exact congrArg ForestVisits.walk (Option.some.inj h)
      · exact ih h

namespace Host

open ForestVisits

variable {ρ σ : Type} [DecidableEq ρ] {host : Host ρ} {limits : SerializerLimits} {visit : ρ → σ → σ}

theorem walkNodeWith_collect {fuel : ℕ} {node : ρ} {ancestors : List JsString}
    {w w' : ForestVisits ρ σ}
    (h : host.walkNodeWith limits (fun node _ seen => .collect (visit node seen)) fuel node ancestors w =
      some w') : host.walkNode limits visit fuel node ancestors w.walk = w'.walk := by
  induction fuel generalizing node ancestors w w' with
  | zero => cases h
  | succ fuel ih =>
      rw [walkNodeWith] at h
      rw [walkNode]
      show (if limits.visitedNodes ≤ w.context.visitedNodes then _ else _) = _
      by_cases hfull : limits.visitedNodes ≤ w.context.visitedNodes
      · rw [if_pos hfull] at h ⊢
        exact congrArg ForestVisits.walk (Option.some.inj h)
      rw [if_neg hfull] at h ⊢
      dsimp only at h ⊢
      show (if w.context.visit.truncation.isSome = true then _ else _) = _
      by_cases htruncated : w.context.visit.truncation.isSome = true
      · rw [if_pos htruncated]
        rw [if_pos (by exact htruncated)] at h
        exact congrArg ForestVisits.walk (Option.some.inj h)
      rw [if_neg htruncated]
      rw [if_neg (by exact htruncated)] at h
      by_cases hcycle : host.id node ≠ [] ∧ host.id node ∈ ancestors
      · rw [if_pos hcycle] at h ⊢
        exact congrArg ForestVisits.walk (Option.some.inj h)
      rw [if_neg hcycle] at h ⊢
      exact walkRow_walk (fun child u u' hu => ih hu) _ h

/-- The walk of a visitor that only collects is `walkNodeForest`. -/
theorem walkNodeForestWith_collect (roots : List ρ) (start : σ) :
    ∃ w, host.walkNodeForestWith limits (fun node _ seen => .collect (visit node seen))
        (limits.visitedNodes + 1) roots start = some w ∧
      host.walkNodeForest limits visit roots start = w.walk := by
  obtain ⟨w, hends, _⟩ := host.walkNodeForestWith_returns limits
    (fun node _ seen => .collect (visit node seen)) roots start
  have hw := hends _ (Nat.lt_succ_self _)
  exact ⟨w, hw, walkRow_walk (fun root u u' hu => walkNodeWith_collect hu) roots hw⟩

end Host

/-! ## What an uncut walk visits -/

namespace ForestVisits

variable {ρ σ : Type}

/-- A row of nodes where every walk that is not cut visits what is under its node. -/
theorem walkRow_visits {walk : ρ → ForestVisits ρ σ → Option (ForestVisits ρ σ)} {under : ρ → List ρ}
    {nodes : List ρ} (hwalk : ∀ node ∈ nodes, ∀ w w', walk node w = some w' →
      w'.context.truncation = none → w'.visits = w.visits ++ under node)
    {w w' : ForestVisits ρ σ} (h : walkRow walk nodes w = some w')
    (hnone : w'.context.truncation = none) : w'.visits = w.visits ++ nodes.flatMap under := by
  induction nodes generalizing w with
  | nil =>
      obtain rfl := Option.some.inj h
      exact (List.append_nil _).symm
  | cons node rest ih =>
      obtain ⟨first, hfirst, h⟩ := Option.bind_eq_some_iff.1 h
      split_ifs at h with htruncated
      · obtain rfl := Option.some.inj h
        rw [hnone] at htruncated
        cases htruncated
      · have hfirstNone : first.context.truncation = none := Option.not_isSome_iff_eq_none.1 htruncated
        rw [ih (fun other hother => hwalk other (List.mem_cons_of_mem _ hother)) h,
          hwalk node List.mem_cons_self w first hfirst hfirstNone, List.append_assoc,
          List.flatMap_cons]

end ForestVisits

namespace Host

open ForestVisits

variable {ρ σ : Type} {host : Host ρ} {height : ρ → ℕ}

/-- The nodes of a list have ids, all different. -/
structure Identified (host : Host ρ) (nodes : List ρ) : Prop where
  named : ∀ node ∈ nodes, host.id node ≠ []
  distinct : (nodes.map host.id).Nodup

theorem Identified.nodup {nodes : List ρ} (h : host.Identified nodes) : nodes.Nodup :=
  h.distinct.of_map

theorem Identified.of_append {nodes more : List ρ} (h : host.Identified (nodes ++ more)) :
    host.Identified nodes ∧ host.Identified more ∧
      ∀ node ∈ nodes, ∀ other ∈ more, host.id node ≠ host.id other := by
  have hdistinct := h.distinct
  rw [List.map_append, List.nodup_append] at hdistinct
  obtain ⟨hleft, hright, hapart⟩ := hdistinct
  refine ⟨⟨fun node hnode => h.named node (List.mem_append_left _ hnode), hleft⟩,
    ⟨fun node hnode => h.named node (List.mem_append_right _ hnode), hright⟩, ?_⟩
  intro node hnode other hother
  exact hapart _ (List.mem_map_of_mem hnode) _ (List.mem_map_of_mem hother)

variable [DecidableEq ρ] {limits : SerializerLimits} {visitor : ρ → ForestWalkContext → σ → NodeVisit σ}

theorem Identified.of_mem {nodes : List ρ} (h : host.Identified (host.visibleNodes height nodes))
    {node : ρ} (hnode : node ∈ nodes) : host.Identified (host.visibleNodes height [node]) := by
  rw [visibleNodes_eq_flatMap] at h
  obtain ⟨before, after, rfl⟩ := List.append_of_mem hnode
  rw [List.flatMap_append, List.flatMap_cons] at h
  exact h.of_append.2.1.of_append.1

/-- **A walk of a tree that is not cut** visits the node and what is under it, in preorder. -/
theorem walkNodeWith_visits (htree : host.IsTree height) {fuel : ℕ} {node : ρ}
    {ancestors : List JsString} {w w' : ForestVisits ρ σ}
    (hnodes : host.Identified (host.visibleNodes height [node]))
    (hancestors : ∀ other ∈ host.visibleNodes height [node], host.id other ∉ ancestors)
    (h : host.walkNodeWith limits visitor fuel node ancestors w = some w')
    (hnone : w'.context.truncation = none) :
    w'.visits = w.visits ++ host.visibleNodes height [node] := by
  induction fuel generalizing node ancestors w w' with
  | zero => cases h
  | succ fuel ih =>
      rw [walkNodeWith] at h
      rw [visibleNodes_singleton htree] at hnodes hancestors ⊢
      have hself := hancestors node List.mem_cons_self
      have hid := hnodes.named node List.mem_cons_self
      obtain ⟨_, hbelow, hapart⟩ := Identified.of_append (show host.Identified ([node] ++ _) from hnodes)
      by_cases hfull : limits.visitedNodes ≤ w.context.visitedNodes
      · rw [if_pos hfull] at h
        have hcut := SerializerContext.markTruncated_isSome w.context
          (.nodeLimit w.context.visitedNodes)
        obtain rfl := Option.some.inj h
        dsimp only at hnone
        rw [hnone] at hcut
        cases hcut
      rw [if_neg hfull] at h
      dsimp only at h
      by_cases htruncated : (w.visit limits visitor node).context.truncation.isSome = true
      · rw [if_pos htruncated] at h
        obtain rfl := Option.some.inj h
        rw [hnone] at htruncated
        cases htruncated
      rw [if_neg htruncated, if_neg fun hcycle => hself hcycle.2, if_neg hid] at h
      rw [walkRow_visits 
        (fun child hchild u u' hu hu' => ih
          (hbelow.of_mem hchild) (fun other hother hmem => ?_) hu hu') h hnone, visit_visits, List.append_assoc, ← visibleNodes_eq_flatMap, List.singleton_append]
      have hother' := mem_visibleNodes hchild hother
      rcases List.mem_cons.1 hmem with heq | hmem
      · exact hapart node (List.mem_singleton_self node) other hother' heq.symm
      · exact hancestors other (List.mem_cons_of_mem _ hother') hmem

theorem walkNodeForestWith_visits (htree : host.IsTree height) {fuel : ℕ} {roots : List ρ} {start : σ}
    {w : ForestVisits ρ σ} (hnodes : host.Identified (host.visibleNodes height roots))
    (h : host.walkNodeForestWith limits visitor fuel roots start = some w)
    (hnone : w.context.truncation = none) : w.visits = host.visibleNodes height roots := by
  rw [visibleNodes_eq_flatMap]
  exact walkRow_visits (fun root hroot u u' hu hu' =>
    walkNodeWith_visits htree (hnodes.of_mem hroot) (fun _ _ => List.not_mem_nil) hu hu') h hnone

/-! ## What the serializer emits -/

mutual

/-- The ids of a record that shows the whole of its node. -/
theorem ids_levels_of_shows (htree : host.IsTree height) (level : ℕ) : ∀ (record : DesignNode) (node : ρ),
    host.Shows record node →
      (record.levels level).map (fun r => r.2.summary.id) =
        (host.visibleNodes height [node]).map host.id
  | ⟨summary, data, children, childrenTruncated, childrenTruncation⟩, node, h => by
    obtain ⟨hself, _, hchildren⟩ := h
    rw [visibleNodes_singleton htree, DesignNode.levels, List.map_cons, List.map_cons,
      ids_forestLevels_of_showsAll htree (level + 1) children _ hchildren]
    exact congrArg (· :: _) hself.id

theorem ids_forestLevels_of_showsAll (htree : host.IsTree height) (level : ℕ) :
    ∀ (records : List DesignNode) (nodes : List ρ), host.ShowsAll records nodes →
      (forestLevels level records).map (fun r => r.2.summary.id) =
        (host.visibleNodes height nodes).map host.id
  | [], [], _ => rfl
  | [], _ :: _, h => h.elim
  | _ :: _, [], h => h.elim
  | record :: records, node :: nodes, h => by
    rw [forestLevels, List.map_append, ids_levels_of_shows htree level record node h.1,
      ids_forestLevels_of_showsAll htree level records nodes h.2, visibleNodes_eq_flatMap (node :: nodes),
      List.flatMap_cons, List.map_append, ← visibleNodes_eq_flatMap]

end

variable (host) in
/-- No limit cuts the serializer: it goes down to the bottom of the forest, and has room for all
of it. -/
structure Unlimited (height : ρ → ℕ) (roots : List ρ) (options : SerializeNodeForestOptions) :
    Prop where
  depth : ∀ root ∈ roots, height root ≤ options.appliedDepth
  room : Walk.Ample options.limits.budget ({} : Walk.State JsString)
    ((host.scene options).demand (host.visibleNodes height roots))

/-- Without stubs a serializer that no limit cuts reports no truncation. -/
theorem truncated_of_unlimited (htree : host.IsTree height) {roots : List ρ}
    (hnodes : host.Identified (host.visibleNodes height roots)) {options : SerializeNodeForestOptions}
    (hdedupe : options.dedupeComponents = false) (h : host.Unlimited height roots options) :
    (host.serializeNodeForest options roots).truncated = false := by
  have hlabel : ∀ {node l}, l ∈ (host.scene options).label node → host.id node = l := by
    intro node l hl
    by_cases hempty : host.id node = []
    · simp [scene, hempty] at hl
    · simpa [scene, hempty] using hl
  have hroom := h.room
  rw [visibleNodes_eq_flatMap] at hroom
  have hwhole := Walk.walkAll_whole (m := 0)
    (f := Walk.walk (host.scene options) options.limits.budget false options.appliedDepth [])
    (fun root hroot s m hs => ?_) hroom
  · rw [truncated_serializeNodeForest, forestRow, hdedupe, hwhole.2]
    rfl
  · have hroot' := hnodes.of_mem hroot
    have htree' : ∀ node, ∀ child ∈ (host.scene options).children node, height child < height node :=
      htree
    refine Walk.walk_whole htree' (h.depth root hroot) ?_ (fun _ _ _ _ => List.not_mem_nil) hs
    refine (List.pairwise_map.1 hroot'.distinct).imp fun hne l hl hl' => ?_
    exact hne ((hlabel hl).trans (hlabel hl').symm)

variable (height) in
/-- Wide enough options leave the serializer without limits. -/
theorem exists_unlimited (detail : DetailLevel) (names : Names) (roots : List ρ) :
    ∃ enough : ℕ, ∀ options : SerializeNodeForestOptions, options.detail = detail →
      options.names = names → (enough : ℤ) ≤ options.depth → enough ≤ options.limits.visitedNodes →
      enough ≤ options.limits.returnedNodes → enough ≤ options.limits.encodedBytes →
      host.Unlimited height roots options := by
  let room := (host.scene { detail, names, depth := 0, dedupeComponents := false }).demand
    (host.visibleNodes height roots)
  let bottom := (roots.map height).sum
  refine ⟨max room bottom, fun options hdetail hnames hdepth hvisits hreturns hbytes => ?_⟩
  have hdemand : (host.scene options).demand (host.visibleNodes height roots) = room := by
    obtain ⟨detail', depth, dedupe, names', limits⟩ := options
    subst hdetail hnames
    rfl
  refine ⟨fun root hroot => ?_, ?_⟩
  · have hle : height root ≤ bottom := List.single_le_sum (fun _ _ => Nat.zero_le _) _
      (List.mem_map_of_mem hroot)
    rw [SerializeNodeForestOptions.appliedDepth]
    omega
  · rw [hdemand]
    refine ⟨?_, ?_, ?_⟩
    · exact (Nat.zero_add room).trans_le ((le_max_left _ _).trans hvisits)
    · exact (Nat.zero_add room).trans_le ((le_max_left _ _).trans hreturns)
    · exact (Nat.zero_add room).trans_le ((le_max_left _ _).trans hbytes)

/-- The nodes of a forest are those its roots lead to. -/
theorem mem_visibleNodes_iff (htree : host.IsTree height) {roots : List ρ} {node : ρ} :
    node ∈ host.visibleNodes height roots ↔
      ∃ root ∈ roots, Relation.ReflTransGen (fun a b => b ∈ host.visibleChildren a) root node := by
  constructor
  · refine forall_ahead (P := fun node => ∃ root ∈ roots,
      Relation.ReflTransGen (fun a b => b ∈ host.visibleChildren a) root node)
      (fun a ⟨root, hroot, ha⟩ b hb => ⟨root, hroot, ha.tail hb⟩)
      (fun root hroot => ⟨root, hroot, .refl⟩) node
  · rintro ⟨root, hroot, hnode⟩
    refine mem_visibleNodes hroot ?_
    clear hroot
    induction hnode using Relation.ReflTransGen.head_induction_on with
    | refl =>
        rw [visibleNodes_singleton htree]
        exact List.mem_cons_self
    | head hchild _ ih =>
        rw [visibleNodes_singleton htree]
        exact List.mem_cons_of_mem _ (mem_visibleNodes hchild ih)

variable (host limits visitor) in
/-- **What a walk covers.** On any graph it ends within its limit of visits. On a forest it visits,
where it is not truncated, every visible node once and in preorder, which are the ids that the
serializer emits where no limit cuts it. -/
theorem walkNodeForest_covers (roots : List ρ) (start : σ) :
    ∃ w, (∀ fuel, limits.visitedNodes < fuel →
        host.walkNodeForestWith limits visitor fuel roots start = some w) ∧
      w.visits.length ≤ limits.visitedNodes ∧
      ∀ height, host.IsTree height → host.Identified (host.visibleNodes height roots) →
        w.context.truncation = none →
          w.visits = host.visibleNodes height roots ∧ w.visits.Nodup ∧
          (∀ node, node ∈ w.visits ↔ ∃ root ∈ roots,
            Relation.ReflTransGen (fun a b => b ∈ host.visibleChildren a) root node) ∧
          (∀ options, options.dedupeComponents = false → host.Unlimited height roots options →
            forestIds (host.serializeNodeForest options roots).nodes = w.visits.map host.id) ∧
          ∀ detail names, ∃ enough : ℕ, ∀ options : SerializeNodeForestOptions,
            options.detail = detail → options.names = names → (enough : ℤ) ≤ options.depth →
            enough ≤ options.limits.visitedNodes → enough ≤ options.limits.returnedNodes →
            enough ≤ options.limits.encodedBytes → host.Unlimited height roots options := by
  obtain ⟨w, hends, hlength⟩ := host.walkNodeForestWith_returns limits visitor roots start
  refine ⟨w, hends, hlength, fun height htree hnodes hnone => ?_⟩
  have hvisits : w.visits = host.visibleNodes height roots :=
    walkNodeForestWith_visits htree hnodes (hends _ (Nat.lt_succ_self _)) hnone
  refine ⟨hvisits, hvisits ▸ hnodes.nodup, fun node => hvisits ▸ mem_visibleNodes_iff htree,
    fun options hdedupe hunlimited => ?_, fun detail names => exists_unlimited height detail names roots⟩
  have hcomplete := (host.serializeNodeForest_complete options roots).2 hdedupe
    (truncated_of_unlimited htree hnodes hdedupe hunlimited)
  rw [forestIds, ids_forestLevels_of_showsAll htree 0 _ roots hcomplete, hvisits]

/-- The four nested frames, walked on a limit of four visits. -/
theorem walkNodeForest_covers_nested :
    ∃ w, nested.walkNodeForestWith { visitedNodes := 4 } (fun node _ seen => .collect (node :: seen)) 5
        [0] [] = some w ∧ w.visits = [0, 1, 2, 3] ∧
      ∃ enough : ℕ, ∀ limits : SerializerLimits, enough ≤ limits.visitedNodes →
        enough ≤ limits.returnedNodes → enough ≤ limits.encodedBytes →
        forestIds (nested.serializeNodeForest { nestedOptions with depth := enough, limits } [0]).nodes =
          [[0x30], [0x31], [0x32], [0x33]] := by
  obtain ⟨w, hends, _, hcovers⟩ := nested.walkNodeForest_covers { visitedNodes := 4 }
    (fun node _ seen => .collect (node :: seen)) [0] []
  have hw := hends 5 (by decide)
  have htree : nested.IsTree fun node => 3 - node := by
    intro node child hchild
    have hmem : child ∈ nested.children node := (mem_visibleChildren nested).1 hchild |>.1
    dsimp only [nested] at hmem
    split_ifs at hmem
    · rw [List.mem_singleton.1 hmem]
      show 3 - (node + 1) < 3 - node
      omega
    · cases hmem
  have hnodes : nested.visibleNodes (fun node => 3 - node) [0] = [0, 1, 2, 3] := by decide +kernel
  have hnone : w.context.truncation = none := by
    have hrun : (nested.walkNodeForestWith { visitedNodes := 4 }
        (fun node _ seen => .collect (node :: seen)) 5 [0] []).map (·.context.truncation) =
        some none := by
      decide +kernel
    rw [hw] at hrun
    exact Option.some.inj hrun
  obtain ⟨hvisits, _, _, hids, hwide⟩ := hcovers _ htree
    (hnodes.symm ▸ ⟨by decide +kernel, by decide +kernel⟩) hnone
  rw [hnodes] at hvisits
  obtain ⟨enough, henough⟩ := hwide nestedOptions.detail nestedOptions.names
  refine ⟨w, hw, hvisits, enough, fun limits hvisited hreturned hbytes => ?_⟩
  have hunlimited := henough { nestedOptions with depth := enough, limits } rfl rfl le_rfl hvisited
    hreturned hbytes
  rw [hids _ rfl hunlimited, hvisits]
  decide +kernel

end Host

end FigmaDevMcp

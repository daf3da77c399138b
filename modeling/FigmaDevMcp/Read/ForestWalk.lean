import FigmaDevMcp.Lib.PreorderWalk
import FigmaDevMcp.Read.Serialize

set_option autoImplicit false

/-!
# Walking a forest

`walkNode` and `walkNodeForest` of `serialize.ts`, for visitors that only collect: none of them
returns a payload to the walk.

* `walkNode`, `walkNodeForest`: the walk, with what its visitor has collected;
* `visibleNodes`: the visible nodes of a forest in preorder;
* `walkNodeForest_over`: **a walk visits them in order**, up to its limit.
-/

namespace FigmaDevMcp

open PreorderWalk

/-- What the visitor has collected, and the counters of the walk. -/
structure ForestWalk (σ : Type) where
  seen : σ
  context : SerializerContext := {}

namespace ForestWalk

variable {ρ σ : Type}

/-- A loop over nodes, up to the one at which the walk is cut. -/
def walkRow (walk : ρ → ForestWalk σ → ForestWalk σ) : List ρ → ForestWalk σ → ForestWalk σ
  | [], w => w
  | node :: rest, w =>
    if (walk node w).context.truncation.isSome then walk node w else walkRow walk rest (walk node w)

end ForestWalk

namespace Host

variable {ρ σ : Type} [DecidableEq ρ] (host : Host ρ) (limits : SerializerLimits)
  (visit : ρ → σ → σ)

/-- Every level visits a node, so the walk has no more levels than `fuel`. -/
def walkNode : ℕ → ρ → List JsString → ForestWalk σ → ForestWalk σ
  | 0, _, _, w => w
  | fuel + 1, node, ancestors, w =>
    if limits.visitedNodes ≤ w.context.visitedNodes then
      { w with context := w.context.markTruncated (.nodeLimit w.context.visitedNodes) }
    else
      let w : ForestWalk σ := ⟨visit node w.seen, w.context.visit⟩
      if w.context.truncation.isSome then w
      else if host.id node ≠ [] ∧ host.id node ∈ ancestors then w
      else
        let ancestors := if host.id node = [] then ancestors else host.id node :: ancestors
        ForestWalk.walkRow (fun child => walkNode fuel child ancestors) (host.visibleChildren node) w

/-- A visitor is walked over the nodes below the roots. -/
def walkNodeForest (roots : List ρ) (start : σ) : ForestWalk σ :=
  ForestWalk.walkRow (fun root => host.walkNode limits visit (limits.visitedNodes + 1) root []) roots
    { seen := start }

/-! ## The nodes of a forest -/

/-- The visible nodes of a forest in preorder, its roots with them. -/
def visibleNodes (height : ρ → ℕ) (roots : List ρ) : List ρ := ahead host.visibleChildren height roots

/-- All different, with different ids. -/
def Distinct (nodes : List ρ) : Prop :=
  nodes.Pairwise fun a b => a ≠ b ∧ (host.id a = host.id b → host.id a = [])

/-- Different nodes have different ids. A node may be there more than once. -/
def OwnIds (nodes : List ρ) : Prop :=
  ∀ a ∈ nodes, ∀ b ∈ nodes, host.id a = host.id b → host.id a ≠ [] → a = b

end Host

/-! ## What a walk visits -/

namespace ForestWalk

variable {ρ σ : Type} {visit : ρ → σ → σ} {limit : ℕ}

/-- A walk that has not been cut. -/
structure Open (limit : ℕ) (w : ForestWalk σ) : Prop where
  visited : w.context.visitedNodes ≤ limit
  truncation : w.context.truncation = none

/-- From `w` to `w'` the walk has gone over the nodes, up to its limit. -/
structure Over (visit : ρ → σ → σ) (limit : ℕ) (nodes : List ρ) (w w' : ForestWalk σ) : Prop where
  seen : w'.seen =
    (nodes.take (limit - w.context.visitedNodes)).foldl (fun s node => visit node s) w.seen
  visited : w'.context.visitedNodes = min limit (w.context.visitedNodes + nodes.length)
  truncation : w'.context.truncation =
    if w.context.visitedNodes + nodes.length ≤ limit then none else some (.nodeLimit limit)

theorem Over.nil {w : ForestWalk σ} (hw : Open limit w) : Over visit limit [] w w where
  seen := by rw [List.take_nil, List.foldl_nil]
  visited := (min_eq_right hw.visited).symm
  truncation := (if_pos hw.visited).symm ▸ hw.truncation

/-- Nodes that all fit, and then more. -/
theorem Over.append {nodes more : List ρ} {w w' w'' : ForestWalk σ}
    (h : Over visit limit nodes w w') (hfit : w.context.visitedNodes + nodes.length ≤ limit)
    (h' : Over visit limit more w' w'') : Over visit limit (nodes ++ more) w w'' := by
  have hvisited : w'.context.visitedNodes = w.context.visitedNodes + nodes.length := by
    rw [h.visited, min_eq_right hfit]
  refine ⟨?_, ?_, ?_⟩
  · rw [h'.seen, h.seen, hvisited, List.take_append, List.foldl_append,
      List.take_of_length_le (by omega : nodes.length ≤ limit - w.context.visitedNodes),
      Nat.sub_sub]
  · rw [h'.visited, hvisited, List.length_append, Nat.add_assoc]
  · rw [h'.truncation, hvisited, List.length_append, Nat.add_assoc]

/-- Nodes that do not all fit, and what would have come after them. -/
theorem Over.cut {nodes : List ρ} {w w' : ForestWalk σ} (h : Over visit limit nodes w w')
    (hcut : limit < w.context.visitedNodes + nodes.length) (more : List ρ) :
    Over visit limit (nodes ++ more) w w' := by
  refine ⟨?_, ?_, ?_⟩
  · rw [h.seen, List.take_append_of_le_length (by omega)]
  · rw [h.visited, List.length_append]
    omega
  · rw [h.truncation, List.length_append, if_neg (by omega), if_neg (by omega)]

/-- A node, and then more. -/
theorem Over.cons {node : ρ} {nodes : List ρ} {w w' : ForestWalk σ}
    (hlt : w.context.visitedNodes < limit)
    (h : Over visit limit nodes ⟨visit node w.seen, w.context.visit⟩ w') :
    Over visit limit (node :: nodes) w w' := by
  have hvisit : w.context.visit.visitedNodes = w.context.visitedNodes + 1 := rfl
  have htake : limit - w.context.visitedNodes = limit - (w.context.visitedNodes + 1) + 1 := by omega
  have hlength : w.context.visitedNodes + (node :: nodes).length =
      w.context.visitedNodes + 1 + nodes.length := by
    rw [List.length_cons]
    omega
  refine ⟨?_, ?_, ?_⟩
  · rw [h.seen, hvisit, htake, List.take_succ_cons, List.foldl_cons]
  · rw [h.visited, hvisit, hlength]
  · rw [h.truncation, hvisit, hlength]

/-- **A row of nodes**, where the walk goes over what is under each of them. -/
theorem walkRow_over {walk : ρ → ForestWalk σ → ForestWalk σ} {under : ρ → List ρ} {n : ℕ}
    {nodes : List ρ} (hwalk : ∀ node ∈ nodes, ∀ w : ForestWalk σ, n ≤ w.context.visitedNodes →
      Open limit w → Over visit limit (under node) w (walk node w))
    {w : ForestWalk σ} (hn : n ≤ w.context.visitedNodes) (hw : Open limit w) :
    Over visit limit (nodes.flatMap under) w (walkRow walk nodes w) := by
  induction nodes generalizing w with
  | nil => exact .nil hw
  | cons node rest ih =>
      have hfirst := hwalk node List.mem_cons_self w hn hw
      rw [walkRow, List.flatMap_cons]
      by_cases hfit : w.context.visitedNodes + (under node).length ≤ limit
      · have hnone : (walk node w).context.truncation = none := by
          rw [hfirst.truncation, if_pos hfit]
        have hvisited := hfirst.visited
        rw [min_eq_right hfit] at hvisited
        rw [hnone, Option.isSome_none, if_neg Bool.false_ne_true]
        exact hfirst.append hfit (ih (fun other hother => hwalk other (List.mem_cons_of_mem _ hother))
          (by omega) ⟨by omega, hnone⟩)
      · rw [hfirst.truncation, if_neg hfit, Option.isSome_some, if_pos rfl]
        exact hfirst.cut (Nat.lt_of_not_le hfit) _

end ForestWalk

namespace Host

open ForestWalk

variable {ρ σ : Type} [DecidableEq ρ] {host : Host ρ} {limits : SerializerLimits}
  {visit : ρ → σ → σ} {height : ρ → ℕ}

theorem visibleNodes_eq_flatMap (roots : List ρ) :
    host.visibleNodes height roots = roots.flatMap fun root => host.visibleNodes height [root] := by
  rw [visibleNodes, ahead]
  refine List.flatMap_congr fun root _ => ?_
  rw [visibleNodes, ahead, List.flatMap_singleton]

theorem visibleNodes_singleton (htree : host.IsTree height) (node : ρ) :
    host.visibleNodes height [node] =
      node :: host.visibleNodes height (host.visibleChildren node) := by
  rw [visibleNodes, ahead_cons htree, List.append_nil]
  rfl

omit [DecidableEq ρ] in
theorem Distinct.ownIds {nodes : List ρ} (h : host.Distinct nodes) : host.OwnIds nodes := by
  intro a ha b hb hid hnamed
  by_contra hne
  have : Std.Symm fun a b => a ≠ b ∧ (host.id a = host.id b → host.id a = []) :=
    ⟨fun a b hab => ⟨hab.1.symm, fun heq => heq.trans (hab.2 heq.symm)⟩⟩
  exact hnamed ((List.Pairwise.forall h ha hb hne).2 hid)

omit [DecidableEq ρ] in
theorem OwnIds.subset {nodes fewer : List ρ} (h : host.OwnIds nodes) (hfewer : fewer ⊆ nodes) :
    host.OwnIds fewer :=
  fun a ha b hb => h a (hfewer ha) b (hfewer hb)

theorem mem_visibleNodes {nodes : List ρ} {node other : ρ} (hnode : node ∈ nodes)
    (hother : other ∈ host.visibleNodes height [node]) : other ∈ host.visibleNodes height nodes := by
  rw [visibleNodes_eq_flatMap]
  exact List.mem_flatMap.2 ⟨node, hnode, hother⟩

/-- What is under a node is no higher. -/
theorem height_le_of_mem (htree : host.IsTree height) {node other : ρ}
    (hother : other ∈ host.visibleNodes height [node]) : height other ≤ height node := by
  generalize hn : height node = n
  induction n using Nat.strong_induction_on generalizing node with
  | _ n ih =>
      rw [visibleNodes_singleton htree] at hother
      rcases List.mem_cons.1 hother with rfl | hbelow
      · exact hn.le
      · rw [visibleNodes_eq_flatMap] at hbelow
        obtain ⟨child, hchild, hother'⟩ := List.mem_flatMap.1 hbelow
        have hlt := htree node child hchild
        have hle := ih (height child) (hn ▸ hlt) hother' rfl
        omega

/-- **One node and what is under it.** No id comes again below its node, so the walk is not stopped
by its ancestors. -/
theorem walkNode_over (htree : host.IsTree height) {fuel : ℕ} {node : ρ} {ancestors : List JsString}
    {w : ForestWalk σ} (hfuel : limits.visitedNodes < fuel + w.context.visitedNodes)
    (hw : Open limits.visitedNodes w) (hids : host.OwnIds (host.visibleNodes height [node]))
    (hancestors : ∀ other ∈ host.visibleNodes height [node], host.id other ∈ ancestors →
      host.id other = []) :
    Over visit limits.visitedNodes (host.visibleNodes height [node]) w
      (host.walkNode limits visit fuel node ancestors w) := by
  induction fuel generalizing node ancestors w with
  | zero =>
      have hle := hw.visited
      omega
  | succ fuel ih =>
      rw [visibleNodes_singleton htree] at hids hancestors ⊢
      have ⟨hself, hbelow⟩ := List.forall_mem_cons.1 hancestors
      rw [walkNode]
      by_cases hfull : limits.visitedNodes ≤ w.context.visitedNodes
      · have hvisited : w.context.visitedNodes = limits.visitedNodes := le_antisymm hw.visited hfull
        rw [if_pos hfull, SerializerContext.markTruncated, hw.truncation, hvisited]
        refine ⟨?_, ?_, ?_⟩
        · rw [hvisited, Nat.sub_self, List.take_zero, List.foldl_nil]
        · show limits.visitedNodes = _
          omega
        · rw [hvisited, List.length_cons, if_neg (by omega)]
      · have hlt := Nat.lt_of_not_le hfull
        have hnone : w.context.visit.truncation = none := hw.truncation
        have hnew : ¬ (host.id node ≠ [] ∧ host.id node ∈ ancestors) :=
          fun h => h.1 (hself h.2)
        simp only [if_neg hfull, hnone, Option.isSome_none, Bool.false_eq_true, if_false, if_neg hnew]
        refine Over.cons hlt ?_
        rw [visibleNodes_eq_flatMap]
        refine walkRow_over (n := w.context.visitedNodes + 1) (fun child hchild u hn hu => ?_) le_rfl
          ⟨hlt, hnone⟩
        have hunder : ∀ other ∈ host.visibleNodes height [child],
            other ∈ host.visibleNodes height (host.visibleChildren node) :=
          fun other hmem => mem_visibleNodes hchild hmem
        refine ih (by omega) hu (hids.subset fun other hmem => List.mem_cons_of_mem _ (hunder other hmem))
          fun other hmem hid => ?_
        have hmem' := hunder other hmem
        by_cases hempty : host.id node = []
        · rw [if_pos hempty] at hid
          exact hbelow other hmem' hid
        · rw [if_neg hempty] at hid
          rcases List.mem_cons.1 hid with hid | hid
          · have hsame := hids node List.mem_cons_self other (List.mem_cons_of_mem _ hmem') hid.symm
              hempty
            have hlt := htree node child hchild
            have hle := height_le_of_mem htree hmem
            rw [← hsame] at hle
            omega
          · exact hbelow other hmem' hid

/-- **A walk visits the visible nodes of a forest in order**, up to its limit. -/
theorem walkNodeForest_over (htree : host.IsTree height) {roots : List ρ}
    (hids : host.OwnIds (host.visibleNodes height roots)) (start : σ) :
    Over visit limits.visitedNodes (host.visibleNodes height roots) { seen := start }
      (host.walkNodeForest limits visit roots start) := by
  rw [visibleNodes_eq_flatMap, walkNodeForest]
  refine walkRow_over (n := 0) (fun root hroot w _ hw => ?_) le_rfl ⟨Nat.zero_le _, rfl⟩
  exact walkNode_over htree (by omega) hw (hids.subset fun other hmem => mem_visibleNodes hroot hmem)
    fun _ _ h => nomatch h

variable (limits) in
/-- The nodes of a walk that collects them. -/
theorem walkNodeForest_collect (htree : host.IsTree height) {roots : List ρ}
    (hids : host.OwnIds (host.visibleNodes height roots)) :
    let w := host.walkNodeForest limits (fun node pending => pending ++ [node]) roots []
    w.seen = (host.visibleNodes height roots).take limits.visitedNodes ∧
      w.context.truncation =
        if (host.visibleNodes height roots).length ≤ limits.visitedNodes then none
        else some (.nodeLimit limits.visitedNodes) := by
  have h : Over _ limits.visitedNodes (host.visibleNodes height roots) _
      (host.walkNodeForest limits (fun node pending => pending ++ [node]) roots []) :=
    walkNodeForest_over htree hids []
  refine ⟨?_, ?_⟩
  · rw [h.seen, Nat.sub_zero]
    generalize (host.visibleNodes height roots).take limits.visitedNodes = nodes
    simp [← List.flatMap_def]
  · rw [h.truncation, Nat.zero_add]

end Host

/-! ## The cut of a walk -/

namespace ForestWalk

variable {ρ σ : Type} {limit : ℕ}

/-- A walk that has been cut, if at all, at its limit. -/
structure CutAt (limit : ℕ) (w : ForestWalk σ) : Prop where
  visited : w.context.visitedNodes ≤ limit
  truncation : ∀ t ∈ w.context.truncation, t = .nodeLimit limit

theorem CutAt.walkRow {walk : ρ → ForestWalk σ → ForestWalk σ}
    (hwalk : ∀ node w, CutAt limit w → CutAt limit (walk node w)) (nodes : List ρ)
    {w : ForestWalk σ} (hw : CutAt limit w) : CutAt limit (ForestWalk.walkRow walk nodes w) := by
  induction nodes generalizing w with
  | nil => exact hw
  | cons node nodes ih =>
      rw [ForestWalk.walkRow]
      split_ifs
      · exact hwalk node w hw
      · exact ih (hwalk node w hw)

theorem CutAt.mark {w : ForestWalk σ} (hw : CutAt limit w) (hlimit : limit ≤ w.context.visitedNodes) :
    CutAt limit { w with context := w.context.markTruncated (.nodeLimit w.context.visitedNodes) } := by
  have hvisited : w.context.visitedNodes = limit := le_antisymm hw.visited hlimit
  cases htruncation : w.context.truncation with
  | none =>
      rw [SerializerContext.markTruncated, htruncation]
      refine ⟨hw.visited, fun t ht => ?_⟩
      rw [← Option.some.inj ht, hvisited]
  | some t =>
      have ht : t = .nodeLimit limit := hw.truncation t htruncation
      have hno : ¬ (t.reason = .depthLimit ∧
          (Truncation.nodeLimit w.context.visitedNodes).reason ≠ .depthLimit) := by
        rintro ⟨hreason, -⟩
        rw [show t.reason = .nodeLimit from ht ▸ rfl] at hreason
        cases hreason
      rw [SerializerContext.markTruncated, htruncation]
      dsimp only
      rw [if_neg hno]
      exact hw

end ForestWalk

namespace Host

variable {ρ σ : Type} [DecidableEq ρ] {host : Host ρ} {limits : SerializerLimits}
  {visit : ρ → σ → σ}

theorem walkNode_cutAt (fuel : ℕ) (node : ρ) (ancestors : List JsString) {w : ForestWalk σ}
    (hw : w.CutAt limits.visitedNodes) :
    (host.walkNode limits visit fuel node ancestors w).CutAt limits.visitedNodes := by
  induction fuel generalizing node ancestors w with
  | zero => exact hw
  | succ fuel ih =>
      rw [walkNode]
      by_cases hlimit : limits.visitedNodes ≤ w.context.visitedNodes
      · rw [if_pos hlimit]
        exact hw.mark hlimit
      · rw [if_neg hlimit]
        have hvisited : ForestWalk.CutAt limits.visitedNodes
            (⟨visit node w.seen, w.context.visit⟩ : ForestWalk σ) :=
          ⟨Nat.lt_of_not_le hlimit, hw.truncation⟩
        dsimp only
        split_ifs
        · exact hvisited
        · exact hvisited
        · exact .walkRow (fun child w hw => ih child _ hw) _ hvisited
        · exact .walkRow (fun child w hw => ih child _ hw) _ hvisited

/-- A walk is cut, if at all, at its limit. -/
theorem walkNodeForest_truncation {roots : List ρ} {start : σ} :
    ∀ t ∈ (host.walkNodeForest limits visit roots start).context.truncation,
      t = .nodeLimit limits.visitedNodes :=
  (ForestWalk.CutAt.walkRow (fun root _ hw => walkNode_cutAt _ root [] hw) roots
    ⟨Nat.zero_le _, fun t ht => absurd ht (Option.not_mem_none t)⟩).truncation

end Host

end FigmaDevMcp

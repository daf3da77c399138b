import FigmaDevMcp.Read.ForestWalk
import FigmaDevMcp.Read.Navigation

set_option autoImplicit false

/-!
# Reading one record for each node

The loop that `getReactions`, `getDevModeData` and `getMotion` share: they walk the visible forest,
make a record of each node in turn and emit those that say something, until a limit is met. The
records and their sizes are the reader's own.

* `ItemEmission`: the records emitted so far, and what has cut them;
* `inspect`, `readItems`: the loop, and the whole read;
* `Accounts`: how the numbers of a read go with its items;
* `readItems_accounts`: **a read keeps its accounts**.
-/

namespace FigmaDevMcp

/-- The records of a read, with what cut the walk and what cut the emission. -/
structure ItemEmission (β : Type) where
  items : List β := []
  encoded : ℕ := 0
  walkTruncation : Option Truncation := none
  emitTruncation : Option Truncation := none

/-- What a reader makes of its nodes: its items, and the number of nodes it has looked at. -/
structure Inspection (β : Type) where
  items : List β
  visitedNodes : ℕ
  truncated : Bool
  truncation : Option Truncation

/-- Each record as an item that succeeded. -/
def Inspection.successes {β : Type} (r : Inspection β) : Inspection (ItemResult β) :=
  { r with items := r.items.map .success }

namespace ItemEmission

variable {β : Type}

/-- A cut of the walk goes before one of the emission. -/
def truncation (e : ItemEmission β) : Option Truncation := e.walkTruncation <|> e.emitTruncation

/-- The first cut stays. -/
def mark (e : ItemEmission β) (truncation : Truncation) : ItemEmission β :=
  if e.walkTruncation.isNone then { e with walkTruncation := some truncation } else e

/-- Whether the record was emitted. -/
def push (limits : SerializerLimits) (size : β → ℕ) (e : ItemEmission β) (value : β)
    (visitedNodes : ℕ) : Bool × ItemEmission β :=
  if e.emitTruncation.isSome then (false, e)
  else if limits.returnedNodes ≤ e.items.length then
    (false, { e with emitTruncation := some (.nodeLimit visitedNodes) })
  else
    let encoded := e.encoded + size value
    if limits.encodedBytes < encoded then
      (false, { e with emitTruncation := some (.byteLimit encoded) })
    else (true, { e with encoded, items := e.items ++ [value] })

end ItemEmission

section Reader

variable {ρ β : Type} (limits : SerializerLimits) (size : β → ℕ)
  (record : ρ → Except ReadError (Option β))

/-- The nodes in turn, up to the record that is not emitted. A node has no record where it has
nothing to say. -/
def inspect : List ρ → ℕ → ItemEmission β → Except ReadError (ItemEmission β × ℕ)
  | [], visitedNodes, e => .ok (e, visitedNodes)
  | node :: rest, visitedNodes, e => do
    match ← record node with
    | none => inspect rest (visitedNodes + 1) e
    | some value =>
      match e.push limits size value (visitedNodes + 1) with
      | (true, e) => inspect rest (visitedNodes + 1) e
      | (false, e) => .ok (e, visitedNodes + 1)

/-- The records of the nodes below the roots, until a limit is reached. -/
def readItems [DecidableEq ρ] (figma : Figma ρ) (selector : Option Selector) :
    Except ReadError (Inspection β) := do
  let found ← figma.resolveDesignRoots selector
  let walked :=
    figma.walkNodeForest limits (fun node pending => pending ++ [node]) found.roots []
  let emission : ItemEmission β :=
    match walked.context.truncation with
    | some truncation => ({} : ItemEmission β).mark truncation
    | none => {}
  let (emission, visitedNodes) ← inspect limits size record walked.seen 0 emission
  return {
    items := emission.items
    visitedNodes
    truncated := emission.truncation.isSome
    truncation := emission.truncation }

/-! ## How the numbers go with the items -/

/-- The record of a node that has something to say. -/
def content (node : ρ) : Option β :=
  match record node with
  | .ok value => value
  | .error _ => none

/-- After these items the limits do not let the record be emitted. -/
def Trips (items : List β) (value : β) : Prop :=
  limits.returnedNodes ≤ items.length ∨ limits.encodedBytes < (items.map size).sum + size value

/-- The last of the first `n` nodes has a record, which a limit does not let be emitted. -/
def LastTrips (nodes : List ρ) (n : ℕ) : Prop :=
  ∃ m node value, n = m + 1 ∧ nodes[m]? = some node ∧ content record node = some value ∧
    Trips limits size ((nodes.take m).filterMap (content record)) value

/-- **How the numbers of a read go with its items**, given the visible nodes in scope: the items are
the records of the nodes visited, in their order, but for the last one where it trips a limit; and
a read that is not truncated has visited all nodes. -/
structure Accounts (nodes : List ρ) (r : Inspection β) : Prop where
  visited : r.visitedNodes ≤ nodes.length
  tripped : LastTrips limits size record nodes r.visitedNodes →
    r.items = (nodes.take (r.visitedNodes - 1)).filterMap (content record)
  untripped : ¬ LastTrips limits size record nodes r.visitedNodes →
    r.items = (nodes.take r.visitedNodes).filterMap (content record)
  complete : r.truncated = false →
    r.visitedNodes = nodes.length ∧ r.items = nodes.filterMap (content record)

variable {limits size record}

/-! ## One record -/

/-- The bytes counted are those of the items. -/
def ItemEmission.Counted (size : β → ℕ) (e : ItemEmission β) : Prop :=
  e.encoded = (e.items.map size).sum ∧ e.emitTruncation = none

/-- **What emitting one record can do.** -/
theorem push_spec {e : ItemEmission β} (he : e.Counted size) (value : β) (visitedNodes : ℕ) :
    (∃ e', e.push limits size value visitedNodes = (true, e') ∧ e'.Counted size ∧
      e'.walkTruncation = e.walkTruncation ∧ e'.items = e.items ++ [value] ∧
      ¬ Trips limits size e.items value) ∨
    (∃ e', e.push limits size value visitedNodes = (false, e') ∧ e'.emitTruncation.isSome = true ∧
      e'.items = e.items ∧ Trips limits size e.items value) := by
  obtain ⟨hencoded, hnone⟩ := he
  rw [ItemEmission.push, hnone, Option.isSome_none, if_neg Bool.false_ne_true]
  by_cases hcount : limits.returnedNodes ≤ e.items.length
  · rw [if_pos hcount]
    exact Or.inr ⟨_, rfl, rfl, rfl, Or.inl hcount⟩
  · rw [if_neg hcount]
    by_cases hbytes : limits.encodedBytes < e.encoded + size value
    · rw [if_pos hbytes]
      exact Or.inr ⟨_, rfl, rfl, rfl, Or.inr (hencoded ▸ hbytes)⟩
    · rw [if_neg hbytes]
      refine Or.inl ⟨_, rfl, ⟨?_, rfl⟩, rfl, rfl, ?_⟩
      · simp [hencoded]
      · rintro (h | h)
        · exact hcount h
        · exact hbytes (hencoded ▸ h)

/-- How the loop ends: with the last node, or with a record that trips a limit. -/
inductive Inspected (limits : SerializerLimits) (size : β → ℕ)
    (record : ρ → Except ReadError (Option β)) (nodes : List ρ) (v : ℕ) (e e' : ItemEmission β)
    (n : ℕ) : Prop
  | all (hn : n = v + nodes.length)
      (hitems : e'.items = e.items ++ nodes.filterMap (content record))
      (hemit : e'.emitTruncation = none) (hwalk : e'.walkTruncation = e.walkTruncation)
      (hlast : ∀ before node after value, nodes = before ++ node :: after →
        content record node = some value →
        ¬ Trips limits size (e.items ++ before.filterMap (content record)) value)
  | cut (before : List ρ) (node : ρ) (after : List ρ) (value : β)
      (hnodes : nodes = before ++ node :: after) (hn : n = v + before.length + 1)
      (hvalue : content record node = some value)
      (hitems : e'.items = e.items ++ before.filterMap (content record))
      (hemit : e'.emitTruncation.isSome = true)
      (htrips : Trips limits size e'.items value)

theorem content_eq {node : ρ} {value : Option β} (h : record node = .ok value) :
    content record node = value := by
  rw [content, h]

/-- A node before the others, with what it adds to the items. -/
theorem Inspected.cons {nodes : List ρ} {v n : ℕ} {e e₁ e' : ItemEmission β} {node : ρ}
    (hitems : e₁.items = e.items ++ [node].filterMap (content record))
    (hwalk : e₁.walkTruncation = e.walkTruncation)
    (hfits : ∀ value, content record node = some value → ¬ Trips limits size e.items value)
    (h : Inspected limits size record nodes (v + 1) e₁ e' n) :
    Inspected limits size record (node :: nodes) v e e' n := by
  have happend : ∀ l : List ρ, e.items ++ (node :: l).filterMap (content record) =
      e₁.items ++ l.filterMap (content record) := by
    intro l
    rw [hitems, List.append_assoc, ← List.filterMap_append]
    rfl
  cases h with
  | all hn hitems' hemit hwalk' hlast =>
      refine .all ?_ ?_ hemit (hwalk'.trans hwalk) fun before other after value hsplit hvalue => ?_
      · rw [hn, List.length_cons]
        omega
      · rw [happend, hitems']
      · cases before with
        | nil =>
            obtain ⟨rfl, -⟩ := List.cons.inj hsplit
            rw [List.filterMap_nil, List.append_nil]
            exact hfits value hvalue
        | cons first before =>
            obtain ⟨rfl, hrest⟩ := List.cons.inj hsplit
            rw [happend]
            exact hlast before other after value hrest hvalue
  | cut before other after value hnodes hn hvalue hitems' hemit htrips =>
      refine .cut (node :: before) other after value ?_ ?_ hvalue ?_ hemit htrips
      · rw [hnodes, List.cons_append]
      · rw [hn, List.length_cons]
        omega
      · rw [happend, hitems']

/-- **The loop over the nodes.** -/
theorem inspect_spec {nodes : List ρ} {v n : ℕ} {e e' : ItemEmission β} (he : e.Counted size)
    (h : inspect limits size record nodes v e = .ok (e', n)) :
    Inspected limits size record nodes v e e' n := by
  induction nodes generalizing v e with
  | nil =>
      obtain ⟨rfl, rfl⟩ := Prod.mk.inj (Except.ok.inj h)
      refine .all rfl ?_ he.2 rfl fun before node after value hsplit => ?_
      · rw [List.filterMap_nil, List.append_nil]
      · exact absurd hsplit (by simp)
  | cons node rest ih =>
      obtain ⟨value, hrecord, h⟩ := Guard.bind_eq_ok.1 h
      have hcontent := content_eq hrecord
      cases value with
      | none =>
          refine .cons ?_ rfl (fun value hvalue => ?_) (ih he h)
          · rw [List.filterMap_cons_none hcontent, List.filterMap_nil, List.append_nil]
          · rw [hcontent] at hvalue
            cases hvalue
      | some value =>
          rcases @push_spec _ limits size _ he value (v + 1) with
            ⟨e₁, hpush, hcounted, hwalk, hitems, hfits⟩ | ⟨e₁, hpush, hemit, hitems, htrips⟩
          · simp only [hpush] at h
            refine .cons ?_ hwalk (fun other hother => ?_) (ih hcounted h)
            · rw [hitems, List.filterMap_cons_some hcontent, List.filterMap_nil]
            · rw [hcontent] at hother
              exact Option.some.inj hother ▸ hfits
          · simp only [hpush] at h
            obtain ⟨rfl, rfl⟩ := Prod.mk.inj (Except.ok.inj h)
            refine .cut [] node rest value rfl rfl hcontent ?_ hemit (hitems ▸ htrips)
            rw [hitems, List.filterMap_nil, List.append_nil]

/-! ## A whole read -/

/-- The result of a read. -/
def ItemEmission.inspection (e : ItemEmission β) (visitedNodes : ℕ) : Inspection β :=
  { items := e.items, visitedNodes, truncated := e.truncation.isSome, truncation := e.truncation }

/-- The first nodes of a walk, one after the other. -/
theorem Inspected.accounts {nodes : List ρ} {limit n : ℕ} {e e' : ItemEmission β}
    (hstart : e.items = [])
    (hwalk : e.walkTruncation =
      if nodes.length ≤ limit then none else some (.nodeLimit limit))
    (h : Inspected limits size record (nodes.take limit) 0 e e' n) :
    Accounts limits size record nodes (e'.inspection n) := by
  cases h with
  | all hn hitems hemit hwalk' hlast =>
      rw [hstart, List.nil_append] at hitems
      rw [Nat.zero_add, List.length_take] at hn
      have huntripped : ¬ LastTrips limits size record nodes n := by
        rintro ⟨m, node, value, hm, hnode, hvalue, htrips⟩
        have hlt : m < (nodes.take limit).length := by
          rw [List.length_take]
          omega
        have hget : (nodes.take limit)[m] = node := by
          rw [List.getElem_take]
          exact (List.getElem_eq_iff _).2 hnode
        have hsplit := List.take_append_drop m (nodes.take limit)
        rw [List.drop_eq_getElem_cons hlt, hget, List.take_take, min_eq_left (by omega)] at hsplit
        refine hlast _ _ _ value hsplit.symm hvalue ?_
        rwa [hstart, List.nil_append]
      have htake : nodes.take limit = nodes.take n := by
        rw [hn, ← List.take_eq_take_min]
      refine ⟨?_, fun h => absurd h huntripped, fun _ => ?_, fun hwhole => ?_⟩
      · show n ≤ nodes.length
        omega
      · show e'.items = _
        rw [hitems, htake]
        rfl
      · have hfits : nodes.length ≤ limit := by
          by_contra hlong
          rw [ItemEmission.inspection, ItemEmission.truncation, hwalk', hwalk, if_neg hlong] at hwhole
          cases hwhole
        refine ⟨?_, ?_⟩
        · show n = nodes.length
          omega
        · show e'.items = _
          rw [hitems, List.take_of_length_le hfits]
  | cut before node after value hnodes hn hvalue hitems hemit htrips =>
      rw [hstart, List.nil_append] at hitems
      rw [Nat.zero_add] at hn
      have hsplit : nodes = before ++ node :: (after ++ nodes.drop limit) := by
        rw [← List.cons_append, ← List.append_assoc, ← hnodes, List.take_append_drop]
      have htripped : LastTrips limits size record nodes n := by
        refine ⟨before.length, node, value, hn, ?_, hvalue, ?_⟩
        · rw [hsplit, List.getElem?_append_right le_rfl, Nat.sub_self]
          rfl
        · rw [hsplit, List.take_left, ← hitems]
          exact htrips
      refine ⟨?_, fun _ => ?_, fun h => absurd htripped h, fun hwhole => ?_⟩
      · show n ≤ nodes.length
        rw [hsplit, List.length_append, List.length_cons]
        omega
      · show e'.items = (nodes.take (n - 1)).filterMap _
        rw [hitems, hn, hsplit, Nat.add_sub_cancel, List.take_left]
      · have hsome : e'.truncation.isSome = true := by
          rw [ItemEmission.truncation]
          cases e'.walkTruncation with
          | some truncation => rfl
          | none => exact hemit
        rw [ItemEmission.inspection, hsome] at hwhole
        cases hwhole

/-- **A read keeps its accounts.** -/
theorem readItems_accounts [DecidableEq ρ] {figma : Figma ρ} {height : ρ → ℕ}
    (htree : figma.IsTree height) {selector : Option Selector} {found : DesignRoots ρ}
    (hfound : figma.resolveDesignRoots selector = .ok found)
    (hdistinct : figma.Distinct (figma.visibleNodes height found.roots)) {r : Inspection β}
    (h : readItems limits size record figma selector = .ok r) :
    Accounts limits size record (figma.visibleNodes height found.roots) r := by
  obtain ⟨found', hfound', h⟩ := Guard.bind_eq_ok.1 h
  obtain rfl := Except.ok.inj (hfound.symm.trans hfound')
  obtain ⟨⟨e', n⟩, hinspect, h⟩ := Guard.bind_eq_ok.1 h
  obtain rfl := Except.ok.inj h
  have ⟨hseen, htruncation⟩ := Host.walkNodeForest_collect limits htree hdistinct.ownIds
  rw [htruncation, hseen] at hinspect
  refine Inspected.accounts ?_ ?_ (inspect_spec ?_ hinspect)
  · split_ifs <;> rfl
  · split_ifs <;> rfl
  · split_ifs <;> exact ⟨rfl, rfl⟩

/-! ## Reads that fail, and items of the same node -/

/-- The loop gives a result where every record is read. -/
theorem inspect_returns {nodes : List ρ} (hread : ∀ node ∈ nodes, ∃ value, record node = .ok value)
    (v : ℕ) (e : ItemEmission β) : ∃ e' n, inspect limits size record nodes v e = .ok (e', n) := by
  induction nodes generalizing v e with
  | nil => exact ⟨e, v, rfl⟩
  | cons node rest ih =>
      have ⟨⟨value, hvalue⟩, hrest⟩ := List.forall_mem_cons.1 hread
      rw [inspect, hvalue, Guard.ok_bind]
      cases value with
      | none => exact ih hrest _ e
      | some value =>
          rcases hpush : e.push limits size value (v + 1) with ⟨pushed, e₁⟩
          simp only [hpush]
          cases pushed with
          | false => exact ⟨e₁, v + 1, rfl⟩
          | true => exact ih hrest _ e₁

theorem readItems_returns [DecidableEq ρ] {figma : Figma ρ} {height : ρ → ℕ}
    (htree : figma.IsTree height) {selector : Option Selector} {found : DesignRoots ρ}
    (hfound : figma.resolveDesignRoots selector = .ok found)
    (hdistinct : figma.Distinct (figma.visibleNodes height found.roots))
    (hread : ∀ node ∈ figma.visibleNodes height found.roots, ∃ value, record node = .ok value) :
    ∃ r, readItems limits size record figma selector = .ok r := by
  have ⟨hseen, htruncation⟩ := Host.walkNodeForest_collect limits htree hdistinct.ownIds
  simp only [readItems, hfound, Guard.ok_bind, hseen, htruncation]
  have hreturns (e : ItemEmission β) := @inspect_returns _ _ limits size record
    ((figma.visibleNodes height found.roots).take limits.visitedNodes)
    (fun node hnode => hread node (List.mem_of_mem_take hnode)) 0 e
  split_ifs
  · have ⟨e', n, hinspect⟩ := hreturns {}
    rw [hinspect]
    exact ⟨_, rfl⟩
  · have ⟨e', n, hinspect⟩ := hreturns (({} : ItemEmission β).mark (.nodeLimit limits.visitedNodes))
    rw [hinspect]
    exact ⟨_, rfl⟩

/-- The items are the records of some of the first nodes. -/
theorem Accounts.items_eq {nodes : List ρ} {r : Inspection β}
    (h : Accounts limits size record nodes r) :
    ∃ n, r.items = (nodes.take n).filterMap (content record) := by
  by_cases hlast : LastTrips limits size record nodes r.visitedNodes
  · exact ⟨_, h.tripped hlast⟩
  · exact ⟨_, h.untripped hlast⟩

/-- **No two items are of the same node**, where a record has the id of its node. -/
theorem Accounts.nodup {host : Host ρ} {nodes : List ρ} (hdistinct : host.Distinct nodes)
    {idOf : β → Option JsString} (hid : ∀ node value id, content record node = some value →
      idOf value = some id → id = host.id node ∧ id ≠ []) {r : Inspection β}
    (h : Accounts limits size record nodes r) : (r.items.filterMap idOf).Nodup := by
  have ⟨n, hitems⟩ := h.items_eq
  rw [hitems, List.filterMap_filterMap, List.Nodup, List.pairwise_filterMap]
  refine (hdistinct.sublist (List.take_sublist n nodes)).imp fun {a b} hab x hx y hy hxy => ?_
  have ⟨value, hvalue, hx'⟩ := Option.bind_eq_some_iff.1 hx
  have ⟨other, hother, hy'⟩ := Option.bind_eq_some_iff.1 hy
  have ⟨hxa, hne⟩ := hid a value x hvalue hx'
  have ⟨hyb, _⟩ := hid b other y hother hy'
  exact hne (hxa.trans (hab.2 (hxa.symm.trans (hxy.trans hyb))))

end Reader

end FigmaDevMcp

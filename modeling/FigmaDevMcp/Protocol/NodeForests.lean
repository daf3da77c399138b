import FigmaDevMcp.Protocol.Unions
import FigmaDevMcp.Shared.NodeForests

set_option autoImplicit false

/-!
# Node forests

Trees of design nodes in `common.rs`: how they are read, under a budget of nodes that a whole result
shares, and how a tree that has been built is checked.

* `DesignNode.read`, `readNodeList`, `readItemResult`: the readers, with what is left of the budget;
* `validateNode`, `validateNodeRoots`: the check;
* `NodeForest`, `NodeBatch`: what has been read or checked;
* `Denotes`, `DenotesItem`: the trees of a text whatever their number and depth;
* `readNodeForest_eq_ok`, `readNodeBatch_eq_ok`, `validateNodeRoots_isOk`: **which forests and
  batches are accepted**.
-/

namespace FigmaDevMcp.Protocol

open Serde SharedBudget Tools

variable {F S D T : Type}

/-- A node with its children. -/
abbrev DesignNode (S D T : Type) := NodeTree S D T

/-- How the values of a node are read that are no nodes. -/
structure NodeReaders (F S D T : Type) where
  summary : Json F → Except DecodeError S
  data : Json F → Except DecodeError D
  truncation : Json F → Except DecodeError T

/-! ## The members of a node -/

/-- The members of a node. -/
inductive DesignNodeField
  | summary | data | children | childrenTruncated | childrenTruncation
deriving DecidableEq

namespace DesignNodeField

def name : DesignNodeField → String
  | summary => "summary"
  | data => "data"
  | children => "children"
  | childrenTruncated => "childrenTruncated"
  | childrenTruncation => "childrenTruncation"

abbrev Val (S D T C : Type) : DesignNodeField → Type
  | summary => S
  | data => D
  | children => C
  | childrenTruncated => Bool
  | childrenTruncation => Option T

variable {C : Type} (R : NodeReaders F S D T) (readChildren : Json F → Except DecodeError C)

def read : ∀ f : DesignNodeField, Json F → Except DecodeError (f.Val S D T C)
  | summary => R.summary
  | data => R.data
  | children => readChildren
  | childrenTruncated => Json.readBool
  | childrenTruncation => Json.readOption R.truncation

def spec : Spec F DesignNodeField :=
  .ofNodup [summary, data, children, childrenTruncated, childrenTruncation] name (Val S D T C)
    (read R readChildren) true (by intro f; cases f <;> decide) (by decide)

end DesignNodeField

namespace DesignNode

variable {C : Type} (R : NodeReaders F S D T) (readChildren : Json F → Except DecodeError C)

def build (s : (DesignNodeField.spec R readChildren).Slots) :
    Except DecodeError (NodeFields S D T × C) := do
  let summary ← Spec.require s .summary
  let data ← Spec.require s .data
  let children ← Spec.require s .children
  let childrenTruncated ← Spec.require s .childrenTruncated
  let childrenTruncation := (s .childrenTruncation).getD none
  return ({ summary, data, childrenTruncated, childrenTruncation }, children)

/-- What a node has beside its children, with what has been read of these. -/
def readMembers (members : List (Serde.Member F)) : Except DecodeError (NodeFields S D T × C) :=
  (DesignNodeField.spec R readChildren).visitMap members >>= build R readChildren

end DesignNode

/-! ## Reading under a budget -/

/-- `DesignNodeListVisitor` -/
def readNodeList (readNode : Json F → StateT ℕ (Except DecodeError) (DesignNode S D T)) :
    Json F → StateT ℕ (Except DecodeError) (List (DesignNode S D T))
  | .array _ items =>
    upTo (.custom ("design node list exceeds " ++ toString maxReturnedNodes ++ " items")) readNode
      maxReturnedNodes items
  | _ => fun _ => .error (.invalidType "a globally node-budgeted design node list")

/-- `DesignNodeSeed`, with that many levels left for the node and its children; the state is what is
left of the budget. -/
def DesignNode.read (R : NodeReaders F S D T) :
    ℕ → Json F → StateT ℕ (Except DecodeError) (DesignNode S D T)
  | 0, _ => fun _ =>
    .error (.custom ("node tree depth " ++ toString (maxDepth + 1) ++ " exceeds " ++ toString maxDepth))
  | levels + 1, json => fun
    | 0 => .error (.custom ("returned node count exceeds " ++ toString maxReturnedNodes))
    | remaining + 1 => json.visitMap "a closed, depth-bounded design node" fun members => do
      let (own, children, remaining) ← DesignNode.readMembers R
        (fun children => (readNodeList (DesignNode.read R levels) children).run remaining) members
      return (.node own children, remaining)

def buildItemResult {readValue : Json F → Except DecodeError (DesignNode S D T × ℕ)} (remaining : ℕ)
    (s : (ItemResultField.spec readValue).Slots) :
    Except DecodeError (ItemResult (DesignNode S D T) × ℕ) := do
  match ← Spec.require s .status with
  | .success => do
    rejectFields (s .error).isSome "success node result cannot contain error"
    let (value, remaining) ← Spec.require s .value
    return (.success value, remaining)
  | .error => do
    rejectFields (s .value).isSome "error node result cannot contain value"
    let error ← Spec.require s .error
    return (.error error, remaining)

/-- `ItemResultSeed` -/
def readItemResult (R : NodeReaders F S D T) (json : Json F) :
    StateT ℕ (Except DecodeError) (ItemResult (DesignNode S D T)) := fun remaining =>
  json.visitMap "a closed success or error node result" fun members =>
    (ItemResultField.spec fun value =>
      (DesignNode.read R (maxDepth + 1) value).run remaining).visitMap members >>=
    buildItemResult remaining

/-- The tree of an item that has one. -/
def ItemResult.tree : ItemResult (DesignNode S D T) → Option (DesignNode S D T)
  | .success value => some value
  | .error _ => none

/-- A forest, which is counted while it is read. -/
def readNodeForest (R : NodeReaders F S D T) (json : Json F) :
    Except DecodeError (List (DesignNode S D T)) :=
  ((readNodeList (DesignNode.read R (maxDepth + 1)) json).run maxReturnedNodes).map Prod.fst

/-- `NodeBatchVisitor` -/
def readNodeBatch (R : NodeReaders F S D T) :
    Json F → Except DecodeError (List (ItemResult (DesignNode S D T)))
  | .array _ items =>
    ((upTo (.custom ("node result count exceeds " ++ toString maxInputIds)) (readItemResult R)
      maxInputIds items).run maxReturnedNodes).map Prod.fst
  | _ => .error (.invalidType ("at most " ++ toString maxInputIds ++ " ordered node results"))

/-! ## The check of a tree -/

/-- `validate_node`, with that many levels left for the node and its children; the state counts the
nodes. -/
def validateNode : ℕ → DesignNode S D T → StateT ℕ (Except BoundaryValueError) PUnit
  | 0, _ => fun _ => .error (.tooDeep (maxDepth + 1) maxDepth)
  | levels + 1, .node _ children => fun count =>
    if maxReturnedNodes < count + 1 then
      .error (.tooMany "returned design nodes" (count + 1) maxReturnedNodes)
    else if maxReturnedNodes - (count + 1) < children.length then
      .error (.tooMany "returned design nodes" (count + 1 + children.length) maxReturnedNodes)
    else (children.forM (validateNode levels)).run (count + 1)

/-- A forest that was read is within its bounds. -/
def validateNodeRoots (roots : List (DesignNode S D T)) : Except BoundaryValueError PUnit :=
  ((roots.forM (validateNode (maxDepth + 1))).run 0).map Prod.fst

/-- `NodeForest::try_from` -/
def checkNodeForest (nodes : List (DesignNode S D T)) : Except BoundaryValueError PUnit :=
  if maxReturnedNodes < nodes.length then
    .error (.tooMany "returned design node roots" nodes.length maxReturnedNodes)
  else validateNodeRoots nodes

/-- `NodeBatch::try_from` -/
def checkNodeBatch (items : List (ItemResult (DesignNode S D T))) :
    Except BoundaryValueError PUnit :=
  if maxInputIds < items.length then
    .error (.tooMany "node results" items.length maxInputIds)
  else validateNodeRoots (items.filterMap ItemResult.tree)

/-! ## Members of which one is read later -/

section Members

variable {C : Type} {R : NodeReaders F S D T} {readChildren : Json F → Except DecodeError C}

theorem build_eq_ok {s : (DesignNodeField.spec R readChildren).Slots} {own : NodeFields S D T}
    {c : C} :
    DesignNode.build R readChildren s = .ok (own, c) ↔
      s .summary = some own.summary ∧ s .data = some own.data ∧ s .children = some c ∧
        s .childrenTruncated = some own.childrenTruncated ∧
        (s .childrenTruncation).getD none = own.childrenTruncation := by
  simp only [DesignNode.build, Guard.bind_eq_ok, Spec.require_eq_ok]
  constructor
  · rintro ⟨summary, hsummary, data, hdata, children, hchildren, truncated, htruncated, h⟩
    obtain ⟨rfl, rfl⟩ := Prod.mk.inj (Except.ok.inj h)
    exact ⟨hsummary, hdata, hchildren, htruncated, rfl⟩
  · rintro ⟨hsummary, hdata, hchildren, htruncated, htruncation⟩
    refine ⟨_, hsummary, _, hdata, _, hchildren, _, htruncated, ?_⟩
    rw [htruncation]
    rfl

/-- The children can be read after the other members. -/
theorem readMembers_eq_ok {members : List (Serde.Member F)} {own : NodeFields S D T} {c : C} :
    DesignNode.readMembers R readChildren members = .ok (own, c) ↔
      ∃ json, DesignNode.readMembers R .ok members = .ok (own, json) ∧ readChildren json = .ok c := by
  simp only [DesignNode.readMembers, Guard.bind_eq_ok, build_eq_ok]
  constructor
  · rintro ⟨s, hs, hsummary, hdata, hchildren, htruncated, htruncation⟩
    obtain ⟨m, hm, hname, hread⟩ := (Spec.slot_eq_some hs).1 hchildren
    refine ⟨m.2, ⟨fun
      | .summary => s .summary
      | .data => s .data
      | .children => some m.2
      | .childrenTruncated => s .childrenTruncated
      | .childrenTruncation => s .childrenTruncation, ?_, hsummary, hdata, rfl, htruncated,
        htruncation⟩, hread⟩
    have hunique : ∀ n ∈ members, n.1.text = "children" → n = m := fun n hn hchild =>
      List.inj_on_of_nodup_map (Spec.slots_of_visitMap hs).1 hn hm (hchild.trans hname.symm)
    refine Spec.visitMap_of_visitMap hs (fun _ => rfl) (fun f hf => ?_)
      fun n hn f v hf hv hread => ?_
    · cases f with
      | children =>
          rw [hchildren] at hf
          cases hf
      | _ => exact hf
    · cases f with
      | children =>
          obtain rfl := hunique n hn hf.symm
          exact ⟨n.2, rfl, rfl⟩
      | _ => exact ⟨v, hv, hread⟩
  · rintro ⟨json, ⟨s, hs, hsummary, hdata, hchildren, htruncated, htruncation⟩, hread⟩
    refine ⟨fun
      | .summary => s .summary
      | .data => s .data
      | .children => some c
      | .childrenTruncated => s .childrenTruncated
      | .childrenTruncation => s .childrenTruncation, ?_, hsummary, hdata, rfl, htruncated,
        htruncation⟩
    refine Spec.visitMap_of_visitMap hs (fun _ => rfl) (fun f hf => ?_)
      fun n hn f v hf hv hjson => ?_
    · cases f with
      | children =>
          rw [hchildren] at hf
          cases hf
      | _ => exact hf
    · cases f with
      | children =>
          obtain rfl := Option.some.inj (hchildren.symm.trans hv)
          obtain rfl := Except.ok.inj hjson
          exact ⟨c, rfl, hread⟩
      | _ => exact ⟨v, hv, hjson⟩

variable {V : Type} {readValue : Json F → Except DecodeError V}

/-- The value of an item can be read after the other members. -/
theorem visitMap_success {members : List (Serde.Member F)} {value : V} :
    (ItemResultField.spec readValue).visitMap members = .ok (ItemResult.success value).slots ↔
      ∃ json, (ItemResultField.spec .ok).visitMap members = .ok (ItemResult.success json).slots ∧
        readValue json = .ok value := by
  constructor
  · intro hs
    obtain ⟨m, hm, hname, hread⟩ := (@Spec.slot_eq_some _ _ _ _ _ _ hs .value value).1 rfl
    refine ⟨m.2, Spec.visitMap_of_visitMap hs (fun _ => rfl) (fun f hf => ?_)
      fun n hn f v hf hv hread => ?_, hread⟩
    · cases f with
      | value => cases hf
      | status => cases hf
      | error => rfl
    · cases f with
      | value =>
          obtain rfl : n = m :=
            List.inj_on_of_nodup_map (Spec.slots_of_visitMap hs).1 hn hm (hf.symm.trans hname.symm)
          exact ⟨n.2, rfl, rfl⟩
      | status => exact ⟨v, hv, hread⟩
      | error => cases hv
  · rintro ⟨json, hs, hread⟩
    refine Spec.visitMap_of_visitMap hs (fun _ => rfl) (fun f hf => ?_) fun n hn f v hf hv hjson => ?_
    · cases f with
      | value => cases hf
      | status => cases hf
      | error => rfl
    · cases f with
      | value =>
          obtain rfl := Option.some.inj hv
          obtain rfl := Except.ok.inj hjson
          exact ⟨value, rfl, hread⟩
      | status => exact ⟨v, hv, hjson⟩
      | error => cases hv

/-- An item with an error has no value to be read. -/
theorem visitMap_error {V' : Type} {readValue' : Json F → Except DecodeError V'}
    {members : List (Serde.Member F)} {e : ToolError}
    (h : (ItemResultField.spec readValue).visitMap members = .ok (ItemResult.error e).slots) :
    (ItemResultField.spec readValue').visitMap members = .ok (ItemResult.error e).slots := by
  refine Spec.visitMap_of_visitMap h (fun _ => rfl) (fun f hf => ?_) fun n hn f v hf hv hread => ?_
  · cases f with
    | value => rfl
    | status => cases hf
    | error => cases hf
  · cases f with
    | value => cases hv
    | status => exact ⟨v, hv, hread⟩
    | error => exact ⟨v, hv, hread⟩

/-- An item that is built has slots of its own, and hands on what its node has left. -/
theorem buildItemResult_eq_ok {readValue : Json F → Except DecodeError (DesignNode S D T × ℕ)}
    {remaining rest : ℕ} {s : (ItemResultField.spec readValue).Slots}
    {item : ItemResult (DesignNode S D T)} :
    buildItemResult remaining s = .ok (item, rest) ↔
      (∃ node, s = (ItemResult.success (node, rest)).slots ∧ item = .success node) ∨
      ∃ e, s = (ItemResult.error e).slots ∧ item = .error e ∧ rest = remaining := by
  simp only [buildItemResult, Guard.bind_eq_ok, Spec.require_eq_ok]
  constructor
  · rintro ⟨tag, htag, h⟩
    cases tag with
    | success =>
        simp only [rejectFields_eq_ok, exists_const, Guard.bind_eq_ok, isSome_eq_false,
          Spec.require_eq_ok] at h
        obtain ⟨herror, ⟨node, left⟩, hvalue, h⟩ := h
        obtain ⟨rfl, rfl⟩ := Prod.mk.inj (Except.ok.inj h)
        refine .inl ⟨node, ?_, rfl⟩
        funext f
        cases f <;> assumption
    | error =>
        simp only [rejectFields_eq_ok, exists_const, Guard.bind_eq_ok, isSome_eq_false,
          Spec.require_eq_ok, Guard.pure_eq_ok] at h
        obtain ⟨hvalue, e, herror, h⟩ := h
        obtain ⟨rfl, rfl⟩ := Prod.mk.inj h
        refine .inr ⟨e, ?_, rfl, rfl⟩
        funext f
        cases f <;> assumption
  · rintro (⟨node, rfl, rfl⟩ | ⟨e, rfl, rfl, rfl⟩)
    · exact ⟨.success, rfl, rfl⟩
    · exact ⟨.error, rfl, rfl⟩

end Members

/-! ## What is read -/

section Read

variable (R : NodeReaders F S D T)

/-- What a text is made of as a node: its fields, and the texts of its children. -/
def nodeParts : Json F → Option (NodeFields S D T × List (Json F))
  | .object _ members =>
    match DesignNode.readMembers R .ok members with
    | .ok (own, .array _ items) => some (own, items)
    | _ => none
  | _ => none

/-- The text stands for the tree: its nodes have the members that they should have, however many
they are and however deep they lie. -/
def Denotes : Json F → DesignNode S D T → Prop := Unfolds (nodeParts R)

variable {R}

theorem denotes_node {json : Json F} {own : NodeFields S D T} {children : List (DesignNode S D T)} :
    Denotes R json (.node own children) ↔
      ∃ space members childSpace items, json = .object space members ∧
        DesignNode.readMembers R .ok members = .ok (own, .array childSpace items) ∧
        List.Forall₂ (Denotes R) items children := by
  rw [Denotes, unfolds_node]
  constructor
  · rintro ⟨items, hparts, hchildren⟩
    cases json with
    | object space members =>
        rw [nodeParts] at hparts
        cases hmembers : DesignNode.readMembers R .ok members with
        | error e =>
            rw [hmembers] at hparts
            cases hparts
        | ok parts =>
            obtain ⟨own', list⟩ := parts
            rw [hmembers] at hparts
            cases list with
            | array childSpace items' =>
                obtain ⟨rfl, rfl⟩ := Prod.mk.inj (Option.some.inj hparts)
                exact ⟨space, members, childSpace, items', rfl, hmembers, hchildren⟩
            | _ => cases hparts
    | _ => cases hparts
  · rintro ⟨space, members, childSpace, items, rfl, hmembers, hchildren⟩
    refine ⟨items, ?_, hchildren⟩
    rw [nodeParts, hmembers]

/-- **A node is read where there is room for it** and for all below it. -/
theorem spends_read (levels : ℕ) (json : Json F) :
    Spends (.down maxReturnedNodes) (DesignNode.read R levels json)
      (fun node => Denotes R json node ∧ node.levels ≤ levels) Rose.count := by
  induction levels generalizing json with
  | zero =>
      intro remaining _ node rest
      refine ⟨nofun, fun h => ?_⟩
      cases node
      exact absurd h.1.2 (by simp)
  | succ levels ih =>
      intro remaining hvalid node rest
      rw [Budget.down_spend_eq_some]
      show DesignNode.read R (levels + 1) json remaining = _ ↔ _
      cases remaining with
      | zero =>
          refine ⟨nofun, fun h => ?_⟩
          have hpaid := h.2.1
          cases node
          rw [Rose.count_node] at hpaid
          omega
      | succ remaining =>
          have hleft : remaining ≤ maxReturnedNodes := Nat.le_of_succ_le hvalid
          constructor
          · intro h
            cases json with
            | object space members =>
                obtain ⟨⟨own, children, left⟩, hmembers, h⟩ := Guard.bind_eq_ok.1 h
                obtain ⟨rfl, rfl⟩ := Prod.mk.inj (Except.ok.inj h)
                obtain ⟨list, hown, hlist⟩ := readMembers_eq_ok.1 hmembers
                cases list with
                | array childSpace items =>
                    have ⟨⟨_, hchildren, hlevels⟩, hspend⟩ :=
                      (Spends.forestUpTo (fun _ _ => ih _) _ _ hleft _ _).1 hlist
                    rw [Budget.down_spend_eq_some] at hspend
                    refine ⟨⟨denotes_node.2 ⟨_, _, _, _, rfl, hown, hchildren⟩, ?_⟩, ?_⟩
                    · rw [Rose.levels_node]
                      omega
                    · rw [Rose.count_node]
                      omega
                | _ => cases hlist
            | _ => cases h
          · rintro ⟨⟨hdenotes, hlevels⟩, hspend⟩
            obtain ⟨own, children⟩ := node
            obtain ⟨space, members, childSpace, items, rfl, hown, hchildren⟩ := denotes_node.1 hdenotes
            rw [Rose.levels_node] at hlevels
            rw [Rose.count_node] at hspend
            have hlength := hchildren.length_eq
            have hle := Rose.length_le_forestCount children
            refine Guard.bind_eq_ok.2 ⟨(own, children, remaining - Rose.forestCount children),
              readMembers_eq_ok.2 ⟨_, hown, (Spends.forestUpTo (fun _ _ => ih _) _ _ hleft _ _).2
                ⟨⟨by omega, hchildren, by omega⟩, Budget.down_spend_eq_some.2 ⟨by omega, rfl⟩⟩⟩, ?_⟩
            have hrest : rest = remaining - Rose.forestCount children := by omega
            rw [hrest]
            rfl

variable (R) in
/-- The text stands for the item: for a node, or for an error. -/
inductive DenotesItem : Json F → ItemResult (DesignNode S D T) → Prop
  | success {space : ℕ} {members : List (Serde.Member F)} {value : Json F} {node : DesignNode S D T}
      (hitem : (ItemResultField.spec .ok).visitMap members = .ok (ItemResult.success value).slots)
      (hvalue : Denotes R value node) : DenotesItem (.object space members) (.success node)
  | error {space : ℕ} {members : List (Serde.Member F)} {e : ToolError}
      (hitem : (ItemResultField.spec (@Except.ok _ (Json F))).visitMap members =
        .ok (ItemResult.error e).slots) : DenotesItem (.object space members) (.error e)

theorem spends_readItemResult (json : Json F) :
    Spends (.down maxReturnedNodes) (readItemResult R json)
      (fun item => DenotesItem R json item ∧ ∀ node ∈ item.tree, node.levels ≤ maxDepth + 1)
      (priceOf ItemResult.tree) := by
  intro remaining hvalid item rest
  show readItemResult R json remaining = _ ↔ _
  constructor
  · intro h
    cases json with
    | object space members =>
        obtain ⟨s, hs, h⟩ := Guard.bind_eq_ok.1 h
        rcases buildItemResult_eq_ok.1 h with ⟨node, rfl, rfl⟩ | ⟨e, rfl, rfl, rfl⟩
        · obtain ⟨value, hitem, hvalue⟩ := visitMap_success.1 hs
          have ⟨⟨hdenotes, hlevels⟩, hspend⟩ := (spends_read _ _ _ hvalid _ _).1 hvalue
          exact ⟨⟨.success hitem hdenotes, fun _ h => Option.some.inj h ▸ hlevels⟩, hspend⟩
        · exact ⟨⟨.error (visitMap_error hs), nofun⟩, Budget.spend_zero _ _ hvalid⟩
    | _ => cases h
  · rintro ⟨⟨hdenotes, hlevels⟩, hspend⟩
    cases hdenotes with
    | @success space members value node hitem hvalue =>
        have hread := (spends_read _ _ _ hvalid _ _).2 ⟨⟨hvalue, hlevels node rfl⟩, hspend⟩
        exact Guard.bind_eq_ok.2 ⟨_, visitMap_success.2 ⟨value, hitem, hread⟩,
          buildItemResult_eq_ok.2 (.inl ⟨node, rfl, rfl⟩)⟩
    | @error space members e hitem =>
        obtain rfl := Option.some.inj ((Budget.spend_zero _ remaining hvalid).symm.trans hspend)
        exact Guard.bind_eq_ok.2 ⟨_, visitMap_error hitem,
          buildItemResult_eq_ok.2 (.inr ⟨e, rfl, rfl, rfl⟩)⟩

/-- **Which forests are read.** -/
theorem readNodeForest_eq_ok {space : ℕ} {items : List (Json F)}
    {forest : List (DesignNode S D T)} :
    readNodeForest R (.array space items) = .ok forest ↔
      List.Forall₂ (Denotes R) items forest ∧ FitsResult forest := by
  rw [readNodeForest, map_fst_eq_ok, readNodeList, exists_spends_down
    (Spends.forestUpTo (fun item _ => spends_read (maxDepth + 1) item) _)]
  constructor
  · rintro ⟨⟨_, hdenotes, hlevels⟩, hcount⟩
    exact ⟨hdenotes, hlevels, hcount⟩
  · rintro ⟨hdenotes, hlevels, hcount⟩
    refine ⟨⟨?_, hdenotes, hlevels⟩, hcount⟩
    rw [hdenotes.length_eq]
    exact (Rose.length_le_forestCount forest).trans hcount

/-- **Which batches are read.** -/
theorem readNodeBatch_eq_ok {space : ℕ} {items : List (Json F)}
    {batch : List (ItemResult (DesignNode S D T))} :
    readNodeBatch R (.array space items) = .ok batch ↔ items.length ≤ maxInputIds ∧
      List.Forall₂ (DenotesItem R) items batch ∧ FitsResult (batch.filterMap ItemResult.tree) := by
  rw [readNodeBatch, map_fst_eq_ok, exists_spends_down
    (Spends.batchUpTo (fun item _ => spends_readItemResult item) _), and_assoc, and_assoc]
  rfl

end Read

/-! ## What the check lets through -/

/-- **A tree goes through where there is room for it.** -/
theorem spends_validateNode (levels : ℕ) (node : DesignNode S D T) :
    Spends (.up maxReturnedNodes) (validateNode levels node) (fun _ => node.levels ≤ levels)
      fun _ => node.count := by
  induction levels generalizing node with
  | zero =>
      intro count _ u count'
      refine ⟨nofun, fun h => ?_⟩
      cases node
      exact absurd h.1 (by simp)
  | succ levels ih =>
      intro count hvalid u count'
      obtain ⟨own, children⟩ := node
      have hle := Rose.length_le_forestCount children
      rw [Rose.levels_node, Rose.count_node, Budget.up_spend_eq_some]
      show validateNode (levels + 1) (.node own children) count = _ ↔ _
      rw [validateNode]
      by_cases hcount : maxReturnedNodes < count + 1
      · simp only [if_pos hcount]
        exact ⟨nofun, fun h => by omega⟩
      · by_cases hchildren : maxReturnedNodes - (count + 1) < children.length
        · simp only [if_neg hcount, if_pos hchildren]
          exact ⟨nofun, fun h => by omega⟩
        · simp only [if_neg hcount, if_neg hchildren]
          rw [Spends.forM (fun child _ => ih child) (count + 1) (Nat.not_lt.1 hcount),
            ← Rose.forestLevels_le, ← Rose.forestCount_eq_sum, Budget.up_spend_eq_some]
          beta_reduce
          omega

theorem validateNodeRoots_isOk {roots : List (DesignNode S D T)} :
    validateNodeRoots roots = .ok ⟨⟩ ↔ FitsResult roots := by
  rw [validateNodeRoots, map_fst_eq_ok, exists_spends_up
    (Spends.forM fun node _ => spends_validateNode (maxDepth + 1) node), ← Rose.forestLevels_le,
    ← Rose.forestCount_eq_sum]
  rfl

theorem checkNodeForest_isOk {nodes : List (DesignNode S D T)} :
    checkNodeForest nodes = .ok ⟨⟩ ↔ FitsResult nodes := by
  rw [checkNodeForest]
  by_cases hlength : maxReturnedNodes < nodes.length
  · rw [if_pos hlength]
    have hle := Rose.length_le_forestCount nodes
    exact ⟨nofun, fun h => absurd h.2 (by omega)⟩
  · rw [if_neg hlength, validateNodeRoots_isOk]

theorem checkNodeBatch_isOk {items : List (ItemResult (DesignNode S D T))} :
    checkNodeBatch items = .ok ⟨⟩ ↔
      items.length ≤ maxInputIds ∧ FitsResult (items.filterMap ItemResult.tree) := by
  rw [checkNodeBatch]
  by_cases hlength : maxInputIds < items.length
  · rw [if_pos hlength]
    exact ⟨nofun, fun h => absurd h.1 (Nat.not_le.2 hlength)⟩
  · rw [if_neg hlength, validateNodeRoots_isOk, and_iff_right (Nat.not_lt.1 hlength)]

end FigmaDevMcp.Protocol

import FigmaDevMcp.Protocol.NodeForests
import Mathlib.Data.List.ReduceOption

set_option autoImplicit false

/-!
# The bounds of a result

A result of the protocol crate is read from a text under a budget, or checked once it has been built;
the plugin counts the nodes of the value that it sends. All three have the same bounds.

* `NodeForest`, `NodeBatch`: results within their bounds;
* `NodeForest.read`, `NodeForest.tryFrom`, `NodeBatch.read`, `NodeBatch.tryFrom`: how they are made;
* `nodeBounds_agree`: **the reader, the check and the plugin accept the same forests and batches**.
-/

namespace FigmaDevMcp.Protocol

open Serde SharedBudget ResultValidation Tools

variable {F S D T : Type}

/-! ## Results within their bounds -/

/-- A forest within the bounds of a result. -/
structure NodeForest (S D T : Type) where
  nodes : List (DesignNode S D T)
  fits : FitsResult nodes

/-- A batch within the bounds of a result. -/
structure NodeBatch (S D T : Type) where
  items : List (ItemResult (DesignNode S D T))
  length_le : items.length ≤ maxInputIds
  fits : FitsResult (items.filterMap ItemResult.tree)

theorem fits_of_readNodeForest {R : NodeReaders F S D T} {json : Json F}
    {nodes : List (DesignNode S D T)} (h : readNodeForest R json = .ok nodes) : FitsResult nodes := by
  cases json with
  | array space items => exact (readNodeForest_eq_ok.1 h).2
  | _ => cases h

theorem fits_of_readNodeBatch {R : NodeReaders F S D T} {json : Json F}
    {items : List (ItemResult (DesignNode S D T))} (h : readNodeBatch R json = .ok items) :
    items.length ≤ maxInputIds ∧ FitsResult (items.filterMap ItemResult.tree) := by
  cases json with
  | array space texts =>
      have ⟨hlength, hdenotes, hfits⟩ := readNodeBatch_eq_ok.1 h
      exact ⟨hdenotes.length_eq ▸ hlength, hfits⟩
  | _ => cases h

/-- A forest that is read within its bounds. -/
def NodeForest.read (R : NodeReaders F S D T) (json : Json F) :
    Except DecodeError (NodeForest S D T) :=
  match h : readNodeForest R json with
  | .ok nodes => .ok ⟨nodes, fits_of_readNodeForest h⟩
  | .error e => .error e

/-- A forest that is checked against its bounds. -/
def NodeForest.tryFrom (nodes : List (DesignNode S D T)) :
    Except BoundaryValueError (NodeForest S D T) :=
  match h : checkNodeForest nodes with
  | .ok _ => .ok ⟨nodes, checkNodeForest_isOk.1 h⟩
  | .error e => .error e

/-- A batch that is read within its bounds. -/
def NodeBatch.read (R : NodeReaders F S D T) (json : Json F) :
    Except DecodeError (NodeBatch S D T) :=
  match h : readNodeBatch R json with
  | .ok items => .ok ⟨items, (fits_of_readNodeBatch h).1, (fits_of_readNodeBatch h).2⟩
  | .error e => .error e

/-- A batch that is checked against its bounds. -/
def NodeBatch.tryFrom (items : List (ItemResult (DesignNode S D T))) :
    Except BoundaryValueError (NodeBatch S D T) :=
  match h : checkNodeBatch items with
  | .ok _ => .ok ⟨items, (checkNodeBatch_isOk.1 h).1, (checkNodeBatch_isOk.1 h).2⟩
  | .error e => .error e

theorem NodeForest.read_isOk {R : NodeReaders F S D T} {json : Json F} :
    (∃ r, NodeForest.read R json = .ok r) ↔ ∃ nodes, readNodeForest R json = .ok nodes := by
  rw [NodeForest.read]
  split
  · exact iff_of_true ⟨_, rfl⟩ ⟨_, ‹_›⟩
  · rename_i e h
    refine ⟨nofun, fun ⟨nodes, hnodes⟩ => ?_⟩
    rw [h] at hnodes
    cases hnodes

theorem NodeForest.tryFrom_isOk {nodes : List (DesignNode S D T)} :
    (∃ r, NodeForest.tryFrom nodes = .ok r) ↔ FitsResult nodes := by
  rw [NodeForest.tryFrom, ← checkNodeForest_isOk]
  split
  · exact iff_of_true ⟨_, rfl⟩ ‹_›
  · rename_i e h
    rw [h]
    exact ⟨nofun, nofun⟩

theorem NodeBatch.read_isOk {R : NodeReaders F S D T} {json : Json F} :
    (∃ r, NodeBatch.read R json = .ok r) ↔ ∃ items, readNodeBatch R json = .ok items := by
  rw [NodeBatch.read]
  split
  · exact iff_of_true ⟨_, rfl⟩ ⟨_, ‹_›⟩
  · rename_i e h
    refine ⟨nofun, fun ⟨items, hitems⟩ => ?_⟩
    rw [h] at hitems
    cases hitems

theorem NodeBatch.tryFrom_isOk {items : List (ItemResult (DesignNode S D T))} :
    (∃ r, NodeBatch.tryFrom items = .ok r) ↔
      items.length ≤ maxInputIds ∧ FitsResult (items.filterMap ItemResult.tree) := by
  rw [NodeBatch.tryFrom, ← checkNodeBatch_isOk]
  split
  · exact iff_of_true ⟨_, rfl⟩ ‹_›
  · rename_i e h
    rw [h]
    exact ⟨nofun, nofun⟩

/-! ## The same bounds -/

section Agree

variable {R : NodeReaders F S D T} {E : Type} {parseData : JsValue → JsString → Validated E}

/-- The read list is the one that the texts denote. -/
theorem readNodeForest_isOk {space : ℕ} {items : List (Json F)} {forest : List (DesignNode S D T)}
    (hdenotes : List.Forall₂ (Denotes R) items forest) :
    (∃ nodes, readNodeForest R (.array space items) = .ok nodes) ↔ FitsResult forest := by
  constructor
  · rintro ⟨nodes, hnodes⟩
    have ⟨hread, hfits⟩ := readNodeForest_eq_ok.1 hnodes
    rwa [eq_of_forall₂ hdenotes hread fun _ _ _ _ h h' => h.unique h']
  · exact fun hfits => ⟨forest, readNodeForest_eq_ok.2 ⟨hdenotes, hfits⟩⟩

theorem parseNodeForest_isOk {values : List JsValue} {label : JsString}
    {forest : List (NodeTree JsValue E JsValue)}
    (hparses : List.Forall₂ (Parses parseData) (labelled label values) forest) :
    (parseNodeForest parseData (.array values) label).isOk = true ↔ FitsResult forest := by
  rw [isOk_iff]
  constructor
  · rintro ⟨nodes, hnodes⟩
    have ⟨hread, hfits⟩ := parseNodeForest_eq_ok.1 hnodes
    rwa [eq_of_forall₂ hparses hread fun _ _ _ _ h h' => h.unique h']
  · exact fun hfits => ⟨forest, parseNodeForest_eq_ok.2 ⟨hparses, hfits⟩⟩

theorem DenotesItem.unique {json : Json F} {item other : ItemResult (DesignNode S D T)}
    (h : DenotesItem R json item) (hother : DenotesItem R json other) : item = other := by
  cases h with
  | success hitem hvalue =>
      cases hother with
      | success hitem' hvalue' =>
          have hslots := Except.ok.inj (hitem.symm.trans hitem')
          obtain rfl := Option.some.inj (congrFun hslots .value)
          rw [hvalue.unique hvalue']
      | error hitem' =>
          have hslots := Except.ok.inj (hitem.symm.trans hitem')
          cases congrFun hslots .value
  | error hitem =>
      cases hother with
      | success hitem' hvalue' =>
          have hslots := Except.ok.inj (hitem.symm.trans hitem')
          cases congrFun hslots .value
      | error hitem' =>
          have hslots := Except.ok.inj (hitem.symm.trans hitem')
          rw [Option.some.inj (congrFun hslots .error)]

theorem unique_parsesItem {value : JsString × JsValue} {item other : ParsedItem (NodeTree JsValue E JsValue)}
    (h : ParsesItem parseData value item) (hother : ParsesItem parseData value other) :
    item = other := by
  cases h with
  | success hstatus _ hvalue =>
      cases hother with
      | success _ _ hvalue' => rw [hvalue.unique hvalue']
      | error hstatus' _ _ => exact absurd hstatus (not_isWord_of_isWord hstatus' (by decide))
  | error hstatus _ herror =>
      cases hother with
      | success hstatus' _ _ => exact absurd hstatus' (not_isWord_of_isWord hstatus (by decide))
      | error _ _ herror' => rw [Except.ok.inj (herror.symm.trans herror')]

theorem readNodeBatch_isOk {space : ℕ} {items : List (Json F)}
    {batch : List (ItemResult (DesignNode S D T))}
    (hdenotes : List.Forall₂ (DenotesItem R) items batch) :
    (∃ read, readNodeBatch R (.array space items) = .ok read) ↔
      batch.length ≤ maxInputIds ∧ FitsResult (batch.filterMap ItemResult.tree) := by
  rw [← hdenotes.length_eq]
  constructor
  · rintro ⟨read, hread⟩
    have ⟨hlength, hother, hfits⟩ := readNodeBatch_eq_ok.1 hread
    rw [eq_of_forall₂ hdenotes hother fun _ _ _ _ h h' => h.unique h']
    exact ⟨hlength, hfits⟩
  · exact fun ⟨hlength, hfits⟩ => ⟨batch, readNodeBatch_eq_ok.2 ⟨hlength, hdenotes, hfits⟩⟩

theorem parseNodeBatch_isOk {values : List JsValue} {label : JsString}
    {batch : List (ParsedItem (NodeTree JsValue E JsValue))}
    (hparses : List.Forall₂ (ParsesItem parseData) (labelled label values) batch) :
    (parseNodeBatch parseData (.array values) label).isOk = true ↔
      batch.length ≤ maxInputIds ∧ FitsResult (batch.filterMap ParsedItem.value) := by
  rw [isOk_iff, ← hparses.length_eq, length_labelled]
  constructor
  · rintro ⟨parsed, hparsed⟩
    have ⟨hlength, hother, hfits⟩ := parseNodeBatch_eq_ok.1 hparsed
    rw [eq_of_forall₂ hparses hother fun _ _ _ _ h h' => unique_parsesItem h h']
    exact ⟨hlength, hfits⟩
  · exact fun ⟨hlength, hfits⟩ => ⟨batch, parseNodeBatch_eq_ok.2 ⟨hlength, hparses, hfits⟩⟩

/-- The shape of an item: that of its tree, if it has one. -/
def itemShape {ι β : Type} (tree : β → Option (Rose ι)) (item : β) : Option (Rose Unit) :=
  (tree item).map Rose.shape

theorem forestShape_filterMap {ι β : Type} (tree : β → Option (Rose ι)) (items : List β) :
    Rose.forestShape (items.filterMap tree) = (items.map (itemShape tree)).reduceOption := by
  induction items with
  | nil => rw [List.filterMap_nil, List.map_nil, List.reduceOption_nil, Rose.forestShape]
  | cons item items ih =>
      rw [List.map_cons, itemShape]
      cases htree : tree item with
      | none => rw [List.filterMap_cons_none htree, Option.map_none, List.reduceOption_cons_of_none, ih]
      | some t =>
          rw [List.filterMap_cons_some htree, Option.map_some, List.reduceOption_cons_of_some,
            Rose.forestShape, ih]

variable (R parseData) in
/-- **The same bounds.** A forest whose nodes have the members that they should have is read from its
text, let through by the check, and let through by the plugin, each of them exactly where no node lies
more than six levels below its root and there are no more than 2000 nodes. A batch of items has the
same bound on all its nodes together, and besides no more than 2000 items. -/
theorem nodeBounds_agree :
    (∀ space texts (forest : List (DesignNode S D T)) values label
      (sent : List (NodeTree JsValue E JsValue)),
      List.Forall₂ (Denotes R) texts forest →
      List.Forall₂ (Parses parseData) (labelled label values) sent →
      Rose.forestShape sent = Rose.forestShape forest →
      ((∃ r, NodeForest.read R (.array space texts) = .ok r) ↔ FitsResult forest) ∧
        ((∃ r, NodeForest.tryFrom forest = .ok r) ↔ FitsResult forest) ∧
        ((parseNodeForest parseData (.array values) label).isOk = true ↔ FitsResult forest)) ∧
    ∀ space texts (batch : List (ItemResult (DesignNode S D T))) values label
      (sent : List (ParsedItem (NodeTree JsValue E JsValue))),
      List.Forall₂ (DenotesItem R) texts batch →
      List.Forall₂ (ParsesItem parseData) (labelled label values) sent →
      sent.map (itemShape ParsedItem.value) = batch.map (itemShape ItemResult.tree) →
      ((∃ r, NodeBatch.read R (.array space texts) = .ok r) ↔
          batch.length ≤ maxInputIds ∧ FitsResult (batch.filterMap ItemResult.tree)) ∧
        ((∃ r, NodeBatch.tryFrom batch = .ok r) ↔
          batch.length ≤ maxInputIds ∧ FitsResult (batch.filterMap ItemResult.tree)) ∧
        ((parseNodeBatch parseData (.array values) label).isOk = true ↔
          batch.length ≤ maxInputIds ∧ FitsResult (batch.filterMap ItemResult.tree)) := by
  refine ⟨fun space texts forest values label sent hdenotes hparses hshape => ⟨?_, ?_, ?_⟩,
    fun space texts batch values label sent hdenotes hparses hshape => ⟨?_, ?_, ?_⟩⟩
  · rw [NodeForest.read_isOk, readNodeForest_isOk hdenotes]
  · exact NodeForest.tryFrom_isOk
  · rw [parseNodeForest_isOk hparses]
    exact Rose.within_iff_of_shape hshape
  · rw [NodeBatch.read_isOk, readNodeBatch_isOk hdenotes]
  · exact NodeBatch.tryFrom_isOk
  · have hlength := congrArg List.length hshape
    rw [List.length_map, List.length_map] at hlength
    rw [parseNodeBatch_isOk hparses, hlength]
    refine and_congr_right fun _ => Rose.within_iff_of_shape ?_
    rw [forestShape_filterMap, forestShape_filterMap, hshape]

end Agree

/-! ## A nested forest, and batches with errors -/

/-- The data of a node read for its names alone. -/
def readNothing (_ : Json Unit) : Except DecodeError Unit := .ok ()

/-- Readers that read nothing but the members of a node. -/
def namesOnly : NodeReaders Unit Unit Unit Unit := ⟨readNothing, readNothing, readNothing⟩

/-- A node as the broker receives it. -/
def nodeText (children : List (Json Unit)) : Json Unit :=
  .object 0 [(⟨7, "summary"⟩, .null), (⟨4, "data"⟩, .null), (⟨8, "children"⟩, .array 0 children),
    (⟨17, "childrenTruncated"⟩, .bool false)]

/-- The same node as the plugin sends it. -/
def nodeValue (children : List JsValue) : JsValue :=
  .object (member "summary" (.object (member "id" (word "1:2") ++ member "name" (word "") ++
      member "nodeType" (word "FRAME"))) ++
    member "data" (.object []) ++ member "children" (.array children) ++
    member "childrenTruncated" (.bool false))

/-- Data without members. -/
def emptyData (value : JsValue) (label : JsString) : Validated JsValue := exact value label []

/-- The same node as it is read. -/
def bareNode (children : List (DesignNode Unit Unit Unit)) : DesignNode Unit Unit Unit :=
  .node ⟨(), (), false, none⟩ children

theorem denotes_nodeText {texts : List (Json Unit)} {children : List (DesignNode Unit Unit Unit)}
    (h : List.Forall₂ (Denotes namesOnly) texts children) :
    Denotes namesOnly (nodeText texts) (bareNode children) :=
  denotes_node.2 ⟨0, _, 0, texts, rfl, rfl, h⟩

theorem parses_nodeValue {l : JsString} {v : List JsValue}
    {children : List (NodeTree JsValue JsValue JsValue)}
    (h : List.Forall₂ (Parses emptyData) (labelled (dot l "children") v) children) :
    ∃ own, Parses emptyData (l, nodeValue v) (.node own children) := by
  obtain ⟨own, hown⟩ : ∃ own, parseNodeFields emptyData (nodeValue v) l =
      .ok (own, v) := ⟨_, rfl⟩
  exact ⟨own, parses_node.2 ⟨v, hown, h⟩⟩


/-- An error. -/
def timedOut : ToolError := ⟨.timeout, false, none⟩

/-- A node with a child, and an error. -/
def itemTexts : List (Json Unit) :=
  [(ItemResult.success (nodeText [nodeText []])).encode .ok id,
    (ItemResult.error timedOut).encode .ok id]

/-- The same error as the plugin sends it. -/
def errorValue : JsValue :=
  .object (member "code" (word "TIMEOUT") ++
    member "message" (word (canonicalMessage .timeout)) ++ member "retryable" (.bool false))

/-- A batch as the plugin sends it. -/
def itemValues : List JsValue :=
  [.object (member "status" (word "success") ++ member "value" (nodeValue [nodeValue []])),
    .object (member "status" (word "error") ++ member "error" errorValue)]

/-- The same batch as it is read. -/
def mixedItems : List (ItemResult (DesignNode Unit Unit Unit)) :=
  [.success (bareNode [bareNode []]), .error timedOut]

/-- The fields of an item. -/
abbrev itemSpec : Spec Unit ItemResultField := ItemResultField.spec (@Except.ok _ (Json Unit))

theorem visitMap_itemMembers (item : ItemResult (Json Unit)) :
    itemSpec.visitMap (itemSpec.members itemSpec.fields (ItemResult.write id) item.slots) =
      .ok item.slots := by
  have hread : ItemResult.read Except.ok (item.encode Except.ok id) = .ok item :=
    ItemResult.read_encode fun _ _ => rfl
  obtain ⟨s, hs, hbuild⟩ := Guard.bind_eq_ok.1 (show _ >>= ItemResult.build = .ok item from hread)
  rwa [ItemResult.slots_of_build hbuild] at hs

theorem denotes_itemTexts : List.Forall₂ (DenotesItem namesOnly) itemTexts mixedItems :=
  .cons (.success (visitMap_itemMembers (.success _))
      (denotes_nodeText (.cons (denotes_nodeText .nil) .nil)))
    (.cons (.error (visitMap_itemMembers (.error _))) .nil)

theorem parses_itemValues : ∃ sent,
    List.Forall₂ (ParsesItem emptyData) (labelled [] itemValues) sent ∧
      sent.map (itemShape ParsedItem.value) = mixedItems.map (itemShape ItemResult.tree) := by
  obtain ⟨inner, hinner⟩ := parses_nodeValue
    (l := itemLabel (dot (dot (itemLabel [] 0) "value") "children") 0) (v := []) .nil
  obtain ⟨own, hown⟩ := parses_nodeValue (l := dot (itemLabel [] 0) "value")
    (v := [nodeValue []]) (.cons hinner .nil)
  obtain ⟨error, herror⟩ : ∃ error, parseToolError errorValue (dot (itemLabel [] 1) "error") =
      .ok error := ⟨_, rfl⟩
  exact ⟨[.success (.node own [.node inner []]), .error error],
    .cons (.success rfl rfl hown) (.cons (.error rfl rfl herror) .nil), rfl⟩

/-- A node with two children, and one without. -/
def nestedTexts : List (Json Unit) := [nodeText [nodeText [], nodeText []], nodeText []]

/-- A forest as the plugin sends it. -/
def nestedValues : List JsValue := [nodeValue [nodeValue [], nodeValue []], nodeValue []]

/-- The same forest as it is read. -/
def nestedForest : List (DesignNode Unit Unit Unit) :=
  [bareNode [bareNode [], bareNode []], bareNode []]

theorem denotes_nestedTexts : List.Forall₂ (Denotes namesOnly) nestedTexts nestedForest :=
  .cons (denotes_nodeText (.cons (denotes_nodeText .nil) (.cons (denotes_nodeText .nil) .nil)))
    (.cons (denotes_nodeText .nil) .nil)

theorem parses_nestedValues : ∃ sent,
    List.Forall₂ (Parses emptyData) (labelled [] nestedValues) sent ∧
      Rose.forestShape sent = Rose.forestShape nestedForest := by
  obtain ⟨first, hfirst⟩ := parses_nodeValue
    (l := itemLabel (dot (itemLabel [] 0) "children") 0) (v := []) .nil
  obtain ⟨second, hsecond⟩ := parses_nodeValue
    (l := itemLabel (dot (itemLabel [] 0) "children") 1) (v := []) .nil
  obtain ⟨own, hown⟩ := parses_nodeValue (l := itemLabel [] 0)
    (v := [nodeValue [], nodeValue []]) (.cons hfirst (.cons hsecond .nil))
  obtain ⟨last, hlast⟩ := parses_nodeValue (l := itemLabel [] 1) (v := []) .nil
  exact ⟨[.node own [.node first [], .node second []], .node last []],
    .cons hown (.cons hlast .nil), rfl⟩

/-- A forest of four nodes and a batch with an error are within the bounds of all. -/
theorem nodeBounds_nested :
    (∃ r, NodeForest.read namesOnly (.array 0 nestedTexts) = .ok r) ∧
    (∃ r, NodeForest.tryFrom nestedForest = .ok r) ∧
    (parseNodeForest emptyData (.array nestedValues) []).isOk = true ∧
    (∃ r, NodeBatch.read namesOnly (.array 0 itemTexts) = .ok r) ∧
    (∃ r, NodeBatch.tryFrom mixedItems = .ok r) ∧
    (parseNodeBatch emptyData (.array itemValues) []).isOk = true := by
  obtain ⟨sent, hparses, hshape⟩ := parses_nestedValues
  obtain ⟨sentItems, hparsesItems, hshapes⟩ := parses_itemValues
  have ⟨hread, hbuilt, hsent⟩ := (nodeBounds_agree namesOnly emptyData).1 0 nestedTexts nestedForest
    nestedValues [] sent denotes_nestedTexts hparses hshape
  have ⟨hreadItems, hbuiltItems, hsentItems⟩ := (nodeBounds_agree namesOnly emptyData).2 0 itemTexts
    mixedItems itemValues [] sentItems denotes_itemTexts hparsesItems hshapes
  have hfits : FitsResult nestedForest := ⟨by decide, by decide⟩
  have hitems : mixedItems.length ≤ maxInputIds ∧
      FitsResult (mixedItems.filterMap ItemResult.tree) := ⟨by decide, by decide, by decide⟩
  exact ⟨hread.2 hfits, hbuilt.2 hfits, hsent.2 hfits, hreadItems.2 hitems, hbuiltItems.2 hitems,
    hsentItems.2 hitems⟩

/-- A batch of 2001 errors has no node at all, and is refused. -/
theorem nodeBounds_longBatch : ∃ batch : List (ItemResult (DesignNode Unit Unit Unit)),
    FitsResult (batch.filterMap ItemResult.tree) ∧ ¬ ∃ r, NodeBatch.tryFrom batch = .ok r := by
  have hnone : ((List.replicate 2001 (.error ⟨.timeout, false, none⟩) :
      List (ItemResult (DesignNode Unit Unit Unit))).filterMap ItemResult.tree) = [] :=
    List.filterMap_eq_nil_iff.2 fun item hitem => (List.eq_of_mem_replicate hitem) ▸ rfl
  refine ⟨List.replicate 2001 (.error ⟨.timeout, false, none⟩), ?_, fun h => ?_⟩
  · rw [hnone]
    exact ⟨Nat.zero_le _, Nat.zero_le _⟩
  · have hlength := (NodeBatch.tryFrom_isOk.1 h).1
    rw [List.length_replicate] at hlength
    exact absurd hlength (by decide)

end FigmaDevMcp.Protocol

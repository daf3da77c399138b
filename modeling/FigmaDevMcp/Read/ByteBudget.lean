import FigmaDevMcp.Lib.JsonText
import FigmaDevMcp.Read.BatchBudget

set_option autoImplicit false

/-!
# The bytes of a forest

`serializeNode` measures each node by itself, before its children are there and before it knows
what is cut. The text of the forest is longer, by its punctuation.

* `byteLength_object`, `byteLength_array`: the bytes of a text from those of its parts;
* `byteLength_forest`: the bytes of a forest, from what was measured of its nodes;
* `serializeNodeForest_bytes`: what was measured stays within the budget.
-/

namespace FigmaDevMcp

open JsValue

/-! ## The bytes of a text -/

theorem utf8ByteLength_cons {u : ℕ} (hu : u ≤ 0x7f) (t : JsString) :
    utf8ByteLength (u :: t) = 1 + utf8ByteLength t := by
  cases t with
  | nil => rw [utf8ByteLength, if_pos hu]; rfl
  | cons v t => rw [utf8ByteLength, if_pos hu]

/-- No pair of surrogates spans an ASCII character. -/
theorem utf8ByteLength_append_cons {u : ℕ} (hu : u ≤ 0x7f) (s t : JsString) :
    utf8ByteLength (s ++ u :: t) = utf8ByteLength s + utf8ByteLength (u :: t) := by
  have hlow : Utf16.isLowSurrogate u = false := by
    simp only [Utf16.isLowSurrogate, Bool.and_eq_false_iff, decide_eq_false_iff_not]
    omega
  induction s using utf8ByteLength.induct with
  | case1 code next rest h ih =>
      rw [List.cons_append, List.cons_append, utf8ByteLength, if_pos h, utf8ByteLength, if_pos h,
        ← List.cons_append, ih, Nat.add_assoc]
  | case2 code next rest h h' ih =>
      rw [List.cons_append, List.cons_append, utf8ByteLength, if_neg h, if_pos h', utf8ByteLength,
        if_neg h, if_pos h', ← List.cons_append, ih, Nat.add_assoc]
  | case3 code next rest h h' hpair ih =>
      rw [List.cons_append, List.cons_append, utf8ByteLength, if_neg h, if_neg h', if_pos hpair,
        utf8ByteLength, if_neg h, if_neg h', if_pos hpair, ih, Nat.add_assoc]
  | case4 code next rest h h' hpair ih =>
      rw [List.cons_append, List.cons_append, utf8ByteLength, if_neg h, if_neg h', if_neg hpair,
        utf8ByteLength, if_neg h, if_neg h', if_neg hpair, ← List.cons_append, ih, Nat.add_assoc]
  | case5 code h => simp [utf8ByteLength, h]
  | case6 code h h' => simp [utf8ByteLength, h, h']
  | case7 code h h' => simp [utf8ByteLength, h, h', hlow]
  | case8 => exact (Nat.zero_add _).symm

theorem utf8ByteLength_commas (pieces : List JsString) :
    utf8ByteLength (commas pieces) = (pieces.map utf8ByteLength).sum + (pieces.length - 1) := by
  induction pieces with
  | nil => rfl
  | cons piece pieces ih =>
      cases pieces with
      | nil => rw [commas_singleton]; simp
      | cons next pieces =>
          rw [commas_cons_cons, utf8ByteLength_append_cons (by decide),
            utf8ByteLength_cons (by decide), ih]
          simp only [List.map_cons, List.sum_cons, List.length_cons]
          omega

/-- The value is one that JSON has. -/
def HasText (value : JsValue) : Prop := (stringify value).isSome

theorem byteLength_of_stringify {value : JsValue} {s : JsString} (h : stringify value = some s) :
    byteLength value = utf8ByteLength s := by
  rw [byteLength, h]
  rfl

theorem stringifyItems_bytes {items : List JsValue} (h : ∀ item ∈ items, HasText item) :
    (stringifyItems items).map utf8ByteLength = items.map byteLength := by
  induction items with
  | nil => rfl
  | cons item items ih =>
      have ⟨hitem, hrest⟩ := List.forall_mem_cons.1 h
      obtain ⟨s, hs⟩ := Option.isSome_iff_exists.1 hitem
      rw [stringifyItems, hs, List.map_cons, List.map_cons, ih hrest, byteLength_of_stringify hs]
      rfl

theorem length_stringifyItems (items : List JsValue) :
    (stringifyItems items).length = items.length := by
  induction items with
  | nil => rfl
  | cons item items ih => rw [stringifyItems, List.length_cons, ih, List.length_cons]

/-- Digits and capital letters are quoted as they are, and so is what lies between them. -/
theorem quoteBody_plain {s : JsString} (h : ∀ u ∈ s, 0x30 ≤ u ∧ u < 0x5b) : quoteBody s = s := by
  have hone : ∀ u < 0x5b, 0x30 ≤ u → Utf16.isSurrogate u = false ∧ quoteBody [u] = [u] := by
    decide
  induction s with
  | nil => rfl
  | cons u s ih =>
      have ⟨hu, hs⟩ := List.forall_mem_cons.1 h
      have hpaired : Utf16.PairedSurrogates [u] := (hone u hu.2 hu.1).1
      rw [← List.singleton_append, quoteBody_append hpaired, ih hs, (hone u hu.2 hu.1).2]

theorem byteLength_plain {s : JsString} (h : ∀ u ∈ s, 0x30 ≤ u ∧ u < 0x5b) :
    byteLength (.string s) = s.length + 2 := by
  have htext : stringify (.string s) = some (0x22 :: (s ++ [0x22])) := by
    rw [stringify, quote, quoteBody_plain h, List.cons_append]
  have hascii : ∀ u ∈ 0x22 :: (s ++ [0x22]), u < 0x80 := by
    simp only [List.mem_cons, List.mem_append, List.not_mem_nil, or_false]
    rintro u (rfl | hu | rfl)
    · decide
    · exact (h u hu).2.trans (by decide)
    · decide
  rw [byteLength_of_stringify htext, utf8ByteLength_ascii hascii]
  simp

/-- The brackets of an array, its commas, and its items. -/
theorem byteLength_array {items : List JsValue} (h : ∀ item ∈ items, HasText item) :
    byteLength (.array items) = (items.map byteLength).sum + (items.length - 1) + 2 := by
  have htext : stringify (.array items) = some (0x5b :: (commas (stringifyItems items) ++ [0x5d])) :=
    rfl
  rw [byteLength_of_stringify htext, utf8ByteLength_cons (by decide),
    utf8ByteLength_append_cons (by decide), utf8ByteLength_commas, stringifyItems_bytes h,
    length_stringifyItems, show utf8ByteLength [0x5d] = 1 from rfl]
  omega

/-- The bytes of a name, a colon and a value. -/
def memberBytes (m : Member) : ℕ := utf8ByteLength (quote m.1) + 1 + byteLength m.2

theorem stringifyMembers_bytes {members : List Member} (h : ∀ m ∈ members, HasText m.2) :
    (stringifyMembers members).map utf8ByteLength = members.map memberBytes := by
  induction members with
  | nil => rfl
  | cons m members ih =>
      obtain ⟨key, value⟩ := m
      have ⟨hvalue, hrest⟩ := List.forall_mem_cons.1 h
      obtain ⟨s, hs⟩ := Option.isSome_iff_exists.1 hvalue
      have hpiece : utf8ByteLength (quote key ++ 0x3a :: s) = memberBytes (key, value) := by
        rw [utf8ByteLength_append_cons (by decide), utf8ByteLength_cons (by decide), memberBytes,
          byteLength_of_stringify hs, Nat.add_assoc]
      rw [stringifyMembers, hs, List.map_cons, List.map_cons, ← hpiece]
      exact congrArg _ (ih hrest)

/-- The braces of an object, its commas, and its members. -/
theorem byteLength_object {members : List Member} (h : ∀ m ∈ members, HasText m.2) :
    byteLength (.object members) =
      (members.map memberBytes).sum + (members.length - 1) + 2 := by
  have htext : stringify (.object members) =
      some (0x7b :: (commas (stringifyMembers members) ++ [0x7d])) := rfl
  have hbytes := stringifyMembers_bytes h
  have hlength : (stringifyMembers members).length = members.length := by
    simpa using congrArg List.length hbytes
  rw [byteLength_of_stringify htext, utf8ByteLength_cons (by decide),
    utf8ByteLength_append_cons (by decide), utf8ByteLength_commas, hbytes, hlength,
    show utf8ByteLength [0x7d] = 1 from rfl]
  omega

/-- An object with one member among others. -/
theorem byteLength_object_among {before after : List Member} {m : Member} (hm : HasText m.2)
    (hothers : ((before ++ after).all fun m => (stringify m.2).isSome) = true) :
    byteLength (.object (before ++ m :: after)) =
      memberBytes m + ((before ++ after).map memberBytes).sum + (before ++ after).length + 2 := by
  have hall : ∀ other ∈ before ++ m :: after, HasText other.2 := by
    intro other hother
    rcases List.mem_append.1 hother with hother | hother
    · exact List.all_eq_true.1 hothers other (List.mem_append_left _ hother)
    · rcases List.mem_cons.1 hother with rfl | hother
      · exact hm
      · exact List.all_eq_true.1 hothers other (List.mem_append_right _ hother)
  rw [byteLength_object hall]
  simp only [List.map_append, List.map_cons, List.sum_append, List.sum_cons, List.length_append,
    List.length_cons]
  omega

/-! ## The bytes of a forest -/

namespace DesignNode

/-- A node as the serializer measures it: by itself, and cut only where it is a stub. -/
def measured (node : DesignNode) : DesignNode :=
  { summary := node.summary
    data := node.data
    children := []
    childrenTruncated := node.childrenTruncated && node.childrenTruncation.isNone }

/-- The mark of a cut: one member more. Its comma makes up for `true` in the place of `false`. -/
def markBytes (node : DesignNode) : ℕ :=
  match node.childrenTruncation with
  | some truncation => memberBytes (text "childrenTruncation", truncation.toJs)
  | none => 0

/-- The commas between the children of a node, and its mark. -/
def punctuation (node : DesignNode) : ℕ := (node.children.length - 1) + node.markBytes

/-- A node that says why it is cut says that it is. -/
def WellMarked (node : DesignNode) : Prop :=
  node.childrenTruncation.isSome = true → node.childrenTruncated = true

end DesignNode

/-- What was measured of the nodes of a forest. -/
def measuredBytes (forest : List DesignNode) : ℕ :=
  ((forestLevels 0 forest).map fun r => byteLength r.2.measured.toJs).sum

/-- What the text of a forest has besides: the brackets and commas of the array, the commas
between children, and the marks of cuts. -/
def punctuationBytes (forest : List DesignNode) : ℕ :=
  ((forestLevels 0 forest).map fun r => r.2.punctuation).sum + (forest.length - 1) + 2

theorem hasText_node (node : DesignNode) : HasText node.toJs := by
  obtain ⟨summary, data, children, truncated, truncation⟩ := node
  rfl

theorem hasText_forestToJs (forest : List DesignNode) : ∀ v ∈ forestToJs forest, HasText v := by
  induction forest with
  | nil => exact List.forall_mem_nil _
  | cons node rest ih => exact List.forall_mem_cons.2 ⟨hasText_node node, ih⟩

theorem length_forestToJs (forest : List DesignNode) : (forestToJs forest).length = forest.length := by
  induction forest with
  | nil => rfl
  | cons node rest ih => exact congrArg (· + 1) ih

theorem hasText_data (data : NodeData) : HasText data.toJs := by
  cases data <;> rfl

/-- A node is what was measured of it, its children, and its punctuation. -/
theorem byteLength_node {node : DesignNode} (h : node.WellMarked) :
    byteLength node.toJs = byteLength node.measured.toJs +
      ((forestToJs node.children).map byteLength).sum + node.punctuation := by
  obtain ⟨summary, data, children, truncated, truncation⟩ := node
  have hchildren := byteLength_array (hasText_forestToJs children)
  rw [length_forestToJs] at hchildren
  have hfalse : byteLength (.bool false) = 5 := rfl
  have htrue : byteLength (.bool true) = 4 := rfl
  have hnone : byteLength (.array []) = 2 := rfl
  simp only [DesignNode.measured, DesignNode.punctuation, DesignNode.markBytes, DesignNode.toJs,
    forestToJs, optional, member, Option.map_none, List.append_nil, List.cons_append,
    List.nil_append]
  have hbare : ∀ b c, ∀ m ∈ [(text "summary", summary.toJs), (text "data", data.toJs),
      (text "children", .array c), (text "childrenTruncated", .bool b)], HasText m.2 := by
    intro b c
    simp only [List.mem_cons, List.not_mem_nil, or_false, forall_eq_or_imp, forall_eq]
    exact ⟨rfl, hasText_data data, rfl, rfl⟩
  cases truncation with
  | none =>
      simp only [Option.map_none]
      rw [byteLength_object (hbare truncated (forestToJs children)), byteLength_object (hbare _ [])]
      simp only [ List.map_cons, List.map_nil, List.sum_cons, List.sum_nil,
        List.length_cons, memberBytes, Option.isNone_none, Bool.and_true]
      omega
  | some t =>
      obtain rfl : truncated = true := h rfl
      have hmarked : ∀ m ∈ [(text "summary", summary.toJs), (text "data", data.toJs),
          (text "children", .array (forestToJs children)), (text "childrenTruncated", .bool true),
          (text "childrenTruncation", t.toJs)], HasText m.2 := by
        simp only [List.mem_cons, List.not_mem_nil, or_false, forall_eq_or_imp, forall_eq]
        exact ⟨rfl, hasText_data data, rfl, rfl, rfl⟩
      rw [byteLength_object (hbare _ [])]
      simp only [Option.map_some]
      rw [byteLength_object hmarked]
      simp only [List.map_cons, List.map_nil, List.sum_cons, List.sum_nil, List.length_cons,
        memberBytes, Option.isNone_some, Bool.and_false]
      omega

mutual

theorem byteLength_levels (level : ℕ) : ∀ node : DesignNode,
    (∀ r ∈ node.levels level, r.2.WellMarked) →
      byteLength node.toJs =
        ((node.levels level).map fun r => byteLength r.2.measured.toJs + r.2.punctuation).sum
  | ⟨summary, data, children, truncated, truncation⟩, h => by
    have ⟨hnode, hchildren⟩ := List.forall_mem_cons.1 h
    rw [byteLength_node hnode, byteLength_forestLevels (level + 1) children hchildren,
      DesignNode.levels, List.map_cons, List.sum_cons]
    omega

theorem byteLength_forestLevels (level : ℕ) : ∀ forest : List DesignNode,
    (∀ r ∈ forestLevels level forest, r.2.WellMarked) →
      ((forestToJs forest).map byteLength).sum =
        ((forestLevels level forest).map fun r =>
          byteLength r.2.measured.toJs + r.2.punctuation).sum
  | [], _ => rfl
  | node :: rest, h => by
    have ⟨hnode, hrest⟩ := List.forall_mem_append.1 h
    rw [forestToJs, List.map_cons, List.sum_cons, byteLength_levels level node hnode,
      byteLength_forestLevels level rest hrest, forestLevels, List.map_append, List.sum_append]

end

/-- **The bytes of a forest** are what was measured, and its punctuation. -/
theorem byteLength_forest {forest : List DesignNode}
    (h : ∀ r ∈ forestLevels 0 forest, r.2.WellMarked) :
    byteLength (.array (forestToJs forest)) = measuredBytes forest + punctuationBytes forest := by
  rw [byteLength_array (hasText_forestToJs forest), length_forestToJs,
    byteLength_forestLevels 0 forest h, List.sum_map_add, measuredBytes, punctuationBytes]
  omega

namespace Host

variable {ρ : Type} [DecidableEq ρ] (host : Host ρ) (options : SerializeNodeForestOptions)

theorem wellMarked_decorate (k : Walk.Kept ρ) : (host.decorate options k).WellMarked := by
  obtain ⟨node, stub, cut, children⟩ := k
  cases stub with
  | true => exact fun _ => rfl
  | false =>
      intro h
      cases cut with
      | none => cases h
      | some c => rfl

mutual

/-- What was measured of a kept node is what it weighs on the walk. -/
theorem measured_levels_decorate (level : ℕ) : ∀ k : Walk.Kept ρ,
    k.Forall (fun _ k => StubsBare k) level →
      (((host.decorate options k).levels level).map fun r => byteLength r.2.measured.toJs).sum =
        k.weight (host.scene options)
  | .mk node true cut children, h => by
    obtain rfl : children = [] := h.1 rfl
    rfl
  | .mk node false cut children, h => by
    have hmeasured : (host.decorate options (.mk node false cut children)).measured =
        host.candidate options node := by
      cases cut <;> rfl
    have hrest := measured_forestLevels_decorate (level + 1) children h.2
    show byteLength (host.decorate options (.mk node false cut children)).measured.toJs +
        ((forestLevels (level + 1) (host.decorateAll options children)).map _).sum =
      (host.scene options).weight node + Walk.Kept.weightAll (host.scene options) children
    rw [hmeasured, hrest, scene_weight]

theorem measured_forestLevels_decorate (level : ℕ) : ∀ ks : List (Walk.Kept ρ),
    Walk.Kept.ForallAll (fun _ k => StubsBare k) level ks →
      ((forestLevels level (host.decorateAll options ks)).map fun r =>
        byteLength r.2.measured.toJs).sum = Walk.Kept.weightAll (host.scene options) ks
  | [], _ => rfl
  | k :: ks, h => by
    rw [decorateAll, forestLevels, List.map_append, List.sum_append,
      measured_levels_decorate level k h.1, measured_forestLevels_decorate level ks h.2]
    rfl

end

theorem stubsBare_forestRow (roots : List ρ) :
    Walk.Kept.ForallAll (fun _ k => StubsBare k) 0 (host.forestRow options roots).kept :=
  Walk.walkAll_forall (fun _ _ _ hk => host.stubsBare_walk options hk) roots {}

/-- **The measured texts of the nodes stay within the budget**, and the text of the forest is
longer by its punctuation alone. -/
theorem serializeNodeForest_bytes (roots : List ρ) :
    measuredBytes (host.serializeNodeForest options roots).nodes ≤ options.limits.encodedBytes ∧
      byteLength (.array (forestToJs (host.serializeNodeForest options roots).nodes)) =
        measuredBytes (host.serializeNodeForest options roots).nodes +
          punctuationBytes (host.serializeNodeForest options roots).nodes := by
  have hbare := host.stubsBare_forestRow options roots
  rw [nodes_serializeNodeForest]
  refine ⟨?_, byteLength_forest fun r hr => ?_⟩
  · have ⟨hspent, hbound⟩ := Walk.walkAll_spent
      (fun node (s : Walk.State _) => (Walk.walk_spent options.appliedDepth [] node s :
        (Walk.walk (host.scene options) options.limits.budget options.dedupeComponents
          options.appliedDepth [] node s).2.spent = _ ∧ _)) roots {}
    have hle : (host.forestRow options roots).state.spent ≤ options.limits.encodedBytes :=
      hbound (Nat.zero_le _)
    rw [measuredBytes, host.measured_forestLevels_decorate options 0 _ hbare]
    refine le_trans (le_of_eq ?_) hle
    rw [forestRow, hspent]
    exact (Nat.zero_add _).symm
  · exact host.forestLevels_decorate options
      (Q := fun _ record => record.WellMarked) (fun _ k _ => host.wellMarked_decorate options k) 0 _
      hbare r hr

/-- A budget of exactly what is measured of the innermost frame. -/
def exactOptions : SerializeNodeForestOptions :=
  { detail := .minimal, depth := 0, dedupeComponents := false
    limits := { encodedBytes := byteLength (nested.candidate nestedOptions 3).toJs } }

/-- The frame is kept, and the brackets around it are too many. -/
theorem serializeNodeForest_over_budget :
    ¬ byteLength (.array (forestToJs (nested.serializeNodeForest exactOptions [3]).nodes)) ≤
      exactOptions.limits.encodedBytes := by
  decide +kernel

end Host

end FigmaDevMcp

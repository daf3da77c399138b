import FigmaDevMcp.Lib.Guard
import FigmaDevMcp.Read.Search

set_option autoImplicit false

/-!
# The pages of a search

Following the cursors of a search over a document that stands still gives the matches of one walk
over the whole visible tree, in preorder.

* `parseCursor_cursorFor`: a cursor reads as the place it was made for;
* `searchFrom_page`: what a page has found, and what is left after it;
* `Pages`: pages that follow one another;
* `visibleTree`, `visibleTree_eq_preorder`: the visible tree in preorder;
* `search_pages`: together they are the matches in it, and none of them fails.
-/

namespace FigmaDevMcp

open JsValue PreorderWalk

/-! ## Cursors -/

theorem pathIndex_natural {n : ℕ} (h : n < 2 ^ 53) : pathIndex (natural n) = some n := by
  show (if (n : ℚ).den = 1 ∧ (0 : ℚ) ≤ n ∧ (n : ℚ).num < 2 ^ 53 then some (n : ℚ).num.toNat else none) = _
  rw [if_pos ⟨Rat.den_natCast n, Nat.cast_nonneg n, by rw [Rat.num_natCast]; exact_mod_cast h⟩,
    Rat.num_natCast, Int.toNat_natCast]

theorem mapM_pathIndex {path : List ℕ} (h : ∀ i ∈ path, i < 2 ^ 53) :
    (path.map natural).mapM pathIndex = some path := by
  induction path with
  | nil => rfl
  | cons i path ih =>
      have ⟨hi, hpath⟩ := List.forall_mem_cons.1 h
      rw [List.map_cons, List.mapM_cons, pathIndex_natural hi, ih hpath]
      rfl

/-- The indices of a path are safe integers that are not negative, and nothing else is one. -/
theorem pathIndex_eq_some {value : JsValue} {n : ℕ} :
    pathIndex value = some n ↔ value = natural n ∧ n < 2 ^ 53 := by
  constructor
  · intro h
    unfold pathIndex at h
    split at h
    · next q =>
        split_ifs at h with hindex
        obtain ⟨hden, hnonneg, hlt⟩ := hindex
        have hnum : ((q.num.toNat : ℕ) : ℤ) = q.num := Int.toNat_of_nonneg (Rat.num_nonneg.2 hnonneg)
        obtain rfl := Option.some.inj h
        refine ⟨congrArg (fun r => JsValue.number (.finite r)) ?_, by omega⟩
        exact (Rat.den_eq_one_iff q).1 hden ▸ by exact_mod_cast hnum.symm
    · cases h
  · rintro ⟨rfl, h⟩
    exact pathIndex_natural h

theorem mapM_pathIndex_eq_some {items : List JsValue} {path : List ℕ} :
    items.mapM pathIndex = some path ↔ items = path.map natural ∧ ∀ i ∈ path, i < 2 ^ 53 := by
  constructor
  · intro h
    induction items generalizing path with
    | nil =>
        obtain rfl := Option.some.inj h
        exact ⟨rfl, nofun⟩
    | cons item items ih =>
        rw [List.mapM_cons] at h
        obtain ⟨i, hi, h⟩ := Option.bind_eq_some_iff.1 h
        obtain ⟨rest, hrest, h⟩ := Option.bind_eq_some_iff.1 h
        obtain rfl := Option.some.inj h
        obtain ⟨rfl, hlt⟩ := pathIndex_eq_some.1 hi
        obtain ⟨rfl, hall⟩ := ih hrest
        exact ⟨rfl, List.forall_mem_cons.2 ⟨hlt, hall⟩⟩
  · rintro ⟨rfl, h⟩
    exact mapM_pathIndex h

/-- The JSON that a cursor must hold to be one of a key. -/
structure CursorPayload (parsed : JsValue) (key : JsString) (p : SearchCursorPayload) : Prop where
  v : parsed.field "v" = natural 1
  key : parsed.field "key" = .string key
  path : parsed.field "path" = .array (p.path.map natural)
  safe : ∀ i ∈ p.path, i < 2 ^ 53
  id : parsed.field "id" = .string p.id
  after : p.after = (parsed.field "after" matches .bool true)

/-- **A cursor is read just where it holds one**, and as what it holds. -/
theorem parseCursor_eq_some {value key : JsString} {p : SearchCursorPayload} :
    parseCursor value key = some p ↔
      ∃ parsed, (decodeBase64Url value).bind parse = some parsed ∧ CursorPayload parsed key p := by
  constructor
  · intro h
    obtain ⟨decoded, hdecoded, h⟩ := Option.bind_eq_some_iff.1 h
    obtain ⟨parsed, hparsed, h⟩ := Option.bind_eq_some_iff.1 h
    obtain ⟨u, hv, h⟩ := Option.bind_eq_some_iff.1 h
    refine ⟨parsed, by rw [hdecoded]; exact hparsed, ?_⟩
    split at h
    · next found id path hkey hid hpath =>
        obtain ⟨w, hfound, h⟩ := Option.bind_eq_some_iff.1 h
        obtain ⟨indices, hindices, h⟩ := Option.bind_eq_some_iff.1 h
        obtain rfl := Option.some.inj h
        obtain ⟨rfl, hsafe⟩ := mapM_pathIndex_eq_some.1 hindices
        have hone := (Option.guard_eq_some' u).1 hv
        have hsame : found = key := (Option.guard_eq_some' w).1 hfound
        refine ⟨?_, hsame ▸ hkey, hpath, hsafe, hid, rfl⟩
        split at hone
        · next hfield => rw [hfield]; rfl
        · cases hone
    · cases h
  · rintro ⟨parsed, hparsed, hp⟩
    obtain ⟨decoded, hdecoded, hparsed⟩ := Option.bind_eq_some_iff.1 hparsed
    rw [parseCursor, hdecoded]
    show (parse decoded).bind _ = _
    rw [hparsed, Option.bind_some]
    simp only [hp.v, hp.key, hp.id, hp.path, mapM_pathIndex hp.safe]
    obtain ⟨path, id, after⟩ := p
    obtain rfl : after = _ := hp.after
    rfl

/-- What is written in base64url reads as itself. -/
theorem decode_encodeBase64Url {value : JsString} (hne : value ≠ []) (h : Utf16.WellFormed value) :
    ∃ encoded, encodeBase64Url value = some encoded ∧ decodeBase64Url encoded = some value := by
  obtain ⟨bytes, hbytes⟩ := h.exists_utf8
  have hread := Utf16.ofUtf8_utf8 h.units hbytes
  have hbytesNe : bytes ≠ [] := by
    rintro rfl
    exact hne (Option.some.inj hread).symm
  refine ⟨Base64Url.encode (bytes.map UInt8.toNat), by rw [encodeBase64Url, hbytes]; rfl, ?_⟩
  rw [decodeBase64Url, Base64Url.decode_encode (by simpa using hbytesNe) (by
    intro b hb
    obtain ⟨byte, -, rfl⟩ := List.mem_map.1 hb
    exact byte.toNat_lt)]
  have hid : (bytes.map UInt8.toNat).map UInt8.ofNat = bytes := by
    rw [List.map_map]
    exact List.map_id'' (fun b => UInt8.ofNat_toNat) bytes
  rw [Option.bind_some, hid, hread]

namespace Host

variable {ρ : Type} (host : Host ρ)

theorem plain_cursorPayload {key : JsString} {item : WalkItem ρ} (after : Bool)
    (hkey : Utf16.Units key) (hid : Utf16.Units (host.id item.node)) (hpath : ∀ i ∈ item.path, i < 2 ^ 53) :
    Plain (host.cursorPayload key item after) := by
  have hitems : PlainItems (item.path.map natural) := by
    generalize item.path = path at hpath
    induction path with
    | nil => trivial
    | cons i path ih =>
        have ⟨hi, hrest⟩ := List.forall_mem_cons.1 hpath
        exact ⟨⟨i, hi, rfl⟩, ih hrest⟩
  have hunits : ∀ s : String, Utf16.Units (text s) := Utf16.units_ofString
  refine ⟨⟨hunits _, ⟨1, by decide, rfl⟩, hunits _, hkey, hunits _, hitems, hunits _, hid, hunits _,
    trivial, trivial⟩, ?_⟩
  simp [member]

/-- **A cursor reads as the place it was made for.** -/
theorem parseCursor_cursorFor {key : JsString} {item : WalkItem ρ} (after : Bool)
    (hkey : Utf16.Units key) (hid : Utf16.Units (host.id item.node)) (hpath : ∀ i ∈ item.path, i < 2 ^ 53) :
    ∃ cursor, host.cursorFor key item after = some cursor ∧
      parseCursor cursor key = some { path := item.path, id := host.id item.node, after } := by
  obtain ⟨t, htext, hformed, hparse⟩ := parse_stringify (host.plain_cursorPayload after hkey hid hpath)
  have hne : t ≠ [] := by
    rintro rfl
    cases hparse
  obtain ⟨cursor, hencode, hdecode⟩ := decode_encodeBase64Url hne hformed
  refine ⟨cursor, by rw [cursorFor, htext]; exact hencode, ?_⟩
  rw [parseCursor, hdecode]
  show (parse t).bind _ = _
  have hv : (host.cursorPayload key item after).field "v" = natural 1 := by
    simp [cursorPayload, member]
  have hfound : (host.cursorPayload key item after).field "key" = .string key := by
    simp [cursorPayload, member]
  have hnode : (host.cursorPayload key item after).field "id" = .string (host.id item.node) := by
    simp [cursorPayload, member]
  have hitems : (host.cursorPayload key item after).field "path" = .array (item.path.map natural) := by
    simp [cursorPayload, member]
  have hafter : (host.cursorPayload key item after).field "after" = .bool after := by
    simp [cursorPayload, member]
  rw [hparse, Option.bind_some]
  simp only [hv, hfound, hnode, hitems, hafter, mapM_pathIndex hpath]
  cases after <;> rfl

/-- **Cursors are bound to their keys.** A cursor reads back under its key and is refused under any
other, and every text is either refused or holds a whole position. -/
theorem cursor_binding {key : JsString} {item : WalkItem ρ} (after : Bool)
    (hkey : Utf16.Units key) (hid : Utf16.Units (host.id item.node)) (hpath : ∀ i ∈ item.path, i < 2 ^ 53) :
    (∃ cursor, host.cursorFor key item after = some cursor ∧
        readCursor (some cursor) key =
          .ok (some { path := item.path, id := host.id item.node, after }) ∧
        ∀ other, other ≠ key →
          readCursor (some cursor) other = .error (.read .invalidCursor false)) ∧
      ∀ value other : JsString,
        readCursor (some value) other = .error (.read .invalidCursor false) ∨
          ∃ p parsed, readCursor (some value) other = .ok (some p) ∧
            (decodeBase64Url value).bind parse = some parsed ∧ CursorPayload parsed other p := by
  have hread : ∀ {value other : JsString} {p : SearchCursorPayload}, parseCursor value other = some p →
      readCursor (some value) other = .ok (some p) := by
    intro value other p h
    rw [readCursor, h]
  have hrefused : ∀ {value other : JsString}, parseCursor value other = none →
      readCursor (some value) other = .error (.read .invalidCursor false) := by
    intro value other h
    rw [readCursor, h]
  constructor
  · obtain ⟨cursor, hcursor, hparse⟩ := host.parseCursor_cursorFor after hkey hid hpath
    refine ⟨cursor, hcursor, hread hparse, fun other hne => hrefused ?_⟩
    obtain ⟨parsed, hparsed, hpayload⟩ := parseCursor_eq_some.1 hparse
    refine Option.eq_none_iff_forall_not_mem.2 fun p hp => hne ?_
    obtain ⟨parsed', hparsed', hpayload'⟩ := parseCursor_eq_some.1 hp
    obtain rfl := Option.some.inj (hparsed.symm.trans hparsed')
    exact JsValue.string.inj (hpayload'.key.symm.trans hpayload.key)
  · intro value other
    cases hparse : parseCursor value other with
    | none => exact Or.inl (hrefused hparse)
    | some p =>
        obtain ⟨parsed, hparsed, hpayload⟩ := parseCursor_eq_some.1 hparse
        exact Or.inr ⟨p, parsed, hread hparse, hparsed, hpayload⟩

/-- The cursor of the frame within the framed document, and another key. -/
theorem cursor_binding_framed : ∃ cursor,
    Figma.framed.toHost.cursorFor (text "key") { node := 1, path := [0] } true = some cursor ∧
      readCursor (some cursor) (text "key") =
        .ok (some { path := [0], id := text "1:3", after := true }) ∧
      readCursor (some cursor) (text "kez") = .error (.read .invalidCursor false) := by
  obtain ⟨⟨cursor, hcursor, hread, hother⟩, _⟩ :=
    @cursor_binding _ Figma.framed.toHost (text "key") { node := 1, path := [0] } true (Utf16.units_ofString _) (Utf16.units_ofString _)
    (by decide)
  exact ⟨cursor, hcursor, hread, hother _ (by decide)⟩

variable [DecidableEq ρ]

/-! ## The visible tree -/

/-- What goes on the stack instead of an item. -/
def followItems (item : WalkItem ρ) : List (WalkItem ρ) := host.pushChildren [] item

theorem pushChildren_eq (stack : List (WalkItem ρ)) (item : WalkItem ρ) :
    host.pushChildren stack item = host.followItems item ++ stack := by
  unfold followItems pushChildren
  split_ifs
  · rfl
  · rw [List.append_nil]

theorem followItems_eq (item : WalkItem ρ) :
    host.followItems item = [] ∨ host.followItems item = host.childItems item := by
  unfold followItems pushChildren
  split_ifs
  · exact Or.inl rfl
  · exact Or.inr (List.append_nil _)

theorem childItems_getElem? {item child : WalkItem ρ} {j : ℕ}
    (h : (host.childItems item)[j]? = some child) :
    child.path = item.path ++ [j] ∧ child.node ∈ host.visibleChildren item.node ∧
      j < 2 ^ 32 := by
  obtain ⟨hj, h⟩ := List.getElem?_eq_some_iff.1 h
  have hlength : (host.childItems item).length = (host.visibleChildren item.node).length := by
    rw [childItems, List.length_mapIdx]
  have hvisible : (host.visibleChildren item.node).length ≤ (host.children item.node).length :=
    List.length_filter_le _ _
  have hbound := host.children_length item.node
  simp only [childItems, List.getElem_mapIdx] at h
  subst h
  exact ⟨rfl, List.getElem_mem _, by omega⟩

theorem exists_of_mem_followItems {item child : WalkItem ρ} (h : child ∈ host.followItems item) :
    ∃ j, j < 2 ^ 32 ∧ child.path = item.path ++ [j] ∧
      child.node ∈ host.visibleChildren item.node := by
  rcases host.followItems_eq item with hnone | hall
  · rw [hnone] at h
    cases h
  · rw [hall] at h
    obtain ⟨j, hj⟩ := List.mem_iff_getElem?.1 h
    have ⟨hpath, hnode, hlt⟩ := host.childItems_getElem? hj
    exact ⟨j, hlt, hpath, hnode⟩

/-! ## What the items of a stack take over from the root -/

section

variable {P : WalkItem ρ → Prop}

theorem forall_pushChildren (hP : ∀ item, P item → ∀ child ∈ host.childItems item, P child)
    {stack : List (WalkItem ρ)} {item : WalkItem ρ} (hitem : P item) (hstack : ∀ next ∈ stack, P next) :
    ∀ next ∈ host.pushChildren stack item, P next := by
  unfold pushChildren
  split_ifs
  · exact hstack
  · exact List.forall_mem_append.2 ⟨hP item hitem, hstack⟩

theorem forall_descend (hP : ∀ item, P item → ∀ child ∈ host.childItems item, P child)
    {path : List ℕ} {stack rest : List (WalkItem ρ)} {item found : WalkItem ρ}
    (h : descend host.childItems stack item path = some (found, rest)) (hitem : P item)
    (hstack : ∀ next ∈ stack, P next) : ∀ next ∈ found :: rest, P next := by
  induction path generalizing stack item with
  | nil =>
      obtain ⟨rfl, rfl⟩ := Prod.mk.inj (Option.some.inj h)
      exact List.forall_mem_cons.2 ⟨hitem, hstack⟩
  | cons target path ih =>
      rw [descend] at h
      cases hdrop : (host.childItems item).drop target with
      | nil => rw [hdrop] at h; cases h
      | cons child siblings =>
          rw [hdrop] at h
          have hlater : ∀ next ∈ child :: siblings, P next := fun next hnext =>
            hP item hitem next (List.mem_of_mem_drop (hdrop ▸ hnext))
          obtain ⟨hchild, hsiblings⟩ := List.forall_mem_cons.1 hlater
          exact ih h hchild (List.forall_mem_append.2 ⟨hsiblings, hstack⟩)

/-- What children take over from their parents holds of a stack at its start, with or without a
cursor. -/
theorem forall_initialStack (hP : ∀ item, P item → ∀ child ∈ host.childItems item, P child)
    {root : ρ} (hroot : P { node := root }) {cursor : Option SearchCursorPayload}
    {stack : List (WalkItem ρ)} (h : host.initialStack root cursor = .ok stack) :
    ∀ item ∈ stack, P item := by
  cases cursor with
  | none =>
      obtain rfl := Except.ok.inj h
      exact List.forall_mem_singleton.2 hroot
  | some cursor =>
      rw [initialStack] at h
      cases hdescend : descend host.childItems [] { node := root } cursor.path with
      | none => rw [hdescend] at h; cases h
      | some found =>
          obtain ⟨item, rest⟩ := found
          rw [hdescend] at h
          have hall := host.forall_descend hP hdescend hroot nofun
          have ⟨hitem, hrest⟩ := List.forall_mem_cons.1 hall
          dsimp only at h
          split_ifs at h
          · obtain rfl := Except.ok.inj h
            exact host.forall_pushChildren hP hitem hrest
          · obtain rfl := Except.ok.inj h
            exact hall

end

/-- The indices of a path are safe integers, and of a child's path too. -/
theorem paths_childItems (item : WalkItem ρ) (h : ∀ i ∈ item.path, i < 2 ^ 53) :
    ∀ child ∈ host.childItems item, ∀ i ∈ child.path, i < 2 ^ 53 := by
  intro child hchild i hi
  obtain ⟨j, hj⟩ := List.mem_iff_getElem?.1 hchild
  obtain ⟨hpath, -, hlt⟩ := host.childItems_getElem? hj
  rw [hpath] at hi
  rcases List.mem_append.mp hi with hi | hi
  · exact h i hi
  · rw [List.mem_singleton.mp hi]
    omega

/-- The items that a stack has still to come. -/
def aheadOf (height : ρ → ℕ) (stack : List (WalkItem ρ)) : List (WalkItem ρ) :=
  ahead host.followItems (fun item => height item.node) stack

theorem aheadOf_cons {height : ρ → ℕ} (htree : host.IsTree height) (item : WalkItem ρ)
    (stack : List (WalkItem ρ)) :
    host.aheadOf height (item :: stack) =
      item :: host.aheadOf height (host.pushChildren stack item) := by
  rw [pushChildren_eq]
  refine ahead_cons (fun item child hchild => ?_) item stack
  obtain ⟨j, -, -, hnode⟩ := host.exists_of_mem_followItems hchild
  exact htree _ _ hnode

/-- The visible tree under a node in preorder, down to a level, without what is under a node with
the id of one above it. -/
def visibleTree : ℕ → List JsString → ρ → List ρ
  | 0, _, node => [node]
  | level + 1, ids, node =>
    let id := host.id node
    if id ≠ [] ∧ id ∈ ids then [node]
    else
      node :: (host.visibleChildren node).flatMap
        (visibleTree level (if id ≠ [] then id :: ids else ids))

/-- The items of the walk are the nodes of the visible tree. -/
theorem preorder_followItems (level : ℕ) (item : WalkItem ρ) :
    (preorder host.followItems level item).map WalkItem.node =
      host.visibleTree level item.ancestors item.node := by
  induction level generalizing item with
  | zero => rfl
  | succ level ih =>
      rw [preorder, visibleTree, List.map_cons, List.map_flatMap]
      simp only [ih]
      unfold followItems pushChildren repeated
      by_cases hrepeated : host.id item.node ≠ [] ∧ host.id item.node ∈ item.ancestors
      · simp [hrepeated]
      · rw [if_neg hrepeated, if_neg (by simpa using hrepeated), List.append_nil, childItems,
          List.mapIdx_eq_zipIdx_map, List.flatMap_map]
        congr 1
        conv_rhs => rw [← List.zipIdx_map_fst 0 (host.visibleChildren item.node), List.flatMap_map]

/-- **Where different nodes have different ids** nothing of the visible tree is left out. -/
theorem visibleTree_eq_preorder {height : ρ → ℕ} (htree : host.IsTree height)
    (hids : ∀ a b, host.id a = host.id b → a = b) (level : ℕ) (node : ρ) :
    host.visibleTree level [] node = preorder host.visibleChildren level node := by
  have hbelow : ∀ (level : ℕ) (ids : List JsString) (node : ρ),
      (∀ id ∈ ids, ∃ above, host.id above = id ∧ height node < height above) →
      host.visibleTree level ids node = preorder host.visibleChildren level node := by
    intro level
    induction level with
    | zero => exact fun _ _ _ => rfl
    | succ level ih =>
        intro ids node habove
        have hnew : ¬ (host.id node ≠ [] ∧ host.id node ∈ ids) := fun h => by
          obtain ⟨above, hsame, hlt⟩ := habove _ h.2
          rw [hids above node hsame] at hlt
          exact Nat.lt_irrefl _ hlt
        rw [visibleTree, preorder, if_neg hnew]
        congr 1
        refine List.flatMap_congr fun child hchild => ih _ _ fun id hid => ?_
        have hlower := htree node child hchild
        have hold : id ∈ ids → ∃ above, host.id above = id ∧ height child < height above := fun h => by
          obtain ⟨above, hsame, hlt⟩ := habove id h
          exact ⟨above, hsame, hlower.trans hlt⟩
        split_ifs at hid
        · rcases List.mem_cons.1 hid with rfl | h
          · exact ⟨node, rfl, hlower⟩
          · exact hold h
        · exact hold hid
  exact hbelow level [] node fun _ h => absurd h List.not_mem_nil

/-- A stack that a cursor into it brings back, for the search from a root. -/
structure Located (root : ρ) (stack : List (WalkItem ρ)) : Prop where
  resumes : Resumes host.childItems WalkItem.path { node := root } stack
  paths : ∀ item ∈ stack, ∀ i ∈ item.path, i < 2 ^ 53

theorem located_root (root : ρ) : host.Located root [{ node := root }] :=
  ⟨⟨rfl, trivial⟩, List.forall_mem_singleton.2 nofun⟩

theorem Located.push {root : ρ} {item : WalkItem ρ} {stack : List (WalkItem ρ)}
    (h : host.Located root (item :: stack)) : host.Located root (host.pushChildren stack item) := by
  rw [pushChildren_eq]
  refine ⟨h.resumes.push (fun item child j hj => (host.childItems_getElem? hj).1)
    (host.followItems_eq item), ?_⟩
  rw [← pushChildren_eq]
  exact host.forall_pushChildren host.paths_childItems (h.paths item List.mem_cons_self)
    fun next hnext => h.paths next (List.mem_cons_of_mem _ hnext)

/-! ## One page -/

variable (cm : CaseMapping) (predicate : SearchPredicate)

/-- What a search reports of a node, if it does. -/
def nodeHit (node : ρ) : Option (JsString × List MatchReason) :=
  if host.matchReasons cm predicate node = [] then none
  else some (host.id node, host.matchReasons cm predicate node)

/-- What a search reports of an item, if it does. -/
def hit (item : WalkItem ρ) : Option (JsString × List MatchReason) :=
  host.nodeHit cm predicate item.node

/-- What a search reports of a stack that it walks to its end. -/
def hits (height : ρ → ℕ) (stack : List (WalkItem ρ)) : List (JsString × List MatchReason) :=
  (host.aheadOf height stack).filterMap (host.hit cm predicate)

/-- A search from a root reports of the visible tree under it. -/
theorem hits_root (height : ρ → ℕ) (root : ρ) :
    host.hits cm predicate height [{ node := root }] =
      (host.visibleTree (height root) [] root).filterMap (host.nodeHit cm predicate) := by
  rw [← host.preorder_followItems (height root) { node := root }, List.filterMap_map]
  rw [hits, aheadOf, ahead, List.flatMap_cons, List.flatMap_nil, List.append_nil]
  rfl

theorem hits_cons {height : ρ → ℕ} (htree : host.IsTree height) (item : WalkItem ρ)
    (stack : List (WalkItem ρ)) :
    host.hits cm predicate height (item :: stack) =
      (host.hit cm predicate item).toList ++
        host.hits cm predicate height (host.pushChildren stack item) := by
  rw [hits, aheadOf_cons host htree, List.filterMap_cons]
  cases host.hit cm predicate item <;> rfl

end Host

/-- The node and the reasons of a match. -/
def NodeMatch.pair (m : NodeMatch) : JsString × List MatchReason := (m.node.id, m.reasons)

namespace Host

variable {ρ : Type} (host : Host ρ) [DecidableEq ρ] {cm : CaseMapping} {predicate : SearchPredicate}

/-- What a page has found, and what is left of the search after it. -/
inductive PageOf (cm : CaseMapping) (predicate : SearchPredicate) (height : ρ → ℕ) (root : ρ)
    (before : List NodeMatch) (stack : List (WalkItem ρ)) (page : SearchPage ρ) : Prop
  /-- The search is over. -/
  | last (hend : page.pageEnd = none)
      (hfound : page.found.map NodeMatch.pair =
        before.map NodeMatch.pair ++ host.hits cm predicate height stack)
  /-- The page is full at an item of which a cursor can be made. -/
  | full (item : WalkItem ρ) (rest : List (WalkItem ρ)) (hend : page.pageEnd = some item)
      (hrest : host.Located root (item :: rest))
      (hfound : page.found.map NodeMatch.pair ++
          host.hits cm predicate height (host.pushChildren rest item) =
        before.map NodeMatch.pair ++ host.hits cm predicate height stack)

/-- A page after one more match is one before it. -/
theorem PageOf.prepend {height : ρ → ℕ} {root : ρ} {before : List NodeMatch} {m : NodeMatch}
    {stack next : List (WalkItem ρ)} {page : SearchPage ρ}
    (hhits : host.hits cm predicate height stack = m.pair :: host.hits cm predicate height next)
    (h : host.PageOf cm predicate height root (before ++ [m]) next page) :
    host.PageOf cm predicate height root before stack page := by
  have hmove : (before ++ [m]).map NodeMatch.pair ++ host.hits cm predicate height next =
      before.map NodeMatch.pair ++ host.hits cm predicate height stack := by
    rw [hhits, List.map_append, List.append_assoc]
    rfl
  cases h with
  | last hend hfound => exact .last hend (hfound.trans hmove)
  | full item rest hend hrest hfound => exact .full item rest hend hrest (hfound.trans hmove)

theorem PageOf.skip {height : ρ → ℕ} {root : ρ} {before : List NodeMatch}
    {stack next : List (WalkItem ρ)} {page : SearchPage ρ}
    (hhits : host.hits cm predicate height stack = host.hits cm predicate height next)
    (h : host.PageOf cm predicate height root before next page) :
    host.PageOf cm predicate height root before stack page := by
  cases h with
  | last hend hfound => exact .last hend (hhits ▸ hfound)
  | full item rest hend hrest hfound => exact .full item rest hend hrest (hhits ▸ hfound)

/-- **A page that is not truncated has the matches of what it walked over.** -/
theorem searchFrom_page {height : ρ → ℕ} (htree : host.IsTree height) {root : ρ}
    {limits : SerializerLimits} {returnedLimit left visitedNodes encodedBytes : ℕ}
    {stack : List (WalkItem ρ)} {before : List NodeMatch} {page : SearchPage ρ}
    (hstack : host.Located root stack)
    (hpage : host.searchFrom cm predicate limits returnedLimit left stack visitedNodes
      encodedBytes before = page) (htruncation : page.truncation = none) :
    host.PageOf cm predicate height root before stack page := by
  induction left generalizing stack visitedNodes encodedBytes before with
  | zero =>
      cases stack with
      | nil =>
          rw [searchFrom] at hpage
          subst hpage
          exact .last rfl (List.append_nil _).symm
      | cons item stack =>
          rw [searchFrom] at hpage
          subst hpage
          cases htruncation
  | succ left ih =>
      cases stack with
      | nil =>
          rw [searchFrom] at hpage
          subst hpage
          exact .last rfl (List.append_nil _).symm
      | cons item stack =>
          have hhits := hits_cons host cm predicate htree item stack
          rw [searchFrom] at hpage
          by_cases hreasons : host.matchReasons cm predicate item.node = []
          · rw [if_pos hreasons] at hpage
            rw [hit, nodeHit, if_pos hreasons] at hhits
            exact .skip host hhits (ih hstack.push hpage)
          rw [if_neg hreasons] at hpage
          rw [hit, nodeHit, if_neg hreasons] at hhits
          generalize hmatch : host.nodeMatch cm predicate (before.length + 1 < returnedLimit)
            item.node = m at hpage
          have hpair : m.pair = (host.id item.node, host.matchReasons cm predicate item.node) := by
            rw [← hmatch]
            rfl
          rw [← hpair] at hhits
          dsimp only at hpage
          split_ifs at hpage with hbytes hfull hreturned
          · subst hpage
            cases htruncation
          · subst hpage
            cases htruncation
          · subst hpage
            refine .full item stack rfl hstack ?_
            rw [hhits, List.map_append, List.append_assoc]
            rfl
          · exact .prepend host hhits (ih hstack.push hpage)

/-- A page that is truncated is not full. -/
theorem searchFrom_truncated {limits : SerializerLimits} {returnedLimit left visitedNodes encodedBytes : ℕ}
    {stack : List (WalkItem ρ)} {before : List NodeMatch} {page : SearchPage ρ}
    (hpage : host.searchFrom cm predicate limits returnedLimit left stack visitedNodes
      encodedBytes before = page) (htruncation : page.truncation ≠ none) : page.pageEnd = none := by
  induction left generalizing stack visitedNodes encodedBytes before with
  | zero => cases stack <;> rw [searchFrom] at hpage <;> subst hpage <;> rfl
  | succ left ih =>
      cases stack with
      | nil =>
          rw [searchFrom] at hpage
          subst hpage
          rfl
      | cons item stack =>
          rw [searchFrom] at hpage
          dsimp only at hpage
          split_ifs at hpage with hreasons hbytes hfull hreturned
          · exact ih hpage
          · subst hpage
            rfl
          · subst hpage
            rfl
          · subst hpage
            exact absurd rfl htruncation
          · exact ih hpage

end Host

/-! ## The key of a search -/

/-- The strings of the input are made of code units. -/
structure SearchNodesInput.Units (input : SearchNodesInput) : Prop where
  scope : Utf16.Units (match input.scope with | .pageId id | .nodeId id => id)
  query : ∀ query ∈ input.query, Utf16.Units query
  types : ∀ types ∈ input.types, ∀ type ∈ types, Utf16.Units type

theorem mem_trim {value : JsString} {u : ℕ} (h : u ∈ trim value) : u ∈ value := by
  unfold trim at h
  have h := (List.dropWhile_sublist _).subset (List.mem_reverse.1 h)
  exact (List.dropWhile_sublist _).subset (List.mem_reverse.1 h)

theorem trimTypes_units {types before after : List JsString} (h : trimTypes types before = some after)
    (htypes : ∀ type ∈ types, Utf16.Units type) (hbefore : ∀ type ∈ before, Utf16.Units type) :
    ∀ type ∈ after, Utf16.Units type := by
  induction types generalizing before with
  | nil => exact Option.some.inj h ▸ hbefore
  | cons type types ih =>
      have ⟨htype, hrest⟩ := List.forall_mem_cons.1 htypes
      rw [trimTypes] at h
      split_ifs at h
      · exact ih h hrest hbefore
      · exact ih h hrest (List.forall_mem_append.2
          ⟨hbefore, List.forall_mem_singleton.2 fun u hu => htype u (mem_trim hu)⟩)

/-- What a predicate is made of. -/
theorem compilePredicate_units {input : SearchNodesInput} (hinput : input.Units)
    {predicate : SearchPredicate} (h : compilePredicate input = .ok predicate) :
    (∀ query ∈ predicate.query, Utf16.Units query) ∧
      ∀ type ∈ predicate.types.getD [], Utf16.Units type := by
  obtain ⟨query, hquery, h⟩ := Guard.bind_eq_ok.1 h
  obtain ⟨types, htypes, h⟩ := Guard.bind_eq_ok.1 h
  obtain ⟨-, h⟩ := Guard.ite_throw_eq_ok.1 h
  obtain rfl := Guard.pure_eq_ok.1 h
  constructor
  · cases hinputQuery : input.query with
    | none =>
        rw [hinputQuery] at hquery
        obtain rfl := Except.ok.inj hquery
        exact nofun
    | some raw =>
        rw [hinputQuery, compileQuery] at hquery
        split_ifs at hquery
        obtain rfl := Except.ok.inj hquery
        rintro query ⟨⟩
        exact fun u hu => hinput.query raw hinputQuery u (mem_trim hu)
  · cases hinputTypes : input.types with
    | none =>
        rw [hinputTypes] at htypes
        obtain rfl := Except.ok.inj htypes
        exact nofun
    | some raw =>
        rw [hinputTypes, compileTypes] at htypes
        cases htrimmed : trimTypes raw [] with
        | none => rw [htrimmed] at htypes; cases htypes
        | some trimmed =>
            rw [htrimmed] at htypes
            have hunits := trimTypes_units htrimmed (hinput.types raw hinputTypes) nofun
            cases trimmed with
            | nil =>
                obtain rfl := Except.ok.inj htypes
                exact nofun
            | cons type rest =>
                obtain rfl := Except.ok.inj htypes
                exact hunits

theorem plainItems_map_string {strings : List JsString} (h : ∀ s ∈ strings, Utf16.Units s) :
    PlainItems (strings.map .string) :=
  plainItems_iff.2 (List.forall_mem_map.2 h)

/-- The key of a search is a text. -/
theorem units_searchKey {input : SearchNodesInput} (hinput : input.Units)
    {predicate : SearchPredicate} (h : compilePredicate input = .ok predicate) :
    Utf16.Units (searchKey input predicate) := by
  have hunits : ∀ s : String, Utf16.Units (text s) := Utf16.units_ofString
  have ⟨hquery, htypes⟩ := compilePredicate_units hinput h
  have hscope := hinput.scope
  have hplain : ∀ scope : List JsValue, PlainItems scope →
      Plain (.object (member "scope" (.array scope) ++
        member "query" ((predicate.query.map .string).getD .null) ++
        member "types" (.array (((predicate.types.getD []).mergeSort fun a b => decide (a ≤ b)).map .string)) ++
        member "match" (.string (text predicate.matchMode.word)))) := by
    intro scope hitems
    refine ⟨⟨hunits _, hitems, hunits _, ?_, hunits _, ?_, hunits _, hunits _, trivial⟩, by simp [member]⟩
    · cases hq : predicate.query with
      | none => trivial
      | some query => exact hquery query hq
    · exact plainItems_map_string fun type htype => htypes type (List.mem_mergeSort.1 htype)
  unfold searchKey
  cases hcase : input.scope with
  | pageId id | nodeId id =>
      rw [hcase] at hscope
      obtain ⟨t, ht, hformed, -⟩ := parse_stringify
        (hplain [.string (text _), .string id] ⟨hunits _, hscope, trivial⟩)
      dsimp only
      rw [ht]
      exact hformed.units

/-! ## Pages that follow one another -/

namespace Figma

variable {ρ : Type} [DecidableEq ρ] (figma : Figma ρ) (cm : CaseMapping)

/-- The pages from a cursor on, each with a limit of its own, and the cursor after them. -/
inductive Pages (input : SearchNodesInput) :
    Option JsString → List SearchNodesResult → Option JsString → Prop
  | one {cursor : Option JsString} (limit : ℕ) {result : SearchNodesResult}
      (hresult : figma.searchNodes cm { input with limit, cursor } = .ok result) :
      Pages input cursor [result] result.nextCursor
  | more {cursor : Option JsString} (limit : ℕ) {result : SearchNodesResult} {next : JsString}
      {results : List SearchNodesResult} {last : Option JsString}
      (hresult : figma.searchNodes cm { input with limit, cursor } = .ok result)
      (hnext : result.nextCursor = some next) (hrest : Pages input (some next) results last) :
      Pages input cursor (result :: results) last

/-- The matches in the whole visible tree, in preorder. -/
def wholeSearch (height : ρ → ℕ) (input : SearchNodesInput) :
    Except ReadError (List (JsString × List MatchReason)) := do
  let predicate ← compilePredicate input
  let root ← figma.resolveSearchRoot input.scope
  return (figma.visibleTree (height root) [] root).filterMap (figma.nodeHit cm predicate)

/-- The stack that a cursor stands for. -/
inductive AtCursor (key : JsString) (root : ρ) : Option JsString → List (WalkItem ρ) → Prop
  | start : AtCursor key root none [{ node := root }]
  | after (item : WalkItem ρ) (rest : List (WalkItem ρ)) (cursor : JsString)
      (hrest : figma.Located root (item :: rest)) (hcursor : figma.cursorFor key item true = some cursor) :
      AtCursor key root (some cursor) (figma.pushChildren rest item)

variable {figma cm}

theorem AtCursor.located {key : JsString} {root : ρ} {cursor : Option JsString}
    {stack : List (WalkItem ρ)} (h : figma.AtCursor key root cursor stack) :
    figma.Located root stack := by
  cases h with
  | start => exact figma.located_root root
  | after item rest cursor hrest _ => exact hrest.push

/-- An item of a stack that can be found again has a cursor, which brings the stack back. -/
theorem exists_cursor {key : JsString} (hkey : Utf16.Units key) {root : ρ} {item : WalkItem ρ}
    {rest : List (WalkItem ρ)} (h : figma.Located root (item :: rest)) :
    ∃ cursor payload, figma.cursorFor key item true = some cursor ∧
      parseCursor cursor key = some payload ∧
      figma.initialStack root (some payload) = .ok (figma.pushChildren rest item) := by
  obtain ⟨cursor, hcursor, hparse⟩ := figma.parseCursor_cursorFor true hkey (figma.units_id _)
    (h.paths item List.mem_cons_self)
  refine ⟨cursor, _, hcursor, hparse, ?_⟩
  rw [Host.initialStack, h.resumes.1]
  simp

variable (figma cm)

/-- What a search does with its stack, on a page after a cursor. -/
theorem searchNodes_eq {input : SearchNodesInput} {predicate : SearchPredicate} {root : ρ}
    (hinput : input.Units) (hpredicate : compilePredicate input = .ok predicate)
    (hroot : figma.resolveSearchRoot input.scope = .ok root) {cursor : Option JsString}
    {stack : List (WalkItem ρ)} (hcursor : figma.AtCursor (searchKey input predicate) root cursor stack)
    (limit : ℕ) :
    figma.searchNodes cm { input with limit, cursor } =
      (do
        let page := figma.searchFrom cm predicate {} (min limit maxReturnedNodes) maxVisitedNodes
          stack 0 0 []
        let nextCursor ← figma.nextCursor (searchKey input predicate) page
        return {
          found := page.found
          truncated := page.truncation.isSome
          truncation := page.truncation
          nextCursor }) := by
  have hsame : compilePredicate { input with limit, cursor } = .ok predicate := hpredicate
  have hkey : searchKey { input with limit, cursor } predicate = searchKey input predicate := rfl
  unfold searchNodes
  simp only [hsame, hroot, hkey, bind, Except.bind]
  cases hcursor with
  | start => rfl
  | after item rest cursor hrest hmade =>
      obtain ⟨made, payload, hcursor, hparse, hstack⟩ :=
        exists_cursor (units_searchKey hinput hpredicate) hrest
      obtain rfl : made = cursor := Option.some.inj (hcursor.symm.trans hmade)
      simp only [readCursor, hparse, hstack]

/-- **A page in a series.** It does not fail; unless it is truncated, its matches are the first of
those still to come, and its cursor, if it has one, stands for the others. -/
theorem searchNodes_page {height : ρ → ℕ} (htree : figma.IsTree height) {input : SearchNodesInput}
    {predicate : SearchPredicate} {root : ρ} (hinput : input.Units)
    (hpredicate : compilePredicate input = .ok predicate)
    (hroot : figma.resolveSearchRoot input.scope = .ok root) {cursor : Option JsString}
    {stack : List (WalkItem ρ)} (hcursor : figma.AtCursor (searchKey input predicate) root cursor stack)
    (limit : ℕ) :
    ∃ result, figma.searchNodes cm { input with limit, cursor } = .ok result ∧
      (result.truncated = false →
        (result.nextCursor = none ∧
          result.found.map NodeMatch.pair = figma.hits cm predicate height stack) ∨
        ∃ next rest, result.nextCursor = some next ∧
          figma.AtCursor (searchKey input predicate) root (some next) rest ∧
          result.found.map NodeMatch.pair ++ figma.hits cm predicate height rest =
            figma.hits cm predicate height stack) := by
  rw [figma.searchNodes_eq cm hinput hpredicate hroot hcursor limit]
  dsimp only
  generalize hpage : figma.searchFrom cm predicate {} (min limit maxReturnedNodes)
    maxVisitedNodes stack 0 0 [] = page
  cases htruncation : page.truncation with
  | some truncation =>
      have hend := figma.searchFrom_truncated hpage (by rw [htruncation]; exact Option.some_ne_none _)
      rw [Host.nextCursor, hend]
      exact ⟨_, rfl, nofun⟩
  | none =>
      cases figma.searchFrom_page htree hcursor.located hpage htruncation with
      | last hend hfound =>
          rw [Host.nextCursor, hend]
          exact ⟨_, rfl, fun _ => Or.inl ⟨rfl, hfound⟩⟩
      | full item rest hend hrest hfound =>
          obtain ⟨made, payload, hmade, -, -⟩ :=
            exists_cursor (units_searchKey hinput hpredicate) hrest
          rw [Host.nextCursor, hend]
          dsimp only
          rw [hmade]
          exact ⟨_, rfl, fun _ => Or.inr ⟨made, _, rfl, .after item rest made hrest hmade, hfound⟩⟩

/-- A run of pages that are not truncated: their matches come first, and the cursor after them
stands for the others. -/
theorem pages_run {height : ρ → ℕ} (htree : figma.IsTree height) {input : SearchNodesInput}
    {predicate : SearchPredicate} {root : ρ} (hinput : input.Units)
    (hpredicate : compilePredicate input = .ok predicate)
    (hroot : figma.resolveSearchRoot input.scope = .ok root) {cursor : Option JsString}
    {stack : List (WalkItem ρ)} (hcursor : figma.AtCursor (searchKey input predicate) root cursor stack)
    {results : List SearchNodesResult} {last : Option JsString}
    (hpages : figma.Pages cm input cursor results last)
    (htruncated : ∀ result ∈ results, result.truncated = false) :
    (last = none ∧ (results.flatMap fun result => result.found.map NodeMatch.pair) =
        figma.hits cm predicate height stack) ∨
      ∃ next rest, last = some next ∧
        figma.AtCursor (searchKey input predicate) root (some next) rest := by
  induction hpages generalizing stack with
  | one limit hresult =>
      obtain ⟨made, hmade, hpage⟩ :=
        figma.searchNodes_page cm htree hinput hpredicate hroot hcursor limit
      obtain rfl := Except.ok.inj (hmade.symm.trans hresult)
      rcases hpage (htruncated _ List.mem_cons_self) with ⟨hlast, hfound⟩ | ⟨next, rest, hnext, hrest, -⟩
      · exact Or.inl ⟨hlast, by simpa using hfound⟩
      · exact Or.inr ⟨next, rest, hnext, hrest⟩
  | more limit hresult hnext hrest ih =>
      obtain ⟨made, hmade, hpage⟩ :=
        figma.searchNodes_page cm htree hinput hpredicate hroot hcursor limit
      obtain rfl := Except.ok.inj (hmade.symm.trans hresult)
      rcases hpage (htruncated _ List.mem_cons_self) with ⟨hlast, -⟩ | ⟨next, rest, hsome, hat, hfound⟩
      · rw [hlast] at hnext
        cases hnext
      · obtain rfl := Option.some.inj (hsome.symm.trans hnext)
        rcases ih hat fun result hresult => htruncated result (List.mem_cons_of_mem _ hresult) with
          ⟨hlast, hmatches⟩ | hnext
        · refine Or.inl ⟨hlast, ?_⟩
          rw [List.flatMap_cons, hmatches, hfound]
        · exact Or.inr hnext

/-- A search that succeeds has a predicate and a root. -/
theorem exists_of_searchNodes {input : SearchNodesInput} {limit : ℕ} {cursor : Option JsString}
    {result : SearchNodesResult}
    (h : figma.searchNodes cm { input with limit, cursor } = .ok result) :
    ∃ predicate root, compilePredicate input = .ok predicate ∧
      figma.resolveSearchRoot input.scope = .ok root := by
  obtain ⟨predicate, hpredicate, h⟩ := Guard.bind_eq_ok.1 h
  obtain ⟨root, hroot, -⟩ := Guard.bind_eq_ok.1 h
  exact ⟨predicate, root, hpredicate, hroot⟩

/-- **Paging neither loses nor repeats a match.** Pages that are not truncated, up to one without
a cursor, have together the matches in the visible tree, in preorder; where a page has a cursor, the
search goes on from it; and where different nodes have different ids, the tree is that of the
visible children. -/
theorem search_pages {height : ρ → ℕ} (htree : figma.IsTree height) {input : SearchNodesInput}
    (hinput : input.Units) {results : List SearchNodesResult} {last : Option JsString}
    (hpages : figma.Pages cm input none results last)
    (htruncated : ∀ result ∈ results, result.truncated = false) :
    (last = none → figma.wholeSearch cm height input =
        .ok (results.flatMap fun result => result.found.map NodeMatch.pair)) ∧
      (∀ next, last = some next → ∀ limit, ∃ result,
        figma.searchNodes cm { input with limit, cursor := some next } = .ok result) ∧
      ((∀ a b, figma.id a = figma.id b → a = b) → ∀ root,
        figma.visibleTree (height root) [] root =
          preorder figma.visibleChildren (height root) root) := by
  obtain ⟨predicate, root, hpredicate, hroot⟩ :
      ∃ predicate root, compilePredicate input = .ok predicate ∧
        figma.resolveSearchRoot input.scope = .ok root := by
    cases hpages with
    | one limit hresult => exact figma.exists_of_searchNodes cm hresult
    | more limit hresult _ _ => exact figma.exists_of_searchNodes cm hresult
  have hwhole : figma.wholeSearch cm height input =
      .ok (figma.hits cm predicate height [{ node := root }]) := by
    rw [wholeSearch, hpredicate, hroot, Host.hits_root]
    rfl
  have hpreorder := fun hids root =>
    Host.visibleTree_eq_preorder figma.toHost htree hids (height root) root
  rw [hwhole]
  rcases figma.pages_run cm htree hinput hpredicate hroot .start hpages htruncated with
    ⟨hlast, hfound⟩ | ⟨next, rest, hnext, hat⟩
  · exact ⟨fun _ => congrArg Except.ok hfound.symm,
      fun next hnext => absurd (hlast.symm.trans hnext) (Option.some_ne_none next).symm, hpreorder⟩
  · refine ⟨fun hnone => absurd (hnone.symm.trans hnext) nofun, fun other hother limit => ?_,
      hpreorder⟩
    obtain rfl := Option.some.inj (hnext.symm.trans hother)
    obtain ⟨result, hresult, -⟩ := figma.searchNodes_page cm htree hinput hpredicate hroot hat limit
    exact ⟨result, hresult⟩

/-- The layers of the framed document, for the frame and its layer. -/
def layers : SearchNodesInput :=
  { scope := .nodeId (text "1:2"), types := some [text "FRAME"], matchMode := .exact, limit := 1 }

theorem units_layers : layers.Units where
  scope := Utf16.units_ofString _
  query := nofun
  types types h := by
    obtain rfl := Option.some.inj h
    exact List.forall_mem_singleton.2 (Utf16.units_ofString _)

theorem isTree_framed : framed.IsTree fun node => 1 - node := by
  intro node child hchild
  have hchildren := (framed.mem_visibleChildren.1 hchild).1
  simp only [framed] at hchildren
  split_ifs at hchildren with hnode
  · rw [List.mem_singleton.1 hchildren, hnode]
    decide
  · cases hchildren

/-- The page of the framed document after a cursor. -/
def framedPage (limit : ℕ) (cursor : Option JsString) : Except ReadError SearchNodesResult :=
  framed.searchNodes (fun _ code _ => [code]) { layers with limit, cursor }

theorem framedPage_one : ∃ first, framedPage 1 none = .ok first ∧ first.truncated = false ∧
    ∃ next, first.nextCursor = some next ∧ ∃ second, framedPage 5 (some next) = .ok second ∧
      second.truncated = false ∧ second.nextCursor = none := by
  have hrun : ((framedPage 1 none).toOption.bind fun first => first.nextCursor.bind fun next =>
      (framedPage 5 (some next)).toOption.map fun second =>
        (first.truncated, second.truncated, second.nextCursor)) = some (false, false, none) := by
    decide +kernel
  obtain ⟨first, hfirst, hrun⟩ := Option.bind_eq_some_iff.1 hrun
  obtain ⟨next, hnext, hrun⟩ := Option.bind_eq_some_iff.1 hrun
  obtain ⟨second, hsecond, hrun⟩ := Option.map_eq_some_iff.1 hrun
  obtain ⟨hone, hrun⟩ := Prod.mk.inj hrun
  obtain ⟨htwo, hlast⟩ := Prod.mk.inj hrun
  exact ⟨first, Guard.toOption_eq_some.1 hfirst, hone, next, hnext, second,
    Guard.toOption_eq_some.1 hsecond, htwo, hlast⟩

/-- The layers of the framed document come on two pages, and are those of one walk. -/
theorem search_pages_framed : ∃ first second,
    framed.Pages (fun _ code _ => [code]) layers none [first, second] none ∧
      framed.wholeSearch (fun _ code _ => [code]) (fun node => 1 - node) layers =
        .ok ([first, second].flatMap fun result => result.found.map NodeMatch.pair) := by
  obtain ⟨first, hfirst, hwhole, next, hnext, second, hsecond, hrest, hlast⟩ := framedPage_one
  have hpages : framed.Pages (fun _ code _ => [code]) layers none [first, second] none :=
    .more 1 hfirst hnext (hlast ▸ .one 5 hsecond)
  refine ⟨first, second, hpages, (framed.search_pages _ isTree_framed units_layers hpages ?_).1 rfl⟩
  exact List.forall_mem_cons.2 ⟨hwhole, List.forall_mem_singleton.2 hrest⟩

end Figma

end FigmaDevMcp

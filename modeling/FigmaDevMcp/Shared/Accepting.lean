import FigmaDevMcp.Lib.Guard
import FigmaDevMcp.Shared.Validation
import Mathlib.Data.List.DropRight

set_option autoImplicit false

/-!
# What validation accepts

When the parsers accept the input of a search, and what they make of it; and that a request which
has been accepted and trimmed is accepted again as it stands.

* `trim_eq_nil`, `trim_trim`, `utf8ByteLength_trim_le`: trimming;
* `parseSearchNodesInput_ok`, `parseSearchNodesInput_inv`: the input of a search;
* `parseBrokerToPlugin_request`, `parseControllerBoundMessage_request`: the messages around it.
-/

namespace FigmaDevMcp

/-! ## Trimming -/

theorem trim_eq (s : JsString) : trim s = (s.dropWhile isWhitespace).rdropWhile isWhitespace := rfl

/-- What is left has no white space at its head. -/
theorem dropWhile_trim (s : JsString) : (trim s).dropWhile isWhitespace = trim s := by
  rw [List.dropWhile_eq_self_iff]
  intro hpos hspace
  have hdrop : trim s <+: s.dropWhile isWhitespace := List.rdropWhile_prefix _ _
  have hlength := lt_of_lt_of_le hpos hdrop.length_le
  rw [hdrop.getElem hpos] at hspace
  exact List.dropWhile_get_zero_not isWhitespace s hlength hspace

theorem trim_trim (s : JsString) : trim (trim s) = trim s := by
  rw [trim_eq (trim s), dropWhile_trim, trim_eq, List.rdropWhile_idempotent]

/-- Nothing is left of white space alone. -/
theorem trim_eq_nil {s : JsString} : trim s = [] ↔ ∀ u ∈ s, isWhitespace u = true := by
  rw [trim_eq, List.rdropWhile_eq_nil_iff]
  constructor
  · intro h
    have hnil : s.dropWhile isWhitespace = [] := by
      rw [← List.dropWhile_idempotent, List.dropWhile_eq_nil_iff]
      exact h
    exact List.dropWhile_eq_nil_iff.1 hnil
  · intro h u hu
    exact h u ((List.dropWhile_sublist _).subset hu)

/-- A string without its first unit, or cut before its end, has no more bytes. -/
theorem utf8ByteLength_le_cons (u : ℕ) (s : JsString) : utf8ByteLength s ≤ utf8ByteLength (u :: s) := by
  cases s with
  | nil => exact Nat.zero_le _
  | cons v s =>
      rw [utf8ByteLength]
      split_ifs with hlow hmiddle hpair
      · omega
      · omega
      · have hv : ¬ v ≤ 0x7f ∧ ¬ v ≤ 0x7ff ∧ Utf16.isHighSurrogate v = false := by
          simp only [Utf16.isHighSurrogate, Utf16.isLowSurrogate, Bool.and_eq_true, decide_eq_true_eq,
            Bool.and_eq_false_iff, decide_eq_false_iff_not] at hpair ⊢
          omega
        cases s with
        | nil => simp [utf8ByteLength, hv.1, hv.2.1]
        | cons w s =>
            rw [utf8ByteLength, if_neg hv.1, if_neg hv.2.1, hv.2.2]
            simp
      · omega

theorem utf8ByteLength_le_suffix (s t : JsString) : utf8ByteLength t ≤ utf8ByteLength (s ++ t) := by
  induction s with
  | nil => exact le_refl _
  | cons u s ih => exact le_trans ih (utf8ByteLength_le_cons u (s ++ t))

theorem utf8ByteLength_le_prefix (s t : JsString) : utf8ByteLength s ≤ utf8ByteLength (s ++ t) := by
  induction s using utf8ByteLength.induct with
  | case1 code next rest hlow ih =>
      rw [List.cons_append, List.cons_append, utf8ByteLength, if_pos hlow, utf8ByteLength, if_pos hlow]
      exact Nat.add_le_add_left ih 1
  | case2 code next rest hlow hmiddle ih =>
      rw [List.cons_append, List.cons_append, utf8ByteLength, if_neg hlow, if_pos hmiddle,
        utf8ByteLength, if_neg hlow, if_pos hmiddle]
      exact Nat.add_le_add_left ih 2
  | case3 code next rest hlow hmiddle hpair ih =>
      rw [List.cons_append, List.cons_append, utf8ByteLength, if_neg hlow, if_neg hmiddle, if_pos hpair,
        utf8ByteLength, if_neg hlow, if_neg hmiddle, if_pos hpair]
      exact Nat.add_le_add_left ih 4
  | case4 code next rest hlow hmiddle hpair ih =>
      rw [List.cons_append, List.cons_append, utf8ByteLength, if_neg hlow, if_neg hmiddle, if_neg hpair,
        utf8ByteLength, if_neg hlow, if_neg hmiddle, if_neg hpair]
      exact Nat.add_le_add_left ih 3
  | case5 code hlow | case6 code hlow | case7 code hlow =>
      cases t with
      | nil => exact le_refl _
      | cons v t =>
          rw [List.singleton_append, utf8ByteLength, utf8ByteLength]
          split_ifs <;> omega
  | case8 => exact Nat.zero_le _

/-- Trimming takes bytes away. -/
theorem utf8ByteLength_trim_le (s : JsString) : utf8ByteLength (trim s) ≤ utf8ByteLength s := by
  obtain ⟨before, hbefore⟩ := List.dropWhile_suffix isWhitespace (l := s)
  obtain ⟨after, hafter⟩ := List.rdropWhile_prefix isWhitespace (s.dropWhile isWhitespace)
  calc utf8ByteLength (trim s) ≤ utf8ByteLength (trim s ++ after) := utf8ByteLength_le_prefix _ after
    _ = utf8ByteLength (s.dropWhile isWhitespace) := congrArg utf8ByteLength hafter
    _ ≤ utf8ByteLength (before ++ s.dropWhile isWhitespace) := utf8ByteLength_le_suffix before _
    _ = utf8ByteLength s := congrArg utf8ByteLength hbefore

end FigmaDevMcp

namespace FigmaDevMcp.Plugin

open JsValue

/-! ## Checks of one value -/

theorem exact_object {members : List Member} {label : JsString} {required optional : List String}
    (hkeys : ∀ key ∈ members.map Prod.fst, key ∈ (required ++ optional).map text)
    (hrequired : ∀ key ∈ required, (JsValue.object members).hasOwn (text key) = true) :
    exact (.object members) label required optional = .ok (.object members) := by
  have hknown : (keys (.object members)).find? (fun key =>
      decide (key ∉ (required ++ optional).map text)) = none := by
    rw [List.find?_eq_none]
    intro key hkey hunknown
    exact of_decide_eq_true hunknown (hkeys key hkey)
  have hpresent : required.find? (fun key => !(JsValue.object members).hasOwn (text key)) = none := by
    rw [List.find?_eq_none]
    intro key hkey hmissing
    rw [hrequired key hkey] at hmissing
    cases hmissing
  show exactKeys (.object members) label required optional = _
  unfold exactKeys
  simp only [hknown, hpresent]

theorem boundedString_ok {s : JsString} {label : JsString} {maximumBytes : ℕ} {allowEmpty : Bool}
    (hne : allowEmpty = false → s ≠ []) (hbytes : utf8ByteLength s ≤ maximumBytes) :
    boundedString (.string s) label maximumBytes allowEmpty = .ok s := by
  rw [boundedString, if_neg fun h => hne h.1 h.2, if_neg (by omega)]

/-- A string that may be an identifier. -/
def IsIdentifier (s : JsString) : Prop := s ≠ [] ∧ utf8ByteLength s ≤ maxIdentifierBytes

theorem identifier_ok {s : JsString} (h : IsIdentifier s) (label : JsString) :
    identifier (.string s) label = .ok s :=
  boundedString_ok (fun _ => h.1) h.2

theorem safeInteger_ok {n : ℕ} (h : n < 2 ^ 53) (label : JsString) :
    safeInteger (n : ℚ) label = .ok n := by
  have hsafe : (n : ℚ).den = 1 ∧ 0 ≤ (n : ℚ).num ∧ (n : ℚ).num < 2 ^ 53 :=
    ⟨Rat.den_natCast n, by rw [Rat.num_natCast]; exact Int.natCast_nonneg n,
      by rw [Rat.num_natCast]; exact_mod_cast h⟩
  unfold safeInteger
  rw [if_pos hsafe, Rat.num_natCast, Int.toNat_natCast]

theorem unsignedInteger_ok {n : ℕ} (h : n < 2 ^ 53) (label : JsString) :
    unsignedInteger (natural n) label = .ok n := by
  unfold unsignedInteger
  exact Guard.bind_eq_ok.2 ⟨n, rfl, safeInteger_ok h label⟩

/-- Parsing the items of an array, each of which is accepted as it stands. -/
theorem parseItems_ok {α : Type} {parser : JsValue → JsString → Parsed α} {label : JsString}
    {f : α → JsValue} {items : List α} (h : ∀ a ∈ items, ∀ label, parser (f a) label = .ok a) (index : ℕ) :
    parseItems parser label index (items.map f) = .ok items := by
  induction items generalizing index with
  | nil => rfl
  | cons a items ih =>
      have ⟨ha, hitems⟩ := List.forall_mem_cons.1 h
      rw [List.map_cons, parseItems, ha, ih hitems]
      rfl

theorem stringList_ok {ids : List JsString} {label : JsString} {maximum : ℕ}
    (hlength : ids.length ≤ maximum) (hids : ∀ id ∈ ids, IsIdentifier id) :
    stringList (.array (ids.map .string)) label maximum = .ok ids := by
  rw [stringList, if_neg (by rw [List.length_map]; omega)]
  exact parseItems_ok (fun id hid label => identifier_ok (hids id hid) label) 0

/-- A member that may be missing, where it is known. -/
theorem optionalMember_eq {α β : Type} {members : List Member} {key : String}
    {parser : JsValue → JsString → Parsed α} {x : Option β} {f : β → JsValue}
    (h : lookup (text key) members = x.map f) :
    optionalMember (.object members) key parser =
      x.elim (.ok none) fun b => (parser (f b) (text key)).map some := by
  unfold optionalMember JsValue.field
  rw [hasOwn_object, get_object, h]
  cases x <;> rfl

theorem optionalIdentifier_ok {members : List Member} {key : String} {x : Option JsString}
    (h : lookup (text key) members = x.map .string) (hx : ∀ s ∈ x, IsIdentifier s) :
    optionalIdentifier (.object members) key = .ok x := by
  rw [optionalIdentifier, optionalMember_eq h]
  cases x with
  | none => rfl
  | some s =>
      rw [Option.elim_some, identifier_ok (hx s rfl)]
      rfl

/-! ## The input of a search -/

/-- A string with something else than white space. -/
def Visible (s : JsString) : Prop := ∃ u ∈ s, isWhitespace u = false

theorem trim_ne_nil {s : JsString} : trim s ≠ [] ↔ Visible s := by
  rw [Ne, trim_eq_nil]
  simp [Visible]

theorem Visible.trim {s : JsString} (h : Visible s) : Visible (trim s) := by
  rw [← trim_ne_nil, trim_trim]
  exact trim_ne_nil.2 h

/-- What the bounds of an input ask for, whatever its strings are made of. -/
structure Bounded (input : SearchNodesInput) : Prop where
  connectionId : ∀ s ∈ input.connectionId, IsIdentifier s
  scope : IsIdentifier (match input.scope with | .pageId id | .nodeId id => id)
  query : ∀ s ∈ input.query, utf8ByteLength s ≤ maxQueryBytes
  types : ∀ types ∈ input.types, types ≠ [] ∧ types.length ≤ maxInputIds ∧ ∀ s ∈ types, IsIdentifier s
  searched : input.query ≠ none ∨ input.types ≠ none
  limit : 1 ≤ input.limit ∧ input.limit ≤ maxReturnedNodes
  cursor : ∀ s ∈ input.cursor, s ≠ [] ∧ utf8ByteLength s ≤ maxSearchCursorBytes

/-- The members of an object are those of an input. -/
structure Encodes (members : List Member) (input : SearchNodesInput) : Prop where
  keys : ∀ key ∈ members.map Prod.fst, key ∈ (["scope", "match", "limit"] ++
    ["connectionId", "query", "types", "cursor"]).map text
  connectionId : lookup (text "connectionId") members = input.connectionId.map .string
  scope : lookup (text "scope") members = some input.scope.selector.toJs
  query : lookup (text "query") members = input.query.map .string
  types : lookup (text "types") members = input.types.map fun types => .array (types.map .string)
  matchMode : lookup (text "match") members = some (word input.matchMode.word)
  limit : lookup (text "limit") members = some (natural input.limit)
  cursor : lookup (text "cursor") members = input.cursor.map .string

/-- An input with its strings trimmed. -/
def trimmed (input : SearchNodesInput) : SearchNodesInput :=
  { input with
    query := input.query.map trim
    types := input.types.map (List.map trim)
    cursor := input.cursor.map trim }

theorem map_some_eq_ok {α : Type} {x : Parsed α} {y : Option α} :
    x.map some = .ok y ↔ ∃ a, x = .ok a ∧ y = some a := by
  cases x with
  | error e => exact ⟨nofun, fun ⟨_, h, _⟩ => by cases h⟩
  | ok a =>
      constructor
      · intro h
        exact ⟨a, rfl, (Except.ok.inj h).symm⟩
      · rintro ⟨b, hb, rfl⟩
        rw [← Except.ok.inj hb]
        rfl

theorem searchQuery_eq_ok {s query label : JsString} (h : utf8ByteLength s ≤ maxQueryBytes) :
    searchQuery (.string s) label = .ok query ↔ Visible s ∧ query = trim s := by
  rw [searchQuery, boundedString_ok (fun h => absurd h (by decide)) h, ← trim_ne_nil]
  show (if trim s = [] then fail _ else Except.ok (trim s)) = .ok query ↔ _
  split_ifs with hnil
  · exact ⟨nofun, fun h => absurd hnil h.1⟩
  · exact ⟨fun h => ⟨hnil, (Except.ok.inj h).symm⟩, fun h => congrArg Except.ok h.2.symm⟩

theorem searchTypesFrom_eq_ok {label : JsString} {index : ℕ} {ids types : List JsString} :
    searchTypesFrom label index ids = .ok types ↔ (∀ s ∈ ids, Visible s) ∧ types = ids.map trim := by
  induction ids generalizing index types with
  | nil => exact ⟨fun h => ⟨nofun, (Except.ok.inj h).symm⟩, fun h => congrArg Except.ok h.2.symm⟩
  | cons s ids ih =>
      rw [searchTypesFrom, List.forall_mem_cons, ← trim_ne_nil]
      split_ifs with hnil
      · exact ⟨nofun, fun h => absurd hnil h.1.1⟩
      · simp only [Guard.bind_eq_ok, Guard.pure_eq_ok, ih]
        constructor
        · rintro ⟨_, ⟨hall, rfl⟩, rfl⟩
          exact ⟨⟨hnil, hall⟩, rfl⟩
        · rintro ⟨⟨-, hall⟩, rfl⟩
          exact ⟨_, ⟨hall, rfl⟩, rfl⟩

theorem searchTypes_eq_ok {ids types : List JsString} {label : JsString}
    (hlength : ids.length ≤ maxInputIds) (hids : ∀ id ∈ ids, IsIdentifier id) :
    searchTypes (.array (ids.map .string)) label = .ok types ↔
      (∀ s ∈ ids, Visible s) ∧ types = ids.map trim := by
  rw [searchTypes, stringList_ok hlength hids]
  exact searchTypesFrom_eq_ok

theorem parseSelector_scope {scope : SearchScope}
    (h : IsIdentifier (match scope with | .pageId id | .nodeId id => id)) :
    (parseSelector scope.selector.toJs >>= searchScope) = .ok scope := by
  cases scope with
  | pageId id =>
      refine Guard.bind_eq_ok.2 ⟨.pageId id, ?_, rfl⟩
      show (do return Selector.pageId (← identifier (.string id) _) : Parsed Selector) = _
      rw [identifier_ok h]
      rfl
  | nodeId id =>
      refine Guard.bind_eq_ok.2 ⟨.nodeId id, ?_, rfl⟩
      show (do return Selector.nodeId (← identifier (.string id) _) : Parsed Selector) = _
      rw [identifier_ok h]
      rfl

theorem Encodes.exact {members : List Member} {input : SearchNodesInput} (h : Encodes members input) :
    exact (.object members) (text "search_nodes input") ["scope", "match", "limit"]
      ["connectionId", "query", "types", "cursor"] = .ok (.object members) := by
  refine exact_object h.keys fun key hkey => ?_
  rw [hasOwn_object]
  simp only [List.mem_cons, List.not_mem_nil, or_false] at hkey
  rcases hkey with rfl | rfl | rfl
  · rw [h.scope]; rfl
  · rw [h.matchMode]; rfl
  · rw [h.limit]; rfl

/-- **What a search is parsed to**: an input within the bounds is accepted where its query and its
types have something else than white space, and then it is the input with its strings trimmed. -/
theorem parseSearchNodesInput_eq_ok {members : List Member} {input parsed : SearchNodesInput}
    (h : Encodes members input) (hbounded : Bounded input) :
    parseSearchNodesInput (.object members) = .ok parsed ↔
      ((∀ s ∈ input.query, Visible s) ∧ ∀ types ∈ input.types, ∀ s ∈ types, Visible s) ∧
        parsed = trimmed input := by
  have hscope : (parseSelector ((JsValue.object members).field "scope") >>= searchScope) =
      .ok input.scope := by
    rw [JsValue.field, get_object, h.scope]
    exact parseSelector_scope hbounded.scope
  have hconnection : copyFileScope (.object members) = .ok input.connectionId :=
    optionalIdentifier_ok h.connectionId hbounded.connectionId
  have hmatch : parseSearchMatchMode ((JsValue.object members).field "match") (text "match") =
      .ok input.matchMode := by
    rw [JsValue.field, get_object, h.matchMode]
    cases input.matchMode <;> rfl
  have hlimit : (unsignedInteger ((JsValue.object members).field "limit") (text "limit") >>=
      searchLimit) = .ok input.limit := by
    rw [JsValue.field, get_object, h.limit, Option.getD_some,
      unsignedInteger_ok (lt_of_le_of_lt hbounded.limit.2 (by decide))]
    show searchLimit input.limit = _
    rw [searchLimit, if_neg (by have := hbounded.limit; omega)]
  have hquery : ∀ query, optionalMember (.object members) "query" searchQuery = .ok query ↔
      (∀ s ∈ input.query, Visible s) ∧ query = input.query.map trim := by
    intro query
    rw [optionalMember_eq h.query]
    cases hcase : input.query with
    | none => exact ⟨fun h => ⟨nofun, (Except.ok.inj h).symm⟩, fun h => congrArg Except.ok h.2.symm⟩
    | some s =>
        have hbytes := hbounded.query s hcase
        simp only [Option.elim_some, map_some_eq_ok, searchQuery_eq_ok hbytes]
        simp
  have htypes : ∀ types, optionalMember (.object members) "types" searchTypes = .ok types ↔
      (∀ types ∈ input.types, ∀ s ∈ types, Visible s) ∧ types = input.types.map (List.map trim) := by
    intro types
    rw [optionalMember_eq h.types]
    cases hcase : input.types with
    | none => exact ⟨fun h => ⟨nofun, (Except.ok.inj h).symm⟩, fun h => congrArg Except.ok h.2.symm⟩
    | some ids =>
        obtain ⟨-, hlength, hids⟩ := hbounded.types ids hcase
        simp only [Option.elim_some, map_some_eq_ok, searchTypes_eq_ok hlength hids]
        simp
  have hcursor : optionalMember (.object members) "cursor" searchCursor =
      .ok (input.cursor.map trim) := by
    rw [optionalMember_eq h.cursor]
    cases hcase : input.cursor with
    | none => rfl
    | some s =>
        obtain ⟨hne, hbytes⟩ := hbounded.cursor s hcase
        rw [Option.elim_some, searchCursor, boundedString_ok (fun _ => hne) hbytes]
        rfl
  have hsome : someTypes (input.types.map (List.map trim)) = input.types.map (List.map trim) := by
    cases hcase : input.types with
    | none => rfl
    | some ids =>
        cases ids with
        | nil => exact absurd rfl (hbounded.types [] hcase).1
        | cons id ids => rfl
  have hsearched : checkSearch (input.query.map trim) (input.types.map (List.map trim)) = .ok () := by
    rw [checkSearch, if_neg]
    rintro ⟨hq, ht⟩
    exact hbounded.searched.elim (fun hne => hne (Option.map_eq_none_iff.1 hq))
      fun hne => hne (Option.map_eq_none_iff.1 ht)
  obtain ⟨selector, hselector, hscope⟩ := Guard.bind_eq_ok.1 hscope
  obtain ⟨limit, hnatural, hlimit⟩ := Guard.bind_eq_ok.1 hlimit
  unfold parseSearchNodesInput
  simp only [h.exact, hselector, hscope, hconnection, hmatch, hnatural, hlimit, Guard.ok_bind,
    Guard.bind_eq_ok, hquery, htypes]
  constructor
  · rintro ⟨_, ⟨hq, rfl⟩, _, ⟨ht, rfl⟩, _, -, cursor, hparsed, hrest⟩
    obtain rfl := Except.ok.inj (hcursor.symm.trans hparsed)
    rw [hsome] at hrest
    exact ⟨⟨hq, ht⟩, (Except.ok.inj hrest).symm⟩
  · rintro ⟨⟨hq, ht⟩, rfl⟩
    refine ⟨_, ⟨hq, rfl⟩, _, ⟨ht, rfl⟩, (), ?_, _, hcursor, ?_⟩
    · rw [hsome]
      exact hsearched
    · rw [hsome]
      rfl

/-- Trimming twice is trimming once. -/
theorem trimmed_trimmed (input : SearchNodesInput) : trimmed (trimmed input) = trimmed input := by
  have hmap : trim ∘ trim = trim := funext trim_trim
  simp [trimmed, Option.map_map, List.map_comp_map, hmap]

/-- An input within the bounds stays within them when it is trimmed, unless nothing is left of a
string. -/
theorem Bounded.trimmed {input : SearchNodesInput} (h : Bounded input)
    (htypes : ∀ types ∈ input.types, ∀ s ∈ types, Visible s)
    (hcursor : ∀ s ∈ input.cursor, Visible s) : Bounded (trimmed input) where
  connectionId := h.connectionId
  scope := h.scope
  query s hs := by
    obtain ⟨query, hquery, rfl⟩ := Option.map_eq_some_iff.1 hs
    exact le_trans (utf8ByteLength_trim_le query) (h.query query hquery)
  types types htrimmed := by
    obtain ⟨ids, hids, rfl⟩ := Option.map_eq_some_iff.1 htrimmed
    obtain ⟨hne, hlength, hall⟩ := h.types ids hids
    refine ⟨by simpa using hne, by rwa [List.length_map], fun s hs => ?_⟩
    obtain ⟨id, hid, rfl⟩ := List.mem_map.1 hs
    exact ⟨trim_ne_nil.2 (htypes ids hids id hid), le_trans (utf8ByteLength_trim_le id) (hall id hid).2⟩
  searched := h.searched.imp (fun hne hq => hne (Option.map_eq_none_iff.1 hq))
    fun hne ht => hne (Option.map_eq_none_iff.1 ht)
  limit := h.limit
  cursor s hs := by
    obtain ⟨cursor, hcase, rfl⟩ := Option.map_eq_some_iff.1 hs
    exact ⟨trim_ne_nil.2 (hcursor cursor hcase),
      le_trans (utf8ByteLength_trim_le cursor) (h.cursor cursor hcase).2⟩

/-- A cursor of which nothing is left is refused the next time. -/
theorem cursor_ne_nil {members : List Member} {input parsed : SearchNodesInput}
    (h : Encodes members input) (hparsed : parseSearchNodesInput (.object members) = .ok parsed) :
    ∀ s ∈ input.cursor, s ≠ [] := by
  rintro s hs rfl
  have hcursor : optionalMember (.object members) "cursor" searchCursor =
      fail (text "cursor must not be blank") := by
    rw [optionalMember_eq h.cursor, hs]
    rfl
  unfold parseSearchNodesInput at hparsed
  simp only [h.exact, Guard.ok_bind, Guard.bind_eq_ok, hcursor] at hparsed
  obtain ⟨_, -, _, -, _, -, _, -, _, -, _, -, _, -, _, -, _, -, _, hfail, -⟩ := hparsed
  cases hfail

/-! ## The members of an object -/

theorem lookup_member (key k : String) (value : JsValue) :
    lookup (text key) (member k value) = if k = key then some value else none := by
  rw [member, lookup_cons, lookup_nil]
  simp only [Utf16.ofString_inj]

theorem lookup_optional (key k : String) (value : Option JsValue) :
    lookup (text key) (optional k value) = if k = key then value else none := by
  cases value with
  | none => split_ifs <;> rfl
  | some value => exact lookup_member key k value

theorem key_member {key : JsString} {k : String} {value : JsValue}
    (h : key ∈ (member k value).map Prod.fst) : key = text k := by
  rwa [member, List.map_cons, List.map_nil, List.mem_singleton] at h

theorem key_optional {key : JsString} {k : String} {value : Option JsValue}
    (h : key ∈ (optional k value).map Prod.fst) : key = text k := by
  cases value with
  | none => cases h
  | some value => exact key_member h

/-- The object of an input encodes it. -/
theorem encodes_toJs (input : SearchNodesInput) :
    ∃ members, input.toJs = .object members ∧ Encodes members input := by
  refine ⟨_, rfl, ?_, ?_, ?_, ?_, ?_, ?_, ?_, ?_⟩
  · intro key hkey
    simp only [List.map_append, List.mem_append, fileScope] at hkey
    rcases hkey with (((((hkey | hkey) | hkey) | hkey) | hkey) | hkey) | hkey
    all_goals first
      | rw [key_member hkey]; decide
      | rw [key_optional hkey]; decide
  all_goals simp [lookup_append, lookup_member, lookup_optional, fileScope]

/-! ## The messages around it -/

theorem isWord_word (v w : String) : isWord (word v) w = decide (v = w) := by
  rw [isWord]
  simp only [Utf16.ofString_inj]

theorem parseReadOperation_searchNodes (input : JsValue) :
    parseReadOperation (.object (member "operation" (word "search_nodes") ++ member "input" input)) =
      (parseSearchNodesInput input).map .searchNodes := by
  have hexact : exact (.object (member "operation" (word "search_nodes") ++ member "input" input))
      (text "read operation") ["operation", "input"] =
        .ok (.object (member "operation" (word "search_nodes") ++ member "input" input)) := by
    refine exact_object ?_ ?_
    · show ∀ key ∈ [text "operation", text "input"], _
      decide
    · simp [lookup_append, lookup_member]
  have hname : (JsValue.object (member "operation" (word "search_nodes") ++
      member "input" input)).field "operation" = word "search_nodes" := by
    simp [lookup_append, lookup_member]
  have hinput : (JsValue.object (member "operation" (word "search_nodes") ++
      member "input" input)).field "input" = input := by
    simp [lookup_append, lookup_member]
  rw [parseReadOperation, hexact, Guard.ok_bind, hname, hinput, parseOperationInput]
  simp only [isWord_word]
  rfl

section

variable {requestId : JsString} {deadlineMs : ℕ} {fileKey : Option JsString} {operation : JsValue}
  {members : List Member}

theorem field_eq {key : String} {value : JsValue} (h : lookup (text key) members = some value) :
    (JsValue.object members).field key = value := by
  rw [JsValue.field, get_object, h, Option.getD_some]

theorem parseTarget_ok (hfileKey : ∀ s ∈ fileKey, IsIdentifier s) (label : JsString) :
    parseTarget (.object (optional "fileKey" (fileKey.map .string))) label = .ok fileKey := by
  have hexact : exact (.object (optional "fileKey" (fileKey.map .string))) label [] ["fileKey"] =
      .ok (.object (optional "fileKey" (fileKey.map .string))) := by
    refine exact_object (fun key hkey => ?_) nofun
    rw [key_optional hkey]
    decide
  rw [parseTarget, hexact, Guard.ok_bind]
  exact optionalIdentifier_ok (by rw [lookup_optional, if_pos rfl]) hfileKey

/-- The members of a request are among those of an object. -/
structure HasRequest (requestId : JsString) (deadlineMs : ℕ) (fileKey : Option JsString)
    (operation : JsValue) (members : List Member) : Prop where
  requestId : lookup (text "requestId") members = some (.string requestId)
  deadlineMs : lookup (text "deadlineMs") members = some (natural deadlineMs)
  target : lookup (text "target") members = some (.object (optional "fileKey" (fileKey.map .string)))
  operation : lookup (text "operation") members = some operation

/-- The rest of a request, whatever stands before it. -/
theorem HasRequest.parse (h : HasRequest requestId deadlineMs fileKey operation members)
    (hid : IsIdentifier requestId) (hdeadline : deadlineMs < 2 ^ 53) :
    parseRequest (.object members) fileKey =
      (parseReadOperation operation).map fun operation =>
        { requestId, deadlineMs, fileKey, operation } := by
  unfold parseRequest
  rw [field_eq h.requestId, field_eq h.deadlineMs, field_eq h.operation, identifier_ok hid,
    unsignedInteger_ok hdeadline, Guard.ok_bind, Guard.ok_bind]
  cases parseReadOperation operation <;> rfl

/-- **A request of the broker** is accepted where its operation is. -/
theorem parseBrokerToPlugin_request (hid : IsIdentifier requestId) (hdeadline : deadlineMs < 2 ^ 53)
    (hfileKey : ∀ s ∈ fileKey, IsIdentifier s) (operation : JsValue) :
    parseBrokerToPlugin (.object (member "type" (word "request") ++
        requestMembers requestId deadlineMs fileKey operation)) =
      (parseReadOperation operation).map fun operation =>
        .request { requestId, deadlineMs, fileKey, operation } := by
  generalize hmembers : member "type" (word "request") ++
    requestMembers requestId deadlineMs fileKey operation = members
  have htype : lookup (text "type") members = some (word "request") := by
    simp [← hmembers, requestMembers, lookup_append, lookup_member]
  have hrequest : HasRequest requestId deadlineMs fileKey operation members := by
    constructor <;> simp [← hmembers, requestMembers, lookup_append, lookup_member]
  have hexact : exact (.object members) (text "request")
      ["type", "requestId", "deadlineMs", "target", "operation"] = .ok (.object members) := by
    refine exact_object ?_ ?_
    · rw [← hmembers]
      show ∀ key ∈ [text "type", text "requestId", text "deadlineMs", text "target", text "operation"], _
      decide
    · simp [htype, hrequest.requestId, hrequest.deadlineMs, hrequest.target, hrequest.operation]
  unfold parseBrokerToPlugin
  simp only [record, Guard.ok_bind, field_eq htype, isWord_word, decide_true, if_true, hexact,
    field_eq hrequest.target, parseTarget_ok hfileKey, hrequest.parse hid hdeadline]
  cases parseReadOperation operation <;> rfl

/-- **A request of the user interface** is accepted where its operation is. -/
theorem parseControllerBoundMessage_request {controllerRequestId : JsString}
    (huuid : parseUuid (.string controllerRequestId) = .ok controllerRequestId)
    (hid : IsIdentifier requestId) (hdeadline : deadlineMs < 2 ^ 53)
    (hfileKey : ∀ s ∈ fileKey, IsIdentifier s) (operation : JsValue) :
    parseControllerBoundMessage (.object (member "type" (word "request") ++
        member "controllerRequestId" (.string controllerRequestId) ++
        requestMembers requestId deadlineMs fileKey operation)) =
      (parseReadOperation operation).map fun operation =>
        .request controllerRequestId { requestId, deadlineMs, fileKey, operation } := by
  generalize hmembers : member "type" (word "request") ++
    member "controllerRequestId" (.string controllerRequestId) ++
      requestMembers requestId deadlineMs fileKey operation = members
  have htype : lookup (text "type") members = some (word "request") := by
    simp [← hmembers, requestMembers, lookup_append, lookup_member]
  have hcontroller : lookup (text "controllerRequestId") members =
      some (.string controllerRequestId) := by
    simp [← hmembers, requestMembers, lookup_append, lookup_member]
  have hrequest : HasRequest requestId deadlineMs fileKey operation members := by
    constructor <;> simp [← hmembers, requestMembers, lookup_append, lookup_member]
  have hexact : exact (.object members) (text "controller request")
      ["type", "controllerRequestId", "requestId", "deadlineMs", "target", "operation"] =
        .ok (.object members) := by
    refine exact_object ?_ ?_
    · rw [← hmembers]
      show ∀ key ∈ [text "type", text "controllerRequestId", text "requestId", text "deadlineMs",
        text "target", text "operation"], _
      decide
    · simp [htype, hcontroller, hrequest.requestId, hrequest.deadlineMs, hrequest.target,
        hrequest.operation]
  unfold parseControllerBoundMessage
  simp only [record, Guard.ok_bind, field_eq htype, isWord_word, decide_true, if_true, hexact,
    field_eq hrequest.target, field_eq hcontroller, huuid, parseTarget_ok hfileKey,
    hrequest.parse hid hdeadline]
  cases parseReadOperation operation <;> rfl

end

/-! ## Identifiers of the user interface -/

theorem uuidUnit_foldCase (index code : ℕ) : uuidUnit index (foldCase code) = uuidUnit index code := by
  rw [Bool.eq_iff_iff]
  unfold uuidUnit foldCase isHexChar
  split_ifs <;> simp only [Bool.or_eq_true, Bool.and_eq_true, decide_eq_true_eq, beq_iff_eq] <;> omega

theorem foldCase_foldCase (code : ℕ) : foldCase (foldCase code) = foldCase code := by
  unfold foldCase
  split_ifs <;> omega

theorem lt_of_uuidUnit {index code : ℕ} (h : uuidUnit index code = true) : code < 0x80 := by
  unfold uuidUnit isHexChar at h
  split_ifs at h <;>
    simp only [Bool.or_eq_true, Bool.and_eq_true, decide_eq_true_eq, beq_iff_eq] at h <;> omega

theorem isUuid_iff {value : JsString} :
    isUuid value = true ↔
      value.length = 36 ∧ ∀ (index : ℕ) (h : index < value.length), uuidUnit index value[index] = true := by
  have hget : ∀ (index : ℕ) (h : index < value.length), value.getD index 0 = value[index] := by
    intro index h
    rw [List.getD_eq_getElem?_getD, List.getElem?_eq_getElem h, Option.getD_some]
  rw [isUuid, Bool.and_eq_true, decide_eq_true_eq, List.all_eq_true]
  constructor
  · rintro ⟨hlength, hunits⟩
    refine ⟨hlength, fun index h => ?_⟩
    rw [← hget index h]
    exact hunits index (List.mem_range.2 (hlength ▸ h))
  · rintro ⟨hlength, hunits⟩
    refine ⟨hlength, fun index hindex => ?_⟩
    have h : index < value.length := hlength ▸ List.mem_range.1 hindex
    rw [hget index h]
    exact hunits index h

/-- An identifier that has been parsed parses to itself. -/
theorem parseUuid_idem {uuid controllerRequestId : JsString}
    (h : parseUuid (.string uuid) = .ok controllerRequestId) :
    parseUuid (.string controllerRequestId) = .ok controllerRequestId := by
  obtain ⟨found, -, h⟩ := Guard.bind_eq_ok.1 h
  split_ifs at h with huuid
  · obtain rfl := Except.ok.inj h
    obtain ⟨hlength, hunits⟩ := isUuid_iff.1 huuid
    have hmap : isUuid (found.map foldCase) = true := by
      refine isUuid_iff.2 ⟨by rw [List.length_map, hlength], fun index hindex => ?_⟩
      rw [List.getElem_map, uuidUnit_foldCase]
      exact hunits index _
    have hfold : (found.map foldCase).map foldCase = found.map foldCase := by
      rw [List.map_map]
      exact List.map_congr_left fun code _ => foldCase_foldCase code
    have hascii : ∀ u ∈ found.map foldCase, u < 0x80 := by
      intro u hu
      obtain ⟨index, hindex, rfl⟩ := List.mem_iff_getElem.1 hu
      exact lt_of_uuidUnit ((isUuid_iff.1 hmap).2 index hindex)
    have hbytes : utf8ByteLength (found.map foldCase) ≤ 36 := by
      rw [utf8ByteLength_ascii hascii, List.length_map, hlength]
    have hne : found.map foldCase ≠ [] := fun hnil => by
      rw [List.map_eq_nil_iff.1 hnil] at hlength
      cases hlength
    rw [parseUuid, boundedString_ok (fun _ => hne) hbytes, Guard.ok_bind, if_pos hmap, hfold]
  · cases h

end FigmaDevMcp.Plugin

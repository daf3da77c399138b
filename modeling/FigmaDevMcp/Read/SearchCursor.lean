import FigmaDevMcp.Read.ByteBudget
import FigmaDevMcp.Read.SearchPages

set_option autoImplicit false

/-!
# How long a cursor is

A cursor has the whole query in it, and the path to its node. Nothing bounds it but what the
input and the document are made of.

* `cursorBytes`, `utf8ByteLength_cursorFor`: the bytes that a cursor encodes;
* `FillsPage`, `pageEnd_iff`: the item at which a page is full, from the tree alone;
* `nextCursor_fits_iff`: when the cursors of a search are within the limit of its input.
-/

namespace FigmaDevMcp

open JsValue PreorderWalk

/-! ## The text of a cursor -/

theorem codePoints_cons_of_not_high {u v : ℕ} {rest : List ℕ} (h : Utf16.isHighSurrogate u = false) :
    Utf16.codePoints (u :: v :: rest) = u :: Utf16.codePoints (v :: rest) := by
  rw [Utf16.codePoints, h]
  rfl

/-- The plugin counts the bytes of a string from its code units. -/
theorem utf8ByteLength_eq {s : JsString} (h : Utf16.Units s) :
    utf8ByteLength s = ((Utf16.codePoints s).map Utf16.utf8Size).sum := by
  induction s using utf8ByteLength.induct with
  | case1 code next rest hlow ih =>
      have hhigh : Utf16.isHighSurrogate code = false := by
        simp only [Utf16.isHighSurrogate, Bool.and_eq_false_iff, decide_eq_false_iff_not]
        omega
      rw [utf8ByteLength, if_pos hlow, ih fun u hu => h u (List.mem_cons_of_mem _ hu),
        codePoints_cons_of_not_high hhigh, List.map_cons, List.sum_cons, Utf16.utf8Size, if_pos hlow]
  | case2 code next rest hlow hmiddle ih =>
      have hhigh : Utf16.isHighSurrogate code = false := by
        simp only [Utf16.isHighSurrogate, Bool.and_eq_false_iff, decide_eq_false_iff_not]
        omega
      rw [utf8ByteLength, if_neg hlow, if_pos hmiddle, ih fun u hu => h u (List.mem_cons_of_mem _ hu),
        codePoints_cons_of_not_high hhigh, List.map_cons, List.sum_cons, Utf16.utf8Size, if_neg hlow,
        if_pos hmiddle]
  | case3 code next rest hlow hmiddle hpair ih =>
      have hbig : 0x10000 ≤ Utf16.pairValue code next := Utf16.le_pairValue code next
      rw [utf8ByteLength, if_neg hlow, if_neg hmiddle, if_pos hpair, ih fun u hu => h u (by simp [hu]),
        Utf16.codePoints, if_pos hpair, List.map_cons, List.sum_cons, Utf16.utf8Size, if_neg (by omega),
        if_neg (by omega), if_neg (by omega)]
  | case4 code next rest hlow hmiddle hpair ih =>
      have hunit := h code List.mem_cons_self
      rw [utf8ByteLength, if_neg hlow, if_neg hmiddle, if_neg hpair,
        ih fun u hu => h u (List.mem_cons_of_mem _ hu), Utf16.codePoints, if_neg hpair, List.map_cons,
        List.sum_cons, Utf16.utf8Size, if_neg hlow, if_neg hmiddle, if_pos (by omega)]
  | case5 code hlow =>
      simp [utf8ByteLength, Utf16.codePoints, Utf16.utf8Size, hlow]
  | case6 code hlow hmiddle =>
      simp [utf8ByteLength, Utf16.codePoints, Utf16.utf8Size, hlow, hmiddle]
  | case7 code hlow hmiddle =>
      have hunit := h code List.mem_cons_self
      have htop : code ≤ 0xffff := by omega
      simp [utf8ByteLength, Utf16.codePoints, Utf16.utf8Size, hlow, hmiddle, htop]
  | case8 => rfl

/-- The bytes of strings in a row. -/
theorem utf8ByteLength_append {s t : JsString} (hs : Utf16.WellFormed s) (ht : Utf16.Units t) :
    utf8ByteLength (s ++ t) = utf8ByteLength s + utf8ByteLength t := by
  rw [utf8ByteLength_eq (List.forall_mem_append.2 ⟨hs.units, ht⟩), utf8ByteLength_eq hs.units,
    utf8ByteLength_eq ht, (Utf16.paired_append hs.paired).1, List.map_append, List.sum_append]

theorem utf8ByteLength_encodeBase64Url {value cursor : JsString} (hvalue : Utf16.Units value)
    (h : encodeBase64Url value = some cursor) :
    utf8ByteLength cursor = (4 * utf8ByteLength value + 2) / 3 := by
  obtain ⟨bytes, hbytes, rfl⟩ := Option.map_eq_some_iff.1 h
  rw [utf8ByteLength_ascii (Base64Url.encode_ascii _), Base64Url.length_encode, List.length_map,
    Utf16.length_utf8 hbytes, utf8ByteLength_eq hvalue]

/-! ## Texts within texts -/

/-- The bytes of a string in a text of JSON, without its quotes. -/
def quotedBytes (s : JsString) : ℕ := utf8ByteLength (quoteBody s)

/-- A measure of strings that adds up over strings in a row. -/
structure Additive (f : JsString → ℕ) : Prop where
  nil : f [] = 0
  append : ∀ {s t : JsString}, Utf16.WellFormed s → Utf16.Units t → f (s ++ t) = f s + f t

theorem Additive.ascii {f : JsString → ℕ} (hf : Additive f) {s t : JsString} (hs : ∀ u ∈ s, u < 0x80)
    (ht : Utf16.Units t) : f (s ++ t) = f s + f t := hf.append (Utf16.wellFormed_ascii hs) ht

theorem additive_utf8ByteLength : Additive utf8ByteLength := ⟨rfl, utf8ByteLength_append⟩

theorem additive_quotedBytes : Additive quotedBytes where
  nil := rfl
  append hs ht := by
    rw [quotedBytes, quoteBody_append hs.paired, utf8ByteLength_append (wellFormed_quoteBody hs.units)
      (wellFormed_quoteBody ht).units]
    rfl

theorem wellFormed_commas {pieces : List JsString} (h : ∀ piece ∈ pieces, Utf16.WellFormed piece) :
    Utf16.WellFormed (commas pieces) := by
  induction pieces with
  | nil => exact ⟨nofun, trivial⟩
  | cons piece pieces ih =>
      have ⟨hpiece, hrest⟩ := List.forall_mem_cons.1 h
      cases pieces with
      | nil => rwa [commas_singleton]
      | cons next pieces => exact hpiece.join (by decide) (ih hrest)

theorem Additive.commas {f : JsString → ℕ} (hf : Additive f) (hcomma : f [0x2c] = 1)
    {pieces : List JsString} (h : ∀ piece ∈ pieces, Utf16.WellFormed piece) :
    f (commas pieces) = (pieces.map f).sum + (pieces.length - 1) := by
  induction pieces with
  | nil => exact hf.nil
  | cons piece pieces ih =>
      have ⟨hpiece, hrest⟩ := List.forall_mem_cons.1 h
      cases pieces with
      | nil => rw [commas_singleton]; simp
      | cons next pieces =>
          have hunits := (wellFormed_commas hrest).units
          rw [commas_cons_cons, hf.append hpiece (List.forall_mem_cons.2 ⟨by decide, hunits⟩),
            ← List.singleton_append, hf.ascii (by decide) hunits, hcomma, ih hrest]
          simp only [List.map_cons, List.sum_cons, List.length_cons]
          omega

theorem Additive.flatten {f : JsString → ℕ} (hf : Additive f) {pieces : List JsString}
    (h : ∀ piece ∈ pieces, Utf16.WellFormed piece) : f pieces.flatten = (pieces.map f).sum := by
  induction pieces with
  | nil => exact hf.nil
  | cons piece pieces ih =>
      have ⟨hpiece, hrest⟩ := List.forall_mem_cons.1 h
      have hunits : Utf16.Units pieces.flatten := fun u hu => by
        obtain ⟨next, hnext, hu⟩ := List.mem_flatten.1 hu
        exact (hrest next hnext).units u hu
      rw [List.flatten_cons, hf.append hpiece hunits, ih hrest]
      rfl

/-- The quotes of a string count for themselves. -/
theorem Additive.quote {f : JsString → ℕ} (hf : Additive f) {s : JsString} (hs : Utf16.Units s) :
    f (quote s) = f [0x22] + f (quoteBody s) + f [0x22] := by
  have hmark : Utf16.WellFormed [0x22] := Utf16.wellFormed_ascii (by decide)
  have hpieces : JsValue.quote s = [[0x22], quoteBody s, [0x22]].flatten := by simp [JsValue.quote]
  rw [hpieces, hf.flatten fun piece hpiece => ?_]
  · simp [Nat.add_assoc]
  · simp only [List.mem_cons, List.not_mem_nil, or_false] at hpiece
    rcases hpiece with rfl | rfl | rfl
    · exact hmark
    · exact wellFormed_quoteBody hs
    · exact hmark

/-- The bytes of a path, with its commas. -/
def pathBytes (path : List ℕ) : ℕ :=
  (path.map fun i => (NumberText.decimal i).length).sum + (path.length - 1)

theorem decimal_ascii {n u : ℕ} (h : u ∈ NumberText.decimal n) : u < 0x80 := by
  have := NumberText.mem_decimal h
  omega

theorem utf8ByteLength_path (path : List ℕ) :
    utf8ByteLength (commas (path.map NumberText.decimal)) = pathBytes path := by
  rw [additive_utf8ByteLength.commas rfl, List.map_map, List.length_map, pathBytes]
  · congr 2
    exact List.map_congr_left fun i _ => utf8ByteLength_ascii fun u hu => decimal_ascii hu
  · intro piece hpiece
    obtain ⟨i, -, rfl⟩ := List.mem_map.1 hpiece
    exact Utf16.wellFormed_ascii fun u hu => decimal_ascii hu

theorem wellFormed_path (path : List ℕ) : Utf16.WellFormed (commas (path.map NumberText.decimal)) :=
  wellFormed_commas fun piece hpiece => by
    obtain ⟨i, -, rfl⟩ := List.mem_map.1 hpiece
    exact Utf16.wellFormed_ascii fun u hu => decimal_ascii hu

theorem stringifyItems_natural {path : List ℕ} (h : ∀ i ∈ path, i < 2 ^ 53) :
    stringifyItems (path.map natural) = path.map NumberText.decimal := by
  induction path with
  | nil => rfl
  | cons i path ih =>
      have ⟨hi, hpath⟩ := List.forall_mem_cons.1 h
      rw [List.map_cons, stringifyItems, ih hpath, natural, stringify, NumberText.toText_natCast hi]
      rfl

theorem stringifyItems_string (types : List JsString) :
    stringifyItems (types.map .string) = types.map quote := by
  induction types with
  | nil => rfl
  | cons type types ih =>
      rw [List.map_cons, stringifyItems, ih]
      rfl

/-- The kind and the id of a scope. -/
def SearchScope.word : SearchScope → String
  | .pageId _ => "page"
  | .nodeId _ => "node"

/-- The id of a scope. -/
def SearchScope.id : SearchScope → JsString
  | .pageId id | .nodeId id => id

/-- The pieces of the text of a cursor. -/
theorem stringify_cursorPayload {ρ : Type} (host : Host ρ) {key : JsString} {item : WalkItem ρ}
    (hpath : ∀ i ∈ item.path, i < 2 ^ 53) :
    stringify (host.cursorPayload key item true) =
      some [0x7b :: text "\"v\":1,\"key\":", quote key, text ",\"path\":[",
        commas (item.path.map NumberText.decimal), text "],\"id\":", quote (host.id item.node),
        text ",\"after\":true", [0x7d]].flatten := by
  rw [Host.cursorPayload]
  have hone : NumberText.toText ((1 : ℕ) : ℚ) = [0x31] := NumberText.toText_natCast (by decide)
  have hkey : text "\"v\":1,\"key\":" =
      quote (text "v") ++ 0x3a :: 0x31 :: 0x2c :: quote (text "key") ++ [0x3a] := by decide
  have hpathName : text ",\"path\":[" = 0x2c :: quote (text "path") ++ [0x3a, 0x5b] := by decide
  have hid : text "],\"id\":" = 0x5d :: 0x2c :: quote (text "id") ++ [0x3a] := by decide
  have hafter : text ",\"after\":true" =
      0x2c :: quote (text "after") ++ 0x3a :: Utf16.ofString "true" := by decide
  simp only [member, List.cons_append, List.nil_append, stringify, stringifyMembers, commas_cons_cons,
    commas_singleton, stringifyItems_natural hpath, natural, hone, hkey, hpathName, hid, hafter,
    List.append_assoc, if_true, List.flatten_cons, List.flatten_nil, List.append_nil]

/-- The pieces of the text of a key. -/
theorem searchKey_eq (input : SearchNodesInput) (predicate : SearchPredicate) :
    searchKey input predicate =
      [0x7b :: text "\"scope\":[", quote (text input.scope.word), [0x2c], quote input.scope.id,
        text "],\"query\":", (predicate.query.map quote).getD (text "null"), text ",\"types\":[",
        commas (((predicate.types.getD []).mergeSort fun a b => decide (a ≤ b)).map quote),
        text "],\"match\":", quote (text predicate.matchMode.word), [0x7d]].flatten := by
  have hscope : text "\"scope\":[" = quote (text "scope") ++ [0x3a, 0x5b] := by decide
  have hquery : text "],\"query\":" = 0x5d :: 0x2c :: quote (text "query") ++ [0x3a] := by decide
  have htypes : text ",\"types\":[" = 0x2c :: quote (text "types") ++ [0x3a, 0x5b] := by decide
  have hmatch : text "],\"match\":" = 0x5d :: 0x2c :: quote (text "match") ++ [0x3a] := by decide
  unfold searchKey
  cases input.scope <;> cases predicate.query <;>
    simp only [member, List.cons_append, List.nil_append, stringify, stringifyMembers,
      stringifyItems, commas_cons_cons, commas_singleton, stringifyItems_string, hscope, hquery,
      htypes, hmatch, List.append_assoc, Option.map_some, Option.map_none, Option.getD_some,
      Option.getD_none, SearchScope.word, SearchScope.id, text, List.flatten_cons, List.flatten_nil,
      List.append_nil]

/-! ## The bytes of a cursor -/

/-- The bytes of a string in a text of JSON within a text of JSON. -/
def twiceQuotedBytes (s : JsString) : ℕ := quotedBytes (quoteBody s)

/-- The bytes of a key in its cursor. -/
def searchKeyBytes (input : SearchNodesInput) (predicate : SearchPredicate) : ℕ :=
  70 + twiceQuotedBytes input.scope.id + ((predicate.query.map twiceQuotedBytes).getD 0) +
    (((predicate.types.getD []).map fun type => 4 + twiceQuotedBytes type).sum +
      ((predicate.types.getD []).length - 1)) + (text predicate.matchMode.word).length

/-- The bytes that a cursor encodes: those of its key, of its path and of its id. -/
def Host.cursorBytes {ρ : Type} (host : Host ρ) (input : SearchNodesInput)
    (predicate : SearchPredicate) (item : WalkItem ρ) : ℕ :=
  47 + searchKeyBytes input predicate + pathBytes item.path + quotedBytes (host.id item.node)

theorem quotedBytes_searchKey {input : SearchNodesInput} {predicate : SearchPredicate}
    (hinput : input.Units) (h : compilePredicate input = .ok predicate) :
    quotedBytes (searchKey input predicate) = searchKeyBytes input predicate := by
  have ⟨hquery, htypes⟩ := compilePredicate_units hinput h
  have hscope : Utf16.Units input.scope.id := by
    have := hinput.scope
    cases hcase : input.scope <;> rw [hcase] at this <;> exact this
  have hformed : ∀ {s : JsString}, Utf16.Units s → Utf16.WellFormed (quote s) := wellFormed_quote
  have hquoted : ∀ {s : JsString}, Utf16.Units s → quotedBytes (quote s) = 4 + twiceQuotedBytes s := by
    intro s hs
    rw [additive_quotedBytes.quote hs]
    show 2 + twiceQuotedBytes s + 2 = _
    omega
  have hall : ∀ s ∈ ((predicate.types.getD []).mergeSort fun a b => decide (a ≤ b)).map quote,
      Utf16.WellFormed s := by
    intro s hs
    obtain ⟨type, htype, rfl⟩ := List.mem_map.1 hs
    exact hformed (htypes type (List.mem_mergeSort.1 htype))
  have hwords : quotedBytes (commas (((predicate.types.getD []).mergeSort fun a b => decide (a ≤ b)).map
      quote)) = ((predicate.types.getD []).map fun type => 4 + twiceQuotedBytes type).sum +
        ((predicate.types.getD []).length - 1) := by
    rw [additive_quotedBytes.commas rfl hall, List.map_map, List.length_map, List.length_mergeSort,
      ((List.mergeSort_perm (predicate.types.getD []) _).map _).sum_eq]
    congr 2
    exact List.map_congr_left fun type htype => hquoted (htypes type htype)
  have hqueryBytes : quotedBytes ((predicate.query.map quote).getD (text "null")) =
      4 + (predicate.query.map twiceQuotedBytes).getD 0 := by
    cases hcase : predicate.query with
    | none => rfl
    | some query => exact hquoted (hquery query hcase)
  have hqueryFormed : Utf16.WellFormed ((predicate.query.map quote).getD (text "null")) := by
    cases hcase : predicate.query with
    | none => exact Utf16.wellFormed_ascii (by decide)
    | some query => exact hformed (hquery query hcase)
  have hword : quotedBytes (quote (text input.scope.word)) = 8 := by
    have hpage : quotedBytes (quote (text "page")) = 8 := by decide
    have hnode : quotedBytes (quote (text "node")) = 8 := by decide
    cases input.scope
    · exact hpage
    · exact hnode
  have hmode : quotedBytes (quote (text predicate.matchMode.word)) =
      4 + (text predicate.matchMode.word).length := by
    cases predicate.matchMode <;> rfl
  rw [searchKey_eq, additive_quotedBytes.flatten ?_]
  · have hopen : quotedBytes (0x7b :: text "\"scope\":[") = 12 := by decide
    have hcomma : quotedBytes [0x2c] = 1 := by decide
    have hqueryName : quotedBytes (text "],\"query\":") = 12 := by decide
    have htypesName : quotedBytes (text ",\"types\":[") = 12 := by decide
    have hmatchName : quotedBytes (text "],\"match\":") = 12 := by decide
    have hclose : quotedBytes [0x7d] = 1 := by decide
    simp only [List.map_cons, List.map_nil, List.sum_cons, List.sum_nil, hwords, hqueryBytes, hword,
      hmode, hquoted hscope, hopen, hcomma, hqueryName, htypesName, hmatchName, hclose]
    unfold searchKeyBytes
    omega
  · have hascii : ∀ s : JsString, (∀ u ∈ s, u < 0x80) → Utf16.WellFormed s := fun s =>
      Utf16.wellFormed_ascii
    simp only [List.forall_mem_cons]
    exact ⟨hascii _ (by decide), hformed (Utf16.units_ofString _), hascii _ (by decide), hformed hscope,
      hascii _ (by decide), hqueryFormed, hascii _ (by decide), wellFormed_commas hall,
      hascii _ (by decide), hformed (Utf16.units_ofString _), hascii _ (by decide), nofun⟩

/-- **The length of a cursor.** -/
theorem utf8ByteLength_cursorFor {ρ : Type} (host : Host ρ) {input : SearchNodesInput}
    {predicate : SearchPredicate} {item : WalkItem ρ} {cursor : JsString} (hinput : input.Units)
    (hpredicate : compilePredicate input = .ok predicate) (hid : Utf16.Units (host.id item.node))
    (hpath : ∀ i ∈ item.path, i < 2 ^ 53)
    (h : host.cursorFor (searchKey input predicate) item true = some cursor) :
    utf8ByteLength cursor = (4 * host.cursorBytes input predicate item + 2) / 3 := by
  have hkey := units_searchKey hinput hpredicate
  have hascii : ∀ s : JsString, (∀ u ∈ s, u < 0x80) → Utf16.WellFormed s := fun s =>
    Utf16.wellFormed_ascii
  have hpieces : ∀ piece ∈ [0x7b :: text "\"v\":1,\"key\":", quote (searchKey input predicate),
      text ",\"path\":[", commas (item.path.map NumberText.decimal), text "],\"id\":",
      quote (host.id item.node), text ",\"after\":true", [0x7d]], Utf16.WellFormed piece := by
    simp only [List.forall_mem_cons]
    exact ⟨hascii _ (by decide), wellFormed_quote hkey, hascii _ (by decide), wellFormed_path _,
      hascii _ (by decide), wellFormed_quote hid, hascii _ (by decide), hascii _ (by decide), nofun⟩
  have hbytes := additive_utf8ByteLength.flatten hpieces
  rw [Host.cursorFor, stringify_cursorPayload host hpath, Option.bind_some] at h
  rw [utf8ByteLength_encodeBase64Url (fun u hu => ?_) h, hbytes]
  · have hquote : ∀ {s : JsString}, Utf16.Units s → utf8ByteLength (quote s) = 2 + quotedBytes s := by
      intro s hs
      rw [additive_utf8ByteLength.quote hs]
      show 1 + quotedBytes s + 1 = _
      omega
    have hopen : utf8ByteLength (0x7b :: text "\"v\":1,\"key\":") = 13 := by decide
    have hpathName : utf8ByteLength (text ",\"path\":[") = 9 := by decide
    have hidName : utf8ByteLength (text "],\"id\":") = 7 := by decide
    have hafter : utf8ByteLength (text ",\"after\":true") = 13 := by decide
    have hclose : utf8ByteLength [0x7d] = 1 := by decide
    simp only [List.map_cons, List.map_nil, List.sum_cons, List.sum_nil, hquote hkey, hquote hid,
      quotedBytes_searchKey hinput hpredicate, utf8ByteLength_path, hopen, hpathName, hidName, hafter,
      hclose]
    unfold Host.cursorBytes
    omega
  · obtain ⟨piece, hpiece, hu⟩ := List.mem_flatten.1 hu
    exact (hpieces piece hpiece).units u hu

namespace Host

variable {ρ : Type} (host : Host ρ) (cm : CaseMapping) (predicate : SearchPredicate)

/-! ## Where a page is full -/

/-- The matches among items. -/
def matching (items : List (WalkItem ρ)) : List (WalkItem ρ) :=
  items.filter fun item => host.matchReasons cm predicate item.node ≠ []

theorem matching_cons_of_match {item : WalkItem ρ} (h : host.matchReasons cm predicate item.node ≠ [])
    (items : List (WalkItem ρ)) :
    host.matching cm predicate (item :: items) = item :: host.matching cm predicate items := by
  rw [matching, List.filter_cons_of_pos (by simpa using h)]
  rfl

theorem matching_cons_of_not_match {item : WalkItem ρ}
    (h : host.matchReasons cm predicate item.node = []) (items : List (WalkItem ρ)) :
    host.matching cm predicate (item :: items) = host.matching cm predicate items := by
  rw [matching, List.filter_cons_of_neg (by simpa using h)]
  rfl

variable [DecidableEq ρ]

/-- The bytes of a match. -/
def matchBytes (includeChildren : Bool) (item : WalkItem ρ) : ℕ :=
  byteLength (host.nodeMatch cm predicate includeChildren item.node).toJs

/-- The page is full at an item after others: it is the match that reaches the limit of the page,
no limit of the walk is reached before it, and all matches up to it are within the bytes. -/
structure FillsPage (limits : SerializerLimits) (returnedLimit left encodedBytes found : ℕ)
    (before : List (WalkItem ρ)) (item : WalkItem ρ) : Prop where
  reasons : host.matchReasons cm predicate item.node ≠ []
  visited : before.length < left
  reached : found + (host.matching cm predicate before).length + 1 = max returnedLimit (found + 1)
  returned : found + (host.matching cm predicate before).length + 1 < limits.returnedNodes
  bytes : encodedBytes + ((host.matching cm predicate before).map
    (host.matchBytes cm predicate true)).sum + host.matchBytes cm predicate false item ≤
      limits.encodedBytes

variable {host cm predicate}

/-- The first of the items to come is where the page is full, or a later one is. -/
theorem exists_split_cons {α : Type} {P : List α → Prop} {x y : α} {l : List α} :
    (∃ pre post, x :: l = pre ++ y :: post ∧ P pre) ↔
      (x = y ∧ P []) ∨ ∃ pre post, l = pre ++ y :: post ∧ P (x :: pre) := by
  constructor
  · rintro ⟨pre, post, hsplit, hP⟩
    cases pre with
    | nil => exact Or.inl ⟨(List.cons.inj hsplit).1, hP⟩
    | cons z pre =>
        obtain ⟨rfl, hrest⟩ := List.cons.inj hsplit
        exact Or.inr ⟨pre, post, hrest, hP⟩
  · rintro (⟨rfl, hP⟩ | ⟨pre, post, rfl, hP⟩)
    · exact ⟨[], l, rfl, hP⟩
    · exact ⟨x :: pre, post, rfl, hP⟩

section

variable {limits : SerializerLimits} {returnedLimit left encodedBytes found : ℕ}
  {before : List (WalkItem ρ)} {first item : WalkItem ρ}

theorem fillsPage_nil (hreasons : host.matchReasons cm predicate item.node ≠ []) :
    host.FillsPage cm predicate limits returnedLimit (left + 1) encodedBytes found [] item ↔
      returnedLimit ≤ found + 1 ∧ found + 1 < limits.returnedNodes ∧
        encodedBytes + host.matchBytes cm predicate false item ≤ limits.encodedBytes := by
  constructor
  · intro h
    have hreached := h.reached
    have hreturned := h.returned
    have hbytes := h.bytes
    simp only [matching, List.filter_nil, List.length_nil, List.map_nil, List.sum_nil] at hreached hreturned hbytes
    omega
  · rintro ⟨hfull, hreturned, hbytes⟩
    refine ⟨hreasons, by simp, ?_, hreturned, hbytes⟩
    simp only [matching, List.filter_nil, List.length_nil]
    omega

theorem fillsPage_head (hfirst : host.matchReasons cm predicate first.node ≠ []) :
    (first = item ∧ host.FillsPage cm predicate limits returnedLimit (left + 1) encodedBytes found []
        item) ↔
      first = item ∧ returnedLimit ≤ found + 1 ∧ found + 1 < limits.returnedNodes ∧
        encodedBytes + host.matchBytes cm predicate false first ≤ limits.encodedBytes := by
  constructor
  · rintro ⟨rfl, hfills⟩
    exact ⟨rfl, (fillsPage_nil hfirst).1 hfills⟩
  · rintro ⟨rfl, hfills⟩
    exact ⟨rfl, (fillsPage_nil hfirst).2 hfills⟩

theorem fillsPage_cons_of_not_match (hfirst : host.matchReasons cm predicate first.node = []) :
    host.FillsPage cm predicate limits returnedLimit (left + 1) encodedBytes found (first :: before) item ↔
      host.FillsPage cm predicate limits returnedLimit left encodedBytes found before item := by
  have hmatching := host.matching_cons_of_not_match cm predicate hfirst before
  constructor
  · rintro ⟨hreasons, hvisited, hreached, hreturned, hbytes⟩
    rw [hmatching] at hreached hreturned hbytes
    exact ⟨hreasons, Nat.lt_of_succ_lt_succ hvisited, hreached, hreturned, hbytes⟩
  · rintro ⟨hreasons, hvisited, hreached, hreturned, hbytes⟩
    rw [← hmatching] at hreached hreturned hbytes
    exact ⟨hreasons, Nat.succ_lt_succ hvisited, hreached, hreturned, hbytes⟩

theorem fillsPage_cons_of_match (hfirst : host.matchReasons cm predicate first.node ≠ []) :
    host.FillsPage cm predicate limits returnedLimit (left + 1) encodedBytes found (first :: before) item ↔
      found + 1 < returnedLimit ∧
        host.FillsPage cm predicate limits returnedLimit left
          (encodedBytes + host.matchBytes cm predicate true first) (found + 1) before item := by
  have hmatching := host.matching_cons_of_match cm predicate hfirst before
  constructor
  · rintro ⟨hreasons, hvisited, hreached, hreturned, hbytes⟩
    rw [hmatching] at hreached hreturned hbytes
    simp only [List.length_cons, List.map_cons, List.sum_cons] at hvisited hreached hreturned hbytes
    exact ⟨by omega, hreasons, by omega, by omega, by omega, by omega⟩
  · rintro ⟨hroom, hreasons, hvisited, hreached, hreturned, hbytes⟩
    have hlength : (host.matching cm predicate (first :: before)).length =
        (host.matching cm predicate before).length + 1 := by rw [hmatching, List.length_cons]
    refine ⟨hreasons, Nat.succ_lt_succ hvisited, by omega, by omega, ?_⟩
    rw [hmatching, List.map_cons, List.sum_cons]
    omega

end

/-- **Where a page is full**, from what the walk has to come. -/
theorem pageEnd_iff {height : ρ → ℕ} (htree : host.IsTree height) {limits : SerializerLimits}
    {returnedLimit left visitedNodes encodedBytes : ℕ} {stack : List (WalkItem ρ)}
    {found : List NodeMatch} {item : WalkItem ρ} :
    (host.searchFrom cm predicate limits returnedLimit left stack visitedNodes encodedBytes
        found).pageEnd = some item ↔
      ∃ before after, host.aheadOf height stack = before ++ item :: after ∧
        host.FillsPage cm predicate limits returnedLimit left encodedBytes found.length before item := by
  induction left generalizing stack visitedNodes encodedBytes found with
  | zero =>
      have hnone : (host.searchFrom cm predicate limits returnedLimit 0 stack visitedNodes encodedBytes
          found).pageEnd = none := by
        cases stack <;> rw [searchFrom]
      rw [hnone]
      constructor
      · intro h
        cases h
      · rintro ⟨before, -, -, hfills⟩
        exact absurd hfills.visited (Nat.not_lt_zero _)
  | succ left ih =>
      cases stack with
      | nil =>
          rw [searchFrom]
          constructor
          · intro h
            cases h
          · rintro ⟨before, after, hahead, -⟩
            exact absurd hahead (by simp [aheadOf, ahead])
      | cons first stack =>
          rw [aheadOf_cons host htree, exists_split_cons, searchFrom]
          by_cases hfirst : host.matchReasons cm predicate first.node = []
          · rw [if_pos hfirst, ih]
            simp only [fillsPage_cons_of_not_match hfirst]
            refine ⟨Or.inr, fun h => h.resolve_left ?_⟩
            rintro ⟨rfl, hfills⟩
            exact hfills.reasons hfirst
          · rw [if_neg hfirst, fillsPage_head hfirst]
            simp only [fillsPage_cons_of_match hfirst]
            generalize hmatch : host.nodeMatch cm predicate (found.length + 1 < returnedLimit)
              first.node = m
            by_cases hroom : found.length + 1 < returnedLimit
            · have hbytes : byteLength m.toJs = host.matchBytes cm predicate true first := by
                rw [← hmatch, decide_eq_true hroom, matchBytes]
              rw [hbytes]
              have hhere : ¬ (first = item ∧ returnedLimit ≤ found.length + 1 ∧
                  found.length + 1 < limits.returnedNodes ∧
                    encodedBytes + host.matchBytes cm predicate false first ≤ limits.encodedBytes) :=
                fun h => absurd hroom (by omega)
              rw [or_iff_right hhere, if_neg (by omega : ¬ returnedLimit ≤ found.length + 1)]
              split_ifs with hover
              · constructor
                · intro h
                  cases h
                · rintro ⟨before, after, -, -, hfills⟩
                  have := hfills.bytes
                  omega
              · rw [ih, List.length_append, List.length_singleton]
                simp only [hroom, true_and]
            · have hbytes : byteLength m.toJs = host.matchBytes cm predicate false first := by
                rw [← hmatch, decide_eq_false hroom, matchBytes]
              rw [hbytes]
              have hlater : ¬ ∃ before after, host.aheadOf height (host.pushChildren stack first) =
                  before ++ item :: after ∧ found.length + 1 < returnedLimit ∧
                    host.FillsPage cm predicate limits returnedLimit left
                      (encodedBytes + host.matchBytes cm predicate true first) (found.length + 1) before
                      item := by
                rintro ⟨-, -, -, h, -⟩
                exact hroom h
              rw [or_iff_left hlater, if_pos (by omega : returnedLimit ≤ found.length + 1)]
              split_ifs with hover hreturned
              · constructor
                · intro h
                  cases h
                · intro h
                  omega
              · constructor
                · intro h
                  cases h
                · intro h
                  omega
              · constructor
                · intro h
                  exact ⟨Option.some.inj h, by omega, by omega, by omega⟩
                · intro h
                  exact congrArg some h.1

end Host

namespace Figma

variable {ρ : Type} [DecidableEq ρ] (figma : Figma ρ) (cm : CaseMapping)

/-! ## Cursors that are too long -/

/-- An item at which the page of a search is full. -/
inductive PageEnds (height : ρ → ℕ) (input : SearchNodesInput) :
    SearchPredicate → WalkItem ρ → Prop
  | intro {predicate : SearchPredicate} {root : ρ} {cursor : Option SearchCursorPayload}
      {stack before after : List (WalkItem ρ)} {item : WalkItem ρ}
      (hpredicate : compilePredicate input = .ok predicate)
      (hroot : figma.resolveSearchRoot input.scope = .ok root)
      (hcursor : readCursor input.cursor (searchKey input predicate) = .ok cursor)
      (hstack : figma.initialStack root cursor = .ok stack)
      (hahead : figma.aheadOf height stack = before ++ item :: after)
      (hfills : figma.FillsPage cm predicate {} (min input.limit maxReturnedNodes) maxVisitedNodes 0 0
        before item) : PageEnds height input predicate item

variable {figma cm}

theorem PageEnds.compiles {height : ρ → ℕ} {input : SearchNodesInput} {predicate : SearchPredicate}
    {item : WalkItem ρ} (h : figma.PageEnds cm height input predicate item) :
    compilePredicate input = .ok predicate := by
  cases h
  assumption

theorem PageEnds.paths {height : ρ → ℕ} {input : SearchNodesInput} {predicate : SearchPredicate}
    {item : WalkItem ρ} (h : figma.PageEnds cm height input predicate item) :
    ∀ i ∈ item.path, i < 2 ^ 53 := by
  obtain ⟨hpredicate, hroot, hcursor, hstack, hahead, hfills⟩ := h
  have hinitial := figma.forall_initialStack figma.paths_childItems nofun hstack
  have hfollow : ∀ item : WalkItem ρ, (∀ i ∈ item.path, i < 2 ^ 53) →
      ∀ child ∈ figma.followItems item, ∀ i ∈ child.path, i < 2 ^ 53 := fun item hitem =>
    figma.forall_pushChildren figma.paths_childItems hitem nofun
  exact forall_ahead hfollow hinitial item
    (show item ∈ figma.aheadOf height _ from hahead ▸ List.mem_append_right _ List.mem_cons_self)

theorem PageEnds.exists_cursor {height : ρ → ℕ} {input : SearchNodesInput}
    {predicate : SearchPredicate} {item : WalkItem ρ} (hinput : input.Units)
    (h : figma.PageEnds cm height input predicate item) :
    ∃ cursor, figma.cursorFor (searchKey input predicate) item true = some cursor := by
  have hkey := units_searchKey hinput h.compiles
  obtain ⟨cursor, hcursor, -⟩ :=
    figma.parseCursor_cursorFor true hkey (figma.units_id item.node) h.paths
  exact ⟨cursor, hcursor⟩

/-- When the cursor of an item at which a page is full is within its limit. -/
theorem PageEnds.fits_iff {height : ρ → ℕ} {input : SearchNodesInput} {predicate : SearchPredicate}
    {item : WalkItem ρ} {cursor : JsString} (hinput : input.Units)
    (h : figma.PageEnds cm height input predicate item)
    (hcursor : figma.cursorFor (searchKey input predicate) item true = some cursor) :
    utf8ByteLength cursor ≤ maxSearchCursorBytes ↔ figma.cursorBytes input predicate item ≤ 49152 := by
  rw [utf8ByteLength_cursorFor figma.toHost hinput h.compiles (figma.units_id _) h.paths hcursor,
    maxSearchCursorBytes]
  omega

variable (figma cm)

/-- **The cursors that a search emits** are those of the items at which its page is full. -/
theorem exists_nextCursor_iff {height : ρ → ℕ} (htree : figma.IsTree height) {input : SearchNodesInput}
    {cursor : JsString} :
    (∃ result, figma.searchNodes cm input = .ok result ∧ result.nextCursor = some cursor) ↔
      ∃ predicate item, figma.PageEnds cm height input predicate item ∧
        figma.cursorFor (searchKey input predicate) item true = some cursor := by
  constructor
  · rintro ⟨result, hresult, hnext⟩
    obtain ⟨predicate, hpredicate, hresult⟩ := Guard.bind_eq_ok.1 hresult
    obtain ⟨root, hroot, hresult⟩ := Guard.bind_eq_ok.1 hresult
    obtain ⟨payload, hcursor, hresult⟩ := Guard.bind_eq_ok.1 hresult
    obtain ⟨stack, hstack, hresult⟩ := Guard.bind_eq_ok.1 hresult
    obtain ⟨made, hmade, hresult⟩ := Guard.bind_eq_ok.1 hresult
    obtain rfl := Guard.pure_eq_ok.1 hresult
    obtain rfl : made = some cursor := hnext
    generalize hpage : figma.searchFrom cm predicate {} _ _ stack 0 0 [] = page at hmade
    unfold Host.nextCursor at hmade
    cases hend : page.pageEnd with
    | none =>
        rw [hend] at hmade
        cases hmade
    | some item =>
        rw [hend] at hmade
        dsimp only at hmade
        obtain ⟨before, after, hahead, hfills⟩ := (Host.pageEnd_iff htree).1 (hpage ▸ hend)
        refine ⟨predicate, item, .intro hpredicate hroot hcursor hstack hahead hfills, ?_⟩
        cases hfound : figma.cursorFor (searchKey input predicate) item true with
        | none =>
            rw [hfound] at hmade
            cases hmade
        | some found =>
            rw [hfound] at hmade
            exact Except.ok.inj hmade
  · rintro ⟨predicate, item, ⟨hpredicate, hroot, hcursor, hstack, hahead, hfills⟩, hmade⟩
    have hend : (figma.searchFrom cm predicate {} (min input.limit maxReturnedNodes) maxVisitedNodes _
        0 0 []).pageEnd = some item :=
      (Host.pageEnd_iff htree).2 ⟨_, _, hahead, hfills⟩
    unfold searchNodes
    simp only [hpredicate, hroot, hcursor, hstack, bind, Except.bind, Host.nextCursor, hend, hmade]
    exact ⟨_, rfl, rfl⟩

/-- **The cursors of a search fit its input** exactly where the bytes of their keys, paths and ids
do. -/
theorem nextCursor_fits_iff {height : ρ → ℕ} (htree : figma.IsTree height) {input : SearchNodesInput}
    (hinput : input.Units) :
    (∀ result cursor, figma.searchNodes cm input = .ok result → result.nextCursor = some cursor →
        utf8ByteLength cursor ≤ maxSearchCursorBytes) ↔
      ∀ predicate item, figma.PageEnds cm height input predicate item →
        figma.cursorBytes input predicate item ≤ 49152 := by
  constructor
  · intro h predicate item hends
    obtain ⟨cursor, hcursor⟩ := hends.exists_cursor hinput
    obtain ⟨result, hresult, hnext⟩ := (figma.exists_nextCursor_iff cm htree).2 ⟨_, _, hends, hcursor⟩
    exact (hends.fits_iff hinput hcursor).1 (h result cursor hresult hnext)
  · intro h result cursor hresult hnext
    obtain ⟨predicate, item, hends, hcursor⟩ :=
      (figma.exists_nextCursor_iff cm htree).1 ⟨result, hresult, hnext⟩
    exact (hends.fits_iff hinput hcursor).2 (h predicate item hends)

/-- The cursor of the layers of the framed document fits, so its bytes do. -/
theorem nextCursor_fits_framed : ¬ ∃ predicate item,
    framed.PageEnds (fun _ code _ => [code]) (fun node => 1 - node) layers predicate item ∧
      49152 < framed.cursorBytes layers predicate item := by
  rintro ⟨predicate, item, hends, hlong⟩
  refine absurd hlong (Nat.not_lt.2 ?_)
  refine (framed.nextCursor_fits_iff _ isTree_framed units_layers).1
    (fun result cursor hresult hnext => ?_) predicate item hends
  have hrun : (match framedPage 1 none with
      | .ok first => first.nextCursor.all fun cursor => decide (utf8ByteLength cursor ≤ maxSearchCursorBytes)
      | .error _ => true) = true := by
    decide +kernel
  rw [show framedPage 1 none = .ok result from hresult] at hrun
  dsimp only at hrun
  rw [hnext] at hrun
  simpa using hrun

/-! ### Many types -/

/-- Types of 256 letters, all of them different. -/
def longTypes : List JsString :=
  (List.range 200).map fun k => List.replicate k 0x41 ++ List.replicate (256 - k) 0x42

/-- A search for frames and for many other types. -/
def manyTypes : SearchNodesInput :=
  { scope := .nodeId (text "1:2"), types := some (text "FRAME" :: longTypes), matchMode := .exact
    limit := 1 }

theorem mem_longTypes {type : JsString} (h : type ∈ longTypes) :
    type.length = 256 ∧ ∀ u ∈ type, u = 0x41 ∨ u = 0x42 := by
  obtain ⟨k, hk, rfl⟩ := List.mem_map.1 h
  have hk := List.mem_range.1 hk
  refine ⟨by rw [List.length_append, List.length_replicate, List.length_replicate]; omega, fun u hu => ?_⟩
  rcases List.mem_append.1 hu with hu | hu
  · exact Or.inl (List.eq_of_mem_replicate hu)
  · exact Or.inr (List.eq_of_mem_replicate hu)

theorem nodup_longTypes : longTypes.Nodup := by
  refine List.Nodup.map_on (fun j hj k hk h => ?_) List.nodup_range
  have hcount := congrArg (List.count 0x41) h
  simpa [List.count_append, List.count_replicate] using hcount

theorem units_manyTypes : manyTypes.Units where
  scope := Utf16.units_ofString _
  query := nofun
  types types h := by
    obtain rfl := Option.some.inj h
    refine List.forall_mem_cons.2 ⟨Utf16.units_ofString _, fun type htype u hu => ?_⟩
    rcases (mem_longTypes htype).2 u hu with rfl | rfl <;> decide

theorem trim_of_not_whitespace {s : JsString} (h : ∀ u ∈ s, isWhitespace u = false) : trim s = s := by
  have hdrop : ∀ t : JsString, (∀ u ∈ t, isWhitespace u = false) → t.dropWhile isWhitespace = t := by
    intro t ht
    cases t with
    | nil => rfl
    | cons u t => rw [List.dropWhile_cons_of_neg (by simp [ht u List.mem_cons_self])]
  rw [trim, hdrop s h, hdrop _ fun u hu => h u (List.mem_reverse.1 hu), List.reverse_reverse]

/-- Types without white space that are all different stay as they are. -/
theorem trimTypes_eq {types before : List JsString}
    (h : ∀ type ∈ types, type ≠ [] ∧ ∀ u ∈ type, isWhitespace u = false)
    (hnodup : (before ++ types).Nodup) : trimTypes types before = some (before ++ types) := by
  induction types generalizing before with
  | nil => rw [trimTypes, List.append_nil]
  | cons type types ih =>
      obtain ⟨⟨hne, hspace⟩, hrest⟩ := List.forall_mem_cons.1 h
      have hnew : type ∉ before := fun hmem =>
        List.disjoint_of_nodup_append hnodup hmem List.mem_cons_self
      have hmove : before ++ [type] ++ types = before ++ type :: types := by simp
      rw [trimTypes, trim_of_not_whitespace hspace, if_neg hne, if_neg hnew, ih hrest (hmove ▸ hnodup),
        hmove]

theorem compile_manyTypes : compilePredicate manyTypes =
    .ok { types := some (text "FRAME" :: longTypes), matchMode := .exact } := by
  have hspace : ∀ type ∈ text "FRAME" :: longTypes, type ≠ [] ∧ ∀ u ∈ type, isWhitespace u = false := by
    refine List.forall_mem_cons.2 ⟨by decide, fun type htype => ?_⟩
    obtain ⟨hlength, hletters⟩ := mem_longTypes htype
    refine ⟨fun hnil => by simp [hnil] at hlength, fun u hu => ?_⟩
    rcases hletters u hu with rfl | rfl <;> rfl
  have hnodup : ([] ++ (text "FRAME" :: longTypes)).Nodup := by
    refine List.nodup_cons.2 ⟨fun hmem => ?_, nodup_longTypes⟩
    exact absurd (mem_longTypes hmem).1 (by decide)
  have htypes : compileTypes (some (text "FRAME" :: longTypes)) =
      .ok (some (text "FRAME" :: longTypes)) := by
    rw [compileTypes, trimTypes_eq hspace hnodup]
    rfl
  rw [compilePredicate]
  simp only [manyTypes, htypes, compileQuery]
  rfl

/-- The long types alone have more bytes than a cursor can encode. -/
theorem lt_searchKeyBytes_manyTypes (predicate : SearchPredicate)
    (h : predicate.types = some (text "FRAME" :: longTypes)) :
    49152 < searchKeyBytes manyTypes predicate := by
  have hbytes : ∀ type ∈ longTypes, 4 + twiceQuotedBytes type = 260 := by
    intro type htype
    obtain ⟨hlength, hletters⟩ := mem_longTypes htype
    have hplain : ∀ u ∈ type, 0x30 ≤ u ∧ u < 0x5b := fun u hu => by
      rcases hletters u hu with rfl | rfl <;> decide
    have hascii : ∀ u ∈ type, u < 0x80 := fun u hu => (hplain u hu).2.trans (by decide)
    rw [twiceQuotedBytes, quotedBytes, quoteBody_plain hplain, quoteBody_plain hplain,
      utf8ByteLength_ascii hascii, hlength]
  have hsum : (longTypes.map fun type => 4 + twiceQuotedBytes type).sum = 52000 := by
    have hlength : longTypes.length = 200 := by rw [longTypes, List.length_map, List.length_range]
    rw [List.map_congr_left hbytes, List.map_const', List.sum_replicate, hlength]
    rfl
  rw [searchKeyBytes, h, Option.getD_some, List.map_cons, List.sum_cons, hsum]
  omega

theorem pageEnds_manyTypes : framed.PageEnds (fun _ code _ => [code]) (fun node => 1 - node) manyTypes
    { types := some (text "FRAME" :: longTypes), matchMode := .exact } { node := 0 } := by
  have hahead : framed.aheadOf (fun node => 1 - node) [{ node := 0 }] = [] ++ { node := 0 } ::
      framed.aheadOf (fun node => 1 - node) (framed.pushChildren [] { node := 0 }) :=
    framed.aheadOf_cons isTree_framed { node := 0 } []
  have hreasons : framed.matchReasons (fun _ code _ => [code])
      { types := some (text "FRAME" :: longTypes), matchMode := .exact } 0 = [.nodeType] := by
    have htype : FigmaDevMcp.string (framed.get 0 "type") ∈ text "FRAME" :: longTypes :=
      List.mem_cons_self
    simp only [Host.matchReasons, if_pos htype]
  have hmatch : framed.nodeMatch (fun _ code _ => [code])
      { types := some (text "FRAME" :: longTypes), matchMode := .exact } false 0 =
        { node := framed.summarizeMatch 0 false, reasons := [.nodeType] } := by
    rw [Host.nodeMatch, hreasons]
  refine .intro compile_manyTypes rfl rfl rfl hahead ⟨?_, ?_, ?_, ?_, ?_⟩
  · rw [hreasons]
    exact List.cons_ne_nil _ _
  · decide
  · rfl
  · decide
  · show 0 + 0 + byteLength (framed.nodeMatch _ _ false 0).toJs ≤ _
    rw [hmatch]
    decide +kernel

/-- **A cursor that its own search refuses**: the input is valid, and the cursor after its first
match is longer than a cursor may be. -/
theorem nextCursor_too_long :
    ((text "FRAME" :: longTypes).length ≤ maxInputIds ∧ (text "FRAME" :: longTypes).Nodup ∧
      ∀ type ∈ text "FRAME" :: longTypes, trim type ≠ [] ∧ utf8ByteLength type ≤ maxIdentifierBytes) ∧
    ∃ result cursor, framed.searchNodes (fun _ code _ => [code]) manyTypes = .ok result ∧
      result.nextCursor = some cursor ∧ maxSearchCursorBytes < utf8ByteLength cursor := by
  constructor
  · refine ⟨?_, List.nodup_cons.2 ⟨fun hmem => absurd (mem_longTypes hmem).1 (by decide),
      nodup_longTypes⟩, List.forall_mem_cons.2 ⟨by decide, fun type htype => ?_⟩⟩
    · rw [List.length_cons, longTypes, List.length_map, List.length_range]
      decide
    · obtain ⟨hlength, hletters⟩ := mem_longTypes htype
      have hspace : ∀ u ∈ type, isWhitespace u = false := fun u hu => by
        rcases hletters u hu with rfl | rfl <;> rfl
      have hascii : ∀ u ∈ type, u < 0x80 := fun u hu => by
        rcases hletters u hu with rfl | rfl <;> decide
      rw [trim_of_not_whitespace hspace, utf8ByteLength_ascii hascii, hlength]
      refine ⟨fun hnil => by simp [hnil] at hlength, le_refl _⟩
  · have hpath := (pageEnds_manyTypes).paths
    have hkey := units_searchKey units_manyTypes compile_manyTypes
    obtain ⟨cursor, hcursor, -⟩ := framed.parseCursor_cursorFor true hkey
      (framed.units_id (WalkItem.node { node := 0 })) hpath
    obtain ⟨result, hresult, hnext⟩ :=
      (framed.exists_nextCursor_iff _ isTree_framed).2 ⟨_, _, pageEnds_manyTypes, hcursor⟩
    refine ⟨result, cursor, hresult, hnext, ?_⟩
    have hlong := lt_searchKeyBytes_manyTypes
      { types := some (text "FRAME" :: longTypes), matchMode := .exact } rfl
    rw [utf8ByteLength_cursorFor framed.toHost units_manyTypes compile_manyTypes (framed.units_id _) hpath
      hcursor, Host.cursorBytes, maxSearchCursorBytes]
    omega

end Figma

end FigmaDevMcp

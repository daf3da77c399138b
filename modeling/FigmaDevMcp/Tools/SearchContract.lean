import FigmaDevMcp.Lib.JsonText
import FigmaDevMcp.Shared.Accepting

set_option autoImplicit false

/-!
# The contract of a search

The input of `search_nodes` on the side of the server: the bounded values of `common.rs`, what
`contracts/navigation.rs` makes of the input of a tool call, and the message that the broker sends
with it.

* `Str`: a Rust string as its characters, with `len` and `trim`;
* `BoundedString`, `BoundedList`: values that are within their bounds;
* `SearchNodesInput.deserialize`, `invoke`, `Request.toJs`: from the call to the message;
* `request_accepted_iff`: when the plugin accepts it.
-/

namespace FigmaDevMcp.Tools

open JsValue

/-! ## Strings -/

/-- A Rust string as its characters. -/
abbrev Str := List Char

namespace Str

/-- The length in bytes. -/
def len (s : Str) : ℕ := (s.map Char.utf8Size).sum

/-- The string as the plugin has it. -/
def toJs (s : Str) : JsString := Utf16.encode (s.map Char.toNat)

/-- `char::is_whitespace` -/
def isWhitespace (c : Char) : Bool :=
  (0x09 ≤ c.toNat && c.toNat ≤ 0x0d) || c.toNat == 0x20 || c.toNat == 0x85 || c.toNat == 0xa0 ||
    c.toNat == 0x1680 || (0x2000 ≤ c.toNat && c.toNat ≤ 0x200a) || c.toNat == 0x2028 ||
    c.toNat == 0x2029 || c.toNat == 0x202f || c.toNat == 0x205f || c.toNat == 0x3000

/-- `str::trim` -/
def trim (s : Str) : Str := (s.dropWhile isWhitespace).rdropWhile isWhitespace

end Str

/-! ## Bounded values -/

/-- Why a value is not within its bounds. -/
inductive BoundaryValueError
  | empty (label : String)
  | tooLong (label : String) (actual maximum : ℕ)
  | tooMany (label : String) (actual maximum : ℕ)
  | tooDeep (actual maximum : ℕ)
  | malformedUuid (label : String)
deriving DecidableEq

/-- The bound of a newtype of strings, and its label. -/
structure Bound where
  maximumBytes : ℕ
  label : String
  allowEmpty : Bool

/-- A string is within its bound. -/
def validateBoundaryString (bound : Bound) (value : Str) : Except BoundaryValueError Unit :=
  if bound.allowEmpty = false ∧ value = [] then .error (.empty bound.label)
  else if bound.maximumBytes < value.len then
    .error (.tooLong bound.label value.len bound.maximumBytes)
  else .ok ()

/-- A string within its bound. -/
structure BoundedString (bound : Bound) where
  value : Str
  valid : validateBoundaryString bound value = .ok ()

/-- A string that is checked against its bound. -/
def BoundedString.tryFrom (bound : Bound) (value : Str) :
    Except BoundaryValueError (BoundedString bound) :=
  match h : validateBoundaryString bound value with
  | .ok () => .ok ⟨value, h⟩
  | .error e => .error e

/-- The id of a request. -/
abbrev RequestId := BoundedString ⟨maxIdentifierBytes, "plugin request identifier", false⟩

/-- The id of a node. -/
abbrev NodeId := BoundedString ⟨maxIdentifierBytes, "node identifier", false⟩

/-- The id of a page. -/
abbrev PageId := BoundedString ⟨maxIdentifierBytes, "page identifier", false⟩

/-- The name of a type of nodes. -/
abbrev NodeTypeName := BoundedString ⟨maxIdentifierBytes, "node type name", false⟩

/-- The key of a file. -/
abbrev FileKey := BoundedString ⟨maxIdentifierBytes, "file key", false⟩

/-- The text that is looked for. -/
abbrev QueryText := BoundedString ⟨maxQueryBytes, "query text", true⟩

/-- Where a search goes on. -/
abbrev SearchCursor := BoundedString ⟨maxSearchCursorBytes, "opaque search cursor", false⟩

/-- A byte of an identifier of a connection, by its place. -/
def uuidByte (index byte : ℕ) : Bool :=
  if index = 8 ∨ index = 13 ∨ index = 18 ∨ index = 23 then byte == 0x2d
  else if index = 14 then 0x31 ≤ byte && byte ≤ 0x38
  else if index = 19 then
    byte == 0x38 || byte == 0x39 || byte == 0x61 || byte == 0x62 || byte == 0x41 || byte == 0x42
  else isHexChar byte

/-- All bytes of such a string are characters. -/
def isCanonicalRfc4122Uuid (value : Str) : Bool :=
  value.length = 36 && (List.range 36).all fun index => uuidByte index (value.getD index ' ').toNat

/-- The letters of an identifier are made small when it is read. -/
structure ConnectionId where
  value : Str
  canonical : isCanonicalRfc4122Uuid value = true
  small : value.map Char.toLower = value

/-- A list within its bound. -/
structure BoundedList (α : Type) (maximum : ℕ) where
  items : List α
  length_le : items.length ≤ maximum

/-- A list that is checked against its bound. -/
def BoundedList.tryFrom {α : Type} (maximum : ℕ) (label : String) (items : List α) :
    Except BoundaryValueError (BoundedList α maximum) :=
  if h : items.length ≤ maximum then .ok ⟨items, h⟩
  else .error (.tooMany label items.length maximum)

/-- The types that are looked for. -/
abbrev NodeTypeList := BoundedList NodeTypeName maxInputIds

/-! ## The input -/

/-- What a search starts from. -/
inductive SearchScope
  | page (pageId : PageId)
  | node (nodeId : NodeId)

/-- `limit` is within what `deserialize_search_limit` lets through. -/
structure SearchNodesInput where
  connectionId : Option ConnectionId
  scope : SearchScope
  query : Option QueryText
  types : NodeTypeList
  matchMode : SearchMatchMode
  limit : ℕ
  cursor : Option SearchCursor
  limit_pos : 1 ≤ limit
  limit_le : limit ≤ maxReturnedNodes

/-- The error of a deserializer: a text of its own, or a bound. -/
inductive ContractError
  | custom (message : String)
  | boundary (error : BoundaryValueError)
deriving DecidableEq

/-- An error of a bound as one of a deserializer. -/
def bounded {α : Type} (x : Except BoundaryValueError α) : Except ContractError α :=
  x.mapError .boundary

/-- A query without white space at its ends, which must leave something. -/
def trimQuery : Option QueryText → Except ContractError (Option QueryText)
  | none => .ok none
  | some query =>
    if query.value.trim = [] then .error (.custom "query must be non-empty after trimming")
    else (bounded (BoundedString.tryFrom _ query.value.trim)).map some

/-- A type without white space at its ends, which must leave something. -/
def trimType (typeName : NodeTypeName) : Except ContractError NodeTypeName :=
  if typeName.value.trim = [] then .error (.custom "nodeTypes must be non-empty after trimming")
  else bounded (BoundedString.tryFrom _ typeName.value.trim)

/-- The types without white space at their ends. -/
def trimNodeTypes (types : NodeTypeList) : Except ContractError NodeTypeList := do
  bounded (BoundedList.tryFrom _ "node type names" (← types.items.mapM trimType))

/-- A cursor without white space at its ends. -/
def trimCursor : Option SearchCursor → Except ContractError (Option SearchCursor)
  | none => .ok none
  | some cursor => (bounded (BoundedString.tryFrom _ cursor.value.trim)).map some

/-- A search looks for something. -/
def checkSearched (query : Option QueryText) (types : NodeTypeList) : Except ContractError Unit :=
  if query.isNone ∧ types.items = [] then .error (.custom "search must include query or types")
  else .ok ()

/-- What the tool makes of an input that is within its bounds. -/
def SearchNodesInput.deserialize (input : SearchNodesInput) : Except ContractError SearchNodesInput := do
  let query ← trimQuery input.query
  let types ← trimNodeTypes input.types
  checkSearched query types
  let cursor ← trimCursor input.cursor
  return { input with query, types, cursor }

/-! ## The message -/

/-- A scope, as it is sent. -/
def SearchScope.toJs : SearchScope → JsValue
  | .page pageId => .object (member "pageId" (.string pageId.value.toJs))
  | .node nodeId => .object (member "nodeId" (.string nodeId.value.toJs))

/-- The members come in the order of the fields; what is `None` or empty is left out. -/
def SearchNodesInput.toJs (input : SearchNodesInput) : JsValue :=
  .object (optional "connectionId" (input.connectionId.map fun id => .string id.value.toJs) ++
    member "scope" input.scope.toJs ++
    optional "query" (input.query.map fun query => .string query.value.toJs) ++
    optional "types" (if input.types.items = [] then none
      else some (.array (input.types.items.map fun type => .string type.value.toJs))) ++
    member "match" (word input.matchMode.word) ++ member "limit" (natural input.limit) ++
    optional "cursor" (input.cursor.map fun cursor => .string cursor.value.toJs))

/-- The message of a request. -/
structure Request where
  requestId : RequestId
  deadlineMs : ℕ
  fileKey : Option FileKey
  input : SearchNodesInput

/-- The request of an invocation. -/
def invoke (requestId : RequestId) (input : SearchNodesInput) : Request where
  requestId := requestId
  deadlineMs := totalTimeoutSecs * 1000
  fileKey := none
  input := input

/-- A request, as it is sent. -/
def Request.toJs (r : Request) : JsValue :=
  .object (member "type" (word "request") ++ member "requestId" (.string r.requestId.value.toJs) ++
    member "deadlineMs" (natural r.deadlineMs) ++
    member "target" (.object (optional "fileKey" (r.fileKey.map fun key => .string key.value.toJs))) ++
    member "operation" (.object (member "operation" (word "search_nodes") ++
      member "input" r.input.toJs)))

/-! ## Strings on both sides -/

theorem Str.units_toJs (s : Str) : Utf16.Units s.toJs := by
  have := Utf16.units_ofString (String.ofList s)
  rwa [Utf16.ofString, String.toList_ofList] at this

/-- **Both sides count the same bytes.** -/
theorem Str.utf8ByteLength_toJs (s : Str) : utf8ByteLength s.toJs = s.len := by
  induction s with
  | nil => rfl
  | cons c s ih =>
      have hlen : Str.len (c :: s) = Utf16.utf8Size c.toNat + Str.len s := rfl
      have htext : Str.toJs (c :: s) = Utf16.encodeOne c.toNat ++ Str.toJs s := rfl
      have hscalar := Utf16.isScalar_toNat c
      rw [hlen, htext, ← ih]
      generalize Str.toJs s = rest
      generalize c.toNat = code at hscalar
      unfold Utf16.IsScalar at hscalar
      unfold Utf16.encodeOne Utf16.utf8Size
      by_cases hunit : code < 0x10000
      · rw [if_pos hunit, List.singleton_append]
        have hhigh : Utf16.isHighSurrogate code = false := by
          simp only [Utf16.isHighSurrogate, Bool.and_eq_false_iff, decide_eq_false_iff_not]
          omega
        cases rest with
        | nil =>
            rw [utf8ByteLength, utf8ByteLength]
            split_ifs <;> omega
        | cons next rest =>
            rw [utf8ByteLength, hhigh, Bool.false_and, if_neg Bool.false_ne_true]
            split_ifs <;> omega
      · rw [if_neg hunit, List.cons_append, List.singleton_append, utf8ByteLength]
        have hpair : (Utf16.isHighSurrogate (0xd800 + (code - 0x10000) / 0x400) &&
            Utf16.isLowSurrogate (0xdc00 + (code - 0x10000) % 0x400)) = true := by
          simp only [Utf16.isHighSurrogate, Utf16.isLowSurrogate, Bool.and_eq_true, decide_eq_true_eq]
          omega
        rw [if_neg (by omega), if_neg (by omega), if_pos hpair, if_neg (by omega), if_neg (by omega),
          if_neg (by omega)]

theorem Str.toJs_ne_nil {s : Str} (h : s ≠ []) : s.toJs ≠ [] := by
  cases s with
  | nil => exact absurd rfl h
  | cons c s =>
      intro hnil
      have hone := (List.append_eq_nil_iff.1 hnil).1
      unfold Utf16.encodeOne at hone
      split_ifs at hone

/-- A bounded string is within its bound in the plugin too. -/
theorem BoundedString.bounds {bound : Bound} (s : BoundedString bound) :
    (bound.allowEmpty = false → s.value.toJs ≠ []) ∧
      utf8ByteLength s.value.toJs ≤ bound.maximumBytes := by
  have hvalid := s.valid
  unfold validateBoundaryString at hvalid
  split_ifs at hvalid with hempty hlong
  rw [Str.utf8ByteLength_toJs]
  exact ⟨fun hallow => Str.toJs_ne_nil fun hnil => hempty ⟨hallow, hnil⟩, by omega⟩

theorem BoundedString.isIdentifier {label : String}
    (s : BoundedString ⟨maxIdentifierBytes, label, false⟩) : Plugin.IsIdentifier s.value.toJs :=
  ⟨s.bounds.1 rfl, s.bounds.2⟩

theorem lt_of_uuidByte {index byte : ℕ} (h : uuidByte index byte = true) : byte < 0x80 := by
  unfold uuidByte isHexChar at h
  split_ifs at h <;>
    simp only [Bool.or_eq_true, Bool.and_eq_true, decide_eq_true_eq, beq_iff_eq] at h <;> omega

/-- An identifier has 36 characters of one byte. -/
theorem ConnectionId.len_value (id : ConnectionId) : id.value.len = 36 := by
  have hcanonical := id.canonical
  rw [isCanonicalRfc4122Uuid, Bool.and_eq_true, decide_eq_true_eq, List.all_eq_true] at hcanonical
  obtain ⟨hlength, hbytes⟩ := hcanonical
  have hascii : ∀ c ∈ id.value, c.utf8Size = 1 := by
    intro c hc
    obtain ⟨index, hindex, rfl⟩ := List.mem_iff_getElem.1 hc
    have hbyte := hbytes index (List.mem_range.2 (hlength ▸ hindex))
    rw [List.getD_eq_getElem?_getD, List.getElem?_eq_getElem hindex, Option.getD_some] at hbyte
    have hlow := lt_of_uuidByte hbyte
    show Utf16.utf8Size id.value[index].toNat = 1
    exact if_pos (by omega)
  rw [Str.len, List.map_congr_left hascii, List.map_const', List.sum_replicate, hlength]
  rfl

theorem ConnectionId.value_ne_nil (id : ConnectionId) : id.value ≠ [] := by
  intro hnil
  have hlen := id.len_value
  rw [hnil] at hlen
  cases hlen

theorem ConnectionId.isIdentifier (id : ConnectionId) : Plugin.IsIdentifier id.value.toJs := by
  refine ⟨Str.toJs_ne_nil id.value_ne_nil, ?_⟩
  rw [Str.utf8ByteLength_toJs, id.len_value]
  decide

/-! ## What the plugin makes of it -/

/-- The input as the plugin names its parts. -/
def SearchNodesInput.shape (input : SearchNodesInput) : FigmaDevMcp.SearchNodesInput where
  connectionId := input.connectionId.map fun id => id.value.toJs
  scope := match input.scope with
    | .page pageId => .pageId pageId.value.toJs
    | .node nodeId => .nodeId nodeId.value.toJs
  query := input.query.map fun query => query.value.toJs
  types := if input.types.items = [] then none
    else some (input.types.items.map fun type => type.value.toJs)
  matchMode := input.matchMode
  limit := input.limit
  cursor := input.cursor.map fun cursor => cursor.value.toJs

theorem SearchNodesInput.encodes (input : SearchNodesInput) :
    ∃ members, input.toJs = .object members ∧ Plugin.Encodes members input.shape := by
  refine ⟨_, rfl, ?_, ?_, ?_, ?_, ?_, ?_, ?_, ?_⟩
  · intro key hkey
    simp only [List.map_append, List.mem_append] at hkey
    rcases hkey with (((((hkey | hkey) | hkey) | hkey) | hkey) | hkey) | hkey
    · rw [Plugin.key_optional hkey]; decide
    · rw [Plugin.key_member hkey]; decide
    · rw [Plugin.key_optional hkey]; decide
    · rw [Plugin.key_optional hkey]; decide
    · rw [Plugin.key_member hkey]; decide
    · rw [Plugin.key_member hkey]; decide
    · rw [Plugin.key_optional hkey]; decide
  · simp [lookup_append, Plugin.lookup_member, Plugin.lookup_optional, shape, Function.comp_def]
  · cases hscope : input.scope <;>
      simp [lookup_append, Plugin.lookup_member, Plugin.lookup_optional, shape, hscope] <;> rfl
  · simp [lookup_append, Plugin.lookup_member, Plugin.lookup_optional, shape, Function.comp_def]
  · by_cases htypes : input.types.items = [] <;>
      simp [lookup_append, Plugin.lookup_member, Plugin.lookup_optional, shape, htypes]
  · simp [lookup_append, Plugin.lookup_member, Plugin.lookup_optional, shape]
  · simp [lookup_append, Plugin.lookup_member, Plugin.lookup_optional, shape]
  · simp [lookup_append, Plugin.lookup_member, Plugin.lookup_optional, shape, Function.comp_def]

/-- An input that the tool lets through is within the bounds of the plugin. -/
theorem SearchNodesInput.bounded_shape {raw input : SearchNodesInput} (h : raw.deserialize = .ok input) :
    Plugin.Bounded input.shape := by
  obtain ⟨query, -, h⟩ := Guard.bind_eq_ok.1 h
  obtain ⟨types, -, h⟩ := Guard.bind_eq_ok.1 h
  obtain ⟨_, hsearched, h⟩ := Guard.bind_eq_ok.1 h
  obtain ⟨cursor, -, h⟩ := Guard.bind_eq_ok.1 h
  obtain rfl := Guard.pure_eq_ok.1 h
  constructor
  · intro s hs
    obtain ⟨id, -, rfl⟩ := Option.map_eq_some_iff.1 hs
    exact id.isIdentifier
  · show Plugin.IsIdentifier _
    unfold shape
    cases raw.scope with
    | page id => exact id.isIdentifier
    | node id => exact id.isIdentifier
  · intro s hs
    obtain ⟨query, -, rfl⟩ := Option.map_eq_some_iff.1 hs
    exact query.bounds.2
  · intro ids hids
    have hids : (if types.items = [] then none
      else some (types.items.map fun type => type.value.toJs)) = some ids := hids
    split_ifs at hids with hnil
    obtain rfl := Option.some.inj hids
    refine ⟨fun h => hnil (List.map_eq_nil_iff.1 h), by rw [List.length_map]; exact types.length_le,
      fun s hs => ?_⟩
    obtain ⟨type, -, rfl⟩ := List.mem_map.1 hs
    exact type.isIdentifier
  · unfold checkSearched at hsearched
    split_ifs at hsearched with hnone
    by_cases hquery : query.isNone = true
    · have hne : types.items ≠ [] := fun hnil => hnone ⟨hquery, hnil⟩
      refine Or.inr ?_
      show (if types.items = [] then none else some _) ≠ none
      rw [if_neg hne]
      exact Option.some_ne_none _
    · refine Or.inl fun hmap => hquery ?_
      have hnone : query = none := Option.map_eq_none_iff.1 hmap
      rw [hnone]
      rfl
  · exact ⟨raw.limit_pos, raw.limit_le⟩
  · intro s hs
    obtain ⟨cursor, -, rfl⟩ := Option.map_eq_some_iff.1 hs
    exact ⟨cursor.bounds.1 rfl, cursor.bounds.2⟩

end FigmaDevMcp.Tools

namespace FigmaDevMcp.Plugin

open JsValue

/-- The user interface and the controller each validate a request again, and neither changes its
operation. -/
def AcceptedLater (controllerRequestId : JsString) (r : Request) : Prop :=
  ∃ forwarded, parseControllerBoundMessage
      (ControllerBoundMessage.request controllerRequestId r).toJs =
        .ok (.request controllerRequestId forwarded) ∧
    forwarded.operation = r.operation ∧
    ∃ received, parseControllerBoundMessage
        (ControllerBoundMessage.request controllerRequestId forwarded).toJs =
          .ok (.request controllerRequestId received) ∧
      received.operation = r.operation

/-- A text from the broker is accepted as a request, and accepted again under every id that the user
interface gives it. -/
def Accepts (data : JsString) : Prop :=
  ∃ value r, parse data = some value ∧ parseBrokerToPlugin value = .ok (.request r) ∧
    ∀ uuid controllerRequestId, parseUuid (.string uuid) = .ok controllerRequestId →
      AcceptedLater controllerRequestId r

end FigmaDevMcp.Plugin

namespace FigmaDevMcp.Tools

open JsValue Plugin

/-- The text of a request. -/
def Request.text (r : Request) : JsString := (stringify r.toJs).getD []

theorem plain_member {key : String} {value : JsValue} (h : Plain value) :
    ∀ m ∈ member key value, Utf16.Units m.1 ∧ Plain m.2 :=
  List.forall_mem_singleton.2 ⟨Utf16.units_ofString key, h⟩

theorem plain_optional {key : String} {value : Option JsValue} (h : ∀ v ∈ value, Plain v) :
    ∀ m ∈ optional key value, Utf16.Units m.1 ∧ Plain m.2 := by
  cases value with
  | none => exact nofun
  | some v => exact plain_member (h v rfl)

theorem keys_optional (key : String) (value : Option JsValue) :
    ((optional key value).map Prod.fst).Sublist [FigmaDevMcp.text key] := by
  cases value with
  | none => exact List.nil_sublist _
  | some v => exact List.Sublist.refl _

theorem SearchNodesInput.plain (input : SearchNodesInput) : Plain input.toJs := by
  have hlimit : Plain (natural input.limit) :=
    ⟨input.limit, lt_of_le_of_lt input.limit_le (by decide), rfl⟩
  have hscope : Plain input.scope.toJs := by
    cases input.scope with
    | page id => exact ⟨plainMembers_iff.2 (plain_member (Str.units_toJs _)), List.nodup_singleton _⟩
    | node id => exact ⟨plainMembers_iff.2 (plain_member (Str.units_toJs _)), List.nodup_singleton _⟩
  refine ⟨plainMembers_iff.2 ?_, ?_⟩
  · simp only [List.forall_mem_append]
    refine ⟨⟨⟨⟨⟨⟨plain_optional ?_, plain_member hscope⟩, plain_optional ?_⟩, plain_optional ?_⟩,
      plain_member (Utf16.units_ofString _)⟩, plain_member hlimit⟩, plain_optional ?_⟩
    · intro v hv
      obtain ⟨id, -, rfl⟩ := Option.map_eq_some_iff.1 hv
      exact Str.units_toJs _
    · intro v hv
      obtain ⟨query, -, rfl⟩ := Option.map_eq_some_iff.1 hv
      exact Str.units_toJs _
    · intro v hv
      split_ifs at hv
      · cases hv
      · obtain rfl := Option.some.inj hv
        exact plainItems_iff.2 (List.forall_mem_map.2 fun type _ => Str.units_toJs _)
    · intro v hv
      obtain ⟨cursor, -, rfl⟩ := Option.map_eq_some_iff.1 hv
      exact Str.units_toJs _
  · have hnames : ([FigmaDevMcp.text "connectionId", FigmaDevMcp.text "scope", FigmaDevMcp.text "query",
        FigmaDevMcp.text "types", FigmaDevMcp.text "match", FigmaDevMcp.text "limit",
        FigmaDevMcp.text "cursor"] : List JsString).Nodup := by decide
    refine hnames.sublist ?_
    simp only [List.map_append]
    exact (((((((keys_optional _ _).append (List.Sublist.refl _)).append (keys_optional _ _)).append
      (keys_optional _ _)).append (List.Sublist.refl _)).append (List.Sublist.refl _)).append
        (keys_optional _ _))

/-- The plugin reads the message that the broker has written. -/
theorem Request.parse_text (r : Request) (hdeadline : r.deadlineMs < 2 ^ 53) :
    parse r.text = some r.toJs := by
  have hunits : ∀ s : String, Utf16.Units (FigmaDevMcp.text s) := Utf16.units_ofString
  have htarget : Plain (.object (optional "fileKey" (r.fileKey.map fun key => .string key.value.toJs))) := by
    refine ⟨plainMembers_iff.2 (plain_optional fun v hv => ?_),
      (List.nodup_singleton _).sublist (keys_optional _ _)⟩
    obtain ⟨key, -, rfl⟩ := Option.map_eq_some_iff.1 hv
    exact Str.units_toJs _
  have hoperation : Plain (.object (member "operation" (word "search_nodes") ++
      member "input" r.input.toJs)) :=
    ⟨⟨hunits _, hunits _, hunits _, r.input.plain, trivial⟩, by simp [member]⟩
  have hplain : Plain r.toJs := by
    refine ⟨plainMembers_iff.2 ?_, by simp [member]⟩
    simp only [List.forall_mem_append]
    exact ⟨⟨⟨⟨plain_member (hunits _), plain_member (Str.units_toJs _)⟩,
      plain_member ⟨r.deadlineMs, hdeadline, rfl⟩⟩, plain_member htarget⟩, plain_member hoperation⟩
  obtain ⟨t, ht, -, hparse⟩ := parse_stringify hplain
  rw [Request.text, ht]
  exact hparse

/-- The request as the plugin has it. -/
def searchRequest (requestId : RequestId) (parsed : FigmaDevMcp.SearchNodesInput) : Plugin.Request where
  requestId := requestId.value.toJs
  deadlineMs := totalTimeoutSecs * 1000
  operation := .searchNodes parsed

/-- The plugin makes of a request what it makes of its input. -/
theorem parseBrokerToPlugin_invoke (requestId : RequestId) (input : SearchNodesInput) :
    parseBrokerToPlugin (invoke requestId input).toJs =
      (parseSearchNodesInput input.toJs).map fun parsed => .request (searchRequest requestId parsed) := by
  refine (parseBrokerToPlugin_request requestId.isIdentifier
    (by decide : totalTimeoutSecs * 1000 < 2 ^ 53) (nofun : ∀ s ∈ none, IsIdentifier s) _).trans ?_
  rw [parseReadOperation_searchNodes]
  show ((parseSearchNodesInput input.toJs).map _).map _ = _
  cases parseSearchNodesInput input.toJs <;> rfl

theorem parseControllerBoundMessage_search {controllerRequestId : JsString}
    (huuid : parseUuid (.string controllerRequestId) = .ok controllerRequestId) (requestId : RequestId)
    (parsed : FigmaDevMcp.SearchNodesInput) :
    parseControllerBoundMessage
        (ControllerBoundMessage.request controllerRequestId (searchRequest requestId parsed)).toJs =
      (parseSearchNodesInput parsed.toJs).map fun again =>
        .request controllerRequestId (searchRequest requestId again) := by
  refine (parseControllerBoundMessage_request huuid requestId.isIdentifier
    (by decide : totalTimeoutSecs * 1000 < 2 ^ 53) (nofun : ∀ s ∈ none, IsIdentifier s) _).trans ?_
  show (parseReadOperation (.object (member "operation" (word "search_nodes") ++
    member "input" parsed.toJs))).map _ = _
  rw [parseReadOperation_searchNodes]
  cases parseSearchNodesInput parsed.toJs <;> rfl

/-- The identifier with which the user interface can always forward a request. -/
def anyUuid : JsString := FigmaDevMcp.text "00000000-0000-4000-8000-000000000000"

theorem parseUuid_anyUuid : parseUuid (.string anyUuid) = .ok anyUuid := by decide +kernel

/-- What follows from the first validation, and what is left to the later ones. -/
theorem of_accepts {requestId : RequestId} {raw input : SearchNodesInput}
    (h : raw.deserialize = .ok input) (haccepts : Accepts (invoke requestId input).text) :
    ((∀ s ∈ input.shape.query, Visible s) ∧ ∀ types ∈ input.shape.types, ∀ s ∈ types, Visible s) ∧
      AcceptedLater anyUuid (searchRequest requestId (trimmed input.shape)) := by
  obtain ⟨value, r, hvalue, hparsed, hlater⟩ := haccepts
  obtain ⟨members, hmembers, hencodes⟩ := input.encodes
  have hread : parse (invoke requestId input).text = some (invoke requestId input).toJs :=
    Request.parse_text _ (by decide : totalTimeoutSecs * 1000 < 2 ^ 53)
  obtain rfl := Option.some.inj (hread.symm.trans hvalue)
  rw [parseBrokerToPlugin_invoke, hmembers] at hparsed
  obtain ⟨parsed, hsearch, hr⟩ := Guard.map_eq_ok.1 hparsed
  obtain ⟨hvisible, rfl⟩ :=
    (parseSearchNodesInput_eq_ok hencodes (SearchNodesInput.bounded_shape h)).1 hsearch
  obtain rfl := Plugin.BrokerToPlugin.request.inj hr
  exact ⟨hvisible, hlater anyUuid anyUuid parseUuid_anyUuid⟩

/-- An input that is trimmed and within the bounds is parsed to itself. -/
theorem parseSearchNodesInput_trimmed {input : FigmaDevMcp.SearchNodesInput} (hbounded : Bounded input)
    (hquery : ∀ s ∈ input.query, Visible s) (htypes : ∀ types ∈ input.types, ∀ s ∈ types, Visible s)
    (hcursor : ∀ s ∈ input.cursor, Visible s) :
    parseSearchNodesInput (trimmed input).toJs = .ok (trimmed input) := by
  obtain ⟨members, hmembers, hencodes⟩ := encodes_toJs (trimmed input)
  rw [hmembers]
  refine (parseSearchNodesInput_eq_ok hencodes (hbounded.trimmed htypes hcursor)).2
    ⟨⟨fun s hs => ?_, fun types htrimmed s hs => ?_⟩, (trimmed_trimmed _).symm⟩
  · obtain ⟨query, hcase, rfl⟩ := Option.map_eq_some_iff.1 hs
    exact (hquery query hcase).trim
  · obtain ⟨ids, hids, rfl⟩ := Option.map_eq_some_iff.1 htrimmed
    obtain ⟨id, hid, rfl⟩ := List.mem_map.1 hs
    exact (htypes ids hids id hid).trim

/-- **When the plugin accepts a search**: where something else than white space, as JavaScript has
it, is left of its query, of each of its types and of its cursor. -/
theorem request_accepted_iff (requestId : RequestId) {raw input : SearchNodesInput}
    (h : raw.deserialize = .ok input) :
    Accepts (invoke requestId input).text ↔
      (∀ query ∈ input.query, Visible query.value.toJs) ∧
        (∀ type ∈ input.types.items, Visible type.value.toJs) ∧
        ∀ cursor ∈ input.cursor, Visible cursor.value.toJs := by
  have hbounded := SearchNodesInput.bounded_shape h
  have hquery : (∀ s ∈ input.shape.query, Visible s) ↔
      ∀ query ∈ input.query, Visible query.value.toJs := by
    cases hcase : input.query <;> simp [SearchNodesInput.shape, hcase]
  have htype : (∀ types ∈ input.shape.types, ∀ s ∈ types, Visible s) ↔
      ∀ type ∈ input.types.items, Visible type.value.toJs := by
    by_cases hnil : input.types.items = [] <;> simp [SearchNodesInput.shape, hnil]
  have hcursor : (∀ s ∈ input.shape.cursor, Visible s) ↔
      ∀ cursor ∈ input.cursor, Visible cursor.value.toJs := by
    cases hcase : input.cursor <;> simp [SearchNodesInput.shape, hcase]
  rw [← hquery, ← htype, ← hcursor]
  constructor
  · intro haccepts
    obtain ⟨⟨hqueries, htypes⟩, forwarded, hforwarded, -⟩ := of_accepts h haccepts
    refine ⟨hqueries, htypes, fun s hs => ?_⟩
    rw [parseControllerBoundMessage_search parseUuid_anyUuid] at hforwarded
    obtain ⟨again, hagain, -⟩ := Guard.map_eq_ok.1 hforwarded
    obtain ⟨members, hmembers, hencodes⟩ := encodes_toJs (trimmed input.shape)
    rw [hmembers] at hagain
    exact trim_ne_nil.1 (cursor_ne_nil hencodes hagain (trim s) (Option.mem_map_of_mem trim hs))
  · rintro ⟨hqueries, htypes, hcursors⟩
    obtain ⟨members, hmembers, hencodes⟩ := input.encodes
    have hread : parse (invoke requestId input).text = some (invoke requestId input).toJs :=
      Request.parse_text _ (by decide : totalTimeoutSecs * 1000 < 2 ^ 53)
    have hsearch := (parseSearchNodesInput_eq_ok hencodes hbounded).2 ⟨⟨hqueries, htypes⟩, rfl⟩
    have hagain := parseSearchNodesInput_trimmed hbounded hqueries htypes hcursors
    refine ⟨_, searchRequest requestId (trimmed input.shape), hread, ?_, fun uuid k hk => ?_⟩
    · rw [parseBrokerToPlugin_invoke, hmembers, hsearch]
      rfl
    · have hsame := parseControllerBoundMessage_search (parseUuid_idem hk) requestId (trimmed input.shape)
      rw [hagain] at hsame
      exact ⟨_, hsame, rfl, _, hsame, rfl⟩

/-- The search for a text in a node. -/
def searchFor (query : QueryText) : SearchNodesInput where
  connectionId := none
  scope := .node ⟨['1', ':', '2'], by decide⟩
  query := some query
  types := ⟨[], Nat.zero_le _⟩
  matchMode := .contains
  limit := 50
  cursor := none
  limit_pos := by decide
  limit_le := by decide

/-- An id of a request. -/
def requestOne : RequestId := ⟨['1'], by decide⟩

/-- A search for a letter is accepted. -/
theorem request_accepted_letter :
    (searchFor ⟨['a'], by decide⟩).deserialize = .ok (searchFor ⟨['a'], by decide⟩) ∧
      Accepts (invoke requestOne (searchFor ⟨['a'], by decide⟩)).text := by
  have hsame : (searchFor ⟨['a'], by decide⟩).deserialize = .ok (searchFor ⟨['a'], by decide⟩) := rfl
  refine ⟨hsame, (request_accepted_iff requestOne hsame).2 ⟨fun query hquery => ?_, nofun, nofun⟩⟩
  obtain rfl := Option.some.inj hquery
  exact ⟨0x61, by decide, by decide⟩

/-- **A search that the plugin refuses**: its text is a byte order mark, which is white space for
the plugin and not for the tool. -/
theorem request_refused_byteOrderMark :
    (searchFor ⟨['\ufeff'], by decide⟩).deserialize = .ok (searchFor ⟨['\ufeff'], by decide⟩) ∧
      ¬ Accepts (invoke requestOne (searchFor ⟨['\ufeff'], by decide⟩)).text := by
  have hsame : (searchFor ⟨['\ufeff'], by decide⟩).deserialize = .ok (searchFor ⟨['\ufeff'], by decide⟩) :=
    rfl
  refine ⟨hsame, fun haccepts => ?_⟩
  obtain ⟨⟨hquery, -⟩, -⟩ := of_accepts hsame haccepts
  obtain ⟨u, hu, hspace⟩ := hquery [0xfeff] rfl
  rw [List.mem_singleton.1 hu] at hspace
  cases hspace

end FigmaDevMcp.Tools

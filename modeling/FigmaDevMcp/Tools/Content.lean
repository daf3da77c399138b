import FigmaDevMcp.Protocol.Error
import FigmaDevMcp.Protocol.Limits
import FigmaDevMcp.Read.ByteBudget

set_option autoImplicit false

/-!
# Accounting of tool results

`content.rs`: how many bytes of text a tool result has, and when it is too large to be sent. The
writer of JSON-RPC responses is not part of the repository; it is the parameter `toVec`.

* `Value`: a JSON value, with its text;
* `CallToolResult`, `structured`, `accountCallToolResult`: a result and its accounting;
* `isOk_account_structured`: when a structured result is accepted;
* `bytes_quote_text`: how long the text of a value gets when it is quoted once more.
-/

namespace FigmaDevMcp.Tools.Content

open JsValue

/-! ## Values -/

/-- What the text of a number is made of. -/
def isNumberUnit (u : ℕ) : Bool :=
  isDigit u || u == 0x2b || u == 0x2d || u == 0x2e || u == 0x45 || u == 0x65

/-- `serde_json::Value`. A number is the text that is written of it. -/
inductive Value
  | null
  | bool (b : Bool)
  | number (text : List ℕ) (h : text.all isNumberUnit = true)
  | string (s : JsString)
  | array (items : List Value)
  | object (members : List (JsString × Value))

namespace Value

mutual

/-- `serde_json::to_string` -/
def text : Value → JsString
  | null => Utf16.ofString "null"
  | bool b => if b then Utf16.ofString "true" else Utf16.ofString "false"
  | number t _ => t
  | string s => quote s
  | array items => 0x5b :: (commas (textItems items) ++ [0x5d])
  | object members => 0x7b :: (commas (textMembers members) ++ [0x7d])

/-- The texts of the items of an array. -/
def textItems : List Value → List JsString
  | [] => []
  | item :: rest => item.text :: textItems rest

/-- The texts of the members of an object. -/
def textMembers : List (JsString × Value) → List JsString
  | [] => []
  | (key, value) :: rest => (quote key ++ 0x3a :: value.text) :: textMembers rest

end

/-- The length of `serde_json::to_vec`. -/
def bytes (value : Value) : ℕ := utf8ByteLength value.text

/-- `Value::get` -/
def get (key : String) : Value → Option Value
  | object members => (members.find? fun m => m.1 = Utf16.ofString key).map Prod.snd
  | _ => none

/-- The items of an array. -/
def asArray : Value → Option (List Value)
  | array items => some items
  | _ => none

theorem textItems_eq (items : List Value) : textItems items = items.map text := by
  induction items with
  | nil => rfl
  | cons item items ih => rw [textItems, ih, List.map_cons]

/-- The bytes of a name, a colon and a value. -/
def memberBytes (m : JsString × Value) : ℕ := utf8ByteLength (quote m.1) + 1 + m.2.bytes

theorem textMembers_bytes (members : List (JsString × Value)) :
    (textMembers members).map utf8ByteLength = members.map memberBytes := by
  induction members with
  | nil => rfl
  | cons m members ih =>
      obtain ⟨key, value⟩ := m
      rw [textMembers, List.map_cons, List.map_cons, ih, memberBytes,
        utf8ByteLength_append_cons (by decide), utf8ByteLength_cons (by decide), bytes,
        Nat.add_assoc]

theorem bytes_array (items : List Value) :
    (array items).bytes = (items.map bytes).sum + (items.length - 1) + 2 := by
  have hsum : (textItems items).map utf8ByteLength = items.map bytes := by
    rw [textItems_eq, List.map_map]
    rfl
  have hlength : (textItems items).length = items.length := by
    rw [textItems_eq, List.length_map]
  rw [bytes, text, utf8ByteLength_cons (by decide), utf8ByteLength_append_cons (by decide),
    utf8ByteLength_commas, hsum, hlength, show utf8ByteLength [0x5d] = 1 from rfl]
  omega

theorem bytes_object (members : List (JsString × Value)) :
    (object members).bytes = (members.map memberBytes).sum + (members.length - 1) + 2 := by
  have hsum := textMembers_bytes members
  have hlength : (textMembers members).length = members.length := by
    simpa using congrArg List.length hsum
  rw [bytes, text, utf8ByteLength_cons (by decide), utf8ByteLength_append_cons (by decide),
    utf8ByteLength_commas, hsum, hlength, show utf8ByteLength [0x7d] = 1 from rfl]
  omega

end Value

/-! ## Results -/

/-- A block that is neither a text nor a medium is counted by its own text. -/
inductive ContentBlock
  | text (text : JsString)
  | image (data mimeType : JsString)
  | audio (data mimeType : JsString)
  | other (json : Value)

/-- The result of a tool call. -/
structure CallToolResult where
  content : List ContentBlock
  structuredContent : Option Value
  isError : Bool

/-- The id of a request of JSON-RPC. -/
inductive RequestId
  | number (n : ℤ)
  | string (s : JsString)

/-- What the envelope of a result needs beside it. -/
structure EnvelopeContext where
  requestId : RequestId
  protocolVersion : String

/-- What is written of a result. -/
structure JsonRpcResponse where
  id : RequestId
  result : CallToolResult
  resultType : Bool

/-- A result with what it comes to. -/
structure AccountedCallToolResult where
  result : CallToolResult
  textBytes : ℕ
  envelopeBytes : ℕ
  itemCount : ℕ

/-- The value, and its text for clients that know no structured content. -/
def structured (value : Value) : CallToolResult :=
  { content := [.text value.text], structuredContent := some value, isError := false }

/-- The version of the protocol has a type of results. -/
def EnvelopeContext.includesResultType (context : EnvelopeContext) : Bool :=
  decide ("2026-07-28" ≤ context.protocolVersion)

/-- The bytes of a block that count as text. -/
def ContentBlock.textBytes : ContentBlock → ℕ
  | text t => utf8ByteLength t
  | image _ _ | audio _ _ => 0
  | other json => json.bytes

/-- The bytes of a result without its images. -/
def nonImageTextBytes (result : CallToolResult) : ℕ :=
  (result.structuredContent.map Value.bytes).getD 0 + (result.content.map ContentBlock.textBytes).sum

/-- The items that a result is counted as. -/
def itemCount (result : CallToolResult) : ℕ :=
  match result.structuredContent with
  | none => max result.content.length 1
  | some value =>
    let counted := ["items", "assets", "matches", "nodes", "roots", "files", "pages"].findSome?
      fun key => (value.get key).bind Value.asArray
    (counted.map List.length).getD 1

variable (toVec : JsonRpcResponse → Option ℕ)

/-- The bytes of the response, on a writer that may fail. -/
def serializeMcpEnvelope (result : CallToolResult) (context : EnvelopeContext) :
    Except ToolError ℕ :=
  match toVec { id := context.requestId, result, resultType := context.includesResultType } with
  | some bytes => .ok bytes
  | none => .error (.new .internalError false)

/-- A result within the bounds of text and envelope. -/
def accountCallToolResult (result : CallToolResult) (context : EnvelopeContext) :
    Except ToolError AccountedCallToolResult :=
  let textBytes := nonImageTextBytes result
  if maxTextBytes < textBytes then .error (.new .limitExceeded false)
  else do
    let envelopeBytes ← serializeMcpEnvelope toVec result context
    if maxEnvelopeBytes < envelopeBytes then .error (.new .limitExceeded false)
    else .ok { result, textBytes, envelopeBytes, itemCount := itemCount result }

/-- The value is counted as such, and once more as its text. -/
theorem nonImageTextBytes_structured (value : Value) :
    nonImageTextBytes (structured value) = 2 * value.bytes := by
  show value.bytes + (value.bytes + 0) = 2 * value.bytes
  omega

/-- **A structured result is accepted** if its text fits twice, and its response fits. -/
theorem isOk_account_structured (value : Value) (context : EnvelopeContext) :
    (accountCallToolResult toVec (structured value) context).isOk = true ↔
      2 * value.bytes ≤ maxTextBytes ∧
        ∃ n, serializeMcpEnvelope toVec (structured value) context = .ok n ∧
          n ≤ maxEnvelopeBytes := by
  rw [accountCallToolResult, nonImageTextBytes_structured]
  by_cases htext : maxTextBytes < 2 * value.bytes
  · rw [if_pos htext]
    exact ⟨nofun, fun h => absurd h.1 (Nat.not_le.2 htext)⟩
  · rw [if_neg htext]
    cases henvelope : serializeMcpEnvelope toVec (structured value) context with
    | error e => exact ⟨nofun, fun ⟨_, n, hn, _⟩ => nomatch hn⟩
    | ok n =>
        show (if maxEnvelopeBytes < n then _ else _ : Except ToolError _).isOk = true ↔ _
        by_cases hn : maxEnvelopeBytes < n
        · rw [if_pos hn]
          refine ⟨nofun, fun ⟨_, m, hm, hle⟩ => ?_⟩
          obtain rfl := Except.ok.inj hm
          exact absurd hle (Nat.not_le.2 hn)
        · rw [if_neg hn]
          exact ⟨fun _ => ⟨Nat.not_lt.1 htext, n, rfl, Nat.not_lt.1 hn⟩, fun _ => rfl⟩

/-! ## A text within a text -/

/-- The bytes of a unit that is not the first of a pair. -/
def unitBytes (u : ℕ) : ℕ := if u ≤ 0x7f then 1 else if u ≤ 0x7ff then 2 else 3

theorem utf8ByteLength_cons_unit {u : ℕ} {t : JsString}
    (h : ∀ v ∈ t.head?, (Utf16.isHighSurrogate u && Utf16.isLowSurrogate v) = false) :
    utf8ByteLength (u :: t) = unitBytes u + utf8ByteLength t := by
  cases t with
  | nil => rfl
  | cons v t =>
      have hpair := h v rfl
      rw [utf8ByteLength, unitBytes, hpair, if_neg Bool.false_ne_true]
      split_ifs <;> rfl

theorem utf8ByteLength_ascii_append {s : JsString} (h : ∀ u ∈ s, u ≤ 0x7f) (t : JsString) :
    utf8ByteLength (s ++ t) = s.length + utf8ByteLength t := by
  induction s with
  | nil => exact (Nat.zero_add _).symm
  | cons u s ih =>
      have ⟨hu, hs⟩ := List.forall_mem_cons.1 h
      rw [List.cons_append, utf8ByteLength_cons hu, ih hs, List.length_cons]
      omega

theorem hexDigit_ascii {d : ℕ} (h : d < 16) : 0x20 ≤ hexDigit d ∧ hexDigit d ≤ 0x7f := by
  unfold hexDigit
  split_ifs <;> omega

/-- A unit that is no control character gets at most twice as long by its escape. -/
theorem utf8ByteLength_escapeUnit_append {u : ℕ} (hu : 0x20 ≤ u) (t : JsString) :
    utf8ByteLength (escapeUnit u ++ t) ≤ 2 * unitBytes u + utf8ByteLength t := by
  have hone : 1 ≤ unitBytes u := by
    unfold unitBytes
    split_ifs <;> omega
  unfold escapeUnit
  split_ifs with h1 h2 h3 h4 h5 h6 h7 h8
  iterate 7
    rw [utf8ByteLength_ascii_append (by decide)]
    exact Nat.add_le_add_right (show 2 ≤ 2 * unitBytes u by omega) _
  · have hsurrogate : Utf16.isSurrogate u = true := h8.resolve_left (by omega)
    simp only [Utf16.isSurrogate, Bool.and_eq_true, decide_eq_true_eq] at hsurrogate
    have hascii : ∀ v ∈ unicodeEscape u, v ≤ 0x7f := by
      simp only [unicodeEscape, List.forall_mem_cons]
      exact ⟨by decide, by decide, (hexDigit_ascii (by omega)).2, (hexDigit_ascii (by omega)).2,
        (hexDigit_ascii (by omega)).2, (hexDigit_ascii (by omega)).2, List.forall_mem_nil _⟩
    rw [utf8ByteLength_ascii_append hascii, unitBytes, if_neg (by omega), if_neg (by omega)]
    exact le_refl _
  · have hplain : Utf16.isHighSurrogate u = false := by
      simp only [Utf16.isSurrogate, Utf16.isHighSurrogate, not_or, Bool.and_eq_true,
        Bool.and_eq_false_iff, decide_eq_true_eq, decide_eq_false_iff_not] at h8 ⊢
      omega
    rw [List.singleton_append, utf8ByteLength_cons_unit fun v _ => by rw [hplain, Bool.false_and]]
    omega

theorem utf8ByteLength_pair {high low : ℕ}
    (h : (Utf16.isHighSurrogate high && Utf16.isLowSurrogate low) = true) (t : JsString) :
    utf8ByteLength (high :: low :: t) = 4 + utf8ByteLength t := by
  have hrange := h
  simp only [Utf16.isHighSurrogate, Bool.and_eq_true, decide_eq_true_eq] at hrange
  rw [utf8ByteLength, if_neg (by omega), if_neg (by omega), if_pos h]

/-- A string without control characters at most doubles, by the escapes in it. -/
theorem utf8ByteLength_quoteBody {s : JsString} (h : ∀ u ∈ s, 0x20 ≤ u) :
    utf8ByteLength (quoteBody s) ≤ 2 * utf8ByteLength s := by
  induction s using quoteBody.induct with
  | case1 high low tail hpair ih =>
      have htail := ih fun u hu => h u (List.mem_cons_of_mem _ (List.mem_cons_of_mem _ hu))
      rw [quoteBody, if_pos hpair, utf8ByteLength_pair hpair, utf8ByteLength_pair hpair]
      omega
  | case2 high low tail hpair ih =>
      obtain ⟨hhigh, hrest⟩ := List.forall_mem_cons.1 h
      have hescape := utf8ByteLength_escapeUnit_append hhigh (quoteBody (low :: tail))
      rw [quoteBody, if_neg hpair, utf8ByteLength_cons_unit fun v hv => by
        obtain rfl : low = v := Option.some.inj hv
        exact Bool.not_eq_true _ ▸ hpair]
      have htail := ih hrest
      omega
  | case3 u =>
      have hescape := utf8ByteLength_escapeUnit_append (h u List.mem_cons_self) []
      rw [List.append_nil] at hescape
      rw [quoteBody, show utf8ByteLength [u] = unitBytes u from rfl]
      exact hescape.trans_eq (Nat.add_zero _)
  | case4 => exact Nat.zero_le _

theorem printable_escapeUnit (u : ℕ) : ∀ v ∈ escapeUnit u, 0x20 ≤ v := by
  have hdigit : ∀ d, 0x20 ≤ hexDigit d := by
    intro d
    unfold hexDigit
    split_ifs <;> omega
  unfold escapeUnit
  split_ifs with h1 h2 h3 h4 h5 h6 h7 h8
  iterate 7 decide
  · simp only [unicodeEscape, List.forall_mem_cons]
    exact ⟨by decide, by decide, hdigit _, hdigit _, hdigit _, hdigit _, List.forall_mem_nil _⟩
  · intro v hv
    obtain rfl := List.mem_singleton.1 hv
    exact Nat.not_lt.1 (not_or.1 h8).1

theorem printable_quoteBody (s : JsString) : ∀ v ∈ quoteBody s, 0x20 ≤ v := by
  induction s using quoteBody.induct with
  | case1 high low tail hpair ih =>
      rw [quoteBody, if_pos hpair]
      simp only [Utf16.isHighSurrogate, Utf16.isLowSurrogate, Bool.and_eq_true,
        decide_eq_true_eq] at hpair
      exact List.forall_mem_cons.2 ⟨by omega, List.forall_mem_cons.2 ⟨by omega, ih⟩⟩
  | case2 high low tail hpair ih =>
      rw [quoteBody, if_neg hpair]
      exact List.forall_mem_append.2 ⟨printable_escapeUnit _, ih⟩
  | case3 u => exact printable_escapeUnit u
  | case4 => exact List.forall_mem_nil _

theorem printable_quote (s : JsString) : ∀ v ∈ quote s, 0x20 ≤ v :=
  List.forall_mem_cons.2 ⟨by decide, List.forall_mem_append.2 ⟨printable_quoteBody s, by decide⟩⟩

theorem printable_commas {pieces : List JsString} (h : ∀ piece ∈ pieces, ∀ v ∈ piece, 0x20 ≤ v) :
    ∀ v ∈ commas pieces, 0x20 ≤ v := by
  induction pieces with
  | nil => exact List.forall_mem_nil _
  | cons piece pieces ih =>
      have ⟨hpiece, hrest⟩ := List.forall_mem_cons.1 h
      cases pieces with
      | nil => rwa [commas_singleton]
      | cons next pieces =>
          rw [commas_cons_cons]
          exact List.forall_mem_append.2
            ⟨hpiece, List.forall_mem_cons.2 ⟨by decide, ih hrest⟩⟩

theorem printable_number {u : ℕ} (h : isNumberUnit u = true) : 0x20 ≤ u := by
  simp only [isNumberUnit, isDigit, Bool.or_eq_true, Bool.and_eq_true, decide_eq_true_eq,
    beq_iff_eq] at h
  omega

mutual

/-- The text of a value has no control characters. -/
theorem printable_text : ∀ value : Value, ∀ v ∈ value.text, 0x20 ≤ v
  | .null => by decide
  | .bool true => by decide
  | .bool false => by decide
  | .number t h => fun v hv => printable_number (List.all_eq_true.1 h v hv)
  | .string s => printable_quote s
  | .array items => List.forall_mem_cons.2 ⟨by decide, List.forall_mem_append.2
      ⟨printable_commas (printable_textItems items), by decide⟩⟩
  | .object members => List.forall_mem_cons.2 ⟨by decide, List.forall_mem_append.2
      ⟨printable_commas (printable_textMembers members), by decide⟩⟩

theorem printable_textItems : ∀ items : List Value,
    ∀ piece ∈ Value.textItems items, ∀ v ∈ piece, 0x20 ≤ v
  | [] => List.forall_mem_nil _
  | item :: rest => List.forall_mem_cons.2 ⟨printable_text item, printable_textItems rest⟩

theorem printable_textMembers : ∀ members : List (JsString × Value),
    ∀ piece ∈ Value.textMembers members, ∀ v ∈ piece, 0x20 ≤ v
  | [] => List.forall_mem_nil _
  | (key, value) :: rest => List.forall_mem_cons.2
      ⟨List.forall_mem_append.2
        ⟨printable_quote key, List.forall_mem_cons.2 ⟨by decide, printable_text value⟩⟩,
        printable_textMembers rest⟩

end

/-- **A text within a text**: the quotes around it, and at most an escape for each byte. -/
theorem bytes_quote_text (value : Value) :
    utf8ByteLength (quote value.text) ≤ 2 * value.bytes + 2 := by
  have hbody := utf8ByteLength_quoteBody (printable_text value)
  rw [quote, List.cons_append, utf8ByteLength_cons (by decide), utf8ByteLength_append_cons (by decide),
    show utf8ByteLength [0x22] = 1 from rfl, Value.bytes]
  omega

/-! ## The response -/

/-- The text of an integer. -/
def integerText (n : ℤ) : List ℕ :=
  if n < 0 then 0x2d :: NumberText.decimal n.natAbs else NumberText.decimal n.natAbs

theorem isNumberUnit_integerText (n : ℤ) : (integerText n).all isNumberUnit = true := by
  have hdigits : ∀ u ∈ NumberText.decimal n.natAbs, isNumberUnit u = true := by
    intro u hu
    simp only [isNumberUnit, isDigit_decimal hu, Bool.true_or]
  rw [List.all_eq_true, integerText]
  split_ifs
  · exact List.forall_mem_cons.2 ⟨rfl, hdigits⟩
  · exact hdigits

/-- An id, as it is sent. -/
def RequestId.toValue : RequestId → Value
  | number n => .number (integerText n) (isNumberUnit_integerText n)
  | string s => .string s

/-- The bytes of an id. -/
def RequestId.bytes (id : RequestId) : ℕ := id.toValue.bytes

/-- A writer of responses as JSON-RPC has them: around the id, the value and the quoted text there
are the names and the marks of the response. -/
def Frames (toVec : JsonRpcResponse → Option ℕ) : Prop :=
  ∀ response value, response.result = structured value → ∃ n, toVec response = some n ∧
    n ≤ response.id.bytes + utf8ByteLength (quote value.text) + value.bytes + 256

variable {toVec}

/-- A response fits where its text does, unless the client has sent a huge id. -/
theorem serializeMcpEnvelope_le (hframes : Frames toVec) {value : Value} {context : EnvelopeContext}
    (hid : context.requestId.bytes ≤ maxTextBytes) (h : 2 * value.bytes ≤ maxTextBytes) :
    ∃ n, serializeMcpEnvelope toVec (structured value) context = .ok n ∧ n ≤ maxEnvelopeBytes := by
  obtain ⟨n, hn, hle⟩ := hframes
    { id := context.requestId, result := structured value, resultType := context.includesResultType }
    value rfl
  refine ⟨n, by rw [serializeMcpEnvelope, hn], ?_⟩
  replace hle : n ≤ context.requestId.bytes + _ + value.bytes + 256 := hle
  have hquote := bytes_quote_text value
  rw [maxTextBytes] at hid h
  rw [maxEnvelopeBytes]
  omega

theorem isOk_account_iff (hframes : Frames toVec) (value : Value) {context : EnvelopeContext}
    (hid : context.requestId.bytes ≤ maxTextBytes) :
    (accountCallToolResult toVec (structured value) context).isOk = true ↔
      2 * value.bytes ≤ maxTextBytes :=
  (isOk_account_structured toVec value context).trans
    ⟨fun h => h.1, fun h => ⟨h, serializeMcpEnvelope_le hframes hid h⟩⟩

end FigmaDevMcp.Tools.Content

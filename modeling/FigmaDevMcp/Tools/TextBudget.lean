import FigmaDevMcp.Tools.Screenshot

set_option autoImplicit false

/-!
# The text budget of a design context

The plugin stops a forest when the nodes by themselves reach `MAX_TEXT_BYTES`. The server counts
the whole result, and counts it twice: as structured content, and as the text beside it.

* `GetDesignContextResult.toJs`: what the plugin sends;
* `Received`: what the server then holds;
* `bytes_received`, `byteLength_designContext`: how long its text is, from what was measured;
* `designContext_accepted_iff`: which results the server accepts.
-/

namespace FigmaDevMcp

open JsValue Protocol

/-! ## The result on the wire -/

/-- The times of a read. -/
structure ObservationWindow where
  startedAt : JsString
  completedAt : JsString

/-- The times of a read, as they are sent. -/
def ObservationWindow.toJs (w : ObservationWindow) : JsValue :=
  .object (member "startedAt" (.string w.startedAt) ++ member "completedAt" (.string w.completedAt))

/-- The error that `nodeError` makes. -/
def nodeErrorToJs (error : ToolError) : JsValue :=
  .object (member "code" (word (errorCodeWord error.code)) ++
    member "message" (word (canonicalMessage error.code)) ++
    member "retryable" (.bool error.retryable))

/-- An id that no node was found for, as it is sent. -/
def UnresolvedNode.toJs (node : UnresolvedNode) : JsValue :=
  .object (member "id" (.string node.id) ++ member "error" (nodeErrorToJs node.error))

/-- The result of `get_design_context`, as it is sent. -/
def GetDesignContextResult.toJs (result : GetDesignContextResult) (w : ObservationWindow) :
    JsValue :=
  .object (member "detail" (word result.detail.word) ++
    (member "roots" (.array (forestToJs result.roots)) ++
      (member "truncated" (.bool result.truncated) ++
        optional "truncation" (result.truncation.map Truncation.toJs) ++
        optional "unresolved" (if result.unresolved.isEmpty then none
          else some (.array (result.unresolved.map UnresolvedNode.toJs))) ++
        member "observation" w.toJs)))

/-- The bytes of an object with an array in it, from those with an empty array in its place. -/
theorem byteLength_object_array (before after : List Member) (key : String) {items : List JsValue}
    (hbefore : ∀ m ∈ before, HasText m.2) (hafter : ∀ m ∈ after, HasText m.2) :
    byteLength (.object (before ++ (member key (.array items) ++ after))) + 2 =
      byteLength (.array items) + byteLength (.object (before ++ (member key (.array []) ++ after))) := by
  have htext : ∀ items : List JsValue,
      ∀ m ∈ before ++ (member key (.array items) ++ after), HasText m.2 := fun items =>
    List.forall_mem_append.2 ⟨hbefore, List.forall_mem_append.2
      ⟨List.forall_mem_singleton.2 rfl, hafter⟩⟩
  have hnone : byteLength (.array []) = 2 := rfl
  rw [byteLength_object (htext items), byteLength_object (htext [])]
  simp only [member, memberBytes, List.map_append, List.map_cons, List.map_nil, List.sum_append,
    List.sum_cons, List.sum_nil, List.length_append, List.length_cons, List.length_nil, hnone]
  omega

/-- The text of a result is that of its forest, in place of that of no nodes. -/
theorem byteLength_designContext (result : GetDesignContextResult) (w : ObservationWindow) :
    byteLength (result.toJs w) + 2 =
      byteLength (.array (forestToJs result.roots)) +
        byteLength (({ result with roots := [] } : GetDesignContextResult).toJs w) := by
  refine byteLength_object_array _ _ "roots" (List.forall_mem_singleton.2 rfl) ?_
  refine List.forall_mem_append.2 ⟨List.forall_mem_append.2 ⟨List.forall_mem_append.2
    ⟨List.forall_mem_singleton.2 rfl, ?_⟩, ?_⟩, List.forall_mem_singleton.2 rfl⟩
  · cases result.truncation with
    | none => exact List.forall_mem_nil _
    | some t => exact List.forall_mem_singleton.2 rfl
  · cases result.unresolved with
    | nil => exact List.forall_mem_nil _
    | cons node nodes => exact List.forall_mem_singleton.2 rfl

namespace Tools.Content

/-! ## The result on the server -/

mutual

/-- The bytes of the numbers in a text. -/
def numberBytes : JsValue → ℕ
  | .number x => byteLength (.number x)
  | .array items => numberBytesItems items
  | .object members => numberBytesMembers members
  | _ => 0

/-- The same for the items of an array. -/
def numberBytesItems : List JsValue → ℕ
  | [] => 0
  | item :: rest => numberBytes item + numberBytesItems rest

/-- The same for the members of an object. -/
def numberBytesMembers : List Member → ℕ
  | [] => 0
  | (_, value) :: rest => numberBytes value + numberBytesMembers rest

end

mutual

/-- The bytes of the numbers in a value. -/
def Value.numberBytes : Value → ℕ
  | .number t _ => utf8ByteLength t
  | .array items => Value.numberBytesItems items
  | .object members => Value.numberBytesMembers members
  | _ => 0

/-- The same for the items of an array. -/
def Value.numberBytesItems : List Value → ℕ
  | [] => 0
  | item :: rest => item.numberBytes + Value.numberBytesItems rest

/-- The same for the members of an object. -/
def Value.numberBytesMembers : List (JsString × Value) → ℕ
  | [] => 0
  | (_, value) :: rest => value.numberBytes + Value.numberBytesMembers rest

end

mutual

/-- What the server holds of what it was sent: the same value, with its own texts for the numbers
and its own order of the members. -/
def Received : JsValue → Value → Prop
  | .null, .null => True
  | .bool b, .bool c => b = c
  | .number x, .number t _ => parseNumber t = some (x, [])
  | .string s, .string t => s = t
  | .array items, .array values => ReceivedItems items values
  | .object members, .object values => ∃ sent, ReceivedMembers members sent ∧ sent.Perm values
  | _, _ => False

/-- The same for the items of an array. -/
def ReceivedItems : List JsValue → List Value → Prop
  | [], [] => True
  | item :: items, value :: values => Received item value ∧ ReceivedItems items values
  | _, _ => False

/-- The same for the members of an object. -/
def ReceivedMembers : List Member → List (JsString × Value) → Prop
  | [], [] => True
  | (key, item) :: items, (name, value) :: values =>
    key = name ∧ Received item value ∧ ReceivedMembers items values
  | _, _ => False

end

theorem Value.numberBytesMembers_eq (members : List (JsString × Value)) :
    Value.numberBytesMembers members = (members.map fun m => m.2.numberBytes).sum := by
  induction members with
  | nil => rfl
  | cons m members ih => rw [Value.numberBytesMembers, ih, List.map_cons, List.sum_cons]

mutual

/-- The two texts differ by their numbers alone. -/
theorem bytes_received : ∀ (js : JsValue) (value : Value), Received js value →
    HasText js ∧ value.bytes + numberBytes js = byteLength js + value.numberBytes
  | .null, .null, _ => ⟨rfl, rfl⟩
  | .bool b, .bool c, h => by
      obtain rfl : b = c := h
      cases b <;> exact ⟨rfl, rfl⟩
  | .number x, .number t _, _ => by
      refine ⟨by cases x <;> rfl, ?_⟩
      rw [numberBytes, Value.numberBytes, Value.bytes, Value.text, Nat.add_comm]
  | .string s, .string t, h => by
      obtain rfl : s = t := h
      exact ⟨rfl, rfl⟩
  | .array items, .array values, h => by
      have ⟨htext, hlength, hbytes⟩ := bytes_receivedItems items values h
      refine ⟨rfl, ?_⟩
      rw [Value.bytes_array, byteLength_array htext, numberBytes, Value.numberBytes, hlength]
      omega
  | .object members, .object values, ⟨sent, h, hperm⟩ => by
      have ⟨htext, hlength, hbytes⟩ := bytes_receivedMembers members sent h
      refine ⟨rfl, ?_⟩
      rw [Value.numberBytesMembers_eq] at hbytes
      rw [Value.bytes_object, byteLength_object htext, numberBytes, Value.numberBytes, hlength,
        Value.numberBytesMembers_eq, ← (hperm.map Value.memberBytes).sum_eq,
        ← (hperm.map fun m => m.2.numberBytes).sum_eq, ← hperm.length_eq]
      omega

theorem bytes_receivedItems : ∀ (items : List JsValue) (values : List Value),
    ReceivedItems items values → (∀ item ∈ items, HasText item) ∧
      items.length = values.length ∧
      (values.map Value.bytes).sum + numberBytesItems items =
        (items.map byteLength).sum + Value.numberBytesItems values
  | [], [], _ => ⟨List.forall_mem_nil _, rfl, rfl⟩
  | item :: items, value :: values, h => by
      have ⟨htext, hbytes⟩ := bytes_received item value h.1
      have ⟨htexts, hlength, hrest⟩ := bytes_receivedItems items values h.2
      refine ⟨List.forall_mem_cons.2 ⟨htext, htexts⟩, congrArg (· + 1) hlength, ?_⟩
      rw [List.map_cons, List.map_cons, List.sum_cons, List.sum_cons, numberBytesItems,
        Value.numberBytesItems]
      omega

theorem bytes_receivedMembers : ∀ (members : List Member) (values : List (JsString × Value)),
    ReceivedMembers members values → (∀ m ∈ members, HasText m.2) ∧
      members.length = values.length ∧
      (values.map Value.memberBytes).sum + numberBytesMembers members =
        (members.map memberBytes).sum + Value.numberBytesMembers values
  | [], [], _ => ⟨List.forall_mem_nil _, rfl, rfl⟩
  | (key, item) :: members, (name, value) :: values, h => by
      obtain ⟨rfl, hvalue, hrest⟩ := h
      have ⟨htext, hbytes⟩ := bytes_received item value hvalue
      have ⟨htexts, hlength, hsum⟩ := bytes_receivedMembers members values hrest
      refine ⟨List.forall_mem_cons.2 ⟨htext, htexts⟩, congrArg (· + 1) hlength, ?_⟩
      rw [List.map_cons, List.map_cons, List.sum_cons, List.sum_cons, numberBytesMembers,
        Value.numberBytesMembers, Value.memberBytes, memberBytes]
      dsimp only
      omega

end

/-! ## What is accepted -/

/-- The nodes of a design context are within the budget of the plugin. -/
theorem bytes_readDesignContext {ρ : Type} [DecidableEq ρ] {figma : Figma ρ}
    {input : GetDesignContextInput} {names : Names} {result : GetDesignContextResult}
    (hread : figma.readDesignContext input names = .ok result) :
    measuredBytes result.roots ≤ maxTextBytes ∧
      byteLength (.array (forestToJs result.roots)) =
        measuredBytes result.roots + punctuationBytes result.roots := by
  obtain ⟨found, -, hread⟩ := Guard.bind_eq_ok.1 hread
  obtain ⟨forest, hforest, hread⟩ := Guard.bind_eq_ok.1 hread
  obtain rfl := figma.serializePreparedForest_eq hforest
  obtain rfl := Except.ok.inj hread
  exact figma.serializeNodeForest_bytes _ found.roots

/-- **Which design contexts the server accepts**: those whose text fits its budget twice, as long as
the response around it fits too, and it does unless the id of the request is huge. The text is
what the plugin has measured of the nodes, with the punctuation of the forest, the rest of the
result, and what the numbers gain or lose by being written anew. -/
theorem designContext_accepted_iff {ρ : Type} [DecidableEq ρ] {figma : Figma ρ}
    {input : GetDesignContextInput} {names : Names} {result : GetDesignContextResult}
    (hread : figma.readDesignContext input names = .ok result) {w : ObservationWindow}
    {value : Value} (hvalue : Received (result.toJs w) value)
    (toVec : JsonRpcResponse → Option ℕ) (context : EnvelopeContext) :
    ((accountCallToolResult toVec (structured value) context).isOk = true ↔
        2 * value.bytes ≤ maxTextBytes ∧
          ∃ n, serializeMcpEnvelope toVec (structured value) context = .ok n ∧
            n ≤ maxEnvelopeBytes) ∧
      (Frames toVec → context.requestId.bytes ≤ maxTextBytes →
        ((accountCallToolResult toVec (structured value) context).isOk = true ↔
          2 * value.bytes ≤ maxTextBytes)) ∧
      measuredBytes result.roots ≤ maxTextBytes ∧
      value.bytes + numberBytes (result.toJs w) + 2 =
        measuredBytes result.roots + punctuationBytes result.roots +
          byteLength (({ result with roots := [] } : GetDesignContextResult).toJs w) +
          value.numberBytes := by
  have ⟨hbudget, hforest⟩ := bytes_readDesignContext hread
  have htext := (bytes_received _ _ hvalue).2
  have hresult := byteLength_designContext result w
  refine ⟨isOk_account_structured toVec value context,
    fun hframes hid => isOk_account_iff hframes value hid, hbudget, ?_⟩
  rw [hforest] at hresult
  omega

/-! ## A refused one -/

/-- A block, as it is sent. -/
def ContentBlock.toValue : ContentBlock → Value
  | text t => .object [entry "type" (.ofString "text"), entry "text" (.string t)]
  | image data mimeType => .object [entry "type" (.ofString "image"), entry "data" (.string data),
      entry "mimeType" (.string mimeType)]
  | audio data mimeType => .object [entry "type" (.ofString "audio"), entry "data" (.string data),
      entry "mimeType" (.string mimeType)]
  | other json => json

/-- The members of a result, as they are sent. -/
def CallToolResult.members (result : CallToolResult) : List (JsString × Value) :=
  entry "content" (.array (result.content.map ContentBlock.toValue)) ::
    ((result.structuredContent.map (entry "structuredContent")).toList ++
      [entry "isError" (.bool result.isError)])

/-- A response of the protocol. -/
def JsonRpcResponse.toValue (response : JsonRpcResponse) : Value :=
  .object [entry "jsonrpc" (.ofString "2.0"), entry "id" response.id.toValue,
    entry "result" (.object (response.result.members ++
      if response.resultType then [entry "resultType" (.ofString "complete")] else []))]

/-- The bytes of a response. -/
def mcpFrame (response : JsonRpcResponse) : Option ℕ := some response.toValue.bytes

theorem frames_mcpFrame : Frames mcpFrame := by
  intro response value h
  refine ⟨_, rfl, ?_⟩
  have hkeys : ∀ key ∈ ["jsonrpc", "id", "result", "content", "type", "text", "structuredContent",
      "isError", "resultType"], utf8ByteLength (quote (Utf16.ofString key)) ≤ 19 := by
    decide
  have hwords : ∀ s ∈ ["2.0", "text", "complete"], (Value.ofString s).bytes ≤ 10 := by
    decide
  simp only [List.forall_mem_cons] at hkeys hwords
  have hfalse : (Value.bool false).bytes = 5 := rfl
  have htext : (Value.string value.text).bytes = utf8ByteLength (quote value.text) := rfl
  cases hType : response.resultType <;>
    simp only [JsonRpcResponse.toValue, CallToolResult.members, h, hType, structured, Value.bytes_object, Value.bytes_array,
      ContentBlock.toValue, entry, Value.memberBytes, List.map_cons, List.map_nil, List.sum_cons,
      List.sum_nil, List.length_cons, List.length_nil, Option.map_some, Option.toList_some,
      List.cons_append, List.nil_append, RequestId.bytes, hfalse, htext, if_true, Bool.false_eq_true, if_false] <;>
    omega

mutual

/-- What is plain can be received with the numbers as they were sent. -/
theorem exists_received : ∀ js : JsValue, Plain js →
    ∃ value, Received js value ∧ value.numberBytes = numberBytes js
  | .null, _ => ⟨.null, trivial, rfl⟩
  | .bool b, _ => ⟨.bool b, rfl, rfl⟩
  | .string s, _ => ⟨.string s, rfl, rfl⟩
  | .number (.finite q), h => by
      obtain ⟨n, hn, rfl⟩ := h
      refine ⟨.number (integerText n) (isNumberUnit_integerText n), ?_, ?_⟩
      · have hparse := parseNumber_decimal hn (nofun : Stops [])
        rw [List.append_nil] at hparse
        exact hparse
      · have htext : stringify (.number (.finite n)) = some (integerText n) :=
          congrArg some (NumberText.toText_natCast hn)
        rw [Value.numberBytes, numberBytes, byteLength_of_stringify htext]
  | .array items, h => by
      obtain ⟨values, hvalues, hbytes⟩ := exists_receivedItems items h
      exact ⟨.array values, hvalues, hbytes⟩
  | .object members, h => by
      obtain ⟨values, hvalues, hbytes⟩ := exists_receivedMembers members h.1
      exact ⟨.object values, ⟨values, hvalues, .refl _⟩, hbytes⟩

theorem exists_receivedItems : ∀ items : List JsValue, PlainItems items →
    ∃ values, ReceivedItems items values ∧
      Value.numberBytesItems values = numberBytesItems items
  | [], _ => ⟨[], trivial, rfl⟩
  | item :: items, h => by
      obtain ⟨value, hvalue, hbytes⟩ := exists_received item h.1
      obtain ⟨values, hvalues, hrest⟩ := exists_receivedItems items h.2
      refine ⟨value :: values, ⟨hvalue, hvalues⟩, ?_⟩
      rw [Value.numberBytesItems, numberBytesItems, hbytes, hrest]

theorem exists_receivedMembers : ∀ members : List Member, PlainMembers members →
    ∃ values, ReceivedMembers members values ∧
      Value.numberBytesMembers values = numberBytesMembers members
  | [], _ => ⟨[], trivial, rfl⟩
  | (key, item) :: members, h => by
      obtain ⟨value, hvalue, hbytes⟩ := exists_received item h.2.1
      obtain ⟨values, hvalues, hrest⟩ := exists_receivedMembers members h.2.2
      refine ⟨(key, value) :: values, ⟨rfl, hvalue, hvalues⟩, ?_⟩
      rw [Value.numberBytesMembers, numberBytesMembers, hbytes, hrest]

end

/-- It is as long as what was sent. -/
theorem exists_received_bytes {js : JsValue} (h : Plain js) :
    ∃ value, Received js value ∧ value.bytes = byteLength js := by
  obtain ⟨value, hvalue, hnumbers⟩ := exists_received js h
  have hbytes := (bytes_received js value hvalue).2
  exact ⟨value, hvalue, by omega⟩

end Tools.Content

/-! ## A frame with a long name -/

/-- A document whose ids all find one frame, with a name of 1024 quotation marks. -/
def quoted : Figma ℕ where
  get node key :=
    if key = "id" then .string (text "1:2")
    else if key = "name" then .string (List.replicate 1024 0x22)
    else if key = "type" then .string (text (if node = 2 then "PAGE" else "FRAME"))
    else .undefined
  parent _ := none
  children _ := []
  children_length _ := Nat.two_pow_pos 32
  get_units node key s h := by
    split_ifs at h
    · exact JsValue.string.inj h ▸ Utf16.units_ofString _
    · obtain rfl := JsValue.string.inj h
      exact fun u hu => List.eq_of_mem_replicate hu ▸ by decide
    · exact JsValue.string.inj h ▸ Utf16.units_ofString _
    · exact JsValue.string.inj h ▸ Utf16.units_ofString _
  currentPage := 2
  currentPage_isPage := by decide
  selection := []
  getNodeByIdAsync := some fun _ => .found 0
  loadAsync _ := true

/-- An input with the same id many times. -/
def quotedInput (n : ℕ) : GetDesignContextInput :=
  { selector := some (.nodeIds (List.replicate n (text "1:2"))), detail := some .minimal }

/-- A minimal read. -/
def quotedOptions : SerializeNodeForestOptions :=
  { detail := .minimal, depth := 2, dedupeComponents := false }

theorem byteLength_quoted : byteLength (quoted.candidate quotedOptions 0).toJs = 2151 := by
  decide +kernel

theorem resolveNodeIds_quoted (n : ℕ) (found : DesignRoots ℕ) :
    quoted.resolveNodeIds (List.replicate n (text "1:2")) found =
      .ok { found with roots := found.roots ++ List.replicate n 0 } := by
  induction n generalizing found with
  | zero => rw [List.replicate_zero, List.replicate_zero, List.append_nil]; rfl
  | succ n ih =>
      have hlookup : quoted.lookupNode (text "1:2") = .ok (some 0) := rfl
      have hrenders : quoted.visibilityOf 0 = .renders := by decide +kernel
      have hloaded : quoted.loadPageIfNeeded 0 = .ok 0 := by decide +kernel
      rw [List.replicate_succ, Figma.resolveNodeIds, hlookup, Guard.ok_bind]
      simp only [hrenders, hloaded, Guard.ok_bind]
      rw [ih, List.replicate_succ, List.append_assoc]
      rfl

theorem serializeNode_quoted {context : SerializerContext}
    (hvisited : context.visitedNodes < maxVisitedNodes)
    (hreturned : context.returnedNodes < maxReturnedNodes)
    (hbytes : context.encodedBytes + 2151 ≤ maxTextBytes) :
    quoted.serializeNode quotedOptions 2 [] 0 context =
      (some (quoted.candidate quotedOptions 0), context.visit.charge 2151) := by
  have hchildren : quoted.visibleChildren 0 = [] := rfl
  have hstubbed : ¬ quoted.stubbed quotedOptions [] 0 context = true := Bool.false_ne_true
  have hbudget : ¬ quotedOptions.limits.encodedBytes < context.encodedBytes + 2151 :=
    Nat.not_lt.2 hbytes
  rw [Host.serializeNode,
    if_neg (show ¬ quotedOptions.limits.visitedNodes ≤ _ from Nat.not_le.2 hvisited),
    if_neg (show ¬ quotedOptions.limits.returnedNodes ≤ _ from Nat.not_le.2 hreturned),
    if_neg hstubbed]
  dsimp only
  rw [byteLength_quoted, if_neg hbudget, if_pos hchildren]
  rfl

theorem serializeAll_quoted {n : ℕ} {context : SerializerContext}
    (hvisited : context.visitedNodes + n ≤ maxVisitedNodes)
    (hreturned : context.returnedNodes + n ≤ maxReturnedNodes)
    (hbytes : context.encodedBytes + n * 2151 ≤ maxTextBytes) :
    let row := serializeAll (quoted.serializeNode quotedOptions 2 []) (List.replicate n 0) context
    row.nodes = List.replicate n (quoted.candidate quotedOptions 0) ∧
      row.context.truncation = context.truncation := by
  induction n generalizing context with
  | zero => exact ⟨rfl, rfl⟩
  | succ n ih =>
      have hvisit : (context.visit.charge 2151).visitedNodes = context.visitedNodes + 1 := rfl
      have hreturn : (context.visit.charge 2151).returnedNodes = context.returnedNodes + 1 := rfl
      have hcharge : (context.visit.charge 2151).encodedBytes = context.encodedBytes + 2151 := rfl
      have ⟨hnodes, htruncation⟩ := @ih (context.visit.charge 2151) (by omega) (by omega)
        (by omega)
      rw [List.replicate_succ, serializeAll, serializeNode_quoted (by omega) (by omega) (by omega)]
      exact ⟨congrArg (_ :: ·) hnodes, htruncation⟩

/-- What is read of the frame, `n` times. -/
def quotedResult (n : ℕ) : GetDesignContextResult where
  detail := .minimal
  roots := List.replicate n (quoted.candidate quotedOptions 0)
  truncated := false
  truncation := none
  unresolved := []

theorem readDesignContext_quoted {n : ℕ} (hn : n ≤ maxReturnedNodes) :
    quoted.readDesignContext (quotedInput n) {} = .ok (quotedResult n) := by
  have hroots : quoted.resolveDesignRoots (quotedInput n).selector =
      .ok { roots := List.replicate n 0 } := resolveNodeIds_quoted n {}
  have hload : quoted.loadDocumentPages (List.replicate n 0) = .ok () := by
    clear hn hroots
    induction n with
    | zero => rfl
    | succ n ih => exact ih
  rw [maxReturnedNodes] at hn
  obtain ⟨hnodes, htruncation⟩ := @serializeAll_quoted n {}
    (show 0 + n ≤ 10000 by omega) (show 0 + n ≤ 2000 by omega)
    (show 0 + n * 2151 ≤ 8 * 1024 * 1024 by omega)
  have hforest : quoted.serializeNodeForest quotedOptions (List.replicate n 0) =
      { nodes := List.replicate n (quoted.candidate quotedOptions 0), truncated := false
        truncation := none } := by
    have hdepth : quotedOptions.appliedDepth = 2 := rfl
    rw [Host.serializeNodeForest, hdepth, htruncation, hnodes]
    rfl
  rw [Figma.readDesignContext, hroots, Guard.ok_bind, Figma.serializePreparedForest, hload,
    Guard.ok_bind]
  show (do
    let forest ← Except.ok (quoted.serializeNodeForest quotedOptions (List.replicate n 0))
    return { detail := .minimal, roots := forest.nodes, truncated := forest.truncated
             truncation := forest.truncation, unresolved := [] }) = Except.ok (quotedResult n)
  rw [hforest]
  rfl

theorem plain_candidate : Plain (quoted.candidate quotedOptions 0).toJs := by
  have hname : Utf16.Units (List.replicate 1024 0x22) := fun u hu =>
    List.eq_of_mem_replicate hu ▸ by decide
  have hsummary : Plain (.object [(text "id", .string (text "1:2")),
      (text "name", .string (List.replicate 1024 0x22)), (text "nodeType", word "FRAME")]) :=
    ⟨⟨Utf16.units_ofString _, Utf16.units_ofString _, Utf16.units_ofString _, hname,
      Utf16.units_ofString _, Utf16.units_ofString _, trivial⟩, by decide⟩
  exact ⟨⟨Utf16.units_ofString _, hsummary, Utf16.units_ofString _, ⟨trivial, List.nodup_nil⟩,
    Utf16.units_ofString _, trivial, Utf16.units_ofString _, trivial, trivial⟩, by decide⟩

theorem plain_quoted (n : ℕ) {w : ObservationWindow} (hstarted : Utf16.Units w.startedAt)
    (hcompleted : Utf16.Units w.completedAt) : Plain ((quotedResult n).toJs w) := by
  have hroots : PlainItems (forestToJs (quotedResult n).roots) := by
    show PlainItems (forestToJs (List.replicate n _))
    induction n with
    | zero => trivial
    | succ n ih => exact ⟨plain_candidate, ih⟩
  have hw : Plain w.toJs :=
    ⟨⟨Utf16.units_ofString _, hstarted, Utf16.units_ofString _, hcompleted, trivial⟩,
      (by decide : [text "startedAt", text "completedAt"].Nodup)⟩
  exact ⟨⟨Utf16.units_ofString _, Utf16.units_ofString _, Utf16.units_ofString _, hroots,
    Utf16.units_ofString _, trivial, Utf16.units_ofString _, hw, trivial⟩,
    (by decide : [text "detail", text "roots", text "truncated", text "observation"].Nodup)⟩

/-- The text of the result is at least that of its nodes. -/
theorem le_byteLength_quoted (n : ℕ) (w : ObservationWindow) :
    n * 2151 ≤ byteLength ((quotedResult n).toJs w) := by
  have hsum : ((forestToJs (quotedResult n).roots).map byteLength).sum = n * 2151 := by
    show ((forestToJs (List.replicate n _)).map byteLength).sum = n * 2151
    induction n with
    | zero => rfl
    | succ n ih =>
        rw [List.replicate_succ, forestToJs, List.map_cons, List.sum_cons, ih, byteLength_quoted]
        omega
  have hresult := byteLength_designContext (quotedResult n) w
  rw [byteLength_array (hasText_forestToJs _), hsum] at hresult
  omega

namespace Tools.Content

/-- The times of a read. -/
def quotedWindow : ObservationWindow :=
  { startedAt := text "2026-08-20T00:00:00.000Z", completedAt := text "2026-08-20T00:00:01.000Z" }

/-- A context. -/
def quotedContext : EnvelopeContext :=
  { requestId := .number 7, protocolVersion := "2026-07-28" }

theorem exists_received_quoted (n : ℕ) : ∃ value,
    Received ((quotedResult n).toJs quotedWindow) value ∧
      value.bytes = byteLength ((quotedResult n).toJs quotedWindow) :=
  exists_received_bytes (plain_quoted n (Utf16.units_ofString _) (Utf16.units_ofString _))

/-- The frame once, which is accepted. -/
theorem designContext_accepted_quoted :
    ∃ value, Received ((quotedResult 1).toJs quotedWindow) value ∧
      (accountCallToolResult mcpFrame (structured value) quotedContext).isOk = true := by
  obtain ⟨value, hvalue, hbytes⟩ := exists_received_quoted 1
  have hlength : byteLength ((quotedResult 1).toJs quotedWindow) ≤ 4096 := by decide +kernel
  have ⟨_, haccepted, _⟩ := designContext_accepted_iff (readDesignContext_quoted (by decide)) hvalue
    mcpFrame quotedContext
  refine ⟨value, hvalue, (haccepted frames_mcpFrame (by decide)).2 ?_⟩
  rw [hbytes, maxTextBytes]
  omega

/-- Two thousand times the frame: the nodes are within the budget, and the result is refused. -/
theorem account_refuses_within_budget :
    ∃ result value, quoted.readDesignContext (quotedInput 2000) {} = .ok result ∧
      measuredBytes result.roots ≤ maxTextBytes ∧
      Received (result.toJs quotedWindow) value ∧
      (accountCallToolResult mcpFrame (structured value) quotedContext).isOk = false := by
  have hread := readDesignContext_quoted (n := 2000) (le_refl _)
  obtain ⟨value, hvalue, hbytes⟩ := exists_received_quoted 2000
  refine ⟨quotedResult 2000, value, hread, (bytes_readDesignContext hread).1, hvalue, ?_⟩
  have hle := le_byteLength_quoted 2000 quotedWindow
  rw [Bool.eq_false_iff]
  intro haccepted
  have hfits := ((isOk_account_structured mcpFrame value quotedContext).1 haccepted).1
  rw [hbytes, maxTextBytes] at hfits
  omega

end Tools.Content

end FigmaDevMcp

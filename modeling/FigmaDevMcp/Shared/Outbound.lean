import FigmaDevMcp.Protocol.Writing
import FigmaDevMcp.Shared.Reparsing
import FigmaDevMcp.Shared.ResultParts

set_option autoImplicit false

/-!
# Messages of the controller

The parsers of `validation.ts` for what the controller posts to the user interface, and for the
metadata request that the user interface posts to it.

* `parsePluginFailure`, `parseCapabilitySet`, `parseControllerOutboundMessage`: from the source;
* `ControllerOutboundMessage.toJs`: the message as it is posted;
* `parseControllerOutboundMessage_response`, `parseControllerOutboundMessage_error`, …: what becomes
  of a message that is posted under a valid id.
-/

namespace FigmaDevMcp.Plugin

open JsValue

/-- The largest unsigned integer of 32 bits. -/
def U32_MAX : ℕ := 4294967295

/-- A string that can be shown. -/
def displayText (value : JsValue) (label : JsString) : Parsed JsString :=
  boundedString value label maxDisplayTextBytes true

/-- An unsigned integer of 32 bits. -/
def parseU32 (value : JsValue) (label : JsString) : Parsed ℕ :=
  ResultValidation.integer value label U32_MAX

/-- A capability that is left out is not there. -/
def optionalCapability (object : JsValue) (key : String) : Parsed Bool := do
  return (← optionalMember object key boolean).getD false

/-- The names of the capabilities. -/
def capabilityFields : List String :=
  ["annotations", "devResources", "motion", "svgStringExport", "variableCodeSyntax"]

/-- The capabilities of a plugin. -/
def parseCapabilitySet (value : JsValue) : Parsed CapabilitySet := do
  let object ← exact value (text "capabilities") [] capabilityFields
  return {
    annotations := ← optionalCapability object "annotations"
    devResources := ← optionalCapability object "devResources"
    motion := ← optionalCapability object "motion"
    svgStringExport := ← optionalCapability object "svgStringExport"
    variableCodeSyntax := ← optionalCapability object "variableCodeSyntax" }

/-! ## Failures -/

/-- A code by its word. -/
def errorCode (value : JsValue) : Parsed ErrorCode :=
  match value with
  | .string _ =>
    match Protocol.errorCodeWords.find? fun candidate => isWord value candidate.1 with
    | some candidate => .ok candidate.2
    | none => fail (text "unknown error code")
  | _ => fail (text "error code must be a string")

/-- The error of an item. -/
def parseFailureItem (itemIndex : ℕ) (value : JsValue) : Parsed PluginItemFailure := do
  let item ← exact value (text "error item " ++ NumberText.decimal itemIndex)
    ["index", "code", "retryable"] ["id"]
  let index ← unsignedInteger (item.field "index") (text "index")
  let id ← optionalIdentifier item "id"
  let code ← errorCode (item.field "code")
  return { index, id, code, retryable := ← boolean (item.field "retryable") (text "retryable") }

/-- The errors of items, one after another. -/
def parseFailureItems : ℕ → List JsValue → Parsed (List PluginItemFailure)
  | _, [] => .ok []
  | itemIndex, value :: rest => do
    let item ← parseFailureItem itemIndex value
    return item :: (← parseFailureItems (itemIndex + 1) rest)

/-- The errors of items, of which there may be so many. -/
def failureItems (value : JsValue) (_ : JsString) : Parsed (List PluginItemFailure) :=
  match value with
  | .array items =>
    if maxInputIds < items.length then fail (text "too many error items")
    else parseFailureItems 0 items
  | _ => fail (text "error items must be an array")

/-- A failure. -/
def parsePluginFailure (value : JsValue) : Parsed PluginFailure := do
  let object ← exact value (text "plugin failure") ["code", "retryable"] ["items"]
  let code ← errorCode (object.field "code")
  let retryable ← boolean (object.field "retryable") (text "retryable")
  return { code, retryable, items := ← optionalMember object "items" failureItems }

/-! ## Messages -/

/-- The id of a request for metadata. -/
def parseControllerMetadataRequest (value : JsValue) : Parsed JsString := do
  let object ← exact value (text "controller metadata request") ["type", "metadataRequestId"]
  if isWord (object.field "type") "requestControllerReady" then
    parseUuid (object.field "metadataRequestId")
  else fail (text "unknown controller control message")

/-- A ready message. -/
def parseControllerReady (ready : JsValue) : Parsed ControllerReady := do
  let currentPage ← exact (ready.field "currentPage") (text "currentPage") ["id", "name"]
  let metadataRequestId ← parseUuid (ready.field "metadataRequestId")
  let fileName ← displayText (ready.field "fileName") (text "fileName")
  let id ← identifier (currentPage.field "id") (text "currentPage.id")
  let name ← displayText (currentPage.field "name") (text "currentPage.name")
  let editorType ← displayText (ready.field "editorType") (text "editorType")
  let pluginVersion ← identifier (ready.field "pluginVersion") (text "pluginVersion")
  return {
    metadataRequestId, fileName, currentPage := { id, name }, editorType, pluginVersion
    capabilities := ← parseCapabilitySet (ready.field "capabilities") }

/-- The progress of a read. -/
def parseProgress (progress : JsValue) : Parsed Progress := do
  let completed ← parseU32 (progress.field "completed") (text "completed")
  let total ← optionalMember progress "total" parseU32
  return { completed, total, message := ← optionalMember progress "message" displayText }

/-- The ids of a message about a request. -/
def parseRequestIds (message : JsValue) : Parsed (JsString × JsString) := do
  let controllerRequestId ← parseUuid (message.field "controllerRequestId")
  return (controllerRequestId, ← identifier (message.field "requestId") (text "requestId"))

section

variable {Result : Type} (parseReadResult : JsValue → Parsed Result)

/-- A message of the main thread. -/
def parseControllerOutboundMessage (value : JsValue) : Parsed (ControllerOutboundMessage Result) := do
  let object ← record value (text "controller message")
  let type := object.field "type"
  if isWord type "controllerReady" then
    let ready ← exact object (text "controllerReady")
      ["type", "metadataRequestId", "fileName", "currentPage", "editorType", "pluginVersion",
        "capabilities"]
    return .controllerReady (← parseControllerReady ready)
  else if isWord type "progress" then
    let progress ← exact object (text "progress")
      ["type", "controllerRequestId", "requestId", "completed"] ["total", "message"]
    let ids ← parseRequestIds progress
    return .progress ids.1 ids.2 (← parseProgress progress)
  else if isWord type "response" then
    let response ← exact object (text "response")
      ["type", "controllerRequestId", "requestId", "result"]
    let ids ← parseRequestIds response
    return .response ids.1 ids.2 (← parseReadResult (response.field "result"))
  else if isWord type "error" then
    let error ← exact object (text "error") ["type", "controllerRequestId", "requestId", "error"]
    let ids ← parseRequestIds error
    return .error ids.1 ids.2 (← parsePluginFailure (error.field "error"))
  else fail (text "unknown controller message tag")

end

/-! ## What is posted -/

/-- Capabilities, as they are sent. -/
def CapabilitySet.toJs (c : CapabilitySet) : JsValue :=
  .object (member "annotations" (.bool c.annotations) ++ member "devResources" (.bool c.devResources) ++
    member "motion" (.bool c.motion) ++ member "svgStringExport" (.bool c.svgStringExport) ++
    member "variableCodeSyntax" (.bool c.variableCodeSyntax))

/-- A page, as it is sent. -/
def PageIdentity.toJs (p : PageIdentity) : JsValue :=
  .object (member "id" (.string p.id) ++ member "name" (.string p.name))

/-- The error of an item, as it is sent. -/
def PluginItemFailure.toJs (item : PluginItemFailure) : JsValue :=
  .object (member "index" (natural item.index) ++ optional "id" (item.id.map .string) ++
    member "code" (FigmaDevMcp.word (Protocol.errorCodeWord item.code)) ++
    member "retryable" (.bool item.retryable))

/-- The errors of items, as they are sent. -/
def itemsToJs (items : List PluginItemFailure) : JsValue := .array (items.map PluginItemFailure.toJs)

/-- A failure, as it is sent. -/
def PluginFailure.toJs (failure : PluginFailure) : JsValue :=
  .object (member "code" (FigmaDevMcp.word (Protocol.errorCodeWord failure.code)) ++
    member "retryable" (.bool failure.retryable) ++ optional "items" (failure.items.map itemsToJs))

/-- The ids that a message about a request has. -/
def idMembers (controllerRequestId requestId : JsString) : List Member :=
  member "controllerRequestId" (.string controllerRequestId) ++
    member "requestId" (.string requestId)

section

variable {Result : Type} (print : Result → JsValue)

/-- A message of the main thread, as it is sent. -/
def ControllerOutboundMessage.toJs : ControllerOutboundMessage Result → JsValue
  | .controllerReady ready =>
    .object (member "type" (FigmaDevMcp.word "controllerReady") ++
      member "metadataRequestId" (.string ready.metadataRequestId) ++
      member "fileName" (.string ready.fileName) ++ member "currentPage" ready.currentPage.toJs ++
      member "editorType" (.string ready.editorType) ++
      member "pluginVersion" (.string ready.pluginVersion) ++
      member "capabilities" ready.capabilities.toJs)
  | .progress controllerRequestId requestId p =>
    .object (member "type" (FigmaDevMcp.word "progress") ++ idMembers controllerRequestId requestId ++
      member "completed" (natural p.completed) ++ optional "message" (p.message.map .string) ++
      optional "total" (p.total.map natural))
  | .response controllerRequestId requestId result =>
    .object (member "type" (FigmaDevMcp.word "response") ++ idMembers controllerRequestId requestId ++
      member "result" (print result))
  | .error controllerRequestId requestId failure =>
    .object (member "type" (FigmaDevMcp.word "error") ++ idMembers controllerRequestId requestId ++
      member "error" failure.toJs)

end

/-! ## What becomes of it -/

/-- A message is about a request of the user interface. -/
structure Addressed (controllerRequestId requestId : JsString) : Prop where
  uuid : parseUuid (.string controllerRequestId) = .ok controllerRequestId
  requestId : IsIdentifier requestId

section

variable {k requestId : JsString}

theorem parseRequestIds_ok (h : Addressed k requestId) {members : List Member}
    (hk : lookup (text "controllerRequestId") members = some (.string k))
    (hid : lookup (text "requestId") members = some (.string requestId)) :
    parseRequestIds (.object members) = .ok (k, requestId) := by
  rw [parseRequestIds, field_eq hk, field_eq hid, h.uuid, Guard.ok_bind, identifier_ok h.requestId]
  rfl

theorem key_ids {key : JsString} (h : key ∈ (idMembers k requestId).map Prod.fst) :
    key = text "controllerRequestId" ∨ key = text "requestId" := by
  rw [idMembers, List.map_append, List.mem_append] at h
  exact h.imp key_member key_member

theorem lookup_ids (key : String) :
    lookup (text key) (idMembers k requestId) =
      if "controllerRequestId" = key then some (.string k)
      else if "requestId" = key then some (.string requestId) else none := by
  rw [idMembers, lookup_append, lookup_member, lookup_member]
  split_ifs <;> rfl

theorem errorCode_word (code : ErrorCode) :
    errorCode (FigmaDevMcp.word (Protocol.errorCodeWord code)) = .ok code := by
  cases code <;> decide +kernel

/-- **A failure without items** is taken as it is. -/
theorem parsePluginFailure_ok (code : ErrorCode) (retryable : Bool) :
    parsePluginFailure (PluginFailure.toJs { code, retryable }) = .ok { code, retryable } := by
  show parsePluginFailure (.object (member "code" (FigmaDevMcp.word (Protocol.errorCodeWord code)) ++
    member "retryable" (.bool retryable) ++ optional "items" none)) = _
  generalize hmembers : member "code" (FigmaDevMcp.word (Protocol.errorCodeWord code)) ++
    member "retryable" (.bool retryable) ++ optional "items" none = members
  have hcode : lookup (text "code") members =
      some (FigmaDevMcp.word (Protocol.errorCodeWord code)) := by
    simp [← hmembers, lookup_append, lookup_member]
  have hretryable : lookup (text "retryable") members = some (.bool retryable) := by
    simp [← hmembers, lookup_append, lookup_member]
  have hitems : lookup (text "items") members = (none : Option (List PluginItemFailure)).map itemsToJs := by
    simp [← hmembers, lookup_append, lookup_member, lookup_optional]
  have hexact : exact (.object members) (text "plugin failure") ["code", "retryable"] ["items"] =
      .ok (.object members) := by
    refine exact_object ?_ (by simp [hcode, hretryable])
    rw [← hmembers]
    show ∀ key ∈ [text "code", text "retryable"], _
    decide
  rw [parsePluginFailure, hexact, Guard.ok_bind, field_eq hcode, errorCode_word, Guard.ok_bind,
    field_eq hretryable, optionalMember_eq hitems]
  rfl

/-- **A cancel** of the user interface is taken as it is. -/
theorem parseControllerBoundMessage_cancel (h : Addressed k requestId) :
    parseControllerBoundMessage (ControllerBoundMessage.cancel k requestId).toJs =
      .ok (.cancel k requestId) := by
  rw [ControllerBoundMessage.toJs]
  generalize hmembers : member "type" (FigmaDevMcp.word "cancel") ++
    member "controllerRequestId" (.string k) ++ member "requestId" (.string requestId) = members
  have htype : lookup (text "type") members = some (FigmaDevMcp.word "cancel") := by
    simp [← hmembers, lookup_append, lookup_member]
  have hk : lookup (text "controllerRequestId") members = some (.string k) := by
    simp [← hmembers, lookup_append, lookup_member]
  have hid : lookup (text "requestId") members = some (.string requestId) := by
    simp [← hmembers, lookup_append, lookup_member]
  have hexact : exact (.object members) (text "controller cancel")
      ["type", "controllerRequestId", "requestId"] = .ok (.object members) := by
    refine exact_object ?_ (by simp [htype, hk, hid])
    rw [← hmembers]
    show ∀ key ∈ [text "type", text "controllerRequestId", text "requestId"], _
    decide
  unfold parseControllerBoundMessage
  simp only [record, Guard.ok_bind, field_eq htype, isWord_word, hexact, field_eq hk, h.uuid,
    field_eq hid, identifier_ok h.requestId]
  rfl

/-- The members of a message that ends a request: `key` is the one that has what came of it. -/
structure Ends (w key : String) (value : JsValue) (k requestId : JsString) (members : List Member) :
    Prop where
  type : lookup (text "type") members = some (FigmaDevMcp.word w)
  ids : parseRequestIds (.object members) = .ok (k, requestId)
  value : lookup (text key) members = some value
  exact (label : JsString) : exact (.object members) label
    ["type", "controllerRequestId", "requestId", key] = .ok (.object members)

theorem Addressed.ends (h : Addressed k requestId) (w : String) {key : String} (value : JsValue)
    (hkey : key ∉ ["type", "controllerRequestId", "requestId"]) :
    Ends w key value k requestId
      (member "type" (FigmaDevMcp.word w) ++ idMembers k requestId ++ member key value) := by
  obtain ⟨htype, hk, hid⟩ : "type" ≠ key ∧ "controllerRequestId" ≠ key ∧ "requestId" ≠ key := by
    simpa [eq_comm] using hkey
  generalize hmembers : member "type" (FigmaDevMcp.word w) ++ idMembers k requestId ++
    member key value = members
  have hlookup : ∀ name, lookup (text name) members =
      if "type" = name then some (FigmaDevMcp.word w)
      else if "controllerRequestId" = name then some (.string k)
      else if "requestId" = name then some (.string requestId)
      else if key = name then some value else none := by
    intro name
    rw [← hmembers, lookup_append, lookup_append, lookup_member, lookup_ids, lookup_member]
    split_ifs <;> rfl
  have hvalue : lookup (text key) members = some value := by
    rw [hlookup, if_neg htype, if_neg hk, if_neg hid, if_pos rfl]
  refine ⟨hlookup "type", parseRequestIds_ok h (hlookup _) (hlookup _), hvalue, fun label => ?_⟩
  refine exact_object (fun name hname => ?_) ?_
  · simp only [← hmembers, List.map_append, List.mem_append] at hname
    simp only [List.append_nil, List.map_cons, List.mem_cons]
    rcases hname with (hname | hname) | hname
    · exact Or.inl (key_member hname)
    · rcases key_ids hname with rfl | rfl
      · exact Or.inr (Or.inl rfl)
      · exact Or.inr (Or.inr (Or.inl rfl))
    · exact Or.inr (Or.inr (Or.inr (Or.inl (key_member hname))))
  · have hids : ∀ name ∈ ["type", "controllerRequestId", "requestId"],
        (JsValue.object members).hasOwn (text name) = true := by
      simp [hlookup]
    intro name hname
    rcases List.mem_append.1 (show name ∈ ["type", "controllerRequestId", "requestId"] ++ [key] from
      hname) with hname | hname
    · exact hids name hname
    · rw [List.mem_singleton.1 hname, hasOwn_object, hvalue]
      rfl

variable {Result : Type} (parseReadResult : JsValue → Parsed Result) (print : Result → JsValue)

/-- **A response** is taken when its result is. -/
theorem parseControllerOutboundMessage_response (h : Addressed k requestId) (result : Result) :
    parseControllerOutboundMessage parseReadResult
        (ControllerOutboundMessage.toJs print (.response k requestId result)) =
      (parseReadResult (print result)).map (.response k requestId) := by
  have hends := h.ends "response" (print result) (by decide : "result" ∉ _)
  rw [ControllerOutboundMessage.toJs]
  generalize member "type" (FigmaDevMcp.word "response") ++ idMembers k requestId ++
    member "result" (print result) = members at hends ⊢
  unfold parseControllerOutboundMessage
  simp only [record, Guard.ok_bind, field_eq hends.type, isWord_word, hends.exact, hends.ids,
    field_eq hends.value]
  cases parseReadResult (print result) <;> rfl

/-- **An error** is taken as it is. -/
theorem parseControllerOutboundMessage_error (h : Addressed k requestId) (code : ErrorCode)
    (retryable : Bool) :
    parseControllerOutboundMessage parseReadResult
        (ControllerOutboundMessage.toJs print (.error k requestId { code, retryable })) =
      .ok (.error k requestId { code, retryable }) := by
  have hends := h.ends "error" (PluginFailure.toJs { code, retryable }) (by decide : "error" ∉ _)
  rw [ControllerOutboundMessage.toJs]
  generalize member "type" (FigmaDevMcp.word "error") ++ idMembers k requestId ++
    member "error" (PluginFailure.toJs { code, retryable }) = members at hends ⊢
  unfold parseControllerOutboundMessage
  simp only [record, Guard.ok_bind, field_eq hends.type, isWord_word, hends.exact, hends.ids,
    field_eq hends.value, parsePluginFailure_ok]
  rfl

end

end FigmaDevMcp.Plugin

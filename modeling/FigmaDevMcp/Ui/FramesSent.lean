import FigmaDevMcp.Lib.JsonUnits
import FigmaDevMcp.Ui.Effects

set_option autoImplicit false

/-!
# The frames that the broker is sent

What a frame of the transport can have in it: what the parser of the controller's messages lets
through is within the bounds that the broker has.

* `PluginToBroker.toJs`: the object that `sendJson` writes;
* `PluginToBroker.Sendable`: its strings are within their bounds, and its numbers too;
* `parseControllerOutboundMessage_inv`: **what the parser ensures**.
-/

namespace FigmaDevMcp.Plugin

open JsValue

variable {Result : Type}

/-! ## Objects -/

/-- The object of `buildHello`. -/
def Hello.toJs (h : Hello) : JsValue :=
  .object (member "type" (FigmaDevMcp.word "hello") ++
    member "protocolVersion" (.string h.protocolVersion) ++
    member "connectionId" (.string h.connectionId) ++ member "displayName" (.string h.displayName) ++
    member "fileName" (.string h.fileName) ++ member "currentPage" h.currentPage.toJs ++
    member "editorType" (.string h.editorType) ++ member "pluginVersion" (.string h.pluginVersion) ++
    member "capabilities" h.capabilities.toJs)

/-- What `sendJson` is given. -/
def PluginToBroker.toJs (print : Result → JsValue) : PluginToBroker Result → JsValue
  | .hello h => h.toJs
  | .progress requestId p =>
    .object (member "type" (FigmaDevMcp.word "progress") ++ member "requestId" (.string requestId) ++
      member "completed" (natural p.completed) ++ optional "total" (p.total.map natural) ++
      optional "message" (p.message.map .string))
  | .response requestId result =>
    .object (member "type" (FigmaDevMcp.word "response") ++ member "requestId" (.string requestId) ++
      member "result" (print result))
  | .error requestId failure =>
    .object (member "type" (FigmaDevMcp.word "error") ++ member "requestId" (.string requestId) ++
      member "error" failure.toJs)
  | .pong nonce => .object (member "type" (FigmaDevMcp.word "pong") ++ member "nonce" (natural nonce))

/-! ## Bounds -/

/-- What a display text may be. -/
structure IsDisplayText (s : JsString) : Prop where
  units : Utf16.Units s
  bytes : utf8ByteLength s ≤ maxDisplayTextBytes

/-- What an identifier of a document may be. -/
structure IsName (s : JsString) : Prop where
  units : Utf16.Units s
  identifier : IsIdentifier s

/-- The texts of a ready message are within their bounds. -/
structure ControllerReady.Sendable (ready : ControllerReady) : Prop where
  fileName : IsDisplayText ready.fileName
  pageId : IsName ready.currentPage.id
  pageName : IsDisplayText ready.currentPage.name
  editorType : IsDisplayText ready.editorType
  pluginVersion : IsName ready.pluginVersion

/-- The texts of a hello are within their bounds. -/
structure Hello.Sendable (h : Hello) : Prop where
  version : h.protocolVersion = text "4"
  connectionId : parseUuid (.string h.connectionId) = .ok h.connectionId
  displayName : IsDisplayText h.displayName
  fileName : IsDisplayText h.fileName
  pageId : IsName h.currentPage.id
  pageName : IsDisplayText h.currentPage.name
  editorType : IsDisplayText h.editorType
  pluginVersion : IsName h.pluginVersion

/-- The numbers and the message of a progress are within their bounds. -/
structure Progress.Sendable (p : Progress) : Prop where
  completed : p.completed ≤ U32_MAX
  total : ∀ n ∈ p.total, n ≤ U32_MAX
  message : ∀ s ∈ p.message, IsDisplayText s

/-- The parts of the error of an item are within their bounds. -/
structure PluginItemFailure.Sendable (item : PluginItemFailure) : Prop where
  index : item.index < 2 ^ 53
  id : ∀ s ∈ item.id, IsName s

/-- The items of a failure are within their bounds. -/
structure PluginFailure.Sendable (failure : PluginFailure) : Prop where
  length : ∀ items ∈ failure.items, items.length ≤ maxInputIds
  items : ∀ items ∈ failure.items, ∀ item ∈ items, item.Sendable

/-- What the main thread sends is within its bounds. -/
def ControllerOutboundMessage.Sendable : ControllerOutboundMessage Result → Prop
  | .controllerReady ready => ready.Sendable
  | .progress _ _ p => p.Sendable
  | .response _ _ _ => True
  | .error _ _ failure => failure.Sendable

/-- What is sent to the broker is within its bounds. -/
def PluginToBroker.Sendable : PluginToBroker Result → Prop
  | .hello h => h.Sendable
  | .progress requestId p => IsName requestId ∧ p.Sendable
  | .response requestId _ => IsName requestId
  | .error requestId failure => IsName requestId ∧ failure.Sendable
  | .pong nonce => nonce < 2 ^ 53

/-! ## What the parsers ensure -/

theorem boundedString_units {value : JsValue} {label s : JsString} {maximumBytes : ℕ}
    {allowEmpty : Bool} (hvalue : OfUnits value)
    (h : boundedString value label maximumBytes allowEmpty = .ok s) : Utf16.Units s := by
  cases value with
  | string t =>
      rw [boundedString] at h
      split_ifs at h
      · cases h
      · cases h
      · rw [← Except.ok.inj h]
        exact hvalue
  | _ => cases h

theorem displayText_inv {value : JsValue} {label s : JsString} (hvalue : OfUnits value)
    (h : displayText value label = .ok s) : IsDisplayText s :=
  ⟨boundedString_units hvalue h, (boundedString_inv h).2⟩

theorem isName_of_identifier {value : JsValue} {label s : JsString} (hvalue : OfUnits value)
    (h : identifier value label = .ok s) : IsName s :=
  ⟨boundedString_units hvalue h, identifier_inv h⟩

theorem parseU32_inv {value : JsValue} {label : JsString} {n : ℕ} (h : parseU32 value label = .ok n) :
    n ≤ U32_MAX := by
  obtain ⟨q, -, h⟩ := Guard.bind_eq_ok.1 h
  split_ifs at h with hsafe
  · rw [← Except.ok.inj h]
    omega
  · cases h

/-- What a parser has given for a member that may be missing, of a value of code units. -/
theorem optionalMember_units {α : Type} {object : JsValue} (hobject : OfUnits object) {key : String}
    {parser : JsValue → JsString → Parsed α} {x : Option α} {p : α → Prop}
    (hparser : ∀ value label a, OfUnits value → parser value label = .ok a → p a)
    (h : optionalMember object key parser = .ok x) : ∀ a ∈ x, p a := by
  unfold optionalMember at h
  split_ifs at h
  · obtain ⟨a, ha, rfl⟩ := map_some_eq_ok.1 h
    intro b hb
    rw [← Option.some.inj hb]
    exact hparser _ _ _ (hobject.get _) ha
  · rw [← Except.ok.inj h]
    simp

theorem parseFailureItem_inv {itemIndex : ℕ} {value : JsValue} {item : PluginItemFailure}
    (hvalue : OfUnits value) (h : parseFailureItem itemIndex value = .ok item) : item.Sendable := by
  obtain ⟨object, hobject, h⟩ := Guard.bind_eq_ok.1 h
  obtain ⟨index, hindex, h⟩ := Guard.bind_eq_ok.1 h
  obtain ⟨id, hid, h⟩ := Guard.bind_eq_ok.1 h
  obtain ⟨code, -, h⟩ := Guard.bind_eq_ok.1 h
  obtain ⟨retryable, -, h⟩ := Guard.bind_eq_ok.1 h
  obtain rfl := Except.ok.inj h
  rw [exact_eq_ok hobject] at hid
  exact ⟨unsignedInteger_inv hindex, optionalMember_units hvalue (fun _ _ _ => isName_of_identifier) hid⟩

theorem parseFailureItems_inv {values : List JsValue} {itemIndex : ℕ} {items : List PluginItemFailure}
    (hvalues : OfUnitsItems values) (h : parseFailureItems itemIndex values = .ok items) :
    items.length = values.length ∧ ∀ item ∈ items, item.Sendable := by
  induction values generalizing itemIndex items with
  | nil =>
      obtain rfl := Except.ok.inj h
      exact ⟨rfl, List.forall_mem_nil _⟩
  | cons value values ih =>
      obtain ⟨item, hitem, h⟩ := Guard.bind_eq_ok.1 h
      obtain ⟨rest, hrest, h⟩ := Guard.bind_eq_ok.1 h
      obtain rfl := Except.ok.inj h
      obtain ⟨hlength, hall⟩ := ih hvalues.2 hrest
      exact ⟨congrArg (· + 1) hlength,
        List.forall_mem_cons.2 ⟨parseFailureItem_inv hvalues.1 hitem, hall⟩⟩

theorem failureItems_inv {value : JsValue} {label : JsString} {items : List PluginItemFailure}
    (hvalue : OfUnits value) (h : failureItems value label = .ok items) :
    items.length ≤ maxInputIds ∧ ∀ item ∈ items, item.Sendable := by
  cases value with
  | array values =>
      rw [failureItems] at h
      split_ifs at h with hmany
      · cases h
      · obtain ⟨hlength, hall⟩ := parseFailureItems_inv hvalue h
        exact ⟨by omega, hall⟩
  | _ => cases h

theorem parsePluginFailure_inv {value : JsValue} {failure : PluginFailure} (hvalue : OfUnits value)
    (h : parsePluginFailure value = .ok failure) : failure.Sendable := by
  obtain ⟨object, hobject, h⟩ := Guard.bind_eq_ok.1 h
  obtain ⟨code, -, h⟩ := Guard.bind_eq_ok.1 h
  obtain ⟨retryable, -, h⟩ := Guard.bind_eq_ok.1 h
  obtain ⟨items, hitems, h⟩ := Guard.bind_eq_ok.1 h
  obtain rfl := Except.ok.inj h
  rw [exact_eq_ok hobject] at hitems
  have hall := optionalMember_units hvalue (fun _ _ _ hv => failureItems_inv hv) hitems
  exact ⟨fun items hmem => (hall items hmem).1, fun items hmem => (hall items hmem).2⟩

theorem parseProgress_inv {value : JsValue} {p : Progress} (hvalue : OfUnits value)
    (h : parseProgress value = .ok p) : p.Sendable := by
  obtain ⟨completed, hcompleted, h⟩ := Guard.bind_eq_ok.1 h
  obtain ⟨total, htotal, h⟩ := Guard.bind_eq_ok.1 h
  obtain ⟨message, hmessage, h⟩ := Guard.bind_eq_ok.1 h
  obtain rfl := Except.ok.inj h
  exact ⟨parseU32_inv hcompleted, optionalMember_units hvalue (fun _ _ _ _ => parseU32_inv) htotal,
    optionalMember_units hvalue (fun _ _ _ => displayText_inv) hmessage⟩

theorem parseControllerReady_inv {value : JsValue} {ready : ControllerReady} (hvalue : OfUnits value)
    (h : parseControllerReady value = .ok ready) : ready.Sendable := by
  obtain ⟨page, hpage, h⟩ := Guard.bind_eq_ok.1 h
  obtain ⟨metadataRequestId, -, h⟩ := Guard.bind_eq_ok.1 h
  obtain ⟨fileName, hfileName, h⟩ := Guard.bind_eq_ok.1 h
  obtain ⟨id, hid, h⟩ := Guard.bind_eq_ok.1 h
  obtain ⟨name, hname, h⟩ := Guard.bind_eq_ok.1 h
  obtain ⟨editorType, heditorType, h⟩ := Guard.bind_eq_ok.1 h
  obtain ⟨pluginVersion, hpluginVersion, h⟩ := Guard.bind_eq_ok.1 h
  obtain ⟨capabilities, -, h⟩ := Guard.bind_eq_ok.1 h
  obtain rfl := Except.ok.inj h
  rw [exact_eq_ok hpage] at hid hname
  exact ⟨displayText_inv (hvalue.get _) hfileName, isName_of_identifier ((hvalue.get _).get _) hid,
    displayText_inv ((hvalue.get _).get _) hname, displayText_inv (hvalue.get _) heditorType,
    isName_of_identifier (hvalue.get _) hpluginVersion⟩

/-- **What the controller's messages have in them** once they are parsed. -/
theorem parseControllerOutboundMessage_inv {parseReadResult : JsValue → Parsed Result}
    {value : JsValue} {m : ControllerOutboundMessage Result} (hvalue : OfUnits value)
    (h : parseControllerOutboundMessage parseReadResult value = .ok m) : m.Sendable := by
  unfold parseControllerOutboundMessage at h
  obtain ⟨object, hobject, h⟩ := Guard.bind_eq_ok.1 h
  rw [record_eq_ok hobject] at h
  dsimp only at h
  split_ifs at h
  · obtain ⟨exactly, hexactly, h⟩ := Guard.bind_eq_ok.1 h
    obtain ⟨ready, hready, h⟩ := Guard.bind_eq_ok.1 h
    obtain rfl := Except.ok.inj h
    rw [exact_eq_ok hexactly] at hready
    exact parseControllerReady_inv hvalue hready
  · obtain ⟨exactly, hexactly, h⟩ := Guard.bind_eq_ok.1 h
    obtain ⟨ids, -, h⟩ := Guard.bind_eq_ok.1 h
    obtain ⟨p, hp, h⟩ := Guard.bind_eq_ok.1 h
    obtain rfl := Except.ok.inj h
    rw [exact_eq_ok hexactly] at hp
    exact parseProgress_inv hvalue hp
  · obtain ⟨exactly, -, h⟩ := Guard.bind_eq_ok.1 h
    obtain ⟨ids, -, h⟩ := Guard.bind_eq_ok.1 h
    obtain ⟨result, -, h⟩ := Guard.bind_eq_ok.1 h
    obtain rfl := Except.ok.inj h
    trivial
  · obtain ⟨exactly, hexactly, h⟩ := Guard.bind_eq_ok.1 h
    obtain ⟨ids, -, h⟩ := Guard.bind_eq_ok.1 h
    obtain ⟨failure, hfailure, h⟩ := Guard.bind_eq_ok.1 h
    obtain rfl := Except.ok.inj h
    rw [exact_eq_ok hexactly] at hfailure
    exact parsePluginFailure_inv (hvalue.get _) hfailure
  · cases h

end FigmaDevMcp.Plugin

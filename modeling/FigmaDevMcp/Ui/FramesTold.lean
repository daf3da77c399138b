import FigmaDevMcp.Lib.JsonSlots
import FigmaDevMcp.Protocol.ShortMessages
import FigmaDevMcp.Ui.FramesSent

set_option autoImplicit false

/-!
# What the broker is told of a frame

The records of the two sides have the same members in the same order. What the user interface
writes of a record is what the broker would write of its own.

* `Protocol.Hello.toPlugin`, …: a record of the broker, as the plugin has it;
* `told_hello`, `told_progress`, `told_error`, `told_pong`: **the texts are the same**;
* `told_response`: around the text of the result.
-/

namespace FigmaDevMcp

open JsValue Serde Tools

/-! ## Records -/

namespace Protocol

/-- The page as the plugin had it. -/
def PageSummary.toPlugin (p : PageSummary) : Plugin.PageIdentity := ⟨p.id.value.toJs, p.name.value.toJs⟩

/-- The capabilities as the plugin had them. -/
def CapabilitySet.toPlugin (c : CapabilitySet) : Plugin.CapabilitySet :=
  ⟨c.annotations, c.devResources, c.motion, c.svgStringExport, c.variableCodeSyntax⟩

/-- The plugin has no file key. -/
def Hello.toPlugin (h : Hello) : Plugin.Hello where
  protocolVersion := h.protocolVersion.value.toJs
  connectionId := h.connectionId.value.toJs
  displayName := h.displayName.value.toJs
  fileName := h.fileName.value.toJs
  currentPage := h.currentPage.toPlugin
  editorType := h.editorType.value.toJs
  pluginVersion := h.pluginVersion.value.toJs
  capabilities := h.capabilities.toPlugin

/-- The progress as the plugin had it. -/
def Progress.toPlugin (p : Progress) : Plugin.Progress where
  completed := p.completed
  total := p.total.map fun n => (n : ℕ)
  message := p.message.map fun message => message.value.toJs

/-- The error of an item as the plugin had it. -/
def PluginItemFailure.toPlugin (e : PluginItemFailure) : Plugin.PluginItemFailure where
  index := e.index
  id := e.id.map fun id => id.value.toJs
  code := e.code
  retryable := e.retryable

/-- The failure as the plugin had it. -/
def PluginFailure.toPlugin (e : PluginFailure) : Plugin.PluginFailure where
  code := e.code
  retryable := e.retryable
  items := e.items.map fun items => items.items.map PluginItemFailure.toPlugin

end Protocol

/-! ## Their texts -/

namespace Plugin

section

variable {Result F : Type} (float : ℚ → F)

theorem told_toJs (s : Str) : told float (.string s.toJs) = some (Json.writeString s) := told_chars float s

theorem told_member {name : String} (hname : Bare name) {value : JsValue} {json : Json F}
    (h : told float value = some json) :
    toldMembers float (member name value) = some [(⟨name.utf8ByteSize, name⟩, json)] :=
  toldMembers_single float hname h

/-- A member that may be missing is left out by both sides. -/
theorem told_optional {α : Type} {name : String} (hname : Bare name) {js : α → JsValue}
    {write : α → Json F} {value : Option α} (h : ∀ a ∈ value, told float (js a) = some (write a)) :
    toldMembers float (optional name (value.map js)) =
      some (value.toList.map fun a => (⟨name.utf8ByteSize, name⟩, write a)) := by
  cases value with
  | none => rfl
  | some a => exact toldMembers_single float hname (h a rfl)

theorem told_pageSummary (p : Protocol.PageSummary) : told float p.toPlugin.toJs = some p.encode := by
  have hid := told_member float (by decide : Bare "id") (told_toJs float p.id.value)
  have hname := told_member float (by decide : Bare "name") (told_toJs float p.name.value)
  exact congrArg (Option.map (Json.object 0)) (toldMembers_append float hid hname)

theorem told_bool {name : String} (hname : Bare name) (b : Bool) :
    toldMembers float (member name (.bool b)) = some [(⟨name.utf8ByteSize, name⟩, .bool b)] :=
  told_member float hname rfl

theorem told_capabilities (c : Protocol.CapabilitySet) : told float c.toPlugin.toJs = some c.encode := by
  have hannotations := told_bool float (by decide : Bare "annotations") c.annotations
  have hdevResources := told_bool float (by decide : Bare "devResources") c.devResources
  have hmotion := told_bool float (by decide : Bare "motion") c.motion
  have hsvg := told_bool float (by decide : Bare "svgStringExport") c.svgStringExport
  have hsyntax := told_bool float (by decide : Bare "variableCodeSyntax") c.variableCodeSyntax
  have hall := toldMembers_append float (toldMembers_append float (toldMembers_append float
    (toldMembers_append float hannotations hdevResources) hmotion) hsvg) hsyntax
  exact congrArg (Option.map (Json.object 0)) hall

/-- The type of a message, which comes first. -/
theorem told_tagged {name : String} (hname : Bare name) {members : List Member}
    {ms : List (Serde.Member F)} (h : toldMembers float members = some ms) :
    told float (.object (member "type" (word name) ++ members)) =
      some (Protocol.tagged name (.object 0 ms)) := by
  have htype := told_member float (by decide : Bare "type") (told_word float hname)
  exact congrArg (Option.map (Json.object 0)) (toldMembers_append float htype h)

theorem told_hello (print : Result → JsValue) {h : Protocol.Hello} (hkey : h.fileKey = none) :
    told float ((PluginToBroker.hello h.toPlugin).toJs print) = some (Protocol.tagged "hello" h.encode) := by
  have hversion := told_member float (by decide : Bare "protocolVersion") (told_toJs float h.protocolVersion.value)
  have hconnection := told_member float (by decide : Bare "connectionId") (told_toJs float h.connectionId.value)
  have hdisplay := told_member float (by decide : Bare "displayName") (told_toJs float h.displayName.value)
  have hfile := told_member float (by decide : Bare "fileName") (told_toJs float h.fileName.value)
  have hpage := told_member float (by decide : Bare "currentPage") (told_pageSummary float h.currentPage)
  have heditor := told_member float (by decide : Bare "editorType") (told_toJs float h.editorType.value)
  have hplugin := told_member float (by decide : Bare "pluginVersion") (told_toJs float h.pluginVersion.value)
  have hcapabilities :=
    told_member float (by decide : Bare "capabilities") (told_capabilities float h.capabilities)
  have hall := toldMembers_append float (toldMembers_append float (toldMembers_append float
    (toldMembers_append float (toldMembers_append float (toldMembers_append float
      (toldMembers_append float hversion hconnection) hdisplay) hfile) hpage) heditor) hplugin) hcapabilities
  have htold := told_tagged float (by decide : Bare "hello") hall
  cases h with
  | mk _ _ _ fileKey =>
      obtain rfl : fileKey = none := hkey
      exact htold

theorem told_natural_fin {bits : ℕ} (n : Fin (2 ^ bits)) (hsafe : n.1 < 2 ^ 53) :
    told float (natural n) = some (Json.writeUnsigned n) := told_unsigned float n.2 hsafe

theorem told_u32 (n : Fin (2 ^ 32)) : told float (natural n) = some (Json.writeUnsigned n) :=
  told_natural_fin float n (n.2.trans (by decide))

theorem told_progress (print : Result → JsValue) (p : Protocol.Progress) :
    told float ((PluginToBroker.progress p.requestId.value.toJs p.toPlugin).toJs print) =
      some (Protocol.tagged "progress" p.encode) := by
  have hid := told_member float (by decide : Bare "requestId") (told_toJs float p.requestId.value)
  have hcompleted := told_member float (by decide : Bare "completed") (told_u32 float p.completed)
  have htotal : toldMembers float (optional "total" (p.total.map fun n : Fin (2 ^ 32) => natural n)) =
      some (p.total.toList.map fun n => (⟨5, "total"⟩, Json.writeUnsigned n)) :=
    told_optional float (by decide : Bare "total") fun n _ => told_u32 float n
  have hmessage : toldMembers float (optional "message" (p.message.map fun s => .string s.value.toJs)) =
      some (p.message.toList.map fun s => (⟨7, "message"⟩, Protocol.writeBounded s)) :=
    told_optional float (by decide : Bare "message") fun s _ => told_toJs float s.value
  have hall := toldMembers_append float (toldMembers_append float
    (toldMembers_append float hid hcompleted) htotal) hmessage
  have htold := told_tagged float (by decide : Bare "progress") hall
  cases p with
  | mk _ _ total message => cases total <;> cases message <;> exact htold

theorem told_errorCode (code : ErrorCode) :
    told float (word (Protocol.errorCodeWord code)) = some (Json.writeWord (Protocol.errorCodeWord code)) := by
  have hbare : Bare (Protocol.errorCodeWord code) := by
    cases code <;> decide
  exact told_word float hbare

theorem told_failureItem (e : Protocol.PluginItemFailure) (hindex : e.index.1 < 2 ^ 53) :
    told float e.toPlugin.toJs = some e.encode := by
  have hindex := told_member float (by decide : Bare "index") (told_natural_fin float e.index hindex)
  have hid : toldMembers float (optional "id" (e.id.map fun id => .string id.value.toJs)) =
      some (e.id.toList.map fun id => (⟨2, "id"⟩, Protocol.writeBounded id)) :=
    told_optional float (by decide : Bare "id") fun id _ => told_toJs float id.value
  have hcode := told_member float (by decide : Bare "code") (told_errorCode float e.code)
  have hretryable := told_bool float (by decide : Bare "retryable") e.retryable
  have hall := toldMembers_append float (toldMembers_append float
    (toldMembers_append float hindex hid) hcode) hretryable
  have htold := congrArg (Option.map (Json.object 0)) hall
  cases e with
  | mk _ id => cases id <;> exact htold

theorem told_failure (e : Protocol.PluginFailure)
    (hindex : ∀ items ∈ e.items, ∀ item ∈ items.items, item.index.1 < 2 ^ 53) :
    told float e.toPlugin.toJs = some e.encode := by
  have hcode := told_member float (by decide : Bare "code") (told_errorCode float e.code)
  have hretryable := told_bool float (by decide : Bare "retryable") e.retryable
  have hitems : toldMembers float (optional "items" (e.items.map fun items =>
        itemsToJs (items.items.map Protocol.PluginItemFailure.toPlugin))) =
      some (e.items.toList.map fun items =>
        (⟨5, "items"⟩, Protocol.writeBoundedList Protocol.PluginItemFailure.encode items)) := by
    refine told_optional float (by decide : Bare "items") fun items hitems => ?_
    rw [itemsToJs, List.map_map]
    refine congrArg (Option.map (Json.array 0)) (toldItems_map float fun item hitem => ?_)
    exact told_failureItem float item (hindex items hitems item hitem)
  have hall := toldMembers_append float (toldMembers_append float hcode hretryable) hitems
  have htold := congrArg (Option.map (Json.object 0)) hall
  cases e with
  | mk _ _ items => cases items <;> exact htold

theorem told_error (print : Result → JsValue) (e : Protocol.WireError)
    (hindex : ∀ items ∈ e.error.items, ∀ item ∈ items.items, item.index.1 < 2 ^ 53) :
    told float ((PluginToBroker.error e.requestId.value.toJs e.error.toPlugin).toJs print) =
      some (Protocol.tagged "error" e.encode) := by
  have hid := told_member float (by decide : Bare "requestId") (told_toJs float e.requestId.value)
  have herror := told_member float (by decide : Bare "error") (told_failure float e.error hindex)
  exact told_tagged float (by decide : Bare "error") (toldMembers_append float hid herror)

theorem told_response (print : Result → JsValue) (id : RequestId) {result : Result} {raw : Json F}
    (hraw : told float (print result) = some raw) :
    told float ((PluginToBroker.response id.value.toJs result).toJs print) =
      some (Protocol.tagged "response" (.object 0 (Protocol.responseMembers id raw))) := by
  have hid := told_member float (by decide : Bare "requestId") (told_toJs float id.value)
  have hresult := told_member float (by decide : Bare "result") hraw
  exact told_tagged float (by decide : Bare "response") (toldMembers_append float hid hresult)

theorem told_pong (print : Result → JsValue) (p : Protocol.Pong) (h : p.nonce.1 < 2 ^ 53) :
    told float ((PluginToBroker.pong p.nonce).toJs print) = some (Protocol.tagged "pong" p.encode) :=
  told_tagged float (by decide : Bare "pong")
    (told_member float (by decide : Bare "nonce") (told_natural_fin float p.nonce h))

end

end Plugin

end FigmaDevMcp

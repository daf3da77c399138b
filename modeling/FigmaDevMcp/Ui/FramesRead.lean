import FigmaDevMcp.Broker.SocketFrames
import FigmaDevMcp.Protocol.FontResults
import FigmaDevMcp.Ui.FrameOrder
import FigmaDevMcp.Ui.FramesConveyed

set_option autoImplicit false

/-!
# What the broker makes of the frames

The frames of a socket as they come in at the other end. The broker reads them one after the other,
up to the first that is no message.

* `textFrame`: a frame as the broker has it;
* `Readable`, `receive_cases`: a frame is taken just where it is readable;
* **`frames_understood`**: what holds of every run.
-/

namespace FigmaDevMcp.Plugin

open JsValue Serde Tools

/-! ## Code units -/

theorem ofUnitsMembers_append {l r : List Member} :
    OfUnitsMembers (l ++ r) ↔ OfUnitsMembers l ∧ OfUnitsMembers r := by
  induction l with
  | nil => exact ⟨fun h => ⟨trivial, h⟩, fun h => h.2⟩
  | cons m l ih =>
      obtain ⟨key, value⟩ := m
      rw [List.cons_append, OfUnitsMembers, OfUnitsMembers, ih, and_assoc, and_assoc]

theorem ofUnitsMembers_member {key : String} {value : JsValue} :
    OfUnitsMembers (member key value) ↔ OfUnits value :=
  ⟨fun h => h.2.1, fun h => ⟨Utf16.units_ofString key, h, trivial⟩⟩

theorem ofUnitsMembers_optional {key : String} {value : Option JsValue} :
    OfUnitsMembers (optional key value) ↔ ∀ v ∈ value, OfUnits v := by
  cases value with
  | none =>
      refine ⟨fun _ v hv => ?_, fun _ => trivial⟩
      cases hv
  | some v =>
      refine ofUnitsMembers_member.trans ⟨fun h w hw => ?_, fun h => h v rfl⟩
      rwa [← Option.some.inj hw]

theorem ofUnits_word (name : String) : OfUnits (word name) := Utf16.units_ofString name

theorem ofUnits_natural (n : ℕ) : OfUnits (natural n) := trivial

theorem units_of_parseUuid {s : JsString} (h : parseUuid (.string s) = .ok s) : Utf16.Units s := by
  obtain ⟨v, rfl⟩ := exists_connectionId h
  exact (wellFormed_encode v.value).units

theorem Hello.Sendable.ofUnits {h : Hello} (hs : h.Sendable) : OfUnits h.toJs := by
  have hversion : Utf16.Units h.protocolVersion := by
    rw [hs.version]
    exact Utf16.units_ofString "4"
  simp only [Hello.toJs, PageIdentity.toJs, CapabilitySet.toJs, OfUnits, ofUnitsMembers_append,
    ofUnitsMembers_member, and_true]
  exact ⟨⟨⟨⟨⟨⟨⟨ofUnits_word _, hversion⟩, units_of_parseUuid hs.connectionId⟩, hs.displayName.units⟩,
    hs.fileName.units⟩, hs.pageId.units, hs.pageName.units⟩, hs.editorType.units⟩, hs.pluginVersion.units⟩

theorem PluginItemFailure.Sendable.ofUnits {e : PluginItemFailure} (hs : e.Sendable) : OfUnits e.toJs := by
  simp only [PluginItemFailure.toJs, OfUnits, ofUnitsMembers_append, ofUnitsMembers_member,
    ofUnitsMembers_optional, and_true]
  refine ⟨⟨ofUnits_natural _, fun v hv => ?_⟩, ofUnits_word _⟩
  obtain ⟨s, hid, rfl⟩ := Option.mem_map.1 hv
  exact (hs.id s hid).units

theorem PluginFailure.Sendable.ofUnits {e : PluginFailure} (hs : e.Sendable) : OfUnits e.toJs := by
  simp only [PluginFailure.toJs, OfUnits, ofUnitsMembers_append, ofUnitsMembers_member,
    ofUnitsMembers_optional, and_true]
  refine ⟨ofUnits_word _, fun v hv => ?_⟩
  obtain ⟨items, hmem, rfl⟩ := Option.mem_map.1 hv
  refine ofUnitsItems_iff.2 fun v hv => ?_
  obtain ⟨item, hitem, rfl⟩ := List.mem_map.1 hv
  exact (hs.items items hmem item hitem).ofUnits

section

variable {Result F : Type}

/-- How a result is written: it has a text, and its strings are strings of code units. -/
structure Prints (print : Result → JsValue) : Prop where
  units : ∀ r, OfUnits (print r)
  text : ∀ r, (print r).hasText = true

variable {print : Result → JsValue} {m : PluginToBroker Result}

theorem PluginToBroker.Sendable.ofUnits (hprint : Prints print) (hs : m.Sendable) :
    OfUnits (m.toJs print) := by
  cases m with
  | hello h => exact Hello.Sendable.ofUnits hs
  | progress requestId p =>
      simp only [PluginToBroker.toJs, OfUnits, ofUnitsMembers_append, ofUnitsMembers_member,
        ofUnitsMembers_optional]
      refine ⟨⟨⟨⟨ofUnits_word _, hs.1.units⟩, ofUnits_natural _⟩, fun v hv => ?_⟩, fun v hv => ?_⟩
      · obtain ⟨n, -, rfl⟩ := Option.mem_map.1 hv
        exact ofUnits_natural n
      · obtain ⟨s, hmessage, rfl⟩ := Option.mem_map.1 hv
        exact (hs.2.message s hmessage).units
  | response requestId result =>
      simp only [PluginToBroker.toJs, OfUnits, ofUnitsMembers_append, ofUnitsMembers_member]
      exact ⟨⟨ofUnits_word _, hs.units⟩, hprint.units result⟩
  | error requestId failure =>
      simp only [PluginToBroker.toJs, OfUnits, ofUnitsMembers_append, ofUnitsMembers_member]
      exact ⟨⟨ofUnits_word _, hs.1.units⟩, PluginFailure.Sendable.ofUnits hs.2⟩
  | pong nonce =>
      simp only [PluginToBroker.toJs, OfUnits, ofUnitsMembers_append, ofUnitsMembers_member]
      exact ⟨ofUnits_word _, ofUnits_natural _⟩

end

/-! ## One frame -/

section

variable {Result F : Type} (float : ℚ → F) (print : Result → JsValue)

/-- `socket.send(JSON.stringify(message))`, at the other end. -/
def textFrame (m : PluginToBroker Result) : Ws.TextFrame F where
  bytes := (((stringify (m.toJs print)).bind Utf16.utf8).map List.length).getD 0
  json := told float (m.toJs print)

/-- The frame is a response. -/
def PluginToBroker.isResponse : PluginToBroker Result → Bool
  | .response _ _ => true
  | _ => false

/-- No surrogate is alone, and a response is within the limit of the socket, with a result that the
broker has a type for. -/
structure Readable (P : Protocol.Payloads F) (m : PluginToBroker Result) : Prop where
  paired : Paired (m.toJs print)
  result : m.ResultReads float print P
  short : m.isResponse = true → (textFrame float print m).bytes ≤ Ws.maxMessageBytes

variable {float print} {P : Protocol.Payloads F} {m : PluginToBroker Result}

/-- The bytes of the text are those that are told of. -/
theorem bytes_textFrame (hunits : OfUnits (m.toJs print)) {json : Json F}
    (h : told float (m.toJs print) = some json) : (textFrame float print m).bytes = json.len := by
  obtain ⟨t, ht, hweighs⟩ := weighs_told float _ hunits json h
  obtain ⟨bytes, hbytes⟩ := hweighs.wellFormed.exists_utf8
  rw [textFrame, ht, Option.bind_some, hbytes, ← hweighs.size, ← Utf16.length_utf8 hbytes]
  rfl

theorem told_conveyed {M : Protocol.PluginToBroker P} (hs : m.Sendable) (hM : Conveys float print m M)
    (hunits : OfUnits (m.toJs print))
    (hshort : m.isResponse = true → (textFrame float print m).bytes ≤ Ws.maxMessageBytes) :
    ∃ json, told float (m.toJs print) = some json ∧ json.len ≤ Ws.maxMessageBytes ∧
      Protocol.PluginToBroker.read json = .ok M := by
  cases hM with
  | @hello h hkey => exact ⟨_, told_hello float print hkey, h.tagged_fits, h.read_tagged⟩
  | progress p => exact ⟨_, told_progress float print p, p.tagged_fits, p.read_tagged⟩
  | response id hraw hread =>
      have htold := told_response float print id hraw
      have hlen := hshort rfl
      rw [bytes_textFrame hunits htold] at hlen
      have hfits := (Protocol.len_le_tagged "response" _).trans hlen
      exact ⟨_, htold, hlen, Protocol.Response.read_tagged id hfits hread⟩
  | error e =>
      have hindex : ∀ items ∈ e.error.items, ∀ item ∈ items.items, item.index.1 < 2 ^ 53 := by
        intro items hitems item hitem
        exact (hs.2.items _ (Option.mem_map_of_mem _ hitems) _ (List.mem_map_of_mem hitem)).index
      exact ⟨_, told_error float print e hindex, e.tagged_fits, e.read_tagged⟩
  | pong p => exact ⟨_, told_pong float print p hs, p.tagged_fits, p.read_tagged⟩

/-- What is read of a response is its result. -/
theorem resultReads_of_read (hprint : Prints print) (hs : m.Sendable) (hp : Paired (m.toJs print))
    {json : Json F} (hjson : told float (m.toJs print) = some json) {M : Protocol.PluginToBroker P}
    (hread : Protocol.PluginToBroker.read json = .ok M) : m.ResultReads float print P := by
  cases m with
  | response requestId result =>
      simp only [PluginToBroker.toJs, Paired, pairedMembers_append, pairedMembers_member] at hp
      obtain ⟨id, rfl⟩ : ∃ v : RequestId, v.value.toJs = requestId := exists_name hs hp.1.2
      have hsome := (told_isSome_iff float _ (hprint.units result) (hprint.text result)).2 hp.2
      obtain ⟨raw, hraw⟩ := Option.isSome_iff_exists.1 hsome
      rw [told_response float print id hraw] at hjson
      obtain rfl := Option.some.inj hjson
      exact ⟨raw, hraw, Protocol.Response.exists_read_of_tagged hread⟩
  | _ => trivial

/-- **A frame** is taken, with all that is in it, just where it is readable. -/
theorem receive_cases (P : Protocol.Payloads F) (hprint : Prints print) (hs : m.Sendable) :
    (Readable float print P m ∧ ∃ M : Protocol.PluginToBroker P, Conveys float print m M ∧
        Ws.receiveText (textFrame float print m) = .ok M) ∨
      (¬Readable float print P m ∧ ∃ e, (e = .webSocket ∨ e = .json) ∧
        Ws.receiveText (P := P) (textFrame float print m) = .error e) := by
  have hunits := hs.ofUnits hprint
  have htext : (m.toJs print).hasText = true := by
    cases m <;> rfl
  by_cases hm : Readable float print P m
  · obtain ⟨M, hM⟩ := exists_conveyed float print hs hm.paired hm.result
    obtain ⟨json, hjson, hlen, hread⟩ := told_conveyed hs hM hunits hm.short
    have hbytes : (textFrame float print m).bytes ≤ Ws.maxMessageBytes := by
      rw [bytes_textFrame hunits hjson]
      exact hlen
    exact Or.inl ⟨hm, M, hM, Ws.receiveText_eq_ok hjson hbytes hread⟩
  · right
    cases hreceived : Ws.receiveText (P := P) (textFrame float print m) with
    | error e => exact ⟨hm, e, Ws.receiveText_error hreceived, rfl⟩
    | ok M =>
        obtain ⟨hbytes, json, hjson, hread⟩ := Ws.receiveText_inv hreceived
        have hsome : (told float (m.toJs print)).isSome = true := Option.isSome_iff_exists.2 ⟨json, hjson⟩
        have hp := (told_isSome_iff float _ hunits htext).1 hsome
        exact absurd ⟨hp, resultReads_of_read hprint hs hp hjson hread, fun _ => hbytes⟩ hm

/-! ## All frames -/

variable (float print P) in
/-- The broker has taken the frames up to the first that is not readable, each with all that is in
it, and has ended there. -/
def Understood (frames : List (PluginToBroker Result))
    (taken : List (Protocol.PluginToBroker P) × Option Ws.BrokerError) : Prop :=
  ∃ n, List.Forall₂ (Conveys float print) (frames.take n) taken.1 ∧
    (∀ m ∈ frames.take n, Readable float print P m) ∧
    (n = frames.length ∧ taken.2 = none ∨
      ∃ m, frames[n]? = some m ∧ ¬Readable float print P m ∧
        (taken.2 = some .webSocket ∨ taken.2 = some .json))

theorem understood_nil : Understood float print P [] ([], none) :=
  ⟨0, .nil, List.forall_mem_nil _, Or.inl ⟨rfl, rfl⟩⟩

theorem Understood.cons {frames : List (PluginToBroker Result)} {M : Protocol.PluginToBroker P}
    {taken : List (Protocol.PluginToBroker P) × Option Ws.BrokerError}
    (h : Understood float print P frames taken) (hm : Readable float print P m)
    (hM : Conveys float print m M) : Understood float print P (m :: frames) (M :: taken.1, taken.2) := by
  obtain ⟨n, hall, hread, hend⟩ := h
  refine ⟨n + 1, .cons hM hall, List.forall_mem_cons.2 ⟨hm, hread⟩, ?_⟩
  rcases hend with ⟨rfl, hend⟩ | hend
  · exact Or.inl ⟨rfl, hend⟩
  · exact Or.inr hend

theorem understood_stop (frames : List (PluginToBroker Result)) (hm : ¬Readable float print P m)
    {e : Ws.BrokerError} (he : e = .webSocket ∨ e = .json) :
    Understood float print P (m :: frames) ([], some e) :=
  ⟨0, .nil, List.forall_mem_nil _, Or.inr ⟨m, rfl, hm, he.imp (congrArg some) (congrArg some)⟩⟩

/-- The loop, over frames of which none is a hello. -/
theorem understood_readIncoming (hprint : Prints print) {frames : List (PluginToBroker Result)}
    (hs : ∀ m ∈ frames, m.Sendable) (hhello : ∀ m ∈ frames, m.isHello = false) :
    Understood float print P frames (Ws.readIncoming (frames.map (textFrame float print))) := by
  induction frames with
  | nil => exact understood_nil
  | cons m frames ih =>
      obtain ⟨hm, hs⟩ := List.forall_mem_cons.1 hs
      obtain ⟨hother, hhello⟩ := List.forall_mem_cons.1 hhello
      rcases receive_cases P hprint hm with ⟨hread, M, hM, hreceived⟩ | ⟨hread, e, he, hreceived⟩
      · have hincoming : Ws.handleIncoming (textFrame float print m) = .ok M := by
          rw [Ws.handleIncoming, hreceived]
          cases hM <;> first | rfl | cases hother
        rw [List.map_cons, Ws.readIncoming, hincoming]
        exact (ih hs hhello).cons hread hM
      · have hincoming : Ws.handleIncoming (P := P) (textFrame float print m) = .error e := by
          rw [Ws.handleIncoming, hreceived]
        rw [List.map_cons, Ws.readIncoming, hincoming]
        exact understood_stop frames hread he

/-- The hello comes first, and is of this version. -/
theorem understood_handleSocket (hprint : Prints print) {hello : Hello} {frames : List (PluginToBroker Result)}
    (hfirst : hello.Sendable) (hs : ∀ m ∈ frames, m.Sendable) (hhello : ∀ m ∈ frames, m.isHello = false) :
    Understood float print P (.hello hello :: frames)
      (Ws.handleSocket ((PluginToBroker.hello hello :: frames).map (textFrame float print))) := by
  have hsendable : (PluginToBroker.hello hello : PluginToBroker Result).Sendable := hfirst
  rcases receive_cases P hprint hsendable with ⟨hread, M, hM, hreceived⟩ | ⟨hread, e, he, hreceived⟩
  · have hfirstFrame : Ws.firstFrame (textFrame float print (.hello hello)) = .ok M := by
      rw [Ws.firstFrame, hreceived]
      cases hM with
      | @hello H hkey =>
          have hversion : H.protocolVersion.value = Ws.PLUGIN_PROTOCOL_VERSION.toList :=
            Str.toJs_inj hfirst.version
          exact if_neg (not_not_intro hversion)
    rw [List.map_cons, Ws.handleSocket, hfirstFrame]
    exact (understood_readIncoming hprint hs hhello).cons hread hM
  · have hfirstFrame : Ws.firstFrame (P := P) (textFrame float print (.hello hello)) = .error e := by
      rw [Ws.firstFrame, hreceived]
    rw [List.map_cons, Ws.handleSocket, hfirstFrame]
    exact understood_stop frames hread he

/-- **Every run**: what the user interface sends on a socket is a hello and messages after it, which
the broker takes one by one, up to a frame with a lone surrogate or with a result that it has no
type for or no room. -/
theorem frames_understood (float : ℚ → F) (P : Protocol.Payloads F) (hprint : Prints print)
    {parseReadResult : JsValue → Parsed Result} {events : List (Event Result)}
    (hevents : ∀ event ∈ events, event.Real parseReadResult) (uuid : JsString) (constructs : Bool) (g : ℕ) :
    let frames := framesOn g ((startSocketTransport uuid constructs).run events).history
    Understood float print P frames (Ws.handleSocket (frames.map (textFrame float print))) := by
  have hsending := sending_run hevents (sending_start uuid constructs)
  generalize (startSocketTransport uuid constructs).run events = t at hsending
  intro frames
  have hs : ∀ m ∈ frames, m.Sendable := hsending.sendable g
  cases hsaid : t.saidHello g with
  | false =>
      have hnone : frames = [] := hsending.silent g hsaid
      rw [hnone]
      exact understood_nil
  | true =>
      obtain ⟨hello, rest, hframes, hother⟩ := hsending.greeted g hsaid
      have hframes : frames = .hello hello :: rest := hframes
      rw [hframes] at hs ⊢
      obtain ⟨hfirst, hrest⟩ := List.forall_mem_cons.1 hs
      exact understood_handleSocket hprint hfirst hrest hother

end

/-! ## Three frames -/

/-- An id. -/
def someUuid : JsString := text "00000000-0000-4000-8000-000000000000"

/-- Another id. -/
def otherUuid : JsString := text "11111111-1111-4111-8111-111111111111"

/-- A ready message of a main thread. -/
def someReady : ControllerReady where
  metadataRequestId := someUuid
  fileName := text "f"
  currentPage := ⟨text "0:1", text "p"⟩
  editorType := text "figma"
  pluginVersion := text "1"
  capabilities := ⟨false, false, false, false, true⟩

/-- A read of the fonts of the selection. -/
def readFonts (requestId : JsString) : Option JsString :=
  (BrokerToPlugin.request
    { requestId, deadlineMs := 9, operation := .getFonts { selector := some .selection } }).toJs.stringify

/-- The result of such a read: no fonts, or `null`, which the broker has no type for. -/
def printFonts : Bool → JsValue
  | true => .object (member "operation" (word "get_fonts") ++
      member "result" (.object (member "fonts" (.array []) ++ member "truncated" (.bool false) ++
        member "observation"
          (.object (member "startedAt" (word "") ++ member "completedAt" (word ""))))))
  | false => .null

/-- A validator that tells one result from all others. -/
def parseFonts (value : JsValue) : Parsed Bool :=
  .ok (match value with
    | .null => false
    | _ => true)

/-- The controller is ready, and answers two reads. -/
def someEvents : List (Event Bool) :=
  [.opened 0, .controller (.controllerReady someReady) someUuid,
    .message 0 (readFonts (text "r")) someUuid, .message 0 (readFonts (text "s")) otherUuid,
    .controller (.response someUuid (text "r") true) someUuid,
    .controller (.response otherUuid (text "s") false) someUuid]

theorem prints_printFonts : Prints printFonts := by
  refine ⟨fun r => ?_, fun r => by cases r <;> rfl⟩
  cases r with
  | true =>
      simp only [printFonts, OfUnits, ofUnitsMembers_append, ofUnitsMembers_member, and_true]
      exact ⟨ofUnits_word _, trivial, ofUnits_word _, ofUnits_word _⟩
  | false => trivial

theorem real_response (k requestId : String) (r : Bool)
    (hparsed : parseControllerOutboundMessage parseFonts
      ((ControllerOutboundMessage.response (text k) (text requestId) r).toJs printFonts) =
        .ok (.response (text k) (text requestId) r)) :
    (Event.controller (.response (text k) (text requestId) r) someUuid).Real parseFonts := by
  refine ⟨_, ?_, hparsed⟩
  simp only [ControllerOutboundMessage.toJs, idMembers, OfUnits, ofUnitsMembers_append,
    ofUnitsMembers_member]
  exact ⟨⟨ofUnits_word _, Utf16.units_ofString k, Utf16.units_ofString requestId⟩,
    prints_printFonts.units r⟩

theorem units_of_all {data : Option JsString} (h : (data.getD []).all (· < 0x10000) = true) :
    ∀ s ∈ data, Utf16.Units s := by
  rintro s hs u hu
  rw [Option.mem_def.1 hs, Option.getD_some, List.all_eq_true] at h
  exact of_decide_eq_true (h u hu)

theorem real_someEvents : ∀ event ∈ someEvents, event.Real parseFonts := by
  have hready : (Event.controller (.controllerReady someReady) someUuid).Real parseFonts := by
    refine ⟨(ControllerOutboundMessage.controllerReady someReady).toJs printFonts, ?_, rfl⟩
    simp only [ControllerOutboundMessage.toJs, someReady, someUuid, PageIdentity.toJs,
      CapabilitySet.toJs, OfUnits, ofUnitsMembers_append, ofUnitsMembers_member, and_true]
    exact ⟨⟨⟨⟨⟨ofUnits_word _, Utf16.units_ofString _⟩, Utf16.units_ofString _⟩,
      Utf16.units_ofString _, Utf16.units_ofString _⟩, Utf16.units_ofString _⟩,
      Utf16.units_ofString _⟩
  have hr : ∀ s ∈ readFonts (text "r"), Utf16.Units s := units_of_all (by decide +kernel)
  have hs : ∀ s ∈ readFonts (text "s"), Utf16.Units s := units_of_all (by decide +kernel)
  have hfirst := real_response "00000000-0000-4000-8000-000000000000" "r" true rfl
  have hsecond := real_response "11111111-1111-4111-8111-111111111111" "s" false rfl
  simp only [someEvents, List.forall_mem_cons]
  exact ⟨trivial, hready, hr, hs, hfirst, hsecond, List.forall_mem_nil _⟩

/-- The hello and the first answer are understood. The broker ends at the second answer. -/
theorem frames_understood_answers :
    let frames := framesOn 0 ((startSocketTransport someUuid true).run someEvents).history
    let taken : List (Protocol.PluginToBroker (Protocol.Handoff.fontPayloads ℚ)) × _ :=
      Ws.handleSocket (frames.map (textFrame (fun q => q) printFonts))
    (frames.length = 3 ∧ taken.1.length = 2 ∧ taken.2 = some .json) ∧
      Understood (fun q => q) printFonts (Protocol.Handoff.fontPayloads ℚ) frames taken :=
  ⟨by decide +kernel, frames_understood (fun q => q) (Protocol.Handoff.fontPayloads ℚ)
    prints_printFonts real_someEvents someUuid true 0⟩

end FigmaDevMcp.Plugin

import FigmaDevMcp.Lib.Firsts
import FigmaDevMcp.Protocol.WireWriting

set_option autoImplicit false

/-!
# Messages are read back

The messages of both protocols are written by derived serializers, and read by visitors that are
written by hand.

* `setAside`: the texts that a visitor puts aside until it knows what they are;
* `visitMessage_fits`, `len_of_visitMessage`: a message whose members are all put aside;
* `messages_round_trip`: **a message is read back** if and only if no such text is too long.
-/

namespace FigmaDevMcp.Protocol

open Serde Tools

variable {F : Type} {P : Payloads F}

/-! ## Members that are put aside -/

/-- What a message may have beside its type. -/
def deferredNames : List String := (MessageField.all.filter (· ≠ .type)).map messageFieldName

/-- Members that are named as they are put together again. -/
structure Deferrable (ms : List (Serde.Member F)) : Prop where
  named : ∀ m ∈ ms, ∃ field, field ≠ .type ∧
    m.1 = ⟨(messageFieldName field).utf8ByteSize, messageFieldName field⟩
  nodup : (ms.map fun m => m.1.text).Nodup

theorem ofName_messageFieldName (field : MessageField) :
    MessageField.ofName (messageFieldName field) = some field := by
  cases field <;> decide

theorem bufferMember_field {Tag : Type} {tags : List (String × Tag)} {tag : Tag}
    {object : DeferredObject F} {m : Serde.Member F} {field : MessageField} (hfield : field ≠ .type)
    (hm : m.1.text = messageFieldName field) :
    bufferMember tags ⟨some tag, object⟩ m =
      (object.insert (messageFieldName field) m.2).map (⟨some tag, ·⟩) := by
  rw [bufferMember, hm, ofName_messageFieldName]
  cases field with
  | type => exact absurd rfl hfield
  | _ => exact Guard.bind_pure_eq_map _ _

theorem deferrable_members {Field : Type} [DecidableEq Field] {spec : Spec F Field}
    (hname : ∀ f, spec.name f ∈ deferredNames)
    (write : ∀ f, spec.Val f → Json F) (s : spec.Slots) :
    Deferrable (spec.members spec.fields write s) where
  named m hm := by
    obtain ⟨f, -, hf⟩ := List.mem_filterMap.1 hm
    obtain ⟨v, -, rfl⟩ := Option.map_eq_some_iff.1 hf
    obtain ⟨field, hfield, hfieldName⟩ := List.mem_map.1 (hname f)
    exact ⟨field, of_decide_eq_true (List.mem_filter.1 hfield).2, by rw [hfieldName]⟩
  nodup := by
    have hsublist : ((spec.members spec.fields write s).map fun m => m.1.text).Sublist
        (spec.fields.map spec.name) := by
      refine Firsts.map_filterMap_sublist fun f _ m hm => ?_
      obtain ⟨v, -, rfl⟩ := Option.map_eq_some_iff.1 hm
      rfl
    exact (spec.nodup.map spec.name_inj).sublist hsublist

section Buffer

variable {Tag α : Type} {tags : List (String × Tag)} {tag : Tag}
  {choose : Tag → DeferredObject F → Except DecodeError α} {object : DeferredObject F}
  {ms : List (Serde.Member F)}

/-- What has been put aside of members that were all taken. -/
theorem of_foldlM_bufferMember {s : Buffered F Tag} (hms : Deferrable ms) (hobject : object.Charged)
    (hfits : object.encodedBytes ≤ maxEnvelopeBytes)
    (h : ms.foldlM (bufferMember tags) ⟨some tag, object⟩ = .ok s) :
    s.tag = some tag ∧ s.object.members = object.members ++ ms ∧ s.object.Charged ∧
      s.object.encodedBytes ≤ maxEnvelopeBytes := by
  induction ms generalizing object with
  | nil =>
      obtain rfl := Except.ok.inj h
      exact ⟨rfl, (List.append_nil _).symm, hobject, hfits⟩
  | cons m ms ih =>
      obtain ⟨hm, hrest⟩ := List.forall_mem_cons.1 hms.named
      obtain ⟨field, hfield, hname⟩ := hm
      rw [List.foldlM_cons, bufferMember_field hfield (by rw [hname])] at h
      obtain ⟨t, ht, h⟩ := Guard.bind_eq_ok.1 h
      cases hinsert : object.insert (messageFieldName field) m.2 with
      | error e =>
          rw [hinsert] at ht
          cases ht
      | ok result =>
          rw [hinsert] at ht
          obtain rfl := Except.ok.inj ht
          obtain ⟨-, hle, hresult⟩ := DeferredObject.insert_eq_ok.1 hinsert
          have hmembers : result.members = object.members ++ [m] := by
            rw [hresult, DeferredObject.members, List.map_append]
            exact congrArg (object.members ++ [·]) (Prod.ext hname.symm rfl)
          obtain ⟨htag, hall, hcharged, hbytes⟩ := ih ⟨hrest, (List.nodup_cons.1 hms.nodup).2⟩
            (hobject.insert hinsert) (by rw [hresult]; exact hle) h
          rw [hmembers, List.append_assoc, List.singleton_append] at hall
          exact ⟨htag, hall, hcharged, hbytes⟩

/-- Members that fit are all taken. -/
theorem foldlM_bufferMember_isOk (hms : Deferrable ms) (hobject : object.Charged)
    (hfresh : ∀ m ∈ ms, ∀ field ∈ object.fields, field.name ≠ m.1.text)
    (hfits : (Json.object 0 (object.members ++ ms)).len ≤ maxEnvelopeBytes) :
    ∃ s, ms.foldlM (bufferMember tags) ⟨some tag, object⟩ = .ok s := by
  induction ms generalizing object with
  | nil => exact ⟨_, rfl⟩
  | cons m ms ih =>
      have ⟨hm, hrest⟩ := List.forall_mem_cons.1 hms.named
      have ⟨hfirst, hlater⟩ := List.forall_mem_cons.1 hfresh
      have ⟨hnew, hnodup⟩ := List.nodup_cons.1 hms.nodup
      obtain ⟨field, hfield, hname⟩ := hm
      have htext : m.1.text = messageFieldName field := by rw [hname]
      rw [← List.singleton_append, ← List.append_assoc] at hfits
      have hmember : m = (⟨(messageFieldName field).utf8ByteSize, messageFieldName field⟩, m.2) :=
        Prod.ext hname rfl
      have hle := (DeferredObject.len_append_le 0 _ ms).trans hfits
      have hcost := hobject.cost (messageFieldName field) m.2
      rw [← hmember] at hcost
      have hinsert := DeferredObject.insert_eq_ok.2
        ⟨fun other hother => htext ▸ hfirst other hother, hcost ▸ hle, rfl⟩
      have hlast : ∀ n ∈ ms, ∀ other ∈ object.fields ++ [⟨messageFieldName field, m.2⟩],
          other.name ≠ n.1.text := by
        intro n hn other hother
        rcases List.mem_append.1 hother with hother | hother
        · exact hlater n hn other hother
        · obtain rfl := List.mem_singleton.1 hother
          intro heq
          exact hnew (List.mem_map.2 ⟨n, hn, (htext.trans heq).symm⟩)
      have hrestFits : (Json.object 0 (DeferredObject.members
          ⟨object.fields ++ [⟨messageFieldName field, m.2⟩], 0⟩ ++ ms)).len ≤ maxEnvelopeBytes := by
        rw [DeferredObject.members, List.map_append, List.map_singleton, ← hmember]
        exact hfits
      obtain ⟨s, hs⟩ := ih ⟨hrest, hnodup⟩ (hobject.insert hinsert) hlast hrestFits
      refine ⟨s, ?_⟩
      rw [List.foldlM_cons, bufferMember_field hfield htext, hinsert]
      exact hs

theorem new_fits : (DeferredObject.new : DeferredObject F).encodedBytes ≤ maxEnvelopeBytes := by
  show 2 ≤ maxEnvelopeBytes
  decide

theorem bufferMember_type {word : String}
    (htag : Json.readWord tags (Json.writeWord word : Json F) = .ok tag) :
    bufferMember tags ⟨none, .new⟩ (⟨4, "type"⟩, Json.writeWord word) =
      .ok (⟨some tag, .new⟩ : Buffered F Tag) := by
  have hfield : MessageField.ofName "type" = some .type := ofName_messageFieldName .type
  rw [bufferMember]
  simp only [hfield, htag]
  rfl

/-- A message that is read had members that fit. -/
theorem len_of_visitMessage {word : String} {v : α}
    (htag : Json.readWord tags (Json.writeWord word : Json F) = .ok tag) (hms : Deferrable ms)
    (h : visitMessage tags choose ((⟨4, "type"⟩, Json.writeWord word) :: ms) = .ok v) :
    (Json.object 0 ms).len ≤ maxEnvelopeBytes := by
  rw [visitMessage, List.foldlM_cons, bufferMember_type htag, Guard.ok_bind] at h
  obtain ⟨s, hs, -⟩ := Guard.bind_eq_ok.1 h
  have ⟨_, hmembers, hcharged, hbytes⟩ :=
    of_foldlM_bufferMember hms DeferredObject.charged_new new_fits hs
  rw [← DeferredObject.len_encoded hcharged, DeferredObject.encoded, hmembers] at hbytes
  exact hbytes

/-- Members that fit are put together again. -/
theorem visitMessage_fits {word : String}
    (htag : Json.readWord tags (Json.writeWord word : Json F) = .ok tag) (hms : Deferrable ms)
    (hfits : (Json.object 0 ms).len ≤ maxEnvelopeBytes) :
    ∃ object : DeferredObject F, object.encoded = .object 0 ms ∧
      visitMessage tags choose ((⟨4, "type"⟩, Json.writeWord word) :: ms) = choose tag object := by
  have hok : ∃ s, ms.foldlM (bufferMember tags) ⟨some tag, .new⟩ = .ok s :=
    foldlM_bufferMember_isOk hms DeferredObject.charged_new (fun _ _ => List.forall_mem_nil _) hfits
  obtain ⟨s, hs⟩ := hok
  have ⟨hs', hmembers, _⟩ := of_foldlM_bufferMember hms DeferredObject.charged_new new_fits hs
  refine ⟨s.object, ?_, ?_⟩
  · rw [DeferredObject.encoded, hmembers]
    rfl
  · rw [visitMessage, List.foldlM_cons, bufferMember_type htag, Guard.ok_bind, hs, Guard.ok_bind]
    rw [hs']

theorem decode_eq {read : Json F → Except DecodeError α} {body : Json F} {v : α}
    (hobject : object.encoded = body) (hfits : body.len ≤ maxEnvelopeBytes)
    (h : read body = .ok v) : object.decode read = .ok v := by
  rw [DeferredObject.decode, hobject, if_neg (Nat.not_lt.2 hfits), h]
  rfl

end Buffer

/-! ## Plugin and broker -/

/-- A message with its type before its members. -/
def tagged (word : String) : Json F → Json F
  | .object space members => .object space ((⟨4, "type"⟩, Json.writeWord word) :: members)
  | json => json

def pluginMessageWord : PluginMessageTag → String
  | .hello => "hello"
  | .progress => "progress"
  | .response => "response"
  | .error => "error"
  | .pong => "pong"

theorem readPluginTag_write (tag : PluginMessageTag) :
    Json.readWord pluginMessageTags (Json.writeWord (pluginMessageWord tag) : Json F) = .ok tag := by
  cases tag <;> rfl

namespace PluginToBroker

def tag : PluginToBroker P → PluginMessageTag
  | .hello _ => .hello
  | .progress _ => .progress
  | .response _ => .response
  | .error _ => .error
  | .pong _ => .pong

/-- The record of a message, without its type. -/
def body (W : Writers P) : PluginToBroker P → Json F
  | .hello message => message.encode
  | .progress message => message.encode
  | .response message => message.encode W
  | .error message => message.encode
  | .pong message => message.encode

def encode (W : Writers P) (m : PluginToBroker P) : Json F :=
  tagged (pluginMessageWord m.tag) (m.body W)

/-- The members of the record are put together again. -/
def setAside (W : Writers P) (m : PluginToBroker P) : List (Json F) := [m.body W]

theorem body_eq (W : Writers P) (m : PluginToBroker P) :
    ∃ ms, m.body W = .object 0 ms ∧ Deferrable ms := by
  cases m with
  | hello message =>
      have hname : ∀ f, HelloField.name f ∈ deferredNames := by
        intro f
        cases f <;> decide
      exact ⟨_, rfl, deferrable_members hname _ _⟩
  | progress message =>
      have hname : ∀ f, ProgressField.name f ∈ deferredNames := by
        intro f
        cases f <;> decide
      exact ⟨_, rfl, deferrable_members hname _ _⟩
  | response message =>
      have hname : ∀ f, ResponseField.name f ∈ deferredNames := by
        intro f
        cases f <;> decide
      exact ⟨_, rfl, deferrable_members hname _ _⟩
  | error message =>
      have hname : ∀ f, WireErrorField.name f ∈ deferredNames := by
        intro f
        cases f <;> decide
      exact ⟨_, rfl, deferrable_members hname _ _⟩
  | pong message =>
      have hname : ∀ f, NonceField.name f ∈ deferredNames := by
        intro f
        cases f
        decide
      exact ⟨_, rfl, deferrable_members hname _ _⟩

theorem read_encode_iff {W : Writers P} (hW : W.RoundTrip) (m : PluginToBroker P) :
    read (m.encode W) = .ok m ↔ ∀ text ∈ m.setAside W, text.len ≤ maxEnvelopeBytes := by
  obtain ⟨ms, hbody, hms⟩ := m.body_eq W
  have hread : (read (m.encode W) : Except DecodeError (PluginToBroker P)) =
      visitMessage pluginMessageTags (fun tag object => choose object tag)
        ((⟨4, "type"⟩, Json.writeWord (pluginMessageWord m.tag)) :: ms) := by
    rw [encode, hbody]
    rfl
  rw [setAside, List.forall_mem_singleton, hread, hbody]
  refine ⟨len_of_visitMessage (readPluginTag_write m.tag) hms, fun hfits => ?_⟩
  obtain ⟨object, hobject, hvisit⟩ := visitMessage_fits (readPluginTag_write m.tag) hms hfits
  rw [← hbody] at hobject hfits
  rw [hvisit]
  cases m with
  | hello message =>
      exact congrArg (Except.map PluginToBroker.hello) (decode_eq hobject hfits (Hello.read_encode message))
  | progress message =>
      exact congrArg (Except.map PluginToBroker.progress) (decode_eq hobject hfits (Progress.read_encode message))
  | response message =>
      exact congrArg (Except.map PluginToBroker.response) (decode_eq hobject hfits (Response.read_encode hW hfits))
  | error message =>
      exact congrArg (Except.map PluginToBroker.error) (decode_eq hobject hfits (WireError.read_encode message))
  | pong message =>
      exact congrArg (Except.map PluginToBroker.pong) (decode_eq hobject hfits (Pong.read_encode message))

end PluginToBroker

def brokerMessageWord : BrokerMessageTag → String
  | .request => "request"
  | .cancel => "cancel"
  | .ping => "ping"

theorem readBrokerTag_write (tag : BrokerMessageTag) :
    Json.readWord brokerMessageTags (Json.writeWord (brokerMessageWord tag) : Json F) = .ok tag := by
  cases tag <;> rfl

namespace BrokerToPlugin

def tag : BrokerToPlugin P → BrokerMessageTag
  | .request _ => .request
  | .cancel _ => .cancel
  | .ping _ => .ping

def body (W : Writers P) : BrokerToPlugin P → Json F
  | .request message => message.encode W
  | .cancel message => message.encode
  | .ping message => message.encode

def encode (W : Writers P) (m : BrokerToPlugin P) : Json F :=
  tagged (brokerMessageWord m.tag) (m.body W)

def setAside (W : Writers P) (m : BrokerToPlugin P) : List (Json F) := [m.body W]

theorem body_eq (W : Writers P) (m : BrokerToPlugin P) :
    ∃ ms, m.body W = .object 0 ms ∧ Deferrable ms := by
  cases m with
  | request message =>
      have hname : ∀ f, RequestField.name f ∈ deferredNames := by
        intro f
        cases f <;> decide
      exact ⟨_, rfl, deferrable_members hname _ _⟩
  | cancel message =>
      have hname : ∀ f, CancelField.name f ∈ deferredNames := by
        intro f
        cases f
        decide
      exact ⟨_, rfl, deferrable_members hname _ _⟩
  | ping message =>
      have hname : ∀ f, NonceField.name f ∈ deferredNames := by
        intro f
        cases f
        decide
      exact ⟨_, rfl, deferrable_members hname _ _⟩

theorem read_encode_iff {W : Writers P} (hW : W.RoundTrip) (m : BrokerToPlugin P) :
    read (m.encode W) = .ok m ↔ ∀ text ∈ m.setAside W, text.len ≤ maxEnvelopeBytes := by
  obtain ⟨ms, hbody, hms⟩ := m.body_eq W
  have hread : (read (m.encode W) : Except DecodeError (BrokerToPlugin P)) =
      visitMessage brokerMessageTags (fun tag object => choose object tag)
        ((⟨4, "type"⟩, Json.writeWord (brokerMessageWord m.tag)) :: ms) := by
    rw [encode, hbody]
    rfl
  rw [setAside, List.forall_mem_singleton, hread, hbody]
  refine ⟨len_of_visitMessage (readBrokerTag_write m.tag) hms, fun hfits => ?_⟩
  obtain ⟨object, hobject, hvisit⟩ := visitMessage_fits (readBrokerTag_write m.tag) hms hfits
  rw [← hbody] at hobject hfits
  rw [hvisit]
  cases m with
  | request message =>
      exact congrArg (Except.map BrokerToPlugin.request) (decode_eq hobject hfits (Request.read_encode hW hfits))
  | cancel message =>
      exact congrArg (Except.map BrokerToPlugin.cancel) (decode_eq hobject hfits (Cancel.read_encode message))
  | ping message =>
      exact congrArg (Except.map BrokerToPlugin.ping) (decode_eq hobject hfits (Ping.read_encode message))

end BrokerToPlugin

/-! ## Calls and their results -/

namespace Invocation

def slots (i : Invocation P) : (InvocationField.spec P).Slots
  | .operation => some i.operation

def write (W : Writers P) : ∀ f : InvocationField, f.Val P → Json F
  | .operation => ReadOperation.encode W

def encode (W : Writers P) (i : Invocation P) : Json F :=
  (InvocationField.spec P).encode (write W) i.slots

variable {W : Writers P} {i : Invocation P}

theorem read_encode (hW : W.RoundTrip) (h : (i.operation.raw W).len ≤ maxEnvelopeBytes) :
    read (i.encode W) = .ok i := by
  refine Spec.read_encode (fun _ _ => rfl) (fun f v hv => ?_) rfl
  cases f with
  | operation =>
      obtain rfl := Option.some.inj hv
      exact ReadOperation.read_encode hW h

theorem len_raw {v : Invocation P} (h : read (i.encode W) = .ok v) :
    (i.operation.raw W).len ≤ maxEnvelopeBytes := by
  obtain ⟨_, hoperation⟩ := Spec.exists_read_of_encode (fun _ _ => rfl) h (f := .operation) rfl
  exact ReadOperation.len_raw hoperation

end Invocation

def brokerCallWord : BrokerCallTag → String
  | .listFiles => "listFiles"
  | .invoke => "invoke"

theorem readCallTag_write (tag : BrokerCallTag) :
    Json.readWord brokerCallTags (Json.writeWord (brokerCallWord tag) : Json F) = .ok tag := by
  cases tag <;> rfl

namespace BrokerCall

def slots : BrokerCall P → (BrokerCallField.spec P).Slots
  | .listFiles, .call => some .listFiles
  | .listFiles, _ => none
  | .invoke _ _, .call => some .invoke
  | .invoke connectionId _, .connectionId => connectionId
  | .invoke _ invocation, .invocation => some invocation

def write (W : Writers P) : ∀ f : BrokerCallField, f.Val P → Json F
  | .call => fun tag => Json.writeWord (brokerCallWord tag)
  | .connectionId => writeConnectionId
  | .invocation => Invocation.encode W

def encode (W : Writers P) (c : BrokerCall P) : Json F :=
  (BrokerCallField.spec P).encode (write W) c.slots

/-- The input of an operation is put aside. -/
def setAside (W : Writers P) : BrokerCall P → List (Json F)
  | .listFiles => []
  | .invoke _ invocation => [invocation.operation.raw W]

variable {W : Writers P}

theorem read_encode (hW : W.RoundTrip) {c : BrokerCall P}
    (h : ∀ text ∈ c.setAside W, text.len ≤ maxEnvelopeBytes) : read (c.encode W) = .ok c := by
  cases c with
  | listFiles =>
      refine Spec.read_encode (fun _ _ => rfl) (fun f v hv => ?_) rfl
      cases f with
      | call => exact readCallTag_write (F := F) v
      | connectionId => cases hv
      | invocation => cases hv
  | invoke connectionId invocation =>
      refine Spec.read_encode (fun _ _ => rfl) (fun f v hv => ?_) rfl
      cases f with
      | call => exact readCallTag_write (F := F) v
      | connectionId => exact readConnectionId_write (F := F) v
      | invocation =>
          obtain rfl := Option.some.inj hv
          have hfits : ∀ text ∈ [invocation.operation.raw W], text.len ≤ maxEnvelopeBytes := h
          exact Invocation.read_encode hW (hfits _ List.mem_cons_self)

theorem len_setAside {c v : BrokerCall P} (h : read (c.encode W) = .ok v) :
    ∀ text ∈ c.setAside W, text.len ≤ maxEnvelopeBytes := by
  cases c with
  | listFiles => exact List.forall_mem_nil _
  | invoke connectionId invocation =>
      obtain ⟨_, hinvocation⟩ := Spec.exists_read_of_encode (fun _ _ => rfl) h (f := .invocation) rfl
      exact List.forall_mem_singleton.2 (Invocation.len_raw hinvocation)

end BrokerCall

def brokerResultWord : BrokerResultTag → String
  | .files => "files"
  | .invocation => "invocation"

theorem readResultTag_write (tag : BrokerResultTag) :
    Json.readWord brokerResultTags (Json.writeWord (brokerResultWord tag) : Json F) = .ok tag := by
  cases tag <;> rfl

namespace BrokerResult

def tag : BrokerResult P → BrokerResultTag
  | .files _ => .files
  | .invocation _ => .invocation

/-- The text of the result. -/
def raw (W : Writers P) : BrokerResult P → Json F
  | .files result => W.writeListFiles result
  | .invocation result => result.encode W

def slots (W : Writers P) (r : BrokerResult P) : (BrokerResultField.spec (F := F)).Slots
  | .kind => some r.tag
  | .result => some (r.raw W)

def write : ∀ f : BrokerResultField, f.Val F → Json F
  | .kind => fun tag => Json.writeWord (brokerResultWord tag)
  | .result => id

def encode (W : Writers P) (r : BrokerResult P) : Json F :=
  BrokerResultField.spec.encode write (r.slots W)

def setAside (W : Writers P) (r : BrokerResult P) : List (Json F) := [r.raw W]

theorem read_encode_eq (W : Writers P) (r : BrokerResult P) :
    (read (r.encode W) : Except DecodeError (BrokerResult P)) = build (r.slots W) := by
  refine Spec.read_encode_eq (fun _ _ => rfl) fun f v _ => ?_
  cases f with
  | kind => exact readResultTag_write (F := F) v
  | result => rfl

variable {W : Writers P}

theorem read_encode (hW : W.RoundTrip) {r : BrokerResult P}
    (h : ∀ text ∈ r.setAside W, text.len ≤ maxEnvelopeBytes) : read (r.encode W) = .ok r := by
  have hfits := List.forall_mem_singleton.1 h
  rw [read_encode_eq]
  cases r with
  | files result =>
      exact congrArg (Except.map BrokerResult.files) (decodeRaw_write (hW.listFiles result) hfits)
  | invocation result =>
      refine congrArg (Except.map BrokerResult.invocation) (decodeRaw_write ?_ hfits)
      exact ReadResult.read_encode hW (ReadResult.len_raw_le.trans hfits)

theorem len_setAside {r v : BrokerResult P} (h : read (r.encode W) = .ok v) :
    ∀ text ∈ r.setAside W, text.len ≤ maxEnvelopeBytes := by
  refine List.forall_mem_singleton.2 ?_
  rw [read_encode_eq] at h
  cases r with
  | files result =>
      have hmap : (decodeRaw P.readListFiles (W.writeListFiles result)).map _ = _ := h
      obtain ⟨_, hraw, -⟩ := Guard.map_eq_ok.1 hmap
      exact len_of_decodeRaw hraw
  | invocation result =>
      have hmap : (decodeRaw ReadResult.read (result.encode W)).map _ = _ := h
      obtain ⟨_, hraw, -⟩ := Guard.map_eq_ok.1 hmap
      exact len_of_decodeRaw hraw

end BrokerResult

/-! ## Frontend and leader -/

def frontendMessageWord : FrontendMessageTag → String
  | .request => "request"
  | .cancel => "cancel"

theorem readFrontendTag_write (tag : FrontendMessageTag) :
    Json.readWord frontendMessageTags (Json.writeWord (frontendMessageWord tag) : Json F) =
      .ok tag := by
  cases tag <;> rfl

namespace FrontendToLeader

def slots : FrontendToLeader P → (FrontendMessageField.spec P).Slots
  | .request _ _, .type => some .request
  | .request rpcRequestId _, .rpcRequestId => some rpcRequestId
  | .request _ call, .call => some call
  | .cancel _, .type => some .cancel
  | .cancel rpcRequestId, .rpcRequestId => some rpcRequestId
  | .cancel _, .call => none

def write (W : Writers P) : ∀ f : FrontendMessageField, f.Val P → Json F
  | .type => fun tag => Json.writeWord (frontendMessageWord tag)
  | .rpcRequestId => RpcRequestId.encode
  | .call => BrokerCall.encode W

def encode (W : Writers P) (m : FrontendToLeader P) : Json F :=
  (FrontendMessageField.spec P).encode (write W) m.slots

def setAside (W : Writers P) : FrontendToLeader P → List (Json F)
  | .request _ call => call.setAside W
  | .cancel _ => []

theorem read_encode_iff {W : Writers P} (hW : W.RoundTrip) (m : FrontendToLeader P) :
    read (m.encode W) = .ok m ↔ ∀ text ∈ m.setAside W, text.len ≤ maxEnvelopeBytes := by
  cases m with
  | request rpcRequestId call =>
      constructor
      · intro h
        obtain ⟨_, hcall⟩ := Spec.exists_read_of_encode (fun _ _ => rfl) h (f := .call) rfl
        exact BrokerCall.len_setAside hcall
      · intro h
        refine Spec.read_encode (fun _ _ => rfl) (fun f v hv => ?_) rfl
        cases f with
        | type => exact readFrontendTag_write (F := F) v
        | rpcRequestId => exact RpcRequestId.read_encode (F := F) v
        | call =>
            obtain rfl := Option.some.inj hv
            exact BrokerCall.read_encode hW h
  | cancel rpcRequestId =>
      refine iff_of_true (Spec.read_encode (fun _ _ => rfl) (fun f v hv => ?_) rfl)
        (List.forall_mem_nil _)
      cases f with
      | type => exact readFrontendTag_write (F := F) v
      | rpcRequestId => exact RpcRequestId.read_encode (F := F) v
      | call => cases hv

end FrontendToLeader

def leaderMessageWord : LeaderMessageTag → String
  | .progress => "progress"
  | .response => "response"
  | .error => "error"

theorem readLeaderTag_write (tag : LeaderMessageTag) :
    Json.readWord leaderMessageTags (Json.writeWord (leaderMessageWord tag) : Json F) = .ok tag := by
  cases tag <;> rfl

namespace LeaderToFrontend

def slots : LeaderToFrontend P → (LeaderMessageField.spec P).Slots
  | .progress _ _, .type => some .progress
  | .progress rpcRequestId _, .rpcRequestId => some rpcRequestId
  | .progress _ value, .progress => some value
  | .response _ _, .type => some .response
  | .response rpcRequestId _, .rpcRequestId => some rpcRequestId
  | .response _ result, .result => some result
  | .error _ _, .type => some .error
  | .error rpcRequestId _, .rpcRequestId => some rpcRequestId
  | .error _ value, .error => some value
  | _, _ => none

def write (W : Writers P) : ∀ f : LeaderMessageField, f.Val P → Json F
  | .type => fun tag => Json.writeWord (leaderMessageWord tag)
  | .rpcRequestId => RpcRequestId.encode
  | .progress => RpcProgress.encode
  | .result => BrokerResult.encode W
  | .error => ToolError.encode

def encode (W : Writers P) (m : LeaderToFrontend P) : Json F :=
  (LeaderMessageField.spec P).encode (write W) m.slots

def setAside (W : Writers P) : LeaderToFrontend P → List (Json F)
  | .response _ result => result.setAside W
  | _ => []

theorem build_slots (m : LeaderToFrontend P) : build m.slots = .ok m := by
  cases m <;> rfl

/-- A message is read back where its result is. -/
theorem read_encode {W : Writers P} {m : LeaderToFrontend P}
    (h : ∀ result, m.slots .result = some result →
      BrokerResult.read (result.encode W) = .ok result) : read (m.encode W) = .ok m := by
  refine Spec.read_encode (fun _ _ => rfl) (fun f v hv => ?_) (build_slots m)
  cases f with
  | type => exact readLeaderTag_write (F := F) v
  | rpcRequestId => exact RpcRequestId.read_encode (F := F) v
  | progress => exact RpcProgress.read_encode (F := F) v
  | result => exact h v hv
  | error => exact ToolError.read_encode (F := F) v

theorem read_encode_iff {W : Writers P} (hW : W.RoundTrip) (m : LeaderToFrontend P) :
    read (m.encode W) = .ok m ↔ ∀ text ∈ m.setAside W, text.len ≤ maxEnvelopeBytes := by
  cases m with
  | progress rpcRequestId progress => exact iff_of_true (read_encode nofun) (List.forall_mem_nil _)
  | response rpcRequestId result =>
      constructor
      · intro h
        obtain ⟨_, hresult⟩ := Spec.exists_read_of_encode (fun _ _ => rfl) h (f := .result) rfl
        exact BrokerResult.len_setAside hresult
      · intro h
        refine read_encode fun r hr => ?_
        obtain rfl := Option.some.inj hr
        exact BrokerResult.read_encode hW h
  | error rpcRequestId error => exact iff_of_true (read_encode nofun) (List.forall_mem_nil _)

end LeaderToFrontend

/-- **Every message is read back** if and only if no text that is put aside is too long. -/
theorem messages_round_trip {W : Writers P} (hW : W.RoundTrip) :
    (∀ m : PluginToBroker P, PluginToBroker.read (m.encode W) = .ok m ↔
        ∀ text ∈ m.setAside W, text.len ≤ maxEnvelopeBytes) ∧
      (∀ m : BrokerToPlugin P, BrokerToPlugin.read (m.encode W) = .ok m ↔
        ∀ text ∈ m.setAside W, text.len ≤ maxEnvelopeBytes) ∧
      (∀ m : FrontendToLeader P, FrontendToLeader.read (m.encode W) = .ok m ↔
        ∀ text ∈ m.setAside W, text.len ≤ maxEnvelopeBytes) ∧
      (∀ m : LeaderToFrontend P, LeaderToFrontend.read (m.encode W) = .ok m ↔
        ∀ text ∈ m.setAside W, text.len ≤ maxEnvelopeBytes) ∧
      (∀ c : BrokerCall P, BrokerCall.read (c.encode W) = .ok c ↔
        ∀ text ∈ c.setAside W, text.len ≤ maxEnvelopeBytes) ∧
      ∀ r : BrokerResult P, BrokerResult.read (r.encode W) = .ok r ↔
        ∀ text ∈ r.setAside W, text.len ≤ maxEnvelopeBytes :=
  ⟨PluginToBroker.read_encode_iff hW, BrokerToPlugin.read_encode_iff hW,
    FrontendToLeader.read_encode_iff hW, LeaderToFrontend.read_encode_iff hW,
    fun _ => ⟨BrokerCall.len_setAside, BrokerCall.read_encode hW⟩,
    fun _ => ⟨BrokerResult.len_setAside, BrokerResult.read_encode hW⟩⟩

end FigmaDevMcp.Protocol

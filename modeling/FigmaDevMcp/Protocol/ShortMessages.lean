import FigmaDevMcp.Protocol.RoundTrips
import FigmaDevMcp.Tools.BoundaryStrings

set_option autoImplicit false

/-!
# Messages without a payload

A message that carries neither an input nor a result is short whatever is in it, since all of it is
bounded. Its members are never too long to be put aside.

* `len_writeBounded_le`, `len_writeUnsigned_le`: the leaves;
* `Hello.len_encode_le`, `Progress.len_encode_le`, `WireError.len_encode_le`: **the messages are
  short**.
-/

namespace FigmaDevMcp.Protocol

open Serde Tools

variable {F : Type}

theorem escapedSize_le (c : Char) : Json.escapedSize c ≤ 6 * c.utf8Size := by
  have := c.utf8Size_pos
  unfold Json.escapedSize
  split_ifs <;> omega

theorem len_writeString_le (s : Str) : (Json.writeString s : Json F).len ≤ 6 * s.len + 2 := by
  have hsum : (s.map Json.escapedSize).sum ≤ 6 * s.len := by
    induction s with
    | nil => exact Nat.zero_le _
    | cons c s ih =>
        have := escapedSize_le c
        rw [Str.len] at ih ⊢
        rw [List.map_cons, List.map_cons, List.sum_cons, List.sum_cons]
        omega
  rw [Json.writeString, Json.len]
  omega

theorem len_writeBounded_le {bound : Bound} (v : BoundedString bound) :
    (writeBounded v : Json F).len ≤ 6 * bound.maximumBytes + 2 := by
  have hvalid := (validateBoundaryString_eq_ok.1 v.valid).2
  have := len_writeString_le (F := F) v.value
  rw [writeBounded]
  omega

theorem len_writeUnsigned_le {bits : ℕ} (hbits : bits ≤ 64) (n : Fin (2 ^ bits)) :
    (Json.writeUnsigned n : Json F).len ≤ 20 := by
  have hle : 2 ^ bits ≤ 2 ^ 64 := Nat.pow_le_pow_right (by decide) hbits
  have hlt : n.1 < 10 ^ 20 := (n.2.trans_le hle).trans (by decide)
  exact (Nat.length_repr_le_iff (by decide)).2 hlt

theorem len_writeOption_le {α : Type} {write : α → Json F} {n : ℕ} (hn : 4 ≤ n)
    (h : ∀ a, (write a).len ≤ n) (o : Option α) : (Json.writeOption write o).len ≤ n := by
  cases o with
  | none => exact hn
  | some a => exact h a

theorem len_writeBool_le (b : Bool) : (Json.writeBool b : Json F).len ≤ 5 := by
  show (if b then 4 else 5) ≤ 5
  split_ifs <;> decide

theorem len_errorCode_le (code : ErrorCode) :
    (Json.writeWord (errorCodeWord code) : Json F).len ≤ 24 := by
  have hword : (errorCodeWord code).utf8ByteSize ≤ 22 := by
    cases code <;> decide
  exact Nat.add_le_add_right hword 2

theorem len_writeList_le {α : Type} {write : α → Json F} {n : ℕ} {items : List α}
    (h : ∀ a ∈ items, (write a).len ≤ n) : (Json.writeList write items).len ≤ 2 + items.length * (n + 1) := by
  have hitems : Json.lenItems (items.map write) ≤ items.length * n := by
    induction items with
    | nil => exact Nat.zero_le _
    | cons a items ih =>
        obtain ⟨hfirst, hrest⟩ := List.forall_mem_cons.1 h
        have := ih hrest
        rw [List.map_cons, Json.lenItems, List.length_cons, Nat.add_mul]
        omega
  rw [Json.writeList, Json.len, List.length_map, Nat.mul_add]
  omega

/-! ## Records -/

theorem PageSummary.len_encode_le (p : PageSummary) : (p.encode : Json F).len ≤ 20000 := by
  have hfields : ∀ f v, (p.slots (F := F)) f = some v → (write f v : Json F).len ≤ 6146 := by
    intro f v _
    cases f with
    | id => exact (len_writeBounded_le (F := F) v).trans (by decide)
    | name => exact (len_writeBounded_le (F := F) v).trans (by decide)
  have hnames : ∀ f, (PageSummaryField.fieldName f).utf8ByteSize ≤ 20 := by
    intro f
    cases f <;> decide
  exact (Spec.len_encode_le hnames hfields).trans (by decide : 2 + 2 * (6146 + 20 + 4) ≤ 20000)

theorem CapabilitySet.len_encode_le (c : CapabilitySet) : (c.encode : Json F).len ≤ 20000 := by
  have hfields : ∀ f v, (c.slots (F := F)) f = some v → (write f v : Json F).len ≤ 5 := by
    intro f v _
    cases f <;> exact len_writeBool_le v
  have hnames : ∀ f, (CapabilitySetField.name f).utf8ByteSize ≤ 20 := by
    intro f
    cases f <;> decide
  exact (Spec.len_encode_le hnames hfields).trans (by decide : 2 + 5 * (5 + 20 + 4) ≤ 20000)

theorem Hello.len_encode_le (h : Hello) : (h.encode : Json F).len ≤ 200000 := by
  have hfields : ∀ f v, (h.slots (F := F)) f = some v → (write f v : Json F).len ≤ 20000 := by
    intro f v _
    cases f with
    | protocolVersion => exact (len_writeBounded_le (F := F) v).trans (by decide)
    | connectionId =>
        have := len_writeString_le (F := F) v.value
        have := v.len_value
        show (Json.writeString v.value : Json F).len ≤ 20000
        omega
    | displayName => exact (len_writeBounded_le (F := F) v).trans (by decide)
    | fileKey => exact len_writeOption_le (by decide) (fun a => (len_writeBounded_le a).trans (by decide)) v
    | fileName => exact (len_writeBounded_le (F := F) v).trans (by decide)
    | currentPage => exact PageSummary.len_encode_le v
    | editorType => exact (len_writeBounded_le (F := F) v).trans (by decide)
    | pluginVersion => exact (len_writeBounded_le (F := F) v).trans (by decide)
    | capabilities => exact CapabilitySet.len_encode_le v
  have hnames : ∀ f, (HelloField.name f).utf8ByteSize ≤ 20 := by
    intro f
    cases f <;> decide
  exact (Spec.len_encode_le hnames hfields).trans (by decide : 2 + 9 * (20000 + 20 + 4) ≤ 200000)

theorem Progress.len_encode_le (p : Progress) : (p.encode : Json F).len ≤ 200000 := by
  have hfields : ∀ f v, (p.slots (F := F)) f = some v → (write f v : Json F).len ≤ 20000 := by
    intro f v _
    cases f with
    | requestId => exact (len_writeBounded_le (F := F) v).trans (by decide)
    | completed => exact (len_writeUnsigned_le (F := F) (by decide) v).trans (by decide)
    | total =>
        exact len_writeOption_le (by decide) (fun n => (len_writeUnsigned_le (by decide) n).trans (by decide)) v
    | message => exact len_writeOption_le (by decide) (fun a => (len_writeBounded_le a).trans (by decide)) v
  have hnames : ∀ f, (ProgressField.name f).utf8ByteSize ≤ 20 := by
    intro f
    cases f <;> decide
  exact (Spec.len_encode_le hnames hfields).trans (by decide : 2 + 4 * (20000 + 20 + 4) ≤ 200000)

theorem PluginItemFailure.len_encode_le (e : PluginItemFailure) : (e.encode : Json F).len ≤ 7000 := by
  have hfields : ∀ f v, (e.slots (F := F)) f = some v → (write f v : Json F).len ≤ 1600 := by
    intro f v _
    cases f with
    | index => exact (len_writeUnsigned_le (F := F) (by decide) v).trans (by decide)
    | id => exact len_writeOption_le (by decide) (fun a => (len_writeBounded_le a).trans (by decide)) v
    | code => exact (len_errorCode_le (F := F) v).trans (by decide)
    | retryable => exact (len_writeBool_le (F := F) v).trans (by decide)
  have hnames : ∀ f, (PluginItemFailureField.name f).utf8ByteSize ≤ 20 := by
    intro f
    cases f <;> decide
  exact (Spec.len_encode_le hnames hfields).trans (by decide : 2 + 4 * (1600 + 20 + 4) ≤ 7000)

theorem len_failureItems_le (items : BoundedList PluginItemFailure maxInputIds) :
    (writeBoundedList PluginItemFailure.encode items : Json F).len ≤ 14100000 := by
  have hlength : items.items.length ≤ 2000 := items.length_le
  have := len_writeList_le (F := F) fun item (_ : item ∈ items.items) => item.len_encode_le
  rw [writeBoundedList]
  omega

/-- Two thousand items of a failure still leave room. -/
theorem PluginFailure.len_encode_le (e : PluginFailure) : (e.encode : Json F).len ≤ 14200000 := by
  obtain ⟨code, retryable, items⟩ := e
  have hcode := len_errorCode_le (F := F) code
  have hretryable := len_writeBool_le (F := F) retryable
  cases items with
  | none =>
      show (Json.object 0 [(⟨4, "code"⟩, (Json.writeWord (errorCodeWord code) : Json F)),
        (⟨9, "retryable"⟩, Json.writeBool retryable)]).len ≤ 14200000
      simp only [Json.len, Json.lenMembers, List.length]
      omega
  | some items =>
      have hitems := len_failureItems_le (F := F) items
      show (Json.object 0 [(⟨4, "code"⟩, (Json.writeWord (errorCodeWord code) : Json F)),
        (⟨9, "retryable"⟩, Json.writeBool retryable),
        (⟨5, "items"⟩, writeBoundedList PluginItemFailure.encode items)]).len ≤ 14200000
      simp only [Json.len, Json.lenMembers, List.length]
      omega

theorem WireError.len_encode_le (e : WireError) : (e.encode : Json F).len ≤ 14300000 := by
  have hid := len_writeBounded_le (F := F) e.requestId
  have hid : (writeBounded e.requestId : Json F).len ≤ 1538 := hid
  have herror := PluginFailure.len_encode_le (F := F) e.error
  show (Json.object 0 [(⟨9, "requestId"⟩, (writeBounded e.requestId : Json F)),
    (⟨5, "error"⟩, e.error.encode)]).len ≤ 14300000
  simp only [Json.len, Json.lenMembers, List.length]
  omega

theorem Pong.len_encode_le (p : Pong) : (p.encode : Json F).len ≤ 100 := by
  have hnonce := len_writeUnsigned_le (F := F) (by decide) p.nonce
  show (Json.object 0 [(⟨5, "nonce"⟩, (Json.writeUnsigned p.nonce : Json F))]).len ≤ 100
  simp only [Json.len, Json.lenMembers, List.length]
  omega

/-! ## What is read of them -/

section

variable {P : Payloads F}

theorem len_le_tagged (name : String) (ms : List (Serde.Member F)) :
    (Json.object 0 ms).len ≤ (tagged name (.object 0 ms)).len := by
  rw [tagged, Json.len, Json.len, Json.lenMembers, List.length_cons]
  omega

theorem len_tagged_le (name : String) (ms : List (Serde.Member F)) :
    (tagged name (.object 0 ms)).len ≤ (Json.object 0 ms).len + (name.utf8ByteSize + 10) := by
  rw [tagged, Json.len, Json.len, Json.lenMembers, List.length_cons, Json.writeWord, Json.len]
  dsimp only
  omega

theorem tagged_fits {name : String} {ms : List (Serde.Member F)} (hname : name.utf8ByteSize ≤ 20)
    (h : (Json.object 0 ms).len ≤ 15000000) : (tagged name (.object 0 ms)).len ≤ maxEnvelopeBytes := by
  have := len_tagged_le name ms
  have : maxEnvelopeBytes = 25165824 := by decide
  omega

/-- A message whose members are put aside and put together again. -/
theorem read_tagged {α : Type} (tag : PluginMessageTag) {ms : List (Serde.Member F)} (hms : Deferrable ms)
    (hfits : (Json.object 0 ms).len ≤ maxEnvelopeBytes) {read : Json F → Except DecodeError α}
    {wrap : α → PluginToBroker P}
    (hchoose : ∀ object, PluginToBroker.choose object tag = (DeferredObject.decode read object).map wrap)
    {v : α} (hread : read (.object 0 ms) = .ok v) :
    PluginToBroker.read (tagged (pluginMessageWord tag) (.object 0 ms)) = .ok (wrap v) := by
  obtain ⟨object, hobject, hvisit⟩ : ∃ object : DeferredObject F, object.encoded = .object 0 ms ∧
      visitMessage pluginMessageTags (fun tag object => PluginToBroker.choose (P := P) object tag)
        ((⟨4, "type"⟩, Json.writeWord (pluginMessageWord tag)) :: ms) = PluginToBroker.choose object tag :=
    visitMessage_fits (readPluginTag_write tag) hms hfits
  rw [hchoose, decode_eq hobject hfits hread] at hvisit
  exact hvisit

theorem Hello.tagged_fits (h : Hello) : (tagged "hello" h.encode : Json F).len ≤ maxEnvelopeBytes :=
  Protocol.tagged_fits (by decide) (h.len_encode_le.trans (by decide))

theorem Hello.read_tagged (h : Hello) :
    PluginToBroker.read (P := P) (tagged "hello" h.encode) = .ok (.hello h) := by
  have hname : ∀ f, HelloField.name f ∈ deferredNames := by
    intro f
    cases f <;> decide
  exact Protocol.read_tagged .hello (deferrable_members hname _ _)
    (h.len_encode_le.trans (by decide)) (fun _ => rfl) (Hello.read_encode h)

theorem Progress.tagged_fits (p : Progress) : (tagged "progress" p.encode : Json F).len ≤ maxEnvelopeBytes :=
  Protocol.tagged_fits (by decide) (p.len_encode_le.trans (by decide))

theorem Progress.read_tagged (p : Progress) :
    PluginToBroker.read (P := P) (tagged "progress" p.encode) = .ok (.progress p) := by
  have hname : ∀ f, ProgressField.name f ∈ deferredNames := by
    intro f
    cases f <;> decide
  exact Protocol.read_tagged .progress (deferrable_members hname _ _)
    (p.len_encode_le.trans (by decide)) (fun _ => rfl) (Progress.read_encode p)

theorem WireError.tagged_fits (e : WireError) : (tagged "error" e.encode : Json F).len ≤ maxEnvelopeBytes :=
  Protocol.tagged_fits (by decide) (e.len_encode_le.trans (by decide))

theorem WireError.read_tagged (e : WireError) :
    PluginToBroker.read (P := P) (tagged "error" e.encode) = .ok (.error e) := by
  have hname : ∀ f, WireErrorField.name f ∈ deferredNames := by
    intro f
    cases f <;> decide
  exact Protocol.read_tagged .error (deferrable_members hname _ _)
    (e.len_encode_le.trans (by decide)) (fun _ => rfl) (WireError.read_encode e)

theorem Pong.tagged_fits (p : Pong) : (tagged "pong" p.encode : Json F).len ≤ maxEnvelopeBytes :=
  Protocol.tagged_fits (by decide) (p.len_encode_le.trans (by decide))

theorem Pong.read_tagged (p : Pong) :
    PluginToBroker.read (P := P) (tagged "pong" p.encode) = .ok (.pong p) := by
  have hname : ∀ f, NonceField.name f ∈ deferredNames := by
    intro f
    cases f
    decide
  exact Protocol.read_tagged .pong (deferrable_members hname _ _)
    (p.len_encode_le.trans (by decide)) (fun _ => rfl) (Pong.read_encode p)

end

/-! ## Responses -/

section

variable {P : Payloads F}

/-- The members of a response, of which one is a payload. -/
def responseMembers (id : RequestId) (raw : Json F) : List (Serde.Member F) :=
  [(⟨9, "requestId"⟩, writeBounded id), (⟨6, "result"⟩, raw)]

/-- The result is written as the text that it is. -/
def writeRaw (raw : Json F) : ∀ f : ResponseField, f.Val P → Json F
  | .requestId => writeBounded
  | .result => fun _ => raw

theorem deferrable_response (id : RequestId) (raw : Json F) : Deferrable (responseMembers id raw) where
  named := List.forall_mem_cons.2 ⟨⟨.requestId, nofun, rfl⟩,
    List.forall_mem_singleton.2 ⟨.result, nofun, rfl⟩⟩
  nodup := by
    show ["requestId", "result"].Nodup
    decide

theorem Response.read_members (id : RequestId) {raw : Json F} {r : ReadResult P}
    (h : ReadResult.read raw = .ok r) : read (.object 0 (responseMembers id raw)) = .ok (⟨id, r⟩ : Response P) := by
  have hread : read ((ResponseField.spec P).encode (writeRaw raw) (slots ⟨id, r⟩)) = .ok (⟨id, r⟩ : Response P) := by
    refine Spec.read_encode (fun _ _ => rfl) (fun f v hv => ?_) rfl
    cases f with
    | requestId => exact readBounded_writeBounded (F := F) v
    | result =>
        obtain rfl := Option.some.inj hv
        exact h
  exact hread

theorem Response.exists_read_of_members {id : RequestId} {raw : Json F} {v : Response P}
    (h : read (.object 0 (responseMembers id raw)) = .ok v) : ∃ r : ReadResult P, ReadResult.read raw = .ok r := by
  obtain ⟨s, hs, -⟩ := Guard.bind_eq_ok.1 h
  obtain ⟨f, w, hname, hw, -⟩ := (Spec.slots_of_visitMap hs).2.1 (⟨6, "result"⟩, raw)
    (List.mem_cons_of_mem _ List.mem_cons_self)
  obtain rfl : f = .result := (ResponseField.spec P).name_inj f .result hname
  exact ⟨w, hw⟩

theorem Response.read_tagged (id : RequestId) {raw : Json F} {r : ReadResult P}
    (hfits : (Json.object 0 (responseMembers id raw)).len ≤ maxEnvelopeBytes)
    (h : ReadResult.read raw = .ok r) :
    PluginToBroker.read (tagged "response" (.object 0 (responseMembers id raw))) = .ok (.response ⟨id, r⟩) :=
  Protocol.read_tagged .response (deferrable_response id raw) hfits (fun _ => rfl)
    (Response.read_members id h)

/-- A response that is read has a result that is read. -/
theorem Response.exists_read_of_tagged {id : RequestId} {raw : Json F} {m : PluginToBroker P}
    (h : PluginToBroker.read (tagged "response" (.object 0 (responseMembers id raw))) = .ok m) :
    ∃ r : ReadResult P, ReadResult.read raw = .ok r := by
  have hvisit : visitMessage pluginMessageTags (fun tag object => PluginToBroker.choose (P := P) object tag)
      ((⟨4, "type"⟩, Json.writeWord (pluginMessageWord .response)) :: responseMembers id raw) = .ok m := h
  have hfits := len_of_visitMessage (readPluginTag_write .response) (deferrable_response id raw) hvisit
  obtain ⟨object, hobject, hchosen⟩ : ∃ object : DeferredObject F,
      object.encoded = .object 0 (responseMembers id raw) ∧
        visitMessage pluginMessageTags (fun tag object => PluginToBroker.choose (P := P) object tag)
          ((⟨4, "type"⟩, Json.writeWord (pluginMessageWord .response)) :: responseMembers id raw) =
            PluginToBroker.choose object .response :=
    visitMessage_fits (readPluginTag_write .response) (deferrable_response id raw) hfits
  rw [hvisit, PluginToBroker.choose, DeferredObject.decode, hobject, if_neg (Nat.not_lt.2 hfits)] at hchosen
  cases hread : (read (.object 0 (responseMembers id raw)) : Except DecodeError (Response P)) with
  | error e =>
      rw [hread] at hchosen
      cases hchosen
  | ok v => exact exists_read_of_members hread

end

end FigmaDevMcp.Protocol

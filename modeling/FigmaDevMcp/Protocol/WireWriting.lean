import FigmaDevMcp.Protocol.Rpc
import FigmaDevMcp.Protocol.Writing

set_option autoImplicit false

/-!
# Writing the records of messages

The derived serializers of the records of `wire.rs` and `rpc.rs`, with the round trip of each.

* `Writers`: how what the tools read and return is written;
* `ReadOperation.read_encode`, `ReadResult.read_encode`: a payload that is not too long is read back;
* `Hello.read_encode`, …: the records around them.
-/

namespace FigmaDevMcp.Protocol

open Serde Tools

variable {F : Type} {P : Payloads F}

/-! ## Payloads -/

variable (P) in
/-- The serializers of the payloads. -/
structure Writers where
  writeInput : ∀ tag, P.Input tag → Json F
  writeResult : ∀ tag, P.Result tag → Json F
  writeListFiles : P.ListFilesResult → Json F

/-- Every payload is read back. -/
structure Writers.RoundTrip (W : Writers P) : Prop where
  input : ∀ tag v, P.readInput tag (W.writeInput tag v) = .ok v
  result : ∀ tag v, P.readResult tag (W.writeResult tag v) = .ok v
  listFiles : ∀ v, P.readListFiles (W.writeListFiles v) = .ok v

def readTagWord : ReadTag → String
  | .getMetadata => "get_metadata"
  | .getSelection => "get_selection"
  | .getNodes => "get_nodes"
  | .searchNodes => "search_nodes"
  | .getDesignContext => "get_design_context"
  | .getStyles => "get_styles"
  | .getVariables => "get_variables"
  | .getComponents => "get_components"
  | .getFonts => "get_fonts"
  | .getDevModeData => "get_dev_mode_data"
  | .getReactions => "get_reactions"
  | .getMotion => "get_motion"
  | .getScreenshot => "get_screenshot"

theorem readTag_write (tag : ReadTag) :
    Json.readWord readTagWords (Json.writeWord (readTagWord tag) : Json F) = .ok tag :=
  Json.readWord_writeWord (by decide) (by cases tag <;> decide)

/-- A text that is put aside is read if it is not too long. -/
theorem decodeRaw_write {α : Type} {read : Json F → Except DecodeError α} {raw : Json F} {v : α}
    (h : read raw = .ok v) (hfits : raw.len ≤ maxEnvelopeBytes) : decodeRaw read raw = .ok v := by
  rw [decodeRaw, if_neg (Nat.not_lt.2 hfits), h]
  rfl

theorem len_of_decodeRaw {α : Type} {read : Json F → Except DecodeError α} {raw : Json F} {v : α}
    (h : decodeRaw read raw = .ok v) : raw.len ≤ maxEnvelopeBytes := by
  rw [decodeRaw] at h
  split_ifs at h with hlong
  exact Nat.le_of_not_lt hlong

namespace ReadOperation

/-- The text of the input. -/
def raw (W : Writers P) (op : ReadOperation P) : Json F := W.writeInput op.tag op.input

def slots (W : Writers P) (op : ReadOperation P) : (OperationField.spec (F := F)).Slots
  | .operation => some op.tag
  | .input => some (op.raw W)

def write : ∀ f : OperationField, f.Val F → Json F
  | .operation => fun tag => Json.writeWord (readTagWord tag)
  | .input => id

def encode (W : Writers P) (op : ReadOperation P) : Json F :=
  OperationField.spec.encode write (op.slots W)

theorem read_encode_eq (W : Writers P) (op : ReadOperation P) :
    read (op.encode W) = (decodeRaw (P.readInput op.tag) (op.raw W)).map (⟨op.tag, ·⟩) := by
  have hbuild : read (op.encode W) = build (P := P) (op.slots W) := by
    refine Spec.read_encode_eq (fun _ _ => rfl) fun f v _ => ?_
    cases f with
    | operation => exact readTag_write (F := F) v
    | input => rfl
  exact hbuild

variable {W : Writers P} {op : ReadOperation P}

theorem read_encode (hW : W.RoundTrip) (h : (op.raw W).len ≤ maxEnvelopeBytes) :
    read (op.encode W) = .ok op := by
  have hraw : decodeRaw (P.readInput op.tag) (op.raw W) = .ok op.input :=
    decodeRaw_write (hW.input op.tag op.input) h
  rw [read_encode_eq, hraw]
  rfl

/-- The text of the input is part of the text around it. -/
theorem len_raw_le : (op.raw W).len ≤ (op.encode W).len :=
  Spec.len_le_encode OperationField.spec write (op.slots W) (f := .input) rfl

/-- What is read at all had an input that is not too long. -/
theorem len_raw {v : ReadOperation P} (h : read (op.encode W) = .ok v) :
    (op.raw W).len ≤ maxEnvelopeBytes := by
  rw [read_encode_eq] at h
  cases hraw : decodeRaw (P.readInput op.tag) (op.raw W) with
  | ok input => exact len_of_decodeRaw hraw
  | error e =>
      rw [hraw] at h
      cases h

end ReadOperation

namespace ReadResult

/-- The text of the result. -/
def raw (W : Writers P) (r : ReadResult P) : Json F := W.writeResult r.tag r.result

def slots (W : Writers P) (r : ReadResult P) : (ResultField.spec (F := F)).Slots
  | .operation => some r.tag
  | .result => some (r.raw W)

def write : ∀ f : ResultField, f.Val F → Json F
  | .operation => fun tag => Json.writeWord (readTagWord tag)
  | .result => id

def encode (W : Writers P) (r : ReadResult P) : Json F := ResultField.spec.encode write (r.slots W)

theorem read_encode_eq (W : Writers P) (r : ReadResult P) :
    read (r.encode W) = (decodeRaw (P.readResult r.tag) (r.raw W)).map (⟨r.tag, ·⟩) := by
  have hbuild : read (r.encode W) = build (P := P) (r.slots W) := by
    refine Spec.read_encode_eq (fun _ _ => rfl) fun f v _ => ?_
    cases f with
    | operation => exact readTag_write (F := F) v
    | result => rfl
  exact hbuild

variable {W : Writers P} {r : ReadResult P}

theorem read_encode (hW : W.RoundTrip) (h : (r.raw W).len ≤ maxEnvelopeBytes) :
    read (r.encode W) = .ok r := by
  have hraw : decodeRaw (P.readResult r.tag) (r.raw W) = .ok r.result :=
    decodeRaw_write (hW.result r.tag r.result) h
  rw [read_encode_eq, hraw]
  rfl

/-- The text of the result is part of the text around it. -/
theorem len_raw_le : (r.raw W).len ≤ (r.encode W).len :=
  Spec.len_le_encode ResultField.spec write (r.slots W) (f := .result) rfl

end ReadResult

/-! ## The records of messages -/

namespace PageSummary

def slots (p : PageSummary) : (PageSummaryField.spec (F := F)).Slots
  | .id => some p.id
  | .name => some p.name

def write : ∀ f : PageSummaryField, f.Val → Json F
  | .id => writeBounded
  | .name => writeBounded

def encode (p : PageSummary) : Json F := PageSummaryField.spec.encode write p.slots

theorem read_encode (p : PageSummary) : read (encode p : Json F) = .ok p := by
  refine Spec.read_encode (fun _ _ => rfl) (fun f v _ => ?_) rfl
  cases f with
  | id => exact readBounded_writeBounded (F := F) v
  | name => exact readBounded_writeBounded (F := F) v

end PageSummary

namespace CapabilitySet

def slots (c : CapabilitySet) : (CapabilitySetField.spec (F := F)).Slots
  | .annotations => some c.annotations
  | .devResources => some c.devResources
  | .motion => some c.motion
  | .svgStringExport => some c.svgStringExport
  | .variableCodeSyntax => some c.variableCodeSyntax

def write : ∀ f : CapabilitySetField, f.Val → Json F
  | .annotations => Json.writeBool
  | .devResources => Json.writeBool
  | .motion => Json.writeBool
  | .svgStringExport => Json.writeBool
  | .variableCodeSyntax => Json.writeBool

def encode (c : CapabilitySet) : Json F := CapabilitySetField.spec.encode write c.slots

theorem read_encode (c : CapabilitySet) : read (encode c : Json F) = .ok c := by
  refine Spec.read_encode (fun _ _ => rfl) (fun f v _ => ?_) rfl
  cases f <;> rfl

end CapabilitySet

namespace Hello

def slots (h : Hello) : (HelloField.spec (F := F)).Slots
  | .protocolVersion => some h.protocolVersion
  | .connectionId => some h.connectionId
  | .displayName => some h.displayName
  | .fileKey => h.fileKey.map some
  | .fileName => some h.fileName
  | .currentPage => some h.currentPage
  | .editorType => some h.editorType
  | .pluginVersion => some h.pluginVersion
  | .capabilities => some h.capabilities

def write : ∀ f : HelloField, f.Val → Json F
  | .protocolVersion => writeBounded
  | .connectionId => writeConnectionId
  | .displayName => writeBounded
  | .fileKey => Json.writeOption writeBounded
  | .fileName => writeBounded
  | .currentPage => PageSummary.encode
  | .editorType => writeBounded
  | .pluginVersion => writeBounded
  | .capabilities => CapabilitySet.encode

def encode (h : Hello) : Json F := HelloField.spec.encode write h.slots

theorem read_encode (h : Hello) : read (encode h : Json F) = .ok h := by
  refine Spec.read_encode (fun _ _ => rfl) (fun f v hv => ?_) ?_
  · cases f with
    | protocolVersion => exact readBounded_writeBounded (F := F) v
    | connectionId => exact readConnectionId_write (F := F) v
    | displayName => exact readBounded_writeBounded (F := F) v
    | fileKey => exact Json.readOption_writeOption readBounded_writeBounded (fun _ => nofun) hv
    | fileName => exact readBounded_writeBounded (F := F) v
    | currentPage => exact PageSummary.read_encode (F := F) v
    | editorType => exact readBounded_writeBounded (F := F) v
    | pluginVersion => exact readBounded_writeBounded (F := F) v
    | capabilities => exact CapabilitySet.read_encode (F := F) v
  · cases h with
    | mk _ _ _ fileKey => cases fileKey <;> rfl

end Hello

namespace Progress

def slots (p : Progress) : (ProgressField.spec (F := F)).Slots
  | .requestId => some p.requestId
  | .completed => some p.completed
  | .total => p.total.map some
  | .message => p.message.map some

def write : ∀ f : ProgressField, f.Val → Json F
  | .requestId => writeBounded
  | .completed => Json.writeUnsigned
  | .total => Json.writeOption Json.writeUnsigned
  | .message => Json.writeOption writeBounded

def encode (p : Progress) : Json F := ProgressField.spec.encode write p.slots

theorem read_encode (p : Progress) : read (encode p : Json F) = .ok p := by
  refine Spec.read_encode (fun _ _ => rfl) (fun f v hv => ?_) ?_
  · cases f with
    | requestId => exact readBounded_writeBounded (F := F) v
    | completed => exact Json.readUnsigned_writeUnsigned (F := F) v
    | total =>
        exact Json.readOption_writeOption Json.readUnsigned_writeUnsigned (fun _ => nofun) hv
    | message => exact Json.readOption_writeOption readBounded_writeBounded (fun _ => nofun) hv
  · cases p with
    | mk _ _ total message => cases total <;> cases message <;> rfl

end Progress

namespace Response

def slots (r : Response P) : (ResponseField.spec P).Slots
  | .requestId => some r.requestId
  | .result => some r.result

def write (W : Writers P) : ∀ f : ResponseField, f.Val P → Json F
  | .requestId => writeBounded
  | .result => ReadResult.encode W

def encode (W : Writers P) (r : Response P) : Json F :=
  (ResponseField.spec P).encode (write W) r.slots

theorem read_encode {W : Writers P} (hW : W.RoundTrip) {r : Response P}
    (h : (r.encode W).len ≤ maxEnvelopeBytes) : read (r.encode W) = .ok r := by
  have hresult : (r.result.encode W).len ≤ (r.encode W).len :=
    Spec.len_le_encode (ResponseField.spec P) (write W) r.slots (f := .result) rfl
  refine Spec.read_encode (fun _ _ => rfl) (fun f v hv => ?_) rfl
  cases f with
  | requestId => exact readBounded_writeBounded (F := F) v
  | result =>
      obtain rfl := Option.some.inj hv
      exact ReadResult.read_encode hW (ReadResult.len_raw_le.trans (hresult.trans h))

end Response

namespace WireError

def slots (e : WireError) : (WireErrorField.spec (F := F)).Slots
  | .requestId => some e.requestId
  | .error => some e.error

def write : ∀ f : WireErrorField, f.Val → Json F
  | .requestId => writeBounded
  | .error => PluginFailure.encode

def encode (e : WireError) : Json F := WireErrorField.spec.encode write e.slots

theorem read_encode (e : WireError) : read (encode e : Json F) = .ok e := by
  refine Spec.read_encode (fun _ _ => rfl) (fun f v _ => ?_) rfl
  cases f with
  | requestId => exact readBounded_writeBounded (F := F) v
  | error => exact PluginFailure.read_encode (F := F) v

end WireError

def nonceSlots (nonce : Fin (2 ^ 64)) : (NonceField.spec (F := F)).Slots
  | .nonce => some nonce

def writeNonce : ∀ f : NonceField, f.Val → Json F
  | .nonce => Json.writeUnsigned

def encodeNonce (nonce : Fin (2 ^ 64)) : Json F := NonceField.spec.encode writeNonce (nonceSlots nonce)

theorem visitMap_nonce {f : NonceField} (v : f.Val) :
    NonceField.spec.read f (writeNonce f v : Json F) = .ok v := by
  cases f with
  | nonce => exact Json.readUnsigned_writeUnsigned (F := F) v

def Pong.encode (p : Pong) : Json F := encodeNonce p.nonce

theorem Pong.read_encode (p : Pong) : read (encode p : Json F) = .ok p :=
  Spec.read_encode (fun _ _ => rfl) (fun _ v _ => visitMap_nonce v) rfl

def Ping.encode (p : Ping) : Json F := encodeNonce p.nonce

theorem Ping.read_encode (p : Ping) : read (encode p : Json F) = .ok p :=
  Spec.read_encode (fun _ _ => rfl) (fun _ v _ => visitMap_nonce v) rfl

namespace RequestTarget

def slots (t : RequestTarget) : (RequestTargetField.spec (F := F)).Slots
  | .fileKey => t.fileKey.map some

def write : ∀ f : RequestTargetField, f.Val → Json F
  | .fileKey => Json.writeOption writeBounded

def encode (t : RequestTarget) : Json F := RequestTargetField.spec.encode write t.slots

theorem read_encode (t : RequestTarget) : read (encode t : Json F) = .ok t := by
  refine Spec.read_encode (fun _ _ => rfl) (fun f v hv => ?_) ?_
  · cases f with
    | fileKey => exact Json.readOption_writeOption readBounded_writeBounded (fun _ => nofun) hv
  · cases t with
    | mk fileKey => cases fileKey <;> rfl

end RequestTarget

namespace Request

def slots (r : Request P) : (RequestField.spec P).Slots
  | .requestId => some r.requestId
  | .deadlineMs => some r.deadlineMs
  | .target => some r.target
  | .operation => some r.operation

def write (W : Writers P) : ∀ f : RequestField, f.Val P → Json F
  | .requestId => writeBounded
  | .deadlineMs => Json.writeUnsigned
  | .target => RequestTarget.encode
  | .operation => ReadOperation.encode W

def encode (W : Writers P) (r : Request P) : Json F :=
  (RequestField.spec P).encode (write W) r.slots

theorem read_encode {W : Writers P} (hW : W.RoundTrip) {r : Request P}
    (h : (r.encode W).len ≤ maxEnvelopeBytes) : read (r.encode W) = .ok r := by
  have hoperation : (r.operation.encode W).len ≤ (r.encode W).len :=
    Spec.len_le_encode (RequestField.spec P) (write W) r.slots (f := .operation) rfl
  refine Spec.read_encode (fun _ _ => rfl) (fun f v hv => ?_) rfl
  cases f with
  | requestId => exact readBounded_writeBounded (F := F) v
  | deadlineMs => exact Json.readUnsigned_writeUnsigned (F := F) v
  | target => exact RequestTarget.read_encode (F := F) v
  | operation =>
      obtain rfl := Option.some.inj hv
      exact ReadOperation.read_encode hW (ReadOperation.len_raw_le.trans (hoperation.trans h))

end Request

namespace Cancel

def slots (c : Cancel) : (CancelField.spec (F := F)).Slots
  | .requestId => some c.requestId

def write : ∀ f : CancelField, f.Val → Json F
  | .requestId => writeBounded

def encode (c : Cancel) : Json F := CancelField.spec.encode write c.slots

theorem read_encode (c : Cancel) : read (encode c : Json F) = .ok c := by
  refine Spec.read_encode (fun _ _ => rfl) (fun f v _ => ?_) rfl
  cases f with
  | requestId => exact readBounded_writeBounded (F := F) v

end Cancel

namespace RpcProgress

def slots (p : RpcProgress) : (RpcProgressField.spec (F := F)).Slots
  | .completed => some p.completed
  | .total => p.total.map some
  | .message => p.message.map some

def write : ∀ f : RpcProgressField, f.Val → Json F
  | .completed => Json.writeUnsigned
  | .total => Json.writeOption Json.writeUnsigned
  | .message => Json.writeOption writeBounded

def encode (p : RpcProgress) : Json F := RpcProgressField.spec.encode write p.slots

theorem read_encode (p : RpcProgress) : read (encode p : Json F) = .ok p := by
  refine Spec.read_encode (fun _ _ => rfl) (fun f v hv => ?_) ?_
  · cases f with
    | completed => exact Json.readUnsigned_writeUnsigned (F := F) v
    | total =>
        exact Json.readOption_writeOption Json.readUnsigned_writeUnsigned (fun _ => nofun) hv
    | message => exact Json.readOption_writeOption readBounded_writeBounded (fun _ => nofun) hv
  · cases p with
    | mk _ total message => cases total <;> cases message <;> rfl

end RpcProgress

/-- A wrapped identifier is written as it is. -/
def RpcRequestId.encode (id : RpcRequestId) : Json F := writeBounded id.id

theorem RpcRequestId.read_encode (id : RpcRequestId) : read (encode id : Json F) = .ok id := by
  rw [read, encode, readBounded_writeBounded]
  rfl

end FigmaDevMcp.Protocol

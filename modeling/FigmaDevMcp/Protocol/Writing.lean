import FigmaDevMcp.Lib.SerdeWrite
import FigmaDevMcp.Protocol.Reading
import Mathlib.Data.String.Basic

set_option autoImplicit false

/-!
# Writing bounded values

The serializers of the values of `Reading`, with the round trip of each.

* `readBounded_writeBounded`, `readReturnedList_writeList`: strings and lists within their bound;
* `ToolError.read_encode`: an error is written with the message of its code, and read back.
-/

namespace FigmaDevMcp.Protocol

open Serde Tools

variable {F : Type}

def writeBounded {bound : Bound} (value : BoundedString bound) : Json F :=
  Json.writeString value.value

theorem tryFrom_value {bound : Bound} (value : BoundedString bound) :
    BoundedString.tryFrom bound value.value = .ok value := by
  rw [BoundedString.tryFrom]
  split
  · rfl
  · rename_i e he
    rw [value.valid] at he
    cases he

theorem readBounded_writeBounded {bound : Bound} (value : BoundedString bound) :
    readBounded bound (writeBounded value : Json F) = .ok value := by
  show (BoundedString.tryFrom bound value.value).mapError _ = _
  rw [tryFrom_value]
  rfl

/-- An identifier is written with small letters, as which it is read. -/
def writeConnectionId (id : ConnectionId) : Json F := Json.writeString id.value

theorem readConnectionId_write (id : ConnectionId) :
    readConnectionId (writeConnectionId id : Json F) = .ok id := by
  show (connectionIdTryFrom id.value).mapError _ = _
  have hbound : validateBoundaryString ⟨maxIdentifierBytes, "connection identifier", false⟩ id.value =
      .ok () := by
    rw [validateBoundaryString, if_neg fun h => id.value_ne_nil h.2, id.len_value]
    rfl
  rw [connectionIdTryFrom, hbound, Guard.ok_bind, dif_pos id.canonical]
  cases id with
  | mk value canonical small => simp only [small]; rfl

theorem visitItems_map {α : Type} {excess : String} {read : Json F → Except DecodeError α}
    {write : α → Json F} {maximum : ℕ} {items : List α} (h : items.length ≤ maximum)
    (hitem : ∀ item ∈ items, read (write item) = .ok item) :
    visitItems excess read maximum (items.map write) = .ok ⟨items, h⟩ := by
  induction items generalizing maximum with
  | nil => cases maximum <;> rfl
  | cons item items ih =>
      have ⟨hfirst, hrest⟩ := List.forall_mem_cons.1 hitem
      cases maximum with
      | zero => exact absurd h (Nat.not_succ_le_zero _)
      | succ maximum =>
          rw [List.map_cons, visitItems, hfirst, Guard.ok_bind,
            ih (Nat.le_of_succ_le_succ h) hrest]
          rfl

def writeBoundedList {α : Type} {maximum : ℕ} (write : α → Json F)
    (list : BoundedList α maximum) : Json F :=
  Json.writeList write list.items

theorem readReturnedList_write {α : Type} {read : Json F → Except DecodeError α}
    {write : α → Json F} {list : ReturnedList α}
    (hitem : ∀ item ∈ list.items, read (write item) = .ok item) :
    readReturnedList read (writeBoundedList write list) = .ok list :=
  visitItems_map list.length_le hitem

theorem readErrorItems_write {α : Type} {read : Json F → Except DecodeError α} {write : α → Json F}
    {list : BoundedList α maxInputIds} (hitem : ∀ item, read (write item) = .ok item) :
    readErrorItems read (writeBoundedList write list) = .ok list :=
  visitItems_map list.length_le fun item _ => hitem item

/-! ## Errors -/

def errorCodeWord : ErrorCode → String
  | .noFigmaConnection => "NO_FIGMA_CONNECTION"
  | .ambiguousConnection => "AMBIGUOUS_CONNECTION"
  | .connectionNotFound => "CONNECTION_NOT_FOUND"
  | .connectionLost => "CONNECTION_LOST"
  | .protocolMismatch => "PROTOCOL_MISMATCH"
  | .nodeNotFound => "NODE_NOT_FOUND"
  | .nodeNotVisible => "NODE_NOT_VISIBLE"
  | .pageNotFound => "PAGE_NOT_FOUND"
  | .unsupportedNode => "UNSUPPORTED_NODE"
  | .emptyNodeBounds => "EMPTY_NODE_BOUNDS"
  | .capabilityUnavailable => "CAPABILITY_UNAVAILABLE"
  | .unsafeSvg => "UNSAFE_SVG"
  | .invalidCursor => "INVALID_CURSOR"
  | .limitExceeded => "LIMIT_EXCEEDED"
  | .timeout => "TIMEOUT"
  | .cancelled => "CANCELLED"
  | .internalError => "INTERNAL_ERROR"

theorem readErrorCode_write (code : ErrorCode) :
    Json.readWord errorCodeWords (Json.writeWord (errorCodeWord code) : Json F) = .ok code :=
  Json.readWord_writeWord (by decide) (by cases code <;> decide)

theorem len_toList (s : String) : Str.len s.toList = s.utf8ByteSize := by
  have hlen : ∀ cs : List Char, Str.len cs = (String.ofList cs).utf8ByteSize := by
    intro cs
    rw [String.utf8ByteSize_ofList]
    induction cs with
    | nil => rfl
    | cons c cs ih =>
        rw [String.utf8Len_cons, ← ih, Nat.add_comm]
        rfl
  rw [hlen, String.ofList_toList]

/-- Each message is within the bound of a displayed text. -/
theorem canonicalMessage_valid (code : ErrorCode) :
    validateBoundaryString ⟨maxDisplayTextBytes, "display text", true⟩
      (canonicalMessage code).toList = .ok () := by
  have hsize : (canonicalMessage code).utf8ByteSize ≤ maxDisplayTextBytes := by
    cases code <;> decide
  rw [← len_toList] at hsize
  rw [validateBoundaryString, if_neg (by simp), if_neg (Nat.not_lt.2 hsize)]

def messageOf (code : ErrorCode) : DisplayText :=
  ⟨(canonicalMessage code).toList, canonicalMessage_valid code⟩

namespace ItemError

def slots (e : ItemError) : (ItemErrorField.spec (F := F)).Slots
  | .index => some e.index
  | .id => e.id.map some
  | .code => some e.code
  | .message => some (messageOf e.code)
  | .retryable => some e.retryable

def write : ∀ f : ItemErrorField, f.Val → Json F
  | .index => Json.writeUnsigned
  | .id => Json.writeOption writeBounded
  | .code => fun code => Json.writeWord (errorCodeWord code)
  | .message => writeBounded
  | .retryable => Json.writeBool

def encode (e : ItemError) : Json F := ItemErrorField.spec.encode write e.slots

theorem read_encode (e : ItemError) : read (encode e : Json F) = .ok e := by
  refine Spec.read_encode (fun _ _ => rfl) ?_ ?_
  · intro f v hv
    cases f with
    | index => exact Json.readUnsigned_writeUnsigned (F := F) v
    | id =>
        obtain ⟨id, -, rfl⟩ := Option.map_eq_some_iff.1 hv
        exact Json.readOption_of_ne_null (readBounded_writeBounded id) nofun
    | code => exact readErrorCode_write (F := F) v
    | message => exact readBounded_writeBounded (F := F) v
    | retryable => rfl
  · show (if (messageOf e.code).value ≠ (canonicalMessage e.code).toList then _ else _) = _
    cases e with
    | mk index id code retryable =>
        cases id <;> exact if_neg (not_not_intro rfl)

end ItemError

namespace ToolError

def slots (e : ToolError) : (ToolErrorField.spec (F := F)).Slots
  | .code => some e.code
  | .message => some (messageOf e.code)
  | .retryable => some e.retryable
  | .items => e.items.map some

def write : ∀ f : ToolErrorField, f.Val → Json F
  | .code => fun code => Json.writeWord (errorCodeWord code)
  | .message => writeBounded
  | .retryable => Json.writeBool
  | .items => Json.writeOption (writeBoundedList ItemError.encode)

def encode (e : ToolError) : Json F := ToolErrorField.spec.encode write e.slots

/-- An error is read back, with the message of its code. -/
theorem read_encode (e : ToolError) : read (encode e : Json F) = .ok e := by
  refine Spec.read_encode (fun _ _ => rfl) ?_ ?_
  · intro f v hv
    cases f with
    | code => exact readErrorCode_write (F := F) v
    | message => exact readBounded_writeBounded (F := F) v
    | retryable => rfl
    | items =>
        obtain ⟨items, -, rfl⟩ := Option.map_eq_some_iff.1 hv
        exact Json.readOption_of_ne_null (readErrorItems_write ItemError.read_encode) nofun
  · show (if (messageOf e.code).value ≠ (canonicalMessage e.code).toList then _ else _) = _
    cases e with
    | mk code retryable items =>
        cases items <;> exact if_neg (not_not_intro rfl)

end ToolError

namespace PluginItemFailure

def slots (e : PluginItemFailure) : (PluginItemFailureField.spec (F := F)).Slots
  | .index => some e.index
  | .id => e.id.map some
  | .code => some e.code
  | .retryable => some e.retryable

def write : ∀ f : PluginItemFailureField, f.Val → Json F
  | .index => Json.writeUnsigned
  | .id => Json.writeOption writeBounded
  | .code => fun code => Json.writeWord (errorCodeWord code)
  | .retryable => Json.writeBool

def encode (e : PluginItemFailure) : Json F := PluginItemFailureField.spec.encode write e.slots

theorem read_encode (e : PluginItemFailure) : read (encode e : Json F) = .ok e := by
  refine Spec.read_encode (fun _ _ => rfl) (fun f v hv => ?_) ?_
  · cases f with
    | index => exact Json.readUnsigned_writeUnsigned (F := F) v
    | id => exact Json.readOption_writeOption readBounded_writeBounded (fun _ => nofun) hv
    | code => exact readErrorCode_write (F := F) v
    | retryable => rfl
  · cases e with
    | mk _ id => cases id <;> rfl

end PluginItemFailure

namespace PluginFailure

def slots (e : PluginFailure) : (PluginFailureField.spec (F := F)).Slots
  | .code => some e.code
  | .retryable => some e.retryable
  | .items => e.items.map some

def write : ∀ f : PluginFailureField, f.Val → Json F
  | .code => fun code => Json.writeWord (errorCodeWord code)
  | .retryable => Json.writeBool
  | .items => Json.writeOption (writeBoundedList PluginItemFailure.encode)

def encode (e : PluginFailure) : Json F := PluginFailureField.spec.encode write e.slots

theorem read_encode (e : PluginFailure) : read (encode e : Json F) = .ok e := by
  refine Spec.read_encode (fun _ _ => rfl) (fun f v hv => ?_) ?_
  · cases f with
    | code => exact readErrorCode_write (F := F) v
    | retryable => rfl
    | items =>
        obtain ⟨items, -, rfl⟩ := Option.map_eq_some_iff.1 hv
        exact Json.readOption_of_ne_null (readErrorItems_write PluginItemFailure.read_encode) nofun
  · cases e with
    | mk _ _ items => cases items <;> rfl

end PluginFailure

end FigmaDevMcp.Protocol

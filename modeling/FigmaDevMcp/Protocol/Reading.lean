import FigmaDevMcp.Protocol.Deferred
import FigmaDevMcp.Protocol.Error
import FigmaDevMcp.Tools.SearchContract

set_option autoImplicit false

/-!
# Reading bounded values

The deserializers of `common.rs` and `error.rs` for the values that messages are made of: bounded
strings and lists, the identifier of a connection, and the errors.

* `readBounded`, `readConnectionId`, `readBoundedList`: values that carry their bound;
* `ToolError.read`, `PluginFailure.read`: an error, with at most so many items.
-/

namespace FigmaDevMcp.Protocol

open Serde Tools

variable {F : Type}

/-! ## Strings and lists -/

def boundaryMessage : BoundaryValueError → String
  | .empty label => label ++ " must not be empty"
  | .tooLong label actual maximum =>
    label ++ " length " ++ toString actual ++ " bytes exceeds " ++ toString maximum
  | .tooMany label actual maximum =>
    label ++ " has " ++ toString actual ++ " items, exceeding " ++ toString maximum
  | .tooDeep actual maximum =>
    "node tree depth " ++ toString actual ++ " exceeds " ++ toString maximum
  | .malformedUuid label => label ++ " must be an RFC 4122 UUID"

def readBounded (bound : Bound) : Json F → Except DecodeError (BoundedString bound)
  | .string _ value => (BoundedString.tryFrom bound value).mapError (.custom ∘ boundaryMessage)
  | _ => .error (.invalidType
      (bound.label ++ " with at most " ++ toString bound.maximumBytes ++ " UTF-8 bytes"))

/-- The version that a plugin speaks. -/
abbrev ProtocolVersion := BoundedString ⟨maxIdentifierBytes, "protocol version", false⟩

/-- The id of an item. -/
abbrev ItemIdentifier := BoundedString ⟨maxIdentifierBytes, "item identifier", false⟩

/-- A text that is shown. -/
abbrev DisplayText := BoundedString ⟨maxDisplayTextBytes, "display text", true⟩

theorem toNat_toLower (c : Char) :
    c.toLower.toNat = if 65 ≤ c.toNat ∧ c.toNat ≤ 90 then c.toNat + 32 else c.toNat := by
  have hbounds : (c.val ≥ 'A'.val ∧ c.val ≤ 'Z'.val) ↔ (65 ≤ c.toNat ∧ c.toNat ≤ 90) :=
    and_congr UInt32.le_iff_toNat_le UInt32.le_iff_toNat_le
  by_cases h : c.val ≥ 'A'.val ∧ c.val ≤ 'Z'.val
  · have hle := hbounds.1 h
    rw [show c.toLower = _ from dif_pos h, if_pos hle]
    show (c.val + 32).toNat = c.toNat + 32
    rw [UInt32.toNat_add]
    exact Nat.mod_eq_of_lt (by show c.toNat + 32 < 2 ^ 32; omega)
  · rw [show c.toLower = c from dif_neg h, if_neg (mt hbounds.2 h)]

theorem toLower_toLower (c : Char) : c.toLower.toLower = c.toLower := by
  apply Char.toNat_inj.1
  rw [toNat_toLower, toNat_toLower]
  split_ifs <;> omega

theorem uuidByte_toLower {index : ℕ} {c : Char} (h : uuidByte index c.toNat = true) :
    uuidByte index c.toLower.toNat = true := by
  rw [toNat_toLower]
  by_cases hcap : 65 ≤ c.toNat ∧ c.toNat ≤ 90
  · rw [if_pos hcap]
    simp only [uuidByte, isHexChar] at h ⊢
    split_ifs at h ⊢ <;> simp at h ⊢ <;> omega
  · rwa [if_neg hcap]

theorem isCanonical_toLower {value : Str} (h : isCanonicalRfc4122Uuid value = true) :
    isCanonicalRfc4122Uuid (value.map Char.toLower) = true := by
  rw [isCanonicalRfc4122Uuid, Bool.and_eq_true, List.all_eq_true] at h ⊢
  refine ⟨by rw [List.length_map]; exact h.1, fun index hindex => ?_⟩
  have hget : (value.map Char.toLower).getD index ' ' = (value.getD index ' ').toLower := by
    rw [List.getD_eq_getElem?_getD, List.getD_eq_getElem?_getD, List.getElem?_map]
    cases value[index]? <;> rfl
  rw [hget]
  exact uuidByte_toLower (h.2 index hindex)

theorem map_toLower_toLower (value : Str) :
    (value.map Char.toLower).map Char.toLower = value.map Char.toLower := by
  rw [List.map_map]
  exact List.map_congr_left fun c _ => toLower_toLower c

/-- `ConnectionId::try_from`; the letters of the identifier are made small. -/
def connectionIdTryFrom (value : Str) : Except BoundaryValueError ConnectionId := do
  validateBoundaryString ⟨maxIdentifierBytes, "connection identifier", false⟩ value
  if h : isCanonicalRfc4122Uuid value = true then
    .ok ⟨value.map Char.toLower, isCanonical_toLower h, map_toLower_toLower value⟩
  else .error (.malformedUuid "connection identifier")

def readConnectionId : Json F → Except DecodeError ConnectionId
  | .string _ value => (connectionIdTryFrom value).mapError (.custom ∘ boundaryMessage)
  | _ => .error (.invalidType "an RFC 4122 UUID connection identifier")

/-- Items up to the bound; the one after it is not read. -/
def visitItems {α : Type} (excess : String) (read : Json F → Except DecodeError α) :
    ∀ maximum, List (Json F) → Except DecodeError (BoundedList α maximum)
  | _, [] => .ok ⟨[], Nat.zero_le _⟩
  | 0, _ :: _ => .error (.custom excess)
  | maximum + 1, item :: items => do
    let value ← read item
    let rest ← visitItems excess read maximum items
    return ⟨value :: rest.items, Nat.succ_le_succ rest.length_le⟩

def readBoundedList {α : Type} (maximum : ℕ) (label : String)
    (read : Json F → Except DecodeError α) : Json F → Except DecodeError (BoundedList α maximum)
  | .array _ items => visitItems (label ++ " count exceeds " ++ toString maximum) read maximum items
  | _ => .error (.invalidType
      (label ++ " containing at most " ++ toString maximum ++ " items"))

/-- A list of a result. -/
abbrev ReturnedList (α : Type) := BoundedList α maxReturnedNodes

def readReturnedList {α : Type} : (Json F → Except DecodeError α) →
    Json F → Except DecodeError (ReturnedList α) :=
  readBoundedList maxReturnedNodes "returned result collection"

/-- `ErrorItemListVisitor` -/
def readErrorItems {α : Type} (read : Json F → Except DecodeError α) :
    Json F → Except DecodeError (BoundedList α maxInputIds)
  | .array _ items =>
    visitItems ("error item count exceeds " ++ toString maxInputIds) read maxInputIds items
  | _ => .error (.invalidType ("at most " ++ toString maxInputIds ++ " error items"))

/-! ## Errors -/

def errorCodeWords : List (String × ErrorCode) :=
  [("NO_FIGMA_CONNECTION", .noFigmaConnection), ("AMBIGUOUS_CONNECTION", .ambiguousConnection),
    ("CONNECTION_NOT_FOUND", .connectionNotFound), ("CONNECTION_LOST", .connectionLost),
    ("PROTOCOL_MISMATCH", .protocolMismatch), ("NODE_NOT_FOUND", .nodeNotFound),
    ("NODE_NOT_VISIBLE", .nodeNotVisible), ("PAGE_NOT_FOUND", .pageNotFound),
    ("UNSUPPORTED_NODE", .unsupportedNode), ("EMPTY_NODE_BOUNDS", .emptyNodeBounds),
    ("CAPABILITY_UNAVAILABLE", .capabilityUnavailable), ("UNSAFE_SVG", .unsafeSvg),
    ("INVALID_CURSOR", .invalidCursor), ("LIMIT_EXCEEDED", .limitExceeded), ("TIMEOUT", .timeout),
    ("CANCELLED", .cancelled), ("INTERNAL_ERROR", .internalError)]

def canonicalMessage : ErrorCode → String
  | .noFigmaConnection => "No Figma connection is available."
  | .ambiguousConnection => "More than one Figma connection matches the request."
  | .connectionNotFound => "The requested Figma connection was not found."
  | .connectionLost => "The Figma connection was lost."
  | .protocolMismatch => "The plugin protocol version is not supported."
  | .nodeNotFound => "The requested node was not found."
  | .nodeNotVisible => "The requested node exists but is switched off, so it renders nothing."
  | .pageNotFound => "The requested page was not found."
  | .unsupportedNode => "The requested node type is not supported."
  | .emptyNodeBounds => "The requested node renders nothing."
  | .capabilityUnavailable => "The required Figma capability is unavailable."
  | .unsafeSvg => "The SVG was rejected by the safety policy."
  | .invalidCursor => "The search cursor is invalid or stale."
  | .limitExceeded => "The operation exceeded a safety limit."
  | .timeout => "The operation timed out."
  | .cancelled => "The operation was cancelled."
  | .internalError => "The operation failed."

def messageMismatch : DecodeError := .custom "error message does not match its stable code"

/-- The failure of one item, under an identifier within its bound. -/
structure ItemError where
  index : Fin (2 ^ 64)
  id : Option ItemIdentifier
  code : ErrorCode
  retryable : Bool

/-- An error of a tool, whose message is that of its code. -/
structure ToolError where
  code : ErrorCode
  retryable : Bool
  items : Option (BoundedList ItemError maxInputIds)

/-- The members of `RawItemError`. -/
inductive ItemErrorField
  | index | id | code | message | retryable
deriving DecidableEq

namespace ItemErrorField

def name : ItemErrorField → String
  | index => "index"
  | id => "id"
  | code => "code"
  | message => "message"
  | retryable => "retryable"

abbrev Val : ItemErrorField → Type
  | index => Fin (2 ^ 64)
  | id => Option ItemIdentifier
  | code => ErrorCode
  | message => DisplayText
  | retryable => Bool

def read : ∀ f : ItemErrorField, Json F → Except DecodeError f.Val
  | index => Json.readUnsigned 64
  | id => Json.readOption (readBounded _)
  | code => Json.readWord errorCodeWords
  | message => readBounded _
  | retryable => Json.readBool

def spec : Spec F ItemErrorField :=
  .ofNodup [index, id, code, message, retryable] name Val read true
    (by intro f; cases f <;> decide) (by decide)

end ItemErrorField

namespace ItemError

def build (s : (ItemErrorField.spec (F := F)).Slots) : Except DecodeError ItemError := do
  let index ← Spec.require s .index
  let code ← Spec.require s .code
  let message ← Spec.require s .message
  let retryable ← Spec.require s .retryable
  if message.value ≠ (canonicalMessage code).toList then .error messageMismatch
  else .ok ⟨index, (s .id).getD none, code, retryable⟩

def read : Json F → Except DecodeError ItemError :=
  ItemErrorField.spec.readStruct "struct RawItemError" (· = .id) build

end ItemError

/-- The members of `RawToolError`. -/
inductive ToolErrorField
  | code | message | retryable | items
deriving DecidableEq

namespace ToolErrorField

def name : ToolErrorField → String
  | code => "code"
  | message => "message"
  | retryable => "retryable"
  | items => "items"

abbrev Val : ToolErrorField → Type
  | code => ErrorCode
  | message => DisplayText
  | retryable => Bool
  | items => Option (BoundedList ItemError maxInputIds)

def read : ∀ f : ToolErrorField, Json F → Except DecodeError f.Val
  | code => Json.readWord errorCodeWords
  | message => readBounded _
  | retryable => Json.readBool
  | items => Json.readOption (readErrorItems ItemError.read)

def spec : Spec F ToolErrorField :=
  .ofNodup [code, message, retryable, items] name Val read true
    (by intro f; cases f <;> decide) (by decide)

end ToolErrorField

namespace ToolError

def build (s : (ToolErrorField.spec (F := F)).Slots) : Except DecodeError ToolError := do
  let code ← Spec.require s .code
  let message ← Spec.require s .message
  let retryable ← Spec.require s .retryable
  if message.value ≠ (canonicalMessage code).toList then .error messageMismatch
  else .ok ⟨code, retryable, (s .items).getD none⟩

def read : Json F → Except DecodeError ToolError :=
  ToolErrorField.spec.readStruct "struct RawToolError" (· = .items) build

end ToolError

/-- The failure of one item as the plugin tells of it: without a message. -/
structure PluginItemFailure where
  index : Fin (2 ^ 64)
  id : Option ItemIdentifier
  code : ErrorCode
  retryable : Bool

/-- Why a read has failed. -/
structure PluginFailure where
  code : ErrorCode
  retryable : Bool
  items : Option (BoundedList PluginItemFailure maxInputIds)

/-- The members of the error of an item. -/
inductive PluginItemFailureField
  | index | id | code | retryable
deriving DecidableEq

namespace PluginItemFailureField

def name : PluginItemFailureField → String
  | index => "index"
  | id => "id"
  | code => "code"
  | retryable => "retryable"

abbrev Val : PluginItemFailureField → Type
  | index => Fin (2 ^ 64)
  | id => Option ItemIdentifier
  | code => ErrorCode
  | retryable => Bool

def read : ∀ f : PluginItemFailureField, Json F → Except DecodeError f.Val
  | index => Json.readUnsigned 64
  | id => Json.readOption (readBounded _)
  | code => Json.readWord errorCodeWords
  | retryable => Json.readBool

def spec : Spec F PluginItemFailureField :=
  .ofNodup [index, id, code, retryable] name Val read true
    (by intro f; cases f <;> decide) (by decide)

end PluginItemFailureField

namespace PluginItemFailure

def build (s : (PluginItemFailureField.spec (F := F)).Slots) :
    Except DecodeError PluginItemFailure := do
  let index ← Spec.require s .index
  let code ← Spec.require s .code
  let retryable ← Spec.require s .retryable
  return ⟨index, (s .id).getD none, code, retryable⟩

def read : Json F → Except DecodeError PluginItemFailure :=
  PluginItemFailureField.spec.readStruct "struct PluginItemFailure" (· = .id) build

end PluginItemFailure

/-- The members of `RawPluginFailure`. -/
inductive PluginFailureField
  | code | retryable | items
deriving DecidableEq

namespace PluginFailureField

def name : PluginFailureField → String
  | code => "code"
  | retryable => "retryable"
  | items => "items"

abbrev Val : PluginFailureField → Type
  | code => ErrorCode
  | retryable => Bool
  | items => Option (BoundedList PluginItemFailure maxInputIds)

def read : ∀ f : PluginFailureField, Json F → Except DecodeError f.Val
  | code => Json.readWord errorCodeWords
  | retryable => Json.readBool
  | items => Json.readOption (readErrorItems PluginItemFailure.read)

def spec : Spec F PluginFailureField :=
  .ofNodup [code, retryable, items] name Val read true (by intro f; cases f <;> decide) (by decide)

end PluginFailureField

namespace PluginFailure

def build (s : (PluginFailureField.spec (F := F)).Slots) : Except DecodeError PluginFailure := do
  let code ← Spec.require s .code
  let retryable ← Spec.require s .retryable
  return ⟨code, retryable, (s .items).getD none⟩

def read : Json F → Except DecodeError PluginFailure :=
  PluginFailureField.spec.readStruct "struct RawPluginFailure" (· = .items) build

end PluginFailure

end FigmaDevMcp.Protocol

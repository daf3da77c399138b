import FigmaDevMcp.Protocol.RoundTrips

set_option autoImplicit false

/-!
# The result of a read of fonts

`GetFontsResult` of `handoff.rs` as a payload. The names of a font have no bound, so that a result
may be longer than a message.

* `GetFontsResult.read_encode`: the round trip of the result;
* `messages_round_trip_fonts`, `fonts_not_read_back`: a message that is read back, and one that is
  not.
-/

namespace FigmaDevMcp.Protocol.Handoff

open Serde Tools

variable {F : Type}

/-- A font. -/
structure FontName where
  family : Str
  style : Str

/-- The members of a font. -/
inductive FontNameField
  | family | style
deriving DecidableEq

namespace FontNameField

def name : FontNameField → String
  | family => "family"
  | style => "style"

abbrev Val : FontNameField → Type
  | family => Str
  | style => Str

def read : ∀ f : FontNameField, Json F → Except DecodeError f.Val
  | family => Json.readString
  | style => Json.readString

def spec : Spec F FontNameField :=
  .ofNodup [family, style] name Val read true (by intro f; cases f <;> decide) (by decide)

end FontNameField

namespace FontName

def build (s : (FontNameField.spec (F := F)).Slots) : Except DecodeError FontName := do
  let family ← Spec.require s .family
  let style ← Spec.require s .style
  return ⟨family, style⟩

def read : Json F → Except DecodeError FontName :=
  FontNameField.spec.readStruct "struct FontName" (fun _ => false) build

def slots (f : FontName) : (FontNameField.spec (F := F)).Slots
  | .family => some f.family
  | .style => some f.style

def write : ∀ f : FontNameField, f.Val → Json F
  | .family => Json.writeString
  | .style => Json.writeString

def encode (f : FontName) : Json F := FontNameField.spec.encode write f.slots

theorem read_encode (f : FontName) : read (encode f : Json F) = .ok f := by
  refine Spec.read_encode (fun _ _ => rfl) (fun f v _ => ?_) rfl
  cases f <;> rfl

end FontName

/-- Whether a font is installed. -/
inductive FontAvailability
  | available | unavailable | unknown
deriving DecidableEq

def fontAvailabilityWords : List (String × FontAvailability) :=
  [("available", .available), ("unavailable", .unavailable), ("unknown", .unknown)]

def FontAvailability.word : FontAvailability → String
  | available => "available"
  | unavailable => "unavailable"
  | unknown => "unknown"

theorem FontAvailability.readWord_word (a : FontAvailability) :
    Json.readWord fontAvailabilityWords (Json.writeWord a.word : Json F) = .ok a := by
  cases a <;> rfl

/-- The nodes that use a font. -/
abbrev NodeIdList := BoundedList NodeId maxInputIds

/-- A font with the nodes that use it. -/
structure FontUsage where
  font : FontName
  availability : FontAvailability
  nodeIds : NodeIdList

/-- The members of a usage. -/
inductive FontUsageField
  | font | availability | nodeIds
deriving DecidableEq

namespace FontUsageField

def name : FontUsageField → String
  | font => "font"
  | availability => "availability"
  | nodeIds => "nodeIds"

abbrev Val : FontUsageField → Type
  | font => FontName
  | availability => FontAvailability
  | nodeIds => NodeIdList

def read : ∀ f : FontUsageField, Json F → Except DecodeError f.Val
  | font => FontName.read
  | availability => Json.readWord fontAvailabilityWords
  | nodeIds => readBoundedList maxInputIds "node identifiers" (readBounded _)

def spec : Spec F FontUsageField :=
  .ofNodup [font, availability, nodeIds] name Val read true
    (by intro f; cases f <;> decide) (by decide)

end FontUsageField

namespace FontUsage

def build (s : (FontUsageField.spec (F := F)).Slots) : Except DecodeError FontUsage := do
  let font ← Spec.require s .font
  let availability ← Spec.require s .availability
  let nodeIds ← Spec.require s .nodeIds
  return ⟨font, availability, nodeIds⟩

def read : Json F → Except DecodeError FontUsage :=
  FontUsageField.spec.readStruct "struct FontUsage" (fun _ => false) build

def slots (u : FontUsage) : (FontUsageField.spec (F := F)).Slots
  | .font => some u.font
  | .availability => some u.availability
  | .nodeIds => some u.nodeIds

def write : ∀ f : FontUsageField, f.Val → Json F
  | .font => FontName.encode
  | .availability => fun a => Json.writeWord a.word
  | .nodeIds => writeBoundedList writeBounded

def encode (u : FontUsage) : Json F := FontUsageField.spec.encode write u.slots

theorem read_encode (u : FontUsage) : read (encode u : Json F) = .ok u := by
  refine Spec.read_encode (fun _ _ => rfl) (fun f v _ => ?_) rfl
  cases f with
  | font => exact FontName.read_encode (F := F) v
  | availability => exact FontAvailability.readWord_word (F := F) v
  | nodeIds => exact visitItems_map v.length_le fun id _ => readBounded_writeBounded id

end FontUsage

/-- Why a result is cut. -/
inductive TruncationReason
  | depthLimit | nodeLimit | byteLimit
deriving DecidableEq

def truncationReasonWords : List (String × TruncationReason) :=
  [("depthLimit", .depthLimit), ("nodeLimit", .nodeLimit), ("byteLimit", .byteLimit)]

def TruncationReason.word : TruncationReason → String
  | depthLimit => "depthLimit"
  | nodeLimit => "nodeLimit"
  | byteLimit => "byteLimit"

theorem TruncationReason.readWord_word (r : TruncationReason) :
    Json.readWord truncationReasonWords (Json.writeWord r.word : Json F) = .ok r := by
  cases r <;> rfl

/-- Where a result is cut. -/
structure Truncation where
  reason : TruncationReason
  appliedDepth : Option (Fin (2 ^ 8))
  visitedNodes : Option (Fin (2 ^ 64))
  encodedBytes : Option (Fin (2 ^ 64))

/-- The members of a cut. -/
inductive TruncationField
  | reason | appliedDepth | visitedNodes | encodedBytes
deriving DecidableEq

namespace TruncationField

def name : TruncationField → String
  | reason => "reason"
  | appliedDepth => "appliedDepth"
  | visitedNodes => "visitedNodes"
  | encodedBytes => "encodedBytes"

abbrev Val : TruncationField → Type
  | reason => TruncationReason
  | appliedDepth => Option (Fin (2 ^ 8))
  | visitedNodes => Option (Fin (2 ^ 64))
  | encodedBytes => Option (Fin (2 ^ 64))

def read : ∀ f : TruncationField, Json F → Except DecodeError f.Val
  | reason => Json.readWord truncationReasonWords
  | appliedDepth => Json.readOption (Json.readUnsigned 8)
  | visitedNodes => Json.readOption (Json.readUnsigned 64)
  | encodedBytes => Json.readOption (Json.readUnsigned 64)

def spec : Spec F TruncationField :=
  .ofNodup [reason, appliedDepth, visitedNodes, encodedBytes] name Val read true
    (by intro f; cases f <;> decide) (by decide)

end TruncationField

namespace Truncation

def build (s : (TruncationField.spec (F := F)).Slots) : Except DecodeError Truncation := do
  let reason ← Spec.require s .reason
  return ⟨reason, (s .appliedDepth).getD none, (s .visitedNodes).getD none,
    (s .encodedBytes).getD none⟩

def read : Json F → Except DecodeError Truncation :=
  TruncationField.spec.readStruct "struct Truncation" (fun _ => false) build

def slots (t : Truncation) : (TruncationField.spec (F := F)).Slots
  | .reason => some t.reason
  | .appliedDepth => t.appliedDepth.map some
  | .visitedNodes => t.visitedNodes.map some
  | .encodedBytes => t.encodedBytes.map some

def write : ∀ f : TruncationField, f.Val → Json F
  | .reason => fun r => Json.writeWord r.word
  | .appliedDepth => Json.writeOption Json.writeUnsigned
  | .visitedNodes => Json.writeOption Json.writeUnsigned
  | .encodedBytes => Json.writeOption Json.writeUnsigned

def encode (t : Truncation) : Json F := TruncationField.spec.encode write t.slots

theorem read_encode (t : Truncation) : read (encode t : Json F) = .ok t := by
  refine Spec.read_encode (fun _ _ => rfl) (fun f v hv => ?_) ?_
  · have hnumber : ∀ {bits : ℕ} (n : Fin (2 ^ bits)), (Json.writeUnsigned n : Json F) ≠ .null :=
      fun _ => nofun
    cases f with
    | reason => exact TruncationReason.readWord_word (F := F) v
    | appliedDepth => exact Json.readOption_writeOption Json.readUnsigned_writeUnsigned hnumber hv
    | visitedNodes => exact Json.readOption_writeOption Json.readUnsigned_writeUnsigned hnumber hv
    | encodedBytes => exact Json.readOption_writeOption Json.readUnsigned_writeUnsigned hnumber hv
  · cases t with
    | mk _ depth visited bytes => cases depth <;> cases visited <;> cases bytes <;> rfl

end Truncation

/-- The times of a read. -/
structure ObservationWindow where
  startedAt : DisplayText
  completedAt : DisplayText

/-- The members of the times. -/
inductive ObservationWindowField
  | startedAt | completedAt
deriving DecidableEq

namespace ObservationWindowField

def name : ObservationWindowField → String
  | startedAt => "startedAt"
  | completedAt => "completedAt"

abbrev Val : ObservationWindowField → Type
  | startedAt => DisplayText
  | completedAt => DisplayText

def read : ∀ f : ObservationWindowField, Json F → Except DecodeError f.Val
  | startedAt => readBounded _
  | completedAt => readBounded _

def spec : Spec F ObservationWindowField :=
  .ofNodup [startedAt, completedAt] name Val read true (by intro f; cases f <;> decide) (by decide)

end ObservationWindowField

namespace ObservationWindow

def build (s : (ObservationWindowField.spec (F := F)).Slots) :
    Except DecodeError ObservationWindow := do
  let startedAt ← Spec.require s .startedAt
  let completedAt ← Spec.require s .completedAt
  return ⟨startedAt, completedAt⟩

def read : Json F → Except DecodeError ObservationWindow :=
  ObservationWindowField.spec.readStruct "struct ObservationWindow" (fun _ => false) build

def slots (w : ObservationWindow) : (ObservationWindowField.spec (F := F)).Slots
  | .startedAt => some w.startedAt
  | .completedAt => some w.completedAt

def write : ∀ f : ObservationWindowField, f.Val → Json F
  | .startedAt => writeBounded
  | .completedAt => writeBounded

def encode (w : ObservationWindow) : Json F := ObservationWindowField.spec.encode write w.slots

theorem read_encode (w : ObservationWindow) : read (encode w : Json F) = .ok w := by
  refine Spec.read_encode (fun _ _ => rfl) (fun f v _ => ?_) rfl
  cases f with
  | startedAt => exact readBounded_writeBounded (F := F) v
  | completedAt => exact readBounded_writeBounded (F := F) v

end ObservationWindow

/-- The result of `get_fonts`. -/
structure GetFontsResult where
  fonts : ReturnedList FontUsage
  truncated : Bool
  truncation : Option Truncation
  observation : ObservationWindow

/-- The members of the result. -/
inductive GetFontsResultField
  | fonts | truncated | truncation | observation
deriving DecidableEq

namespace GetFontsResultField

def name : GetFontsResultField → String
  | fonts => "fonts"
  | truncated => "truncated"
  | truncation => "truncation"
  | observation => "observation"

abbrev Val : GetFontsResultField → Type
  | fonts => ReturnedList FontUsage
  | truncated => Bool
  | truncation => Option Truncation
  | observation => ObservationWindow

def read : ∀ f : GetFontsResultField, Json F → Except DecodeError f.Val
  | fonts => readReturnedList FontUsage.read
  | truncated => Json.readBool
  | truncation => Json.readOption Truncation.read
  | observation => ObservationWindow.read

def spec : Spec F GetFontsResultField :=
  .ofNodup [fonts, truncated, truncation, observation] name Val read true
    (by intro f; cases f <;> decide) (by decide)

end GetFontsResultField

namespace GetFontsResult

def build (s : (GetFontsResultField.spec (F := F)).Slots) : Except DecodeError GetFontsResult := do
  let fonts ← Spec.require s .fonts
  let truncated ← Spec.require s .truncated
  let observation ← Spec.require s .observation
  return ⟨fonts, truncated, (s .truncation).getD none, observation⟩

def read : Json F → Except DecodeError GetFontsResult :=
  GetFontsResultField.spec.readStruct "struct GetFontsResult" (· = .truncation) build

def slots (r : GetFontsResult) : (GetFontsResultField.spec (F := F)).Slots
  | .fonts => some r.fonts
  | .truncated => some r.truncated
  | .truncation => r.truncation.map some
  | .observation => some r.observation

def write : ∀ f : GetFontsResultField, f.Val → Json F
  | .fonts => writeBoundedList FontUsage.encode
  | .truncated => Json.writeBool
  | .truncation => Json.writeOption Truncation.encode
  | .observation => ObservationWindow.encode

def encode (r : GetFontsResult) : Json F := GetFontsResultField.spec.encode write r.slots

/-- A result is read back, however long it is. -/
theorem read_encode (r : GetFontsResult) : read (encode r : Json F) = .ok r := by
  refine Spec.read_encode (fun _ _ => rfl) (fun f v hv => ?_) ?_
  · cases f with
    | fonts => exact readReturnedList_write fun usage _ => FontUsage.read_encode usage
    | truncated => rfl
    | truncation => exact Json.readOption_writeOption Truncation.read_encode (fun _ => nofun) hv
    | observation => exact ObservationWindow.read_encode (F := F) v
  · cases r with
    | mk _ _ truncation => cases truncation <;> rfl

end GetFontsResult

/-! ## A message that carries one -/

/-- The payloads, of which only this result is taken. -/
def fontPayloads (F : Type) : Payloads F where
  Input _ := Empty
  readInput _ _ := .error (.custom "input")
  Result
    | .getFonts => GetFontsResult
    | _ => Empty
  readResult
    | .getFonts => GetFontsResult.read
    | _ => fun _ => .error (.custom "result")
  ListFilesResult := Empty
  readListFiles _ := .error (.custom "files")

def fontWriters : Writers (fontPayloads F) where
  writeInput _ := nofun
  writeResult
    | .getFonts, result => GetFontsResult.encode result
  writeListFiles := nofun

theorem roundTrip_fontWriters : (fontWriters (F := F)).RoundTrip where
  input _ v := nomatch v
  result tag v := by
    cases tag with
    | getFonts => exact GetFontsResult.read_encode v
    | _ => exact nomatch v
  listFiles v := nomatch v

/-- One font of that family, which no node has. -/
def fontsOf (family : Str) : GetFontsResult :=
  { fonts := ⟨[⟨⟨family, []⟩, .available, ⟨[], Nat.zero_le _⟩⟩], Nat.succ_pos _⟩
    truncated := false
    truncation := none
    observation := ⟨⟨[], rfl⟩, ⟨[], rfl⟩⟩ }

def fontsResponse (family : Str) : Response (fontPayloads F) :=
  ⟨⟨['1'], rfl⟩, ⟨.getFonts, fontsOf family⟩⟩

/-- The name of a font is part of the text of the message. -/
theorem length_lt_fontsResponse (family : Str) :
    family.length < ((fontsResponse family).encode (fontWriters (F := F))).len := by
  have hname : family.length < (Json.writeString family : Json F).len := Json.length_lt_writeString family
  have hfont := Spec.len_le_encode FontNameField.spec (FontName.write (F := F))
    (FontName.slots ⟨family, []⟩) (f := .family) rfl
  have husage := Spec.len_le_encode FontUsageField.spec (FontUsage.write (F := F))
    (FontUsage.slots ⟨⟨family, []⟩, .available, ⟨[], Nat.zero_le _⟩⟩) (f := .font) rfl
  have hlist : (FontUsage.encode ⟨⟨family, []⟩, .available, ⟨[], Nat.zero_le _⟩⟩ : Json F).len ≤
      (writeBoundedList FontUsage.encode (fontsOf family).fonts).len :=
    Json.len_le_of_mem_items List.mem_cons_self
  have hresult := Spec.len_le_encode GetFontsResultField.spec (GetFontsResult.write (F := F))
    (GetFontsResult.slots (fontsOf family)) (f := .fonts) rfl
  have hraw : (ReadResult.raw fontWriters (fontsResponse (F := F) family).result).len ≤ _ :=
    ReadResult.len_raw_le
  have hresponse := Spec.len_le_encode (ResponseField.spec (fontPayloads F))
    (Response.write fontWriters) (Response.slots (fontsResponse family)) (f := .result) rfl
  calc family.length
      < (Json.writeString family : Json F).len := hname
    _ ≤ (FontName.encode ⟨family, []⟩ : Json F).len := hfont
    _ ≤ (FontUsage.encode ⟨⟨family, []⟩, .available, ⟨[], Nat.zero_le _⟩⟩ : Json F).len := husage
    _ ≤ (writeBoundedList FontUsage.encode (fontsOf family).fonts : Json F).len := hlist
    _ ≤ (GetFontsResult.encode (fontsOf family) : Json F).len := hresult
    _ ≤ (ReadResult.encode fontWriters (fontsResponse (F := F) family).result).len := hraw
    _ ≤ ((fontsResponse family).encode (fontWriters (F := F))).len := hresponse

/-- The fonts of a file are read back. -/
theorem messages_round_trip_fonts :
    PluginToBroker.read ((PluginToBroker.response (fontsResponse ['I', 'n', 't', 'e', 'r'])).encode
      (fontWriters (F := Unit))) = .ok (.response (fontsResponse ['I', 'n', 't', 'e', 'r'])) :=
  ((messages_round_trip roundTrip_fontWriters).1 _).2
    (List.forall_mem_singleton.2 (by decide +kernel))

/-- A family with a name as long as a message may be: the result is not read back. -/
theorem fonts_not_read_back :
    PluginToBroker.read ((PluginToBroker.response
      (fontsResponse (List.replicate maxEnvelopeBytes 'A'))).encode (fontWriters (F := Unit))) ≠
    .ok (.response (fontsResponse (List.replicate maxEnvelopeBytes 'A'))) := by
  intro h
  have hfits := (PluginToBroker.read_encode_iff roundTrip_fontWriters _).1 h _ List.mem_cons_self
  have hlong := length_lt_fontsResponse (F := Unit) (List.replicate maxEnvelopeBytes 'A')
  rw [List.length_replicate] at hlong
  exact Nat.not_lt.2 hfits hlong

end FigmaDevMcp.Protocol.Handoff

import FigmaDevMcp.Protocol.Texts

set_option autoImplicit false

/-!
# Closed unions

The other unions of `common.rs`, and what holds of all seven.

* `ComponentPropertyValue`, `VariableValue`: a kind, and a value that is put aside until the kind
  says how to read it;
* `StyleValue`: members that all variants have, some of which may be missing;
* `ItemResult`: the value of an item or its error, for any type of values;
* **`closedUnions`**: each is read back from what is written of it, and takes no member too many
  and no member too few.
-/

namespace FigmaDevMcp.Protocol

open Serde Tools

variable {D : Doubles}

/-- A value that was put aside is read as it stands there, where it is not too long. -/
theorem decodeRaw_map {α β : Type} {read : Json D.F → Except DecodeError α} {make : α → β}
    {json : Json D.F} {v : α} (hfits : json.len ≤ maxEnvelopeBytes) (h : read json = .ok v) :
    (decodeRaw read json).map make = .ok (make v) := by
  rw [decodeRaw, if_neg (Nat.not_lt.2 hfits), h]
  rfl

/-! ## Kinds and values -/

/-- The members of a union whose kind stands beside its value. -/
inductive AdjacentValueField
  | kind | value
deriving DecidableEq

namespace AdjacentValueField

def name : AdjacentValueField → String
  | kind => "kind"
  | value => "value"

abbrev Val (F Tag : Type) : AdjacentValueField → Type
  | kind => Tag
  | value => Json F

def read {F Tag : Type} (words : List (String × Tag)) :
    ∀ f : AdjacentValueField, Json F → Except DecodeError (f.Val F Tag)
  | kind => Json.readWord words
  | value => .ok

def spec {F Tag : Type} (words : List (String × Tag)) : Spec F AdjacentValueField :=
  .ofNodup [kind, value] name (Val F Tag) (read words) false (by intro f; cases f <;> decide)
    (by decide)

def slots {F Tag : Type} (words : List (String × Tag)) (tag : Tag) (payload : Json F) :
    (spec words : Spec F AdjacentValueField).Slots
  | .kind => some tag
  | .value => some payload

def write {F Tag : Type} (word : Tag → String) : ∀ f : AdjacentValueField, f.Val F Tag → Json F
  | .kind => fun tag => Json.writeWord (word tag)
  | .value => id

/-- Both members are there whenever a value has been made of them. -/
theorem shaped {F Tag : Type} {words : List (String × Tag)}
    {s : (spec words : Spec F AdjacentValueField).Slots} {tag : Tag} {payload : Json F}
    (htag : s .kind = some tag) (hvalue : s .value = some payload) :
    Spec.Shaped (spec words) .kind (fun _ => [.value]) (fun _ => []) tag s := by
  refine .of_contains htag fun f => ?_
  cases f with
  | kind => rw [htag]; rfl
  | value => rw [hvalue]; rfl

end AdjacentValueField

/-- The value of a property of a component. -/
inductive ComponentPropertyValue
  | text (value : Str)
  | boolean (value : Bool)
  | instanceSwap (value : Str)
  | variant (value : Str)

/-- The kinds of properties. -/
inductive ComponentPropertyTag
  | text | boolean | instanceSwap | variant
deriving DecidableEq

namespace ComponentPropertyTag

def word : ComponentPropertyTag → String
  | text => "text"
  | boolean => "boolean"
  | instanceSwap => "instanceSwap"
  | variant => "variant"

def words : List (String × ComponentPropertyTag) :=
  [("text", text), ("boolean", boolean), ("instanceSwap", instanceSwap), ("variant", variant)]

theorem readWord_word {F : Type} (v : ComponentPropertyTag) :
    Json.readWord words (Json.writeWord v.word : Json F) = .ok v :=
  Json.readWord_writeWord (by decide) (by cases v <;> decide)

end ComponentPropertyTag

namespace ComponentPropertyValue

def build (s : (AdjacentValueField.spec (F := D.F) ComponentPropertyTag.words).Slots) :
    Except DecodeError ComponentPropertyValue := do
  let value ← Spec.require s .value
  match ← Spec.require s .kind with
  | .text => (decodeRaw Json.readString value).map .text
  | .boolean => (decodeRaw Json.readBool value).map .boolean
  | .instanceSwap => (decodeRaw Json.readString value).map .instanceSwap
  | .variant => (decodeRaw Json.readString value).map .variant

def read : Json D.F → Except DecodeError ComponentPropertyValue :=
  Json.visitMap "a closed component property value" fun members =>
    (AdjacentValueField.spec ComponentPropertyTag.words).visitMap members >>= build

def kind : ComponentPropertyValue → ComponentPropertyTag
  | text _ => .text
  | boolean _ => .boolean
  | instanceSwap _ => .instanceSwap
  | variant _ => .variant

/-- The text of the value. -/
def payload {F : Type} : ComponentPropertyValue → Json F
  | text value | instanceSwap value | variant value => Json.writeString value
  | boolean value => Json.writeBool value

def encode {F : Type} (v : ComponentPropertyValue) : Json F :=
  (AdjacentValueField.spec ComponentPropertyTag.words).encode
    (AdjacentValueField.write ComponentPropertyTag.word) (AdjacentValueField.slots _ v.kind v.payload)

theorem read_encode {v : ComponentPropertyValue}
    (h : (v.payload : Json D.F).len ≤ maxEnvelopeBytes) :
    read (v.encode : Json D.F) = .ok v := by
  refine Spec.read_encode (fun _ _ => rfl) ?_ ?_
  · intro f w hw
    cases f with
    | kind => exact ComponentPropertyTag.readWord_word (F := D.F) w
    | value => rfl
  · cases v with
    | text value => exact decodeRaw_map h (Json.readString_writeString value)
    | boolean value => exact decodeRaw_map h rfl
    | instanceSwap value => exact decodeRaw_map h (Json.readString_writeString value)
    | variant value => exact decodeRaw_map h (Json.readString_writeString value)

theorem kind_of_build {s : (AdjacentValueField.spec (F := D.F) ComponentPropertyTag.words).Slots}
    {v : ComponentPropertyValue} (h : build s = .ok v) :
    s .kind = some v.kind ∧ ∃ payload, s .value = some payload := by
  obtain ⟨payload, hvalue, h⟩ := Guard.bind_eq_ok.1 h
  obtain ⟨tag, htag, h⟩ := Guard.bind_eq_ok.1 h
  rw [Spec.require_eq_ok] at hvalue htag
  refine ⟨?_, payload, hvalue⟩
  rw [htag]
  cases tag with
  | text | instanceSwap | variant =>
      cases hread : decodeRaw Json.readString payload <;> rw [hread] at h <;> cases h
      rfl
  | boolean =>
      cases hread : decodeRaw Json.readBool payload <;> rw [hread] at h <;> cases h
      rfl

theorem closed :
    (AdjacentValueField.spec ComponentPropertyTag.words).Closed .kind (fun _ => [.value])
      (fun _ => []) kind (read (D := D)) := by
  refine Spec.closed (fun _ _ => rfl) fun s v h => ?_
  obtain ⟨htag, payload, hvalue⟩ := kind_of_build h
  exact AdjacentValueField.shaped htag hvalue

end ComponentPropertyValue

/-- The value of a variable. -/
inductive VariableValue (D : Doubles)
  | boolean (value : Bool)
  | float (value : D.F)
  | string (value : Str)
  | color (value : Color D)
  | alias_ (value : Str)

/-- The kinds of values. -/
inductive VariableValueTag
  | boolean | float | string | color | alias_
deriving DecidableEq

namespace VariableValueTag

def word : VariableValueTag → String
  | boolean => "boolean"
  | float => "float"
  | string => "string"
  | color => "color"
  | alias_ => "alias"

def words : List (String × VariableValueTag) :=
  [("boolean", boolean), ("float", float), ("string", string), ("color", color), ("alias", alias_)]

theorem readWord_word {F : Type} (v : VariableValueTag) :
    Json.readWord words (Json.writeWord v.word : Json F) = .ok v :=
  Json.readWord_writeWord (by decide) (by cases v <;> decide)

end VariableValueTag

namespace VariableValue

def build (s : (AdjacentValueField.spec (F := D.F) VariableValueTag.words).Slots) :
    Except DecodeError (VariableValue D) := do
  let value ← Spec.require s .value
  match ← Spec.require s .kind with
  | .boolean => (decodeRaw Json.readBool value).map .boolean
  | .float => (decodeRaw D.read value).map .float
  | .string => (decodeRaw Json.readString value).map .string
  | .color => (decodeRaw Color.read value).map .color
  | .alias_ => (decodeRaw Json.readString value).map .alias_

def read : Json D.F → Except DecodeError (VariableValue D) :=
  Json.visitMap "a closed variable value" fun members =>
    (AdjacentValueField.spec VariableValueTag.words).visitMap members >>= build

def kind : VariableValue D → VariableValueTag
  | boolean _ => .boolean
  | float _ => .float
  | string _ => .string
  | color _ => .color
  | alias_ _ => .alias_

def payload : VariableValue D → Json D.F
  | boolean value => Json.writeBool value
  | float value => D.write value
  | string value | alias_ value => Json.writeString value
  | color value => value.encode

def numbers : VariableValue D → List D.F
  | float value => [value]
  | color value => value.numbers
  | _ => []

def encode (v : VariableValue D) : Json D.F :=
  (AdjacentValueField.spec VariableValueTag.words).encode
    (AdjacentValueField.write VariableValueTag.word) (AdjacentValueField.slots _ v.kind v.payload)

theorem read_encode {v : VariableValue D} (hfits : v.payload.len ≤ maxEnvelopeBytes)
    (h : ∀ x ∈ v.numbers, D.Exact x) : read v.encode = .ok v := by
  refine Spec.read_encode (fun _ _ => rfl) ?_ ?_
  · intro f w hw
    cases f with
    | kind => exact VariableValueTag.readWord_word (F := D.F) w
    | value => rfl
  · cases v with
    | boolean value => exact decodeRaw_map hfits rfl
    | float value => exact decodeRaw_map hfits (Doubles.read_write (h value List.mem_cons_self))
    | string value => exact decodeRaw_map hfits (Json.readString_writeString value)
    | color value => exact decodeRaw_map hfits (Color.read_encode h)
    | alias_ value => exact decodeRaw_map hfits (Json.readString_writeString value)

theorem kind_of_build {s : (AdjacentValueField.spec (F := D.F) VariableValueTag.words).Slots}
    {v : VariableValue D} (h : build s = .ok v) :
    s .kind = some v.kind ∧ ∃ payload, s .value = some payload := by
  obtain ⟨payload, hvalue, h⟩ := Guard.bind_eq_ok.1 h
  obtain ⟨tag, htag, h⟩ := Guard.bind_eq_ok.1 h
  rw [Spec.require_eq_ok] at hvalue htag
  refine ⟨?_, payload, hvalue⟩
  rw [htag]
  cases tag with
  | boolean =>
      cases hread : decodeRaw Json.readBool payload <;> rw [hread] at h <;> cases h
      rfl
  | float =>
      cases hread : decodeRaw D.read payload <;> rw [hread] at h <;> cases h
      rfl
  | string | alias_ =>
      cases hread : decodeRaw Json.readString payload <;> rw [hread] at h <;> cases h
      rfl
  | color =>
      cases hread : decodeRaw Color.read payload <;> rw [hread] at h <;> cases h
      rfl

theorem closed :
    (AdjacentValueField.spec VariableValueTag.words).Closed .kind (fun _ => [.value])
      (fun _ => []) kind (read (D := D)) := by
  refine Spec.closed (fun _ _ => rfl) fun s v h => ?_
  obtain ⟨htag, payload, hvalue⟩ := kind_of_build h
  exact AdjacentValueField.shaped htag hvalue

end VariableValue

/-! ## Styles -/

/-- What all styles have. -/
structure StyleHead where
  id : Str
  name : Str
  description : Option Str
  remote : Option Bool
  key : Option Str

/-- A style. -/
inductive StyleValue (D : Doubles)
  | paint (head : StyleHead) (paints : ReturnedList (PaintValue D))
  | text (head : StyleHead) (text : TextValue D)
  | effect (head : StyleHead) (effects : ReturnedList (EffectValue D))
  | grid (head : StyleHead) (pattern : Str) (size : D.F)

/-- The types of styles. -/
inductive StyleValueTag
  | paint | text | effect | grid
deriving DecidableEq

namespace StyleValueTag

def word : StyleValueTag → String
  | paint => "paint"
  | text => "text"
  | effect => "effect"
  | grid => "grid"

def words : List (String × StyleValueTag) :=
  [("paint", paint), ("text", text), ("effect", effect), ("grid", grid)]

theorem readWord_word {F : Type} (v : StyleValueTag) :
    Json.readWord words (Json.writeWord v.word : Json F) = .ok v :=
  Json.readWord_writeWord (by decide) (by cases v <;> decide)

end StyleValueTag

/-- The members of a style, whatever its type. -/
inductive StyleValueField
  | styleType | id | name | description | remote | key | paints | text | effects | pattern | size
deriving DecidableEq

namespace StyleValueField

def fieldName : StyleValueField → String
  | styleType => "styleType"
  | id => "id"
  | name => "name"
  | description => "description"
  | remote => "remote"
  | key => "key"
  | paints => "paints"
  | text => "text"
  | effects => "effects"
  | pattern => "pattern"
  | size => "size"

abbrev Val (D : Doubles) : StyleValueField → Type
  | styleType => StyleValueTag
  | id => Str
  | name => Str
  | description => Str
  | remote => Bool
  | key => Str
  | paints => ReturnedList (PaintValue D)
  | text => TextValue D
  | effects => ReturnedList (EffectValue D)
  | pattern => Str
  | size => D.F

def read : ∀ f : StyleValueField, Json D.F → Except DecodeError (f.Val D)
  | styleType => Json.readWord StyleValueTag.words
  | id => Json.readString
  | name => Json.readString
  | description => Json.readString
  | remote => Json.readBool
  | key => Json.readString
  | paints => readReturnedList PaintValue.read
  | text => TextValue.read
  | effects => readReturnedList EffectValue.read
  | pattern => Json.readString
  | size => D.read

def spec : Spec D.F StyleValueField :=
  .ofNodup [styleType, id, name, description, remote, key, paints, text, effects, pattern, size]
    fieldName (Val D) read false (by intro f; cases f <;> decide) (by decide)

end StyleValueField

namespace StyleValue

def build (s : (StyleValueField.spec (D := D)).Slots) : Except DecodeError (StyleValue D) := do
  let id ← Spec.require s .id
  let name ← Spec.require s .name
  let head : StyleHead := ⟨id, name, s .description, s .remote, s .key⟩
  match ← Spec.require s .styleType with
  | .paint => do
    rejectFields ((s .text).isSome || (s .effects).isSome || (s .pattern).isSome ||
      (s .size).isSome) "paint style contains variant-only fields"
    let paints ← Spec.require s .paints
    return .paint head paints
  | .text => do
    rejectFields ((s .paints).isSome || (s .effects).isSome || (s .pattern).isSome ||
      (s .size).isSome) "text style contains variant-only fields"
    let text ← Spec.require s .text
    return .text head text
  | .effect => do
    rejectFields ((s .paints).isSome || (s .text).isSome || (s .pattern).isSome ||
      (s .size).isSome) "effect style contains variant-only fields"
    let effects ← Spec.require s .effects
    return .effect head effects
  | .grid => do
    rejectFields ((s .paints).isSome || (s .text).isSome || (s .effects).isSome)
      "grid style contains variant-only fields"
    let pattern ← Spec.require s .pattern
    let size ← Spec.require s .size
    return .grid head pattern size

def read : Json D.F → Except DecodeError (StyleValue D) :=
  Json.visitMap "a closed style value" fun members => StyleValueField.spec.visitMap members >>= build

def variant : StyleValue D → StyleValueTag
  | paint _ _ => .paint
  | text _ _ => .text
  | effect _ _ => .effect
  | grid _ _ _ => .grid

def required : StyleValueTag → List StyleValueField
  | .paint => [.id, .name, .paints]
  | .text => [.id, .name, .text]
  | .effect => [.id, .name, .effects]
  | .grid => [.id, .name, .pattern, .size]

def head : StyleValue D → StyleHead
  | paint head _ | text head _ | effect head _ | grid head _ _ => head

def paints : StyleValue D → Option (ReturnedList (PaintValue D))
  | paint _ paints => some paints
  | _ => none

def textValue : StyleValue D → Option (TextValue D)
  | text _ value => some value
  | _ => none

def effects : StyleValue D → Option (ReturnedList (EffectValue D))
  | effect _ effects => some effects
  | _ => none

def pattern : StyleValue D → Option Str
  | grid _ pattern _ => some pattern
  | _ => none

def size : StyleValue D → Option D.F
  | grid _ _ size => some size
  | _ => none

def slots (v : StyleValue D) : (StyleValueField.spec (D := D)).Slots
  | .styleType => some v.variant
  | .id => some v.head.id
  | .name => some v.head.name
  | .description => v.head.description
  | .remote => v.head.remote
  | .key => v.head.key
  | .paints => v.paints
  | .text => v.textValue
  | .effects => v.effects
  | .pattern => v.pattern
  | .size => v.size

def write : ∀ f : StyleValueField, f.Val D → Json D.F
  | .styleType => fun tag => Json.writeWord tag.word
  | .id => Json.writeString
  | .name => Json.writeString
  | .description => Json.writeString
  | .remote => Json.writeBool
  | .key => Json.writeString
  | .paints => writeBoundedList PaintValue.encode
  | .text => TextValue.encode
  | .effects => writeBoundedList EffectValue.encode
  | .pattern => Json.writeString
  | .size => D.write

def encode (v : StyleValue D) : Json D.F := StyleValueField.spec.encode write v.slots

def numbers (v : StyleValue D) : List D.F :=
  numbersOf (listNumbers PaintValue.numbers) v.paints ++ numbersOf TextValue.numbers v.textValue ++
    numbersOf (listNumbers EffectValue.numbers) v.effects ++ numbersOf ([·]) v.size

theorem build_slots (v : StyleValue D) : build v.slots = .ok v := by
  cases v <;> rfl

theorem read_encode {v : StyleValue D} (h : ∀ x ∈ v.numbers, D.Exact x) :
    read v.encode = .ok v := by
  simp only [numbers, List.forall_mem_append] at h
  obtain ⟨⟨⟨hpaints, htext⟩, heffects⟩, hsize⟩ := h
  refine Spec.read_encode (fun _ _ => rfl) ?_ (build_slots v)
  intro f w hw
  cases f with
  | styleType => exact StyleValueTag.readWord_word (F := D.F) w
  | paints => exact readReturnedList_encode _ PaintValue.read_encode (exact_of_some hw hpaints)
  | text => exact TextValue.read_encode (exact_of_some hw htext)
  | effects => exact readReturnedList_encode _ EffectValue.read_encode (exact_of_some hw heffects)
  | size => exact Doubles.read_write (exact_of_some hw hsize w List.mem_cons_self)
  | id | name | description | remote | key | pattern => rfl

theorem slots_of_build {s : (StyleValueField.spec (D := D)).Slots} {v : StyleValue D}
    (h : build s = .ok v) : s = v.slots := by
  obtain ⟨id, hid, h⟩ := Guard.bind_eq_ok.1 h
  obtain ⟨name, hname, h⟩ := Guard.bind_eq_ok.1 h
  obtain ⟨tag, htag, h⟩ := Guard.bind_eq_ok.1 h
  rw [Spec.require_eq_ok] at hid hname htag
  cases tag with
  | paint =>
      simp only [rejectFields_eq_ok, exists_const, Guard.bind_eq_ok, Bool.or_eq_false_iff,
        isSome_eq_false, Spec.require_eq_ok, Guard.pure_eq_ok] at h
      obtain ⟨⟨⟨⟨htext, heffects⟩, hpattern⟩, hsize⟩, paints, hpaints, rfl⟩ := h
      funext f
      cases f <;> first | assumption | rfl
  | text =>
      simp only [rejectFields_eq_ok, exists_const, Guard.bind_eq_ok, Bool.or_eq_false_iff,
        isSome_eq_false, Spec.require_eq_ok, Guard.pure_eq_ok] at h
      obtain ⟨⟨⟨⟨hpaints, heffects⟩, hpattern⟩, hsize⟩, text, htext, rfl⟩ := h
      funext f
      cases f <;> first | assumption | rfl
  | effect =>
      simp only [rejectFields_eq_ok, exists_const, Guard.bind_eq_ok, Bool.or_eq_false_iff,
        isSome_eq_false, Spec.require_eq_ok, Guard.pure_eq_ok] at h
      obtain ⟨⟨⟨⟨hpaints, htext⟩, hpattern⟩, hsize⟩, effects, heffects, rfl⟩ := h
      funext f
      cases f <;> first | assumption | rfl
  | grid =>
      simp only [rejectFields_eq_ok, exists_const, Guard.bind_eq_ok, Bool.or_eq_false_iff,
        isSome_eq_false, Spec.require_eq_ok, Guard.pure_eq_ok] at h
      obtain ⟨⟨⟨hpaints, htext⟩, heffects⟩, pattern, hpattern, size, hsize, rfl⟩ := h
      funext f
      cases f <;> first | assumption | rfl

theorem shaped (v : StyleValue D) :
    Spec.Shaped StyleValueField.spec .styleType required
      (fun _ => [.description, .remote, .key]) v.variant v.slots := by
  refine ⟨rfl, fun f hf => ?_, fun f hf => ?_⟩
  · cases v <;> cases f <;>
      first
        | exact absurd rfl hf
        | exact .inl rfl
        | exact .inr (.inl (List.contains_iff_mem.1 rfl))
        | exact .inr (.inr (List.contains_iff_mem.1 rfl))
  · cases v <;> cases f <;>
      first
        | exact Option.some_ne_none _
        | simp [required, variant] at hf

theorem closed :
    StyleValueField.spec.Closed .styleType required (fun _ => [.description, .remote, .key]) variant
      (read (D := D)) := by
  refine Spec.closed (fun _ _ => rfl) fun s v h => ?_
  obtain rfl := slots_of_build h
  exact v.shaped

end StyleValue

/-! ## Items -/

/-- The answer for one item. -/
inductive ItemResult (T : Type)
  | success (value : T)
  | error (error : ToolError)

/-- Whether an item has a value. -/
inductive ItemResultStatus
  | success | error
deriving DecidableEq

namespace ItemResultStatus

def word : ItemResultStatus → String
  | success => "success"
  | error => "error"

def words : List (String × ItemResultStatus) :=
  [("success", success), ("error", error)]

theorem readWord_word {F : Type} (v : ItemResultStatus) :
    Json.readWord words (Json.writeWord v.word : Json F) = .ok v :=
  Json.readWord_writeWord (by decide) (by cases v <;> decide)

end ItemResultStatus

/-- The members of an item, whatever its status. -/
inductive ItemResultField
  | status | value | error
deriving DecidableEq

namespace ItemResultField

def name : ItemResultField → String
  | status => "status"
  | value => "value"
  | error => "error"

abbrev Val (T : Type) : ItemResultField → Type
  | status => ItemResultStatus
  | value => T
  | error => ToolError

def read {F T : Type} (readValue : Json F → Except DecodeError T) :
    ∀ f : ItemResultField, Json F → Except DecodeError (f.Val T)
  | status => Json.readWord ItemResultStatus.words
  | value => readValue
  | error => ToolError.read

def spec {F T : Type} (readValue : Json F → Except DecodeError T) : Spec F ItemResultField :=
  .ofNodup [status, value, error] name (Val T) (read readValue) true
    (by intro f; cases f <;> decide) (by decide)

end ItemResultField

namespace ItemResult

variable {F T : Type} {readValue : Json F → Except DecodeError T}

def build (s : (ItemResultField.spec readValue).Slots) : Except DecodeError (ItemResult T) := do
  match ← Spec.require s .status with
  | .success => do
    rejectFields (s .error).isSome "success item cannot contain error"
    let value ← Spec.require s .value
    return .success value
  | .error => do
    rejectFields (s .value).isSome "error item cannot contain value"
    let error ← Spec.require s .error
    return .error error

def read (readValue : Json F → Except DecodeError T) : Json F → Except DecodeError (ItemResult T) :=
  Json.visitMap "a closed success or error item result" fun members =>
    (ItemResultField.spec readValue).visitMap members >>= build

def status : ItemResult T → ItemResultStatus
  | success _ => .success
  | error _ => .error

def required : ItemResultStatus → List ItemResultField
  | .success => [.value]
  | .error => [.error]

def slots (v : ItemResult T) : (ItemResultField.spec readValue).Slots
  | .status => some v.status
  | .value => match v with
    | success value => some value
    | error _ => none
  | .error => match v with
    | success _ => none
    | error e => some e

def write (writeValue : T → Json F) : ∀ f : ItemResultField, f.Val T → Json F
  | .status => fun status => Json.writeWord status.word
  | .value => writeValue
  | .error => ToolError.encode

def encode (readValue : Json F → Except DecodeError T) (writeValue : T → Json F)
    (v : ItemResult T) : Json F :=
  (ItemResultField.spec readValue).encode (write writeValue) v.slots

theorem read_encode {writeValue : T → Json F} {v : ItemResult T}
    (h : ∀ value, v = success value → readValue (writeValue value) = .ok value) :
    read readValue (v.encode readValue writeValue) = .ok v := by
  refine Spec.read_encode (fun _ _ => rfl) ?_ (by cases v <;> rfl)
  intro f w hw
  cases f with
  | status => exact ItemResultStatus.readWord_word (F := F) w
  | value =>
      cases v with
      | success value =>
          obtain rfl := Option.some.inj hw
          exact h value rfl
      | error e => cases hw
  | error => exact ToolError.read_encode w

theorem slots_of_build {s : (ItemResultField.spec readValue).Slots} {v : ItemResult T}
    (h : build s = .ok v) : s = v.slots := by
  obtain ⟨tag, htag, h⟩ := Guard.bind_eq_ok.1 h
  rw [Spec.require_eq_ok] at htag
  cases tag with
  | success =>
      simp only [rejectFields_eq_ok, exists_const, Guard.bind_eq_ok, isSome_eq_false,
        Spec.require_eq_ok, Guard.pure_eq_ok] at h
      obtain ⟨herror, value, hvalue, rfl⟩ := h
      funext f
      cases f <;> assumption
  | error =>
      simp only [rejectFields_eq_ok, exists_const, Guard.bind_eq_ok, isSome_eq_false,
        Spec.require_eq_ok, Guard.pure_eq_ok] at h
      obtain ⟨hvalue, e, herror, rfl⟩ := h
      funext f
      cases f <;> assumption

theorem closed :
    (ItemResultField.spec readValue).Closed .status required (fun _ => []) status
      (read readValue) := by
  refine Spec.closed (fun _ _ => rfl) fun s v h => ?_
  obtain rfl := slots_of_build h
  refine .of_contains rfl fun f => ?_
  cases v <;> cases f <;> rfl

end ItemResult

/-! ## The seven unions -/

/-- The whole numbers, and one double that is not finite. -/
def wholeNumbers : Doubles where
  F := Option ℕ
  finite := Option.isSome
  size x := (Nat.repr (x.getD 0)).length + 2
  reread := id
  ofUnsigned := some
  ofNegative _ := none

/-- Every number of the value is finite, and the one that its text is read as. -/
def Exact (D : Doubles) (numbers : List D.F) : Prop := ∀ x ∈ numbers, D.Exact x

/-- The text of a value that is put aside is not too long to be read. -/
def Fits {F : Type} (payload : Json F) : Prop := payload.len ≤ maxEnvelopeBytes

/-- **Closed unions.** Each value whose numbers are exact, and whose payload fits where that is put
aside, is read back from what is written of it; and what is read has the discriminator of its
variant, only members that the variant has, and all that it requires. -/
theorem closedUnions (D : Doubles) :
    ((∀ v : PaintValue D, Exact D v.numbers → PaintValue.read v.encode = .ok v) ∧
      PaintField.spec.Closed .type PaintValue.required (fun _ => []) PaintValue.variant
        (PaintValue.read (D := D))) ∧
    ((∀ v : EffectValue D, Exact D v.numbers → EffectValue.read v.encode = .ok v) ∧
      EffectField.spec.Closed .type EffectValue.required (fun _ => []) EffectValue.variant
        (EffectValue.read (D := D))) ∧
    ((∀ v : CornerRadiusValue D, Exact D v.numbers → CornerRadiusValue.read v.encode = .ok v) ∧
      CornerRadiusField.spec.Closed .kind CornerRadiusValue.required (fun _ => [])
        CornerRadiusValue.variant (CornerRadiusValue.read (D := D))) ∧
    ((∀ v : StyleValue D, Exact D v.numbers → StyleValue.read v.encode = .ok v) ∧
      StyleValueField.spec.Closed .styleType StyleValue.required
        (fun _ => [.description, .remote, .key]) StyleValue.variant (StyleValue.read (D := D))) ∧
    ((∀ v : ComponentPropertyValue, Fits (v.payload : Json D.F) →
        ComponentPropertyValue.read (v.encode : Json D.F) = .ok v) ∧
      (AdjacentValueField.spec ComponentPropertyTag.words).Closed .kind (fun _ => [.value])
        (fun _ => []) ComponentPropertyValue.kind (ComponentPropertyValue.read (D := D))) ∧
    ((∀ v : VariableValue D, Exact D v.numbers → Fits v.payload →
        VariableValue.read v.encode = .ok v) ∧
      (AdjacentValueField.spec VariableValueTag.words).Closed .kind (fun _ => [.value])
        (fun _ => []) VariableValue.kind (VariableValue.read (D := D))) ∧
    ∀ (T : Type) (readValue : Json D.F → Except DecodeError T) (writeValue : T → Json D.F),
      (∀ v : ItemResult T, (∀ value, v = .success value → readValue (writeValue value) = .ok value) →
        ItemResult.read readValue (v.encode readValue writeValue) = .ok v) ∧
      (ItemResultField.spec readValue).Closed .status ItemResult.required (fun _ => [])
        ItemResult.status (ItemResult.read readValue) :=
  ⟨⟨fun _ => PaintValue.read_encode, PaintValue.closed⟩,
    ⟨fun _ => EffectValue.read_encode, EffectValue.closed⟩,
    ⟨fun _ => CornerRadiusValue.read_encode, CornerRadiusValue.closed⟩,
    ⟨fun _ => StyleValue.read_encode, StyleValue.closed⟩,
    ⟨fun _ => ComponentPropertyValue.read_encode, ComponentPropertyValue.closed⟩,
    ⟨fun _ hexact hfits => VariableValue.read_encode hfits hexact, VariableValue.closed⟩,
    fun _ _ _ => ⟨fun _ => ItemResult.read_encode, ItemResult.closed⟩⟩

/-- A whole number is exact. -/
theorem exact_of_all {numbers : List wholeNumbers.F} (h : numbers.all Option.isSome = true) :
    Exact wholeNumbers numbers :=
  fun x hx => ⟨List.all_eq_true.1 h x hx, rfl⟩

/-- A gradient of one stop, with a color of whole numbers. -/
def wholeGradient : PaintValue wholeNumbers :=
  .linearGradient ⟨[⟨some 1, ⟨some 1, some 0, some 0, some 1⟩⟩], by decide⟩
    ⟨some 1, some 0, some 0, some 0, some 1, some 0⟩ (some 1)

def wholeStyle : StyleValue wholeNumbers :=
  .paint ⟨['s'], ['n'], some ['d'], none, none⟩ ⟨[wholeGradient, .mixed], by decide⟩

def wholeVariable : VariableValue wholeNumbers := .color ⟨some 1, some 0, some 0, some 1⟩

/-- A style with a gradient, a color and a text are read back, and so is an item with a value. -/
theorem closedUnions_whole :
    StyleValue.read wholeStyle.encode = .ok wholeStyle ∧
    VariableValue.read wholeVariable.encode = .ok wholeVariable ∧
    ComponentPropertyValue.read (D := wholeNumbers) (ComponentPropertyValue.text ['x']).encode =
      .ok (.text ['x']) ∧
    ItemResult.read StyleValue.read
        ((ItemResult.success wholeStyle).encode StyleValue.read StyleValue.encode) =
      .ok (.success wholeStyle) := by
  have ⟨_, _, _, ⟨hstyle, _⟩, ⟨hproperty, _⟩, ⟨hvariable, _⟩, hitem⟩ := closedUnions wholeNumbers
  have hread := hstyle wholeStyle (exact_of_all (by decide))
  have hfits : wholeVariable.payload.len ≤ maxEnvelopeBytes := by
    decide +kernel
  refine ⟨hread, hvariable _ (exact_of_all (by decide)) hfits,
    hproperty (.text ['x']) (show _ ≤ _ by decide +kernel),
    (hitem _ StyleValue.read StyleValue.encode).1 _ fun value h => ?_⟩
  rw [← ItemResult.success.inj h]
  exact hread

theorem ComponentPropertyValue.read_tooLong {value : Str}
    (h : maxEnvelopeBytes < (Json.writeString value : Json D.F).len) :
    ComponentPropertyValue.read (D := D) (ComponentPropertyValue.text value).encode =
      .error tooLong := by
  refine (Spec.read_encode_eq (fun _ _ => rfl) ?_).trans ?_
  · intro f w hw
    cases f with
    | kind => exact ComponentPropertyTag.readWord_word (F := D.F) w
    | value => rfl
  · show (decodeRaw Json.readString (Json.writeString value : Json D.F)).map text = _
    rw [decodeRaw, if_pos h]
    rfl

theorem CornerRadiusValue.read_not_finite {x : D.F} (h : D.finite x = false)
    (v : CornerRadiusValue D) :
    CornerRadiusValue.read (CornerRadiusValue.uniform x).encode ≠ .ok v := by
  intro hread
  have hnull : D.write x = .null := by
    rw [Doubles.write, h]
    rfl
  obtain ⟨s, hs, -⟩ := Guard.bind_eq_ok.1
    (show CornerRadiusField.spec.visitMap _ >>= CornerRadiusValue.build = .ok v from hread)
  obtain ⟨-, hslots, -⟩ := Spec.slots_of_visitMap hs
  obtain ⟨f, w, hf, hw, -⟩ := hslots (⟨_, "radius"⟩, D.write x)
    (List.mem_cons_of_mem _ List.mem_cons_self)
  obtain rfl := CornerRadiusField.spec.name_inj f .radius hf
  rw [hnull] at hw
  cases hw

theorem len_xs (n : ℕ) (F : Type) : (Json.writeString (List.replicate n 'x') : Json F).len = n + 2 := by
  have hsize : Json.escapedSize 'x' = 1 := by
    decide
  rw [Json.writeString, Json.len, List.map_replicate, List.sum_replicate_nat, hsize, Nat.mul_one]

/-- A text as long as an envelope may be is not read back, because of its quotes; nor is a radius
that is not finite. -/
theorem closedUnions_refused :
    (ComponentPropertyValue.read (D := wholeNumbers)
        (ComponentPropertyValue.text (List.replicate maxEnvelopeBytes 'x')).encode ≠
      .ok (.text (List.replicate maxEnvelopeBytes 'x'))) ∧
    (CornerRadiusValue.read (CornerRadiusValue.uniform (D := wholeNumbers) none).encode ≠
      .ok (.uniform none)) := by
  constructor
  · rw [ComponentPropertyValue.read_tooLong (by rw [len_xs]; omega)]
    exact Guard.throw_ne_ok
  · exact CornerRadiusValue.read_not_finite rfl _

end FigmaDevMcp.Protocol

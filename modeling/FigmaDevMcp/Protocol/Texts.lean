import FigmaDevMcp.Protocol.Paints

set_option autoImplicit false

/-!
# Texts

`TextValue` of `common.rs` with the records in it, whose deserializers are derived. A member that
may be missing is left out when it is, and `null` is read as missing.

* `LineHeightValue`, `LetterSpacingValue`: a unit and the value under it;
* `TextStyle`, `StyledTextRange`, `TextValue`: the records, each with its round trip.
-/

namespace FigmaDevMcp.Protocol

open Serde Tools

variable {D : Doubles}

theorem write_ne_null {x : D.F} (h : D.Exact x) : D.write x ≠ .null := by
  rw [Doubles.write, if_pos h.1]
  intro hnull
  cases hnull

theorem readOption_write {x : D.F} (h : D.Exact x) :
    Json.readOption D.read (D.write x) = .ok (some x) :=
  Json.readOption_of_ne_null (Doubles.read_write h) (write_ne_null h)

theorem getD_map_some {α : Type} (o : Option α) : (o.map some).getD none = o := by
  cases o <;> rfl

/-! ## Units -/

/-- The height of lines. -/
inductive LineHeightValue (D : Doubles)
  | pixels (value : D.F)
  | percent (value : D.F)
  | auto

/-- The units of heights. -/
inductive LineHeightUnit
  | pixels | percent | auto
deriving DecidableEq

namespace LineHeightUnit

def word : LineHeightUnit → String
  | pixels => "pixels"
  | percent => "percent"
  | auto => "auto"

def words : List (String × LineHeightUnit) :=
  [("pixels", pixels), ("percent", percent), ("auto", auto)]

theorem readWord_word {F : Type} (v : LineHeightUnit) :
    Json.readWord words (Json.writeWord v.word : Json F) = .ok v :=
  Json.readWord_writeWord (by decide) (by cases v <;> decide)

end LineHeightUnit

/-- The members of a height, whatever its unit. -/
inductive LineHeightField
  | unit | value
deriving DecidableEq

namespace LineHeightField

def name : LineHeightField → String
  | unit => "unit"
  | value => "value"

abbrev Val (D : Doubles) : LineHeightField → Type
  | unit => LineHeightUnit
  | value => Json D.F

def read : ∀ f : LineHeightField, Json D.F → Except DecodeError (f.Val D)
  | unit => Json.readWord LineHeightUnit.words
  | value => .ok

def spec : Spec D.F LineHeightField :=
  .ofNodup [unit, value] name (Val D) read true (by intro f; cases f <;> decide) (by decide)

end LineHeightField

namespace LineHeightValue

/-- A variant without a value may be told of one that is `null`. -/
def build (s : (LineHeightField.spec (D := D)).Slots) : Except DecodeError (LineHeightValue D) := do
  match ← Spec.require s .unit with
  | .pixels => do
    let value ← Spec.require s .value
    (D.read value).map .pixels
  | .percent => do
    let value ← Spec.require s .value
    (D.read value).map .percent
  | .auto =>
    match s .value with
    | none | some .null => .ok .auto
    | some _ => .error (.invalidType "unit variant LineHeightValue::Auto")

def read : Json D.F → Except DecodeError (LineHeightValue D) :=
  LineHeightField.spec.readStruct "adjacently tagged enum LineHeightValue" (fun _ => false) build

def unit : LineHeightValue D → LineHeightUnit
  | pixels _ => .pixels
  | percent _ => .percent
  | auto => .auto

def value : LineHeightValue D → Option D.F
  | pixels value | percent value => some value
  | auto => none

def slots (v : LineHeightValue D) : (LineHeightField.spec (D := D)).Slots
  | .unit => some v.unit
  | .value => v.value.map D.write

def write : ∀ f : LineHeightField, f.Val D → Json D.F
  | .unit => fun unit => Json.writeWord unit.word
  | .value => id

def encode (v : LineHeightValue D) : Json D.F := LineHeightField.spec.encode write v.slots

def numbers (v : LineHeightValue D) : List D.F := numbersOf ([·]) v.value

theorem build_slots {v : LineHeightValue D} (h : ∀ x ∈ v.numbers, D.Exact x) :
    build v.slots = .ok v := by
  cases v with
  | auto => rfl
  | pixels x =>
      show (D.read (D.write x)).map pixels = _
      rw [Doubles.read_write (exact_of_some rfl h x List.mem_cons_self)]
      rfl
  | percent x =>
      show (D.read (D.write x)).map percent = _
      rw [Doubles.read_write (exact_of_some rfl h x List.mem_cons_self)]
      rfl

theorem read_encode {v : LineHeightValue D} (h : ∀ x ∈ v.numbers, D.Exact x) :
    read v.encode = .ok v := by
  refine Spec.read_encode (fun _ _ => rfl) ?_ (build_slots h)
  intro f w hw
  cases f with
  | unit => exact LineHeightUnit.readWord_word (F := D.F) w
  | value => rfl

end LineHeightValue

/-- The space between letters. -/
inductive LetterSpacingValue (D : Doubles)
  | pixels (value : D.F)
  | percent (value : D.F)

/-- The units of spaces. -/
inductive LetterSpacingUnit
  | pixels | percent
deriving DecidableEq

namespace LetterSpacingUnit

def word : LetterSpacingUnit → String
  | pixels => "pixels"
  | percent => "percent"

def words : List (String × LetterSpacingUnit) :=
  [("pixels", pixels), ("percent", percent)]

theorem readWord_word {F : Type} (v : LetterSpacingUnit) :
    Json.readWord words (Json.writeWord v.word : Json F) = .ok v :=
  Json.readWord_writeWord (by decide) (by cases v <;> decide)

end LetterSpacingUnit

/-- The members of a space, whatever its unit. -/
inductive LetterSpacingField
  | unit | value
deriving DecidableEq

namespace LetterSpacingField

def name : LetterSpacingField → String
  | unit => "unit"
  | value => "value"

abbrev Val (D : Doubles) : LetterSpacingField → Type
  | unit => LetterSpacingUnit
  | value => Json D.F

def read : ∀ f : LetterSpacingField, Json D.F → Except DecodeError (f.Val D)
  | unit => Json.readWord LetterSpacingUnit.words
  | value => .ok

def spec : Spec D.F LetterSpacingField :=
  .ofNodup [unit, value] name (Val D) read true (by intro f; cases f <;> decide) (by decide)

end LetterSpacingField

namespace LetterSpacingValue

def build (s : (LetterSpacingField.spec (D := D)).Slots) :
    Except DecodeError (LetterSpacingValue D) := do
  match ← Spec.require s .unit with
  | .pixels => do
    let value ← Spec.require s .value
    (D.read value).map .pixels
  | .percent => do
    let value ← Spec.require s .value
    (D.read value).map .percent

def read : Json D.F → Except DecodeError (LetterSpacingValue D) :=
  LetterSpacingField.spec.readStruct "adjacently tagged enum LetterSpacingValue" (fun _ => false)
    build

def unit : LetterSpacingValue D → LetterSpacingUnit
  | pixels _ => .pixels
  | percent _ => .percent

def value : LetterSpacingValue D → D.F
  | pixels value | percent value => value

def slots (v : LetterSpacingValue D) : (LetterSpacingField.spec (D := D)).Slots
  | .unit => some v.unit
  | .value => some (D.write v.value)

def write : ∀ f : LetterSpacingField, f.Val D → Json D.F
  | .unit => fun unit => Json.writeWord unit.word
  | .value => id

def encode (v : LetterSpacingValue D) : Json D.F := LetterSpacingField.spec.encode write v.slots

def numbers (v : LetterSpacingValue D) : List D.F := [v.value]

theorem build_slots {v : LetterSpacingValue D} (h : ∀ x ∈ v.numbers, D.Exact x) :
    build v.slots = .ok v := by
  have hvalue := Doubles.read_write (h v.value List.mem_cons_self)
  cases v with
  | pixels x =>
      show (D.read (D.write x)).map pixels = _
      rw [show D.read (D.write x) = .ok x from hvalue]
      rfl
  | percent x =>
      show (D.read (D.write x)).map percent = _
      rw [show D.read (D.write x) = .ok x from hvalue]
      rfl

theorem read_encode {v : LetterSpacingValue D} (h : ∀ x ∈ v.numbers, D.Exact x) :
    read v.encode = .ok v := by
  refine Spec.read_encode (fun _ _ => rfl) ?_ (build_slots h)
  intro f w hw
  cases f with
  | unit => exact LetterSpacingUnit.readWord_word (F := D.F) w
  | value => rfl

end LetterSpacingValue

/-! ## Styles and texts -/

/-- The style of a text. -/
structure TextStyle (D : Doubles) where
  fontFamily : Str
  fontStyle : Str
  fontSize : Option D.F
  lineHeight : Option (LineHeightValue D)
  letterSpacing : Option (LetterSpacingValue D)
  fontWeight : Option D.F
  textDecoration : Option TextDecoration
  paints : ReturnedList (PaintValue D)

/-- The members of a style. -/
inductive TextStyleField
  | fontFamily | fontStyle | fontSize | lineHeight | letterSpacing | fontWeight | textDecoration
  | paints
deriving DecidableEq

namespace TextStyleField

def name : TextStyleField → String
  | fontFamily => "fontFamily"
  | fontStyle => "fontStyle"
  | fontSize => "fontSize"
  | lineHeight => "lineHeight"
  | letterSpacing => "letterSpacing"
  | fontWeight => "fontWeight"
  | textDecoration => "textDecoration"
  | paints => "paints"

abbrev Val (D : Doubles) : TextStyleField → Type
  | fontFamily => Str
  | fontStyle => Str
  | fontSize => Option D.F
  | lineHeight => Option (LineHeightValue D)
  | letterSpacing => Option (LetterSpacingValue D)
  | fontWeight => Option D.F
  | textDecoration => Option TextDecoration
  | paints => ReturnedList (PaintValue D)

def read : ∀ f : TextStyleField, Json D.F → Except DecodeError (f.Val D)
  | fontFamily => Json.readString
  | fontStyle => Json.readString
  | fontSize => Json.readOption D.read
  | lineHeight => Json.readOption LineHeightValue.read
  | letterSpacing => Json.readOption LetterSpacingValue.read
  | fontWeight => Json.readOption D.read
  | textDecoration => Json.readOption (Json.readWord TextDecoration.words)
  | paints => readReturnedList PaintValue.read

def spec : Spec D.F TextStyleField :=
  .ofNodup [fontFamily, fontStyle, fontSize, lineHeight, letterSpacing, fontWeight, textDecoration,
    paints] name (Val D) read true (by intro f; cases f <;> decide) (by decide)

end TextStyleField

namespace TextStyle

def build (s : (TextStyleField.spec (D := D)).Slots) : Except DecodeError (TextStyle D) := do
  let fontFamily ← Spec.require s .fontFamily
  let fontStyle ← Spec.require s .fontStyle
  let paints ← Spec.require s .paints
  return ⟨fontFamily, fontStyle, (s .fontSize).getD none, (s .lineHeight).getD none,
    (s .letterSpacing).getD none, (s .fontWeight).getD none, (s .textDecoration).getD none, paints⟩

/-- The members that may be missing. -/
def defaulted : TextStyleField → Bool
  | .fontFamily | .fontStyle | .paints => false
  | _ => true

def read : Json D.F → Except DecodeError (TextStyle D) :=
  TextStyleField.spec.readStruct "struct TextStyle" defaulted build

def slots (v : TextStyle D) : (TextStyleField.spec (D := D)).Slots
  | .fontFamily => some v.fontFamily
  | .fontStyle => some v.fontStyle
  | .fontSize => v.fontSize.map some
  | .lineHeight => v.lineHeight.map some
  | .letterSpacing => v.letterSpacing.map some
  | .fontWeight => v.fontWeight.map some
  | .textDecoration => v.textDecoration.map some
  | .paints => some v.paints

def write : ∀ f : TextStyleField, f.Val D → Json D.F
  | .fontFamily => Json.writeString
  | .fontStyle => Json.writeString
  | .fontSize => Json.writeOption D.write
  | .lineHeight => Json.writeOption LineHeightValue.encode
  | .letterSpacing => Json.writeOption LetterSpacingValue.encode
  | .fontWeight => Json.writeOption D.write
  | .textDecoration => Json.writeOption fun d => Json.writeWord d.word
  | .paints => writeBoundedList PaintValue.encode

def encode (v : TextStyle D) : Json D.F := TextStyleField.spec.encode write v.slots

def numbers (v : TextStyle D) : List D.F :=
  numbersOf ([·]) v.fontSize ++ numbersOf LineHeightValue.numbers v.lineHeight ++
    numbersOf LetterSpacingValue.numbers v.letterSpacing ++ numbersOf ([·]) v.fontWeight ++
    listNumbers PaintValue.numbers v.paints

theorem build_slots (v : TextStyle D) : build v.slots = .ok v := by
  show Except.ok (TextStyle.mk _ _ ((v.fontSize.map some).getD none)
    ((v.lineHeight.map some).getD none) ((v.letterSpacing.map some).getD none)
    ((v.fontWeight.map some).getD none) ((v.textDecoration.map some).getD none) _) = _
  simp only [getD_map_some]

theorem read_encode {v : TextStyle D} (h : ∀ x ∈ v.numbers, D.Exact x) :
    read v.encode = .ok v := by
  simp only [numbers, List.forall_mem_append] at h
  obtain ⟨⟨⟨⟨hsize, hline⟩, hspacing⟩, hweight⟩, hpaints⟩ := h
  refine Spec.read_encode (fun _ _ => rfl) ?_ (build_slots v)
  intro f w hw
  cases f with
  | fontFamily => rfl
  | fontStyle => rfl
  | fontSize =>
      obtain ⟨x, hx, rfl⟩ := Option.map_eq_some_iff.1 hw
      exact readOption_write (exact_of_some hx hsize x List.mem_cons_self)
  | lineHeight =>
      obtain ⟨x, hx, rfl⟩ := Option.map_eq_some_iff.1 hw
      exact Json.readOption_of_ne_null (LineHeightValue.read_encode (exact_of_some hx hline)) nofun
  | letterSpacing =>
      obtain ⟨x, hx, rfl⟩ := Option.map_eq_some_iff.1 hw
      exact Json.readOption_of_ne_null (LetterSpacingValue.read_encode (exact_of_some hx hspacing))
        nofun
  | fontWeight =>
      obtain ⟨x, hx, rfl⟩ := Option.map_eq_some_iff.1 hw
      exact readOption_write (exact_of_some hx hweight x List.mem_cons_self)
  | textDecoration =>
      obtain ⟨x, -, rfl⟩ := Option.map_eq_some_iff.1 hw
      exact Json.readOption_of_ne_null (TextDecoration.readWord_word (F := D.F) x) nofun
  | paints =>
      obtain rfl := Option.some.inj hw
      exact readReturnedList_encode _ PaintValue.read_encode hpaints

end TextStyle

/-- `end` is the place after the last unit. -/
structure StyledTextRange (D : Doubles) where
  start : Fin (2 ^ 64)
  end_ : Fin (2 ^ 64)
  style : TextStyle D

/-- The members of a range. -/
inductive StyledTextRangeField
  | start | end_ | style
deriving DecidableEq

namespace StyledTextRangeField

def name : StyledTextRangeField → String
  | start => "start"
  | end_ => "end"
  | style => "style"

abbrev Val (D : Doubles) : StyledTextRangeField → Type
  | start => Fin (2 ^ 64)
  | end_ => Fin (2 ^ 64)
  | style => TextStyle D

def read : ∀ f : StyledTextRangeField, Json D.F → Except DecodeError (f.Val D)
  | start => Json.readUnsigned 64
  | end_ => Json.readUnsigned 64
  | style => TextStyle.read

def spec : Spec D.F StyledTextRangeField :=
  .ofNodup [start, end_, style] name (Val D) read true (by intro f; cases f <;> decide) (by decide)

end StyledTextRangeField

namespace StyledTextRange

def build (s : (StyledTextRangeField.spec (D := D)).Slots) :
    Except DecodeError (StyledTextRange D) := do
  let start ← Spec.require s .start
  let end_ ← Spec.require s .end_
  let style ← Spec.require s .style
  return ⟨start, end_, style⟩

def read : Json D.F → Except DecodeError (StyledTextRange D) :=
  StyledTextRangeField.spec.readStruct "struct StyledTextRange" (fun _ => false) build

def slots (v : StyledTextRange D) : (StyledTextRangeField.spec (D := D)).Slots
  | .start => some v.start
  | .end_ => some v.end_
  | .style => some v.style

def write : ∀ f : StyledTextRangeField, f.Val D → Json D.F
  | .start => Json.writeUnsigned
  | .end_ => Json.writeUnsigned
  | .style => TextStyle.encode

def encode (v : StyledTextRange D) : Json D.F := StyledTextRangeField.spec.encode write v.slots

def numbers (v : StyledTextRange D) : List D.F := v.style.numbers

theorem read_encode {v : StyledTextRange D} (h : ∀ x ∈ v.numbers, D.Exact x) :
    read v.encode = .ok v := by
  refine Spec.read_encode (fun _ _ => rfl) ?_ rfl
  intro f w hw
  cases f with
  | start => exact Json.readUnsigned_writeUnsigned (F := D.F) w
  | end_ => exact Json.readUnsigned_writeUnsigned (F := D.F) w
  | style =>
      obtain rfl := Option.some.inj hw
      exact TextStyle.read_encode h

end StyledTextRange

/-- A text with its styles. -/
structure TextValue (D : Doubles) where
  characters : Str
  defaultStyle : TextStyle D
  styledRanges : ReturnedList (StyledTextRange D)
  alignHorizontal : Option TextAlignHorizontal
  alignVertical : Option TextAlignVertical
  autoResize : Option TextAutoResize

/-- The members of a text. -/
inductive TextValueField
  | characters | defaultStyle | styledRanges | alignHorizontal | alignVertical | autoResize
deriving DecidableEq

namespace TextValueField

def name : TextValueField → String
  | characters => "characters"
  | defaultStyle => "defaultStyle"
  | styledRanges => "styledRanges"
  | alignHorizontal => "alignHorizontal"
  | alignVertical => "alignVertical"
  | autoResize => "autoResize"

abbrev Val (D : Doubles) : TextValueField → Type
  | characters => Str
  | defaultStyle => TextStyle D
  | styledRanges => ReturnedList (StyledTextRange D)
  | alignHorizontal => Option TextAlignHorizontal
  | alignVertical => Option TextAlignVertical
  | autoResize => Option TextAutoResize

def read : ∀ f : TextValueField, Json D.F → Except DecodeError (f.Val D)
  | characters => Json.readString
  | defaultStyle => TextStyle.read
  | styledRanges => readReturnedList StyledTextRange.read
  | alignHorizontal => Json.readOption (Json.readWord TextAlignHorizontal.words)
  | alignVertical => Json.readOption (Json.readWord TextAlignVertical.words)
  | autoResize => Json.readOption (Json.readWord TextAutoResize.words)

def spec : Spec D.F TextValueField :=
  .ofNodup [characters, defaultStyle, styledRanges, alignHorizontal, alignVertical, autoResize]
    name (Val D) read true (by intro f; cases f <;> decide) (by decide)

end TextValueField

namespace TextValue

def build (s : (TextValueField.spec (D := D)).Slots) : Except DecodeError (TextValue D) := do
  let characters ← Spec.require s .characters
  let defaultStyle ← Spec.require s .defaultStyle
  let styledRanges ← Spec.require s .styledRanges
  return ⟨characters, defaultStyle, styledRanges, (s .alignHorizontal).getD none,
    (s .alignVertical).getD none, (s .autoResize).getD none⟩

def defaulted : TextValueField → Bool
  | .characters | .defaultStyle | .styledRanges => false
  | _ => true

def read : Json D.F → Except DecodeError (TextValue D) :=
  TextValueField.spec.readStruct "struct TextValue" defaulted build

def slots (v : TextValue D) : (TextValueField.spec (D := D)).Slots
  | .characters => some v.characters
  | .defaultStyle => some v.defaultStyle
  | .styledRanges => some v.styledRanges
  | .alignHorizontal => v.alignHorizontal.map some
  | .alignVertical => v.alignVertical.map some
  | .autoResize => v.autoResize.map some

def write : ∀ f : TextValueField, f.Val D → Json D.F
  | .characters => Json.writeString
  | .defaultStyle => TextStyle.encode
  | .styledRanges => writeBoundedList StyledTextRange.encode
  | .alignHorizontal => Json.writeOption fun a => Json.writeWord a.word
  | .alignVertical => Json.writeOption fun a => Json.writeWord a.word
  | .autoResize => Json.writeOption fun a => Json.writeWord a.word

def encode (v : TextValue D) : Json D.F := TextValueField.spec.encode write v.slots

def numbers (v : TextValue D) : List D.F :=
  v.defaultStyle.numbers ++ listNumbers StyledTextRange.numbers v.styledRanges

theorem build_slots (v : TextValue D) : build v.slots = .ok v := by
  show Except.ok (TextValue.mk _ _ _ ((v.alignHorizontal.map some).getD none)
    ((v.alignVertical.map some).getD none) ((v.autoResize.map some).getD none)) = _
  simp only [getD_map_some]

theorem read_encode {v : TextValue D} (h : ∀ x ∈ v.numbers, D.Exact x) :
    read v.encode = .ok v := by
  obtain ⟨hstyle, hranges⟩ := List.forall_mem_append.1 h
  refine Spec.read_encode (fun _ _ => rfl) ?_ (build_slots v)
  intro f w hw
  cases f with
  | characters => rfl
  | defaultStyle =>
      obtain rfl := Option.some.inj hw
      exact TextStyle.read_encode hstyle
  | styledRanges =>
      obtain rfl := Option.some.inj hw
      exact readReturnedList_encode _ StyledTextRange.read_encode hranges
  | alignHorizontal =>
      obtain ⟨x, -, rfl⟩ := Option.map_eq_some_iff.1 hw
      exact Json.readOption_of_ne_null (TextAlignHorizontal.readWord_word (F := D.F) x) nofun
  | alignVertical =>
      obtain ⟨x, -, rfl⟩ := Option.map_eq_some_iff.1 hw
      exact Json.readOption_of_ne_null (TextAlignVertical.readWord_word (F := D.F) x) nofun
  | autoResize =>
      obtain ⟨x, -, rfl⟩ := Option.map_eq_some_iff.1 hw
      exact Json.readOption_of_ne_null (TextAutoResize.readWord_word (F := D.F) x) nofun

end TextValue

end FigmaDevMcp.Protocol

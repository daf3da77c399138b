import FigmaDevMcp.Protocol.Writing

set_option autoImplicit false

/-!
# Values of the domain

The records of `common.rs` that the closed unions are made of: how each is read, how it is
written, and its round trip where its numbers are exact.

* `numbers`: the doubles of a value, which its texts have to stand for;
* `Color`, `GradientStop`, `Transform2D`, `LineHeightValue`, `LetterSpacingValue`;
* `ImageScaleMode` and the other closed sets of words.
-/

namespace FigmaDevMcp.Protocol

open Serde Tools

variable {D : Doubles}

/-- A color. -/
structure Color (D : Doubles) where
  r : D.F
  g : D.F
  b : D.F
  a : D.F

/-- The members of a color. -/
inductive ColorField
  | r | g | b | a
deriving DecidableEq

namespace ColorField

def name : ColorField → String
  | r => "r"
  | g => "g"
  | b => "b"
  | a => "a"

abbrev Val (D : Doubles) : ColorField → Type
  | r => D.F
  | g => D.F
  | b => D.F
  | a => D.F

def read : ∀ f : ColorField, Json D.F → Except DecodeError (f.Val D)
  | r => D.read
  | g => D.read
  | b => D.read
  | a => D.read

def spec : Spec D.F ColorField :=
  .ofNodup [r, g, b, a] name (Val D) read true (by intro f; cases f <;> decide) (by decide)

end ColorField

namespace Color

def build (s : (ColorField.spec (D := D)).Slots) : Except DecodeError (Color D) := do
  let r ← Spec.require s .r
  let g ← Spec.require s .g
  let b ← Spec.require s .b
  let a ← Spec.require s .a
  return ⟨r, g, b, a⟩

def read : Json D.F → Except DecodeError (Color D) :=
  ColorField.spec.readStruct "struct Color" (fun _ => false) build

def slots (c : Color D) : (ColorField.spec (D := D)).Slots
  | .r => some c.r
  | .g => some c.g
  | .b => some c.b
  | .a => some c.a

def write : ∀ f : ColorField, f.Val D → Json D.F
  | .r => D.write
  | .g => D.write
  | .b => D.write
  | .a => D.write

def encode (c : Color D) : Json D.F := ColorField.spec.encode write c.slots

def numbers (c : Color D) : List D.F := [c.r, c.g, c.b, c.a]

theorem read_encode {c : Color D} (h : ∀ x ∈ c.numbers, D.Exact x) : read c.encode = .ok c := by
  refine Spec.read_encode (fun _ _ => rfl) ?_ rfl
  intro f v hv
  cases f <;> obtain rfl := Option.some.inj hv <;>
    exact Doubles.read_write (h _ (by simp [numbers]))

end Color

/-- A stop of a gradient. -/
structure GradientStop (D : Doubles) where
  position : D.F
  color : Color D

/-- The members of a stop. -/
inductive GradientStopField
  | position | color
deriving DecidableEq

namespace GradientStopField

def name : GradientStopField → String
  | position => "position"
  | color => "color"

abbrev Val (D : Doubles) : GradientStopField → Type
  | position => D.F
  | color => Color D

def read : ∀ f : GradientStopField, Json D.F → Except DecodeError (f.Val D)
  | position => D.read
  | color => Color.read

def spec : Spec D.F GradientStopField :=
  .ofNodup [position, color] name (Val D) read true (by intro f; cases f <;> decide) (by decide)

end GradientStopField

namespace GradientStop

def build (s : (GradientStopField.spec (D := D)).Slots) : Except DecodeError (GradientStop D) := do
  let position ← Spec.require s .position
  let color ← Spec.require s .color
  return ⟨position, color⟩

def read : Json D.F → Except DecodeError (GradientStop D) :=
  GradientStopField.spec.readStruct "struct GradientStop" (fun _ => false) build

def slots (stop : GradientStop D) : (GradientStopField.spec (D := D)).Slots
  | .position => some stop.position
  | .color => some stop.color

def write : ∀ f : GradientStopField, f.Val D → Json D.F
  | .position => D.write
  | .color => Color.encode

def encode (stop : GradientStop D) : Json D.F := GradientStopField.spec.encode write stop.slots

def numbers (stop : GradientStop D) : List D.F := stop.position :: stop.color.numbers

theorem read_encode {stop : GradientStop D} (h : ∀ x ∈ stop.numbers, D.Exact x) :
    read stop.encode = .ok stop := by
  have ⟨hposition, hcolor⟩ := List.forall_mem_cons.1 h
  refine Spec.read_encode (fun _ _ => rfl) ?_ rfl
  intro f v hv
  cases f with
  | position =>
      obtain rfl := Option.some.inj hv
      exact Doubles.read_write hposition
  | color =>
      obtain rfl := Option.some.inj hv
      exact Color.read_encode hcolor

end GradientStop

/-- The two rows of a transform. -/
structure Transform2D (D : Doubles) where
  m00 : D.F
  m01 : D.F
  m02 : D.F
  m10 : D.F
  m11 : D.F
  m12 : D.F

/-- The members of a transform. -/
inductive Transform2DField
  | m00 | m01 | m02 | m10 | m11 | m12
deriving DecidableEq

namespace Transform2DField

def name : Transform2DField → String
  | m00 => "m00"
  | m01 => "m01"
  | m02 => "m02"
  | m10 => "m10"
  | m11 => "m11"
  | m12 => "m12"

abbrev Val (D : Doubles) : Transform2DField → Type
  | m00 => D.F
  | m01 => D.F
  | m02 => D.F
  | m10 => D.F
  | m11 => D.F
  | m12 => D.F

def read : ∀ f : Transform2DField, Json D.F → Except DecodeError (f.Val D)
  | m00 => D.read
  | m01 => D.read
  | m02 => D.read
  | m10 => D.read
  | m11 => D.read
  | m12 => D.read

def spec : Spec D.F Transform2DField :=
  .ofNodup [m00, m01, m02, m10, m11, m12] name (Val D) read true
    (by intro f; cases f <;> decide) (by decide)

end Transform2DField

namespace Transform2D

def build (s : (Transform2DField.spec (D := D)).Slots) : Except DecodeError (Transform2D D) := do
  let m00 ← Spec.require s .m00
  let m01 ← Spec.require s .m01
  let m02 ← Spec.require s .m02
  let m10 ← Spec.require s .m10
  let m11 ← Spec.require s .m11
  let m12 ← Spec.require s .m12
  return ⟨m00, m01, m02, m10, m11, m12⟩

def read : Json D.F → Except DecodeError (Transform2D D) :=
  Transform2DField.spec.readStruct "struct Transform2D" (fun _ => false) build

def slots (t : Transform2D D) : (Transform2DField.spec (D := D)).Slots
  | .m00 => some t.m00
  | .m01 => some t.m01
  | .m02 => some t.m02
  | .m10 => some t.m10
  | .m11 => some t.m11
  | .m12 => some t.m12

def write : ∀ f : Transform2DField, f.Val D → Json D.F
  | .m00 => D.write
  | .m01 => D.write
  | .m02 => D.write
  | .m10 => D.write
  | .m11 => D.write
  | .m12 => D.write

def encode (t : Transform2D D) : Json D.F := Transform2DField.spec.encode write t.slots

def numbers (t : Transform2D D) : List D.F := [t.m00, t.m01, t.m02, t.m10, t.m11, t.m12]

theorem read_encode {t : Transform2D D} (h : ∀ x ∈ t.numbers, D.Exact x) :
    read t.encode = .ok t := by
  refine Spec.read_encode (fun _ _ => rfl) ?_ rfl
  intro f v hv
  cases f <;> obtain rfl := Option.some.inj hv <;>
    exact Doubles.read_write (h _ (by simp [numbers]))

end Transform2D

/-- The numbers of a value that may be missing. -/
def numbersOf {α : Type} (numbers : α → List D.F) (value : Option α) : List D.F :=
  value.toList.flatMap numbers

theorem exact_of_some {α : Type} {numbers : α → List D.F} {value : Option α} {v : α}
    (hv : value = some v) (h : ∀ x ∈ numbersOf numbers value, D.Exact x) :
    ∀ x ∈ numbers v, D.Exact x := by
  intro x hx
  exact h x (List.mem_flatMap.2 ⟨v, Option.mem_toList.2 hv, hx⟩)

def listNumbers {α : Type} (numbers : α → List D.F) (list : ReturnedList α) : List D.F :=
  list.items.flatMap numbers

theorem readReturnedList_encode {α : Type} {read : Json D.F → Except DecodeError α}
    {encode : α → Json D.F} (numbers : α → List D.F)
    (hread : ∀ {v : α}, (∀ x ∈ numbers v, D.Exact x) → read (encode v) = .ok v)
    {list : ReturnedList α} (h : ∀ x ∈ listNumbers numbers list, D.Exact x) :
    readReturnedList read (writeBoundedList encode list) = .ok list :=
  readReturnedList_write fun item hitem =>
    hread fun x hx => h x (List.mem_flatMap.2 ⟨item, hitem, hx⟩)

/-! ## Closed sets of words -/

/-- How an image fills its shape. -/
inductive ImageScaleMode
  | fill | fit | crop | tile
deriving DecidableEq

namespace ImageScaleMode

def word : ImageScaleMode → String
  | fill => "fill"
  | fit => "fit"
  | crop => "crop"
  | tile => "tile"

def words : List (String × ImageScaleMode) :=
  [("fill", fill), ("fit", fit), ("crop", crop), ("tile", tile)]

theorem readWord_word {F : Type} (v : ImageScaleMode) :
    Json.readWord words (Json.writeWord v.word : Json F) = .ok v :=
  Json.readWord_writeWord (by decide) (by cases v <;> decide)

end ImageScaleMode

/-- The line under or through a text. -/
inductive TextDecoration
  | none | underline | strikethrough
deriving DecidableEq

namespace TextDecoration

def word : TextDecoration → String
  | none => "none"
  | underline => "underline"
  | strikethrough => "strikethrough"

def words : List (String × TextDecoration) :=
  [("none", none), ("underline", underline), ("strikethrough", strikethrough)]

theorem readWord_word {F : Type} (v : TextDecoration) :
    Json.readWord words (Json.writeWord v.word : Json F) = .ok v :=
  Json.readWord_writeWord (by decide) (by cases v <;> decide)

end TextDecoration

/-- Where the lines of a text are. -/
inductive TextAlignHorizontal
  | left | center | right | justified
deriving DecidableEq

namespace TextAlignHorizontal

def word : TextAlignHorizontal → String
  | left => "left"
  | center => "center"
  | right => "right"
  | justified => "justified"

def words : List (String × TextAlignHorizontal) :=
  [("left", left), ("center", center), ("right", right), ("justified", justified)]

theorem readWord_word {F : Type} (v : TextAlignHorizontal) :
    Json.readWord words (Json.writeWord v.word : Json F) = .ok v :=
  Json.readWord_writeWord (by decide) (by cases v <;> decide)

end TextAlignHorizontal

/-- Where a text is in its box. -/
inductive TextAlignVertical
  | top | center | bottom
deriving DecidableEq

namespace TextAlignVertical

def word : TextAlignVertical → String
  | top => "top"
  | center => "center"
  | bottom => "bottom"

def words : List (String × TextAlignVertical) :=
  [("top", top), ("center", center), ("bottom", bottom)]

theorem readWord_word {F : Type} (v : TextAlignVertical) :
    Json.readWord words (Json.writeWord v.word : Json F) = .ok v :=
  Json.readWord_writeWord (by decide) (by cases v <;> decide)

end TextAlignVertical

/-- How a text box grows. -/
inductive TextAutoResize
  | none | widthAndHeight | height | truncate
deriving DecidableEq

namespace TextAutoResize

def word : TextAutoResize → String
  | none => "none"
  | widthAndHeight => "widthAndHeight"
  | height => "height"
  | truncate => "truncate"

def words : List (String × TextAutoResize) :=
  [("none", none), ("widthAndHeight", widthAndHeight), ("height", height), ("truncate", truncate)]

theorem readWord_word {F : Type} (v : TextAutoResize) :
    Json.readWord words (Json.writeWord v.word : Json F) = .ok v :=
  Json.readWord_writeWord (by decide) (by cases v <;> decide)

end TextAutoResize

end FigmaDevMcp.Protocol

import FigmaDevMcp.Protocol.Values

set_option autoImplicit false

/-!
# Paints, effects and corners

Three closed unions of `common.rs`. A visitor gathers the members of all variants; the tag then
says which of them there must be and which there must not be.

* `PaintValue`, `EffectValue`, `CornerRadiusValue`: the unions;
* `slots_of_build`: what has been gathered is what the value is written from;
* `read_encode`, `closed`: the round trip, and the members of a variant.
-/

namespace FigmaDevMcp.Protocol

open Serde Tools

variable {D : Doubles}

/-- What a variant has not. -/
def rejectFields (present : Bool) (message : String) : Except DecodeError Unit :=
  if present then .error (.custom message) else .ok ()

theorem rejectFields_eq_ok {present : Bool} {message : String} {u : Unit} :
    rejectFields present message = .ok u ↔ present = false := by
  cases present with
  | false => exact ⟨fun _ => rfl, fun _ => rfl⟩
  | true =>
      constructor
      · intro h
        cases h
      · intro h
        cases h

theorem isSome_eq_false {α : Type} {o : Option α} : o.isSome = false ↔ o = none := by
  rw [Option.isSome_eq_false_iff, Option.isNone_iff_eq_none]

/-! ## Paints -/

/-- A paint. -/
inductive PaintValue (D : Doubles)
  | solid (color : Color D) (opacity : D.F)
  | linearGradient (stops : ReturnedList (GradientStop D)) (gradientTransform : Transform2D D)
      (opacity : D.F)
  | radialGradient (stops : ReturnedList (GradientStop D)) (gradientTransform : Transform2D D)
      (opacity : D.F)
  | angularGradient (stops : ReturnedList (GradientStop D)) (gradientTransform : Transform2D D)
      (opacity : D.F)
  | diamondGradient (stops : ReturnedList (GradientStop D)) (gradientTransform : Transform2D D)
      (opacity : D.F)
  | image (imageRef : Str) (scaleMode : ImageScaleMode) (opacity : D.F)
  | mixed
  | unsupported (figmaType : Str)

/-- The types of paints. -/
inductive PaintTag
  | solid | linearGradient | radialGradient | angularGradient | diamondGradient | image | mixed
  | unsupported
deriving DecidableEq

namespace PaintTag

def word : PaintTag → String
  | solid => "solid"
  | linearGradient => "linearGradient"
  | radialGradient => "radialGradient"
  | angularGradient => "angularGradient"
  | diamondGradient => "diamondGradient"
  | image => "image"
  | mixed => "mixed"
  | unsupported => "unsupported"

def words : List (String × PaintTag) :=
  [("solid", solid), ("linearGradient", linearGradient), ("radialGradient", radialGradient),
    ("angularGradient", angularGradient), ("diamondGradient", diamondGradient), ("image", image),
    ("mixed", mixed), ("unsupported", unsupported)]

theorem readWord_word {F : Type} (v : PaintTag) :
    Json.readWord words (Json.writeWord v.word : Json F) = .ok v :=
  Json.readWord_writeWord (by decide) (by cases v <;> decide)

end PaintTag

/-- The members of a paint, whatever its type. -/
inductive PaintField
  | type | color | opacity | stops | gradientTransform | imageRef | scaleMode | figmaType
deriving DecidableEq

namespace PaintField

def name : PaintField → String
  | type => "type"
  | color => "color"
  | opacity => "opacity"
  | stops => "stops"
  | gradientTransform => "gradientTransform"
  | imageRef => "imageRef"
  | scaleMode => "scaleMode"
  | figmaType => "figmaType"

abbrev Val (D : Doubles) : PaintField → Type
  | type => PaintTag
  | color => Color D
  | opacity => D.F
  | stops => ReturnedList (GradientStop D)
  | gradientTransform => Transform2D D
  | imageRef => Str
  | scaleMode => ImageScaleMode
  | figmaType => Str

def read : ∀ f : PaintField, Json D.F → Except DecodeError (f.Val D)
  | type => Json.readWord PaintTag.words
  | color => Color.read
  | opacity => D.read
  | stops => readReturnedList GradientStop.read
  | gradientTransform => Transform2D.read
  | imageRef => Json.readString
  | scaleMode => Json.readWord ImageScaleMode.words
  | figmaType => Json.readString

/-- In the order in which they are written. -/
def spec : Spec D.F PaintField :=
  .ofNodup [type, color, stops, gradientTransform, imageRef, scaleMode, opacity, figmaType]
    name (Val D) read false (by intro f; cases f <;> decide) (by decide)

end PaintField

namespace PaintValue

def gradient (s : (PaintField.spec (D := D)).Slots)
    (make : ReturnedList (GradientStop D) → Transform2D D → D.F → PaintValue D) :
    Except DecodeError (PaintValue D) := do
  rejectFields ((s .color).isSome || (s .imageRef).isSome || (s .scaleMode).isSome ||
    (s .figmaType).isSome) "gradient paint contains variant-only fields"
  let stops ← Spec.require s .stops
  let gradientTransform ← Spec.require s .gradientTransform
  let opacity ← Spec.require s .opacity
  return make stops gradientTransform opacity

def build (s : (PaintField.spec (D := D)).Slots) : Except DecodeError (PaintValue D) := do
  match ← Spec.require s .type with
  | .solid => do
    rejectFields ((s .stops).isSome || (s .gradientTransform).isSome || (s .imageRef).isSome ||
      (s .scaleMode).isSome || (s .figmaType).isSome) "solid paint contains variant-only fields"
    let color ← Spec.require s .color
    let opacity ← Spec.require s .opacity
    return .solid color opacity
  | .linearGradient => gradient s .linearGradient
  | .radialGradient => gradient s .radialGradient
  | .angularGradient => gradient s .angularGradient
  | .diamondGradient => gradient s .diamondGradient
  | .image => do
    rejectFields ((s .color).isSome || (s .stops).isSome || (s .gradientTransform).isSome ||
      (s .figmaType).isSome) "image paint contains variant-only fields"
    let imageRef ← Spec.require s .imageRef
    let scaleMode ← Spec.require s .scaleMode
    let opacity ← Spec.require s .opacity
    return .image imageRef scaleMode opacity
  | .mixed => do
    rejectFields ((s .color).isSome || (s .opacity).isSome || (s .stops).isSome ||
      (s .gradientTransform).isSome || (s .imageRef).isSome || (s .scaleMode).isSome ||
      (s .figmaType).isSome) "mixed paint cannot contain payload fields"
    return .mixed
  | .unsupported => do
    rejectFields ((s .color).isSome || (s .opacity).isSome || (s .stops).isSome ||
      (s .gradientTransform).isSome || (s .imageRef).isSome || (s .scaleMode).isSome)
      "unsupported paint cannot contain payload fields"
    let figmaType ← Spec.require s .figmaType
    return .unsupported figmaType

def read : Json D.F → Except DecodeError (PaintValue D) :=
  Json.visitMap "a closed paint value" fun members => PaintField.spec.visitMap members >>= build

def variant : PaintValue D → PaintTag
  | solid _ _ => .solid
  | linearGradient _ _ _ => .linearGradient
  | radialGradient _ _ _ => .radialGradient
  | angularGradient _ _ _ => .angularGradient
  | diamondGradient _ _ _ => .diamondGradient
  | image _ _ _ => .image
  | mixed => .mixed
  | unsupported _ => .unsupported

/-- The members of a variant. -/
def required : PaintTag → List PaintField
  | .solid => [.color, .opacity]
  | .linearGradient | .radialGradient | .angularGradient | .diamondGradient =>
    [.stops, .gradientTransform, .opacity]
  | .image => [.imageRef, .scaleMode, .opacity]
  | .mixed => []
  | .unsupported => [.figmaType]

def color : PaintValue D → Option (Color D)
  | solid color _ => some color
  | _ => none

def stops : PaintValue D → Option (ReturnedList (GradientStop D))
  | linearGradient stops _ _ | radialGradient stops _ _ | angularGradient stops _ _
  | diamondGradient stops _ _ => some stops
  | _ => none

def gradientTransform : PaintValue D → Option (Transform2D D)
  | linearGradient _ t _ | radialGradient _ t _ | angularGradient _ t _ | diamondGradient _ t _ =>
    some t
  | _ => none

def imageRef : PaintValue D → Option Str
  | image imageRef _ _ => some imageRef
  | _ => none

def scaleMode : PaintValue D → Option ImageScaleMode
  | image _ scaleMode _ => some scaleMode
  | _ => none

def opacity : PaintValue D → Option D.F
  | solid _ opacity | linearGradient _ _ opacity | radialGradient _ _ opacity
  | angularGradient _ _ opacity | diamondGradient _ _ opacity | image _ _ opacity => some opacity
  | _ => none

def figmaType : PaintValue D → Option Str
  | unsupported figmaType => some figmaType
  | _ => none

def slots (v : PaintValue D) : (PaintField.spec (D := D)).Slots
  | .type => some v.variant
  | .color => v.color
  | .opacity => v.opacity
  | .stops => v.stops
  | .gradientTransform => v.gradientTransform
  | .imageRef => v.imageRef
  | .scaleMode => v.scaleMode
  | .figmaType => v.figmaType

def write : ∀ f : PaintField, f.Val D → Json D.F
  | .type => fun tag => Json.writeWord tag.word
  | .color => Color.encode
  | .opacity => D.write
  | .stops => writeBoundedList GradientStop.encode
  | .gradientTransform => Transform2D.encode
  | .imageRef => Json.writeString
  | .scaleMode => fun mode => Json.writeWord mode.word
  | .figmaType => Json.writeString

def encode (v : PaintValue D) : Json D.F := PaintField.spec.encode write v.slots

def numbers (v : PaintValue D) : List D.F :=
  numbersOf Color.numbers v.color ++ numbersOf (listNumbers GradientStop.numbers) v.stops ++
    numbersOf Transform2D.numbers v.gradientTransform ++ numbersOf ([·]) v.opacity

theorem build_slots (v : PaintValue D) : build v.slots = .ok v := by
  cases v <;> rfl

theorem read_encode {v : PaintValue D} (h : ∀ x ∈ v.numbers, D.Exact x) :
    read v.encode = .ok v := by
  simp only [numbers, List.forall_mem_append] at h
  obtain ⟨⟨⟨hcolor, hstops⟩, htransform⟩, hopacity⟩ := h
  refine Spec.read_encode (fun _ _ => rfl) ?_ (build_slots v)
  intro f x hx
  cases f with
  | type => exact PaintTag.readWord_word (F := D.F) x
  | color => exact Color.read_encode (exact_of_some hx hcolor)
  | opacity => exact Doubles.read_write (exact_of_some hx hopacity x List.mem_cons_self)
  | stops => exact readReturnedList_encode _ GradientStop.read_encode (exact_of_some hx hstops)
  | gradientTransform => exact Transform2D.read_encode (exact_of_some hx htransform)
  | imageRef => rfl
  | scaleMode => exact ImageScaleMode.readWord_word (F := D.F) x
  | figmaType => rfl

theorem slots_of_gradient {s : (PaintField.spec (D := D)).Slots}
    {make : ReturnedList (GradientStop D) → Transform2D D → D.F → PaintValue D} {v : PaintValue D}
    (h : gradient s make = .ok v) :
    (s .color = none ∧ s .imageRef = none ∧ s .scaleMode = none ∧ s .figmaType = none) ∧
      ∃ stops t opacity, s .stops = some stops ∧ s .gradientTransform = some t ∧
        s .opacity = some opacity ∧ v = make stops t opacity := by
  simp only [gradient, Guard.bind_eq_ok, rejectFields_eq_ok, exists_const, Bool.or_eq_false_iff,
    isSome_eq_false, Spec.require_eq_ok, Guard.pure_eq_ok] at h
  obtain ⟨⟨⟨⟨hcolor, himage⟩, hscale⟩, hfigma⟩, stops, hstops, t, ht, opacity, hopacity, rfl⟩ := h
  exact ⟨⟨hcolor, himage, hscale, hfigma⟩, stops, t, opacity, hstops, ht, hopacity, rfl⟩

theorem slots_of_build {s : (PaintField.spec (D := D)).Slots} {v : PaintValue D}
    (h : build s = .ok v) : s = v.slots := by
  obtain ⟨tag, htag, h⟩ := Guard.bind_eq_ok.1 h
  rw [Spec.require_eq_ok] at htag
  cases tag with
  | solid =>
      simp only [rejectFields_eq_ok, exists_const, Guard.bind_eq_ok, Bool.or_eq_false_iff,
        isSome_eq_false, Spec.require_eq_ok, Guard.pure_eq_ok] at h
      obtain ⟨⟨⟨⟨⟨hstops, ht⟩, himage⟩, hscale⟩, hfigma⟩, color, hcolor, opacity, hopacity, rfl⟩ := h
      funext f
      cases f <;> assumption
  | linearGradient | radialGradient | angularGradient | diamondGradient =>
      obtain ⟨⟨hcolor, himage, hscale, hfigma⟩, stops, t, opacity, hstops, ht, hopacity, rfl⟩ :=
        slots_of_gradient h
      funext f
      cases f <;> assumption
  | image =>
      simp only [rejectFields_eq_ok, exists_const, Guard.bind_eq_ok, Bool.or_eq_false_iff,
        isSome_eq_false, Spec.require_eq_ok, Guard.pure_eq_ok] at h
      obtain ⟨⟨⟨⟨hcolor, hstops⟩, ht⟩, hfigma⟩, imageRef, himage, scaleMode, hscale, opacity,
        hopacity, rfl⟩ := h
      funext f
      cases f <;> assumption
  | mixed =>
      simp only [rejectFields_eq_ok, exists_const, Guard.bind_eq_ok, Bool.or_eq_false_iff,
        isSome_eq_false, Guard.pure_eq_ok] at h
      obtain ⟨⟨⟨⟨⟨⟨⟨hcolor, hopacity⟩, hstops⟩, ht⟩, himage⟩, hscale⟩, hfigma⟩, rfl⟩ := h
      funext f
      cases f <;> assumption
  | unsupported =>
      simp only [rejectFields_eq_ok, exists_const, Guard.bind_eq_ok, Bool.or_eq_false_iff,
        isSome_eq_false, Spec.require_eq_ok, Guard.pure_eq_ok] at h
      obtain ⟨⟨⟨⟨⟨⟨hcolor, hopacity⟩, hstops⟩, ht⟩, himage⟩, hscale⟩, figmaType, hfigma, rfl⟩ := h
      funext f
      cases f <;> assumption

theorem isSome_slots (v : PaintValue D) (f : PaintField) :
    (v.slots f).isSome = (PaintField.type :: required v.variant).contains f := by
  cases v <;> cases f <;> rfl

theorem closed :
    PaintField.spec.Closed .type required (fun _ => []) variant (read (D := D)) := by
  refine Spec.closed (fun _ _ => rfl) ?_
  intro s v h
  obtain rfl := slots_of_build h
  exact .of_contains rfl v.isSome_slots

end PaintValue

/-! ## Effects -/

/-- An effect. -/
inductive EffectValue (D : Doubles)
  | dropShadow (color : Color D) (offsetX offsetY radius spread : D.F)
  | innerShadow (color : Color D) (offsetX offsetY radius spread : D.F)
  | layerBlur (radius : D.F)
  | backgroundBlur (radius : D.F)
  | unsupported (figmaType : Str)

/-- The types of effects. -/
inductive EffectTag
  | dropShadow | innerShadow | layerBlur | backgroundBlur | unsupported
deriving DecidableEq

namespace EffectTag

def word : EffectTag → String
  | dropShadow => "dropShadow"
  | innerShadow => "innerShadow"
  | layerBlur => "layerBlur"
  | backgroundBlur => "backgroundBlur"
  | unsupported => "unsupported"

def words : List (String × EffectTag) :=
  [("dropShadow", dropShadow), ("innerShadow", innerShadow), ("layerBlur", layerBlur),
    ("backgroundBlur", backgroundBlur), ("unsupported", unsupported)]

theorem readWord_word {F : Type} (v : EffectTag) :
    Json.readWord words (Json.writeWord v.word : Json F) = .ok v :=
  Json.readWord_writeWord (by decide) (by cases v <;> decide)

end EffectTag

/-- The members of an effect, whatever its type. -/
inductive EffectField
  | type | color | offsetX | offsetY | radius | spread | figmaType
deriving DecidableEq

namespace EffectField

def name : EffectField → String
  | type => "type"
  | color => "color"
  | offsetX => "offsetX"
  | offsetY => "offsetY"
  | radius => "radius"
  | spread => "spread"
  | figmaType => "figmaType"

abbrev Val (D : Doubles) : EffectField → Type
  | type => EffectTag
  | color => Color D
  | offsetX => D.F
  | offsetY => D.F
  | radius => D.F
  | spread => D.F
  | figmaType => Str

def read : ∀ f : EffectField, Json D.F → Except DecodeError (f.Val D)
  | type => Json.readWord EffectTag.words
  | color => Color.read
  | offsetX => D.read
  | offsetY => D.read
  | radius => D.read
  | spread => D.read
  | figmaType => Json.readString

def spec : Spec D.F EffectField :=
  .ofNodup [type, color, offsetX, offsetY, radius, spread, figmaType] name (Val D) read false
    (by intro f; cases f <;> decide) (by decide)

end EffectField

namespace EffectValue

def shadow (s : (EffectField.spec (D := D)).Slots)
    (make : Color D → D.F → D.F → D.F → D.F → EffectValue D) :
    Except DecodeError (EffectValue D) := do
  rejectFields (s .figmaType).isSome "shadow effect cannot name a figma type"
  let color ← Spec.require s .color
  let offsetX ← Spec.require s .offsetX
  let offsetY ← Spec.require s .offsetY
  let radius ← Spec.require s .radius
  let spread ← Spec.require s .spread
  return make color offsetX offsetY radius spread

def blur (s : (EffectField.spec (D := D)).Slots) (make : D.F → EffectValue D) :
    Except DecodeError (EffectValue D) := do
  rejectFields ((s .color).isSome || (s .offsetX).isSome || (s .offsetY).isSome ||
    (s .spread).isSome || (s .figmaType).isSome) "effect contains fields its variant does not carry"
  let radius ← Spec.require s .radius
  return make radius

def build (s : (EffectField.spec (D := D)).Slots) : Except DecodeError (EffectValue D) := do
  match ← Spec.require s .type with
  | .dropShadow => shadow s .dropShadow
  | .innerShadow => shadow s .innerShadow
  | .layerBlur => blur s .layerBlur
  | .backgroundBlur => blur s .backgroundBlur
  | .unsupported => do
    rejectFields ((s .color).isSome || (s .offsetX).isSome || (s .offsetY).isSome ||
      (s .radius).isSome || (s .spread).isSome) "unsupported effect cannot contain payload fields"
    let figmaType ← Spec.require s .figmaType
    return .unsupported figmaType

def read : Json D.F → Except DecodeError (EffectValue D) :=
  Json.visitMap "a closed effect value" fun members => EffectField.spec.visitMap members >>= build

def variant : EffectValue D → EffectTag
  | dropShadow _ _ _ _ _ => .dropShadow
  | innerShadow _ _ _ _ _ => .innerShadow
  | layerBlur _ => .layerBlur
  | backgroundBlur _ => .backgroundBlur
  | unsupported _ => .unsupported

def required : EffectTag → List EffectField
  | .dropShadow | .innerShadow => [.color, .offsetX, .offsetY, .radius, .spread]
  | .layerBlur | .backgroundBlur => [.radius]
  | .unsupported => [.figmaType]

def color : EffectValue D → Option (Color D)
  | dropShadow color _ _ _ _ | innerShadow color _ _ _ _ => some color
  | _ => none

def offsetX : EffectValue D → Option D.F
  | dropShadow _ x _ _ _ | innerShadow _ x _ _ _ => some x
  | _ => none

def offsetY : EffectValue D → Option D.F
  | dropShadow _ _ y _ _ | innerShadow _ _ y _ _ => some y
  | _ => none

def radius : EffectValue D → Option D.F
  | dropShadow _ _ _ radius _ | innerShadow _ _ _ radius _ | layerBlur radius
  | backgroundBlur radius => some radius
  | _ => none

def spread : EffectValue D → Option D.F
  | dropShadow _ _ _ _ spread | innerShadow _ _ _ _ spread => some spread
  | _ => none

def figmaType : EffectValue D → Option Str
  | unsupported figmaType => some figmaType
  | _ => none

def slots (v : EffectValue D) : (EffectField.spec (D := D)).Slots
  | .type => some v.variant
  | .color => v.color
  | .offsetX => v.offsetX
  | .offsetY => v.offsetY
  | .radius => v.radius
  | .spread => v.spread
  | .figmaType => v.figmaType

def write : ∀ f : EffectField, f.Val D → Json D.F
  | .type => fun tag => Json.writeWord tag.word
  | .color => Color.encode
  | .offsetX => D.write
  | .offsetY => D.write
  | .radius => D.write
  | .spread => D.write
  | .figmaType => Json.writeString

def encode (v : EffectValue D) : Json D.F := EffectField.spec.encode write v.slots

def numbers (v : EffectValue D) : List D.F :=
  numbersOf Color.numbers v.color ++ numbersOf ([·]) v.offsetX ++ numbersOf ([·]) v.offsetY ++
    numbersOf ([·]) v.radius ++ numbersOf ([·]) v.spread

theorem build_slots (v : EffectValue D) : build v.slots = .ok v := by
  cases v <;> rfl

theorem read_encode {v : EffectValue D} (h : ∀ x ∈ v.numbers, D.Exact x) :
    read v.encode = .ok v := by
  simp only [numbers, List.forall_mem_append] at h
  obtain ⟨⟨⟨⟨hcolor, hx⟩, hy⟩, hradius⟩, hspread⟩ := h
  refine Spec.read_encode (fun _ _ => rfl) ?_ (build_slots v)
  intro f w hw
  cases f with
  | type => exact EffectTag.readWord_word (F := D.F) w
  | color => exact Color.read_encode (exact_of_some hw hcolor)
  | offsetX => exact Doubles.read_write (exact_of_some hw hx w List.mem_cons_self)
  | offsetY => exact Doubles.read_write (exact_of_some hw hy w List.mem_cons_self)
  | radius => exact Doubles.read_write (exact_of_some hw hradius w List.mem_cons_self)
  | spread => exact Doubles.read_write (exact_of_some hw hspread w List.mem_cons_self)
  | figmaType => rfl

theorem slots_of_build {s : (EffectField.spec (D := D)).Slots} {v : EffectValue D}
    (h : build s = .ok v) : s = v.slots := by
  obtain ⟨tag, htag, h⟩ := Guard.bind_eq_ok.1 h
  rw [Spec.require_eq_ok] at htag
  cases tag with
  | dropShadow | innerShadow =>
      simp only [shadow, rejectFields_eq_ok, exists_const, Guard.bind_eq_ok, isSome_eq_false,
        Spec.require_eq_ok, Guard.pure_eq_ok] at h
      obtain ⟨hfigma, color, hcolor, x, hx, y, hy, radius, hradius, spread, hspread, rfl⟩ := h
      funext f
      cases f <;> assumption
  | layerBlur | backgroundBlur =>
      simp only [blur, rejectFields_eq_ok, exists_const, Guard.bind_eq_ok, Bool.or_eq_false_iff,
        isSome_eq_false, Spec.require_eq_ok, Guard.pure_eq_ok] at h
      obtain ⟨⟨⟨⟨⟨hcolor, hx⟩, hy⟩, hspread⟩, hfigma⟩, radius, hradius, rfl⟩ := h
      funext f
      cases f <;> assumption
  | unsupported =>
      simp only [rejectFields_eq_ok, exists_const, Guard.bind_eq_ok, Bool.or_eq_false_iff,
        isSome_eq_false, Spec.require_eq_ok, Guard.pure_eq_ok] at h
      obtain ⟨⟨⟨⟨⟨hcolor, hx⟩, hy⟩, hradius⟩, hspread⟩, figmaType, hfigma, rfl⟩ := h
      funext f
      cases f <;> assumption

theorem isSome_slots (v : EffectValue D) (f : EffectField) :
    (v.slots f).isSome = (EffectField.type :: required v.variant).contains f := by
  cases v <;> cases f <;> rfl

theorem closed :
    EffectField.spec.Closed .type required (fun _ => []) variant (read (D := D)) := by
  refine Spec.closed (fun _ _ => rfl) ?_
  intro s v h
  obtain rfl := slots_of_build h
  exact .of_contains rfl v.isSome_slots

end EffectValue

/-! ## Corners -/

/-- The radius of the corners, one for all or one for each. -/
inductive CornerRadiusValue (D : Doubles)
  | uniform (radius : D.F)
  | perCorner (topLeft topRight bottomRight bottomLeft : D.F)

/-- The kinds of radii. -/
inductive CornerRadiusTag
  | uniform | perCorner
deriving DecidableEq

namespace CornerRadiusTag

def word : CornerRadiusTag → String
  | uniform => "uniform"
  | perCorner => "perCorner"

def words : List (String × CornerRadiusTag) :=
  [("uniform", uniform), ("perCorner", perCorner)]

theorem readWord_word {F : Type} (v : CornerRadiusTag) :
    Json.readWord words (Json.writeWord v.word : Json F) = .ok v :=
  Json.readWord_writeWord (by decide) (by cases v <;> decide)

end CornerRadiusTag

/-- The members of a radius, whatever its kind. -/
inductive CornerRadiusField
  | kind | radius | topLeft | topRight | bottomRight | bottomLeft
deriving DecidableEq

namespace CornerRadiusField

def name : CornerRadiusField → String
  | kind => "kind"
  | radius => "radius"
  | topLeft => "topLeft"
  | topRight => "topRight"
  | bottomRight => "bottomRight"
  | bottomLeft => "bottomLeft"

abbrev Val (D : Doubles) : CornerRadiusField → Type
  | kind => CornerRadiusTag
  | radius => D.F
  | topLeft => D.F
  | topRight => D.F
  | bottomRight => D.F
  | bottomLeft => D.F

def read : ∀ f : CornerRadiusField, Json D.F → Except DecodeError (f.Val D)
  | kind => Json.readWord CornerRadiusTag.words
  | radius => D.read
  | topLeft => D.read
  | topRight => D.read
  | bottomRight => D.read
  | bottomLeft => D.read

def spec : Spec D.F CornerRadiusField :=
  .ofNodup [kind, radius, topLeft, topRight, bottomRight, bottomLeft] name (Val D) read false
    (by intro f; cases f <;> decide) (by decide)

end CornerRadiusField

namespace CornerRadiusValue

def build (s : (CornerRadiusField.spec (D := D)).Slots) :
    Except DecodeError (CornerRadiusValue D) := do
  match ← Spec.require s .kind with
  | .uniform => do
    rejectFields ((s .topLeft).isSome || (s .topRight).isSome || (s .bottomRight).isSome ||
      (s .bottomLeft).isSome) "uniform corner radius contains variant-only fields"
    let radius ← Spec.require s .radius
    return .uniform radius
  | .perCorner => do
    rejectFields (s .radius).isSome "per-corner radius contains variant-only fields"
    let topLeft ← Spec.require s .topLeft
    let topRight ← Spec.require s .topRight
    let bottomRight ← Spec.require s .bottomRight
    let bottomLeft ← Spec.require s .bottomLeft
    return .perCorner topLeft topRight bottomRight bottomLeft

def read : Json D.F → Except DecodeError (CornerRadiusValue D) :=
  Json.visitMap "a closed corner radius value" fun members =>
    CornerRadiusField.spec.visitMap members >>= build

def variant : CornerRadiusValue D → CornerRadiusTag
  | uniform _ => .uniform
  | perCorner _ _ _ _ => .perCorner

def required : CornerRadiusTag → List CornerRadiusField
  | .uniform => [.radius]
  | .perCorner => [.topLeft, .topRight, .bottomRight, .bottomLeft]

def radius : CornerRadiusValue D → Option D.F
  | uniform radius => some radius
  | perCorner _ _ _ _ => none

def topLeft : CornerRadiusValue D → Option D.F
  | uniform _ => none
  | perCorner x _ _ _ => some x

def topRight : CornerRadiusValue D → Option D.F
  | uniform _ => none
  | perCorner _ x _ _ => some x

def bottomRight : CornerRadiusValue D → Option D.F
  | uniform _ => none
  | perCorner _ _ x _ => some x

def bottomLeft : CornerRadiusValue D → Option D.F
  | uniform _ => none
  | perCorner _ _ _ x => some x

def slots (v : CornerRadiusValue D) : (CornerRadiusField.spec (D := D)).Slots
  | .kind => some v.variant
  | .radius => v.radius
  | .topLeft => v.topLeft
  | .topRight => v.topRight
  | .bottomRight => v.bottomRight
  | .bottomLeft => v.bottomLeft

def write : ∀ f : CornerRadiusField, f.Val D → Json D.F
  | .kind => fun tag => Json.writeWord tag.word
  | .radius => D.write
  | .topLeft => D.write
  | .topRight => D.write
  | .bottomRight => D.write
  | .bottomLeft => D.write

def encode (v : CornerRadiusValue D) : Json D.F := CornerRadiusField.spec.encode write v.slots

def numbers (v : CornerRadiusValue D) : List D.F :=
  numbersOf ([·]) v.radius ++ numbersOf ([·]) v.topLeft ++ numbersOf ([·]) v.topRight ++
    numbersOf ([·]) v.bottomRight ++ numbersOf ([·]) v.bottomLeft

theorem build_slots (v : CornerRadiusValue D) : build v.slots = .ok v := by
  cases v <;> rfl

theorem read_encode {v : CornerRadiusValue D} (h : ∀ x ∈ v.numbers, D.Exact x) :
    read v.encode = .ok v := by
  simp only [numbers, List.forall_mem_append] at h
  obtain ⟨⟨⟨⟨hradius, h₁⟩, h₂⟩, h₃⟩, h₄⟩ := h
  refine Spec.read_encode (fun _ _ => rfl) ?_ (build_slots v)
  intro f w hw
  cases f with
  | kind => exact CornerRadiusTag.readWord_word (F := D.F) w
  | radius => exact Doubles.read_write (exact_of_some hw hradius w List.mem_cons_self)
  | topLeft => exact Doubles.read_write (exact_of_some hw h₁ w List.mem_cons_self)
  | topRight => exact Doubles.read_write (exact_of_some hw h₂ w List.mem_cons_self)
  | bottomRight => exact Doubles.read_write (exact_of_some hw h₃ w List.mem_cons_self)
  | bottomLeft => exact Doubles.read_write (exact_of_some hw h₄ w List.mem_cons_self)

theorem slots_of_build {s : (CornerRadiusField.spec (D := D)).Slots} {v : CornerRadiusValue D}
    (h : build s = .ok v) : s = v.slots := by
  obtain ⟨tag, htag, h⟩ := Guard.bind_eq_ok.1 h
  rw [Spec.require_eq_ok] at htag
  cases tag with
  | uniform =>
      simp only [rejectFields_eq_ok, exists_const, Guard.bind_eq_ok, Bool.or_eq_false_iff,
        isSome_eq_false, Spec.require_eq_ok, Guard.pure_eq_ok] at h
      obtain ⟨⟨⟨⟨h₁, h₂⟩, h₃⟩, h₄⟩, radius, hradius, rfl⟩ := h
      funext f
      cases f <;> assumption
  | perCorner =>
      simp only [rejectFields_eq_ok, exists_const, Guard.bind_eq_ok, isSome_eq_false,
        Spec.require_eq_ok, Guard.pure_eq_ok] at h
      obtain ⟨hradius, _, h₁, _, h₂, _, h₃, _, h₄, rfl⟩ := h
      funext f
      cases f <;> assumption

theorem isSome_slots (v : CornerRadiusValue D) (f : CornerRadiusField) :
    (v.slots f).isSome = (CornerRadiusField.kind :: required v.variant).contains f := by
  cases v <;> cases f <;> rfl

theorem closed :
    CornerRadiusField.spec.Closed .kind required (fun _ => []) variant (read (D := D)) := by
  refine Spec.closed (fun _ _ => rfl) ?_
  intro s v h
  obtain rfl := slots_of_build h
  exact .of_contains rfl v.isSome_slots

end CornerRadiusValue

end FigmaDevMcp.Protocol

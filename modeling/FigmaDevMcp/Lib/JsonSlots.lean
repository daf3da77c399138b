import FigmaDevMcp.Lib.JsonTold

set_option autoImplicit false

/-!
# Objects that are told of

A value has a text that a deserializer takes just where no surrogate of it is alone. The text of an
object is told of member by member, as a serializer writes it.

* `Paired`, `told_isSome_iff`: the values that are told of;
* `told_word`, `told_unsigned`: the leaves that a serializer writes as well;
* `toldMembers_append`, `toldItems_map`: an object or an array, from its parts.
-/

namespace JsValue

open Serde Utf16

mutual

/-- No surrogate of what has a text is alone. -/
def Paired : JsValue → Prop
  | .string s => PairedSurrogates s
  | .array items => PairedItems items
  | .object members => PairedMembers members
  | _ => True

/-- The same for the items of an array. -/
def PairedItems : List JsValue → Prop
  | [] => True
  | item :: rest => Paired item ∧ PairedItems rest

/-- The same for the members of an object that have a text. -/
def PairedMembers : List (List ℕ × JsValue) → Prop
  | [] => True
  | (key, value) :: rest =>
    (value.hasText = true → PairedSurrogates key ∧ Paired value) ∧ PairedMembers rest

end

theorem wellFormed_encode (cs : List Char) : WellFormed (encode (cs.map Char.toNat)) := by
  induction cs with
  | nil => exact wellFormed_ascii (List.forall_mem_nil _)
  | cons c cs ih =>
      rw [List.map_cons, encode_cons]
      exact (wellFormed_encodeOne (isScalar_toNat c)).append ih

/-- The characters of a string of units. -/
theorem exists_encode {s : List ℕ} (hs : Units s) (h : PairedSurrogates s) :
    ∃ cs : List Char, encode (cs.map Char.toNat) = s := by
  have hwell : WellFormed s := ⟨hs, h⟩
  obtain ⟨bytes, hbytes⟩ := hwell.exists_utf8
  obtain ⟨cs, hcs, -⟩ := Option.map_eq_some_iff.1 hbytes
  exact ⟨cs, encode_of_chars hs hcs⟩

theorem chars_isSome_iff {s : List ℕ} (hs : Units s) : (chars s).isSome = true ↔ PairedSurrogates s := by
  constructor
  · intro h
    obtain ⟨cs, hcs⟩ := Option.isSome_iff_exists.1 h
    rw [← encode_of_chars hs hcs]
    exact (wellFormed_encode cs).paired
  · intro h
    obtain ⟨cs, rfl⟩ := exists_encode hs h
    rw [chars_encode]
    rfl

theorem toNat_ofNat {n : ℕ} (h : n < 0x80) : (Char.ofNat n).toNat = n := by
  have hvalid : n.isValidChar := Or.inl (by omega)
  rw [Char.ofNat, dif_pos hvalid]
  rfl

theorem encode_ascii {s : List ℕ} (h : ∀ u ∈ s, u < 0x80) : encode s = s := by
  induction s with
  | nil => rfl
  | cons u s ih =>
      obtain ⟨hu, hs⟩ := List.forall_mem_cons.1 h
      rw [encode_cons, encodeOne_of_lt (by omega), ih hs]
      rfl

theorem isSome_bind_map {α β γ : Type} {x : Option α} {y : Option β} {f : α → β → γ} :
    (x.bind fun a => y.map (f a)).isSome = true ↔ x.isSome = true ∧ y.isSome = true := by
  cases x <;> cases y <;> simp

section

variable {F : Type} (float : ℚ → F)

mutual

/-- **A value is told of** just where no surrogate is alone. -/
theorem told_isSome_iff : ∀ v : JsValue, OfUnits v → v.hasText = true →
    ((told float v).isSome = true ↔ Paired v)
  | .undefined, _, h | .symbol, _, h | .method _, _, h => by cases h
  | .null, _, _ | .bool _, _, _ | .number .nan, _, _ | .number (.infinite _), _, _
  | .number (.finite _), _, _ => ⟨fun _ => trivial, fun _ => rfl⟩
  | .string s, hs, _ => by
      rw [told, Option.isSome_map, Paired]
      exact chars_isSome_iff hs
  | .array items, hitems, _ => by
      rw [told, Option.isSome_map, Paired]
      exact toldItems_isSome_iff items hitems
  | .object members, hmembers, _ => by
      rw [told, Option.isSome_map, Paired]
      exact toldMembers_isSome_iff members hmembers

theorem toldItems_isSome_iff : ∀ items : List JsValue, OfUnitsItems items →
    ((toldItems float items).isSome = true ↔ PairedItems items)
  | [], _ => ⟨fun _ => trivial, fun _ => rfl⟩
  | item :: rest, hitems => by
      rw [toldItems, isSome_bind_map, PairedItems, toldItems_isSome_iff rest hitems.2]
      refine and_congr ?_ Iff.rfl
      cases htext : item.hasText with
      | true => exact told_isSome_iff item hitems.1 htext
      | false =>
          refine ⟨fun _ => ?_, fun _ => rfl⟩
          cases item <;> trivial

theorem toldMembers_isSome_iff : ∀ members : List (List ℕ × JsValue), OfUnitsMembers members →
    ((toldMembers float members).isSome = true ↔ PairedMembers members)
  | [], _ => ⟨fun _ => trivial, fun _ => rfl⟩
  | (key, value) :: rest, hmembers => by
      have ih := toldMembers_isSome_iff rest hmembers.2.2
      rw [toldMembers, PairedMembers]
      cases htext : value.hasText with
      | false =>
          rw [← ih]
          exact ⟨fun h => ⟨(absurd · Bool.false_ne_true), h⟩, fun h => h.2⟩
      | true =>
          rw [if_pos rfl, ← ih, ← chars_isSome_iff hmembers.1, ← told_isSome_iff value hmembers.2.1 htext]
          cases chars key <;> cases told float value <;> cases toldMembers float rest <;> simp

end

/-! ## Leaves -/

theorem told_chars (cs : List Char) :
    told float (.string (encode (cs.map Char.toNat))) = some (Json.writeString cs) :=
  told_string float rfl

theorem told_word {name : String} (h : Bare name) :
    told float (.string (ofString name)) = some (Json.writeWord name) := by
  rw [ofString, told_chars, Json.writeString, h]
  rfl

/-- Both sides write as many digits. -/
theorem length_decimal (n : ℕ) : (NumberText.decimal n).length = (Nat.repr n).length := by
  by_cases h : n = 0
  · rw [h]
    rfl
  · have hpos : 0 < (Nat.digits 10 n).length := by
      apply List.length_pos_of_ne_nil
      rwa [Ne, Nat.digits_eq_nil_iff_eq_zero]
    rw [NumberText.decimal, if_neg h, List.length_reverse, List.length_map]
    apply Nat.le_antisymm
    · exact (Nat.digits_length_le_iff (by decide) n).2 ((Nat.length_repr_le_iff Nat.length_repr_pos).1 le_rfl)
    · exact (Nat.length_repr_le_iff hpos).2 ((Nat.digits_length_le_iff (by decide) n).1 le_rfl)

theorem told_unsigned {bits n : ℕ} (h : n < 2 ^ bits) (hsafe : n < 2 ^ 53) :
    told float (rational n) = some (Json.writeUnsigned (⟨n, h⟩ : Fin (2 ^ bits))) := by
  rw [told_natural float hsafe, length_decimal]
  rfl

/-! ## Members -/

theorem told_hasText {value : JsValue} {json : Json F} (h : told float value = some json) :
    value.hasText = true := by
  cases value <;> first | rfl | cases h

theorem toldMembers_single {name : String} (hname : Bare name) {value : JsValue} {json : Json F}
    (h : told float value = some json) :
    toldMembers float [(ofString name, value)] = some [(⟨name.utf8ByteSize, name⟩, json)] := by
  rw [toldMembers_cons float hname (told_hasText float h), h]
  rfl

theorem toldMembers_append {l r : List (List ℕ × JsValue)} {ls rs : List (Serde.Member F)}
    (hl : toldMembers float l = some ls) (hr : toldMembers float r = some rs) :
    toldMembers float (l ++ r) = some (ls ++ rs) := by
  induction l generalizing ls with
  | nil =>
      obtain rfl := Option.some.inj hl
      exact hr
  | cons m l ih =>
      obtain ⟨key, value⟩ := m
      rw [List.cons_append, toldMembers]
      rw [toldMembers] at hl
      split_ifs at hl ⊢ with htext
      · obtain ⟨name, hname, hl⟩ := Option.bind_eq_some_iff.1 hl
        obtain ⟨json, hjson, hl⟩ := Option.bind_eq_some_iff.1 hl
        obtain ⟨rest, hrest, rfl⟩ := Option.map_eq_some_iff.1 hl
        rw [hname, Option.bind_some, hjson, Option.bind_some, ih hrest]
        rfl
      · exact ih hl

/-- Items that each are written. -/
theorem toldItems_map {α : Type} {js : α → JsValue} {write : α → Json F} {items : List α}
    (h : ∀ a ∈ items, told float (js a) = some (write a)) :
    toldItems float (items.map js) = some (items.map write) := by
  induction items with
  | nil => rfl
  | cons a items ih =>
      obtain ⟨hfirst, hrest⟩ := List.forall_mem_cons.1 h
      rw [List.map_cons, toldItems, if_pos (told_hasText float hfirst), hfirst, Option.bind_some,
        ih hrest]
      rfl

end

end JsValue

import FigmaDevMcp.Lib.JsonUnits
import FigmaDevMcp.Lib.SerdeWrite

set_option autoImplicit false

/-!
# What a deserializer is told of a value

A program writes a value with `JSON.stringify`, and another one reads the text into its own types.
A string with a lone surrogate has a text, but no deserializer takes it for a string.

* `told`: the text of a value, as a deserializer is told of it;
* `told_string`, `told_natural`, `toldMembers_cons`: the text of each part;
* `Weighs`, `weighs_told`: **its length is that of the text** in bytes.
-/

namespace JsValue

open Serde Utf16

/-- `undefined`, symbols and functions have no text. -/
def hasText : JsValue → Bool
  | .undefined | .symbol | .method _ => false
  | _ => true

section

variable {F : Type} (float : ℚ → F)

/-- Digits are an integer if it has 64 bits at most; `float` is the double that is read otherwise. -/
def toldNumber (q : ℚ) : Number F :=
  match NumberText.toText q with
  | 0x2d :: digits =>
    if digits.all isDigit && NumberText.undecimal digits ≤ 2 ^ 63 then
      .negative (NumberText.undecimal digits)
    else .float (float q)
  | digits =>
    if digits.all isDigit && NumberText.undecimal digits < 2 ^ 64 then
      .unsigned (NumberText.undecimal digits)
    else .float (float q)

mutual

/-- The text of a value. There is none where a surrogate is alone. -/
def told : JsValue → Option (Json F)
  | .undefined | .symbol | .method _ => none
  | .null => some .null
  | .bool b => some (.bool b)
  | .number (.finite q) => some (.number (NumberText.toText q).length (toldNumber float q))
  | .number _ => some .null
  | .string s => (chars s).map Json.writeString
  | .array items => (toldItems items).map (.array 0)
  | .object members => (toldMembers members).map (.object 0)

/-- An item without a text is `null`. -/
def toldItems : List JsValue → Option (List (Json F))
  | [] => some []
  | item :: rest =>
    (if item.hasText then told item else some .null).bind fun json =>
      (toldItems rest).map (json :: ·)

/-- A member without a text is left out. -/
def toldMembers : List (List ℕ × JsValue) → Option (List (Serde.Member F))
  | [] => some []
  | (key, value) :: rest =>
    if value.hasText then
      (chars key).bind fun name => (told value).bind fun json => (toldMembers rest).map
        ((⟨(name.map Json.escapedSize).sum, String.ofList name⟩, json) :: ·)
    else toldMembers rest

end

/-! ## Strings -/

theorem toChar_toNat (c : Char) : toChar c.toNat = some c := by
  have hvalid : c.toNat.isValidChar := c.valid
  rw [toChar, dif_pos hvalid]
  rfl

/-- The code point of a scalar is read first. -/
theorem codePoints_encodeOne {c : ℕ} (hc : IsScalar c) (us : List ℕ) :
    codePoints (encodeOne c ++ us) = c :: codePoints us := by
  unfold IsScalar at hc
  by_cases hunit : c < 0x10000
  · have hlone : isSurrogate c = false := by
      simp only [isSurrogate, Bool.and_eq_false_iff, decide_eq_false_iff_not]
      omega
    have hpaired : PairedSurrogates [c] := hlone
    rw [encodeOne_of_lt hunit, (paired_append hpaired).1]
    rfl
  · obtain ⟨a, ha⟩ : ∃ a, a = (c - 0x10000) / 0x400 := ⟨_, rfl⟩
    obtain ⟨b, hb⟩ : ∃ b, b = (c - 0x10000) % 0x400 := ⟨_, rfl⟩
    have hpair : (isHighSurrogate (0xd800 + a) && isLowSurrogate (0xdc00 + b)) = true := by
      simp only [isHighSurrogate, isLowSurrogate, Bool.and_eq_true, decide_eq_true_eq]
      omega
    have hvalue : pairValue (0xd800 + a) (0xdc00 + b) = c := by
      rw [pairValue_eq (Nat.add_comm _ _) (Nat.add_comm _ _)]
      omega
    rw [encodeOne, if_neg hunit, ← ha, ← hb]
    show codePoints ((0xd800 + a) :: (0xdc00 + b) :: us) = _
    rw [codePoints, if_pos hpair, hvalue]

theorem codePoints_encode (cs : List Char) :
    codePoints (encode (cs.map Char.toNat)) = cs.map Char.toNat := by
  induction cs with
  | nil => rfl
  | cons c cs ih =>
      rw [List.map_cons, encode_cons, codePoints_encodeOne (isScalar_toNat c), ih]

/-- The characters of a text are read off its code units. -/
theorem chars_encode (cs : List Char) : chars (encode (cs.map Char.toNat)) = some cs := by
  rw [chars, codePoints_encode]
  induction cs with
  | nil => rfl
  | cons c cs ih =>
      rw [List.map_cons, List.mapM_cons, toChar_toNat, ih]
      rfl

theorem chars_ofString (s : String) : chars (ofString s) = some s.toList := chars_encode s.toList

/-- A string has characters just where no surrogate is alone. -/
theorem encode_of_chars {s : List ℕ} (hs : Units s) {cs : List Char} (h : chars s = some cs) :
    encode (cs.map Char.toNat) = s := by
  rw [map_toNat_chars h, encode_codePoints hs]

/-! ## Texts -/

theorem told_string {s : List ℕ} {cs : List Char} (h : encode (cs.map Char.toNat) = s) :
    told float (.string s) = some (Json.writeString cs) := by
  rw [told, ← h, chars_encode]
  rfl

theorem toldNumber_natural {n : ℕ} (h : n < 2 ^ 53) : toldNumber float (n : ℚ) = .unsigned n := by
  have hdigits : (NumberText.decimal n).all isDigit = true :=
    List.all_eq_true.2 fun u hu => isDigit_decimal hu
  have hread : ((NumberText.decimal n).all isDigit &&
      NumberText.undecimal (NumberText.decimal n) < 2 ^ 64) = true := by
    rw [hdigits, NumberText.undecimal_decimal, Bool.true_and]
    exact decide_eq_true (by omega)
  rw [toldNumber, NumberText.toText_natCast h]
  split
  · next digits hminus =>
      have := NumberText.mem_decimal (n := n) (u := 0x2d) (by rw [hminus]; exact List.mem_cons_self)
      omega
  · rw [if_pos hread, NumberText.undecimal_decimal]

theorem told_natural {n : ℕ} (h : n < 2 ^ 53) :
    told float (rational n) = some (.number (NumberText.decimal n).length (.unsigned n)) := by
  rw [told, toldNumber_natural float h, NumberText.toText_natCast h]

/-- A name whose characters are written as they are. -/
def Bare (name : String) : Prop := (name.toList.map Json.escapedSize).sum = name.utf8ByteSize

instance (name : String) : Decidable (Bare name) := inferInstanceAs (Decidable (_ = _))

theorem toldMembers_cons {name : String} (hname : Bare name) {value : JsValue}
    (hvalue : value.hasText = true) (rest : List (List ℕ × JsValue)) :
    toldMembers float ((ofString name, value) :: rest) =
      (told float value).bind fun json => (toldMembers float rest).map fun members =>
        (⟨name.utf8ByteSize, name⟩, json) :: members := by
  rw [toldMembers, if_pos hvalue, chars_ofString]
  show ((told float value).bind fun json => (toldMembers float rest).map
    ((⟨(name.toList.map Json.escapedSize).sum, String.ofList name.toList⟩, json) :: ·)) = _
  rw [hname, String.ofList_toList]

end

/-! ## Bytes -/

/-- A text has so many bytes. -/
structure Weighs (t : List ℕ) (n : ℕ) : Prop where
  wellFormed : WellFormed t
  size : ((codePoints t).map utf8Size).sum = n

theorem Weighs.congr {t : List ℕ} {m n : ℕ} (h : Weighs t m) (hmn : m = n) : Weighs t n := hmn ▸ h

theorem Weighs.append {s t : List ℕ} {m n : ℕ} (hs : Weighs s m) (ht : Weighs t n) :
    Weighs (s ++ t) (m + n) := by
  refine ⟨hs.wellFormed.append ht.wellFormed, ?_⟩
  rw [(paired_append hs.wellFormed.paired).1, List.map_append, List.sum_append, hs.size, ht.size]

theorem weighs_nil : Weighs [] 0 := ⟨wellFormed_ascii (List.forall_mem_nil _), rfl⟩

theorem weighs_unit {u : ℕ} (hu : u < 0x80) : Weighs [u] 1 := by
  refine ⟨wellFormed_ascii (List.forall_mem_singleton.2 hu), ?_⟩
  rw [codePoints, List.map_singleton, List.sum_singleton, utf8Size, if_pos (by omega)]

theorem weighs_ascii {s : List ℕ} (h : ∀ u ∈ s, u < 0x80) : Weighs s s.length := by
  induction s with
  | nil => exact weighs_nil
  | cons u s ih =>
      obtain ⟨hu, hs⟩ := List.forall_mem_cons.1 h
      rw [List.length_cons, Nat.add_comm]
      exact (weighs_unit hu).append (ih hs)

theorem weighs_enclose {t : List ℕ} {n u v : ℕ} (hu : u < 0x80) (hv : v < 0x80) (h : Weighs t n) :
    Weighs (u :: t ++ [v]) (2 + n) := by
  apply (((weighs_unit hu).append h).append (weighs_unit hv)).congr
  omega

/-- The commas between pieces are one byte each. -/
theorem weighs_commas {pieces : List (List ℕ)} {sizes : List ℕ}
    (h : List.Forall₂ Weighs pieces sizes) :
    Weighs (commas pieces) (sizes.sum + (sizes.length - 1)) := by
  induction h with
  | nil => exact weighs_nil
  | @cons piece size pieces sizes hpiece hrest ih =>
      cases hrest with
      | nil =>
          rw [commas_singleton, List.sum_singleton]
          exact hpiece
      | @cons next size' pieces sizes hnext hrest =>
          rw [commas_cons_cons]
          refine (hpiece.append ((weighs_unit (u := 0x2c) (by decide)).append ih)).congr ?_
          simp only [List.sum_cons, List.length_cons]
          omega

theorem lt_hexDigit {d : ℕ} (hd : d < 16) : hexDigit d < 0x80 := by
  unfold hexDigit
  split_ifs <;> omega

/-- A unit that is no surrogate, between quotes. -/
theorem weighs_escapeUnit {u : ℕ} (hu : u < 0x10000) (hs : isSurrogate u = false) :
    Weighs (escapeUnit u) (if u = 0x22 ∨ u = 0x5c then 2
      else if u = 8 ∨ u = 9 ∨ u = 10 ∨ u = 12 ∨ u = 13 then 2
      else if u < 32 then 6 else utf8Size u) := by
  have htwo : ∀ v, v < 0x80 → Weighs [0x5c, v] 2 := fun v hv =>
    (weighs_unit (by decide)).append (weighs_unit hv)
  by_cases hshort : u = 0x22 ∨ u = 0x5c ∨ u = 8 ∨ u = 9 ∨ u = 10 ∨ u = 12 ∨ u = 13
  · rcases hshort with rfl | rfl | rfl | rfl | rfl | rfl | rfl
    all_goals exact htwo _ (by decide)
  · obtain ⟨h22, h5c, h8, h9, h10, h12, h13⟩ : u ≠ 0x22 ∧ u ≠ 0x5c ∧ u ≠ 8 ∧ u ≠ 9 ∧ u ≠ 10 ∧
        u ≠ 12 ∧ u ≠ 13 := by simpa only [not_or] using hshort
    have hplain : escapeUnit u = if u < 0x20 then unicodeEscape u else [u] := by
      simp only [escapeUnit, if_neg h22, if_neg h5c, if_neg h8, if_neg h9, if_neg h10, if_neg h12,
        if_neg h13, hs, or_false, Bool.false_eq_true]
    by_cases hlow : u < 0x20
    · rw [hplain, if_pos hlow, if_neg (by omega), if_neg (by omega), if_pos hlow]
      refine weighs_ascii (s := unicodeEscape u) (List.forall_mem_cons.2 ⟨by decide, ?_⟩)
      refine List.forall_mem_cons.2 ⟨by decide, ?_⟩
      simp only [List.forall_mem_cons]
      exact ⟨lt_hexDigit (by omega), lt_hexDigit (by omega), lt_hexDigit (by omega),
        lt_hexDigit (by omega), List.forall_mem_nil _⟩
    · rw [hplain, if_neg hlow, if_neg (by omega), if_neg (by omega), if_neg hlow]
      exact ⟨wellFormed_singleton hu hs, List.sum_singleton⟩

theorem exists_pair {c : ℕ} (hc : IsScalar c) (h : ¬c < 0x10000) : ∃ high low,
    (isHighSurrogate high && isLowSurrogate low) = true ∧ encodeOne c = [high, low] := by
  unfold IsScalar at hc
  refine ⟨_, _, ?_, if_neg h⟩
  simp only [isHighSurrogate, isLowSurrogate, Bool.and_eq_true, decide_eq_true_eq]
  omega

theorem not_isSurrogate {c : ℕ} (hc : IsScalar c) (h : c < 0x10000) : isSurrogate c = false := by
  unfold IsScalar at hc
  simp only [isSurrogate, Bool.and_eq_false_iff, decide_eq_false_iff_not]
  omega

theorem wellFormed_encodeOne {c : ℕ} (hc : IsScalar c) : WellFormed (encodeOne c) := by
  by_cases hunit : c < 0x10000
  · rw [encodeOne_of_lt hunit]
    exact wellFormed_singleton hunit (not_isSurrogate hc hunit)
  · obtain ⟨high, low, hpair, htext⟩ := exists_pair hc hunit
    rw [htext]
    refine ⟨?_, by rw [PairedSurrogates, if_pos hpair]; trivial⟩
    simp only [isHighSurrogate, isLowSurrogate, Bool.and_eq_true, decide_eq_true_eq] at hpair
    exact units_cons.2 ⟨by omega, units_cons.2 ⟨by omega, List.forall_mem_nil _⟩⟩

/-- A character between quotes. -/
theorem weighs_quoteChar (c : Char) : Weighs (quoteBody (encodeOne c.toNat)) (Json.escapedSize c) := by
  have hscalar := isScalar_toNat c
  have hchar : ∀ (d : Char) (n : ℕ), d.toNat = n → (c = d ↔ c.toNat = n) := by
    rintro d n rfl
    exact Char.toNat_inj.symm
  have hsize : c.utf8Size = utf8Size c.toNat := rfl
  rw [Json.escapedSize]
  simp only [hchar '"' 0x22 rfl, hchar '\\' 0x5c rfl, hsize]
  generalize c.toNat = u at hscalar
  by_cases hunit : u < 0x10000
  · rw [encodeOne_of_lt hunit]
    exact weighs_escapeUnit hunit (not_isSurrogate hscalar hunit)
  · have hcode : codePoints (encodeOne u) = [u] := by
      have := codePoints_encodeOne hscalar []
      rwa [List.append_nil] at this
    obtain ⟨high, low, hpair, htext⟩ := exists_pair hscalar hunit
    have hquote : quoteBody (encodeOne u) = encodeOne u := by
      rw [htext, quoteBody, if_pos hpair]
      rfl
    rw [hquote, if_neg (by omega), if_neg (by omega), if_neg (by omega)]
    refine ⟨wellFormed_encodeOne hscalar, ?_⟩
    rw [hcode, List.map_singleton, List.sum_singleton]

theorem weighs_quoteBody (cs : List Char) :
    Weighs (quoteBody (encode (cs.map Char.toNat))) (cs.map Json.escapedSize).sum := by
  induction cs with
  | nil => exact weighs_nil
  | cons c cs ih =>
      rw [List.map_cons, encode_cons, quoteBody_append (wellFormed_encodeOne (isScalar_toNat c)).paired]
      exact (weighs_quoteChar c).append ih

theorem weighs_quote {s : List ℕ} (hs : Units s) {cs : List Char} (h : chars s = some cs) :
    Weighs (quote s) (2 + (cs.map Json.escapedSize).sum) := by
  rw [← encode_of_chars hs h]
  exact weighs_enclose (by decide) (by decide) (weighs_quoteBody cs)

theorem lt_decimal {n u : ℕ} (h : u ∈ NumberText.decimal n) : u < 0x80 := by
  have := NumberText.mem_decimal h
  omega

/-- The text of a number is made of digits, signs, a point and an `e`. -/
theorem lt_toText {q : ℚ} {u : ℕ} (h : u ∈ NumberText.toText q) : u < 0x80 := by
  have hlayOut : ∀ (digits : List ℕ) (n : ℤ), (∀ u ∈ digits, u < 0x80) →
      ∀ u ∈ NumberText.layOut digits n, u < 0x80 := by
    intro digits n hdigits u hu
    have hzeros : ∀ k, ∀ v ∈ List.replicate k 0x30, v < 0x80 := by
      intro k v hv
      rw [List.eq_of_mem_replicate hv]
      decide
    have hexponent : ∀ v ∈ 0x65 :: (if n - 1 < 0 then 0x2d else 0x2b) ::
        NumberText.decimal (n - 1).natAbs, v < 0x80 := by
      refine List.forall_mem_cons.2 ⟨by decide, List.forall_mem_cons.2 ⟨?_, fun v => lt_decimal⟩⟩
      split_ifs <;> decide
    unfold NumberText.layOut at hu
    dsimp only at hu
    generalize 0x65 :: (if n - 1 < 0 then 0x2d else 0x2b) ::
      NumberText.decimal (n - 1).natAbs = exponent at hu hexponent
    split_ifs at hu
    · rcases List.mem_append.1 hu with hu | hu
      · exact hdigits u hu
      · exact hzeros _ u hu
    · rcases List.mem_append.1 hu with hu | hu
      · exact hdigits u (List.mem_of_mem_take hu)
      · rcases List.mem_cons.1 hu with rfl | hu
        · decide
        · exact hdigits u (List.mem_of_mem_drop hu)
    · rcases List.mem_append.1 hu with hu | hu
      · rcases List.mem_append.1 hu with hu | hu
        · have : ∀ v ∈ [0x30, 0x2e], v < 0x80 := by decide
          exact this u hu
        · exact hzeros _ u hu
      · exact hdigits u hu
    · cases digits with
      | nil => exact hexponent u hu
      | cons digit rest =>
          obtain ⟨hdigit, hrest⟩ := List.forall_mem_cons.1 hdigits
          cases rest with
          | nil =>
              rcases List.mem_cons.1 hu with rfl | hu
              · exact hdigit
              · exact hexponent u hu
          | cons next rest =>
              rcases List.mem_append.1 hu with hu | hu
              · rcases List.mem_cons.1 hu with rfl | hu
                · exact hdigit
                · rcases List.mem_cons.1 hu with rfl | hu
                  · decide
                  · exact hrest u hu
              · exact hexponent u hu
  have hpositive : ∀ x u, u ∈ NumberText.positive x → u < 0x80 := by
    intro x u hu
    unfold NumberText.positive at hu
    split_ifs at hu
    · exact lt_decimal hu
    · exact hlayOut _ _ (fun v hv => lt_decimal hv) u hu
  unfold NumberText.toText at h
  split_ifs at h
  · rw [List.mem_singleton.1 h]
    decide
  · rcases List.mem_cons.1 h with rfl | h
    · decide
    · exact hpositive _ u h
  · exact hpositive _ u h

section

variable {F : Type} (float : ℚ → F)

mutual

/-- **The bytes of a text** are those that a deserializer is told of. -/
theorem weighs_told : ∀ v : JsValue, OfUnits v → ∀ json, told float v = some json →
    ∃ t, stringify v = some t ∧ Weighs t json.len
  | .undefined, _, _, h | .symbol, _, _, h | .method _, _, _, h => by cases h
  | .null, _, _, h => by
      obtain rfl := Option.some.inj h
      exact ⟨_, rfl, weighs_ascii (s := ofString "null") (by decide)⟩
  | .bool b, _, _, h => by
      obtain rfl := Option.some.inj h
      cases b with
      | false => exact ⟨_, rfl, weighs_ascii (s := ofString "false") (by decide)⟩
      | true => exact ⟨_, rfl, weighs_ascii (s := ofString "true") (by decide)⟩
  | .number .nan, _, _, h | .number (.infinite _), _, _, h => by
      obtain rfl := Option.some.inj h
      exact ⟨_, rfl, weighs_ascii (s := ofString "null") (by decide)⟩
  | .number (.finite q), _, _, h => by
      obtain rfl := Option.some.inj h
      exact ⟨_, rfl, weighs_ascii fun u => lt_toText⟩
  | .string s, hs, _, h => by
      obtain ⟨cs, hcs, rfl⟩ := Option.map_eq_some_iff.1 h
      refine ⟨_, rfl, (weighs_quote hs hcs).congr ?_⟩
      rw [Json.writeString, Json.len, Nat.add_comm]
  | .array items, hitems, _, h => by
      obtain ⟨jsons, hjsons, rfl⟩ := Option.map_eq_some_iff.1 h
      obtain ⟨sizes, hall, hsum, hlength⟩ := weighs_toldItems items hitems jsons hjsons
      refine ⟨_, rfl, (weighs_enclose (by decide) (by decide) (weighs_commas hall)).congr ?_⟩
      rw [Json.len, hsum, hlength]
      omega
  | .object members, hmembers, _, h => by
      obtain ⟨jsons, hjsons, rfl⟩ := Option.map_eq_some_iff.1 h
      obtain ⟨sizes, hall, hsum, hlength⟩ := weighs_toldMembers members hmembers jsons hjsons
      refine ⟨_, rfl, (weighs_enclose (by decide) (by decide) (weighs_commas hall)).congr ?_⟩
      rw [Json.len, hsum, hlength]
      omega

theorem weighs_toldItems : ∀ items : List JsValue, OfUnitsItems items →
    ∀ jsons, toldItems float items = some jsons →
      ∃ sizes, List.Forall₂ Weighs (stringifyItems items) sizes ∧ sizes.sum = Json.lenItems jsons ∧
        sizes.length = jsons.length
  | [], _, _, h => by
      obtain rfl := Option.some.inj h
      exact ⟨[], .nil, rfl, rfl⟩
  | item :: rest, hitems, _, h => by
      rw [toldItems] at h
      obtain ⟨json, hjson, h⟩ := Option.bind_eq_some_iff.1 h
      obtain ⟨jsons, hjsons, rfl⟩ := Option.map_eq_some_iff.1 h
      obtain ⟨sizes, hall, hsum, hlength⟩ := weighs_toldItems rest hitems.2 jsons hjsons
      have hpiece : Weighs ((stringify item).getD (ofString "null")) json.len := by
        cases htext : item.hasText with
        | true =>
            rw [htext] at hjson
            obtain ⟨t, ht, hweighs⟩ := weighs_told item hitems.1 json hjson
            rw [ht]
            exact hweighs
        | false =>
            rw [htext] at hjson
            obtain rfl := Option.some.inj hjson
            have hnone : stringify item = none := by
              cases item <;> first | rfl | cases htext
            rw [hnone]
            exact weighs_ascii (s := ofString "null") (by decide)
      refine ⟨json.len :: sizes, .cons hpiece hall, ?_, congrArg (· + 1) hlength⟩
      rw [List.sum_cons, Json.lenItems, hsum]

theorem weighs_toldMembers : ∀ members : List (List ℕ × JsValue), OfUnitsMembers members →
    ∀ jsons, toldMembers float members = some jsons →
      ∃ sizes, List.Forall₂ Weighs (stringifyMembers members) sizes ∧
        sizes.sum = Json.lenMembers jsons ∧ sizes.length = jsons.length
  | [], _, _, h => by
      obtain rfl := Option.some.inj h
      exact ⟨[], .nil, rfl, rfl⟩
  | (key, value) :: rest, hmembers, _, h => by
      rw [toldMembers] at h
      cases htext : value.hasText with
      | false =>
          rw [htext] at h
          obtain ⟨sizes, hall, hsum, hlength⟩ := weighs_toldMembers rest hmembers.2.2 _ h
          have hnone : stringify value = none := by
            cases value <;> first | rfl | cases htext
          rw [stringifyMembers, hnone]
          exact ⟨sizes, hall, hsum, hlength⟩
      | true =>
          rw [htext] at h
          obtain ⟨name, hname, h⟩ := Option.bind_eq_some_iff.1 h
          obtain ⟨json, hjson, h⟩ := Option.bind_eq_some_iff.1 h
          obtain ⟨jsons, hjsons, rfl⟩ := Option.map_eq_some_iff.1 h
          obtain ⟨sizes, hall, hsum, hlength⟩ := weighs_toldMembers rest hmembers.2.2 jsons hjsons
          obtain ⟨t, ht, hweighs⟩ := weighs_told value hmembers.2.1 json hjson
          have hpiece : Weighs (quote key ++ 0x3a :: t) (2 + (name.map Json.escapedSize).sum + (1 + json.len)) :=
            (weighs_quote hmembers.1 hname).append ((weighs_unit (u := 0x3a) (by decide)).append hweighs)
          rw [stringifyMembers, ht]
          refine ⟨_, .cons hpiece hall, ?_, congrArg (· + 1) hlength⟩
          rw [List.sum_cons, Json.lenMembers, hsum]
          dsimp only
          omega

end

end

end JsValue

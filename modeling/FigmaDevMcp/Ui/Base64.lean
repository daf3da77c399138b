import FigmaDevMcp.Lib.Base64
import FigmaDevMcp.Ui.Raster

set_option autoImplicit false

/-!
# base64 in the plugin

`encodeBase64` and `decodeBase64` of `raster.ts` against base64 with padding.

* `encodeBase64_eq`: the encoder writes base64;
* `decodeBase64_of_decodes`: what reads as bytes is decoded as them;
* `decodeBase64_iff`: **when the decoder keeps to base64**. It looks at the units modulo 256, and
  takes a padding sign anywhere.
-/

namespace FigmaDevMcp.Raster

open Base64Url (numbers decodeNumbers)

/-! ## Shifts and masks -/

theorem or_shiftLeft {a b i : ℕ} (h : b < 2 ^ i) : a <<< i ||| b = a * 2 ^ i + b := by
  rw [← Nat.shiftLeft_add_eq_or_of_lt h, Nat.shiftLeft_eq]

theorem and_mask (a k : ℕ) : a &&& (2 ^ k - 1) = a % 2 ^ k := Nat.and_two_pow_sub_one_eq_mod a k

theorem base64Unit_eq {n : ℕ} (h : n < 64) : base64Unit n = [Base64.letter n] := by
  have htable : ∀ n < 64, base64Unit n = [Base64.letter n] := by decide +kernel
  exact htable n h

theorem quartet_eq (remaining : ℕ) {b0 b1 b2 : ℕ} (h0 : b0 < 256) (h1 : b1 < 256) (h2 : b2 < 256) :
    quartet remaining b0 b1 b2 =
      [Base64.letter (b0 / 4), Base64.letter (b0 % 4 * 16 + b1 / 16),
        if 1 < remaining then Base64.letter (b1 % 16 * 4 + b2 / 64) else 0x3d,
        if 2 < remaining then Base64.letter (b2 % 64) else 0x3d] := by
  have hfirst : b0 >>> 2 &&& 0x3f = b0 / 4 := by
    rw [show 0x3f = 2 ^ 6 - 1 from rfl, and_mask, Nat.shiftRight_eq_div_pow]
    omega
  have hsecond : (b0 &&& 0x03) <<< 4 ||| b1 >>> 4 = b0 % 4 * 16 + b1 / 16 := by
    have hmask : b0 &&& 0x03 = b0 % 4 := and_mask b0 2
    have hshift : b1 >>> 4 = b1 / 16 := Nat.shiftRight_eq_div_pow b1 4
    have hjoin : (b0 % 4) <<< 4 ||| b1 / 16 = b0 % 4 * 16 + b1 / 16 := or_shiftLeft (i := 4) (by omega)
    rw [hmask, hshift, hjoin]
  have hthird : (b1 &&& 0x0f) <<< 2 ||| b2 >>> 6 = b1 % 16 * 4 + b2 / 64 := by
    have hmask : b1 &&& 0x0f = b1 % 16 := and_mask b1 4
    have hshift : b2 >>> 6 = b2 / 64 := Nat.shiftRight_eq_div_pow b2 6
    have hjoin : (b1 % 16) <<< 2 ||| b2 / 64 = b1 % 16 * 4 + b2 / 64 := or_shiftLeft (i := 2) (by omega)
    rw [hmask, hshift, hjoin]
  have hfourth : b2 &&& 0x3f = b2 % 64 := and_mask b2 6
  rw [quartet, hfirst, hsecond, hthird, hfourth, base64Unit_eq (by omega), base64Unit_eq (by omega),
    base64Unit_eq (by omega), base64Unit_eq (by omega)]
  split_ifs <;> rfl

/-- **The encoder writes base64.** -/
theorem encodeBase64_eq {bytes : List ℕ} (h : ∀ b ∈ bytes, b < 256) :
    encodeBase64 bytes = Base64.encode bytes := by
  induction bytes using encodeBase64.induct with
  | case1 => rfl
  | case2 b0 =>
      have h0 := h b0 (by simp)
      rw [encodeBase64, quartet_eq 1 h0 (by decide) (by decide)]
      rfl
  | case3 b0 b1 =>
      have h0 := h b0 (by simp)
      have h1 := h b1 (by simp)
      rw [encodeBase64, quartet_eq 2 h0 h1 (by decide)]
      rfl
  | case4 b0 b1 b2 rest ih =>
      have h0 := h b0 (by simp)
      have h1 := h b1 (by simp)
      have h2 := h b2 (by simp)
      have hpadding : Base64.padding (b0 :: b1 :: b2 :: rest).length = Base64.padding rest.length := by
        simp only [Base64.padding, List.length_cons]
        omega
      rw [encodeBase64, quartet_eq _ h0 h1 h2, ih fun b hb => h b (by simp [hb]), if_pos (by omega),
        if_pos (by omega), Base64.encode, Base64.encode, hpadding]
      rfl

/-! ## What is decoded -/

/-- The units that are no white space. -/
def stripped (value : JsString) : JsString := value.filter fun code => !isBase64Whitespace code

/-- A number has its letter, and zero the padding sign too. -/
theorem sextet_eq (code : ℕ) :
    sextet code = if code = 0x3d then some 0 else Base64.number code := by
  unfold sextet Base64.number
  by_cases hpad : code = 0x3d
  · subst hpad
    rfl
  · simp only [if_neg hpad]

theorem sextet_of_number {u n : ℕ} (h : Base64.number u = some n) : sextet u = some n := by
  rw [sextet_eq, if_neg (Base64.lt_of_number h).2.1, h]

theorem decodeGroups_cons {ca cb cc cd a b c d : ℕ} {rest : List ℕ} (ha : sextet ca = some a)
    (hb : sextet cb = some b) (hc : sextet cc = some c) (hd : sextet cd = some d) (hlt : a < 64)
    (hb' : b < 64) (hc' : c < 64) (hd' : d < 64) :
    decodeGroups (ca :: cb :: cc :: cd :: rest) = (decodeGroups rest).map fun more =>
      [a * 4 + b / 16] ++ (if cc ≠ 0x3d then [b % 16 * 16 + c / 4] else []) ++
        (if cd ≠ 0x3d then [c % 4 * 64 + d] else []) ++ more := by
  have hfirst : (a <<< 2 ||| b >>> 4) % 256 = a * 4 + b / 16 := by
    rw [Nat.shiftRight_eq_div_pow, or_shiftLeft (by omega)]
    omega
  have hsecond : ((b &&& 0x0f) <<< 4 ||| c >>> 2) % 256 = b % 16 * 16 + c / 4 := by
    have hmask : b &&& 0x0f = b % 16 := and_mask b 4
    have hshift : c >>> 2 = c / 4 := Nat.shiftRight_eq_div_pow c 2
    have hjoin : (b % 16) <<< 4 ||| c / 4 = b % 16 * 16 + c / 4 := or_shiftLeft (i := 4) (by omega)
    rw [hmask, hshift, hjoin]
    omega
  have hthird : ((c &&& 0x03) <<< 6 ||| d) % 256 = c % 4 * 64 + d := by
    rw [or_shiftLeft (by omega), show 0x03 = 2 ^ 2 - 1 from rfl, and_mask]
    omega
  rw [decodeGroups, ha, hb, hc, hd]
  cases decodeGroups rest with
  | none => rfl
  | some more =>
      dsimp only [Option.map_some]
      rw [hfirst, hsecond, hthird]

/-- Letters and the padding that fills their last four are decoded as the bytes of the letters. -/
theorem decodeGroups_letters {letters ns : List ℕ} {pad : ℕ} (hns : letters.mapM Base64.number = some ns)
    (hpad : pad ≤ 2) (hlength : (letters.length + pad) % 4 = 0) :
    decodeGroups (letters ++ List.replicate pad 0x3d) = some (decodeNumbers ns) ∧
      (decodeNumbers ns).length = (letters.length + pad) / 4 * 3 - pad := by
  have hzero : sextet 0x3d = some 0 := rfl
  induction letters using Base64Url.decodeNumbers.induct generalizing ns with
  | case1 ca cb cc cd rest ih =>
      obtain ⟨a, _, ha, h1, rfl⟩ := Base64.mapM_number_cons.1 hns
      obtain ⟨b, _, hb, h2, rfl⟩ := Base64.mapM_number_cons.1 h1
      obtain ⟨c, _, hc, h3, rfl⟩ := Base64.mapM_number_cons.1 h2
      obtain ⟨d, more, hd, h4, rfl⟩ := Base64.mapM_number_cons.1 h3
      have hc' := Base64.lt_of_number hc
      have hd' := Base64.lt_of_number hd
      simp only [List.length_cons] at hlength ⊢
      obtain ⟨hgroups, hcount⟩ := ih h4 (by omega)
      simp only [List.cons_append]
      rw [decodeGroups_cons (sextet_of_number ha) (sextet_of_number hb) (sextet_of_number hc)
        (sextet_of_number hd) (Base64.lt_of_number ha).2.2 (Base64.lt_of_number hb).2.2 hc'.2.2 hd'.2.2,
        hgroups, if_pos hc'.2.1, if_pos hd'.2.1, decodeNumbers]
      refine ⟨rfl, ?_⟩
      simp only [List.length_cons]
      omega
  | case2 ca cb cc =>
      obtain rfl : pad = 1 := by
        simp only [List.length_cons, List.length_nil] at hlength
        omega
      obtain ⟨a, _, ha, h1, rfl⟩ := Base64.mapM_number_cons.1 hns
      obtain ⟨b, _, hb, h2, rfl⟩ := Base64.mapM_number_cons.1 h1
      obtain ⟨c, last, hc, h3, rfl⟩ := Base64.mapM_number_cons.1 h2
      obtain rfl : last = [] := (Option.some.inj h3).symm
      have hc' := Base64.lt_of_number hc
      refine ⟨?_, by simp [decodeNumbers]⟩
      show decodeGroups [ca, cb, cc, 0x3d] = _
      rw [decodeGroups_cons (sextet_of_number ha) (sextet_of_number hb) (sextet_of_number hc) hzero
        (Base64.lt_of_number ha).2.2 (Base64.lt_of_number hb).2.2 hc'.2.2 (by decide), if_pos hc'.2.1]
      rfl
  | case3 ca cb =>
      obtain rfl : pad = 2 := by
        simp only [List.length_cons, List.length_nil] at hlength
        omega
      obtain ⟨a, _, ha, h1, rfl⟩ := Base64.mapM_number_cons.1 hns
      obtain ⟨b, last, hb, h2, rfl⟩ := Base64.mapM_number_cons.1 h1
      obtain rfl : last = [] := (Option.some.inj h2).symm
      refine ⟨?_, by simp [decodeNumbers]⟩
      show decodeGroups [ca, cb, 0x3d, 0x3d] = _
      rw [decodeGroups_cons (sextet_of_number ha) (sextet_of_number hb) hzero hzero
        (Base64.lt_of_number ha).2.2 (Base64.lt_of_number hb).2.2 (by decide) (by decide)]
      rfl
  | case4 letters h4 h3 h2 =>
      rcases letters with _ | ⟨ca, _ | ⟨cb, _ | ⟨cc, _ | ⟨cd, rest⟩⟩⟩⟩
      · obtain rfl := Option.some.inj hns
        obtain rfl : pad = 0 := by
          rw [List.length_nil] at hlength
          omega
        exact ⟨rfl, rfl⟩
      · rw [List.length_singleton] at hlength
        omega
      · exact absurd rfl (h2 _ _)
      · exact absurd rfl (h3 _ _ _)
      · exact absurd rfl (h4 _ _ _ _ _)

/-- The padding that the decoder counts at the end. -/
theorem paddingAt_letters {letters : List ℕ} {pad : ℕ} (hletters : ∀ u ∈ letters, u ≠ 0x3d)
    (hpad : pad ≤ 2) :
    paddingAt (letters ++ List.replicate pad 0x3d).reverse[0]? +
      paddingAt (letters ++ List.replicate pad 0x3d).reverse[1]? = pad := by
  have hnone : ∀ i : ℕ, paddingAt letters.reverse[i]? = 0 := by
    intro i
    refine if_neg fun h => ?_
    exact hletters _ (List.mem_reverse.1 (List.mem_of_getElem? h)) rfl
  rw [List.reverse_append, List.reverse_replicate]
  match pad, hpad with
  | 0, _ => exact congrArg₂ (· + ·) (hnone 0) (hnone 1)
  | 1, _ => exact congrArg (1 + ·) (hnone 0)
  | 2, _ => rfl

theorem written_eq (bytes : List ℕ) : written bytes.length bytes = bytes := by
  rw [written, List.take_left]

theorem map_mod_eq {codes : List ℕ} (h : ∀ u ∈ codes, u < 256) : codes.map (· % 256) = codes := by
  conv_rhs => rw [← List.map_id codes]
  exact List.map_congr_left fun u hu => Nat.mod_eq_of_lt (h u hu)

/-- **What reads as bytes is decoded as them.** -/
theorem decodeBase64_of_decodes {value : JsString} {bytes : List ℕ}
    (h : Base64.Decodes (stripped value) bytes) : decodeBase64 value = some bytes := by
  obtain ⟨hlength, letters, ns, pad, hpad, hvalue, hns, rfl⟩ := h
  have hletters := Base64.lt_of_mapM_number hns
  have hsmall : ∀ u ∈ stripped value, u < 256 := by
    rw [hvalue]
    refine List.forall_mem_append.2 ⟨fun u hu => (hletters u hu).1.trans (by decide), fun u hu => ?_⟩
    rw [List.eq_of_mem_replicate hu]
    decide
  have hcount : (stripped value).length = letters.length + pad := by
    rw [hvalue, List.length_append, List.length_replicate]
  have ⟨hgroups, hbytes⟩ := decodeGroups_letters hns hpad (hcount ▸ hlength)
  rw [decodeBase64]
  change (if ((stripped value).map (· % 256)).length % 4 ≠ 0 then none else
    (decodeGroups ((stripped value).map (· % 256))).map
      (written (((stripped value).map (· % 256)).length / 4 * 3 -
        (paddingAt ((stripped value).map (· % 256)).reverse[0]? +
          paddingAt ((stripped value).map (· % 256)).reverse[1]?)))) = _
  rw [map_mod_eq hsmall, if_neg (not_not_intro hlength), hcount, hvalue,
    paddingAt_letters (fun u hu => (hletters u hu).2) hpad, hgroups, Option.map_some, ← hbytes,
    written_eq]

/-! ## When the decoder keeps to base64 -/

/-- The decoder gives up where it meets a code that is neither a letter nor the padding sign. -/
theorem decodeGroups_isSome : ∀ {codes : List ℕ}, codes.length % 4 = 0 →
    ((decodeGroups codes).isSome ↔ ∀ u ∈ codes, (sextet u).isSome)
  | [], _ => iff_of_true rfl nofun
  | [_], h => by
    rw [List.length_singleton] at h
    omega
  | [_, _], h | [_, _, _], h => by
    simp only [List.length_cons, List.length_nil] at h
    omega
  | ca :: cb :: cc :: cd :: rest, h => by
    simp only [List.length_cons] at h
    have ih := @decodeGroups_isSome rest (by omega)
    simp only [List.forall_mem_cons, ← ih, decodeGroups]
    cases sextet ca <;> cases sextet cb <;> cases sextet cc <;> cases sextet cd <;>
      cases decodeGroups rest <;> simp

theorem decodeBase64_isSome {value : JsString} : (decodeBase64 value).isSome ↔
    (stripped value).length % 4 = 0 ∧ ∀ u ∈ stripped value, (sextet (u % 256)).isSome := by
  rw [decodeBase64]
  change Option.isSome (if ((stripped value).map (· % 256)).length % 4 ≠ 0 then none else
    (decodeGroups ((stripped value).map (· % 256))).map _) ↔ _
  rw [List.length_map]
  by_cases hlength : (stripped value).length % 4 = 0
  · rw [if_neg (not_not_intro hlength), Option.isSome_map,
      decodeGroups_isSome (by rwa [List.length_map]), List.forall_mem_map]
    exact (and_iff_right hlength).symm
  · rw [if_pos hlength]
    exact iff_of_false Bool.false_ne_true fun h => hlength h.1

/-- All padding signs are at the end, and no more than two. -/
def PaddedAtEnd (codes : List ℕ) : Prop :=
  ∃ letters, ∃ pad ≤ 2, codes = letters ++ List.replicate pad 0x3d ∧ 0x3d ∉ letters

/-- The text looks like base64 to a decoder that sees the low bytes of its units only, and takes a
padding sign for a letter, but is not: a unit has a high byte, or a padding sign is out of place. -/
structure Aliases (value : JsString) : Prop where
  length : (stripped value).length % 4 = 0
  lowBytes : ∀ u ∈ stripped value, u % 256 = 0x3d ∨ (Base64.number (u % 256)).isSome
  odd : (∃ u ∈ stripped value, 256 ≤ u) ∨ ¬ PaddedAtEnd (stripped value)

theorem sextet_isSome {u : ℕ} : (sextet u).isSome ↔ u = 0x3d ∨ (Base64.number u).isSome := by
  rw [sextet_eq]
  split_ifs with h
  · exact iff_of_true rfl (Or.inl h)
  · exact (or_iff_right h).symm

theorem not_aliases_of_decodes {value : JsString} {bytes : List ℕ}
    (h : Base64.Decodes (stripped value) bytes) : ¬ Aliases value := by
  obtain ⟨_, letters, ns, pad, hpad, hvalue, hns, rfl⟩ := h
  have hletters := Base64.lt_of_mapM_number hns
  intro halias
  rcases halias.odd with ⟨u, hu, hbig⟩ | hout
  · rw [hvalue] at hu
    rcases List.mem_append.1 hu with hu | hu
    · have hlt := (hletters u hu).1
      omega
    · rw [List.eq_of_mem_replicate hu] at hbig
      omega
  · exact hout ⟨letters, pad, hpad, hvalue, fun hmem => (hletters _ hmem).2 rfl⟩

/-- What is accepted and is no alias reads as some bytes. -/
theorem exists_decodes {value : JsString} (hsome : (decodeBase64 value).isSome)
    (halias : ¬ Aliases value) : ∃ bytes, Base64.Decodes (stripped value) bytes := by
  obtain ⟨hlength, hsextets⟩ := decodeBase64_isSome.1 hsome
  have hlow : ∀ u ∈ stripped value, u % 256 = 0x3d ∨ (Base64.number (u % 256)).isSome :=
    fun u hu => sextet_isSome.1 (hsextets u hu)
  have hodd := fun h => halias ⟨hlength, hlow, h⟩
  obtain ⟨hsmall, hpadded⟩ := not_or.1 hodd
  obtain ⟨letters, pad, hpad, hvalue, hnone⟩ := not_not.1 hpadded
  have hnumbers : ∀ u ∈ letters, (Base64.number u).isSome := by
    intro u hu
    have hmem : u ∈ stripped value := hvalue ▸ List.mem_append_left _ hu
    have hlt : u < 256 := Nat.lt_of_not_le fun h => hsmall ⟨u, hmem, h⟩
    have hcases := hlow u hmem
    rw [Nat.mod_eq_of_lt hlt] at hcases
    exact hcases.resolve_left fun heq => hnone (heq ▸ hu)
  obtain ⟨ns, hns⟩ := Base64.exists_mapM_number hnumbers
  exact ⟨_, hlength, letters, ns, pad, hpad, hvalue, hns, rfl⟩

/-- **When the decoder keeps to base64**: it decodes just what reads as bytes, and as those bytes,
unless the text aliases one that does. -/
theorem decodeBase64_iff (value : JsString) :
    (∀ bytes, decodeBase64 value = some bytes ↔ Base64.Decodes (stripped value) bytes) ↔
      ¬ Aliases value := by
  constructor
  · intro h halias
    have hsome : (decodeBase64 value).isSome :=
      decodeBase64_isSome.2 ⟨halias.length, fun u hu => sextet_isSome.2 (halias.lowBytes u hu)⟩
    obtain ⟨bytes, hbytes⟩ := Option.isSome_iff_exists.1 hsome
    exact not_aliases_of_decodes ((h bytes).1 hbytes) halias
  · intro halias bytes
    refine ⟨fun h => ?_, decodeBase64_of_decodes⟩
    obtain ⟨bytes', hbytes'⟩ := exists_decodes (Option.isSome_iff_exists.2 ⟨bytes, h⟩) halias
    obtain rfl := Option.some.inj (h.symm.trans (decodeBase64_of_decodes hbytes'))
    exact hbytes'

/-- An `Ł` reads as an `A`. -/
theorem decodeBase64_highByte : ¬ ∀ bytes, decodeBase64 [0x141, 0x41, 0x41, 0x41] = some bytes ↔
    Base64.Decodes (stripped [0x141, 0x41, 0x41, 0x41]) bytes := by
  intro h
  obtain ⟨_, letters, ns, pad, _, hvalue, hns, _⟩ := (h [0, 0, 0]).1 (by decide)
  have hletters := Base64.lt_of_mapM_number hns
  have hmem : 0x141 ∈ letters ++ List.replicate pad 0x3d := hvalue ▸ List.mem_cons_self
  rcases List.mem_append.1 hmem with hmem | hmem
  · exact absurd (hletters _ hmem).1 (by decide)
  · exact absurd (List.eq_of_mem_replicate hmem) (by decide)

end FigmaDevMcp.Raster

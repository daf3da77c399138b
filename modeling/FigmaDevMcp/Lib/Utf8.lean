import FigmaDevMcp.Lib.Utf16
import Mathlib.Data.List.Forall2

set_option autoImplicit false

/-!
# UTF-8 of UTF-16 strings

The bytes of a string of code units, which a lone surrogate has none of.

* `utf8`, `ofUtf8`: between code units and bytes;
* `ofUtf8_utf8`: reading back the bytes of a string;
* `WellFormed.exists_utf8`, `length_utf8`: which strings have bytes, and how many.
-/

namespace Utf16

/-- Strings are made of 16-bit units. -/
def Units (s : List ℕ) : Prop := ∀ u ∈ s, u < 0x10000

theorem units_ofString (s : String) : Units (ofString s) := by
  intro u hu
  obtain ⟨c, hc, hu⟩ := List.mem_flatMap.1 hu
  obtain ⟨ch, -, rfl⟩ := List.mem_map.1 hc
  have hscalar := isScalar_toNat ch
  unfold IsScalar at hscalar
  unfold encodeOne at hu
  split_ifs at hu
  · rw [List.mem_singleton.1 hu]
    assumption
  · simp only [List.mem_cons, List.not_mem_nil, or_false] at hu
    omega

/-- The character of a code point, unless it is a surrogate. -/
def toChar (c : ℕ) : Option Char := if h : c.isValidChar then some (Char.ofNatAux c h) else none

/-- The characters of a string, unless a surrogate in it is alone. -/
def chars (s : List ℕ) : Option (List Char) := (codePoints s).mapM toChar

/-- The bytes of units, if their surrogates are paired. -/
def utf8 (s : List ℕ) : Option (List UInt8) := (chars s).map (List.flatMap String.utf8EncodeChar)

/-- The string of bytes that are well-formed UTF-8. -/
def ofUtf8 (bytes : List UInt8) : Option (List ℕ) :=
  bytes.toByteArray.utf8Decode?.map fun cs => encode (cs.toList.map Char.toNat)

theorem encode_codePoints {s : List ℕ} (h : Units s) : encode (codePoints s) = s := by
  induction s using codePoints.induct with
  | case1 high low rest hpair ih =>
      rw [codePoints, if_pos hpair, encode_cons, ih fun u hu => h u (by simp [hu])]
      rw [Bool.and_eq_true] at hpair
      rw [encodeOne_pairValue hpair.1 hpair.2]
      rfl
  | case2 high low rest hpair ih =>
      rw [codePoints, if_neg hpair, encode_cons, ih fun u hu => h u (List.mem_cons_of_mem _ hu),
        encodeOne_of_lt (h high List.mem_cons_self)]
      rfl
  | case3 u => rw [codePoints, encode_cons, encodeOne_of_lt (h u List.mem_cons_self)]; rfl
  | case4 => rfl

theorem toNat_toChar {c : ℕ} {ch : Char} (h : toChar c = some ch) : ch.toNat = c := by
  by_cases hvalid : c.isValidChar
  · rw [toChar, dif_pos hvalid] at h
    rw [← Option.some.inj h]
    rfl
  · rw [toChar, dif_neg hvalid] at h
    cases h

theorem map_toNat_chars {cs : List ℕ} {chs : List Char} (h : cs.mapM toChar = some chs) :
    chs.map Char.toNat = cs := by
  induction cs generalizing chs with
  | nil => rw [← Option.some.inj h]; rfl
  | cons c cs ih =>
      rw [List.mapM_cons] at h
      obtain ⟨ch, hch, h⟩ := Option.bind_eq_some_iff.1 h
      obtain ⟨rest, hrest, h⟩ := Option.bind_eq_some_iff.1 h
      rw [← Option.some.inj h, List.map_cons, toNat_toChar hch, ih hrest]

/-- **Reading back the bytes of a string.** -/
theorem ofUtf8_utf8 {s : List ℕ} (hs : Units s) {bytes : List UInt8} (h : utf8 s = some bytes) :
    ofUtf8 bytes = some s := by
  obtain ⟨cs, hcs, rfl⟩ := Option.map_eq_some_iff.1 h
  have hdecode : (cs.flatMap String.utf8EncodeChar).toByteArray.utf8Decode? = some cs.toArray :=
    List.utf8Decode?_utf8Encode
  rw [ofUtf8, hdecode, Option.map_some, map_toNat_chars hcs, encode_codePoints hs]

/-- A string whose surrogates are paired does not lend one to what follows. -/
theorem not_pair_of_not_surrogate {u v : ℕ} (hu : isSurrogate u = false) :
    ¬ (isHighSurrogate u && isLowSurrogate v) = true := by
  simp only [isHighSurrogate, isSurrogate, Bool.and_eq_true, Bool.and_eq_false_iff,
    decide_eq_true_eq, decide_eq_false_iff_not] at hu ⊢
  omega

theorem paired_append {s t : List ℕ} (hs : PairedSurrogates s) :
    codePoints (s ++ t) = codePoints s ++ codePoints t ∧
      (PairedSurrogates t → PairedSurrogates (s ++ t)) := by
  induction s using codePoints.induct with
  | case1 high low rest hpair ih =>
      rw [PairedSurrogates, if_pos hpair] at hs
      have ⟨hcode, hpaired⟩ := ih hs
      refine ⟨?_, fun ht => ?_⟩
      · rw [List.cons_append, List.cons_append, codePoints, if_pos hpair, hcode, codePoints,
          if_pos hpair, List.cons_append]
      · rw [List.cons_append, List.cons_append, PairedSurrogates, if_pos hpair]
        exact hpaired ht
  | case2 high low rest hpair ih =>
      rw [PairedSurrogates, if_neg hpair] at hs
      have ⟨hcode, hpaired⟩ := ih hs.2
      refine ⟨?_, fun ht => ?_⟩
      · rw [List.cons_append, List.cons_append, codePoints, if_neg hpair]
        rw [List.cons_append] at hcode
        rw [hcode, codePoints, if_neg hpair, List.cons_append]
      · rw [List.cons_append, List.cons_append, PairedSurrogates, if_neg hpair]
        exact ⟨hs.1, hpaired ht⟩
  | case3 u =>
      have hu : isSurrogate u = false := hs
      cases t with
      | nil => exact ⟨rfl, fun _ => hs⟩
      | cons v t =>
          have hpair := not_pair_of_not_surrogate (v := v) hu
          refine ⟨?_, fun ht => ?_⟩
          · rw [List.singleton_append, codePoints, if_neg hpair]
            rfl
          · rw [List.singleton_append, PairedSurrogates, if_neg hpair]
            exact ⟨hu, ht⟩
  | case4 => exact ⟨rfl, id⟩

theorem isScalar_of_unit {u : ℕ} (hu : u < 0x10000) (hs : isSurrogate u = false) : IsScalar u := by
  simp only [isSurrogate, Bool.and_eq_false_iff, decide_eq_false_iff_not] at hs
  unfold IsScalar
  omega

theorem isScalar_pairValue {high low : ℕ} (h : (isHighSurrogate high && isLowSurrogate low) = true) :
    IsScalar (pairValue high low) := by
  simp only [isHighSurrogate, isLowSurrogate, Bool.and_eq_true, decide_eq_true_eq] at h
  rw [pairValue_eq (a := high - 0xd800) (b := low - 0xdc00) (by omega) (by omega)]
  exact Or.inr (by omega)

theorem isScalar_codePoints {s : List ℕ} (hunits : Units s) (hs : PairedSurrogates s) :
    ∀ c ∈ codePoints s, IsScalar c := by
  induction s using codePoints.induct with
  | case1 high low rest hpair ih =>
      rw [PairedSurrogates, if_pos hpair] at hs
      rw [codePoints, if_pos hpair]
      exact List.forall_mem_cons.2
        ⟨isScalar_pairValue hpair, ih (fun u hu => hunits u (by simp [hu])) hs⟩
  | case2 high low rest hpair ih =>
      rw [PairedSurrogates, if_neg hpair] at hs
      rw [codePoints, if_neg hpair]
      exact List.forall_mem_cons.2
        ⟨isScalar_of_unit (hunits high List.mem_cons_self) hs.1,
          ih (fun u hu => hunits u (List.mem_cons_of_mem _ hu)) hs.2⟩
  | case3 u =>
      exact List.forall_mem_singleton.2 (isScalar_of_unit (hunits u List.mem_cons_self) hs)
  | case4 => exact nofun

/-- A string that has bytes. -/
structure WellFormed (s : List ℕ) : Prop where
  units : Units s
  paired : PairedSurrogates s

theorem WellFormed.append {s t : List ℕ} (hs : WellFormed s) (ht : WellFormed t) :
    WellFormed (s ++ t) :=
  ⟨List.forall_mem_append.2 ⟨hs.units, ht.units⟩, (paired_append hs.paired).2 ht.paired⟩

theorem wellFormed_singleton {u : ℕ} (hu : u < 0x10000) (hs : isSurrogate u = false) :
    WellFormed [u] := ⟨List.forall_mem_singleton.2 hu, hs⟩

theorem wellFormed_ascii {s : List ℕ} (h : ∀ u ∈ s, u < 0x80) : WellFormed s := by
  induction s with
  | nil => exact ⟨nofun, trivial⟩
  | cons u s ih =>
      have ⟨hu, hs⟩ := List.forall_mem_cons.1 h
      refine WellFormed.append (s := [u]) (wellFormed_singleton (by omega) ?_) (ih hs)
      simp only [isSurrogate, Bool.and_eq_false_iff, decide_eq_false_iff_not]
      omega

/-- Two strings with an ASCII unit between them. -/
theorem WellFormed.join {s t : List ℕ} (hs : WellFormed s) {u : ℕ} (hu : u < 0x80)
    (ht : WellFormed t) : WellFormed (s ++ u :: t) :=
  hs.append (WellFormed.append (s := [u]) (wellFormed_ascii (List.forall_mem_singleton.2 hu)) ht)

/-- A string between two ASCII units. -/
theorem WellFormed.enclose {t : List ℕ} (h : WellFormed t) {u v : ℕ} (hu : u < 0x80)
    (hv : v < 0x80) : WellFormed (u :: t ++ [v]) :=
  WellFormed.append (WellFormed.append (s := [u]) (wellFormed_ascii (List.forall_mem_singleton.2 hu)) h)
    (wellFormed_ascii (List.forall_mem_singleton.2 hv))

/-- **A string whose surrogates are paired has bytes.** -/
theorem WellFormed.exists_utf8 {s : List ℕ} (h : WellFormed s) : ∃ bytes, utf8 s = some bytes := by
  have hall : ∀ cs : List ℕ, (∀ c ∈ cs, IsScalar c) → ∃ chs, cs.mapM toChar = some chs := by
    intro cs hcs
    induction cs with
    | nil => exact ⟨[], rfl⟩
    | cons c cs ih =>
        have ⟨hc, hrest⟩ := List.forall_mem_cons.1 hcs
        obtain ⟨chs, hchs⟩ := ih hrest
        exact ⟨_ :: chs,
          by rw [List.mapM_cons, toChar, dif_pos (show c.isValidChar from hc), hchs]; rfl⟩
  obtain ⟨chs, hchs⟩ := hall _ (isScalar_codePoints h.units h.paired)
  exact ⟨_, by rw [utf8, chars, hchs]; rfl⟩

/-! ## Lengths -/

/-- The length of the bytes of a code point. -/
def utf8Size (c : ℕ) : ℕ := if c ≤ 0x7f then 1 else if c ≤ 0x7ff then 2 else if c ≤ 0xffff then 3 else 4

theorem length_utf8 {s : List ℕ} {bytes : List UInt8} (h : utf8 s = some bytes) :
    bytes.length = ((codePoints s).map utf8Size).sum := by
  obtain ⟨cs, hcs, rfl⟩ := Option.map_eq_some_iff.1 h
  rw [← map_toNat_chars hcs, List.map_map, List.length_flatMap]
  congr 1
  refine List.map_congr_left fun c _ => ?_
  rw [String.length_utf8EncodeChar]
  rfl

end Utf16

import Mathlib.Algebra.Ring.Nat
import Mathlib.Data.List.Basic
import Mathlib.Data.List.TakeWhile
import Mathlib.Tactic.Common

set_option autoImplicit false

/-!
# UTF-16

Strings as lists of code units, and the code points they encode. A surrogate that is not half of
a pair encodes itself.

* `encode`, `codePoints`: between code points and code units;
* `PairedSurrogates`: every surrogate is half of a pair;
* `ofString_inj`: the code units of a text determine it.
-/

namespace Utf16

/-- The first unit of a pair. -/
def isHighSurrogate (u : ℕ) : Bool := 0xd800 ≤ u && u ≤ 0xdbff

/-- The second unit of a pair. -/
def isLowSurrogate (u : ℕ) : Bool := 0xdc00 ≤ u && u ≤ 0xdfff

/-- A unit of a pair. -/
def isSurrogate (u : ℕ) : Bool := 0xd800 ≤ u && u ≤ 0xdfff

/-- The code units of one code point. -/
def encodeOne (c : ℕ) : List ℕ :=
  if c < 0x10000 then [c]
  else [0xd800 + (c - 0x10000) / 0x400, 0xdc00 + (c - 0x10000) % 0x400]

/-- The units of code points. -/
def encode (cs : List ℕ) : List ℕ := cs.flatMap encodeOne

/-- The code point of a pair. -/
@[irreducible] def pairValue (high low : ℕ) : ℕ := 0x10000 + (high - 0xd800) * 0x400 + (low - 0xdc00)

/-- The code points of units. A lone surrogate stands for itself. -/
def codePoints : List ℕ → List ℕ
  | high :: low :: rest =>
    if isHighSurrogate high && isLowSurrogate low then pairValue high low :: codePoints rest
    else high :: codePoints (low :: rest)
  | [u] => [u]
  | [] => []

/-- Every surrogate is half of a pair. -/
def PairedSurrogates : List ℕ → Prop
  | high :: low :: rest =>
    if isHighSurrogate high && isLowSurrogate low then PairedSurrogates rest
    else isSurrogate high = false ∧ PairedSurrogates (low :: rest)
  | [u] => isSurrogate u = false
  | [] => True

/-- The code units of a text. -/
def ofString (s : String) : List ℕ := encode (s.toList.map Char.toNat)

@[simp] theorem encode_nil : encode [] = [] := rfl

@[simp] theorem encode_cons (c : ℕ) (cs : List ℕ) : encode (c :: cs) = encodeOne c ++ encode cs := rfl

@[simp] theorem encode_append (cs ds : List ℕ) : encode (cs ++ ds) = encode cs ++ encode ds := by
  simp [encode]

theorem encodeOne_of_lt {c : ℕ} (h : c < 0x10000) : encodeOne c = [c] := by
  rw [encodeOne, if_pos h]

/-- A code point that is no surrogate. -/
def IsScalar (c : ℕ) : Prop := c < 0xd800 ∨ 0xdfff < c ∧ c < 0x110000

/-- The code units of a scalar say which one it is. -/
theorem encodeOne_append_inj {c d : ℕ} {us vs : List ℕ} (hc : IsScalar c) (hd : IsScalar d)
    (h : encodeOne c ++ us = encodeOne d ++ vs) : c = d ∧ us = vs := by
  unfold IsScalar at hc hd
  unfold encodeOne at h
  split_ifs at h with h₁ h₂ h₂
  · exact List.cons.inj h
  · have := (List.cons.inj h).1
    omega
  · have := (List.cons.inj h).1
    omega
  · obtain ⟨hh, h⟩ := List.cons.inj h
    obtain ⟨hl, h⟩ := List.cons.inj h
    exact ⟨by omega, h⟩

theorem isScalar_toNat (c : Char) : IsScalar c.toNat := c.valid

theorem encode_toNat_inj {cs ds : List Char}
    (h : encode (cs.map Char.toNat) = encode (ds.map Char.toNat)) : cs = ds := by
  induction cs generalizing ds with
  | nil =>
    cases ds with
    | nil => rfl
    | cons d ds =>
      simp only [List.map_nil, encode_nil, List.map_cons, encode_cons, encodeOne] at h
      split_ifs at h <;> cases h
  | cons c cs ih =>
    cases ds with
    | nil =>
      simp only [List.map_nil, encode_nil, List.map_cons, encode_cons, encodeOne] at h
      split_ifs at h <;> cases h
    | cons d ds =>
      obtain ⟨hcd, h⟩ := encodeOne_append_inj (isScalar_toNat c) (isScalar_toNat d) h
      rw [ih h, Char.ext (UInt32.toNat_inj.mp hcd)]

/-- Texts with the same code units are the same. -/
@[simp] theorem ofString_inj {s t : String} : ofString s = ofString t ↔ s = t :=
  ⟨fun h => String.toList_inj.mp (encode_toNat_inj h), fun h => h ▸ rfl⟩

theorem pairValue_eq {a b high low : ℕ} (hh : high = a + 0xd800) (hl : low = b + 0xdc00) :
    pairValue high low = 0x10000 + (0x400 * a + b) := by
  unfold pairValue
  omega

theorem encodeOne_pairValue {high low : ℕ} (hh : isHighSurrogate high) (hl : isLowSurrogate low) :
    encodeOne (pairValue high low) = [high, low] := by
  simp only [isHighSurrogate, isLowSurrogate, Bool.and_eq_true, decide_eq_true_eq] at hh hl
  obtain ⟨a, ha⟩ := Nat.exists_eq_add_of_le' hh.1
  obtain ⟨b, hb⟩ := Nat.exists_eq_add_of_le' hl.1
  have hlt : b < 0x400 := by omega
  rw [encodeOne, pairValue_eq ha hb, if_neg (Nat.not_lt.2 (Nat.le_add_right _ _)),
    Nat.add_sub_cancel_left, Nat.mul_add_div (by decide), Nat.div_eq_of_lt hlt, Nat.mul_add_mod,
    Nat.mod_eq_of_lt hlt, Nat.add_zero, Nat.add_comm _ a, Nat.add_comm _ b, ← ha, ← hb]

/-- A code unit below the surrogates is a code point of its own. -/
theorem encode_eq_cons {cs us : List ℕ} {u : ℕ} (h : encode cs = u :: us) (hu : u < 0xd800) :
    ∃ ds, cs = u :: ds ∧ encode ds = us := by
  match cs with
  | [] => cases h
  | c :: cs =>
    rw [encode_cons, encodeOne] at h
    split_ifs at h with hc
    · obtain ⟨rfl, hus⟩ := List.cons.inj h
      exact ⟨cs, rfl, hus⟩
    · have := (List.cons.inj h).1
      omega

theorem le_pairValue (high low : ℕ) : 0x10000 ≤ pairValue high low := by
  unfold pairValue
  omega

end Utf16

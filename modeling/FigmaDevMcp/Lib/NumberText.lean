import Mathlib.Algebra.Order.Field.Rat
import Mathlib.Data.Nat.Digits.Lemmas
import Mathlib.Data.Nat.Log
import Mathlib.Data.Rat.Floor

set_option autoImplicit false

/-!
# The decimal text of a number

A finite double is the rational number it denotes; its text is the shortest decimal that reads
back as the same double, laid out as ECMAScript's `Number::toString` does.

* `decimal`: the digits of a natural number, with `undecimal` reading them back;
* `toText`: the text of a number; on small integers the digits alone (`toText_natCast`);
* `toDouble`: the double that a decimal is read as.
-/

namespace NumberText

/-- The decimal digits of a natural number, as code units. -/
def decimal (n : ℕ) : List ℕ :=
  if n = 0 then [0x30] else ((Nat.digits 10 n).map (0x30 + ·)).reverse

/-- The value of decimal digits. -/
def undecimal (digits : List ℕ) : ℕ := Nat.ofDigits 10 ((digits.map (· - 0x30)).reverse)

/-- The exponent of the last binary place of a positive double. -/
def lastPlace (x : ℚ) : ℤ :=
  let guess : ℤ := (Nat.log2 x.num.natAbs : ℤ) - Nat.log2 x.den
  max (-1074) ((if (2 : ℚ) ^ guess ≤ x then guess else guess - 1) - 52)

/-- Reading the decimal `q` gives the positive double `x`: it lies between the midpoints to the
neighbours, and on one of them only if the last binary place of `x` is even. -/
def readsAs (q x : ℚ) : Bool :=
  let place := lastPlace x
  let scaled := x / (2 : ℚ) ^ place
  let below := if scaled = 2 ^ 52 ∧ place ≠ -1074 then (2 : ℚ) ^ (place - 2) else 2 ^ (place - 1)
  let above := (2 : ℚ) ^ (place - 1)
  if scaled.num % 2 = 0 then x - below ≤ q && q ≤ x + above else x - below < q && q < x + above

/-- `⌊log₁₀ x⌋ + 1` for a positive number. -/
def pointAfter (x : ℚ) : ℤ :=
  let guess : ℤ := (Nat.log 10 x.num.natAbs : ℤ) - Nat.log 10 x.den
  (if (10 : ℚ) ^ guess ≤ x then guess else guess - 1) + 1

/-- The digits of the shortest decimal with at most `k + fuel` digits, at least `k`, that reads as
`x`, and where its point stands. -/
def shortest (x : ℚ) : ℕ → ℕ → ℕ × ℤ
  | _, 0 => (0, 0)
  | k, fuel + 1 =>
    let point := pointAfter x
    let scaled := x * (10 : ℚ) ^ ((k : ℤ) - point)
    let low := scaled.floor.toNat
    let nearest : List ℕ := if scaled - low ≤ 1 / 2 then [low, low + 1] else [low + 1, low]
    match nearest.find? fun s : ℕ => readsAs ((s : ℚ) * 10 ^ (point - k)) x with
    | some s => if s = 10 ^ k then (10 ^ (k - 1), point + 1) else (s, point)
    | none => shortest x (k + 1) fuel

/-- Digits with the point after the `n`-th place. -/
def layOut (digits : List ℕ) (n : ℤ) : List ℕ :=
  let k := digits.length
  if k ≤ n ∧ n ≤ 21 then digits ++ List.replicate (n.toNat - k) 0x30
  else if 0 < n ∧ n ≤ 21 then digits.take n.toNat ++ 0x2e :: digits.drop n.toNat
  else if -6 < n ∧ n ≤ 0 then [0x30, 0x2e] ++ List.replicate (-n).toNat 0x30 ++ digits
  else
    let exponent := 0x65 :: (if n - 1 < 0 then 0x2d else 0x2b) :: decimal (n - 1).natAbs
    match digits with
    | [] => exponent
    | [digit] => digit :: exponent
    | digit :: rest => digit :: 0x2e :: rest ++ exponent

/-- The text of a positive number. -/
def positive (x : ℚ) : List ℕ :=
  if x.den = 1 ∧ x.num.natAbs < 2 ^ 53 then decimal x.num.natAbs
  else layOut (decimal (shortest x 1 17).1) (shortest x 1 17).2

/-- `Number::toString` of a finite number. -/
def toText (x : ℚ) : List ℕ :=
  if x = 0 then [0x30] else if x < 0 then 0x2d :: positive (-x) else positive x

/-- The nearest integer, the even one of two. -/
def roundHalfEven (x : ℚ) : ℤ :=
  let low := x.floor
  if x - low < 1 / 2 then low
  else if 1 / 2 < x - low then low + 1
  else if low % 2 = 0 then low else low + 1

/-- The double nearest to a positive number, none past the largest. -/
def toDoublePositive (x : ℚ) : Option ℚ :=
  let rounded := (roundHalfEven (x / (2 : ℚ) ^ lastPlace x) : ℚ) * (2 : ℚ) ^ lastPlace x
  if (2 : ℚ) ^ (1024 : ℕ) ≤ rounded then none else some rounded

/-- The double that a number is read as, none past the largest. -/
def toDouble (x : ℚ) : Option ℚ :=
  if x = 0 then some 0
  else if x < 0 then (toDoublePositive (-x)).map fun r => -r
  else toDoublePositive x

theorem decimal_ne_nil (n : ℕ) : decimal n ≠ [] := by
  unfold decimal
  split_ifs with h
  · exact List.cons_ne_nil _ _
  · simpa [Nat.digits_eq_nil_iff_eq_zero] using h

/-- A digit is a digit. -/
theorem mem_decimal {n u : ℕ} (h : u ∈ decimal n) : 0x30 ≤ u ∧ u ≤ 0x39 := by
  unfold decimal at h
  split_ifs at h
  · have hu : u = 0x30 := by simpa using h
    omega
  · obtain ⟨d, hd, rfl⟩ := List.mem_map.mp (List.mem_reverse.mp h)
    have := Nat.digits_lt_base (by decide) hd
    omega

theorem length_decimal_le {n k : ℕ} (hk : 0 < k) (h : n < 10 ^ k) : (decimal n).length ≤ k := by
  rw [decimal]
  split_ifs
  · exact hk
  · rw [List.length_reverse, List.length_map]
    exact (Nat.digits_length_le_iff (by decide) n).2 h

/-- Only zero starts with the digit zero. -/
theorem eq_zero_of_head_decimal {n : ℕ} (h : (decimal n).head? = some 0x30) : n = 0 := by
  by_contra hn
  rw [decimal, if_neg hn, List.head?_reverse, List.getLast?_map,
    List.getLast?_eq_getLast_of_ne_nil (Nat.digits_ne_nil_iff_ne_zero.2 hn)] at h
  have hlast := Nat.getLast_digit_ne_zero 10 hn
  have h : 0x30 + _ = 0x30 := Option.some.inj h
  omega

@[simp] theorem undecimal_decimal (n : ℕ) : undecimal (decimal n) = n := by
  unfold decimal
  split_ifs with h
  · rw [h]
    rfl
  · have hid : ((· - 0x30) ∘ fun x : ℕ => 0x30 + x) = id := by
      funext d
      show 0x30 + d - 0x30 = d
      omega
    rw [undecimal, List.map_reverse, List.reverse_reverse, List.map_map, hid, List.map_id,
      Nat.ofDigits_digits]

theorem toText_natCast {n : ℕ} (h : n < 2 ^ 53) : toText n = decimal n := by
  unfold toText
  split_ifs with h0 hneg
  · have hn : n = 0 := by exact_mod_cast h0
    rw [hn]
    rfl
  · exact absurd hneg (not_lt.2 (Nat.cast_nonneg n))
  · rw [positive, if_pos (by simpa using h)]
    rfl

theorem roundHalfEven_intCast (n : ℤ) : roundHalfEven n = n := by
  have hfloor : (n : ℚ).floor = n := Rat.floor_intCast n
  rw [roundHalfEven, hfloor, sub_self, if_pos (by norm_num)]

theorem lastPlace_natCast {n : ℕ} (h : n < 2 ^ 53) : lastPlace n ≤ 0 := by
  have hlog : Nat.log2 n ≤ 52 := by
    by_cases h0 : n = 0
    · rw [h0]
      decide
    · exact Nat.le_of_lt_succ ((Nat.log2_lt h0).2 h)
  have hone : Nat.log2 1 = 0 := by decide
  unfold lastPlace
  simp only [Rat.num_natCast, Rat.den_natCast, Int.natAbs_natCast, hone]
  split_ifs
  · omega
  · omega

/-- A small integer is a double. -/
theorem toDouble_natCast {n : ℕ} (h : n < 2 ^ 53) : toDouble n = some (n : ℚ) := by
  unfold toDouble
  split_ifs with h0 hneg
  · rw [h0]
  · exact absurd hneg (not_lt.2 (Nat.cast_nonneg n))
  · obtain ⟨k, hk⟩ := Int.eq_ofNat_of_zero_le (neg_nonneg.2 (lastPlace_natCast h))
    have hplace : lastPlace n = -(k : ℤ) := by omega
    have hpow : (2 : ℚ) ^ (-(k : ℤ)) = ((2 : ℚ) ^ k)⁻¹ := by rw [zpow_neg, zpow_natCast]
    have hscaled : (n : ℚ) / (2 : ℚ) ^ lastPlace n = ((n * 2 ^ k : ℕ) : ℤ) := by
      rw [hplace, hpow, div_inv_eq_mul]
      push_cast
      rfl
    have hrounded : (roundHalfEven ((n : ℚ) / (2 : ℚ) ^ lastPlace n) : ℚ) * (2 : ℚ) ^ lastPlace n = n := by
      rw [hscaled, roundHalfEven_intCast, ← hscaled]
      exact div_mul_cancel₀ _ (zpow_ne_zero _ two_ne_zero)
    rw [toDoublePositive, hrounded, if_neg]
    rw [not_le]
    calc (n : ℚ) < 2 ^ 53 := by exact_mod_cast h
      _ ≤ 2 ^ 1024 := pow_le_pow_right₀ one_le_two (by decide)

end NumberText

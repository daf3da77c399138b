import Mathlib.Data.List.Basic
import Mathlib.Data.Nat.Notation
import Mathlib.Tactic.Common

set_option autoImplicit false

/-!
# base64url

Bytes in an alphabet of 64 letters, without padding.

* `encode`, `decode`: between bytes and code units, with the checks that `decode` makes;
* `decode_encode`: reading back what was written;
* `length_encode`, `encode_ascii`: four letters for three bytes, all of them ASCII.
-/

namespace Base64Url

/-- The letter of a number below 64. -/
def letter (n : ℕ) : ℕ :=
  if n < 26 then 0x41 + n
  else if n < 52 then 0x61 + (n - 26)
  else if n < 62 then 0x30 + (n - 52)
  else if n = 62 then 0x2d
  else 0x5f

/-- The number of a letter. -/
def number (u : ℕ) : Option ℕ :=
  if 0x41 ≤ u ∧ u ≤ 0x5a then some (u - 0x41)
  else if 0x61 ≤ u ∧ u ≤ 0x7a then some (u - 0x61 + 26)
  else if 0x30 ≤ u ∧ u ≤ 0x39 then some (u - 0x30 + 52)
  else if u = 0x2d then some 62
  else if u = 0x5f then some 63
  else none

/-- Three bytes at a time; the numbers are split and joined as `&`, `|` and the shifts do. -/
def encode : List ℕ → List ℕ
  | [] => []
  | [first] => [letter (first / 4), letter (first % 4 * 16)]
  | [first, second] =>
    [letter (first / 4), letter (first % 4 * 16 + second / 16), letter (second % 16 * 4)]
  | first :: second :: third :: rest =>
    letter (first / 4) :: letter (first % 4 * 16 + second / 16) ::
      letter (second % 16 * 4 + third / 64) :: letter (third % 64) :: encode rest

/-- The bytes of letters, four at a time; bits past the last byte are dropped. -/
def decodeNumbers : List ℕ → List ℕ
  | a :: b :: c :: d :: rest =>
    (a * 4 + b / 16) :: (b % 16 * 16 + c / 4) :: (c % 4 * 64 + d) :: decodeNumbers rest
  | [a, b, c] => [a * 4 + b / 16, b % 16 * 16 + c / 4]
  | [a, b] => [a * 4 + b / 16]
  | _ => []

/-- Nothing for a text that is empty, has a unit that is no letter, or one letter over. -/
def decode (value : List ℕ) : Option (List ℕ) :=
  if value = [] ∨ value.length % 4 = 1 then none else (value.mapM number).map decodeNumbers

theorem number_letter {n : ℕ} (h : n < 64) : number (letter n) = some n := by
  unfold letter
  split_ifs with h1 h2 h3 h4
  · rw [number, if_pos (by omega), Nat.add_sub_cancel_left]
  · rw [number, if_neg (by omega), if_pos (by omega)]
    congr 1
    omega
  · rw [number, if_neg (by omega), if_neg (by omega), if_pos (by omega)]
    congr 1
    omega
  · rw [h4]
    rfl
  · obtain rfl : n = 63 := by omega
    rfl

/-- The numbers that bytes are split into. -/
def numbers : List ℕ → List ℕ
  | [] => []
  | [first] => [first / 4, first % 4 * 16]
  | [first, second] => [first / 4, first % 4 * 16 + second / 16, second % 16 * 4]
  | first :: second :: third :: rest =>
    first / 4 :: (first % 4 * 16 + second / 16) :: (second % 16 * 4 + third / 64) :: third % 64 ::
      numbers rest

theorem encode_eq (bytes : List ℕ) : encode bytes = (numbers bytes).map letter := by
  induction bytes using encode.induct with
  | case1 | case2 | case3 => rfl
  | case4 first second third rest ih => rw [encode, numbers, ih]; rfl

theorem numbers_lt {bytes : List ℕ} (h : ∀ b ∈ bytes, b < 256) : ∀ n ∈ numbers bytes, n < 64 := by
  induction bytes using encode.induct with
  | case1 => exact nofun
  | case2 first =>
      have h1 := h first (by simp)
      simp only [numbers, List.forall_mem_cons]
      exact ⟨by omega, by omega, nofun⟩
  | case3 first second =>
      have h1 := h first (by simp)
      have h2 := h second (by simp)
      simp only [numbers, List.forall_mem_cons]
      exact ⟨by omega, by omega, by omega, nofun⟩
  | case4 first second third rest ih =>
      have h1 := h first (by simp)
      have h2 := h second (by simp)
      have h3 := h third (by simp)
      simp only [numbers, List.forall_mem_cons]
      exact ⟨by omega, by omega, by omega, by omega, ih fun b hb => h b (by simp [hb])⟩

theorem decodeNumbers_numbers {bytes : List ℕ} (h : ∀ b ∈ bytes, b < 256) :
    decodeNumbers (numbers bytes) = bytes := by
  induction bytes using encode.induct with
  | case1 => rfl
  | case2 first =>
      have h1 := h first (by simp)
      simp only [numbers, decodeNumbers, List.cons.injEq, and_true]
      omega
  | case3 first second =>
      have h1 := h first (by simp)
      have h2 := h second (by simp)
      simp only [numbers, decodeNumbers, List.cons.injEq, and_true]
      omega
  | case4 first second third rest ih =>
      have h1 := h first (by simp)
      have h2 := h second (by simp)
      have h3 := h third (by simp)
      rw [numbers, decodeNumbers, ih fun b hb => h b (by simp [hb])]
      simp only [List.cons.injEq, and_true]
      omega

theorem length_numbers (bytes : List ℕ) :
    (numbers bytes).length = (4 * bytes.length + 2) / 3 := by
  induction bytes using encode.induct with
  | case1 => rfl
  | case2 first => simp [numbers]
  | case3 first second => simp [numbers]
  | case4 first second third rest ih =>
      simp only [numbers, List.length_cons, ih]
      omega

/-- **Four letters for three bytes**, rounded up. -/
theorem length_encode (bytes : List ℕ) : (encode bytes).length = (4 * bytes.length + 2) / 3 := by
  rw [encode_eq, List.length_map, length_numbers]

theorem mapM_number {ns : List ℕ} (h : ∀ n ∈ ns, n < 64) : (ns.map letter).mapM number = some ns := by
  induction ns with
  | nil => rfl
  | cons n ns ih =>
      have ⟨hn, hns⟩ := List.forall_mem_cons.1 h
      rw [List.map_cons, List.mapM_cons, number_letter hn, ih hns]
      rfl

/-- **Reading back what was written.** -/
theorem decode_encode {bytes : List ℕ} (hne : bytes ≠ []) (h : ∀ b ∈ bytes, b < 256) :
    decode (encode bytes) = some bytes := by
  have hlength := length_encode bytes
  have hpos := List.length_pos_of_ne_nil hne
  have hempty : encode bytes ≠ [] := by
    rw [ne_eq, ← List.length_eq_zero_iff]
    omega
  rw [decode, if_neg (not_or.2 ⟨hempty, by omega⟩), encode_eq, mapM_number (numbers_lt h),
    Option.map_some, decodeNumbers_numbers h]

theorem letter_bounds (n : ℕ) : 0x2d ≤ letter n ∧ letter n < 0x7b := by
  unfold letter
  split_ifs <;> omega

/-- The letters are those from the hyphen to the last small one. -/
theorem encode_bounds {bytes : List ℕ} {u : ℕ} (h : u ∈ encode bytes) : 0x2d ≤ u ∧ u < 0x7b := by
  rw [encode_eq] at h
  obtain ⟨n, -, rfl⟩ := List.mem_map.1 h
  exact letter_bounds n

theorem encode_ascii (bytes : List ℕ) : ∀ u ∈ encode bytes, u < 0x80 :=
  fun _ hu => Nat.lt_trans (encode_bounds hu).2 (by decide)

end Base64Url

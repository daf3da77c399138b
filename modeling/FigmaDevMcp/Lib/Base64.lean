import FigmaDevMcp.Lib.Base64Url

set_option autoImplicit false

/-!
# base64

Bytes in the standard alphabet of 64 letters, padded to a multiple of four.

* `encode`, `Decodes`: the text of bytes, and the texts that read as bytes;
* `decodes_encode`, `Decodes.unique`: a text of bytes reads as them, and no text as two;
* `length_encode`, `trailing_encode`: four units for three bytes, and the padding at its end.
-/

namespace Base64

open Base64Url (numbers decodeNumbers numbers_lt decodeNumbers_numbers)

/-- The letter of a number below 64. -/
def letter (n : ℕ) : ℕ :=
  if n < 26 then 0x41 + n
  else if n < 52 then 0x61 + (n - 26)
  else if n < 62 then 0x30 + (n - 52)
  else if n = 62 then 0x2b
  else 0x2f

/-- The number of a letter. -/
def number (u : ℕ) : Option ℕ :=
  if 0x41 ≤ u ∧ u ≤ 0x5a then some (u - 0x41)
  else if 0x61 ≤ u ∧ u ≤ 0x7a then some (u - 0x61 + 26)
  else if 0x30 ≤ u ∧ u ≤ 0x39 then some (u - 0x30 + 52)
  else if u = 0x2b then some 62
  else if u = 0x2f then some 63
  else none

/-- How many padding signs the text of so many bytes ends in. -/
def padding (count : ℕ) : ℕ := (3 - count % 3) % 3

/-- The letters of bytes, with the padding. -/
def encode (bytes : List ℕ) : List ℕ :=
  (numbers bytes).map letter ++ List.replicate (padding bytes.length) 0x3d

/-- A text reads as bytes: letters, and up to two padding signs that fill the last four. -/
structure Decodes (value bytes : List ℕ) : Prop where
  length : value.length % 4 = 0
  reads : ∃ letters ns, ∃ pad ≤ 2, value = letters ++ List.replicate pad 0x3d ∧
    letters.mapM number = some ns ∧ bytes = decodeNumbers ns

theorem number_letter {n : ℕ} (h : n < 64) : number (letter n) = some n := by
  unfold letter
  split_ifs with h1 h2 h3 h4
  · rw [number, if_pos (by omega), Nat.add_sub_cancel_left]
  · rw [number, if_neg (by omega), if_pos (by omega)]
    congr 1
    omega
  · rw [number, if_neg (by omega), if_neg (by omega), if_pos (by omega)]
    congr 1
    omega
  · rw [h4]
    rfl
  · obtain rfl : n = 63 := by omega
    rfl

/-- A letter is a printing character of ASCII. -/
theorem letter_bounds (n : ℕ) : 0x20 < letter n ∧ letter n < 0x80 := by
  unfold letter
  split_ifs <;> omega

/-- Letters are ASCII, and no padding sign is one. -/
theorem lt_of_number {u n : ℕ} (h : number u = some n) : u < 0x80 ∧ u ≠ 0x3d ∧ n < 64 := by
  unfold number at h
  split_ifs at h with h1 h2 h3 h4 h5 <;> obtain rfl := Option.some.inj h <;> omega

theorem letter_ne (n : ℕ) : letter n ≠ 0x3d := by
  unfold letter
  split_ifs <;> omega

theorem mapM_number {ns : List ℕ} (h : ∀ n ∈ ns, n < 64) : (ns.map letter).mapM number = some ns := by
  induction ns with
  | nil => rfl
  | cons n ns ih =>
      have ⟨hn, hns⟩ := List.forall_mem_cons.1 h
      rw [List.map_cons, List.mapM_cons, number_letter hn, ih hns]
      rfl

theorem mapM_number_cons {u : ℕ} {us ns : List ℕ} :
    (u :: us).mapM number = some ns ↔
      ∃ n rest, number u = some n ∧ us.mapM number = some rest ∧ ns = n :: rest := by
  rw [List.mapM_cons]
  constructor
  · intro h
    obtain ⟨n, hn, h⟩ := Option.bind_eq_some_iff.1 h
    obtain ⟨rest, hrest, h⟩ := Option.bind_eq_some_iff.1 h
    exact ⟨n, rest, hn, hrest, (Option.some.inj h).symm⟩
  · rintro ⟨n, rest, hn, hrest, rfl⟩
    rw [hn, hrest]
    rfl

theorem lt_of_mapM_number {letters ns : List ℕ} (h : letters.mapM number = some ns) :
    ∀ u ∈ letters, u < 0x80 ∧ u ≠ 0x3d := by
  induction letters generalizing ns with
  | nil => exact nofun
  | cons u letters ih =>
      obtain ⟨n, rest, hn, hrest, -⟩ := mapM_number_cons.1 h
      have hu := lt_of_number hn
      exact List.forall_mem_cons.2 ⟨⟨hu.1, hu.2.1⟩, ih hrest⟩

theorem exists_mapM_number {letters : List ℕ} (h : ∀ u ∈ letters, (number u).isSome) :
    ∃ ns, letters.mapM number = some ns := by
  induction letters with
  | nil => exact ⟨[], rfl⟩
  | cons u letters ih =>
      have ⟨hu, hrest⟩ := List.forall_mem_cons.1 h
      obtain ⟨n, hn⟩ := Option.isSome_iff_exists.1 hu
      obtain ⟨ns, hns⟩ := ih hrest
      exact ⟨n :: ns, mapM_number_cons.2 ⟨n, ns, hn, hns, rfl⟩⟩

theorem length_encode (bytes : List ℕ) : (encode bytes).length = (bytes.length + 2) / 3 * 4 := by
  rw [encode, List.length_append, List.length_map, Base64Url.length_numbers, List.length_replicate,
    padding]
  omega

theorem encode_bounds (bytes : List ℕ) : ∀ u ∈ encode bytes, 0x20 < u ∧ u < 0x80 := by
  refine List.forall_mem_append.2 ⟨fun u hu => ?_, fun u hu => ?_⟩
  · obtain ⟨n, -, rfl⟩ := List.mem_map.1 hu
    exact letter_bounds n
  · rw [List.eq_of_mem_replicate hu]
    decide

/-- **The text of bytes reads as them.** -/
theorem decodes_encode {bytes : List ℕ} (h : ∀ b ∈ bytes, b < 256) : Decodes (encode bytes) bytes := by
  refine ⟨?_, (numbers bytes).map letter, numbers bytes, padding bytes.length, ?_, rfl,
    mapM_number (numbers_lt h), (decodeNumbers_numbers h).symm⟩
  · rw [length_encode]
    omega
  · rw [padding]
    omega

/-- The padding of a text is what its letters leave of it. -/
theorem append_replicate_inj {xs ys : List ℕ} {m n : ℕ} (hxs : 0x3d ∉ xs) (hys : 0x3d ∉ ys)
    (h : xs ++ List.replicate m 0x3d = ys ++ List.replicate n 0x3d) : xs = ys := by
  have hkeep : ∀ {zs : List ℕ} (k : ℕ), 0x3d ∉ zs →
      (zs ++ List.replicate k 0x3d).filter (· ≠ 0x3d) = zs := by
    intro zs k hzs
    rw [List.filter_append, List.filter_replicate_of_neg (by simp), List.append_nil,
      List.filter_eq_self.2]
    intro u hu
    exact decide_eq_true fun heq => hzs (heq ▸ hu)
  rw [← hkeep m hxs, h, hkeep n hys]

theorem Decodes.unique {value bytes bytes' : List ℕ} (h : Decodes value bytes)
    (h' : Decodes value bytes') : bytes = bytes' := by
  obtain ⟨letters, ns, pad, -, rfl, hns, rfl⟩ := h.reads
  obtain ⟨letters', ns', pad', -, heq, hns', rfl⟩ := h'.reads
  obtain rfl := append_replicate_inj (fun hmem => (lt_of_mapM_number hns _ hmem).2 rfl)
    (fun hmem => (lt_of_mapM_number hns' _ hmem).2 rfl) heq
  rw [Option.some.inj (hns.symm.trans hns')]

/-- The text of bytes ends in its padding. -/
theorem trailing_encode (bytes : List ℕ) :
    ((encode bytes).reverse.takeWhile (· == 0x3d)).length = padding bytes.length := by
  rw [encode, List.reverse_append, List.reverse_replicate, List.takeWhile_append_of_pos (by simp),
    List.length_append, List.length_replicate]
  have hletters : ∀ u ∈ ((numbers bytes).map letter).reverse, ¬ (u == 0x3d) = true := by
    intro u hu
    obtain ⟨n, -, rfl⟩ := List.mem_map.1 (List.mem_reverse.1 hu)
    simpa using letter_ne n
  cases hrev : ((numbers bytes).map letter).reverse with
  | nil => rfl
  | cons u us =>
      have hu := hletters u (hrev ▸ List.mem_cons_self)
      rw [List.takeWhile_cons_of_neg (by exact hu)]
      rfl

end Base64

import FigmaDevMcp.Lib.WhileLoop
import FigmaDevMcp.Ui.Raster

set_option autoImplicit false

/-!
# The dimensions of a JPEG

`jpegDimensions` of `raster.ts`: a scan over the segments of the file for its frame header. A byte
past the end has no value here, where the source has `-1`: that it is never asked for is part of
what follows.

* `jpegRound`, `jpegLoop`, `jpegDimensions`: from the source;
* `jpegLoop_advances`: **every round moves the index, and reads no byte past the end**;
* `Reads`: what the scan takes for segments, as a grammar; `jpegDimensions_eq_some`;
* `WellFormed`: the segments of a JPEG, whose markers may come after fill bytes;
* `jpegDimensions_iff`: **when the scan finds the frame of a well-formed JPEG**.
-/

namespace FigmaDevMcp.Raster

/-- The size of an image. -/
structure Dimensions where
  width : ℕ
  height : ℕ
  deriving DecidableEq

/-! ## The scan -/

/-- The byte at an index. -/
def byte (bytes : List UInt8) (index : ℕ) : Option ℕ := bytes[index]?.map UInt8.toNat

/-- Two bytes, the first one above. -/
def readUint16 (bytes : List UInt8) (index : ℕ) : Option ℕ := do
  return (← byte bytes index) <<< 8 ||| (← byte bytes (index + 1))

/-- The markers without a length. -/
def isStandalone (marker : ℕ) : Bool := marker == 0x01 || (0xd0 ≤ marker && marker ≤ 0xd9)

/-- The marker of a segment with the size of the image. -/
def isSof (marker : ℕ) : Bool :=
  (0xc0 ≤ marker && marker ≤ 0xc3) || (0xc5 ≤ marker && marker ≤ 0xc7) ||
    (0xc9 ≤ marker && marker ≤ 0xcb) || (0xcd ≤ marker && marker ≤ 0xcf)

/-- One round of the scan. -/
def jpegRound (bytes : List UInt8) (index : ℕ) :
    Option (WhileLoop.Round ℕ (Option Dimensions)) := do
  if (← byte bytes index) ≠ 0xff then
    return .leave none
  let marker ← byte bytes (index + 1)
  let index := index + 2
  if isStandalone marker then
    return .again index
  if bytes.length ≤ index + 1 then
    return .leave none
  let length ← readUint16 bytes index
  if length < 2 ∨ bytes.length < index + length then
    return .leave none
  if isSof marker then
    if bytes.length ≤ index + 6 then
      return .leave none
    let height ← readUint16 bytes (index + 3)
    let width ← readUint16 bytes (index + 5)
    return .leave (some ⟨width, height⟩)
  return .again (index + length)

/-- The loop over the segments. -/
def jpegLoop (bytes : List UInt8) : WhileLoop ℕ (Option Dimensions) where
  test index := index + 1 < bytes.length
  body := jpegRound bytes
  exit _ := none

/-- The size in the first segment that has it, given enough fuel. -/
def jpegDimensions (bytes : List UInt8) (fuel : ℕ) : Option (Option Dimensions) :=
  if isJpeg (bytes.map UInt8.toNat) then (jpegLoop bytes).run fuel 2 else some none

/-! ## What a round does -/

/-- The number of two bytes. -/
def word (high low : UInt8) : ℕ := high.toNat * 256 + low.toNat

theorem byte_of_drop {bytes rest : List UInt8} {index : ℕ} {b : UInt8}
    (h : bytes.drop index = b :: rest) : byte bytes index = some b.toNat := by
  have hget : (bytes.drop index)[0]? = some b := by rw [h]; rfl
  rw [List.getElem?_drop, Nat.add_zero] at hget
  rw [byte, hget]
  rfl

theorem drop_succ_of_drop {bytes rest : List UInt8} {index : ℕ} {b : UInt8}
    (h : bytes.drop index = b :: rest) : bytes.drop (index + 1) = rest := by
  rw [← List.tail_drop, h]
  rfl

theorem shiftLeft_or (high low : UInt8) : high.toNat <<< 8 ||| low.toNat = word high low := by
  rw [← Nat.shiftLeft_add_eq_or_of_lt (by exact low.toNat_lt), Nat.shiftLeft_eq, word]

theorem readUint16_of_drop {bytes rest : List UInt8} {index : ℕ} {high low : UInt8}
    (h : bytes.drop index = high :: low :: rest) :
    readUint16 bytes index = some (word high low) := by
  rw [readUint16, byte_of_drop h, byte_of_drop (drop_succ_of_drop h)]
  exact congrArg some (shiftLeft_or high low)

/-- What a round makes of the bytes from its index on: how many it skips, or what it returns. -/
def segmentAt : List UInt8 → WhileLoop.Round ℕ (Option Dimensions)
  | b :: marker :: after =>
    if b.toNat ≠ 0xff then .leave none
    else if isStandalone marker.toNat then .again 2
    else
      match after with
      | high :: low :: more =>
        if word high low < 2 ∨ more.length + 2 < word high low then .leave none
        else if isSof marker.toNat then
          match more with
          | _ :: y₁ :: y₀ :: x₁ :: x₀ :: _ => .leave (some ⟨word x₁ x₀, word y₁ y₀⟩)
          | _ => .leave none
        else .again (2 + word high low)
      | _ => .leave none
  | _ => .leave none

/-- A round that starts further on. -/
def shift (index : ℕ) : WhileLoop.Round ℕ (Option Dimensions) →
    WhileLoop.Round ℕ (Option Dimensions)
  | .again n => .again (index + n)
  | .leave r => .leave r

theorem length_of_drop {bytes rest : List UInt8} {index : ℕ} (h : bytes.drop index = rest)
    (hne : rest ≠ []) : bytes.length = index + rest.length := by
  have hlen := congrArg List.length h
  have hpos := List.length_pos_of_ne_nil hne
  rw [List.length_drop] at hlen
  omega

/-- **No round asks for a byte past the end.** -/
theorem jpegRound_eq {bytes : List UInt8} {index : ℕ} (h : index + 1 < bytes.length) :
    jpegRound bytes index = some (shift index (segmentAt (bytes.drop index))) := by
  match hrest : bytes.drop index with
  | [] | [_] =>
      have hlen := congrArg List.length hrest
      simp only [List.length_drop, List.length_cons, List.length_nil] at hlen
      omega
  | b :: marker :: after =>
      have hmarker := drop_succ_of_drop hrest
      have hafter := drop_succ_of_drop hmarker
      have hlen := length_of_drop hrest (List.cons_ne_nil _ _)
      simp only [List.length_cons] at hlen
      unfold jpegRound segmentAt
      rw [byte_of_drop hrest, byte_of_drop hmarker]
      simp only [Option.bind_eq_bind, Option.bind_some]
      by_cases hb : b.toNat ≠ 0xff
      · rw [if_pos hb, if_pos hb]
        rfl
      rw [if_neg hb, if_neg hb]
      by_cases hstandalone : isStandalone marker.toNat = true
      · rw [if_pos hstandalone, if_pos hstandalone]
        rfl
      rw [if_neg hstandalone, if_neg hstandalone]
      match hmore : after with
      | [] | [_] =>
          rw [if_pos (by simp only [List.length_cons, List.length_nil] at hlen; omega)]
          rfl
      | high :: low :: more =>
          simp only [List.length_cons] at hlen
          rw [if_neg (by omega), readUint16_of_drop hafter, Option.bind_some]
          dsimp only
          by_cases hlength : word high low < 2 ∨ more.length + 2 < word high low
          · rw [if_pos hlength, if_pos (by omega)]
            rfl
          rw [if_neg hlength, if_neg (by omega)]
          by_cases hsof : isSof marker.toNat = true
          · rw [if_pos hsof, if_pos hsof]
            match hframe : more with
            | [] | [_] | [_, _] | [_, _, _] | [_, _, _, _] =>
                rw [if_pos (by simp only [List.length_cons, List.length_nil] at hlen; omega)]
                rfl
            | _ :: y₁ :: y₀ :: x₁ :: x₀ :: rest =>
                simp only [List.length_cons] at hlen
                have hheight : bytes.drop (index + 2 + 3) = y₁ :: y₀ :: x₁ :: x₀ :: rest :=
                  drop_succ_of_drop (drop_succ_of_drop (drop_succ_of_drop hafter))
                have hwidth : bytes.drop (index + 2 + 5) = x₁ :: x₀ :: rest :=
                  drop_succ_of_drop (drop_succ_of_drop hheight)
                rw [if_neg (by omega), readUint16_of_drop hheight, readUint16_of_drop hwidth]
                rfl
          · rw [if_neg hsof, if_neg hsof, shift, ← Nat.add_assoc]
            rfl

/-- A round that goes around again has that many bytes before it. -/
theorem segmentAt_again {bytes : List UInt8} {n : ℕ} (h : segmentAt bytes = .again n) :
    2 ≤ n ∧ n ≤ bytes.length := by
  revert h
  fun_cases segmentAt bytes <;> intro h <;> cases h
  · simp
  · rename_i hlength _
    simp only [List.length_cons]
    omega

/-- **Every round moves the index on, within the bytes.** -/
theorem jpegLoop_advances (bytes : List UInt8) : (jpegLoop bytes).Advances id bytes.length where
  returns _ _ htest := ⟨_, jpegRound_eq (of_decide_eq_true htest)⟩
  forward := by
    intro index t _ htest hbody
    have hround := jpegRound_eq (of_decide_eq_true htest)
    rw [show (jpegLoop bytes).body index = jpegRound bytes index from rfl, hround,
      Option.some.injEq] at hbody
    cases hsegment : segmentAt (bytes.drop index) with
    | leave r => rw [hsegment] at hbody; cases hbody
    | again n =>
        rw [hsegment] at hbody
        cases hbody
        have hn := segmentAt_again hsegment
        rw [List.length_drop] at hn
        constructor <;> dsimp only [id] <;> omega

/-! ## What the scan reads -/

/-- Segments without fill bytes, whatever their markers are, up to a frame header. -/
inductive Reads : List UInt8 → Dimensions → Prop where
  | standalone {marker : UInt8} {rest : List UInt8} {d : Dimensions} :
    isStandalone marker.toNat = true → Reads rest d → Reads (0xff :: marker :: rest) d
  | segment {marker high low : UInt8} {payload rest : List UInt8} {d : Dimensions} :
    isStandalone marker.toNat = false → isSof marker.toNat = false →
    word high low = payload.length + 2 → Reads rest d →
    Reads (0xff :: marker :: high :: low :: (payload ++ rest)) d
  | frame {marker high low precision y₁ y₀ x₁ x₀ : UInt8} {rest : List UInt8} :
    isSof marker.toNat = true → 2 ≤ word high low → word high low ≤ rest.length + 7 →
    Reads (0xff :: marker :: high :: low :: precision :: y₁ :: y₀ :: x₁ :: x₀ :: rest)
      ⟨word x₁ x₀, word y₁ y₀⟩

theorem isStandalone_of_isSof {marker : ℕ} (h : isSof marker = true) :
    isStandalone marker = false := by
  simp only [isSof, isStandalone, Bool.or_eq_true, Bool.and_eq_true, decide_eq_true_eq,
    Bool.or_eq_false_iff, Bool.and_eq_false_iff, decide_eq_false_iff_not, beq_eq_false_iff_ne] at h ⊢
  omega

theorem segmentAt_standalone {marker : UInt8} (rest : List UInt8)
    (h : isStandalone marker.toNat = true) : segmentAt (0xff :: marker :: rest) = .again 2 := by
  simp [segmentAt, h]

theorem segmentAt_segment {marker high low : UInt8} {more : List UInt8}
    (hstandalone : isStandalone marker.toNat = false) (hsof : isSof marker.toNat = false)
    (htwo : 2 ≤ word high low) (hlength : word high low ≤ more.length + 2) :
    segmentAt (0xff :: marker :: high :: low :: more) = .again (2 + word high low) := by
  have hnot : ¬ (word high low < 2 ∨ more.length + 2 < word high low) := by omega
  unfold segmentAt
  dsimp only
  rw [if_neg (by decide), hstandalone, if_neg Bool.false_ne_true, if_neg hnot,
    hsof, if_neg Bool.false_ne_true]

theorem segmentAt_frame {marker high low precision y₁ y₀ x₁ x₀ : UInt8} {rest : List UInt8}
    (hsof : isSof marker.toNat = true) (htwo : 2 ≤ word high low)
    (hlength : word high low ≤ rest.length + 7) :
    segmentAt (0xff :: marker :: high :: low :: precision :: y₁ :: y₀ :: x₁ :: x₀ :: rest) =
      .leave (some ⟨word x₁ x₀, word y₁ y₀⟩) := by
  have hnot : ¬ (word high low < 2 ∨
      (precision :: y₁ :: y₀ :: x₁ :: x₀ :: rest).length + 2 < word high low) := by
    simp only [List.length_cons]
    omega
  unfold segmentAt
  dsimp only
  rw [if_neg (by decide), isStandalone_of_isSof hsof, if_neg Bool.false_ne_true,
    if_neg hnot, hsof, if_pos rfl]

theorem eq_of_toNat {b : UInt8} (h : b.toNat = 0xff) : b = 0xff := UInt8.toNat_inj.1 h

/-- The grammar, round by round. -/
theorem reads_iff {bytes : List UInt8} {d : Dimensions} :
    Reads bytes d ↔
      match segmentAt bytes with
      | .again n => Reads (bytes.drop n) d
      | .leave r => r = some d := by
  constructor
  · intro h
    cases h with
    | standalone hstandalone hrest => rwa [segmentAt_standalone _ hstandalone]
    | @segment marker high low payload rest _ hstandalone hsof hlength hrest =>
        rw [segmentAt_segment hstandalone hsof (by omega) (by simp; omega), hlength]
        show Reads ((0xff :: marker :: high :: low :: (payload ++ rest)).drop _) d
        rw [show 2 + (payload.length + 2) = payload.length + 4 by omega]
        simpa using hrest
    | frame hsof htwo hlength => rw [segmentAt_frame hsof htwo hlength]
  · fun_cases segmentAt bytes with
    | case1 | case3 | case5 | case7 | case8 => exact nofun
    | case2 b marker more hb hstandalone =>
        obtain rfl := eq_of_toNat (not_not.1 hb)
        exact Reads.standalone hstandalone
    | case4 b marker hb _ high low hsof precision y₁ y₀ x₁ x₀ rest hlength =>
        obtain rfl := eq_of_toNat (not_not.1 hb)
        rintro ⟨⟩
        simp only [List.length_cons] at hlength
        exact Reads.frame hsof (by omega) (by omega)
    | case6 b marker hb hstandalone high low more hlength hsof =>
        obtain rfl := eq_of_toNat (not_not.1 hb)
        rw [Bool.not_eq_true] at hstandalone hsof
        obtain ⟨n, hn⟩ : ∃ n, word high low = n + 2 := ⟨word high low - 2, by omega⟩
        intro hrest
        dsimp only at hrest
        rw [hn, show 2 + (n + 2) = n + 4 by omega] at hrest
        have hpayload : (more.take n).length = n := by
          rw [List.length_take]
          omega
        have hread := @Reads.segment marker high low (more.take n) (more.drop n) d
          hstandalone hsof (by rw [hn, hpayload]) hrest
        rwa [List.take_append_drop] at hread

theorem not_reads_of_short {bytes : List UInt8} {d : Dimensions} (h : bytes.length < 2) :
    ¬ Reads bytes d := by
  intro hreads
  cases hreads <;> simp only [List.length_cons] at h <;> omega

/-- **The scan returns, with what it reads.** -/
theorem jpegLoop_run {bytes : List UInt8} {fuel : ℕ} (hfuel : bytes.length < fuel) {index : ℕ}
    (h : index ≤ bytes.length) :
    ∃ r, (jpegLoop bytes).run fuel index = some r ∧
      ∀ d, r = some d ↔ Reads (bytes.drop index) d := by
  apply (jpegLoop_advances bytes).exists_run (P := fun index r =>
    ∀ d, r = some d ↔ Reads (bytes.drop index) d)
  · intro index _ htest d
    have hend : bytes.length ≤ index + 1 := Nat.le_of_not_lt (of_decide_eq_false htest)
    have hshort := not_reads_of_short (d := d)
      (by rw [List.length_drop]; omega : (bytes.drop index).length < 2)
    exact ⟨nofun, fun hreads => absurd hreads hshort⟩
  · intro index r _ htest hbody d
    have hround := jpegRound_eq (of_decide_eq_true htest)
    rw [show (jpegLoop bytes).body index = jpegRound bytes index from rfl, hround,
      Option.some.injEq] at hbody
    rw [reads_iff]
    cases hsegment : segmentAt (bytes.drop index) with
    | again n => rw [hsegment] at hbody; cases hbody
    | leave r => rw [hsegment] at hbody; cases hbody; exact Iff.rfl
  · intro index t r _ htest hbody hpost d
    have hround := jpegRound_eq (of_decide_eq_true htest)
    rw [show (jpegLoop bytes).body index = jpegRound bytes index from rfl, hround,
      Option.some.injEq] at hbody
    rw [reads_iff]
    cases hsegment : segmentAt (bytes.drop index) with
    | leave r => rw [hsegment] at hbody; cases hbody
    | again n =>
        rw [hsegment] at hbody
        cases hbody
        rw [hpost d, ← List.drop_drop]
  · exact h
  · exact Nat.lt_of_le_of_lt (Nat.sub_le _ _) hfuel

/-! ## Well-formed files -/

/-- Segments up to the frame header, each after any number of fill bytes. -/
inductive Segments : List UInt8 → Dimensions → Prop where
  | standalone (fill : ℕ) {marker : UInt8} {rest : List UInt8} {d : Dimensions} :
    isStandalone marker.toNat = true → Segments rest d →
    Segments (List.replicate fill 0xff ++ 0xff :: marker :: rest) d
  | segment (fill : ℕ) {marker high low : UInt8} {payload rest : List UInt8} {d : Dimensions} :
    isStandalone marker.toNat = false → isSof marker.toNat = false → marker ≠ 0xff → marker ≠ 0 →
    word high low = payload.length + 2 → Segments rest d →
    Segments (List.replicate fill 0xff ++ 0xff :: marker :: high :: low :: (payload ++ rest)) d
  | frame (fill : ℕ) {marker high low precision y₁ y₀ x₁ x₀ : UInt8} {components rest : List UInt8} :
    isSof marker.toNat = true → word high low = components.length + 7 →
    Segments (List.replicate fill 0xff ++ 0xff :: marker :: high :: low :: precision ::
      y₁ :: y₀ :: x₁ :: x₀ :: (components ++ rest)) ⟨word x₁ x₀, word y₁ y₀⟩

/-- A file with the dimensions `d` in its first frame header. -/
def WellFormed (bytes : List UInt8) (d : Dimensions) : Prop :=
  ∃ rest, bytes = 0xff :: 0xd8 :: rest ∧ Segments rest d

/-- What comes after the marker and its first fill byte, at the first marker that has one. -/
inductive FirstFill : List UInt8 → List UInt8 → Prop where
  | here (following : List UInt8) : FirstFill (0xff :: 0xff :: following) following
  | standalone {marker : UInt8} {rest following : List UInt8} :
    isStandalone marker.toNat = true → FirstFill rest following →
    FirstFill (0xff :: marker :: rest) following
  | segment {marker high low : UInt8} {payload rest following : List UInt8} :
    isStandalone marker.toNat = false → isSof marker.toNat = false → marker ≠ 0xff →
    word high low = payload.length + 2 → FirstFill rest following →
    FirstFill (0xff :: marker :: high :: low :: (payload ++ rest)) following

/-- Two bytes that, read as a length, lead to a frame header of these dimensions all the same. -/
def Detour (following : List UInt8) (d : Dimensions) : Prop :=
  ∃ high low payload rest, following = high :: low :: (payload ++ rest) ∧
    word high low = payload.length + 2 ∧ Reads rest d

theorem firstFill_fill {bytes following : List UInt8} :
    FirstFill (0xff :: 0xff :: bytes) following ↔ following = bytes := by
  constructor
  · intro h
    cases h with
    | here => rfl
    | standalone hstandalone => exact absurd hstandalone (by decide)
    | segment _ _ hne => exact absurd rfl hne
  · rintro rfl
    exact .here _

theorem reads_fill {following : List UInt8} {d : Dimensions} :
    Reads (0xff :: 0xff :: following) d ↔ Detour following d := by
  constructor
  · intro h
    cases h with
    | standalone hstandalone => exact absurd hstandalone (by decide)
    | segment _ _ hlength hrest => exact ⟨_, _, _, _, rfl, hlength, hrest⟩
    | frame hsof => exact absurd hsof (by decide)
  · rintro ⟨high, low, payload, rest, rfl, hlength, hrest⟩
    exact .segment (by decide) (by decide) hlength hrest

theorem reads_iff_of_fill (fill : ℕ) (tail : List UInt8) (d : Dimensions) :
    Reads (List.replicate (fill + 1) 0xff ++ 0xff :: tail) d ↔
      ∀ following, FirstFill (List.replicate (fill + 1) 0xff ++ 0xff :: tail) following →
        Detour following d := by
  have hbytes : List.replicate (fill + 1) 0xff ++ 0xff :: tail =
      0xff :: 0xff :: (List.replicate fill 0xff ++ tail) := by
    rw [List.append_cons, ← List.replicate_succ']
    rfl
  rw [hbytes, reads_fill]
  simp only [firstFill_fill, forall_eq]

theorem reads_standalone {marker : UInt8} {rest : List UInt8} {d : Dimensions}
    (h : isStandalone marker.toNat = true) : Reads (0xff :: marker :: rest) d ↔ Reads rest d := by
  rw [reads_iff, segmentAt_standalone rest h]
  exact Iff.rfl

theorem reads_segment {marker high low : UInt8} {payload rest : List UInt8} {d : Dimensions}
    (hstandalone : isStandalone marker.toNat = false) (hsof : isSof marker.toNat = false)
    (hlength : word high low = payload.length + 2) :
    Reads (0xff :: marker :: high :: low :: (payload ++ rest)) d ↔ Reads rest d := by
  have hle : word high low ≤ (payload ++ rest).length + 2 := by
    rw [hlength, List.length_append]
    omega
  have hdrop : (0xff :: marker :: high :: low :: (payload ++ rest)).drop (2 + word high low) =
      rest := by
    rw [hlength, show 2 + (payload.length + 2) = payload.length + 4 by omega]
    exact List.drop_left
  rw [reads_iff, segmentAt_segment hstandalone hsof (by omega) hle]
  dsimp only
  rw [hdrop]

theorem firstFill_standalone {marker : UInt8} {rest following : List UInt8}
    (h : isStandalone marker.toNat = true) :
    FirstFill (0xff :: marker :: rest) following ↔ FirstFill rest following := by
  constructor
  · intro hfill
    cases hfill with
    | here => exact absurd h (by decide)
    | standalone _ hrest => exact hrest
    | segment hstandalone => exact absurd h (by simp [hstandalone])
  · exact FirstFill.standalone h

theorem firstFill_segment {marker high low : UInt8} {payload rest following : List UInt8}
    (hstandalone : isStandalone marker.toNat = false) (hsof : isSof marker.toNat = false)
    (hne : marker ≠ 0xff) (hlength : word high low = payload.length + 2) :
    FirstFill (0xff :: marker :: high :: low :: (payload ++ rest)) following ↔
      FirstFill rest following := by
  constructor
  · intro hfill
    generalize hbytes : 0xff :: marker :: high :: low :: (payload ++ rest) = bytes at hfill
    cases hfill with
    | here => exact absurd (List.cons.inj (List.cons.inj hbytes).2).1 hne
    | standalone hother =>
        rw [← (List.cons.inj (List.cons.inj hbytes).2).1, hstandalone] at hother
        cases hother
    | segment _ _ _ hlength' hrest =>
        simp only [List.cons.injEq] at hbytes
        obtain ⟨-, rfl, rfl, rfl, happend⟩ := hbytes
        have hsplit := List.append_inj happend (by omega)
        rw [hsplit.2]
        exact hrest
  · exact FirstFill.segment hstandalone hsof hne hlength

theorem not_firstFill_frame {marker : UInt8} {rest following : List UInt8}
    (hsof : isSof marker.toNat = true) : ¬ FirstFill (0xff :: marker :: rest) following := by
  intro hfill
  cases hfill with
  | here => exact absurd hsof (by decide)
  | standalone hstandalone => exact absurd hstandalone (by simp [isStandalone_of_isSof hsof])
  | segment _ hnot => exact absurd hsof (by simp [hnot])

/-- **The scan reads the segments of a file as they are** up to the first fill byte. -/
theorem reads_iff_of_segments {bytes : List UInt8} {d : Dimensions} (h : Segments bytes d) :
    Reads bytes d ↔ ∀ following, FirstFill bytes following → Detour following d := by
  induction h with
  | standalone fill hstandalone _ ih =>
      cases fill with
      | zero =>
          simp only [List.replicate_zero, List.nil_append, reads_standalone hstandalone,
            firstFill_standalone hstandalone]
          exact ih
      | succ fill => exact reads_iff_of_fill fill _ _
  | segment fill hstandalone hsof hne _ hlength _ ih =>
      cases fill with
      | zero =>
          simp only [List.replicate_zero, List.nil_append,
            reads_segment hstandalone hsof hlength,
            firstFill_segment hstandalone hsof hne hlength]
          exact ih
      | succ fill => exact reads_iff_of_fill fill _ _
  | frame fill hsof hlength =>
      cases fill with
      | zero =>
          refine ⟨fun _ following hfill => absurd hfill (not_firstFill_frame hsof), fun _ => ?_⟩
          refine Reads.frame hsof (by omega) ?_
          rw [hlength, List.length_append]
          omega
      | succ fill => exact reads_iff_of_fill fill _ _

/-! ## When the scan is right -/

theorem Segments.two_le {bytes : List UInt8} {d : Dimensions} (h : Segments bytes d) :
    2 ≤ bytes.length := by
  cases h <;> simp only [List.length_append, List.length_cons] <;> omega

theorem isJpeg_of_wellFormed {rest : List UInt8} (h : 2 ≤ rest.length) :
    isJpeg ((0xff :: 0xd8 :: rest).map UInt8.toNat) = true := by
  simp [isJpeg, matchesAt, List.isPrefixOf]
  omega

theorem two_le_of_isJpeg {bytes : List UInt8} (h : isJpeg (bytes.map UInt8.toNat) = true) :
    2 ≤ bytes.length := by
  simp only [isJpeg, List.length_map, Bool.and_eq_true, decide_eq_true_eq] at h
  omega

/-- **On every byte array the scan ends, its index moving on, and reads nothing past the end. On a
well-formed file it finds the frame header exactly when no marker up to there comes after a fill
byte**, or the first one that does leads to a frame header of the same dimensions by accident. -/
theorem jpegDimensions_iff (bytes : List UInt8) (fuel : ℕ) (hfuel : bytes.length < fuel) :
    (jpegLoop bytes).Advances id bytes.length ∧ (∃ r, jpegDimensions bytes fuel = some r) ∧
      ∀ d, WellFormed bytes d →
        (jpegDimensions bytes fuel = some (some d) ↔
          ∀ following, FirstFill (bytes.drop 2) following → Detour following d) := by
  refine ⟨jpegLoop_advances bytes, ?_, ?_⟩
  · unfold jpegDimensions
    split_ifs with hjpeg
    · obtain ⟨r, hrun, -⟩ := jpegLoop_run hfuel (two_le_of_isJpeg hjpeg)
      exact ⟨r, hrun⟩
    · exact ⟨none, rfl⟩
  · rintro d ⟨rest, rfl, hsegments⟩
    have hjpeg := isJpeg_of_wellFormed hsegments.two_le
    obtain ⟨r, hrun, hr⟩ := jpegLoop_run hfuel (two_le_of_isJpeg hjpeg)
    rw [jpegDimensions, if_pos hjpeg, hrun, Option.some.injEq, hr d]
    exact reads_iff_of_segments hsegments

/-- A segment of application data, a restart marker, which has no length, and then a frame header
of 32 by 16. -/
def plainFile : List UInt8 :=
  [0xff, 0xd8, 0xff, 0xe0, 0x00, 0x04, 0x4a, 0x46, 0xff, 0xd0, 0xff, 0xc0, 0x00, 0x0b, 0x08,
    0x00, 0x10, 0x00, 0x20, 0x01, 0x01, 0x11, 0x00]

/-- A frame header of 32 by 16, with one fill byte before its marker. -/
def filledFile : List UInt8 :=
  [0xff, 0xd8, 0xff, 0xff, 0xc0, 0x00, 0x0b, 0x08, 0x00, 0x10, 0x00, 0x20, 0x01, 0x01, 0x11, 0x00]

theorem segments_plainFile : Segments (plainFile.drop 2) ⟨32, 16⟩ := by
  have hframe := @Segments.frame 0 0xc0 0x00 0x0b 0x08 0x00 0x10 0x00 0x20
    [0x01, 0x01, 0x11, 0x00] [] (by decide) (by decide)
  exact @Segments.segment 0 0xe0 0x00 0x04 [0x4a, 0x46] _ _ (by decide) (by decide) (by decide)
    (by decide) (by decide) (@Segments.standalone 0 0xd0 _ _ (by decide) hframe)

theorem jpegDimensions_iff_plain : jpegDimensions plainFile 24 = some (some ⟨32, 16⟩) := by
  have hfile : WellFormed plainFile ⟨32, 16⟩ := ⟨_, rfl, segments_plainFile⟩
  apply ((jpegDimensions_iff plainFile 24 (by decide)).2.2 _ hfile).2
  intro following hfill
  -- Neither segment is followed by a fill byte, and the frame header ends the search for one.
  have hsegment := @firstFill_segment 0xe0 0x00 0x04 [0x4a, 0x46] (plainFile.drop 8) following
    (by decide) (by decide) (by decide) (by decide)
  have hrestart := (firstFill_standalone (by decide)).1 (hsegment.1 hfill)
  exact absurd hrestart (not_firstFill_frame (by decide))

/-- A well-formed file whose frame header the scan does not find. -/
theorem jpegDimensions_fill :
    WellFormed filledFile ⟨32, 16⟩ ∧ jpegDimensions filledFile 17 = some none := by
  refine ⟨⟨_, rfl, ?_⟩, by decide +kernel⟩
  exact @Segments.frame 1 0xc0 0x00 0x0b 0x08 0x00 0x10 0x00 0x20 [0x01, 0x01, 0x11, 0x00] []
    (by decide) (by decide)

end FigmaDevMcp.Raster

import FigmaDevMcp.Lib.CssTokenizer

set_option autoImplicit false

/-!
# Text and its stream of code points

How a text in UTF-16 and the code points the tokenizer reads of it go together, place by place:
a line break, a surrogate pair and any other code unit each stand for one code point, and U+FFFD
stands in for NUL and for a lone surrogate.

* `Reads`: the text and the stream at the same place;
* `reads_preprocess`: every text starts so;
* `noneReplaced`, `Reads.kept`: where U+FFFD stands in for nothing;
* `Alike`: what the two have in common at such a place.
-/

namespace CssTokenizer

/-- A line feed, a form feed or a carriage return. -/
def isLineBreak (c : ℕ) : Bool := c == 0x0a || c == 0x0c || c == 0x0d

/-- A unit that U+FFFD stands in for, before the units `us`. -/
def IsReplaced (c : ℕ) (us : List ℕ) : Prop :=
  c = 0 ∨ Utf16.isSurrogate c ∧ (Utf16.isHighSurrogate c → us.head?.any Utf16.isLowSurrogate = false)

/-- The text and the stream at the same place. U+FFFD stands in for a unit only where fewer than `m`
units are left behind it. -/
inductive Reads (m : ℕ) : List ℕ → List ℕ → Prop where
  | nil : Reads m [] []
  | crlf {us cs : List ℕ} : Reads m us cs → Reads m (0x0d :: 0x0a :: us) (0x0a :: cs)
  | newline {c : ℕ} {us cs : List ℕ} : isLineBreak c → (c = 0x0d → us.head? ≠ some 0x0a) →
      Reads m us cs → Reads m (c :: us) (0x0a :: cs)
  | pair {high low : ℕ} {us cs : List ℕ} : Utf16.isHighSurrogate high → Utf16.isLowSurrogate low →
      Reads m us cs → Reads m (high :: low :: us) (Utf16.pairValue high low :: cs)
  | plain {c : ℕ} {us cs : List ℕ} : isLineBreak c = false → c ≠ 0 → Utf16.isSurrogate c = false →
      c < 0x10000 → Reads m us cs → Reads m (c :: us) (c :: cs)
  | replaced {c : ℕ} {us cs : List ℕ} : IsReplaced c us → us.length < m →
      Reads m us cs → Reads m (c :: us) (replacement :: cs)

/-- The code unit and the code point are the same, both line breaks, or both outside ASCII; or
U+FFFD stands in for NUL. -/
inductive Alike : ℕ → ℕ → Prop where
  | same {c : ℕ} : isLineBreak c = false → c ≠ 0 → Alike c c
  | newline {c : ℕ} : isLineBreak c → Alike c 0x0a
  | wide {c d : ℕ} : 0x80 ≤ c → 0x80 ≤ d → Alike c d
  | nul : Alike 0 replacement

theorem highSurrogate_ge {c : ℕ} (h : Utf16.isHighSurrogate c) : 0xd800 ≤ c := by
  simp only [Utf16.isHighSurrogate, Bool.and_eq_true, decide_eq_true_eq] at h
  exact h.1

theorem lowSurrogate_ge {c : ℕ} (h : Utf16.isLowSurrogate c) : 0xdc00 ≤ c := by
  simp only [Utf16.isLowSurrogate, Bool.and_eq_true, decide_eq_true_eq] at h
  exact h.1

theorem surrogate_ge {c : ℕ} (h : Utf16.isSurrogate c) : 0xd800 ≤ c := by
  simp only [Utf16.isSurrogate, Bool.and_eq_true, decide_eq_true_eq] at h
  exact h.1

theorem IsReplaced.alike {c : ℕ} {us : List ℕ} (h : IsReplaced c us) : Alike c replacement := by
  rcases h with rfl | ⟨hs, -⟩
  · exact .nul
  · exact .wide (Nat.le_trans (by decide) (surrogate_ge hs)) (by decide)

section Reads

variable {m : ℕ}

/-- Both are at their end, or their heads are alike. -/
theorem Reads.head {us cs : List ℕ} (h : Reads m us cs) :
    (us = [] ∧ cs = []) ∨ ∃ c us' d cs', us = c :: us' ∧ cs = d :: cs' ∧ Alike c d := by
  cases h with
  | nil => exact Or.inl ⟨rfl, rfl⟩
  | crlf _ => exact Or.inr ⟨_, _, _, _, rfl, rfl, .newline rfl⟩
  | newline hc _ _ => exact Or.inr ⟨_, _, _, _, rfl, rfl, .newline hc⟩
  | pair hh _ _ =>
    refine Or.inr ⟨_, _, _, _, rfl, rfl, .wide ?_ ?_⟩
    · have := highSurrogate_ge hh
      omega
    · exact Nat.le_trans (by decide) (Utf16.le_pairValue _ _)
  | plain hl h0 _ _ _ => exact Or.inr ⟨_, _, _, _, rfl, rfl, .same hl h0⟩
  | replaced hc _ _ => exact Or.inr ⟨_, _, _, _, rfl, rfl, hc.alike⟩

theorem Reads.alike {c d : ℕ} {us cs : List ℕ} (h : Reads m (c :: us) (d :: cs)) : Alike c d := by
  obtain ⟨hu, -⟩ | ⟨c', us', d', cs', hu, hc, ha⟩ := h.head
  · cases hu
  · rw [(List.cons.inj hu).1, (List.cons.inj hc).1]
    exact ha

/-- A check that only asks what alike codes have in common says the same of both heads. -/
theorem Reads.any_head {f g : ℕ → Bool} (hfg : ∀ {c d}, Alike c d → f c = g d) {us cs : List ℕ}
    (h : Reads m us cs) : us.head?.any f = cs.head?.any g := by
  obtain ⟨rfl, rfl⟩ | ⟨c, us', d, cs', rfl, rfl, hc⟩ := h.head
  · rfl
  · exact hfg hc

/-- What stands at a place of both. -/
theorem Reads.cons_cases {c d : ℕ} {us cs : List ℕ} (h : Reads m (c :: us) (d :: cs)) :
    (c = 0x0d ∧ d = 0x0a ∧ ∃ us', us = 0x0a :: us' ∧ Reads m us' cs) ∨
    (isLineBreak c ∧ d = 0x0a ∧ Reads m us cs) ∨
    (∃ low us', Utf16.isHighSurrogate c ∧ Utf16.isLowSurrogate low ∧ us = low :: us' ∧
      d = Utf16.pairValue c low ∧ Reads m us' cs) ∨
    (d = c ∧ isLineBreak c = false ∧ c < 0x10000 ∧ Reads m us cs) ∨
    (d = replacement ∧ IsReplaced c us ∧ us.length < m ∧ Reads m us cs) := by
  generalize hu : c :: us = u at h
  generalize hp : d :: cs = p at h
  cases h with
  | nil => cases hu
  | crlf h =>
    obtain ⟨rfl, rfl⟩ := List.cons.inj hu
    obtain ⟨rfl, rfl⟩ := List.cons.inj hp
    exact Or.inl ⟨rfl, rfl, _, rfl, h⟩
  | newline hl _ h =>
    obtain ⟨rfl, rfl⟩ := List.cons.inj hu
    obtain ⟨rfl, rfl⟩ := List.cons.inj hp
    exact Or.inr (Or.inl ⟨hl, rfl, h⟩)
  | pair hh hl h =>
    obtain ⟨rfl, rfl⟩ := List.cons.inj hu
    obtain ⟨rfl, rfl⟩ := List.cons.inj hp
    exact Or.inr (Or.inr (Or.inl ⟨_, _, hh, hl, rfl, rfl, h⟩))
  | plain hl _ _ hlt h =>
    obtain ⟨rfl, rfl⟩ := List.cons.inj hu
    obtain ⟨rfl, rfl⟩ := List.cons.inj hp
    exact Or.inr (Or.inr (Or.inr (Or.inl ⟨rfl, hl, hlt, h⟩)))
  | replaced hc hm h =>
    obtain ⟨rfl, rfl⟩ := List.cons.inj hu
    obtain ⟨rfl, rfl⟩ := List.cons.inj hp
    exact Or.inr (Or.inr (Or.inr (Or.inr ⟨rfl, hc, hm, h⟩)))

theorem IsReplaced.not_ascii {c : ℕ} {us : List ℕ} (h : IsReplaced c us) : c = 0 ∨ 0xd800 ≤ c :=
  h.imp_right fun h => surrogate_ge h.1

/-- An ASCII code that is no line break and not NUL stands for itself. -/
theorem Reads.of_ascii {c : ℕ} {us cs : List ℕ} (h : Reads m (c :: us) cs) (hc : 0 < c ∧ c < 0x80)
    (hl : isLineBreak c = false) : ∃ cs', cs = c :: cs' ∧ Reads m us cs' := by
  match cs with
  | [] => cases h
  | d :: cs =>
    rcases h.cons_cases with ⟨rfl, -⟩ | ⟨hn, -⟩ | ⟨low, us', hh, -⟩ | ⟨rfl, -, -, h⟩ | ⟨-, hr, -⟩
    · cases hl
    · rw [hl] at hn
      cases hn
    · have := highSurrogate_ge hh
      omega
    · exact ⟨cs, rfl, h⟩
    · have := hr.not_ascii
      omega

/-- U+FFFD stands in for a NUL. -/
theorem Reads.of_nul {us cs : List ℕ} (h : Reads m (0 :: us) cs) :
    ∃ cs', cs = replacement :: cs' ∧ us.length < m ∧ Reads m us cs' := by
  generalize hu : 0 :: us = u at h
  cases h with
  | nil => cases hu
  | crlf _ => cases hu
  | newline hl _ _ =>
    obtain ⟨rfl, rfl⟩ := List.cons.inj hu
    cases hl
  | pair hh _ _ =>
    obtain ⟨rfl, rfl⟩ := List.cons.inj hu
    cases hh
  | plain _ h0 _ _ _ => exact absurd (List.cons.inj hu).1.symm h0
  | replaced _ hm h =>
    obtain ⟨rfl, rfl⟩ := List.cons.inj hu
    exact ⟨_, rfl, hm, h⟩

theorem Reads.to_ascii {d : ℕ} {us cs : List ℕ} (h : Reads m us (d :: cs)) (hd : d < 0x80)
    (hl : d ≠ 0x0a) : ∃ us', us = d :: us' ∧ Reads m us' cs := by
  match us with
  | [] => cases h
  | c :: us =>
    rcases h.cons_cases with ⟨-, rfl, -⟩ | ⟨-, rfl, -⟩ | ⟨low, us', -, -, -, rfl, -⟩ |
      ⟨rfl, -, -, h⟩ | ⟨rfl, -⟩
    · exact absurd rfl hl
    · exact absurd rfl hl
    · have := Utf16.le_pairValue c low
      omega
    · exact ⟨us, rfl, h⟩
    · rw [replacement] at hd
      omega

end Reads

section Alike

variable {c d : ℕ}

theorem Alike.eq_iff (h : Alike c d) {k : ℕ} (hk : 0 < k ∧ k < 0x80) (hk' : isLineBreak k = false) :
    c = k ↔ d = k := by
  cases h with
  | same _ _ => rfl
  | newline hc =>
    constructor
    · rintro rfl
      rw [hk'] at hc
      cases hc
    · rintro rfl
      cases hk'
  | wide _ _ => omega
  | nul =>
    rw [replacement]
    omega

/-- Alike codes are in the same class when the class has all that is outside ASCII or none of it,
does not tell line breaks apart, and has NUL if it has what is outside ASCII. -/
theorem Alike.class_eq (h : Alike c d) {f g : ℕ → Bool} (b : Bool)
    (hascii : ∀ k < 0x80, k ≠ 0 → f k = g (if isLineBreak k then 0x0a else k))
    (hwide : ∀ k, 0x80 ≤ k → f k = b ∧ g k = b) (hnul : c = 0 → f 0 = b) : f c = g d := by
  cases h with
  | same hl h0 =>
    by_cases hc : c < 0x80
    · rw [hascii c hc h0, hl, if_neg Bool.false_ne_true]
    · rw [(hwide c (by omega)).1, (hwide c (by omega)).2]
  | newline hc =>
    have hs : c < 0x80 ∧ c ≠ 0 := by
      simp only [isLineBreak, Bool.or_eq_true, beq_iff_eq] at hc
      omega
    rw [hascii c hs.1 hs.2, if_pos hc]
  | wide hc hd => rw [(hwide c hc).1, (hwide d hd).2]
  | nul => rw [hnul rfl, (hwide replacement (by decide)).2]

end Alike

/-! ## The stream of a text -/

theorem codePoints_cons {c : ℕ} (h : Utf16.isHighSurrogate c = false) (us : List ℕ) :
    Utf16.codePoints (c :: us) = c :: Utf16.codePoints us := by
  match us with
  | [] => rfl
  | d :: us => rw [Utf16.codePoints, h, Bool.false_and, if_neg Bool.false_ne_true]

theorem codePoints_pair {high low : ℕ} (hh : Utf16.isHighSurrogate high)
    (hl : Utf16.isLowSurrogate low) (us : List ℕ) :
    Utf16.codePoints (high :: low :: us) = Utf16.pairValue high low :: Utf16.codePoints us := by
  rw [Utf16.codePoints, hh, hl, Bool.true_and, if_pos rfl]

theorem filterCodePoints_cons {c : ℕ} {cs : List ℕ} (h : c = 0x0d → cs.head? ≠ some 0x0a) :
    filterCodePoints (c :: cs) =
      (if c = 0x0d ∨ c = 0x0c then 0x0a
        else if c = 0 ∨ Utf16.isSurrogate c then replacement
        else c) :: filterCodePoints cs := by
  rw [filterCodePoints]
  rintro cs' rfl rfl
  exact h rfl rfl

theorem isHighSurrogate_of_not {c : ℕ} (h : Utf16.isSurrogate c = false) :
    Utf16.isHighSurrogate c = false := by
  simp only [Utf16.isHighSurrogate, Utf16.isSurrogate, Bool.and_eq_false_iff,
    decide_eq_false_iff_not] at h ⊢
  omega

theorem head?_codePoints_ne {us : List ℕ} (h : us.head? ≠ some 0x0a) :
    (Utf16.codePoints us).head? ≠ some 0x0a := by
  match us with
  | [] => simp [Utf16.codePoints]
  | [c] => simpa [Utf16.codePoints] using h
  | c :: d :: us =>
    rw [Utf16.codePoints]
    split_ifs
    · have := Utf16.le_pairValue c d
      rw [List.head?_cons, ne_eq, Option.some.injEq]
      omega
    · simpa using h

/-- A code point that is no line break, no NUL and no surrogate is kept. -/
theorem filterCodePoints_keep {c : ℕ} (hl : isLineBreak c = false) (h0 : c ≠ 0)
    (hs : Utf16.isSurrogate c = false) (cs : List ℕ) :
    filterCodePoints (c :: cs) = c :: filterCodePoints cs := by
  simp only [isLineBreak, Bool.or_eq_false_iff, beq_eq_false_iff_ne] at hl
  rw [filterCodePoints_cons fun h => absurd h hl.2, if_neg (not_or.2 ⟨hl.2, hl.1.2⟩),
    if_neg (not_or.2 ⟨h0, ne_true_of_eq_false hs⟩)]

theorem filterCodePoints_newline {c : ℕ} (hl : isLineBreak c) {cs : List ℕ}
    (h : c = 0x0d → cs.head? ≠ some 0x0a) :
    filterCodePoints (c :: cs) = 0x0a :: filterCodePoints cs := by
  rw [filterCodePoints_cons h]
  simp only [isLineBreak, Bool.or_eq_true, beq_iff_eq] at hl
  rcases hl with (rfl | rfl) | rfl <;> rfl

theorem pairValue_kept (high low : ℕ) : isLineBreak (Utf16.pairValue high low) = false ∧
    Utf16.pairValue high low ≠ 0 ∧ Utf16.isSurrogate (Utf16.pairValue high low) = false := by
  have := Utf16.le_pairValue high low
  simp only [isLineBreak, Utf16.isSurrogate, Bool.or_eq_false_iff, beq_eq_false_iff_ne,
    Bool.and_eq_false_iff, decide_eq_false_iff_not]
  omega

theorem isLineBreak_not_surrogate {c : ℕ} (h : isLineBreak c) : Utf16.isHighSurrogate c = false := by
  simp only [isLineBreak, Bool.or_eq_true, beq_iff_eq] at h
  rcases h with (rfl | rfl) | rfl <;> rfl

theorem filterCodePoints_replaced {c : ℕ} {us : List ℕ} (h : IsReplaced c us) (cs : List ℕ) :
    filterCodePoints (c :: cs) = replacement :: filterCodePoints cs := by
  have hc := h.not_ascii
  rw [filterCodePoints_cons (by omega), if_neg (by omega), if_pos (h.imp_right And.left)]

/-- **Streams.** Every place of a text is a place of its stream. -/
theorem reads_preprocess {us : List ℕ} (hu : ∀ c ∈ us, c < 0x10000) {m : ℕ} (hm : us.length ≤ m) :
    Reads m us (preprocess us) := by
  induction hn : us.length using Nat.strong_induction_on generalizing us with
  | _ n ih =>
    subst hn
    match us with
    | [] => exact .nil
    | c :: us =>
      rw [List.forall_mem_cons] at hu
      rw [List.length_cons] at hm
      have hr : Reads m us (preprocess us) := ih us.length (by simp) hu.2 (by omega) rfl
      by_cases hp : ∃ low us', us = low :: us' ∧ Utf16.isHighSurrogate c ∧ Utf16.isLowSurrogate low
      · -- a surrogate pair is one code point
        obtain ⟨low, us', rfl, hh, hl⟩ := hp
        obtain ⟨h1, h2, h3⟩ := pairValue_kept c low
        rw [List.forall_mem_cons] at hu
        rw [List.length_cons] at hm
        rw [preprocess, codePoints_pair hh hl, filterCodePoints_keep h1 h2 h3]
        exact .pair hh hl (ih us'.length (by simp only [List.length_cons]; omega) hu.2.2 (by omega) rfl)
      have hcons : Utf16.codePoints (c :: us) = c :: Utf16.codePoints us := by
        match us with
        | [] => rfl
        | low :: us =>
          rw [Utf16.codePoints, if_neg]
          rw [Bool.and_eq_true]
          exact fun h => hp ⟨low, us, rfl, h⟩
      rw [preprocess, hcons]
      by_cases hl : isLineBreak c
      · by_cases hcrlf : c = 0x0d ∧ us.head? = some 0x0a
        · -- both units of the line break are one newline
          obtain ⟨rfl, hlf⟩ := hcrlf
          obtain ⟨us', rfl⟩ := List.head?_eq_some_iff.1 hlf
          rw [List.forall_mem_cons] at hu
          rw [List.length_cons] at hm
          rw [codePoints_cons rfl]
          exact .crlf (ih us'.length (by simp only [List.length_cons]; omega) hu.2.2 (by omega) rfl)
        · have hne : c = 0x0d → us.head? ≠ some 0x0a := fun hc hlf => hcrlf ⟨hc, hlf⟩
          rw [filterCodePoints_newline hl fun hc => head?_codePoints_ne (hne hc)]
          exact .newline hl hne hr
      · by_cases hc : c = 0 ∨ Utf16.isSurrogate c
        · have hreplaced : IsReplaced c us := hc.imp_right fun hs => ⟨hs, fun hh => by
            match us with
            | [] => rfl
            | low :: us => exact eq_false_of_ne_true fun hl => hp ⟨low, us, rfl, hh, hl⟩⟩
          rw [filterCodePoints_replaced hreplaced]
          exact .replaced hreplaced (by omega) hr
        · have hs : Utf16.isSurrogate c = false := eq_false_of_ne_true (hc ∘ Or.inr)
          rw [filterCodePoints_keep (eq_false_of_ne_true hl) (hc ∘ Or.inl) hs]
          exact .plain (eq_false_of_ne_true hl) (hc ∘ Or.inl) hs hu.1 hr

/-! ## Where nothing is replaced -/

/-- U+FFFD stands in for none of the units. -/
def noneReplaced : List ℕ → Bool
  | high :: low :: rest =>
    if Utf16.isHighSurrogate high && Utf16.isLowSurrogate low then noneReplaced rest
    else high != 0 && !Utf16.isSurrogate high && noneReplaced (low :: rest)
  | [u] => u != 0 && !Utf16.isSurrogate u
  | [] => true

/-- The first of units for none of which U+FFFD stands in. -/
theorem noneReplaced_cons {c : ℕ} {us : List ℕ} (h : noneReplaced (c :: us)) :
    (∃ low us', us = low :: us' ∧ Utf16.isHighSurrogate c ∧ Utf16.isLowSurrogate low ∧
      noneReplaced us') ∨
      c ≠ 0 ∧ Utf16.isSurrogate c = false ∧ noneReplaced us := by
  match us with
  | [] =>
    rw [noneReplaced, Bool.and_eq_true, bne_iff_ne, Bool.not_eq_true'] at h
    exact Or.inr ⟨h.1, h.2, rfl⟩
  | low :: us =>
    rw [noneReplaced] at h
    split_ifs at h with hp
    · rw [Bool.and_eq_true] at hp
      exact Or.inl ⟨low, us, rfl, hp.1, hp.2, h⟩
    · rw [Bool.and_eq_true, Bool.and_eq_true, bne_iff_ne, Bool.not_eq_true'] at h
      exact Or.inr ⟨h.1.1, h.1.2, h.2⟩

theorem noneReplaced_take_tail {c n : ℕ} {us : List ℕ} (hc : Utf16.isHighSurrogate c = false)
    (h : noneReplaced ((c :: us).take n)) : noneReplaced (us.take (n - 1)) := by
  match n with
  | 0 => rfl
  | n + 1 =>
    rcases noneReplaced_cons h with ⟨_, _, -, hh, -⟩ | ⟨-, -, h⟩
    · rw [hc] at hh
      cases hh
    · exact h

theorem noneReplaced_take_pair {high low n : ℕ} {us : List ℕ} (hh : Utf16.isHighSurrogate high)
    (hl : Utf16.isLowSurrogate low) (h : noneReplaced ((high :: low :: us).take n)) :
    noneReplaced (us.take (n - 2)) := by
  match n with
  | 0 | 1 => rfl
  | n + 2 =>
    rw [List.take_succ_cons, List.take_succ_cons, noneReplaced, hh, hl, Bool.true_and, if_pos rfl]
      at h
    exact h

/-- Where nothing is replaced in the first `n` units, U+FFFD stands in only behind them. -/
theorem Reads.kept {m n k : ℕ} {us cs : List ℕ} (h : Reads m us cs)
    (hn : noneReplaced (us.take n)) (hk : us.length ≤ k + n) : Reads k us cs := by
  induction h generalizing n with
  | nil => exact .nil
  | crlf _ ih =>
    have hlf := noneReplaced_take_tail rfl (noneReplaced_take_tail rfl hn)
    refine .crlf (ih hlf ?_)
    simp only [List.length_cons] at hk
    omega
  | newline hl hne _ ih =>
    refine .newline hl hne (ih (noneReplaced_take_tail (isLineBreak_not_surrogate hl) hn) ?_)
    rw [List.length_cons] at hk
    omega
  | pair hh hl _ ih =>
    refine .pair hh hl (ih (noneReplaced_take_pair hh hl hn) ?_)
    simp only [List.length_cons] at hk
    omega
  | plain hl h0 hs hlt _ ih =>
    refine .plain hl h0 hs hlt (ih (noneReplaced_take_tail (isHighSurrogate_of_not hs) hn) ?_)
    rw [List.length_cons] at hk
    omega
  | @replaced c us _ hc _ _ ih =>
    rw [List.length_cons] at hk
    match n with
    | 0 => exact .replaced hc (by omega) (ih (n := 0) rfl (by omega))
    | n + 1 =>
      -- a unit among the first ones is not replaced
      exfalso
      rcases noneReplaced_cons hn with ⟨low, us', hus, hh, hl, -⟩ | ⟨h0, hs, -⟩
      · have hhead : us.head? = some low := by
          match n, us, hus with
          | n + 1, d :: us, hus => exact congrArg some (List.cons.inj hus).1
        rcases hc with rfl | ⟨-, hlone⟩
        · cases hh
        · have hnone := hlone hh
          rw [hhead, Option.any_some, hl] at hnone
          cases hnone
      · rcases hc with rfl | ⟨hs', -⟩
        · exact h0 rfl
        · rw [hs] at hs'
          cases hs'

end CssTokenizer

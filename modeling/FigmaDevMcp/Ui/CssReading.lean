import FigmaDevMcp.Lib.CssStream
import FigmaDevMcp.Ui.CssSyntax

set_option autoImplicit false

/-!
# Reading the same text

The consuming functions of `css-syntax.ts`, run on a text, beside those of the CSS tokenizer, run on
the stream of that text.

* `identInStep`, `stringInStep`, `urlInStep`: the branches on which the two part are not taken;
* `reads_consumeIdent`, `reads_consumeStringLoop`, `reads_consumeUrlLoop`: where they are not, both
  stop at the same place, and read the same value where U+FFFD stands in for nothing.
-/

namespace FigmaDevMcp.Css

open CssTokenizer (Reads Alike isLineBreak)

/-! ## Branches that part -/

/-- A hex escape, at its backslash, with a carriage return and a line feed right behind it: the
source takes only the first of the two. -/
def splitsLineBreak (input : JsString) : Bool :=
  (codeAt input 1).any isHex && (consumeHex 6 input.tail).2.take 2 == [0x0d, 0x0a]

/-- No escape of the ident in front splits a line break. -/
def identInStep : JsString → Bool
  | [] => true
  | code :: rest =>
    if isName code then identInStep rest
    else if isValidEscape (code :: rest) then
      !splitsLineBreak (code :: rest) && identInStep (consumeEscape (code :: rest)).2
    else true
termination_by input => input.length
decreasing_by
  · simp
  · have := consumeEscape_le (code :: rest)
    simp only [List.tail_cons, List.length_cons] at *
    omega

/-- No escape of the string in front splits a line break. -/
def stringInStep (ending : ℕ) : JsString → Bool
  | [] => true
  | code :: rest =>
    if code = ending then true
    else if isNewline code then true
    else if code = 0x5c then
      match rest with
      | [] => true
      | next :: after =>
        if isNewline next then
          stringInStep ending
            (if next = 0x0d ∧ codeAt after 0 = some 0x0a then after.tail else after)
        else
          !splitsLineBreak (code :: next :: after) &&
            stringInStep ending (consumeEscape (code :: next :: after)).2
    else stringInStep ending rest
termination_by input => input.length
decreasing_by
  · have := tail_le after
    split_ifs <;> simp only [List.length_cons] <;> omega
  · have := consumeEscape_le (code :: next :: after)
    simp only [List.tail_cons, List.length_cons] at *
    omega
  · simp

/-- A value without quotes. White space that does not end it is the second branch that parts: the
source stops there, where the tokenizer reads on to the next parenthesis. -/
def urlInStep : JsString → Bool
  | [] => true
  | code :: rest =>
    if code = 0x29 then true
    else if isWhitespace code then
      (codeAt (consumeWhitespace (code :: rest)) 0).all (· == 0x29)
    else if code = 0x22 ∨ code = 0x27 ∨ code = 0x28 ∨ code = 0x7f ∨ code < 0x20 then urlInStep rest
    else if isValidEscape (code :: rest) then
      !splitsLineBreak (code :: rest) && urlInStep (consumeEscape (code :: rest)).2
    else urlInStep rest
termination_by input => input.length
decreasing_by
  · simp
  · have := consumeEscape_le (code :: rest)
    simp only [List.tail_cons, List.length_cons] at *
    omega
  · simp

/-! ## Classes -/

/-- A NUL is no name code, where U+FFFD is one. -/
theorem isName_alike {c d : ℕ} (h : Alike c d) (h0 : c ≠ 0) : isName c = CssTokenizer.isIdent d :=
  h.class_eq true (by decide) (fun k hk => by
    simp [isName, isNameStart, CssTokenizer.isIdent, CssTokenizer.isIdentStart, hk])
    fun hc => absurd hc h0

theorem isNameStart_alike {c d : ℕ} (h : Alike c d) (h0 : c ≠ 0) :
    isNameStart c = CssTokenizer.isIdentStart d :=
  h.class_eq true (by decide) (fun k hk => by simp [isNameStart, CssTokenizer.isIdentStart, hk])
    fun hc => absurd hc h0

theorem isDigit_alike {c d : ℕ} (h : Alike c d) : isDigit c = CssTokenizer.isDigit d :=
  h.class_eq false (by decide) (fun k hk => by
    simp only [isDigit, CssTokenizer.isDigit, Bool.and_eq_false_iff, decide_eq_false_iff_not]
    omega) fun _ => rfl

theorem isHex_alike {c d : ℕ} (h : Alike c d) : isHex c = CssTokenizer.isHex d :=
  h.class_eq false (by decide) (fun k hk => by
    simp only [isHex, isDigit, CssTokenizer.isHex, CssTokenizer.isDigit, Bool.or_eq_false_iff,
      Bool.and_eq_false_iff, decide_eq_false_iff_not]
    omega) fun _ => rfl

theorem isNewline_alike {c d : ℕ} (h : Alike c d) : isNewline c = CssTokenizer.isNewline d :=
  h.class_eq false (by decide) (fun k hk => by
    simp only [isNewline, CssTokenizer.isNewline, Bool.or_eq_false_iff, beq_eq_false_iff_ne]
    omega) fun _ => rfl

theorem isWhitespace_alike {c d : ℕ} (h : Alike c d) :
    isWhitespace c = CssTokenizer.isWhitespace d :=
  h.class_eq false (by decide) (fun k hk => by
    simp only [isWhitespace, CssTokenizer.isWhitespace, Bool.or_eq_false_iff, beq_eq_false_iff_ne]
    omega) fun _ => rfl

theorem isQuote_alike {c d : ℕ} (h : Alike c d) : isQuote c = CssTokenizer.isQuote d :=
  h.class_eq false (by decide) (fun k hk => by
    simp only [isQuote, CssTokenizer.isQuote, Bool.or_eq_false_iff, beq_eq_false_iff_ne]
    omega) fun _ => rfl

/-! ## Looking ahead -/

theorem codeAt_head (input : JsString) : codeAt input 0 = input.head? := by
  match input with
  | [] | _ :: _ => rfl

theorem codeAt_tail (input : JsString) (n : ℕ) : codeAt input (n + 1) = codeAt input.tail n := by
  match input with
  | [] | _ :: _ => rfl

section Reads

variable {m : ℕ} {us cs : List ℕ}

theorem reads_head_eq_some (h : Reads m us cs) {k : ℕ} (hk : 0 < k ∧ k < 0x80)
    (hl : isLineBreak k = false) :
    us.head? = some k ↔ cs.head? = some k := by
  obtain ⟨rfl, rfl⟩ | ⟨c, us', d, cs', rfl, rfl, hc⟩ := h.head
  · simp
  · simpa using hc.eq_iff hk hl

theorem reads_head_beq (h : Reads m us cs) {k : ℕ} (hk : 0 < k ∧ k < 0x80)
    (hl : isLineBreak k = false) :
    (us.head? == some k) = (cs.head? == some k) := by
  rw [Bool.eq_iff_iff, beq_iff_eq, beq_iff_eq, reads_head_eq_some h hk hl]

theorem isValidEscape_cons (c : ℕ) (us : JsString) :
    isValidEscape (c :: us) = (c == 0x5c && !us.head?.any isNewline) := by
  rw [isValidEscape, codeAt_succ, codeAt_head us]
  rfl

theorem reads_isValidEscape (h : Reads m us cs) :
    isValidEscape us = CssTokenizer.isValidEscape cs := by
  obtain ⟨rfl, rfl⟩ | ⟨c, us', d, cs', rfl, rfl, hc⟩ := h.head
  · rfl
  rw [isValidEscape_cons, CssTokenizer.isValidEscape_cons]
  by_cases hb : c = 0x5c
  · subst hb
    obtain ⟨cs'', hcs, hr⟩ := h.of_ascii (by decide) rfl
    obtain ⟨rfl, rfl⟩ := List.cons.inj hcs
    rw [hr.any_head isNewline_alike]
  · have hd : d ≠ 0x5c := fun hd => hb ((hc.eq_iff (by decide) rfl).2 hd)
    rw [beq_eq_false_iff_ne.2 hb, beq_eq_false_iff_ne.2 hd, Bool.false_and, Bool.false_and]

theorem startsIdent_cons (c : ℕ) (us : JsString) :
    startsIdent (c :: us) =
      if c = 0x2d then us.head?.any isNameStart || us.head? == some 0x2d || isValidEscape us
      else isNameStart c || isValidEscape (c :: us) := by
  simp only [startsIdent, codeAt_zero, codeAt_succ, codeAt_head us, Option.some.injEq,
    Option.any_some, List.tail_cons]

/-- A NUL stands where only U+FFFD starts an identifier. -/
def NulAhead (us : JsString) : Prop :=
  us.head? = some 0 ∨ us.head? = some 0x2d ∧ us.tail.head? = some 0

theorem not_nulAhead_of_startsIdent {us : JsString} (h : startsIdent us) : ¬ NulAhead us := by
  match us with
  | [] => cases h
  | c :: us =>
    rw [startsIdent_cons] at h
    rintro (h0 | ⟨hc, h0⟩)
    · obtain rfl : c = 0 := Option.some.inj h0
      rw [if_neg (by decide), isValidEscape_cons] at h
      cases h
    · obtain rfl : c = 0x2d := Option.some.inj hc
      obtain ⟨us', rfl⟩ := List.head?_eq_some_iff.1 h0
      rw [if_pos rfl, isValidEscape_cons] at h
      cases h

/-- Both start an identifier or neither does, where no NUL stands ahead. -/
theorem reads_startsIdent (h : Reads m us cs) (h0 : ¬ NulAhead us) :
    startsIdent us = CssTokenizer.startsIdent cs := by
  obtain ⟨rfl, rfl⟩ | ⟨c, us', d, cs', rfl, rfl, hc⟩ := h.head
  · rfl
  have hc0 : c ≠ 0 := fun hc0 => h0 (Or.inl (congrArg some hc0))
  rw [startsIdent_cons, CssTokenizer.startsIdent_cons, reads_isValidEscape h,
    isNameStart_alike hc hc0]
  by_cases hb : c = 0x2d
  · subst hb
    obtain ⟨cs'', hcs, hr⟩ := h.of_ascii (by decide) rfl
    obtain ⟨rfl, rfl⟩ := List.cons.inj hcs
    have hstart : us'.head?.any isNameStart = cs'.head?.any CssTokenizer.isIdentStart := by
      obtain ⟨rfl, rfl⟩ | ⟨e, us'', f, cs'', rfl, rfl, he⟩ := hr.head
      · rfl
      · exact isNameStart_alike he fun he0 => h0 (Or.inr ⟨rfl, congrArg some he0⟩)
    rw [if_pos rfl, if_pos rfl, hstart, reads_isValidEscape hr, reads_head_beq hr (by decide) rfl]
  · have hd : d ≠ 0x2d := fun hd => hb ((hc.eq_iff (by decide) rfl).2 hd)
    rw [if_neg hb, if_neg hd]

/-- A digit, or a point and a digit. -/
def startsUnsigned (us : JsString) : Bool :=
  us.head?.any isDigit || (us.head? == some 0x2e && us.tail.head?.any isDigit)

theorem startsNumber_cons (c : ℕ) (us : JsString) :
    startsNumber (c :: us) =
      if c = 0x2b ∨ c = 0x2d then startsUnsigned us else startsUnsigned (c :: us) := by
  have ht : codeAt us 1 = us.tail.head? := by rw [codeAt_tail, codeAt_head]
  simp only [startsNumber, startsUnsigned, codeAt_zero, codeAt_succ, codeAt_head us, ht,
    Option.some.injEq, Option.any_some, List.head?_cons, List.tail_cons]
  by_cases hs : c = 0x2b ∨ c = 0x2d
  · have hd : isDigit c = false ∧ c ≠ 0x2e := by
      rcases hs with rfl | rfl <;> decide
    rw [hd.1, if_neg Bool.false_ne_true, if_neg hd.2, if_pos hs, if_pos hs]
  · rw [if_neg hs, if_neg hs]
    cases isDigit c
    · by_cases hp : c = 0x2e
      · simp [hp]
      · simp [hp]
    · rfl

theorem reads_startsUnsigned (h : Reads m us cs) :
    startsUnsigned us = CssTokenizer.startsUnsigned cs := by
  rw [startsUnsigned, CssTokenizer.startsUnsigned_eq, h.any_head isDigit_alike,
    reads_head_beq h (by decide) rfl]
  by_cases hp : cs.head? = some 0x2e
  · obtain ⟨cs', rfl⟩ := List.head?_eq_some_iff.1 hp
    obtain ⟨us', rfl, hr⟩ := h.to_ascii (by decide) (by decide)
    rw [List.tail_cons, List.tail_cons, hr.any_head isDigit_alike]
  · rw [beq_eq_false_iff_ne.2 hp, Bool.false_and, Bool.false_and]

theorem reads_startsNumber (h : Reads m us cs) : startsNumber us = CssTokenizer.startsNumber cs := by
  obtain ⟨rfl, rfl⟩ | ⟨c, us', d, cs', rfl, rfl, hc⟩ := h.head
  · rfl
  have hiff : c = 0x2b ∨ c = 0x2d ↔ d = 0x2b ∨ d = 0x2d :=
    or_congr (hc.eq_iff (by decide) rfl) (hc.eq_iff (by decide) rfl)
  rw [startsNumber_cons, CssTokenizer.startsNumber_cons]
  by_cases hs : c = 0x2b ∨ c = 0x2d
  · have hcs : ∃ cs'', d :: cs' = c :: cs'' ∧ Reads m us' cs'' := by
      rcases hs with rfl | rfl <;> exact h.of_ascii (by decide) rfl
    obtain ⟨cs'', hcs, hr⟩ := hcs
    obtain ⟨rfl, rfl⟩ := List.cons.inj hcs
    rw [if_pos hs, if_pos hs, reads_startsUnsigned hr]
  · rw [if_neg hs, if_neg (hs ∘ hiff.2), reads_startsUnsigned h]

/-! ## White space and digits -/

/-- Skipping the codes of a class of ASCII codes stops at the same place. -/
theorem reads_dropWhile {f g : ℕ → Bool} (hfg : ∀ {c d}, Alike c d → f c = g d)
    (hwide : ∀ c, 0x80 ≤ c → g c = false) (hlf : f 0x0a = g 0x0a) (h : Reads m us cs) :
    Reads m (us.dropWhile f) (cs.dropWhile g) := by
  induction h with
  | nil => exact .nil
  | @crlf us cs h ih =>
    have hcr : f 0x0d = g 0x0a := hfg (.newline rfl)
    cases hg : g 0x0a
    · rw [List.dropWhile_cons_of_neg (by rw [hcr, hg]; decide),
        List.dropWhile_cons_of_neg (by rw [hg]; decide)]
      exact .crlf h
    · rw [List.dropWhile_cons_of_pos (by rw [hcr, hg]), List.dropWhile_cons_of_pos (by rw [hlf, hg]),
        List.dropWhile_cons_of_pos hg]
      exact ih
  | @newline c us cs hc hne h ih =>
    have hf : f c = g 0x0a := hfg (.newline hc)
    cases hg : g 0x0a
    · rw [List.dropWhile_cons_of_neg (by rw [hf, hg]; decide),
        List.dropWhile_cons_of_neg (by rw [hg]; decide)]
      exact .newline hc hne h
    · rw [List.dropWhile_cons_of_pos (by rw [hf, hg]), List.dropWhile_cons_of_pos hg]
      exact ih
  | @pair high low us cs hh hl h ih =>
    have hle := Utf16.le_pairValue high low
    have hg : g (Utf16.pairValue high low) = false := hwide _ (by omega)
    have hf : f high = false := by
      rw [hfg (d := Utf16.pairValue high low) (.wide ?_ (by omega)), hg]
      have := CssTokenizer.highSurrogate_ge hh
      omega
    rw [List.dropWhile_cons_of_neg (by rw [hf]; decide),
      List.dropWhile_cons_of_neg (by rw [hg]; decide)]
    exact .pair hh hl h
  | @plain c us cs hl h0 hs hlt h ih =>
    have hf : f c = g c := hfg (.same hl h0)
    cases hg : g c
    · rw [List.dropWhile_cons_of_neg (by rw [hf, hg]; decide),
        List.dropWhile_cons_of_neg (by rw [hg]; decide)]
      exact .plain hl h0 hs hlt h
    · rw [List.dropWhile_cons_of_pos (by rw [hf, hg]), List.dropWhile_cons_of_pos hg]
      exact ih
  | @replaced c us cs hc hm h ih =>
    have hg : g CssTokenizer.replacement = false := hwide _ (by decide)
    have hf : f c = false := (hfg hc.alike).trans hg
    rw [List.dropWhile_cons_of_neg (by rw [hf]; decide),
      List.dropWhile_cons_of_neg (by rw [hg]; decide)]
    exact .replaced hc hm h

theorem reads_consumeWhitespace (h : Reads m us cs) :
    Reads m (consumeWhitespace us) (CssTokenizer.dropWhitespace cs) :=
  reads_dropWhile isWhitespace_alike (fun c hc => by
    simp only [CssTokenizer.isWhitespace, Bool.or_eq_false_iff, beq_eq_false_iff_ne]
    omega) rfl h

theorem reads_consumeDigits (h : Reads m us cs) :
    Reads m (consumeDigits us) (CssTokenizer.dropDigits cs) :=
  reads_dropWhile isDigit_alike (fun c hc => by
    simp only [CssTokenizer.isDigit, Bool.and_eq_false_iff, decide_eq_false_iff_not]
    omega) rfl h

/-! ## Escapes -/

theorem reads_consumeHex (count : ℕ) (h : Reads m us cs) :
    (consumeHex count us).1 = (CssTokenizer.takeHex count cs).1 ∧
      Reads m (consumeHex count us).2 (CssTokenizer.takeHex count cs).2 := by
  induction count generalizing us cs with
  | zero => exact ⟨rfl, h⟩
  | succ count ih =>
    obtain ⟨rfl, rfl⟩ | ⟨c, us', d, cs', rfl, rfl, hc⟩ := h.head
    · exact ⟨rfl, h⟩
    · rw [consumeHex, CssTokenizer.takeHex, isHex_alike hc]
      cases hx : CssTokenizer.isHex d
      · exact ⟨rfl, h⟩
      · -- a hex digit is an ASCII code, and stands for itself
        have hd : d < 0x80 ∧ d ≠ 0x0a := by
          simp only [CssTokenizer.isHex, CssTokenizer.isDigit, Bool.or_eq_true, Bool.and_eq_true,
            decide_eq_true_eq] at hx
          omega
        obtain ⟨us'', hus, hr⟩ := h.to_ascii hd.1 hd.2
        obtain ⟨rfl, rfl⟩ := List.cons.inj hus
        obtain ⟨h1, h2⟩ := ih hr
        exact ⟨congrArg (c :: ·) h1, h2⟩

theorem isHex_of_mem_takeHex {count : ℕ} {cs : List ℕ} :
    ∀ c ∈ (CssTokenizer.takeHex count cs).1, CssTokenizer.isHex c := by
  fun_induction CssTokenizer.takeHex count cs with
  | case1 count c rest hc ih =>
    rw [List.forall_mem_cons]
    exact ⟨hc, ih⟩
  | case2 | case3 => simp

theorem hexDigit_eq {c : ℕ} (h : CssTokenizer.isHex c) : hexDigit c = CssTokenizer.hexDigit c := by
  simp only [CssTokenizer.isHex, CssTokenizer.isDigit, Bool.or_eq_true, Bool.and_eq_true,
    decide_eq_true_eq] at h
  simp only [hexDigit, CssTokenizer.hexDigit, CssTokenizer.isDigit, Bool.and_eq_true,
    decide_eq_true_eq]
  split_ifs <;> omega

theorem parseHex_eq {hex : List ℕ} (h : ∀ c ∈ hex, CssTokenizer.isHex c) :
    parseHex hex = CssTokenizer.hexValue hex := by
  unfold parseHex CssTokenizer.hexValue
  refine List.foldl_ext _ _ _ fun value c hc => ?_
  rw [hexDigit_eq (h c hc)]

theorem escapedValue_eq (value : ℕ) :
    (if value = 0 ∨ 0x10ffff < value ∨ (0xd800 ≤ value ∧ value ≤ 0xdfff) then [0xfffd]
      else Utf16.encodeOne value) = Utf16.encodeOne (CssTokenizer.escapedValue value) := by
  have hiff : (value = 0 ∨ 0x10ffff < value ∨ (0xd800 ≤ value ∧ value ≤ 0xdfff)) ↔
      (value = 0 ∨ Utf16.isSurrogate value ∨ 0x10ffff < value) := by
    simp only [Utf16.isSurrogate, Bool.and_eq_true, decide_eq_true_eq]
    tauto
  unfold CssTokenizer.escapedValue
  split_ifs with h1 h2 h2
  · rfl
  · exact absurd (hiff.1 h1) h2
  · exact absurd (hiff.2 h2) h1
  · rfl

/-- One whitespace after the hex digits is skipped on both sides, unless it is half of a line
break. -/
theorem reads_dropOneWhitespace (h : Reads m us cs) (hs : us.take 2 ≠ [0x0d, 0x0a]) :
    Reads m (if (codeAt us 0).any isWhitespace then us.tail else us)
      (CssTokenizer.dropOneWhitespace cs) := by
  obtain ⟨rfl, rfl⟩ | ⟨c, us', d, cs', rfl, rfl, hc⟩ := h.head
  · exact h
  rw [codeAt_zero, Option.any_some, isWhitespace_alike hc, CssTokenizer.dropOneWhitespace]
  split_ifs with hw
  · rcases h.cons_cases with ⟨rfl, -, us'', rfl, -⟩ | ⟨-, -, h⟩ | ⟨low, us'', hh, -, -, rfl, -⟩ |
      ⟨-, -, -, h⟩ | ⟨-, -, -, h⟩
    · exact absurd rfl hs
    · exact h
    · have := Utf16.le_pairValue c low
      simp only [CssTokenizer.isWhitespace, Bool.or_eq_true, beq_iff_eq] at hw
      omega
    · exact h
    · exact h
  · exact h

/-- Both read the same escape, up to the second half of a surrogate pair, or U+FFFD stands in for
the code that is escaped. -/
theorem reads_consumeEscape (h : Reads m us cs) (hn : us.head?.any isNewline = false)
    (hs : splitsLineBreak (0x5c :: us) = false) :
    ((consumeEscape (0x5c :: us)).1 = Utf16.encodeOne (CssTokenizer.consumeEscape cs).1 ∧
      Reads m (consumeEscape (0x5c :: us)).2 (CssTokenizer.consumeEscape cs).2) ∨
    (∃ high low us', Utf16.isHighSurrogate high ∧ Utf16.isLowSurrogate low ∧
      consumeEscape (0x5c :: us) = ([high], low :: us') ∧
      (CssTokenizer.consumeEscape cs).1 = Utf16.pairValue high low ∧
      Reads m us' (CssTokenizer.consumeEscape cs).2) ∨
    ∃ c us', CssTokenizer.IsReplaced c us' ∧ us'.length < m ∧
      consumeEscape (0x5c :: us) = ([c], us') ∧
      (CssTokenizer.consumeEscape cs).1 = CssTokenizer.replacement ∧
      Reads m us' (CssTokenizer.consumeEscape cs).2 := by
  obtain ⟨rfl, rfl⟩ | ⟨c, us', d, cs', rfl, rfl, hc⟩ := h.head
  · exact Or.inl ⟨rfl, .nil⟩
  have hx := isHex_alike hc
  simp only [consumeEscape, List.tail_cons, CssTokenizer.consumeEscape, hx]
  cases hd : CssTokenizer.isHex d
  · -- a code that stands for itself
    rw [List.head?_cons, Option.any_some] at hn
    simp only [Bool.false_eq_true, if_false, hn]
    rcases h.cons_cases with ⟨rfl, -⟩ | ⟨hl, -⟩ | ⟨low, us'', hh, hl, rfl, rfl, hr⟩ |
      ⟨rfl, -, hlt, hr⟩ | ⟨rfl, hrep, hm, hr⟩
    · cases hn
    · have : isNewline c = true := hl
      rw [hn] at this
      cases this
    · exact Or.inr (Or.inl ⟨c, low, us'', hh, hl, rfl, rfl, hr⟩)
    · exact Or.inl ⟨(Utf16.encodeOne_of_lt hlt).symm, hr⟩
    · exact Or.inr (Or.inr ⟨c, us', hrep, hm, rfl, rfl, hr⟩)
  · obtain ⟨h1, h2⟩ := reads_consumeHex 6 h
    have hsplit : (consumeHex 6 (c :: us')).2.take 2 ≠ [0x0d, 0x0a] := by
      intro ht
      rw [splitsLineBreak, codeAt_succ, codeAt_zero, Option.any_some, hx, hd, List.tail_cons, ht]
        at hs
      cases hs
    refine Or.inl ⟨?_, reads_dropOneWhitespace h2 hsplit⟩
    show (if parseHex _ = 0 ∨ _ then _ else _) = _
    rw [escapedValue_eq, h1, parseHex_eq isHex_of_mem_takeHex]
    rfl

/-! ## Names -/

theorem isName_of_ge {c : ℕ} (h : 0x80 ≤ c) : isName c = true := by
  simp [isName, isNameStart, h]

theorem consumeIdent_name {c : ℕ} (h : isName c = true) (us : JsString) :
    consumeIdent (c :: us) = (c :: (consumeIdent us).1, (consumeIdent us).2) := by
  rw [consumeIdent, if_pos h]

theorem identInStep_name {c : ℕ} (h : isName c = true) (us : JsString) :
    identInStep (c :: us) = identInStep us := by
  rw [identInStep, if_pos h]

/-- A name and what the stream has of it: the same, or each has a code that no `url` has. -/
def ReadsName (name : List ℕ) (name' : JsString) : Prop :=
  Utf16.encode name = name' ∨ (∃ d ∈ name, 0x80 ≤ d) ∧ ∃ c ∈ name', c = 0 ∨ 0x80 ≤ c

theorem ReadsName.cons {d : ℕ} {units : JsString} {name : List ℕ} {name' : JsString}
    (hd : Utf16.encodeOne d = units) (h : ReadsName name name') :
    ReadsName (d :: name) (units ++ name') := by
  rcases h with h | ⟨⟨e, he, hge⟩, c, hc, hbad⟩
  · exact Or.inl (by rw [Utf16.encode_cons, hd, h])
  · exact Or.inr ⟨⟨e, List.mem_cons_of_mem _ he, hge⟩, c, List.mem_append_right _ hc, hbad⟩

theorem ReadsName.replaced {c : ℕ} {us : JsString} (hc : CssTokenizer.IsReplaced c us)
    (name : List ℕ) (name' : JsString) :
    ReadsName (CssTokenizer.replacement :: name) (c :: name') :=
  Or.inr ⟨⟨_, List.mem_cons_self, by decide⟩, c, List.mem_cons_self,
    hc.not_ascii.imp_right (Nat.le_trans (by decide))⟩

/-- Both read the same name, up to what U+FFFD stands in for; no NUL ends it. -/
theorem reads_consumeIdent (h : Reads m us cs) (hs : identInStep us)
    (h0 : (consumeIdent us).2.head? ≠ some 0) :
    ReadsName (CssTokenizer.consumeIdent cs).1 (consumeIdent us).1 ∧
      Reads m (consumeIdent us).2 (CssTokenizer.consumeIdent cs).2 := by
  induction hn : us.length using Nat.strong_induction_on generalizing us cs with
  | _ n ih =>
    subst hn
    obtain ⟨rfl, rfl⟩ | ⟨c, us', d, cs', rfl, rfl, hc⟩ := h.head
    · exact ⟨Or.inl (by simp [consumeIdent, CssTokenizer.consumeIdent]), by
        simpa [consumeIdent, CssTokenizer.consumeIdent] using h⟩
    have hc0 : c ≠ 0 := by
      -- the source would stop at a NUL
      rintro rfl
      rw [consumeIdent, if_neg (by decide), isValidEscape_cons] at h0
      exact h0 rfl
    have hname := isName_alike hc hc0
    have hesc := reads_isValidEscape h
    rw [CssTokenizer.consumeIdent]
    by_cases hd : CssTokenizer.isIdent d
    · -- a name code, or a pair of them
      rw [consumeIdent_name (hname.trans hd)] at h0
      rw [if_pos hd, consumeIdent_name (hname.trans hd)]
      rw [identInStep_name (hname.trans hd)] at hs
      rcases h.cons_cases with ⟨-, rfl, -⟩ | ⟨-, rfl, -⟩ | ⟨low, us'', hh, hl, rfl, rfl, hr⟩ |
        ⟨rfl, -, hlt, hr⟩ | ⟨rfl, hrep, -, hr⟩
      · cases hd
      · cases hd
      · have hlow : isName low = true := isName_of_ge (by
          have := CssTokenizer.lowSurrogate_ge hl
          omega)
        rw [identInStep_name hlow] at hs
        rw [consumeIdent_name hlow] at h0 ⊢
        obtain ⟨h1, h2⟩ := ih us''.length (by simp only [List.length_cons]; omega) hr hs h0 rfl
        exact ⟨h1.cons (Utf16.encodeOne_pairValue hh hl), h2⟩
      · obtain ⟨h1, h2⟩ := ih us'.length (by simp) hr hs h0 rfl
        exact ⟨h1.cons (Utf16.encodeOne_of_lt hlt), h2⟩
      · exact ⟨.replaced hrep _ _, (ih us'.length (by simp) hr hs h0 rfl).2⟩
    · have hc' : isName c = false := hname.trans (eq_false_of_ne_true hd)
      rw [if_neg hd]
      by_cases he : CssTokenizer.isValidEscape (d :: cs')
      · -- an escape, and after it more of the name
        rw [if_pos he]
        rw [he] at hesc
        rw [identInStep, hc', if_neg Bool.false_ne_true, if_pos hesc, Bool.and_eq_true,
          Bool.not_eq_true'] at hs
        rw [consumeIdent, hc', if_neg Bool.false_ne_true, if_pos hesc] at h0 ⊢
        rw [isValidEscape_cons, Bool.and_eq_true, beq_iff_eq, Bool.not_eq_true'] at hesc
        obtain ⟨rfl, hnl⟩ := hesc
        obtain ⟨cs'', hcs, hr⟩ := h.of_ascii (by decide) rfl
        obtain ⟨rfl, rfl⟩ := List.cons.inj hcs
        have hlt := consumeEscape_le (0x5c :: us')
        rcases reads_consumeEscape hr hnl hs.1 with ⟨h1, h2⟩ | ⟨high, low, us'', hh, hl, h1, h2, h3⟩ |
          ⟨e, us'', hrep, -, h1, h2, h3⟩
        · obtain ⟨h4, h5⟩ := ih (consumeEscape (0x5c :: us')).2.length (Nat.lt_succ_of_le hlt) h2
            hs.2 h0 rfl
          exact ⟨h4.cons h1.symm, h5⟩
        · have hlow : isName low = true := isName_of_ge (by
            have := CssTokenizer.lowSurrogate_ge hl
            omega)
          rw [h1] at hlt
          have hs2 := hs.2
          rw [h1, identInStep_name hlow] at hs2
          rw [h1] at h0 ⊢
          dsimp only at h0 ⊢
          rw [consumeIdent_name hlow] at h0 ⊢
          obtain ⟨h4, h5⟩ := ih us''.length (by
            simp only [List.tail_cons, List.length_cons] at hlt ⊢
            omega) h3 hs2 h0 rfl
          have h6 : ReadsName _ ([high, low] ++ _) := h4.cons (Utf16.encodeOne_pairValue hh hl)
          rw [h2]
          exact ⟨h6, h5⟩
        · have hs2 := hs.2
          rw [h1] at hlt hs2 h0 ⊢
          dsimp only at h0 ⊢
          rw [h2]
          exact ⟨.replaced hrep _ _, (ih us''.length (Nat.lt_succ_of_le hlt) h3 hs2 h0 rfl).2⟩
      · rw [if_neg he]
        rw [eq_false_of_ne_true he] at hesc
        rw [consumeIdent, hc', if_neg Bool.false_ne_true, hesc, if_neg Bool.false_ne_true]
        exact ⟨Or.inl rfl, h⟩

/-! ## Strings -/

section Strings

variable {ending : ℕ}

/-- A code that is kept. -/
def IsPlainIn (ending c : ℕ) : Prop := c ≠ ending ∧ isNewline c = false ∧ c ≠ 0x5c

theorem isPlainIn_of_ge (he : isQuote ending) {c : ℕ} (h : 0x80 ≤ c) : IsPlainIn ending c := by
  simp only [isQuote, Bool.or_eq_true, beq_iff_eq] at he
  simp only [IsPlainIn, isNewline, Bool.or_eq_false_iff, beq_eq_false_iff_ne]
  omega

theorem consumeStringLoop_plain {c : ℕ} (h : IsPlainIn ending c) (us : JsString) :
    consumeStringLoop ending (c :: us) =
      (c :: (consumeStringLoop ending us).1, (consumeStringLoop ending us).2) := by
  rw [consumeStringLoop.eq_def]
  dsimp only
  rw [if_neg h.1, h.2.1, if_neg Bool.false_ne_true, if_neg h.2.2]

theorem stringInStep_plain {c : ℕ} (h : IsPlainIn ending c) (us : JsString) :
    stringInStep ending (c :: us) = stringInStep ending us := by
  rw [stringInStep.eq_def]
  dsimp only
  rw [if_neg h.1, h.2.1, if_neg Bool.false_ne_true, if_neg h.2.2]

/-- What the source skips of an escaped line break is what the stream has of it. -/
theorem reads_escapedNewline {c d : ℕ} (h : Reads m (c :: us) (d :: cs)) (hc : isNewline c) :
    Reads m (if c = 0x0d ∧ codeAt us 0 = some 0x0a then us.tail else us) cs := by
  generalize hu : c :: us = u at h
  generalize hp : d :: cs = p at h
  cases h with
  | nil => cases hu
  | crlf h =>
    obtain ⟨rfl, rfl⟩ := List.cons.inj hu
    obtain ⟨rfl, rfl⟩ := List.cons.inj hp
    exact h
  | newline hl hne h =>
    obtain ⟨rfl, rfl⟩ := List.cons.inj hu
    obtain ⟨rfl, rfl⟩ := List.cons.inj hp
    rw [codeAt_head, if_neg fun hcr => hne hcr.1 hcr.2]
    exact h
  | pair hh _ _ =>
    obtain ⟨rfl, rfl⟩ := List.cons.inj hu
    have := CssTokenizer.highSurrogate_ge hh
    simp only [isNewline, Bool.or_eq_true, beq_iff_eq] at hc
    omega
  | plain hl _ _ _ _ =>
    obtain ⟨rfl, rfl⟩ := List.cons.inj hu
    have : isNewline c = false := hl
    rw [hc] at this
    cases this
  | replaced hr _ _ =>
    obtain ⟨rfl, rfl⟩ := List.cons.inj hu
    have := hr.not_ascii
    simp only [isNewline, Bool.or_eq_true, beq_iff_eq] at hc
    omega

/-- Both read the same string, if U+FFFD stands in for nothing in it; a bad one ends at the same
place. -/
theorem reads_consumeStringLoop (he : isQuote ending) (h : Reads m us cs)
    (hs : stringInStep ending us) :
    (m ≤ (consumeStringLoop ending us).2.length →
      ∀ value, (CssTokenizer.consumeString ending cs).1 = some value →
        Utf16.encode value = (consumeStringLoop ending us).1) ∧
    Reads m (consumeStringLoop ending us).2 (CssTokenizer.consumeString ending cs).2 := by
  induction hn : us.length using Nat.strong_induction_on generalizing us cs with
  | _ n ih =>
    subst hn
    obtain ⟨rfl, rfl⟩ | ⟨c, us', d, cs', rfl, rfl, hc⟩ := h.head
    · refine ⟨fun _ value hv => ?_, ?_⟩
      · simp only [CssTokenizer.consumeString, Option.some.injEq] at hv
        subst hv
        simp [consumeStringLoop]
      · simpa [consumeStringLoop, CssTokenizer.consumeString] using h
    have hquote : (0 < ending ∧ ending < 0x80) ∧ isLineBreak ending = false := by
      simp only [isQuote, Bool.or_eq_true, beq_iff_eq] at he
      rcases he with rfl | rfl <;> decide
    have hend : c = ending ↔ d = ending := hc.eq_iff hquote.1 hquote.2
    have hnl := isNewline_alike hc
    have hbs : c = 0x5c ↔ d = 0x5c := hc.eq_iff (by decide) rfl
    rw [consumeStringLoop.eq_def, CssTokenizer.consumeString.eq_def]
    rw [stringInStep.eq_def] at hs
    dsimp only at hs ⊢
    by_cases h1 : c = ending
    · subst h1
      obtain ⟨cs'', hcs, hr⟩ := h.of_ascii hquote.1 hquote.2
      obtain ⟨rfl, rfl⟩ := List.cons.inj hcs
      rw [if_pos rfl, if_pos rfl]
      refine ⟨fun _ value hv => ?_, hr⟩
      cases hv
      rfl
    have h1' : ¬ d = ending := h1 ∘ hend.2
    rw [if_neg h1] at hs ⊢
    rw [if_neg h1']
    cases h2 : isNewline c
    swap
    · rw [h2] at hnl
      rw [if_pos rfl, if_pos hnl.symm]
      exact ⟨fun _ value hv => (by cases hv), h⟩
    have h2' : ¬ CssTokenizer.isNewline d = true := by
      rw [← hnl, h2]
      decide
    rw [h2, if_neg Bool.false_ne_true] at hs
    rw [if_neg Bool.false_ne_true, if_neg h2']
    by_cases h3 : c = 0x5c
    · subst h3
      obtain ⟨cs'', hcs, hr⟩ := h.of_ascii (by decide) rfl
      obtain ⟨rfl, rfl⟩ := List.cons.inj hcs
      rw [if_pos rfl] at hs ⊢
      rw [if_pos rfl]
      obtain ⟨rfl, rfl⟩ | ⟨e, us'', d, cs'', rfl, rfl, hd⟩ := hr.head
      · exact ⟨fun _ value hv => by cases hv; rfl, .nil⟩
      dsimp only at hs ⊢
      rw [isNewline_alike hd] at hs ⊢
      cases h4 : CssTokenizer.isNewline d
      · -- an escaped code
        rw [h4, if_neg Bool.false_ne_true, Bool.and_eq_true, Bool.not_eq_true'] at hs
        rw [if_neg Bool.false_ne_true, if_neg Bool.false_ne_true]
        have hlt := consumeEscape_le (0x5c :: e :: us'')
        have hnl' : (e :: us'').head?.any isNewline = false := (isNewline_alike hd).trans h4
        rcases reads_consumeEscape hr hnl' hs.1 with ⟨h5, h6⟩ |
          ⟨high, low, us3, hh, hl, h5, h6, h7⟩ | ⟨f, us3, -, hm, h5, -, h7⟩
        · obtain ⟨h8, h9⟩ := ih _ (Nat.lt_succ_of_le hlt) h6 hs.2 rfl
          refine ⟨fun hm value hv => ?_, h9⟩
          obtain ⟨more, hmore, rfl⟩ := Option.map_eq_some_iff.1 hv
          show Utf16.encode (_ :: more) = (consumeEscape (0x5c :: e :: us'')).1 ++ _
          rw [Utf16.encode_cons, h5, h8 hm more hmore]
        · have hlow : IsPlainIn ending low := isPlainIn_of_ge he (by
            have := CssTokenizer.lowSurrogate_ge hl
            omega)
          rw [h5] at hlt
          have hs2 := hs.2
          rw [h5, stringInStep_plain hlow] at hs2
          obtain ⟨h8, h9⟩ := ih us3.length (by
            simp only [List.tail_cons, List.length_cons] at hlt ⊢
            omega) h7 hs2 rfl
          rw [h5]
          dsimp only
          rw [consumeStringLoop_plain hlow]
          refine ⟨fun hm value hv => ?_, h9⟩
          obtain ⟨more, hmore, rfl⟩ := Option.map_eq_some_iff.1 hv
          rw [h6, Utf16.encode_cons, Utf16.encodeOne_pairValue hh hl, h8 hm more hmore]
          rfl
        · rw [h5] at hlt
          have hs2 := hs.2
          rw [h5] at hs2 ⊢
          have hle := consumeStringLoop_le ending us3
          exact ⟨fun hk => absurd (Nat.le_trans hk hle) (Nat.not_le_of_lt hm),
            (ih us3.length (Nat.lt_succ_of_le hlt) h7 hs2 rfl).2⟩
      · -- an escaped line break
        rw [h4, if_pos rfl] at hs
        rw [if_pos rfl, if_pos rfl]
        have hr' := reads_escapedNewline hr ((isNewline_alike hd).trans h4)
        refine ih _ ?_ hr' hs rfl
        have := tail_le us''
        split_ifs <;> simp only [List.length_cons] <;> omega
    · have h3' : ¬ d = 0x5c := h3 ∘ hbs.2
      rw [if_neg h3] at hs ⊢
      rw [if_neg h3']
      rcases h.cons_cases with ⟨rfl, -⟩ | ⟨hl, -⟩ | ⟨low, us'', hh, hl, rfl, rfl, hr⟩ |
        ⟨rfl, -, hlt, hr⟩ | ⟨rfl, -, hm, hr⟩
      · cases h2
      · have : isNewline c = true := hl
        rw [h2] at this
        cases this
      · have hlow : IsPlainIn ending low := isPlainIn_of_ge he (by
          have := CssTokenizer.lowSurrogate_ge hl
          omega)
        rw [stringInStep_plain hlow] at hs
        obtain ⟨h8, h9⟩ := ih us''.length (by simp only [List.length_cons]; omega) hr hs rfl
        rw [consumeStringLoop_plain hlow]
        refine ⟨fun hm value hv => ?_, h9⟩
        obtain ⟨more, hmore, rfl⟩ := Option.map_eq_some_iff.1 hv
        rw [Utf16.encode_cons, Utf16.encodeOne_pairValue hh hl, h8 hm more hmore]
        rfl
      · obtain ⟨h8, h9⟩ := ih us'.length (by simp) hr hs rfl
        refine ⟨fun hm value hv => ?_, h9⟩
        obtain ⟨more, hmore, rfl⟩ := Option.map_eq_some_iff.1 hv
        rw [Utf16.encode_cons, Utf16.encodeOne_of_lt hlt, h8 hm more hmore]
        rfl
      · have hle := consumeStringLoop_le ending us'
        exact ⟨fun hk => absurd (Nat.le_trans hk hle) (Nat.not_le_of_lt hm),
          (ih us'.length (by simp) hr hs rfl).2⟩

end Strings

/-! ## Urls -/

/-- A code that neither ends the url nor starts an escape is kept. -/
theorem consumeUrlLoop_keep {c : ℕ} (h1 : c ≠ 0x29) (h2 : isWhitespace c = false) {us : JsString}
    (h3 : isValidEscape (c :: us) = false) :
    consumeUrlLoop (c :: us) = (c :: (consumeUrlLoop us).1, (consumeUrlLoop us).2) := by
  rw [consumeUrlLoop, if_neg h1, h2, if_neg Bool.false_ne_true, h3, if_neg Bool.false_ne_true,
    ite_self]

theorem urlInStep_keep {c : ℕ} (h1 : c ≠ 0x29) (h2 : isWhitespace c = false) {us : JsString}
    (h3 : isValidEscape (c :: us) = false) : urlInStep (c :: us) = urlInStep us := by
  rw [urlInStep, if_neg h1, h2, if_neg Bool.false_ne_true, h3, if_neg Bool.false_ne_true, ite_self]

theorem isValidEscape_of_ne {c : ℕ} (h : c ≠ 0x5c) (us : JsString) :
    isValidEscape (c :: us) = false := by
  rw [isValidEscape_cons, beq_eq_false_iff_ne.2 h, Bool.false_and]

theorem backslash_of_isValidEscape {c : ℕ} {us : JsString} (h : isValidEscape (c :: us)) :
    c = 0x5c ∧ us.head?.any isNewline = false := by
  simpa [isValidEscape_cons] using h

theorem consumeUrlLoop_escape {us : JsString} (h : isValidEscape (0x5c :: us)) :
    consumeUrlLoop (0x5c :: us) =
      ((consumeEscape (0x5c :: us)).1 ++ (consumeUrlLoop (consumeEscape (0x5c :: us)).2).1,
        (consumeUrlLoop (consumeEscape (0x5c :: us)).2).2) := by
  rw [consumeUrlLoop, if_neg (by decide), if_neg (by decide), if_neg (by decide), if_pos h]

theorem urlInStep_escape {us : JsString} (h : isValidEscape (0x5c :: us)) :
    urlInStep (0x5c :: us) =
      (!splitsLineBreak (0x5c :: us) && urlInStep (consumeEscape (0x5c :: us)).2) := by
  rw [urlInStep, if_neg (by decide), if_neg (by decide), if_neg (by decide), if_pos h]

/-- A code outside ASCII is kept. -/
theorem consumeUrlLoop_wide {c : ℕ} (h : 0x80 ≤ c) (us : JsString) :
    consumeUrlLoop (c :: us) = (c :: (consumeUrlLoop us).1, (consumeUrlLoop us).2) ∧
      urlInStep (c :: us) = urlInStep us := by
  have hw : isWhitespace c = false := by
    simp only [isWhitespace, Bool.or_eq_false_iff, beq_eq_false_iff_ne]
    omega
  have he := isValidEscape_of_ne (show c ≠ 0x5c by omega) us
  exact ⟨consumeUrlLoop_keep (by omega) hw he, urlInStep_keep (by omega) hw he⟩

theorem consumeRemnants_dropWhitespace (cs : List ℕ) :
    CssTokenizer.consumeRemnants (CssTokenizer.dropWhitespace cs) =
      CssTokenizer.consumeRemnants cs := by
  induction cs with
  | nil => rfl
  | cons c cs ih =>
    rw [CssTokenizer.dropWhitespace]
    by_cases hc : CssTokenizer.isWhitespace c
    · have hne : c ≠ 0x29 ∧ c ≠ 0x5c := by
        constructor <;> rintro rfl <;> cases hc
      rw [List.dropWhile_cons_of_pos hc, CssTokenizer.consumeRemnants, if_neg hne.1,
        CssTokenizer.isValidEscape_cons, beq_eq_false_iff_ne.2 hne.2, Bool.false_and,
        if_neg Bool.false_ne_true]
      exact ih
    · rw [List.dropWhile_cons_of_neg hc]

/-- White space and what ends a url after it, in step. -/
theorem reads_endOfUrl (h : Reads m us cs)
    (hs : (codeAt (consumeWhitespace us) 0).all (· == 0x29)) :
    (CssTokenizer.dropWhitespace cs = [] ∧ skipParen (consumeWhitespace us) = []) ∨
      ∃ after, CssTokenizer.dropWhitespace cs = 0x29 :: after ∧
        Reads m (skipParen (consumeWhitespace us)) after := by
  have hr := reads_consumeWhitespace h
  generalize consumeWhitespace us = us' at hs hr
  generalize CssTokenizer.dropWhitespace cs = cs' at hr
  match us' with
  | [] =>
    cases hr
    exact Or.inl ⟨rfl, rfl⟩
  | c :: us' =>
    rw [codeAt_zero, Option.all_some, beq_iff_eq] at hs
    subst hs
    obtain ⟨after, rfl, hafter⟩ := hr.of_ascii (by decide) rfl
    exact Or.inr ⟨after, rfl, hafter⟩

/-- Both stop at the same place in the remnants of a bad url. -/
theorem reads_consumeRemnants (h : Reads m us cs) (hs : urlInStep us) :
    Reads m (consumeUrlLoop us).2 (CssTokenizer.consumeRemnants cs) := by
  induction hn : us.length using Nat.strong_induction_on generalizing us cs with
  | _ n ih =>
    subst hn
    obtain ⟨rfl, rfl⟩ | ⟨c, us', d, cs', rfl, rfl, hc⟩ := h.head
    · simpa [consumeUrlLoop, CssTokenizer.consumeRemnants] using h
    have hend : c = 0x29 ↔ d = 0x29 := hc.eq_iff (by decide) rfl
    have hesc := reads_isValidEscape h
    by_cases h1 : c = 0x29
    · subst h1
      obtain ⟨cs'', hcs, hr⟩ := h.of_ascii (by decide) rfl
      obtain ⟨rfl, rfl⟩ := List.cons.inj hcs
      rw [consumeUrlLoop, if_pos rfl, CssTokenizer.consumeRemnants, if_pos rfl]
      exact hr
    cases h2 : isWhitespace c
    swap
    · rw [urlInStep, if_neg h1, if_pos h2] at hs
      rw [consumeUrlLoop, if_neg h1, if_pos h2, ← consumeRemnants_dropWhitespace]
      rcases reads_endOfUrl h hs with ⟨h3, h4⟩ | ⟨after, h3, h4⟩
      · rw [h3]
        dsimp only
        rw [h4]
        simpa [CssTokenizer.consumeRemnants] using Reads.nil
      · rw [h3, CssTokenizer.consumeRemnants, if_pos rfl]
        exact h4
    rw [CssTokenizer.consumeRemnants, if_neg (h1 ∘ hend.2), ← hesc]
    cases h3 : isValidEscape (c :: us')
    swap
    · obtain ⟨rfl, hnl⟩ := backslash_of_isValidEscape h3
      obtain ⟨cs'', hcs, hr⟩ := h.of_ascii (by decide) rfl
      obtain ⟨rfl, rfl⟩ := List.cons.inj hcs
      rw [urlInStep_escape h3, Bool.and_eq_true, Bool.not_eq_true'] at hs
      rw [consumeUrlLoop_escape h3, if_pos rfl]
      have hlt := consumeEscape_le (0x5c :: us')
      rcases reads_consumeEscape hr hnl hs.1 with ⟨-, h5⟩ | ⟨high, low, us'', hh, hl, h4, -, h5⟩ |
        ⟨e, us'', -, -, h4, -, h5⟩
      · exact ih _ (Nat.lt_succ_of_le hlt) h5 hs.2 rfl
      · have hlow := consumeUrlLoop_wide (c := low) (by
          have := CssTokenizer.lowSurrogate_ge hl
          omega) us''
        have hs2 := hs.2
        rw [h4] at hlt ⊢
        rw [h4, hlow.2] at hs2
        dsimp only
        rw [hlow.1]
        refine ih us''.length ?_ h5 hs2 rfl
        simp only [List.tail_cons, List.length_cons] at hlt ⊢
        omega
      · have hs2 := hs.2
        rw [h4] at hlt hs2 ⊢
        exact ih us''.length (Nat.lt_succ_of_le hlt) h5 hs2 rfl
    rw [if_neg Bool.false_ne_true, consumeUrlLoop_keep h1 h2 h3]
    rw [urlInStep_keep h1 h2 h3] at hs
    have hnl : isNewline c = false := by
      simp only [isWhitespace, Bool.or_eq_false_iff] at h2
      simp only [isNewline, Bool.or_eq_false_iff]
      exact ⟨⟨h2.1.1.1.2, h2.1.1.2⟩, h2.1.2⟩
    rcases h.cons_cases with ⟨rfl, -⟩ | ⟨hl, -⟩ | ⟨low, us'', hh, hl, rfl, rfl, hr⟩ |
      ⟨rfl, -, -, hr⟩ | ⟨rfl, -, -, hr⟩
    · cases h2
    · have : isNewline c = true := hl
      rw [hnl] at this
      cases this
    · have hlow := consumeUrlLoop_wide (c := low) (by
        have := CssTokenizer.lowSurrogate_ge hl
        omega) us''
      rw [hlow.2] at hs
      rw [hlow.1]
      exact ih us''.length (by simp only [List.length_cons]; omega) hr hs rfl
    · exact ih us'.length (by simp) hr hs rfl
    · exact ih us'.length (by simp) hr hs rfl

/-- What makes a url bad is the same on both sides, but for a NUL. -/
theorem badInUrl_iff {c d : ℕ} (h : Alike c d) (h0 : c ≠ 0) (hw : isWhitespace c = false) :
    (c = 0x22 ∨ c = 0x27 ∨ c = 0x28 ∨ c = 0x7f ∨ c < 0x20) ↔
      (d = 0x22 || d = 0x27 || d = 0x28 || CssTokenizer.isNonPrintable d) := by
  simp only [isWhitespace, Bool.or_eq_false_iff, beq_eq_false_iff_ne] at hw
  simp only [CssTokenizer.isNonPrintable, Bool.or_eq_true, Bool.and_eq_true, decide_eq_true_eq,
    beq_iff_eq]
  cases h with
  | same _ _ => omega
  | newline hl =>
    simp only [isLineBreak, Bool.or_eq_true, beq_iff_eq] at hl
    omega
  | wide _ _ => omega
  | nul => exact absurd rfl h0

/-- Both read the same url, if U+FFFD stands in for nothing in it; the remnants of a bad one end at
the same place. -/
theorem reads_consumeUrlLoop (h : Reads m us cs) (hs : urlInStep us) :
    (m ≤ (consumeUrlLoop us).2.length →
      ∀ value, (CssTokenizer.consumeUrlValue cs).1 = some value →
        Utf16.encode value = (consumeUrlLoop us).1) ∧
    Reads m (consumeUrlLoop us).2 (CssTokenizer.consumeUrlValue cs).2 := by
  induction hn : us.length using Nat.strong_induction_on generalizing us cs with
  | _ n ih =>
    subst hn
    obtain ⟨rfl, rfl⟩ | ⟨c, us', d, cs', rfl, rfl, hc⟩ := h.head
    · refine ⟨fun _ value hv => ?_, ?_⟩
      · simp only [CssTokenizer.consumeUrlValue, Option.some.injEq] at hv
        subst hv
        simp [consumeUrlLoop]
      · simpa [consumeUrlLoop, CssTokenizer.consumeUrlValue] using h
    have hend : c = 0x29 ↔ d = 0x29 := hc.eq_iff (by decide) rfl
    have hesc := reads_isValidEscape h
    have hbs : c = 0x5c ↔ d = 0x5c := hc.eq_iff (by decide) rfl
    rw [CssTokenizer.consumeUrlValue.eq_def]
    dsimp only
    by_cases h1 : c = 0x29
    · subst h1
      obtain ⟨cs'', hcs, hr⟩ := h.of_ascii (by decide) rfl
      obtain ⟨rfl, rfl⟩ := List.cons.inj hcs
      rw [consumeUrlLoop, if_pos rfl, if_pos rfl]
      exact ⟨fun _ value hv => (by cases hv; rfl), hr⟩
    rw [if_neg (h1 ∘ hend.2)]
    cases h2 : isWhitespace c
    swap
    · -- white space ends a url on both sides
      have h2' : CssTokenizer.isWhitespace d = true := (isWhitespace_alike hc).symm.trans h2
      have hdrop : CssTokenizer.dropWhitespace (d :: cs') = CssTokenizer.dropWhitespace cs' :=
        List.dropWhile_cons_of_pos h2'
      rw [urlInStep, if_neg h1, if_pos h2] at hs
      rw [consumeUrlLoop, if_neg h1, if_pos h2, if_pos h2', ← hdrop]
      dsimp only
      rcases reads_endOfUrl h hs with ⟨h3, h4⟩ | ⟨after, h3, h4⟩
      · rw [h3, h4]
        exact ⟨fun _ value hv => (by cases hv; rfl), .nil⟩
      · rw [h3]
        exact ⟨fun _ value hv => (by cases hv; rfl), h4⟩
    have h2' : CssTokenizer.isWhitespace d = false := (isWhitespace_alike hc).symm.trans h2
    rw [h2', if_neg Bool.false_ne_true]
    by_cases h0 : c = 0
    · -- the source keeps a NUL, and the stream has U+FFFD
      subst h0
      obtain ⟨cs'', hcs, hm, hr⟩ := h.of_nul
      obtain ⟨rfl, rfl⟩ := List.cons.inj hcs
      have hne := isValidEscape_of_ne (show 0 ≠ 0x5c by decide) us'
      rw [urlInStep_keep h1 h2 hne] at hs
      rw [if_neg (by decide), if_neg (by decide), consumeUrlLoop_keep h1 h2 hne]
      have hle := consumeUrlLoop_le us'
      exact ⟨fun hk => absurd (Nat.le_trans hk hle) (Nat.not_le_of_lt hm),
        (ih us'.length (by simp) hr hs rfl).2⟩
    by_cases h3 : d = 0x22 || d = 0x27 || d = 0x28 || CssTokenizer.isNonPrintable d
    · -- a code that makes the url bad; the source keeps it
      have hbad := (badInUrl_iff hc h0 h2).2 h3
      have hne : isValidEscape (c :: us') = false := isValidEscape_of_ne (by omega) us'
      rw [urlInStep_keep h1 h2 hne] at hs
      rw [if_pos h3, consumeUrlLoop_keep h1 h2 hne]
      refine ⟨fun _ value hv => (by cases hv), ?_⟩
      have hr : Reads m us' cs' := by
        rcases h.cons_cases with ⟨rfl, -⟩ | ⟨hl, -⟩ | ⟨low, us'', hh, -⟩ | ⟨-, -, -, hr⟩ |
          ⟨-, -, -, hr⟩
        · cases h2
        · simp only [isLineBreak, isWhitespace, Bool.or_eq_true, Bool.or_eq_false_iff, beq_iff_eq,
            beq_eq_false_iff_ne] at hl h2
          omega
        · have := CssTokenizer.highSurrogate_ge hh
          omega
        · exact hr
        · exact hr
      exact reads_consumeRemnants hr hs
    rw [if_neg h3]
    by_cases h4 : c = 0x5c
    · subst h4
      obtain ⟨cs'', hcs, hr⟩ := h.of_ascii (by decide) rfl
      obtain ⟨rfl, rfl⟩ := List.cons.inj hcs
      rw [if_pos rfl, ← hesc]
      cases h5 : isValidEscape (0x5c :: us')
      · rw [urlInStep_keep h1 h2 h5] at hs
        rw [if_neg Bool.false_ne_true, consumeUrlLoop_keep h1 h2 h5]
        exact ⟨fun _ value hv => (by cases hv), reads_consumeRemnants hr hs⟩
      · rw [urlInStep_escape h5, Bool.and_eq_true, Bool.not_eq_true'] at hs
        rw [if_pos rfl, consumeUrlLoop_escape h5]
        have hlt := consumeEscape_le (0x5c :: us')
        rcases reads_consumeEscape hr (backslash_of_isValidEscape h5).2 hs.1 with
          ⟨h6, h7⟩ | ⟨high, low, us'', hh, hl, h6, h7, h8⟩ | ⟨e, us'', -, hm, h6, -, h8⟩
        · obtain ⟨h9, h10⟩ := ih _ (Nat.lt_succ_of_le hlt) h7 hs.2 rfl
          refine ⟨fun hm value hv => ?_, h10⟩
          obtain ⟨more, hmore, rfl⟩ := Option.map_eq_some_iff.1 hv
          rw [Utf16.encode_cons, h6, h9 hm more hmore]
        · have hlow := consumeUrlLoop_wide (c := low) (by
            have := CssTokenizer.lowSurrogate_ge hl
            omega) us''
          have hs2 := hs.2
          rw [h6] at hlt ⊢
          rw [h6, hlow.2] at hs2
          obtain ⟨h9, h10⟩ := ih us''.length (by
            simp only [List.tail_cons, List.length_cons] at hlt ⊢
            omega) h8 hs2 rfl
          dsimp only
          rw [hlow.1]
          refine ⟨fun hm value hv => ?_, h10⟩
          obtain ⟨more, hmore, rfl⟩ := Option.map_eq_some_iff.1 hv
          rw [h7, Utf16.encode_cons, Utf16.encodeOne_pairValue hh hl, h9 hm more hmore]
          rfl
        · have hs2 := hs.2
          rw [h6] at hlt hs2 ⊢
          have hle := consumeUrlLoop_le us''
          exact ⟨fun hk => absurd (Nat.le_trans hk hle) (Nat.not_le_of_lt hm),
            (ih us''.length (Nat.lt_succ_of_le hlt) h8 hs2 rfl).2⟩
    · have hne := isValidEscape_of_ne h4 us'
      rw [urlInStep_keep h1 h2 hne] at hs
      rw [if_neg (h4 ∘ hbs.2), consumeUrlLoop_keep h1 h2 hne]
      rcases h.cons_cases with ⟨rfl, -⟩ | ⟨hl, -⟩ | ⟨low, us'', hh, hl, rfl, rfl, hr⟩ |
        ⟨rfl, -, hlt, hr⟩ | ⟨rfl, -, hm, hr⟩
      · cases h2
      · simp only [isLineBreak, isWhitespace, Bool.or_eq_true, Bool.or_eq_false_iff, beq_iff_eq,
          beq_eq_false_iff_ne] at hl h2
        omega
      · have hlow := consumeUrlLoop_wide (c := low) (by
          have := CssTokenizer.lowSurrogate_ge hl
          omega) us''
        rw [hlow.2] at hs
        rw [hlow.1]
        obtain ⟨h9, h10⟩ := ih us''.length (by simp only [List.length_cons]; omega) hr hs rfl
        refine ⟨fun hm value hv => ?_, h10⟩
        obtain ⟨more, hmore, rfl⟩ := Option.map_eq_some_iff.1 hv
        rw [Utf16.encode_cons, Utf16.encodeOne_pairValue hh hl, h9 hm more hmore]
        rfl
      · obtain ⟨h9, h10⟩ := ih us'.length (by simp) hr hs rfl
        refine ⟨fun hm value hv => ?_, h10⟩
        obtain ⟨more, hmore, rfl⟩ := Option.map_eq_some_iff.1 hv
        rw [Utf16.encode_cons, Utf16.encodeOne_of_lt hlt, h9 hm more hmore]
        rfl
      · have hle := consumeUrlLoop_le us'
        exact ⟨fun hk => absurd (Nat.le_trans hk hle) (Nat.not_le_of_lt hm),
          (ih us'.length (by simp) hr hs rfl).2⟩

/-! ## Numbers -/

/-- Behind an ASCII code that is no line break both are at the same place again. -/
theorem reads_tail (h : Reads m us cs) {k : ℕ} (hk : 0 < k ∧ k < 0x80)
    (hl : isLineBreak k = false)
    (hu : us.head? = some k) : Reads m us.tail cs.tail := by
  obtain ⟨us', rfl⟩ := List.head?_eq_some_iff.1 hu
  obtain ⟨cs', rfl, hr⟩ := h.of_ascii hk hl
  exact hr

theorem reads_sign_iff (h : Reads m us cs) :
    (us.head? = some 0x2b ∨ us.head? = some 0x2d) ↔
      (cs.head? = some 0x2b ∨ cs.head? = some 0x2d) :=
  or_congr (reads_head_eq_some h (by decide) rfl) (reads_head_eq_some h (by decide) rfl)

theorem reads_consumeSign (h : Reads m us cs) :
    Reads m (consumeSign us) (CssTokenizer.dropSign cs) := by
  rw [consumeSign, codeAt_head, CssTokenizer.dropSign_eq]
  by_cases hs : us.head? = some 0x2b ∨ us.head? = some 0x2d
  · rw [if_pos hs, if_pos ((reads_sign_iff h).1 hs)]
    rcases hs with hs | hs
    · exact reads_tail h (by decide) rfl hs
    · exact reads_tail h (by decide) rfl hs
  · rw [if_neg hs, if_neg (hs ∘ (reads_sign_iff h).2)]
    exact h

theorem reads_consumeFraction (h : Reads m us cs) :
    Reads m (consumeFraction us) (CssTokenizer.dropFraction cs) := by
  rw [consumeFraction, codeAt_tail, codeAt_head, codeAt_head, CssTokenizer.dropFraction_eq]
  have hiff := reads_head_eq_some h (k := 0x2e) (by decide) rfl
  by_cases hp : us.head? = some 0x2e
  · have hr := reads_tail h (by decide) rfl hp
    rw [hr.any_head isDigit_alike]
    by_cases hd : cs.tail.head?.any CssTokenizer.isDigit
    · rw [if_pos ⟨hp, hd⟩, if_pos ⟨hiff.1 hp, hd⟩]
      exact reads_consumeDigits hr
    · rw [if_neg (hd ·.2), if_neg (hd ·.2)]
      exact h
  · rw [if_neg (hp ·.1), if_neg (hp <| hiff.2 ·.1)]
    exact h

/-- A digit, or a sign and a digit. -/
theorem reads_startsExponent (h : Reads m us cs) :
    ((codeAt us 0).any isDigit ∨
      (codeAt us 0 = some 0x2b ∨ codeAt us 0 = some 0x2d) ∧ (codeAt us 1).any isDigit) ↔
      CssTokenizer.startsExponent cs := by
  rw [codeAt_tail, codeAt_head, codeAt_head, CssTokenizer.startsExponent_eq, Bool.or_eq_true,
    Bool.and_eq_true, Bool.or_eq_true, beq_iff_eq, beq_iff_eq, h.any_head isDigit_alike]
  by_cases hs : us.head? = some 0x2b ∨ us.head? = some 0x2d
  · have hr : Reads m us.tail cs.tail := by
      rcases hs with hs | hs
      · exact reads_tail h (by decide) rfl hs
      · exact reads_tail h (by decide) rfl hs
    rw [hr.any_head isDigit_alike, reads_head_eq_some h (by decide) rfl,
      reads_head_eq_some h (by decide) rfl]
  · have hs' := hs
    rw [reads_head_eq_some h (by decide) rfl, reads_head_eq_some h (by decide) rfl] at hs'
    simp only [hs, hs', false_and]

theorem reads_consumeExponent (h : Reads m us cs) :
    Reads m (consumeExponent us) (CssTokenizer.dropExponent cs) := by
  obtain ⟨rfl, rfl⟩ | ⟨c, us', d, cs', rfl, rfl, hc⟩ := h.head
  · exact .nil
  have hiff : (codeAt (c :: us') 0 = some 0x45 ∨ codeAt (c :: us') 0 = some 0x65) ↔
      (d = 0x45 ∨ d = 0x65) := by
    rw [codeAt_zero, Option.some.injEq, Option.some.injEq, hc.eq_iff (by decide) rfl,
      hc.eq_iff (by decide) rfl]
  unfold consumeExponent CssTokenizer.dropExponent
  simp only [Bool.and_eq_true, Bool.or_eq_true, beq_iff_eq]
  by_cases he : d = 0x45 ∨ d = 0x65
  · have hr : Reads m us' cs' := by
      rcases he with rfl | rfl
      · obtain ⟨us'', hus, hr⟩ := h.to_ascii (by decide) (by decide)
        rwa [(List.cons.inj hus).2]
      · obtain ⟨us'', hus, hr⟩ := h.to_ascii (by decide) (by decide)
        rwa [(List.cons.inj hus).2]
    by_cases hx : CssTokenizer.startsExponent cs'
    · rw [if_pos ⟨hiff.2 he, (reads_startsExponent hr).2 hx⟩, if_pos ⟨he, hx⟩]
      exact reads_consumeDigits (reads_consumeSign hr)
    · rw [if_neg (hx <| (reads_startsExponent hr).1 ·.2), if_neg (hx ·.2)]
      exact h
  · rw [if_neg (he <| hiff.1 ·.1), if_neg (he ·.1)]
    exact h

theorem reads_afterNumber (h : Reads m us cs) :
    Reads m (afterNumber us) (CssTokenizer.consumeNumber cs) :=
  reads_consumeExponent (reads_consumeFraction (reads_consumeDigits (reads_consumeSign h)))

/-! ## Comments -/

/-- A code that does not end a comment is skipped. -/
theorem skip_consumeComment {c d : ℕ} {us : JsString} (h : ¬ (c = 0x2a ∧ d = 0x2f)) :
    skipEndMark (consumeComment (c :: d :: us)).2 = skipEndMark (consumeComment (d :: us)).2 := by
  rw [consumeComment, if_neg h]

theorem afterComment_cons {c : ℕ} {cs : List ℕ} (h : ¬ (c = 0x2a ∧ cs.head? = some 0x2f)) :
    CssTokenizer.afterComment (c :: cs) = CssTokenizer.afterComment cs := by
  rw [CssTokenizer.afterComment]
  rintro rest rfl rfl
  exact h ⟨rfl, rfl⟩

/-- Both stop at the same place behind a comment, or the stream ends in it. -/
theorem reads_consumeComment (h : Reads m us cs) :
    Reads m (skipEndMark (consumeComment us).2) (CssTokenizer.afterComment cs) ∨
      CssTokenizer.afterComment cs = [] := by
  induction h with
  | nil => exact Or.inr rfl
  | @crlf us cs h ih =>
    rw [afterComment_cons (by simp), skip_consumeComment (by simp)]
    match us with
    | [] =>
      cases h
      exact Or.inr rfl
    | c :: us =>
      rw [skip_consumeComment (by simp)]
      exact ih
  | @newline c us cs hc hne h ih =>
    rw [afterComment_cons (by simp)]
    match us with
    | [] =>
      cases h
      exact Or.inr rfl
    | d :: us =>
      rw [skip_consumeComment (by rintro ⟨rfl, -⟩; cases hc)]
      exact ih
  | @pair high low us cs hh hl h ih =>
    have h1 := Utf16.le_pairValue high low
    have h2 := CssTokenizer.highSurrogate_ge hh
    have h3 := CssTokenizer.lowSurrogate_ge hl
    rw [afterComment_cons (by omega), skip_consumeComment (by omega)]
    match us with
    | [] =>
      cases h
      exact Or.inr rfl
    | d :: us =>
      rw [skip_consumeComment (by omega)]
      exact ih
  | @plain c us cs hl h0 hs hlt h ih =>
    by_cases hc : c = 0x2a ∧ cs.head? = some 0x2f
    · obtain ⟨rfl, hc⟩ := hc
      obtain ⟨cs', rfl⟩ := List.head?_eq_some_iff.1 hc
      obtain ⟨us', rfl, hr⟩ := h.to_ascii (by decide) (by decide)
      exact Or.inl hr
    · rw [afterComment_cons hc]
      match us with
      | [] =>
        cases h
        exact Or.inr rfl
      | d :: us =>
        rw [skip_consumeComment]
        · exact ih
        · rintro ⟨rfl, rfl⟩
          exact hc ⟨rfl, (reads_head_eq_some h (by decide) rfl).1 rfl⟩
  | @replaced c us cs hc hm h ih =>
    have h1 := hc.not_ascii
    rw [afterComment_cons (by rintro ⟨h2, -⟩; cases h2)]
    match us with
    | [] =>
      cases h
      exact Or.inr rfl
    | d :: us =>
      rw [skip_consumeComment (by omega)]
      exact ih

end Reads

end FigmaDevMcp.Css

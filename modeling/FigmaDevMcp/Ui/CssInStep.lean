import FigmaDevMcp.Ui.CssReading
import FigmaDevMcp.Ui.Svg

set_option autoImplicit false

/-!
# Urls that are found

The tokenizer of the sanitizer and the CSS tokenizer, token by token. Where none of the branches is
taken on which the two part, every url of the CSS tokenizer is a url of the sanitizer.

* `InStep`: no branch that parts is taken;
* `step_covered`: one token of the sanitizer, and what of the stream it covers;
* **`urls_covered`**: in step every url is found, and a text that is accepted has no url that
  is refused.
-/

namespace FigmaDevMcp.Css

open CssTokenizer (Reads Alike isLineBreak noneReplaced tokens)

/-! ## In step -/

/-- The source keeps a NUL and a lone surrogate where the stream has U+FFFD. In what it takes for a
url after `url(` it meets neither. -/
def keepsUrl (input : JsString) : Bool :=
  noneReplaced (input.take (input.length - (consumeUrl input).2.length))

/-- A url after `url(`, quoted or not. -/
def valueInStep (input : JsString) : Bool :=
  match consumeWhitespace input with
  | next :: rest => if isQuote next then stringInStep next rest else urlInStep (next :: rest)
  | [] => true

/-- What follows a number is no `url(`: the source takes a number with its unit apart. -/
def numberInStep (after : JsString) : Bool :=
  !(startsIdent after && isUrlName (consumeIdent after).1 &&
    codeAt (consumeIdent after).2 0 == some 0x28)

/-- What follows `<` is not `!--` and a name: the source takes the two hyphens for a part of the
name. -/
def markInStep (rest : JsString) : Bool :=
  !(rest.take 3 == [0x21, 0x2d, 0x2d] &&
    ((codeAt rest 3).any isName || isValidEscape (rest.drop 3)))

/-- No branch that parts is taken for the token that starts with `code`. A NUL starts a name in the
stream, where the source takes it for a token of its own. -/
def tokenInStep (code : ℕ) (rest : JsString) : Bool :=
  if code = 0x2f ∧ codeAt rest 0 = some 0x2a then true
  else if isWhitespace code then true
  else if isQuote code then stringInStep code rest
  else if code = 0x23 then identInStep rest
  else if code = 0x40 then !startsIdent rest || identInStep rest
  else if startsIdent (code :: rest) then
    let name := consumeIdent (code :: rest)
    identInStep (code :: rest) &&
      (!(codeAt name.2 0 == some 0x28 && isUrlName name.1) ||
        keepsUrl name.2.tail && valueInStep name.2.tail)
  else if startsNumber (code :: rest) then numberInStep (afterNumber (code :: rest))
  else if code = 0x3c then markInStep rest
  else code != 0

/-- No branch that parts is taken for any token of the input. -/
def inStep : JsString → Bool
  | [] => true
  | code :: rest => tokenInStep code rest && inStep (nextToken code rest).2
termination_by input => input.length
decreasing_by exact nextToken_lt code rest

/-- The value of a url token. -/
def urlOf : CssToken → Option JsString
  | .url value => some value
  | _ => none

/-- The values of the url tokens. -/
def urlValues (tokens : List CssToken) : List JsString := tokens.filterMap urlOf

/-! ## Rounds of the main loop -/

/-- The main loop gets from the first input to the second. -/
inductive Rounds : JsString → JsString → Prop where
  | refl (input : JsString) : Rounds input input
  | round {code : ℕ} {rest input : JsString} :
      Rounds (nextToken code rest).2 input → Rounds (code :: rest) input

theorem Rounds.trans {a b c : JsString} (h : Rounds a b) (h' : Rounds b c) : Rounds a c := by
  induction h with
  | refl _ => exact h'
  | round _ ih => exact .round (ih h')

/-- One round, whose token is known. -/
theorem Rounds.of_eq {code : ℕ} {rest input : JsString} {t : CssToken}
    (h : nextToken code rest = (t, input)) : Rounds (code :: rest) input :=
  .round (by rw [h]; exact .refl _)

theorem tokenizeCss_cons (code : ℕ) (rest : JsString) :
    tokenizeCss (code :: rest) =
      (nextToken code rest).1 :: tokenizeCss (nextToken code rest).2 := by
  rw [tokenizeCss]

theorem Rounds.urlValues {a b : JsString} (h : Rounds a b) :
    ∀ value ∈ urlValues (tokenizeCss b), value ∈ Css.urlValues (tokenizeCss a) := by
  induction h with
  | refl _ => exact fun _ hv => hv
  | @round code rest input _ ih =>
    intro value hv
    rw [tokenizeCss_cons, Css.urlValues, List.filterMap_cons]
    have := ih value hv
    split
    · exact this
    · exact List.mem_cons_of_mem _ this

theorem Rounds.inStep {a b : JsString} (h : Rounds a b) (ha : inStep a) : inStep b := by
  induction h with
  | refl _ => exact ha
  | round _ ih =>
    rw [Css.inStep, Bool.and_eq_true] at ha
    exact ih ha.2

theorem Rounds.length_le {a b : JsString} (h : Rounds a b) : b.length ≤ a.length := by
  induction h with
  | refl _ => exact Nat.le_refl _
  | @round code rest input _ ih => exact Nat.le_trans ih (Nat.le_of_lt (nextToken_lt code rest))

/-- The loop ends. -/
theorem Rounds.nil (a : JsString) : Rounds a [] := by
  induction hn : a.length using Nat.strong_induction_on generalizing a with
  | _ n ih =>
    subst hn
    match a with
    | [] => exact .refl _
    | code :: rest => exact .round (ih _ (nextToken_lt code rest) _ rfl)

/-! ## One token -/

/-- What one round has covered when the loop is at `us` and the stream at `cs`: the urls of the
stream from `ds` on are that of the round's token and those from `cs` on. -/
structure Covers (m code : ℕ) (rest : JsString) (ds : List ℕ) (us : JsString) (cs : List ℕ) : Prop where
  rounds : Rounds (nextToken code rest).2 us
  reads : Reads m us cs
  urls : ∀ value ∈ CssTokenizer.urls (tokens ds),
    (nextToken code rest).1 = .url (Utf16.encode value) ∨ value ∈ CssTokenizer.urls (tokens cs)

/-- A round that leaves off where one token of the stream does. -/
theorem covers_token {m c d : ℕ} {us rest : JsString} {cs after : List ℕ} {t : CssToken}
    {t' : CssTokenizer.Token} (hne : ¬ (d = 0x2f ∧ cs.head? = some 0x2a))
    (hus : nextToken c us = (t, rest)) (hcs : CssTokenizer.consumeToken d cs = (t', after))
    (hr : Reads m rest after) (h1 : ∀ value, t' ≠ .url value) (h2 : ∀ name, t' ≠ .function name) :
    Covers m c us (d :: cs) rest after where
  rounds := by
    rw [hus]
    exact .refl _
  reads := hr
  urls value hv := by
    rw [CssTokenizer.tokens_cons hne, hcs, CssTokenizer.urls_cons h1 h2] at hv
    exact Or.inr hv

/-! ## Which round it is -/

theorem isNameStart_ge {c : ℕ} (h : isNameStart c) : 0x41 ≤ c := by
  simp only [isNameStart, Bool.or_eq_true, Bool.and_eq_true, decide_eq_true_eq, beq_iff_eq] at h
  omega

theorem startsIdent_head {c : ℕ} {us : JsString} (h : startsIdent (c :: us)) :
    isNameStart c ∨ c = 0x2d ∨ c = 0x5c := by
  rw [startsIdent_cons] at h
  split_ifs at h with hc
  · exact Or.inr (Or.inl hc)
  · rw [isValidEscape_cons, Bool.or_eq_true, Bool.and_eq_true, beq_iff_eq] at h
    rcases h with h | h
    · exact Or.inl h
    · exact Or.inr (Or.inr h.1)

/-- No other token starts where an identifier does. -/
theorem not_other_of_startsIdent {c : ℕ} {us : JsString} (h : startsIdent (c :: us)) :
    c ≠ 0x2f ∧ isWhitespace c = false ∧ isQuote c = false ∧ c ≠ 0x23 ∧ c ≠ 0x40 := by
  rcases startsIdent_head h with hc | rfl | rfl
  · have := isNameStart_ge hc
    simp only [isNameStart, Bool.or_eq_true, Bool.and_eq_true, decide_eq_true_eq, beq_iff_eq] at hc
    simp only [isWhitespace, isQuote, Bool.or_eq_false_iff, beq_eq_false_iff_ne]
    omega
  · decide
  · decide

/-- The round of an identifier. -/
def identToken (name : JsString × JsString) : CssToken × JsString :=
  if codeAt name.2 0 = some 0x28 then
    if isUrlName name.1 then (.url (consumeUrl name.2.tail).1, (consumeUrl name.2.tail).2)
    else (.function name.1, name.2.tail)
  else (.ident name.1, name.2)

theorem nextToken_ident {c : ℕ} {us : JsString} (h : startsIdent (c :: us)) :
    nextToken c us = identToken (consumeIdent (c :: us)) := by
  obtain ⟨h1, h2, h3, h4, h5⟩ := not_other_of_startsIdent h
  rw [nextToken, if_neg (h1 ·.1), h2, h3, if_neg Bool.false_ne_true, if_neg Bool.false_ne_true,
    if_neg h4, if_neg h5, if_pos h]
  rfl

theorem tokenInStep_ident {c : ℕ} {us : JsString} (h : startsIdent (c :: us)) :
    tokenInStep c us =
      (identInStep (c :: us) && (!(codeAt (consumeIdent (c :: us)).2 0 == some 0x28 &&
        isUrlName (consumeIdent (c :: us)).1) ||
          keepsUrl (consumeIdent (c :: us)).2.tail &&
            valueInStep (consumeIdent (c :: us)).2.tail)) := by
  obtain ⟨h1, h2, h3, h4, h5⟩ := not_other_of_startsIdent h
  rw [tokenInStep, if_neg (h1 ·.1), h2, h3, if_neg Bool.false_ne_true, if_neg Bool.false_ne_true,
    if_neg h4, if_neg h5, if_pos h]

/-- A code that starts none of the other tokens. -/
theorem nextToken_delim {c : ℕ} {us : JsString} (h0 : c ≠ 0x2f) (hw : isWhitespace c = false)
    (hq : isQuote c = false) (hh : c ≠ 0x23) (ha : c ≠ 0x40) (hi : startsIdent (c :: us) = false)
    (hn : startsNumber (c :: us) = false) : nextToken c us = (.delim [c], us) := by
  rw [nextToken, if_neg (h0 ·.1), hw, hq, if_neg Bool.false_ne_true, if_neg Bool.false_ne_true,
    if_neg hh, if_neg ha, hi, if_neg Bool.false_ne_true, hn, if_neg Bool.false_ne_true]

/-- The codes that are always a token of their own. -/
theorem nextToken_mark {c : ℕ} (hc : c = 0x21 ∨ c = 0x25 ∨ c = 0x28 ∨ c = 0x3c ∨ c = 0x3e)
    (us : JsString) : nextToken c us = (.delim [c], us) := by
  have h : c ≠ 0x2f ∧ isWhitespace c = false ∧ isQuote c = false ∧ c ≠ 0x23 ∧ c ≠ 0x40 ∧
      isNameStart c = false ∧ c ≠ 0x2d ∧ c ≠ 0x5c ∧ c ≠ 0x2b ∧ c ≠ 0x2e ∧ isDigit c = false := by
    rcases hc with rfl | rfl | rfl | rfl | rfl <;> decide
  obtain ⟨h1, h2, h3, h4, h5, h6, h7, h8, h9, h10, h11⟩ := h
  refine nextToken_delim h1 h2 h3 h4 h5 ?_ ?_
  · rw [startsIdent_cons, if_neg h7, h6, isValidEscape_of_ne h8]
    rfl
  · simp [startsNumber_cons, startsUnsigned, h7, h9, h10, h11]

/-! ## No NUL ahead -/

/-- In step no token starts with a NUL. -/
theorem head_ne_of_inStep {us : JsString} (h : inStep us) : us.head? ≠ some 0 := by
  intro h0
  obtain ⟨us', rfl⟩ := List.head?_eq_some_iff.1 h0
  have hi : startsIdent (0 :: us') = false := by
    rw [startsIdent_cons, if_neg (by decide), isValidEscape_cons]
    rfl
  have hn : startsNumber (0 :: us') = false := by
    rw [startsNumber_cons, if_neg (by decide)]
    rfl
  have ht : tokenInStep 0 us' = false := by
    rw [tokenInStep, if_neg (by simp), if_neg (by decide), if_neg (by decide), if_neg (by decide),
      if_neg (by decide), hi, if_neg Bool.false_ne_true, hn, if_neg Bool.false_ne_true,
      if_neg (by decide)]
    rfl
  rw [inStep, ht] at h
  cases h

theorem not_nulAhead_of_inStep {us : JsString} (h : inStep us) : ¬ NulAhead us := by
  rintro (h0 | ⟨hc, h0⟩)
  · exact head_ne_of_inStep h h0
  · -- a hyphen before a NUL is a token of its own
    obtain ⟨us', rfl⟩ := List.head?_eq_some_iff.1 hc
    obtain ⟨us', rfl⟩ := List.head?_eq_some_iff.1 h0
    have ht : nextToken 0x2d (0 :: us') = (.delim [0x2d], 0 :: us') :=
      nextToken_delim (by decide) rfl rfl (by decide) (by decide)
        (by rw [startsIdent_cons, if_pos rfl, isValidEscape_cons]; rfl)
        (by rw [startsNumber_cons, if_pos (Or.inr rfl)]; rfl)
    rw [inStep, ht, Bool.and_eq_true] at h
    exact head_ne_of_inStep h.2 rfl

/-- In step no NUL ends a name. -/
theorem consumeIdent_ends {c : ℕ} {us : JsString} (hi : startsIdent (c :: us))
    (h : inStep (nextToken c us).2) : (consumeIdent (c :: us)).2.head? ≠ some 0 := by
  intro h0
  rw [nextToken_ident hi, identToken, codeAt_head, if_neg (by rw [h0]; decide)] at h
  exact head_ne_of_inStep h h0

section Tokens

variable {m c d : ℕ} {us : JsString} {cs : List ℕ}

/-- The stream's place where no comment starts. -/
theorem not_comment (h : Reads m (c :: us) (d :: cs)) (hcom : ¬ (c = 0x2f ∧ codeAt us 0 = some 0x2a)) :
    ¬ (d = 0x2f ∧ cs.head? = some 0x2a) := by
  rintro ⟨rfl, hcs⟩
  obtain ⟨us', hus, hr⟩ := h.to_ascii (by decide) (by decide)
  obtain ⟨rfl, rfl⟩ := List.cons.inj hus
  exact hcom ⟨rfl, by rw [codeAt_head, reads_head_eq_some hr (by decide) rfl, hcs]⟩

theorem covers_comment (h : Reads m (0x2f :: 0x2a :: us) (d :: cs)) :
    ∃ us' cs', Covers m 0x2f (0x2a :: us) (d :: cs) us' cs' := by
  obtain ⟨cs', hcs, hr⟩ := h.of_ascii (by decide) rfl
  obtain ⟨rfl, rfl⟩ := List.cons.inj hcs
  obtain ⟨cs', rfl, hr'⟩ := hr.of_ascii (by decide) rfl
  have ht : nextToken 0x2f (0x2a :: us) =
      (.comment (consumeComment us).1, skipEndMark (consumeComment us).2) := rfl
  rcases reads_consumeComment hr' with hr'' | hr''
  · refine ⟨_, _, by rw [ht]; exact .refl _, hr'', fun value hv => Or.inr ?_⟩
    rwa [CssTokenizer.tokens_comment] at hv
  · refine ⟨[], [], by rw [ht]; exact .nil _, .nil, fun value hv => ?_⟩
    rw [CssTokenizer.tokens_comment, hr'', CssTokenizer.tokens_nil] at hv
    cases hv

theorem covers_whitespace (h : Reads m (c :: us) (d :: cs)) (hc : isWhitespace c)
    (hcom : ¬ (c = 0x2f ∧ codeAt us 0 = some 0x2a)) :
    ∃ us' cs', Covers m c us (d :: cs) us' cs' := by
  have hd : CssTokenizer.isWhitespace d = true := (isWhitespace_alike h.alike).symm.trans hc
  have hr := reads_consumeWhitespace h
  rw [CssTokenizer.dropWhitespace, List.dropWhile_cons_of_pos hd] at hr
  have hus : nextToken c us = (.whitespace, consumeWhitespace (c :: us)) := by
    rw [nextToken, if_neg hcom, if_pos hc]
  have hcs : CssTokenizer.consumeToken d cs = (.whitespace, CssTokenizer.dropWhitespace cs) := by
    rw [CssTokenizer.consumeToken, if_pos hd]
  exact ⟨_, _, covers_token (not_comment h hcom) hus hcs hr (by simp) (by simp)⟩

/-- A quotation mark is no other token. -/
theorem quote_cases (hc : isQuote c) : (0 < c ∧ c < 0x80) ∧ isLineBreak c = false ∧ c ≠ 0x2f ∧
    isWhitespace c = false ∧ CssTokenizer.isWhitespace c = false ∧ CssTokenizer.isQuote c := by
  simp only [isQuote, Bool.or_eq_true, beq_iff_eq] at hc
  rcases hc with rfl | rfl <;> decide

theorem covers_string (h : Reads m (c :: us) (d :: cs)) (hc : isQuote c) (hs : stringInStep c us) :
    ∃ us' cs', Covers m c us (d :: cs) us' cs' := by
  obtain ⟨h1, h2, h3, h4, h5, h6⟩ := quote_cases hc
  obtain ⟨cs', hcs, hr⟩ := h.of_ascii h1 h2
  obtain ⟨rfl, rfl⟩ := List.cons.inj hcs
  obtain ⟨-, hr'⟩ := reads_consumeStringLoop hc hr hs
  have hus : nextToken d us = (.string (consumeStringLoop d us).1, (consumeStringLoop d us).2) := by
    rw [nextToken, if_neg (h3 ·.1), h4, if_neg Bool.false_ne_true, if_pos hc]
    rfl
  have ht : CssTokenizer.consumeToken d cs = CssTokenizer.consumeStringToken d cs := by
    rw [CssTokenizer.consumeToken, h5, if_neg Bool.false_ne_true, if_pos h6]
  have hne : ¬ (d = 0x2f ∧ cs.head? = some 0x2a) := (h3 ·.1)
  cases hv : (CssTokenizer.consumeString d cs).1 with
  | none =>
    have hcs' : CssTokenizer.consumeToken d cs = (.badString, (CssTokenizer.consumeString d cs).2) := by
      rw [ht, CssTokenizer.consumeStringToken]
      generalize CssTokenizer.consumeString d cs = s at hv
      obtain ⟨value, rest⟩ := s
      cases hv
      rfl
    exact ⟨_, _, covers_token hne hus hcs' hr' (by simp) (by simp)⟩
  | some value =>
    have hcs' : CssTokenizer.consumeToken d cs =
        (.string value, (CssTokenizer.consumeString d cs).2) := by
      rw [ht, CssTokenizer.consumeStringToken]
      generalize CssTokenizer.consumeString d cs = s at hv
      obtain ⟨value', rest⟩ := s
      cases hv
      rfl
    exact ⟨_, _, covers_token hne hus hcs' hr' (by simp) (by simp)⟩

theorem covers_hash (h : Reads m (0x23 :: us) (d :: cs)) (hs : identInStep us)
    (hnext : inStep (nextToken 0x23 us).2) : ∃ us' cs', Covers m 0x23 us (d :: cs) us' cs' := by
  obtain ⟨cs', hcs, hr⟩ := h.of_ascii (by decide) rfl
  obtain ⟨rfl, rfl⟩ := List.cons.inj hcs
  have hne : ¬ (0x23 = 0x2f ∧ cs.head? = some 0x2a) := by simp
  have ht : nextToken 0x23 us =
      if (codeAt us 0).any isName || isValidEscape us then
        (.hash (consumeIdent us).1, (consumeIdent us).2)
      else (.delim [0x23], us) := by
    rw [nextToken, if_neg (by simp), if_neg (by decide), if_neg (by decide), if_pos rfl]
  rw [ht] at hnext
  have hif : ((codeAt us 0).any isName || isValidEscape us) =
      (cs.head?.any CssTokenizer.isIdent || CssTokenizer.isValidEscape cs) := by
    rw [codeAt_head, reads_isValidEscape hr]
    obtain ⟨rfl, rfl⟩ | ⟨e, us', f, cs', rfl, rfl, he⟩ := hr.head
    · rfl
    · rw [List.head?_cons, List.head?_cons, Option.any_some, Option.any_some, isName_alike he]
      rintro rfl
      rw [codeAt_zero, isValidEscape_of_ne (by decide), if_neg (by decide)] at hnext
      exact head_ne_of_inStep hnext rfl
  cases hb : cs.head?.any CssTokenizer.isIdent || CssTokenizer.isValidEscape cs
  · have hus : nextToken 0x23 us = (.delim [0x23], us) := by
      rw [ht, hif, hb, if_neg Bool.false_ne_true]
    have hcs' : CssTokenizer.consumeToken 0x23 cs = (.delim 0x23, cs) := by
      rw [CssTokenizer.consumeToken, if_neg (by decide), if_neg (by decide), if_pos rfl, hb,
        if_neg Bool.false_ne_true]
    exact ⟨_, _, covers_token hne hus hcs' hr (by simp) (by simp)⟩
  · have hus : nextToken 0x23 us = (.hash (consumeIdent us).1, (consumeIdent us).2) := by
      rw [ht, hif, hb, if_pos rfl]
    rw [hif, hb, if_pos rfl] at hnext
    have hr' := (reads_consumeIdent hr hs (head_ne_of_inStep hnext)).2
    have hcs' : CssTokenizer.consumeToken 0x23 cs =
        (.hash (CssTokenizer.consumeIdent cs).1, (CssTokenizer.consumeIdent cs).2) := by
      rw [CssTokenizer.consumeToken, if_neg (by decide), if_neg (by decide), if_pos rfl, hb,
        if_pos rfl]
    exact ⟨_, _, covers_token hne hus hcs' hr' (by simp) (by simp)⟩

theorem covers_at (h : Reads m (0x40 :: us) (d :: cs)) (hs : !startsIdent us || identInStep us)
    (hnext : inStep (nextToken 0x40 us).2) : ∃ us' cs', Covers m 0x40 us (d :: cs) us' cs' := by
  obtain ⟨cs', hcs, hr⟩ := h.of_ascii (by decide) rfl
  obtain ⟨rfl, rfl⟩ := List.cons.inj hcs
  have hne : ¬ (0x40 = 0x2f ∧ cs.head? = some 0x2a) := by simp
  have hus : nextToken 0x40 us =
      if startsIdent us then (.atKeyword (consumeIdent us).1, (consumeIdent us).2)
      else (.delim [0x40], us) := by
    rw [nextToken, if_neg (by simp), if_neg (by decide), if_neg (by decide), if_neg (by decide),
      if_pos rfl]
  have hcs' := CssTokenizer.consumeToken_at cs
  rw [hus] at hnext
  cases hb : startsIdent us
  · rw [hb, if_neg Bool.false_ne_true] at hnext hus
    rw [← reads_startsIdent hr (not_nulAhead_of_inStep hnext), hb, if_neg Bool.false_ne_true] at hcs'
    exact ⟨_, _, covers_token hne hus hcs' hr (by simp) (by simp)⟩
  · rw [hb, Bool.not_true, Bool.false_or] at hs
    rw [hb, if_pos rfl] at hnext hus
    rw [← reads_startsIdent hr (not_nulAhead_of_startsIdent hb), hb, if_pos rfl] at hcs'
    have hr' := (reads_consumeIdent hr hs (head_ne_of_inStep hnext)).2
    exact ⟨_, _, covers_token hne hus hcs' hr' (by simp) (by simp)⟩

/-- What `a ||| 32` is a letter of is an ASCII code, and not NUL. -/
theorem ascii_of_or {a k : ℕ} (h : a ||| 32 = k) (hk : k < 0x7b ∧ k ≠ 32) : 0 < a ∧ a < 0x7b := by
  constructor
  · rcases Nat.eq_zero_or_pos a with rfl | ha
    · rw [Nat.zero_or] at h
      exact absurd h.symm hk.2
    · exact ha
  · exact Nat.lt_of_le_of_lt (h ▸ Nat.left_le_or) hk.1

theorem ascii_of_isUrlName {name : JsString} (h : isUrlName name) : ∀ c ∈ name, 0 < c ∧ c < 0x7b := by
  match name, h with
  | [a, b, c], h =>
    simp only [isUrlName, Bool.and_eq_true, beq_iff_eq] at h
    obtain ⟨⟨ha, hb⟩, hc⟩ := h
    rw [List.forall_mem_cons, List.forall_mem_cons, List.forall_mem_singleton]
    exact ⟨ascii_of_or ha (by decide), ascii_of_or hb (by decide), ascii_of_or hc (by decide)⟩

/-- Both take the same names for `url`. -/
theorem isUrlName_encode (name : List ℕ) :
    isUrlName (Utf16.encode name) = CssTokenizer.isUrlName name := by
  have hcode : ∀ name, CssTokenizer.isUrlName name → isUrlName (Utf16.encode name) := by
    intro name h
    unfold CssTokenizer.isUrlName at h
    split at h
    · simp only [Bool.and_eq_true, Bool.or_eq_true, beq_iff_eq] at h
      obtain ⟨⟨rfl | rfl, rfl | rfl⟩, rfl | rfl⟩ := h <;> rfl
    · cases h
  rw [Bool.eq_iff_iff]
  refine ⟨fun h => ?_, hcode name⟩
  -- the three units are ASCII letters, so they are code points of their own
  have hletter : ∀ a < 0x7b, (a ||| 32 = 0x75 → a = 0x75 ∨ a = 0x55) ∧
      (a ||| 32 = 0x72 → a = 0x72 ∨ a = 0x52) ∧ (a ||| 32 = 0x6c → a = 0x6c ∨ a = 0x4c) := by
    decide
  match hv : Utf16.encode name, h with
  | [a, b, c], h =>
    simp only [isUrlName, Bool.and_eq_true, beq_iff_eq] at h
    obtain ⟨⟨ha, hb⟩, hc⟩ := h
    have ha' := (ascii_of_or ha (by decide)).2
    have hb' := (ascii_of_or hb (by decide)).2
    have hc' := (ascii_of_or hc (by decide)).2
    obtain ⟨es, hname, hv1⟩ := Utf16.encode_eq_cons hv (by omega)
    obtain ⟨fs, rfl, hv2⟩ := Utf16.encode_eq_cons hv1 (by omega)
    obtain ⟨ds, rfl, hv3⟩ := Utf16.encode_eq_cons hv2 (by omega)
    subst hname
    match ds with
    | [] =>
      have h1 := (hletter a ha').1 ha
      have h2 := (hletter b hb').2.1 hb
      have h3 := (hletter c hc').2.2 hc
      simp only [CssTokenizer.isUrlName, Bool.and_eq_true, Bool.or_eq_true, beq_iff_eq]
      exact ⟨⟨h1, h2⟩, h3⟩
    | e :: ds =>
      rw [Utf16.encode_cons, Utf16.encodeOne] at hv3
      split_ifs at hv3 <;> cases hv3

theorem ReadsName.isUrlName {name : List ℕ} {name' : JsString} (h : ReadsName name name') :
    Css.isUrlName name' = CssTokenizer.isUrlName name := by
  rcases h with rfl | ⟨⟨d, hd, hge⟩, c, hc, hbad⟩
  · exact isUrlName_encode name
  · -- neither is a `url`
    have h1 : Css.isUrlName name' = false := eq_false_of_ne_true fun h => by
      have := ascii_of_isUrlName h c hc
      omega
    have h2 : CssTokenizer.isUrlName name = false := eq_false_of_ne_true fun h => by
      unfold CssTokenizer.isUrlName at h
      split at h
      · simp only [Bool.and_eq_true, Bool.or_eq_true, beq_iff_eq] at h
        simp only [List.mem_cons, List.not_mem_nil, or_false] at hd
        omega
      · cases h
    rw [h1, h2]

/-- A parenthesis is skipped on both sides, and has no url. -/
theorem reads_skipParen (h : Reads m us cs) :
    ∃ cs', Reads m (skipParen us) cs' ∧
      CssTokenizer.urls (tokens cs') = CssTokenizer.urls (tokens cs) := by
  rw [skipParen, codeAt_head]
  by_cases hp : us.head? = some 0x29
  · obtain ⟨us', rfl⟩ := List.head?_eq_some_iff.1 hp
    obtain ⟨cs', rfl, hr⟩ := h.of_ascii (by decide) rfl
    rw [if_pos hp]
    exact ⟨cs', hr, (CssTokenizer.urls_paren (Or.inr rfl) cs').symm⟩
  · rw [if_neg hp]
    exact ⟨cs, h, rfl⟩

/-- A url without quotes. -/
theorem covers_unquoted {name : List ℕ} {rest : JsString} {after : List ℕ}
    (hne : ¬ (d = 0x2f ∧ cs.head? = some 0x2a))
    (hus : nextToken c us = (.url (consumeUrl rest).1, (consumeUrl rest).2))
    (hcs : CssTokenizer.consumeToken d cs =
      if CssTokenizer.startsQuoted (CssTokenizer.dropDoubleWhitespace after) then
        (.function name, CssTokenizer.dropDoubleWhitespace after)
      else CssTokenizer.consumeUrl (CssTokenizer.dropDoubleWhitespace after))
    (hr : Reads m rest after) (hk : keepsUrl rest) (hs : valueInStep rest)
    (hq : (consumeWhitespace rest).head?.any isQuote = false) :
    ∃ us' cs', Covers m c us (d :: cs) us' cs' := by
  have hw := reads_consumeWhitespace hr
  have hloop : consumeUrl rest = consumeUrlLoop (consumeWhitespace rest) ∧
      urlInStep (consumeWhitespace rest) := by
    unfold consumeUrl
    unfold valueInStep at hs
    generalize consumeWhitespace rest = w at hq hs
    match w with
    | [] => exact ⟨rfl, by rw [urlInStep]⟩
    | e :: w =>
      rw [List.head?_cons, Option.any_some] at hq
      dsimp only at hs ⊢
      rw [hq, if_neg Bool.false_ne_true] at hs ⊢
      exact ⟨rfl, hs⟩
  rw [hw.any_head isQuote_alike] at hq
  rw [CssTokenizer.startsQuoted_dropDoubleWhitespace, hq, if_neg Bool.false_ne_true,
    CssTokenizer.consumeUrl, CssTokenizer.dropWhitespace_dropDoubleWhitespace] at hcs
  have hrest := (reads_consumeUrlLoop hw hloop.2).2
  have hkept : Reads (consumeUrl rest).2.length rest after := hr.kept hk (by omega)
  have hval := (reads_consumeUrlLoop (reads_consumeWhitespace hkept) hloop.2).1 (by rw [hloop.1])
  rw [← hloop.1] at hval hrest
  refine ⟨_, _, by rw [hus]; exact .refl _, hrest, fun value hv => ?_⟩
  rw [CssTokenizer.tokens_cons hne, hcs] at hv
  rw [hus]
  generalize CssTokenizer.consumeUrlValue (CssTokenizer.dropWhitespace after) = u at hv hval ⊢
  obtain ⟨_ | u, after'⟩ := u
  · exact Or.inr hv
  · rcases List.mem_cons.1 hv with rfl | hv
    · exact Or.inl (congrArg CssToken.url (hval value rfl).symm)
    · exact Or.inr hv

/-- A url in quotes: the tokenizer has a function and a string. -/
theorem covers_quoted {name : List ℕ} {rest : JsString} {after : List ℕ}
    (hne : ¬ (d = 0x2f ∧ cs.head? = some 0x2a)) (hname : CssTokenizer.isUrlName name)
    (hus : nextToken c us = (.url (consumeUrl rest).1, (consumeUrl rest).2))
    (hcs : CssTokenizer.consumeToken d cs =
      if CssTokenizer.startsQuoted (CssTokenizer.dropDoubleWhitespace after) then
        (.function name, CssTokenizer.dropDoubleWhitespace after)
      else CssTokenizer.consumeUrl (CssTokenizer.dropDoubleWhitespace after))
    (hr : Reads m rest after) (hk : keepsUrl rest) (hs : valueInStep rest)
    (hq : (consumeWhitespace rest).head?.any isQuote) :
    ∃ us' cs', Covers m c us (d :: cs) us' cs' := by
  have hw := reads_consumeWhitespace hr
  rw [CssTokenizer.startsQuoted_dropDoubleWhitespace, ← hw.any_head isQuote_alike, if_pos hq] at hcs
  have hcase := CssTokenizer.dropDoubleWhitespace_cases after
  have hkept : Reads (consumeUrl rest).2.length rest after := hr.kept hk (by omega)
  replace hkept := reads_consumeWhitespace hkept
  generalize hlen : (consumeUrl rest).2.length = k at hkept
  unfold consumeUrl at hus hlen
  unfold valueInStep at hs
  generalize consumeWhitespace rest = w at hw hkept hq hs hus hlen
  generalize CssTokenizer.dropWhitespace after = w' at hw hkept hcase
  match w with
  | [] => cases hq
  | q :: w =>
    rw [List.head?_cons, Option.any_some] at hq
    dsimp only at hs hus hlen
    rw [if_pos hq] at hs hus hlen
    obtain ⟨h1, h2, h3, h4, h5, h6⟩ := quote_cases hq
    obtain ⟨qs, rfl, hr'⟩ := hw.of_ascii h1 h2
    obtain ⟨qs', hqs, hkept'⟩ := hkept.of_ascii h1 h2
    obtain ⟨-, rfl⟩ := List.cons.inj hqs
    have hrest := (reads_consumeStringLoop hq hr' hs).2
    have hval := (reads_consumeStringLoop hq hkept' hs).1 (by
      rw [← hlen]
      exact Nat.le_trans (skipParen_le _) (List.length_dropWhile_le _ _))
    obtain ⟨hlead, hurls⟩ := CssTokenizer.leadingString_tokens h6 hcase
    obtain ⟨cs', hskip, hsame⟩ := reads_skipParen (reads_consumeWhitespace hrest)
    refine ⟨_, cs', by rw [hus]; exact .refl _, hskip, fun value hv => ?_⟩
    rw [hsame, CssTokenizer.urls_dropWhitespace, ← hurls, hus]
    rw [CssTokenizer.tokens_cons hne, hcs, CssTokenizer.urls, if_pos hname, hlead,
      List.mem_append, Option.mem_toList] at hv
    rcases hv with hv | hv
    · exact Or.inl (congrArg CssToken.url (hval value hv).symm)
    · exact Or.inr hv

theorem covers_identLike (h : Reads m (c :: us) (d :: cs)) (hi : startsIdent (c :: us))
    (hs : tokenInStep c us) (hnext : inStep (nextToken c us).2)
    (hcdc : ¬ (d = 0x2d ∧ cs.take 2 = [0x2d, 0x3e])) : ∃ us' cs', Covers m c us (d :: cs) us' cs' := by
  have hne := not_comment h fun hc => (not_other_of_startsIdent hi).1 hc.1
  rw [tokenInStep_ident hi, Bool.and_eq_true] at hs
  have hus := nextToken_ident hi
  have hi' : CssTokenizer.startsIdent (d :: cs) := by
    rw [← reads_startsIdent h (not_nulAhead_of_startsIdent hi), hi]
  have hcs := CssTokenizer.consumeToken_identLike hi' hcdc
  obtain ⟨hname, hr⟩ := reads_consumeIdent h hs.1 (consumeIdent_ends hi hnext)
  have hs2 := hs.2
  unfold identToken at hus
  unfold CssTokenizer.consumeIdentLike at hcs
  rw [hname.isUrlName] at hus hs2
  generalize consumeIdent (c :: us) = n at hus hs2 hr
  generalize CssTokenizer.consumeIdent (d :: cs) = m at hus hcs hs2 hr
  obtain ⟨name, rest⟩ := m
  obtain ⟨name', rest'⟩ := n
  dsimp only at hus hcs hs2 hr
  rw [codeAt_head] at hus hs2
  by_cases hp : rest'.head? = some 0x28
  · obtain ⟨ur, rfl⟩ := List.head?_eq_some_iff.1 hp
    obtain ⟨after, rfl, hr'⟩ := hr.of_ascii (by decide) rfl
    rw [if_pos hp, List.tail_cons] at hus
    change CssTokenizer.consumeToken d cs = (if CssTokenizer.isUrlName name then _ else _) at hcs
    by_cases hurl : CssTokenizer.isUrlName name
    · rw [if_pos hurl] at hus hcs
      have hv : keepsUrl ur ∧ valueInStep ur := by simpa [hurl] using hs2
      cases hq : (consumeWhitespace ur).head?.any isQuote
      · exact covers_unquoted hne hus hcs hr' hv.1 hv.2 hq
      · exact covers_quoted hne hurl hus hcs hr' hv.1 hv.2 hq
    · rw [if_neg hurl] at hus hcs
      refine ⟨_, _, by rw [hus]; exact .refl _, hr', fun value hv => Or.inr ?_⟩
      rw [CssTokenizer.tokens_cons hne, hcs, CssTokenizer.urls, if_neg hurl] at hv
      exact hv
  · rw [if_neg hp] at hus
    have hrest : CssTokenizer.consumeToken d cs = (.ident name, rest) := by
      rw [hcs]
      split
      · exact absurd ((reads_head_eq_some hr (by decide) rfl).2 rfl) hp
      · rfl
    exact ⟨_, _, covers_token hne hus hrest hr (by simp) (by simp)⟩

/-- Where neither a name code nor an escape stands, a name ends. -/
theorem consumeIdent_stop (h1 : us.head?.any isName = false) (h2 : isValidEscape us = false) :
    consumeIdent us = ([], us) := by
  match us with
  | [] => rw [consumeIdent]
  | e :: us =>
    have h1 : isName e = false := h1
    rw [consumeIdent, h1, if_neg Bool.false_ne_true, h2, if_neg Bool.false_ne_true]

/-- The round of two hyphens that no name follows. -/
theorem nextToken_hyphens (h1 : us.head?.any isName = false) (h2 : isValidEscape us = false) :
    nextToken 0x2d (0x2d :: us) =
      if codeAt us 0 = some 0x28 then (.function [0x2d, 0x2d], us.tail)
      else (.ident [0x2d, 0x2d], us) := by
  rw [nextToken_ident (by simp [startsIdent_cons]), consumeIdent_name rfl, consumeIdent_name rfl,
    consumeIdent_stop h1 h2]
  rfl

theorem covers_cdc (h : Reads m (c :: us) (0x2d :: 0x2d :: 0x3e :: cs)) :
    ∃ us' cs', Covers m c us (0x2d :: 0x2d :: 0x3e :: cs) us' cs' := by
  obtain ⟨us', hu, hr⟩ := h.to_ascii (by decide) (by decide)
  obtain ⟨rfl, rfl⟩ := List.cons.inj hu
  obtain ⟨us', rfl, hr'⟩ := hr.to_ascii (by decide) (by decide)
  obtain ⟨us', rfl, hr''⟩ := hr'.to_ascii (by decide) (by decide)
  have hus : nextToken 0x2d (0x2d :: 0x3e :: us') = (.ident [0x2d, 0x2d], 0x3e :: us') :=
    nextToken_hyphens rfl rfl
  refine ⟨us', cs, ?_, hr'', fun value hv => Or.inr ?_⟩
  · rw [hus]
    exact .of_eq (nextToken_mark (by simp) us')
  · rwa [CssTokenizer.tokens_cons (by simp), CssTokenizer.consumeToken_cdc,
      CssTokenizer.urls_cons (by simp) (by simp)] at hv

theorem startsNumber_head (h : startsNumber (c :: us)) :
    isDigit c ∨ c = 0x2e ∨ c = 0x2b ∨ c = 0x2d := by
  rw [startsNumber_cons] at h
  split_ifs at h with hc
  · exact Or.inr (Or.inr hc)
  · rw [startsUnsigned, Bool.or_eq_true, Bool.and_eq_true, beq_iff_eq] at h
    rcases h with h | h
    · exact Or.inl h
    · exact Or.inr (Or.inl (Option.some.inj h.1))

theorem not_other_of_startsNumber (h : startsNumber (c :: us)) :
    c ≠ 0x2f ∧ isWhitespace c = false ∧ isQuote c = false ∧ c ≠ 0x23 ∧ c ≠ 0x40 := by
  rcases startsNumber_head h with hc | rfl | rfl | rfl
  · simp only [isDigit, Bool.and_eq_true, decide_eq_true_eq] at hc
    simp only [isWhitespace, isQuote, Bool.or_eq_false_iff, beq_eq_false_iff_ne]
    omega
  all_goals decide

theorem covers_number (h : Reads m (c :: us) (d :: cs)) (hi : startsIdent (c :: us) = false)
    (hn : startsNumber (c :: us)) (hs : numberInStep (afterNumber (c :: us)))
    (hnext : inStep (afterNumber (c :: us))) : ∃ us' cs', Covers m c us (d :: cs) us' cs' := by
  obtain ⟨h1, h2, h3, h4, h5⟩ := not_other_of_startsNumber hn
  have hne := not_comment h (h1 ·.1)
  have hus : (nextToken c us).2 = afterNumber (c :: us) := by
    rw [nextToken, if_neg (h1 ·.1), h2, h3, if_neg Bool.false_ne_true, if_neg Bool.false_ne_true,
      if_neg h4, if_neg h5, hi, if_neg Bool.false_ne_true, if_pos hn]
    rfl
  have hn' : CssTokenizer.startsNumber (d :: cs) := by rw [← reads_startsNumber h, hn]
  have hcs := CssTokenizer.consumeToken_numeric hn'
  have hr := reads_afterNumber h
  unfold CssTokenizer.consumeNumeric at hcs
  generalize afterNumber (c :: us) = rest at hs hnext hus hr
  generalize CssTokenizer.consumeNumber (d :: cs) = after at hcs hr
  dsimp only at hcs
  rw [← reads_startsIdent hr (not_nulAhead_of_inStep hnext)] at hcs
  cases hb : startsIdent rest
  · rw [hb, if_neg Bool.false_ne_true] at hcs
    by_cases hp : after.head? = some 0x25
    · -- a percentage
      obtain ⟨cs', rfl⟩ := List.head?_eq_some_iff.1 hp
      obtain ⟨us', rfl, hr'⟩ := hr.to_ascii (by decide) (by decide)
      refine ⟨us', cs', ?_, hr', fun value hv => Or.inr ?_⟩
      · rw [hus]
        exact .of_eq (nextToken_mark (by simp) us')
      · rwa [CssTokenizer.tokens_cons hne, hcs, CssTokenizer.urls_cons (by simp) (by simp)] at hv
    · have hcs' : CssTokenizer.consumeToken d cs = (.number, after) := by
        rw [hcs]
        split
        · exact absurd rfl hp
        · rfl
      refine ⟨rest, after, by rw [hus]; exact .refl _, hr, fun value hv => Or.inr ?_⟩
      rwa [CssTokenizer.tokens_cons hne, hcs', CssTokenizer.urls_cons (by simp) (by simp)] at hv
  · -- a dimension; its unit is a token of its own in the source
    rw [hb, if_pos rfl] at hcs
    match rest with
    | [] => cases hb
    | e :: rest =>
      rw [inStep, Bool.and_eq_true, tokenInStep_ident hb, Bool.and_eq_true] at hnext
      obtain ⟨-, hunit⟩ := reads_consumeIdent hr hnext.1.1 (consumeIdent_ends hb hnext.2)
      have ht := nextToken_ident hb
      rw [numberInStep, hb, Bool.true_and, Bool.not_eq_true', Bool.and_eq_false_iff] at hs
      unfold identToken at ht
      generalize consumeIdent (e :: rest) = name at hs ht hunit
      have hdim : ∀ value ∈ CssTokenizer.urls (tokens (d :: cs)),
          value ∈ CssTokenizer.urls (tokens (CssTokenizer.consumeIdent after).2) := by
        intro value hv
        rwa [CssTokenizer.tokens_cons hne, hcs, CssTokenizer.urls_cons (by simp) (by simp)] at hv
      generalize CssTokenizer.consumeIdent after = unit at hunit hdim
      obtain ⟨unit, cs2⟩ := unit
      by_cases hp : codeAt name.2 0 = some 0x28
      · rw [if_pos hp] at ht
        rw [hp] at hs
        have hurl : isUrlName name.1 = false := hs.resolve_right (by simp)
        rw [hurl, if_neg Bool.false_ne_true] at ht
        rw [codeAt_head] at hp
        have hr' := reads_tail hunit (by decide) rfl hp
        refine ⟨name.2.tail, cs2.tail, by rw [hus]; exact .of_eq ht, hr', fun value hv => Or.inr ?_⟩
        have hv' := hdim value hv
        rw [reads_head_eq_some hunit (by decide) rfl] at hp
        obtain ⟨cs3, rfl⟩ := List.head?_eq_some_iff.1 hp
        rwa [CssTokenizer.urls_paren (Or.inl rfl)] at hv'
      · rw [if_neg hp] at ht
        exact ⟨name.2, cs2, by rw [hus]; exact .of_eq ht, hunit, fun value hv => Or.inr (hdim value hv)⟩

theorem covers_cdo (h : Reads m (c :: us) (0x3c :: 0x21 :: 0x2d :: 0x2d :: cs))
    (hs : markInStep us) : ∃ us' cs', Covers m c us (0x3c :: 0x21 :: 0x2d :: 0x2d :: cs) us' cs' := by
  obtain ⟨us', hu, hr⟩ := h.to_ascii (by decide) (by decide)
  obtain ⟨rfl, rfl⟩ := List.cons.inj hu
  obtain ⟨us', rfl, hr1⟩ := hr.to_ascii (by decide) (by decide)
  obtain ⟨us', rfl, hr2⟩ := hr1.to_ascii (by decide) (by decide)
  obtain ⟨us', rfl, hr3⟩ := hr2.to_ascii (by decide) (by decide)
  have hstop : us'.head?.any isName = false ∧ isValidEscape us' = false := by
    simpa [markInStep, codeAt_head] using hs
  have hround : Rounds (nextToken 0x3c (0x21 :: 0x2d :: 0x2d :: us')).2 (0x2d :: 0x2d :: us') := by
    rw [nextToken_mark (by simp)]
    exact .of_eq (nextToken_mark (by simp) _)
  have hurls : ∀ value ∈ CssTokenizer.urls (tokens (0x3c :: 0x21 :: 0x2d :: 0x2d :: cs)),
      value ∈ CssTokenizer.urls (tokens cs) := by
    intro value hv
    rwa [CssTokenizer.tokens_cons (by simp), CssTokenizer.consumeToken_cdo,
      CssTokenizer.urls_cons (by simp) (by simp)] at hv
  have ht := nextToken_hyphens hstop.1 hstop.2
  by_cases hp : codeAt us' 0 = some 0x28
  · rw [if_pos hp] at ht
    rw [codeAt_head] at hp
    refine ⟨us'.tail, cs.tail, hround.trans (.of_eq ht), reads_tail hr3 (by decide) rfl hp,
      fun value hv => Or.inr ?_⟩
    have hv' := hurls value hv
    rw [reads_head_eq_some hr3 (by decide) rfl] at hp
    obtain ⟨cs', rfl⟩ := List.head?_eq_some_iff.1 hp
    rwa [CssTokenizer.urls_paren (Or.inl rfl)] at hv'
  · rw [if_neg hp] at ht
    exact ⟨us', cs, hround.trans (.of_eq ht), hr3, fun value hv => Or.inr (hurls value hv)⟩

/-- **One token.** In step, what one round of the source and the rounds that belong to it cover
has no url that the round does not have. -/
theorem step_covered (h : Reads m (c :: us) (d :: cs)) (hs : inStep (c :: us)) :
    ∃ us' cs', Covers m c us (d :: cs) us' cs' := by
  have hahead := not_nulAhead_of_inStep hs
  rw [inStep, Bool.and_eq_true] at hs
  obtain ⟨hs, hnext⟩ := hs
  by_cases hcom : c = 0x2f ∧ codeAt us 0 = some 0x2a
  · obtain ⟨rfl, hu⟩ := hcom
    rw [codeAt_head] at hu
    obtain ⟨us', rfl⟩ := List.head?_eq_some_iff.1 hu
    exact covers_comment h
  cases hw : isWhitespace c
  swap
  · exact covers_whitespace h hw hcom
  cases hq : isQuote c
  swap
  · refine covers_string h hq ?_
    rwa [tokenInStep, if_neg hcom, hw, if_neg Bool.false_ne_true, if_pos hq] at hs
  by_cases hh : c = 0x23
  · subst hh
    exact covers_hash h hs hnext
  by_cases ha : c = 0x40
  · subst ha
    exact covers_at h hs hnext
  cases hi : startsIdent (c :: us)
  swap
  · by_cases hcdc : d = 0x2d ∧ cs.take 2 = [0x2d, 0x3e]
    · obtain ⟨rfl, hcs⟩ := hcdc
      match cs with
      | 0x2d :: 0x3e :: cs => exact covers_cdc h
    · exact covers_identLike h hi hs hnext hcdc
  rw [tokenInStep, if_neg hcom, hw, hq, if_neg Bool.false_ne_true, if_neg Bool.false_ne_true,
    if_neg hh, if_neg ha, hi, if_neg Bool.false_ne_true] at hs
  cases hn : startsNumber (c :: us)
  swap
  · rw [if_pos hn] at hs
    refine covers_number h hi hn hs ?_
    rwa [nextToken, if_neg hcom, hw, hq, if_neg Bool.false_ne_true, if_neg Bool.false_ne_true,
      if_neg hh, if_neg ha, hi, if_neg Bool.false_ne_true, if_pos hn] at hnext
  by_cases ho : d = 0x3c ∧ cs.take 3 = [0x21, 0x2d, 0x2d]
  · obtain ⟨rfl, hcs⟩ := ho
    have hc := (h.alike.eq_iff (by decide) rfl).2 rfl
    rw [hn, if_neg Bool.false_ne_true, if_pos hc] at hs
    match cs with
    | 0x21 :: 0x2d :: 0x2d :: cs => exact covers_cdo h hs
  · -- a token of one code
    have hw' := isWhitespace_alike h.alike
    have hq' := isQuote_alike h.alike
    have hh' : d ≠ 0x23 := hh ∘ (h.alike.eq_iff (by decide) rfl).2
    have ha' : d ≠ 0x40 := ha ∘ (h.alike.eq_iff (by decide) rfl).2
    have hcs := CssTokenizer.consumeToken_delim (hw'.symm.trans hw) (hq'.symm.trans hq) hh' ha'
      (by rw [← reads_startsNumber h, hn]) (by rw [← reads_startsIdent h hahead, hi]) ho
    have hus : nextToken c us = (.delim [c], us) := by
      rw [nextToken, if_neg hcom, hw, hq, if_neg Bool.false_ne_true, if_neg Bool.false_ne_true,
        if_neg hh, if_neg ha, hi, if_neg Bool.false_ne_true, hn, if_neg Bool.false_ne_true]
    have hwide : ¬ 0x80 ≤ c := by
      -- what is outside ASCII starts a name
      intro hge
      rw [startsIdent_cons, if_neg (by omega), Bool.or_eq_false_iff] at hi
      have := hi.1
      simp only [isNameStart, Bool.or_eq_false_iff, decide_eq_false_iff_not] at this
      omega
    rcases h.cons_cases with ⟨rfl, -⟩ | ⟨hl, -⟩ | ⟨low, us', hhigh, -⟩ | ⟨rfl, -, -, hr⟩ | ⟨-, hrep, -⟩
    · cases hw
    · simp only [isLineBreak, isWhitespace, Bool.or_eq_true, Bool.or_eq_false_iff, beq_iff_eq,
        beq_eq_false_iff_ne] at hl hw
      omega
    · have hge := CssTokenizer.highSurrogate_ge hhigh
      omega
    · exact ⟨us, cs, covers_token (not_comment h hcom) hus hcs hr (by simp) (by simp)⟩
    · rcases hrep.not_ascii with rfl | hge
      · exact absurd (Or.inl rfl) hahead
      · omega

end Tokens

/-! ## Whole texts -/

/-- A text and its stream, from any place on. -/
theorem urls_found {m : ℕ} {us : JsString} {cs : List ℕ} (h : Reads m us cs) (hs : inStep us) :
    ∀ value ∈ CssTokenizer.urls (tokens cs), Utf16.encode value ∈ urlValues (tokenizeCss us) := by
  induction hn : us.length using Nat.strong_induction_on generalizing us cs with
  | _ n ih =>
    subst hn
    obtain ⟨rfl, rfl⟩ | ⟨c, us', d, cs', rfl, rfl, -⟩ := h.head
    · simp [CssTokenizer.urls]
    · obtain ⟨us2, cs2, hcov⟩ := step_covered h hs
      have hlt := Nat.lt_of_le_of_lt hcov.rounds.length_le (nextToken_lt c us')
      have hs2 : inStep us2 := by
        rw [inStep, Bool.and_eq_true] at hs
        exact hcov.rounds.inStep hs.2
      intro value hv
      rcases hcov.urls value hv with ht | hv2
      · rw [tokenizeCss_cons, ht]
        exact List.mem_cons_self
      · exact (Rounds.round hcov.rounds).urlValues _ (ih us2.length hlt hcov.reads hs2 rfl value hv2)

/-- What `validateCssText` accepts has no url that is refused. -/
theorem validateReference_of_accepted {cm : CaseMapping} {input : JsString}
    (h : Svg.validateCssText cm input) {value : JsString}
    (hv : value ∈ urlValues (tokenizeCss input)) : Svg.validateReference cm value := by
  obtain ⟨t, ht, hval⟩ := List.mem_filterMap.1 hv
  have hall := List.all_eq_true.1 h t ht
  cases t with
  | url v =>
    obtain rfl := Option.some.inj hval
    exact hall
  | _ => cases hval

/-- Every url of the CSS tokenizer is a url of the source, and an accepted text has none that is
refused. -/
structure UrlsCovered (cm : CaseMapping) (input : JsString) : Prop where
  found : ∀ value ∈ CssTokenizer.urls (CssTokenizer.tokenize input),
    Utf16.encode value ∈ urlValues (tokenizeCss input)
  refused : Svg.validateCssText cm input →
    ∀ value ∈ CssTokenizer.urls (CssTokenizer.tokenize input),
      Svg.validateReference cm (Utf16.encode value)

/-- A text of UTF-16 on which the source and the CSS tokenizer do not part: none of its tokens takes
a branch that parts. -/
structure InStep (input : JsString) : Prop where
  units : ∀ c ∈ input, c < 0x10000
  branches : inStep input

/-- **Urls.** In step every url is found. -/
theorem urls_covered (cm : CaseMapping) {input : JsString} (h : InStep input) :
    UrlsCovered cm input := by
  have hfound := urls_found (CssTokenizer.reads_preprocess h.units le_rfl) h.branches
  exact ⟨hfound, fun ha value hv => validateReference_of_accepted ha (hfound value hv)⟩

/-- A style with a quoted url and one without, a NUL in a comment and a lone surrogate in a string. -/
def plainStyle : JsString :=
  text "/*" ++ [0] ++ text "*/fill:url(#b);content:\"" ++ [0xd800] ++ text "\";mask:url( '#c' )"

theorem urls_covered_plainStyle : UrlsCovered (fun _ c _ => [c]) plainStyle :=
  urls_covered _ ⟨by decide +kernel, by decide +kernel⟩

/-- A url whose name has an escape before a line break of two codes. -/
def hiddenUrl : JsString := text "u\\72\r\nl(https://evil.example/)"

theorem hiddenUrl_not_covered :
    ¬ (∀ value ∈ CssTokenizer.urls (CssTokenizer.tokenize hiddenUrl),
        Utf16.encode value ∈ urlValues (tokenizeCss hiddenUrl)) ∧
      ¬ ∀ cm : CaseMapping, Svg.validateCssText cm hiddenUrl →
        ∀ value ∈ CssTokenizer.urls (CssTokenizer.tokenize hiddenUrl),
          Svg.validateReference cm (Utf16.encode value) :=
  ⟨by decide +kernel, fun h => absurd (h (fun _ c _ => [c]) (by decide +kernel)) (by decide +kernel)⟩

/-- A text for every way to part: the hex escape before a line break, the mark before a name, the
number before a url, white space inside a bad url, a NUL where a token starts, and a NUL and a lone
surrogate inside a url. -/
def partingTexts : List JsString :=
  [hiddenUrl, text "<!--url(https://evil.example/)", text "5url(#/**/url(https://evil.example/))",
    text "url(#a b\"c) url(https://evil.example/) \"",
    [0] ++ text "url(#/**/url(https://evil.example/))", text "url(#" ++ [0, 0x29],
    text "url(#" ++ [0xd800, 0x29]]

example : ∀ input ∈ partingTexts,
    ¬ ∀ value ∈ CssTokenizer.urls (CssTokenizer.tokenize input),
      Utf16.encode value ∈ urlValues (tokenizeCss input) := by
  decide +kernel

end FigmaDevMcp.Css

import FigmaDevMcp.Lib.Utf16

set_option autoImplicit false

/-!
# The CSS tokenizer

CSS Syntax Module Level 3, section 4: the tokens of a stream of code points. Positions in the
stream are what is left of it.

* `preprocess`: section 3.3, newlines and code points that may not appear;
* `tokenize`: section 4.3, one token after the other;
* `urls`: the values of the url tokens and of the `url(` functions with a string.
-/

namespace CssTokenizer

/-- The tokens of CSS Syntax, as far as a reader of urls tells them apart. -/
inductive Token where
  | ident (value : List ℕ)
  | function (value : List ℕ)
  | atKeyword (value : List ℕ)
  | hash (value : List ℕ)
  | string (value : List ℕ)
  | badString
  | url (value : List ℕ)
  | badUrl
  | delim (value : ℕ)
  | number
  | percentage
  | dimension (unit : List ℕ)
  | whitespace
  | cdo
  | cdc
  deriving DecidableEq, Repr

/-- U+FFFD REPLACEMENT CHARACTER -/
def replacement : ℕ := 0xfffd

/-! ## Preprocessing -/

/-- Filter code points (3.3): one newline for each line break, U+FFFD for NUL and surrogates. -/
def filterCodePoints : List ℕ → List ℕ
  | 0x0d :: 0x0a :: rest => 0x0a :: filterCodePoints rest
  | c :: rest =>
    (if c = 0x0d ∨ c = 0x0c then 0x0a
      else if c = 0 ∨ Utf16.isSurrogate c then replacement
      else c) :: filterCodePoints rest
  | [] => []

/-- The code points the tokenizer reads of a text in UTF-16. -/
def preprocess (units : List ℕ) : List ℕ := filterCodePoints (Utf16.codePoints units)

/-! ## Definitions of code points -/

/-- A newline, of which only U+000A is left by then. -/
def isNewline (c : ℕ) : Bool := c == 0x0a

/-- White space: a newline, a tab or a space. -/
def isWhitespace (c : ℕ) : Bool := c == 0x0a || c == 0x09 || c == 0x20

/-- A digit. -/
def isDigit (c : ℕ) : Bool := 0x30 ≤ c && c ≤ 0x39

/-- A hexadecimal digit. -/
def isHex (c : ℕ) : Bool := isDigit c || (0x41 ≤ c && c ≤ 0x46) || (0x61 ≤ c && c ≤ 0x66)

/-- A letter of ASCII. -/
def isLetter (c : ℕ) : Bool := (0x41 ≤ c && c ≤ 0x5a) || (0x61 ≤ c && c ≤ 0x7a)

/-- A code point with which an ident can start. -/
def isIdentStart (c : ℕ) : Bool := isLetter c || 0x80 ≤ c || c == 0x5f

/-- A code point of an ident. -/
def isIdent (c : ℕ) : Bool := isIdentStart c || isDigit c || c == 0x2d

/-- A code point that cannot be in a url. -/
def isNonPrintable (c : ℕ) : Bool := c ≤ 0x08 || c == 0x0b || (0x0e ≤ c && c ≤ 0x1f) || c == 0x7f

/-! ## Checks on the next code points -/

/-- 4.3.8: two code points are a valid escape. -/
def isValidEscape : List ℕ → Bool
  | 0x5c :: c :: _ => !isNewline c
  | [0x5c] => true
  | _ => false

/-- 4.3.9: three code points would start an ident sequence. -/
def startsIdent : List ℕ → Bool
  | 0x2d :: c :: rest => isIdentStart c || c == 0x2d || isValidEscape (c :: rest)
  | [0x2d] => false
  | c :: rest => isIdentStart c || isValidEscape (c :: rest)
  | [] => false

/-- A digit, or a point and a digit. -/
def startsUnsigned : List ℕ → Bool
  | 0x2e :: c :: _ => isDigit c
  | c :: _ => isDigit c
  | [] => false

/-- 4.3.10: three code points would start a number. -/
def startsNumber : List ℕ → Bool
  | 0x2b :: rest => startsUnsigned rest
  | 0x2d :: rest => startsUnsigned rest
  | rest => startsUnsigned rest

theorem isValidEscape_cons (c : ℕ) (cs : List ℕ) :
    isValidEscape (c :: cs) = (c == 0x5c && !cs.head?.any isNewline) := by
  by_cases hc : c = 0x5c
  · subst hc
    match cs with
    | [] | _ :: _ => rfl
  · rw [beq_eq_false_iff_ne.2 hc, Bool.false_and, isValidEscape]
    · exact fun _ _ h => hc (List.cons.inj h).1
    · exact fun h => hc (List.cons.inj h).1

theorem startsIdent_cons (c : ℕ) (cs : List ℕ) :
    startsIdent (c :: cs) =
      if c = 0x2d then cs.head?.any isIdentStart || cs.head? == some 0x2d || isValidEscape cs
      else isIdentStart c || isValidEscape (c :: cs) := by
  split_ifs with hc
  · subst hc
    match cs with
    | [] => rfl
    | d :: cs => simp [startsIdent]
  · rw [startsIdent]
    · exact fun _ _ h _ => hc h
    · exact fun h _ => hc h

theorem startsUnsigned_eq (cs : List ℕ) :
    startsUnsigned cs =
      (cs.head?.any isDigit || (cs.head? == some 0x2e && cs.tail.head?.any isDigit)) := by
  match cs with
  | [] => rfl
  | [c] => simp [startsUnsigned]
  | c :: d :: cs =>
    by_cases hc : c = 0x2e
    · subst hc
      rfl
    · have : startsUnsigned (c :: d :: cs) = isDigit c := by
        rw [startsUnsigned]
        exact fun _ _ h _ => hc h
      simp [this, hc]

theorem startsNumber_cons (c : ℕ) (cs : List ℕ) :
    startsNumber (c :: cs) =
      if c = 0x2b ∨ c = 0x2d then startsUnsigned cs else startsUnsigned (c :: cs) := by
  split_ifs with hc
  · rcases hc with rfl | rfl <;> rfl
  · rw [startsNumber]
    · exact fun _ h => hc (Or.inl (List.cons.inj h).1)
    · exact fun _ h => hc (Or.inr (List.cons.inj h).1)

/-! ## Consuming -/

/-- What is left after white space. -/
def dropWhitespace (cs : List ℕ) : List ℕ := cs.dropWhile isWhitespace

/-- 4.3.2: all comments that start here. -/
def afterComment : List ℕ → List ℕ
  | 0x2a :: 0x2f :: rest => rest
  | _ :: rest => afterComment rest
  | [] => []

theorem afterComment_le (cs : List ℕ) : (afterComment cs).length ≤ cs.length := by
  fun_induction afterComment cs with
  | case1 rest => simp only [List.length_cons]; omega
  | case2 c rest _ ih => simp only [List.length_cons]; omega
  | case3 => simp

/-- What is left after the comments in front. -/
def consumeComments : List ℕ → List ℕ
  | 0x2f :: 0x2a :: rest => consumeComments (afterComment rest)
  | rest => rest
termination_by cs => cs.length
decreasing_by
  have := afterComment_le rest
  simp only [List.length_cons]
  omega

/-- The value of a hexadecimal digit. -/
def hexDigit (c : ℕ) : ℕ :=
  if isDigit c then c - 0x30 else if c ≤ 0x46 then c - 0x41 + 10 else c - 0x61 + 10

/-- The value of hexadecimal digits. -/
def hexValue (hex : List ℕ) : ℕ := hex.foldl (fun value c => 16 * value + hexDigit c) 0

/-- As many hex digits as possible, `count` at most. -/
def takeHex : ℕ → List ℕ → List ℕ × List ℕ
  | count + 1, c :: rest =>
    if isHex c then (c :: (takeHex count rest).1, (takeHex count rest).2) else ([], c :: rest)
  | _, rest => ([], rest)

/-- The code point a hex escape stands for. -/
def escapedValue (value : ℕ) : ℕ :=
  if value = 0 ∨ Utf16.isSurrogate value ∨ 0x10ffff < value then replacement else value

/-- At most one whitespace is dropped. -/
def dropOneWhitespace : List ℕ → List ℕ
  | c :: rest => if isWhitespace c then rest else c :: rest
  | [] => []

/-- 4.3.7: the code point of an escape whose backslash has been consumed. -/
def consumeEscape : List ℕ → ℕ × List ℕ
  | [] => (replacement, [])
  | c :: rest =>
    if isHex c then
      let hex := takeHex 6 (c :: rest)
      (escapedValue (hexValue hex.1), dropOneWhitespace hex.2)
    else (c, rest)

theorem takeHex_le (count : ℕ) (cs : List ℕ) : (takeHex count cs).2.length ≤ cs.length := by
  fun_induction takeHex count cs with
  | case1 count c rest _ ih => simp only [List.length_cons]; omega
  | case2 | case3 => simp

theorem dropOneWhitespace_le (cs : List ℕ) : (dropOneWhitespace cs).length ≤ cs.length := by
  unfold dropOneWhitespace
  split
  · split_ifs
    · exact Nat.le_succ _
    · exact Nat.le_refl _
  · exact Nat.le_refl _

theorem consumeEscape_le (cs : List ℕ) : (consumeEscape cs).2.length ≤ cs.length := by
  unfold consumeEscape
  split
  · simp
  · rename_i c rest
    split_ifs
    · exact Nat.le_trans (dropOneWhitespace_le _) (takeHex_le 6 (c :: rest))
    · simp

/-- 4.3.11: an ident sequence. -/
def consumeIdent : List ℕ → List ℕ × List ℕ
  | [] => ([], [])
  | c :: rest =>
    if isIdent c then
      let more := consumeIdent rest
      (c :: more.1, more.2)
    else if isValidEscape (c :: rest) then
      let escape := consumeEscape rest
      let more := consumeIdent escape.2
      (escape.1 :: more.1, more.2)
    else ([], c :: rest)
termination_by cs => cs.length
decreasing_by
  · simp
  · have := consumeEscape_le rest
    simp only [List.length_cons]
    omega

/-- 4.3.5: the value of a string token after its opening quote, `none` for a bad string. -/
def consumeString (ending : ℕ) : List ℕ → Option (List ℕ) × List ℕ
  | [] => (some [], [])
  | c :: rest =>
    if c = ending then (some [], rest)
    else if isNewline c then (none, c :: rest)
    else if c = 0x5c then
      match rest with
      | [] => (some [], [])
      | d :: after =>
        if isNewline d then consumeString ending after
        else
          let escape := consumeEscape (d :: after)
          let more := consumeString ending escape.2
          (more.1.map (escape.1 :: ·), more.2)
    else
      let more := consumeString ending rest
      (more.1.map (c :: ·), more.2)
termination_by cs => cs.length
decreasing_by
  · simp only [List.length_cons]; omega
  · have := consumeEscape_le (d :: after)
    simp only [List.length_cons] at this ⊢
    omega
  · simp

/-- 4.3.14: the remnants of a bad url. -/
def consumeRemnants : List ℕ → List ℕ
  | [] => []
  | c :: rest =>
    if c = 0x29 then rest
    else if isValidEscape (c :: rest) then consumeRemnants (consumeEscape rest).2
    else consumeRemnants rest
termination_by cs => cs.length
decreasing_by
  · have := consumeEscape_le rest
    simp only [List.length_cons]
    omega
  · simp

/-- 4.3.6, after the leading whitespace: the value of a url token, `none` for a bad url. -/
def consumeUrlValue : List ℕ → Option (List ℕ) × List ℕ
  | [] => (some [], [])
  | c :: rest =>
    if c = 0x29 then (some [], rest)
    else if isWhitespace c then
      match dropWhitespace rest with
      | [] => (some [], [])
      | d :: after => if d = 0x29 then (some [], after) else (none, consumeRemnants (d :: after))
    else if c = 0x22 || c = 0x27 || c = 0x28 || isNonPrintable c then (none, consumeRemnants rest)
    else if c = 0x5c then
      if isValidEscape (c :: rest) then
        let escape := consumeEscape rest
        let more := consumeUrlValue escape.2
        (more.1.map (escape.1 :: ·), more.2)
      else (none, consumeRemnants rest)
    else
      let more := consumeUrlValue rest
      (more.1.map (c :: ·), more.2)
termination_by cs => cs.length
decreasing_by
  · have := consumeEscape_le rest
    simp only [List.length_cons]
    omega
  · simp

/-- 4.3.6: a url token. -/
def consumeUrl (cs : List ℕ) : Token × List ℕ :=
  match consumeUrlValue (dropWhitespace cs) with
  | (some value, rest) => (.url value, rest)
  | (none, rest) => (.badUrl, rest)

/-- An ASCII case-insensitive match for `url`. -/
def isUrlName : List ℕ → Bool
  | [u, r, l] => (u == 0x75 || u == 0x55) && (r == 0x72 || r == 0x52) && (l == 0x6c || l == 0x4c)
  | _ => false

/-- While the next two code points are whitespace, consume one. -/
def dropDoubleWhitespace : List ℕ → List ℕ
  | c :: d :: rest =>
    if isWhitespace c && isWhitespace d then dropDoubleWhitespace (d :: rest) else c :: d :: rest
  | rest => rest

/-- A quotation mark or an apostrophe. -/
def isQuote (c : ℕ) : Bool := c == 0x22 || c == 0x27

/-- A quotation mark, or whitespace and a quotation mark. -/
def startsQuoted : List ℕ → Bool
  | c :: d :: _ => isQuote c || (isWhitespace c && isQuote d)
  | [c] => isQuote c
  | [] => false

/-- 4.3.4: an ident-like token. -/
def consumeIdentLike (cs : List ℕ) : Token × List ℕ :=
  let name := consumeIdent cs
  match name.2 with
  | 0x28 :: rest =>
    if isUrlName name.1 then
      let after := dropDoubleWhitespace rest
      if startsQuoted after then (.function name.1, after) else consumeUrl after
    else (.function name.1, rest)
  | rest => (.ident name.1, rest)

/-- What is left after digits. -/
def dropDigits (cs : List ℕ) : List ℕ := cs.dropWhile isDigit

/-- What is left after a sign. -/
def dropSign : List ℕ → List ℕ
  | 0x2b :: rest => rest
  | 0x2d :: rest => rest
  | rest => rest

/-- What is left after a fraction. -/
def dropFraction : List ℕ → List ℕ
  | 0x2e :: c :: rest => if isDigit c then dropDigits rest else 0x2e :: c :: rest
  | rest => rest

/-- An optional sign and a digit. -/
def startsExponent : List ℕ → Bool
  | 0x2b :: c :: _ => isDigit c
  | 0x2d :: c :: _ => isDigit c
  | c :: _ => isDigit c
  | [] => false

/-- What is left after an exponent. -/
def dropExponent : List ℕ → List ℕ
  | c :: rest =>
    if (c == 0x45 || c == 0x65) && startsExponent rest then dropDigits (dropSign rest) else c :: rest
  | [] => []

theorem dropSign_eq (cs : List ℕ) :
    dropSign cs = if cs.head? = some 0x2b ∨ cs.head? = some 0x2d then cs.tail else cs := by
  unfold dropSign
  split
  · rfl
  · rfl
  · rename_i h1 h2
    rw [if_neg]
    rintro (h | h)
    · obtain ⟨rest, rfl⟩ := List.head?_eq_some_iff.1 h
      exact h1 rest rfl
    · obtain ⟨rest, rfl⟩ := List.head?_eq_some_iff.1 h
      exact h2 rest rfl

theorem dropFraction_eq (cs : List ℕ) :
    dropFraction cs =
      if cs.head? = some 0x2e ∧ cs.tail.head?.any isDigit then dropDigits cs.tail else cs := by
  unfold dropFraction
  split
  · rename_i c rest
    by_cases hc : isDigit c
    · rw [if_pos hc, if_pos ⟨rfl, hc⟩]
      exact (List.dropWhile_cons_of_pos hc).symm
    · rw [if_neg hc, if_neg (fun h => hc h.2)]
  · rename_i h1
    rw [if_neg]
    rintro ⟨h, hd⟩
    obtain ⟨rest, rfl⟩ := List.head?_eq_some_iff.1 h
    match rest with
    | [] => cases hd
    | c :: rest => exact h1 c rest rfl

theorem startsExponent_eq (cs : List ℕ) :
    startsExponent cs = (cs.head?.any isDigit ||
      ((cs.head? == some 0x2b || cs.head? == some 0x2d) && cs.tail.head?.any isDigit)) := by
  unfold startsExponent
  split
  · rfl
  · rfl
  · rename_i c rest h1 h2
    match rest with
    | [] => simp
    | d :: rest =>
      have : c ≠ 0x2b ∧ c ≠ 0x2d := ⟨fun h => h1 d rest h rfl, fun h => h2 d rest h rfl⟩
      simp [this]
  · rfl

/-- 4.3.12: a number. -/
def consumeNumber (cs : List ℕ) : List ℕ := dropExponent (dropFraction (dropDigits (dropSign cs)))

/-- 4.3.3: a numeric token. -/
def consumeNumeric (cs : List ℕ) : Token × List ℕ :=
  let after := consumeNumber cs
  if startsIdent after then
    let unit := consumeIdent after
    (.dimension unit.1, unit.2)
  else
    match after with
    | 0x25 :: rest => (.percentage, rest)
    | rest => (.number, rest)

/-- A string token, or a bad one where the line ends first. -/
def consumeStringToken (ending : ℕ) (cs : List ℕ) : Token × List ℕ :=
  match consumeString ending cs with
  | (some value, rest) => (.string value, rest)
  | (none, rest) => (.badString, rest)

/-- 4.3.1, after the comments: one token, which starts with `c`. -/
def consumeToken (c : ℕ) (rest : List ℕ) : Token × List ℕ :=
  if isWhitespace c then (.whitespace, dropWhitespace rest)
  else if isQuote c then consumeStringToken c rest
  else if c = 0x23 then
    if (rest.head?.any isIdent) || isValidEscape rest then
      let name := consumeIdent rest
      (.hash name.1, name.2)
    else (.delim c, rest)
  else if startsNumber (c :: rest) then consumeNumeric (c :: rest)
  else if c = 0x2d && rest.take 2 == [0x2d, 0x3e] then (.cdc, rest.drop 2)
  else if startsIdent (c :: rest) then consumeIdentLike (c :: rest)
  else if c = 0x3c && rest.take 3 == [0x21, 0x2d, 0x2d] then (.cdo, rest.drop 3)
  else if c = 0x40 then
    if startsIdent rest then
      let name := consumeIdent rest
      (.atKeyword name.1, name.2)
    else (.delim c, rest)
  else (.delim c, rest)

/-! ## Every token takes something -/

theorem consumeIdent_le (cs : List ℕ) : (consumeIdent cs).2.length ≤ cs.length := by
  fun_induction consumeIdent cs with
  | case1 => simp
  | case2 c rest _ more ih =>
    show (consumeIdent rest).2.length ≤ rest.length + 1
    omega
  | case3 c rest _ _ escape more ih =>
    have := consumeEscape_le rest
    show (consumeIdent (consumeEscape rest).2).2.length ≤ rest.length + 1
    exact Nat.le_trans ih (Nat.le_succ_of_le this)
  | case4 => simp

theorem consumeIdent_lt {c : ℕ} {rest : List ℕ} (h : startsIdent (c :: rest)) :
    (consumeIdent (c :: rest)).2.length < (c :: rest).length := by
  have hc : isIdent c ∨ isValidEscape (c :: rest) := by
    unfold startsIdent at h
    split at h <;> simp_all [isIdent]
    rcases h with h | h
    · exact Or.inl (Or.inl (Or.inl h))
    · exact Or.inr h
  rw [consumeIdent]
  split_ifs with h1 h2
  · have := consumeIdent_le rest
    simp only [List.length_cons]
    omega
  · have h3 := consumeIdent_le (consumeEscape rest).2
    have h4 := consumeEscape_le rest
    simp only [List.length_cons]
    omega
  · exact absurd hc (not_or.2 ⟨h1, h2⟩)

theorem consumeString_le (ending : ℕ) (cs : List ℕ) :
    (consumeString ending cs).2.length ≤ cs.length := by
  fun_induction consumeString ending cs with
  | case1 | case3 => simp
  | case2 | case4 => simp
  | case5 d after _ _ _ ih =>
    simp only [List.length_cons]
    omega
  | case6 d after _ _ _ escape more ih =>
    have := consumeEscape_le (d :: after)
    show (consumeString ending (consumeEscape (d :: after)).2).2.length ≤ (d :: after).length + 1
    exact Nat.le_trans ih (Nat.le_succ_of_le this)
  | case7 c rest _ _ _ more ih =>
    show (consumeString ending rest).2.length ≤ rest.length + 1
    omega

theorem consumeRemnants_le (cs : List ℕ) : (consumeRemnants cs).length ≤ cs.length := by
  fun_induction consumeRemnants cs with
  | case1 | case2 => simp
  | case3 c rest _ _ ih =>
    have := consumeEscape_le rest
    simp only [List.length_cons]
    omega
  | case4 c rest _ _ ih =>
    simp only [List.length_cons]
    omega

theorem dropWhitespace_le (cs : List ℕ) : (dropWhitespace cs).length ≤ cs.length :=
  List.length_dropWhile_le _ cs

theorem consumeUrlValue_le (cs : List ℕ) : (consumeUrlValue cs).2.length ≤ cs.length := by
  fun_induction consumeUrlValue cs with
  | case1 | case2 => simp
  | case3 => simp
  | case4 c rest _ _ after hd =>
    have := dropWhitespace_le rest
    rw [hd] at this
    simp only [List.length_cons] at this ⊢
    omega
  | case5 c rest _ _ d after hd =>
    have := dropWhitespace_le rest
    have := consumeRemnants_le (d :: after)
    simp_all only [List.length_cons]
    omega
  | case6 c rest | case8 rest =>
    have := consumeRemnants_le rest
    simp only [List.length_cons]
    omega
  | case7 rest _ _ _ _ escape more ih =>
    have := consumeEscape_le rest
    show (consumeUrlValue (consumeEscape rest).2).2.length ≤ rest.length + 1
    exact Nat.le_trans ih (Nat.le_succ_of_le this)
  | case9 c rest _ _ _ _ more ih =>
    show (consumeUrlValue rest).2.length ≤ rest.length + 1
    omega

theorem consumeUrl_le (cs : List ℕ) : (consumeUrl cs).2.length ≤ cs.length := by
  have := consumeUrlValue_le (dropWhitespace cs)
  have := dropWhitespace_le cs
  unfold consumeUrl
  split <;> simp_all <;> omega

theorem dropDoubleWhitespace_le (cs : List ℕ) :
    (dropDoubleWhitespace cs).length ≤ cs.length := by
  fun_induction dropDoubleWhitespace cs with
  | case1 c d rest _ ih =>
    simp only [List.length_cons] at ih ⊢
    omega
  | case2 | case3 => simp

theorem consumeIdentLike_lt {c : ℕ} {rest : List ℕ} (h : startsIdent (c :: rest)) :
    (consumeIdentLike (c :: rest)).2.length < (c :: rest).length := by
  have hlt := consumeIdent_lt h
  unfold consumeIdentLike
  dsimp only
  split
  · rename_i after hafter
    rw [hafter] at hlt
    have := dropDoubleWhitespace_le after
    have := consumeUrl_le (dropDoubleWhitespace after)
    simp only [List.length_cons] at hlt ⊢
    split_ifs
    · show (dropDoubleWhitespace after).length < rest.length + 1
      omega
    · omega
    · show after.length < rest.length + 1
      omega
  · exact hlt

theorem dropSign_le (cs : List ℕ) : (dropSign cs).length ≤ cs.length := by
  unfold dropSign
  split <;> simp

theorem dropDigits_le (cs : List ℕ) : (dropDigits cs).length ≤ cs.length := List.length_dropWhile_le _ cs

theorem dropFraction_le (cs : List ℕ) : (dropFraction cs).length ≤ cs.length := by
  unfold dropFraction
  split
  · rename_i c rest
    have := dropDigits_le rest
    split_ifs <;> simp only [List.length_cons] <;> omega
  · simp

theorem dropExponent_le (cs : List ℕ) : (dropExponent cs).length ≤ cs.length := by
  unfold dropExponent
  split
  · rename_i c rest
    have := dropSign_le rest
    have := dropDigits_le (dropSign rest)
    split_ifs <;> simp only [List.length_cons] <;> omega
  · simp

/-- Digits, or a point and digits, take something. -/
theorem dropFraction_dropDigits_lt {cs : List ℕ} (h : startsUnsigned cs) :
    (dropFraction (dropDigits cs)).length < cs.length := by
  unfold startsUnsigned at h
  split at h
  · rename_i c rest
    have := dropDigits_le rest
    rw [show dropDigits (0x2e :: c :: rest) = 0x2e :: c :: rest from rfl, dropFraction, if_pos h]
    simp only [List.length_cons]
    omega
  · rename_i c rest _
    have hle := dropFraction_le (dropDigits (c :: rest))
    have := dropDigits_le rest
    have hd : dropDigits (c :: rest) = dropDigits rest := by simp [dropDigits, h]
    rw [hd] at hle ⊢
    simp only [List.length_cons]
    omega
  · cases h

theorem consumeNumber_lt {cs : List ℕ} (h : startsNumber cs) :
    (consumeNumber cs).length < cs.length := by
  have hs : startsUnsigned (dropSign cs) := by
    unfold startsNumber at h
    split at h
    · exact h
    · exact h
    · unfold dropSign
      split
      · cases h
      · cases h
      · exact h
  have := dropExponent_le (dropFraction (dropDigits (dropSign cs)))
  have := dropFraction_dropDigits_lt hs
  have := dropSign_le cs
  unfold consumeNumber
  omega

theorem consumeNumeric_lt {cs : List ℕ} (h : startsNumber cs) :
    (consumeNumeric cs).2.length < cs.length := by
  have hlt := consumeNumber_lt h
  unfold consumeNumeric
  dsimp only
  split_ifs with hi
  · exact Nat.lt_of_le_of_lt (consumeIdent_le _) hlt
  · split
    · rename_i rest hr
      rw [hr] at hlt
      exact Nat.lt_of_le_of_lt (Nat.le_succ _) hlt
    · exact hlt

theorem consumeStringToken_le (ending : ℕ) (cs : List ℕ) :
    (consumeStringToken ending cs).2.length ≤ cs.length := by
  have := consumeString_le ending cs
  unfold consumeStringToken
  split <;> simp_all

theorem consumeToken_lt (c : ℕ) (rest : List ℕ) :
    (consumeToken c rest).2.length < (c :: rest).length := by
  have hws := dropWhitespace_le rest
  have hid := consumeIdent_le rest
  have hst := consumeStringToken_le c rest
  unfold consumeToken
  split_ifs with h1 h2 h3 h4 h5 h6 h7
  · exact Nat.lt_succ_of_le hws
  · exact Nat.lt_succ_of_le hst
  · exact Nat.lt_succ_of_le hid
  · exact Nat.lt_succ_self _
  · exact consumeNumeric_lt h5
  · exact Nat.lt_succ_of_le (rest.drop_sublist 2).length_le
  · exact consumeIdentLike_lt h7
  · exact Nat.lt_succ_of_le (rest.drop_sublist 3).length_le
  · exact Nat.lt_succ_of_le hid
  all_goals exact Nat.lt_succ_self _

/-! ## Which token starts -/

theorem startsIdent_head {c : ℕ} {cs : List ℕ} (h : startsIdent (c :: cs)) :
    isIdentStart c ∨ c = 0x2d ∨ c = 0x5c := by
  rw [startsIdent_cons] at h
  split_ifs at h with hc
  · exact Or.inr (Or.inl hc)
  · rw [isValidEscape_cons, Bool.or_eq_true, Bool.and_eq_true, beq_iff_eq] at h
    rcases h with h | h
    · exact Or.inl h
    · exact Or.inr (Or.inr h.1)

theorem isIdentStart_ge {c : ℕ} (h : isIdentStart c) : 0x41 ≤ c := by
  simp only [isIdentStart, isLetter, Bool.or_eq_true, Bool.and_eq_true, decide_eq_true_eq,
    beq_iff_eq] at h
  omega

/-- A number and an ident sequence do not start alike. -/
theorem startsNumber_of_startsIdent {c : ℕ} {cs : List ℕ} (h : startsIdent (c :: cs)) :
    startsNumber (c :: cs) = false := by
  have hu : ∀ e (es : List ℕ), isIdentStart e ∨ e = 0x2d ∨ e = 0x5c →
      startsUnsigned (e :: es) = false := by
    intro e es he
    have hd : isDigit e = false ∧ e ≠ 0x2e := by
      rcases he with he | rfl | rfl
      · have := isIdentStart_ge he
        simp only [isDigit, Bool.and_eq_false_iff, decide_eq_false_iff_not]
        omega
      · decide
      · decide
    simp [startsUnsigned_eq, hd]
  have hhead := startsIdent_head h
  rw [startsNumber_cons]
  by_cases hc : c = 0x2d
  · subst hc
    rw [if_pos (Or.inr rfl)]
    rw [startsIdent_cons, if_pos rfl] at h
    match cs with
    | [] => rfl
    | e :: cs =>
      apply hu
      simpa [isValidEscape_cons, or_assoc] using
        show isIdentStart e ∨ e = 0x2d ∨ e = 0x5c by
          simp only [List.head?_cons, Option.any_some, Bool.or_eq_true, beq_iff_eq,
            Option.some.injEq, isValidEscape_cons, Bool.and_eq_true] at h
          tauto
  · rw [if_neg]
    · exact hu c cs hhead
    · rintro (rfl | rfl)
      · rcases hhead with h' | h' | h'
        · cases h'
        · cases h'
        · cases h'
      · exact hc rfl

theorem consumeToken_identLike {c : ℕ} {cs : List ℕ} (h : startsIdent (c :: cs))
    (hcdc : ¬ (c = 0x2d ∧ cs.take 2 = [0x2d, 0x3e])) :
    consumeToken c cs = consumeIdentLike (c :: cs) := by
  have hc : isWhitespace c = false ∧ isQuote c = false ∧ c ≠ 0x23 := by
    rcases startsIdent_head h with hc | rfl | rfl
    · have := isIdentStart_ge hc
      simp only [isWhitespace, isQuote, Bool.or_eq_false_iff, beq_eq_false_iff_ne]
      omega
    · decide
    · decide
  rw [consumeToken, hc.1, hc.2.1, if_neg Bool.false_ne_true, if_neg Bool.false_ne_true,
    if_neg hc.2.2, startsNumber_of_startsIdent h, if_neg Bool.false_ne_true, if_neg, if_pos h]
  simpa using hcdc

theorem consumeToken_cdc {cs : List ℕ} : consumeToken 0x2d (0x2d :: 0x3e :: cs) = (.cdc, cs) := by
  have h : startsNumber (0x2d :: 0x2d :: 0x3e :: cs) = false :=
    startsNumber_of_startsIdent (by simp [startsIdent_cons])
  rw [consumeToken, if_neg (by decide), if_neg (by decide), if_neg (by decide), h,
    if_neg Bool.false_ne_true, if_pos (by simp)]
  rfl

theorem startsNumber_head {c : ℕ} {cs : List ℕ} (h : startsNumber (c :: cs)) :
    isDigit c ∨ c = 0x2e ∨ c = 0x2b ∨ c = 0x2d := by
  rw [startsNumber_cons] at h
  split_ifs at h with hc
  · exact Or.inr (Or.inr hc)
  · rw [startsUnsigned_eq, Bool.or_eq_true, Bool.and_eq_true, beq_iff_eq] at h
    rcases h with h | h
    · exact Or.inl h
    · exact Or.inr (Or.inl (Option.some.inj h.1))

theorem consumeToken_numeric {c : ℕ} {cs : List ℕ} (h : startsNumber (c :: cs)) :
    consumeToken c cs = consumeNumeric (c :: cs) := by
  have hc : isWhitespace c = false ∧ isQuote c = false ∧ c ≠ 0x23 := by
    rcases startsNumber_head h with hc | rfl | rfl | rfl
    · simp only [isDigit, Bool.and_eq_true, decide_eq_true_eq] at hc
      simp only [isWhitespace, isQuote, Bool.or_eq_false_iff, beq_eq_false_iff_ne]
      omega
    · decide
    · decide
    · decide
  rw [consumeToken, hc.1, hc.2.1, if_neg Bool.false_ne_true, if_neg Bool.false_ne_true,
    if_neg hc.2.2, if_pos h]

theorem consumeToken_at (cs : List ℕ) :
    consumeToken 0x40 cs =
      if startsIdent cs then (.atKeyword (consumeIdent cs).1, (consumeIdent cs).2)
      else (.delim 0x40, cs) := by
  have hn : startsNumber (0x40 :: cs) = false := by simp [startsNumber_cons, startsUnsigned_eq, isDigit]
  have hi : startsIdent (0x40 :: cs) = false := by
    simp [startsIdent_cons, isIdentStart, isLetter, isValidEscape_cons]
  rw [consumeToken, if_neg (by decide), if_neg (by decide), if_neg (by decide), hn,
    if_neg Bool.false_ne_true, if_neg (by simp), hi, if_neg Bool.false_ne_true, if_neg (by simp),
    if_pos rfl]

theorem consumeToken_cdo (cs : List ℕ) :
    consumeToken 0x3c (0x21 :: 0x2d :: 0x2d :: cs) = (.cdo, cs) := by
  rw [consumeToken, if_neg (by decide), if_neg (by decide), if_neg (by decide), if_neg (by
    simp [startsNumber_cons, startsUnsigned_eq, isDigit]), if_neg (by simp), if_neg (by
    simp [startsIdent_cons, isIdentStart, isLetter, isValidEscape_cons]), if_pos (by simp)]
  rfl

/-- A code point that starts none of the other tokens. -/
theorem consumeToken_delim {c : ℕ} {cs : List ℕ} (hw : isWhitespace c = false)
    (hq : isQuote c = false) (hh : c ≠ 0x23) (ha : c ≠ 0x40) (hn : startsNumber (c :: cs) = false)
    (hi : startsIdent (c :: cs) = false) (ho : ¬ (c = 0x3c ∧ cs.take 3 = [0x21, 0x2d, 0x2d])) :
    consumeToken c cs = (.delim c, cs) := by
  have hcdc : ¬ (c = 0x2d && cs.take 2 == [0x2d, 0x3e]) := by
    rw [Bool.and_eq_true, decide_eq_true_eq, beq_iff_eq]
    rintro ⟨rfl, hcs⟩
    match cs with
    | 0x2d :: 0x3e :: cs => simp [startsIdent_cons] at hi
  rw [consumeToken, hw, hq, hn, hi, if_neg Bool.false_ne_true, if_neg Bool.false_ne_true, if_neg hh,
    if_neg Bool.false_ne_true, if_neg hcdc, if_neg Bool.false_ne_true, if_neg (by simpa using ho),
    if_neg ha]

theorem consumeComments_le (cs : List ℕ) : (consumeComments cs).length ≤ cs.length := by
  fun_induction consumeComments cs with
  | case1 rest ih =>
    have := afterComment_le rest
    simp only [List.length_cons]
    omega
  | case2 => simp

/-! ## Tokenizing -/

/-- The tokens of a stream. -/
def tokens (cs : List ℕ) : List Token :=
  match _h : consumeComments cs with
  | [] => []
  | c :: rest => (consumeToken c rest).1 :: tokens (consumeToken c rest).2
termination_by cs.length
decreasing_by
  have := consumeToken_lt c rest
  have := consumeComments_le cs
  rw [_h] at this
  omega

/-- The tokens of a text. -/
def tokenize (units : List ℕ) : List Token := tokens (preprocess units)

/-- What the string of a url function holds, when one follows. -/
def leadingString : List Token → Option (List ℕ)
  | .string value :: _ => some value
  | .whitespace :: .string value :: _ => some value
  | _ => none

/-- The values of the url tokens and of the `url(` functions followed by a string. -/
def urls : List Token → List (List ℕ)
  | .url value :: rest => value :: urls rest
  | .function name :: rest =>
    if isUrlName name then (leadingString rest).toList ++ urls rest else urls rest
  | _ :: rest => urls rest
  | [] => []

theorem tokens_eq (cs : List ℕ) :
    tokens cs =
      match consumeComments cs with
      | [] => []
      | c :: rest => (consumeToken c rest).1 :: tokens (consumeToken c rest).2 := by
  rw [tokens]
  split <;> simp_all

@[simp] theorem tokens_nil : tokens [] = [] := by
  rw [tokens_eq, consumeComments]
  simp

theorem tokens_comment (cs : List ℕ) :
    tokens (0x2f :: 0x2a :: cs) = tokens (afterComment cs) := by
  rw [tokens_eq, consumeComments, ← tokens_eq]

/-- Where no comment starts, a token does. -/
theorem tokens_cons {c : ℕ} {cs : List ℕ} (h : ¬ (c = 0x2f ∧ cs.head? = some 0x2a)) :
    tokens (c :: cs) = (consumeToken c cs).1 :: tokens (consumeToken c cs).2 := by
  have hc : consumeComments (c :: cs) = c :: cs := by
    rw [consumeComments]
    intro rest hcs
    obtain ⟨rfl, rfl⟩ := List.cons.inj hcs
    exact h ⟨rfl, rfl⟩
  rw [tokens_eq, hc]

/-- Tokens that are neither urls nor functions add no url. -/
theorem urls_cons {t : Token} (h1 : ∀ value, t ≠ .url value) (h2 : ∀ name, t ≠ .function name)
    (ts : List Token) : urls (t :: ts) = urls ts := by
  cases t with
  | url value => exact absurd rfl (h1 value)
  | function name => exact absurd rfl (h2 name)
  | _ => rfl

theorem urls_dropWhitespace (cs : List ℕ) : urls (tokens (dropWhitespace cs)) = urls (tokens cs) := by
  match cs with
  | [] => rfl
  | c :: cs =>
    by_cases hc : isWhitespace c
    · have hne : ¬ (c = 0x2f ∧ cs.head? = some 0x2a) := by
        rintro ⟨rfl, -⟩
        cases hc
      have ht : consumeToken c cs = (.whitespace, dropWhitespace cs) := by
        rw [consumeToken, if_pos hc]
      rw [tokens_cons hne, ht, dropWhitespace, List.dropWhile_cons_of_pos hc]
      rfl
    · rw [dropWhitespace, List.dropWhile_cons_of_neg hc]

/-- A parenthesis by itself adds no url. -/
theorem urls_paren {c : ℕ} (h : c = 0x28 ∨ c = 0x29) (cs : List ℕ) :
    urls (tokens (c :: cs)) = urls (tokens cs) := by
  have hne : ¬ (c = 0x2f ∧ cs.head? = some 0x2a) := by omega
  have ht : consumeToken c cs = (.delim c, cs) := by
    rcases h with rfl | rfl <;>
      simp [consumeToken, isWhitespace, isQuote, startsNumber_cons, startsUnsigned_eq, isDigit,
        startsIdent_cons, isIdentStart, isLetter, isValidEscape_cons]
  rw [tokens_cons hne, ht]
  rfl

/-- The first token behind white space is the string of a url function. -/
theorem leadingString_tokens {cs : List ℕ} {c : ℕ} {rest : List ℕ} (hc : isQuote c)
    (h : cs = c :: rest ∨ ∃ w, isWhitespace w ∧ cs = w :: c :: rest) :
    leadingString (tokens cs) = (consumeString c rest).1 ∧
      urls (tokens cs) = urls (tokens (consumeString c rest).2) := by
  have hne : ¬ (c = 0x2f ∧ rest.head? = some 0x2a) := by
    rintro ⟨rfl, -⟩
    cases hc
  have hw : ¬ isWhitespace c := by
    simp only [isQuote, Bool.or_eq_true, beq_iff_eq] at hc
    rcases hc with rfl | rfl <;> decide
  have ht : tokens (c :: rest) = (consumeStringToken c rest).1 :: tokens (consumeStringToken c rest).2 := by
    have : consumeToken c rest = consumeStringToken c rest := by
      rw [consumeToken, if_neg hw, if_pos hc]
    rw [tokens_cons hne, this]
  have hcs : tokens cs = tokens (c :: rest) ∨ tokens cs = .whitespace :: tokens (c :: rest) := by
    rcases h with rfl | ⟨w, hw', rfl⟩
    · exact Or.inl rfl
    · refine Or.inr ?_
      have hne' : ¬ (w = 0x2f ∧ (c :: rest).head? = some 0x2a) := by
        rintro ⟨rfl, -⟩
        cases hw'
      have : consumeToken w (c :: rest) = (.whitespace, c :: rest) := by
        rw [consumeToken, if_pos hw', dropWhitespace, List.dropWhile_cons_of_neg hw]
      rw [tokens_cons hne', this]
  rw [ht] at hcs
  unfold consumeStringToken at hcs
  generalize consumeString c rest = s at hcs ⊢
  obtain ⟨value, after⟩ := s
  cases value <;> rcases hcs with hcs | hcs <;> rw [hcs] <;> exact ⟨rfl, rfl⟩

theorem dropWhitespace_dropDoubleWhitespace (cs : List ℕ) :
    dropWhitespace (dropDoubleWhitespace cs) = dropWhitespace cs := by
  fun_induction dropDoubleWhitespace cs with
  | case1 c d rest h ih =>
    rw [Bool.and_eq_true] at h
    rw [ih, dropWhitespace, dropWhitespace, List.dropWhile_cons_of_pos h.1]
  | case2 | case3 => rfl

/-- What is left of double white space is at most one. -/
theorem dropDoubleWhitespace_cases (cs : List ℕ) :
    dropDoubleWhitespace cs = dropWhitespace cs ∨
      ∃ w, isWhitespace w ∧ dropDoubleWhitespace cs = w :: dropWhitespace cs := by
  fun_induction dropDoubleWhitespace cs with
  | case1 c d rest h ih =>
    rw [Bool.and_eq_true] at h
    rwa [dropWhitespace, List.dropWhile_cons_of_pos h.1]
  | case2 c d rest h =>
    by_cases hc : isWhitespace c
    · have hd : ¬ isWhitespace d := fun hd => h (by rw [hc, hd]; rfl)
      refine Or.inr ⟨c, hc, ?_⟩
      rw [dropWhitespace, List.dropWhile_cons_of_pos hc, List.dropWhile_cons_of_neg hd]
    · exact Or.inl (List.dropWhile_cons_of_neg hc).symm
  | case3 cs h =>
    match cs with
    | [] => exact Or.inl rfl
    | [c] =>
      by_cases hc : isWhitespace c
      · refine Or.inr ⟨c, hc, ?_⟩
        rw [dropWhitespace, List.dropWhile_cons_of_pos hc]
        rfl
      · exact Or.inl (List.dropWhile_cons_of_neg hc).symm
    | c :: d :: rest => exact absurd rfl (h c d rest)

/-- Whether a url is quoted is seen behind the white space. -/
theorem startsQuoted_dropDoubleWhitespace (cs : List ℕ) :
    startsQuoted (dropDoubleWhitespace cs) = (dropWhitespace cs).head?.any isQuote := by
  have hq : ∀ w, isWhitespace w → isQuote w = false := by
    intro w hw
    simp only [isWhitespace, Bool.or_eq_true, beq_iff_eq] at hw
    rcases hw with (rfl | rfl) | rfl <;> rfl
  have hn : ∀ d rest, dropWhitespace cs = d :: rest → isWhitespace d = false := by
    intro d rest h
    have := List.head?_dropWhile_not isWhitespace cs
    rw [show cs.dropWhile isWhitespace = d :: rest from h] at this
    exact this
  rcases dropDoubleWhitespace_cases cs with h | ⟨w, hw, h⟩
  · rw [h]
    match hd : dropWhitespace cs with
    | [] => rfl
    | [d] => rfl
    | d :: e :: rest => simp [startsQuoted, hn d _ hd]
  · rw [h]
    match hd : dropWhitespace cs with
    | [] => simp [startsQuoted, hq w hw]
    | d :: rest => simp [startsQuoted, hq w hw, hw]

end CssTokenizer

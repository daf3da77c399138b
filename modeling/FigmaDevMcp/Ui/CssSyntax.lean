import FigmaDevMcp.Ui.Text

set_option autoImplicit false

/-!
# The tokenizer of the sanitizer

`css-syntax.ts`. The index into the input is what is left of the input, and `codeAt` looks ahead
from there; past the end it has no code, where the source has `-1`.

* `tokenizeCss`: every round of the main loop is `nextToken`;
* `nextToken_lt`: a round takes something, so the loop ends.
-/

namespace FigmaDevMcp

/-- The tokens that the plugin tells apart. -/
inductive CssToken where
  | comment (value : JsString)
  | whitespace
  | string (value : JsString)
  | url (value : JsString)
  | function (value : JsString)
  | atKeyword (value : JsString)
  | ident (value : JsString)
  | hash (value : JsString)
  | number (value : JsString)
  | delim (value : JsString)
  deriving DecidableEq, Repr

namespace Css

/-- White space of CSS. -/
def isWhitespace (code : ℕ) : Bool :=
  code == 0x09 || code == 0x0a || code == 0x0c || code == 0x0d || code == 0x20

/-- A digit. -/
def isDigit (code : ℕ) : Bool := 0x30 ≤ code && code ≤ 0x39

/-- A hexadecimal digit. -/
def isHex (code : ℕ) : Bool :=
  isDigit code || (0x41 ≤ code && code ≤ 0x46) || (0x61 ≤ code && code ≤ 0x66)

/-- A unit with which a name can start. -/
def isNameStart (code : ℕ) : Bool :=
  (0x41 ≤ code && code ≤ 0x5a) || (0x61 ≤ code && code ≤ 0x7a) || code == 0x5f || 0x80 ≤ code

/-- A unit of a name. -/
def isName (code : ℕ) : Bool := isNameStart code || isDigit code || code == 0x2d

/-- A unit of a line break. -/
def isNewline (code : ℕ) : Bool := code == 0x0a || code == 0x0c || code == 0x0d

/-- The code `offset` places ahead. -/
def codeAt (input : JsString) (offset : ℕ) : Option ℕ := input[offset]?

@[simp] theorem codeAt_nil (n : ℕ) : codeAt [] n = none := rfl

@[simp] theorem codeAt_zero (c : ℕ) (rest : JsString) : codeAt (c :: rest) 0 = some c := rfl

@[simp] theorem codeAt_succ (c : ℕ) (rest : JsString) (n : ℕ) :
    codeAt (c :: rest) (n + 1) = codeAt rest n := rfl

/-- A backslash with no line break after it. -/
def isValidEscape (input : JsString) : Bool :=
  codeAt input 0 == some 0x5c && !(codeAt input 1).any isNewline

/-- An ident starts here. -/
def startsIdent (input : JsString) : Bool :=
  if codeAt input 0 = some 0x2d then
    (codeAt input 1).any isNameStart || codeAt input 1 == some 0x2d || isValidEscape input.tail
  else (codeAt input 0).any isNameStart || isValidEscape input

/-- A number starts here. -/
def startsNumber (input : JsString) : Bool :=
  if (codeAt input 0).any isDigit then true
  else if codeAt input 0 = some 0x2e then (codeAt input 1).any isDigit
  else if codeAt input 0 = some 0x2b ∨ codeAt input 0 = some 0x2d then
    (codeAt input 1).any isDigit || (codeAt input 1 == some 0x2e && (codeAt input 2).any isDigit)
  else false

/-! ## Consuming -/

/-- What is left after white space. -/
def consumeWhitespace (input : JsString) : JsString := input.dropWhile isWhitespace

/-- The hex digits of an escape, six at most. -/
def consumeHex : ℕ → JsString → JsString × JsString
  | count + 1, code :: rest =>
    if isHex code then (code :: (consumeHex count rest).1, (consumeHex count rest).2)
    else ([], code :: rest)
  | _, rest => ([], rest)

/-- The value of a hexadecimal digit. -/
def hexDigit (code : ℕ) : ℕ :=
  if code ≤ 0x39 then code - 0x30 else if code ≤ 0x46 then code - 0x41 + 10 else code - 0x61 + 10

/-- `Number.parseInt` of hex digits. -/
def parseHex (hex : JsString) : ℕ := hex.foldl (fun value code => 16 * value + hexDigit code) 0

/-- The input starts with the backslash of the escape. -/
def consumeEscape (input : JsString) : JsString × JsString :=
  match input.tail with
  | [] => ([0xfffd], [])
  | first :: after =>
    if isHex first then
      let hex := consumeHex 6 (first :: after)
      let value := parseHex hex.1
      (if value = 0 ∨ 0x10ffff < value ∨ (0xd800 ≤ value ∧ value ≤ 0xdfff) then [0xfffd]
        else Utf16.encodeOne value,
        if (codeAt hex.2 0).any isWhitespace then hex.2.tail else hex.2)
    else if isNewline first then
      ([], if first = 0x0d ∧ codeAt after 0 = some 0x0a then after.tail else after)
    else ([first], after)

theorem consumeHex_le (count : ℕ) (input : JsString) :
    (consumeHex count input).2.length ≤ input.length := by
  fun_induction consumeHex count input with
  | case1 count c rest _ ih => simp only [List.length_cons]; omega
  | case2 | case3 => simp

theorem tail_le (input : JsString) : input.tail.length ≤ input.length := by simp

theorem consumeEscape_le (input : JsString) :
    (consumeEscape input).2.length ≤ input.tail.length := by
  unfold consumeEscape
  split
  · simp
  · rename_i first after hi
    have := consumeHex_le 6 (first :: after)
    have := tail_le (consumeHex 6 (first :: after)).2
    have := tail_le after
    rw [hi]
    dsimp only
    split_ifs <;> simp only [List.length_cons] at * <;> omega

/-- An ident, and what is left after it. -/
def consumeIdent : JsString → JsString × JsString
  | [] => ([], [])
  | code :: rest =>
    if isName code then
      let more := consumeIdent rest
      (code :: more.1, more.2)
    else if isValidEscape (code :: rest) then
      let escape := consumeEscape (code :: rest)
      let more := consumeIdent escape.2
      (escape.1 ++ more.1, more.2)
    else ([], code :: rest)
termination_by input => input.length
decreasing_by
  · simp
  · have := consumeEscape_le (code :: rest)
    simp only [List.tail_cons, List.length_cons] at *
    omega

/-- The loop of `consumeString`, after the opening quote. -/
def consumeStringLoop (ending : ℕ) : JsString → JsString × JsString
  | [] => ([], [])
  | code :: rest =>
    if code = ending then ([], rest)
    else if isNewline code then ([], code :: rest)
    else if code = 0x5c then
      match rest with
      | [] => ([], [])
      | next :: after =>
        if isNewline next then
          consumeStringLoop ending
            (if next = 0x0d ∧ codeAt after 0 = some 0x0a then after.tail else after)
        else
          let escape := consumeEscape (code :: next :: after)
          let more := consumeStringLoop ending escape.2
          (escape.1 ++ more.1, more.2)
    else
      let more := consumeStringLoop ending rest
      (code :: more.1, more.2)
termination_by input => input.length
decreasing_by
  · have := tail_le after
    split_ifs <;> simp only [List.length_cons] <;> omega
  · have := consumeEscape_le (code :: next :: after)
    simp only [List.tail_cons, List.length_cons] at *
    omega
  · simp

/-- A string, and what is left after it. -/
def consumeString (ending : ℕ) (input : JsString) : JsString × JsString :=
  consumeStringLoop ending input.tail

/-- What is left after a closing parenthesis. -/
def skipParen (input : JsString) : JsString :=
  if codeAt input 0 = some 0x29 then input.tail else input

/-- The loop of `consumeUrl` over a value without quotes. -/
def consumeUrlLoop : JsString → JsString × JsString
  | [] => ([], [])
  | code :: rest =>
    if code = 0x29 then ([], rest)
    else if isWhitespace code then ([], skipParen (consumeWhitespace (code :: rest)))
    else if code = 0x22 ∨ code = 0x27 ∨ code = 0x28 ∨ code = 0x7f ∨ code < 0x20 then
      let more := consumeUrlLoop rest
      (code :: more.1, more.2)
    else if isValidEscape (code :: rest) then
      let escape := consumeEscape (code :: rest)
      let more := consumeUrlLoop escape.2
      (escape.1 ++ more.1, more.2)
    else
      let more := consumeUrlLoop rest
      (code :: more.1, more.2)
termination_by input => input.length
decreasing_by
  · simp
  · have := consumeEscape_le (code :: rest)
    simp only [List.tail_cons, List.length_cons] at *
    omega
  · simp

/-- A quotation mark or an apostrophe. -/
def isQuote (code : ℕ) : Bool := code == 0x22 || code == 0x27

/-- A url after `url(`: its value and what is left. -/
def consumeUrl (input : JsString) : JsString × JsString :=
  match consumeWhitespace input with
  | next :: rest =>
    if isQuote next then
      let string := consumeString next (next :: rest)
      (string.1, skipParen (consumeWhitespace string.2))
    else consumeUrlLoop (next :: rest)
  | [] => consumeUrlLoop []

/-- What is left after digits. -/
def consumeDigits (input : JsString) : JsString := input.dropWhile isDigit

/-- What is left after a sign. -/
def consumeSign (input : JsString) : JsString :=
  if codeAt input 0 = some 0x2b ∨ codeAt input 0 = some 0x2d then input.tail else input

/-- What is left after a fraction. -/
def consumeFraction (input : JsString) : JsString :=
  if codeAt input 0 = some 0x2e ∧ (codeAt input 1).any isDigit then consumeDigits input.tail
  else input

/-- What is left after an exponent. -/
def consumeExponent (input : JsString) : JsString :=
  if (codeAt input 0 = some 0x45 ∨ codeAt input 0 = some 0x65) ∧
      ((codeAt input 1).any isDigit ∨
        (codeAt input 1 = some 0x2b ∨ codeAt input 1 = some 0x2d) ∧ (codeAt input 2).any isDigit) then
    consumeDigits (consumeSign input.tail)
  else input

/-- What `consumeNumber` leaves. -/
def afterNumber (input : JsString) : JsString :=
  consumeExponent (consumeFraction (consumeDigits (consumeSign input)))

/-- A number, and what is left after it. -/
def consumeNumber (input : JsString) : JsString × JsString :=
  (input.take (input.length - (afterNumber input).length), afterNumber input)

/-- The body of a comment and what is left from its end mark on. -/
def consumeComment : JsString → JsString × JsString
  | code :: next :: rest =>
    if code = 0x2a ∧ next = 0x2f then ([], code :: next :: rest)
    else
      let more := consumeComment (next :: rest)
      (code :: more.1, more.2)
  | rest => ([], rest)

/-- The end mark of a comment, where two codes are left. -/
def skipEndMark : JsString → JsString
  | _ :: _ :: rest => rest
  | rest => rest

/-- `url`, in any case. -/
def isUrlName : JsString → Bool
  | [a, b, c] => (a ||| 32) == 0x75 && (b ||| 32) == 0x72 && (c ||| 32) == 0x6c
  | _ => false

/-- One round of the main loop, on an input that starts with `code`. -/
def nextToken (code : ℕ) (rest : JsString) : CssToken × JsString :=
  if code = 0x2f ∧ codeAt rest 0 = some 0x2a then
    let body := consumeComment rest.tail
    (.comment body.1, skipEndMark body.2)
  else if isWhitespace code then (.whitespace, consumeWhitespace (code :: rest))
  else if isQuote code then
    let string := consumeString code (code :: rest)
    (.string string.1, string.2)
  else if code = 0x23 then
    if (codeAt rest 0).any isName || isValidEscape rest then
      let name := consumeIdent rest
      (.hash name.1, name.2)
    else (.delim [code], rest)
  else if code = 0x40 then
    if startsIdent rest then
      let name := consumeIdent rest
      (.atKeyword name.1, name.2)
    else (.delim [code], rest)
  else if startsIdent (code :: rest) then
    let name := consumeIdent (code :: rest)
    if codeAt name.2 0 = some 0x28 then
      if isUrlName name.1 then
        let url := consumeUrl name.2.tail
        (.url url.1, url.2)
      else (.function name.1, name.2.tail)
    else (.ident name.1, name.2)
  else if startsNumber (code :: rest) then
    let number := consumeNumber (code :: rest)
    (.number number.1, number.2)
  else (.delim [code], rest)

/-! ## Every round takes something -/

theorem consumeIdent_le (input : JsString) : (consumeIdent input).2.length ≤ input.length := by
  fun_induction consumeIdent input with
  | case1 => simp
  | case2 code rest _ more ih =>
    show (consumeIdent rest).2.length ≤ rest.length + 1
    omega
  | case3 code rest _ _ escape more ih =>
    have := consumeEscape_le (code :: rest)
    show (consumeIdent (consumeEscape (code :: rest)).2).2.length ≤ rest.length + 1
    exact Nat.le_trans ih (Nat.le_succ_of_le this)
  | case4 => simp

theorem consumeIdent_lt {code : ℕ} {rest : JsString} (h : startsIdent (code :: rest)) :
    (consumeIdent (code :: rest)).2.length < (code :: rest).length := by
  have hc : isName code ∨ isValidEscape (code :: rest) := by
    simp only [startsIdent, codeAt_zero, Option.some.injEq, Option.any_some] at h
    split_ifs at h with hm
    · exact Or.inl (by rw [hm]; decide)
    · rcases Bool.or_eq_true _ _ ▸ h with h | h
      · exact Or.inl (by simp [isName, h])
      · exact Or.inr h
  rw [consumeIdent]
  split_ifs with h1 h2
  · exact Nat.lt_succ_of_le (consumeIdent_le rest)
  · exact Nat.lt_succ_of_le (Nat.le_trans (consumeIdent_le _) (consumeEscape_le (code :: rest)))
  · exact absurd hc (not_or.2 ⟨h1, h2⟩)

theorem consumeStringLoop_le (ending : ℕ) (input : JsString) :
    (consumeStringLoop ending input).2.length ≤ input.length := by
  fun_induction consumeStringLoop ending input with
  | case1 | case2 | case3 | case4 => simp
  | case5 next after _ _ _ ih =>
    have := tail_le after
    simp only [List.length_cons]
    split_ifs at ih ⊢ <;> omega
  | case6 next after _ _ _ escape more ih =>
    have := consumeEscape_le (0x5c :: next :: after)
    exact Nat.le_trans ih (Nat.le_succ_of_le this)
  | case7 code rest _ _ _ more ih =>
    show (consumeStringLoop ending rest).2.length ≤ rest.length + 1
    omega

theorem skipParen_le (input : JsString) : (skipParen input).length ≤ input.length := by
  unfold skipParen
  split_ifs
  · exact tail_le input
  · exact Nat.le_refl _

theorem consumeUrlLoop_le (input : JsString) : (consumeUrlLoop input).2.length ≤ input.length := by
  fun_induction consumeUrlLoop input with
  | case1 | case2 => simp
  | case3 code rest _ _ => exact Nat.le_trans (skipParen_le _) (List.length_dropWhile_le _ _)
  | case4 code rest _ _ _ more ih => exact Nat.le_succ_of_le ih
  | case5 code rest _ _ _ _ escape more ih =>
    have := consumeEscape_le (code :: rest)
    exact Nat.le_trans ih (Nat.le_succ_of_le this)
  | case6 code rest _ _ _ _ more ih => exact Nat.le_succ_of_le ih

theorem consumeUrl_le (input : JsString) : (consumeUrl input).2.length ≤ input.length := by
  have hw : (consumeWhitespace input).length ≤ input.length := List.length_dropWhile_le _ input
  unfold consumeUrl
  split
  · rename_i next rest hr
    rw [hr] at hw
    split_ifs
    · have := consumeStringLoop_le next rest
      have : (consumeWhitespace (consumeStringLoop next rest).2).length ≤ _ :=
        List.length_dropWhile_le _ _
      exact Nat.le_trans (skipParen_le _) (by
        show (consumeWhitespace (consumeStringLoop next rest).2).length ≤ _
        simp only [List.length_cons] at hw
        omega)
    · exact Nat.le_trans (consumeUrlLoop_le _) hw
  · simp [consumeUrlLoop]

theorem consumeDigits_le (input : JsString) : (consumeDigits input).length ≤ input.length :=
  List.length_dropWhile_le _ input

theorem consumeSign_le (input : JsString) : (consumeSign input).length ≤ input.length := by
  unfold consumeSign
  split_ifs
  · exact tail_le input
  · exact Nat.le_refl _

theorem consumeFraction_le (input : JsString) : (consumeFraction input).length ≤ input.length := by
  unfold consumeFraction
  split_ifs
  · exact Nat.le_trans (consumeDigits_le _) (tail_le input)
  · exact Nat.le_refl _

theorem consumeExponent_le (input : JsString) : (consumeExponent input).length ≤ input.length := by
  unfold consumeExponent
  split_ifs
  · exact Nat.le_trans (consumeDigits_le _) (Nat.le_trans (consumeSign_le _) (tail_le input))
  · exact Nat.le_refl _

/-- Digits, or a point and digits, take something. -/
theorem consumeFraction_consumeDigits_lt {input : JsString}
    (h : (codeAt input 0).any isDigit ∨
      codeAt input 0 = some 0x2e ∧ (codeAt input 1).any isDigit) :
    (consumeFraction (consumeDigits input)).length < input.length := by
  match input with
  | [] => simp at h
  | code :: rest =>
    simp only [codeAt_zero, codeAt_succ, Option.any_some, Option.some.injEq] at h
    rcases h with h | ⟨rfl, h⟩
    · have hd : consumeDigits (code :: rest) = consumeDigits rest := by simp [consumeDigits, h]
      rw [hd]
      exact Nat.lt_succ_of_le (Nat.le_trans (consumeFraction_le _) (consumeDigits_le rest))
    · have hd : consumeDigits (0x2e :: rest) = 0x2e :: rest := rfl
      rw [hd, consumeFraction, if_pos ⟨rfl, h⟩]
      exact Nat.lt_succ_of_le (consumeDigits_le rest)

theorem afterNumber_lt {input : JsString} (h : startsNumber input) :
    (afterNumber input).length < input.length := by
  have hle := consumeSign_le input
  have hlt : (consumeFraction (consumeDigits (consumeSign input))).length < input.length := by
    have hs : (codeAt (consumeSign input) 0).any isDigit ∨
        codeAt (consumeSign input) 0 = some 0x2e ∧ (codeAt (consumeSign input) 1).any isDigit := by
      match input with
      | [] => simp [startsNumber] at h
      | code :: rest =>
        simp only [startsNumber, consumeSign, codeAt_zero, codeAt_succ, Option.any_some,
          Option.some.injEq, List.tail_cons] at h ⊢
        by_cases hs : code = 0x2b ∨ code = 0x2d
        · have hd : isDigit code = false ∧ code ≠ 0x2e := by
            rcases hs with rfl | rfl <;> decide
          rw [if_pos hs]
          simpa [hd, hs] using h
        · rw [if_neg hs]
          split_ifs at h with h1 h2
          · exact Or.inl h1
          · exact Or.inr ⟨congrArg some h2, h⟩
    exact Nat.lt_of_lt_of_le (consumeFraction_consumeDigits_lt hs) hle
  exact Nat.lt_of_le_of_lt (consumeExponent_le _) hlt

theorem consumeComment_le (input : JsString) :
    (consumeComment input).2.length ≤ input.length := by
  fun_induction consumeComment input with
  | case1 => simp
  | case2 code next rest _ more ih => exact Nat.le_succ_of_le ih
  | case3 => simp

theorem skipEndMark_le (input : JsString) : (skipEndMark input).length ≤ input.length := by
  unfold skipEndMark
  split
  · simp only [List.length_cons]
    omega
  · exact Nat.le_refl _

theorem nextToken_lt (code : ℕ) (rest : JsString) :
    (nextToken code rest).2.length < (code :: rest).length := by
  unfold nextToken
  dsimp only
  split_ifs with h1 h2 h3 h4 h5 h6 h7 h8 h9 h10 h11
  · have := consumeComment_le rest.tail
    have := tail_le rest
    exact Nat.lt_succ_of_le (Nat.le_trans (skipEndMark_le _) (by omega))
  · rw [consumeWhitespace, List.dropWhile_cons_of_pos h2]
    exact Nat.lt_succ_of_le (List.length_dropWhile_le _ rest)
  · exact Nat.lt_succ_of_le (consumeStringLoop_le code rest)
  · exact Nat.lt_succ_of_le (consumeIdent_le rest)
  · exact Nat.lt_succ_self _
  · exact Nat.lt_succ_of_le (consumeIdent_le rest)
  · exact Nat.lt_succ_self _
  · have := consumeIdent_lt h8
    have := tail_le (consumeIdent (code :: rest)).2
    exact Nat.lt_of_le_of_lt (consumeUrl_le _) (by omega)
  · exact Nat.lt_of_le_of_lt (tail_le _) (consumeIdent_lt h8)
  · exact consumeIdent_lt h8
  · exact afterNumber_lt h11
  · exact Nat.lt_succ_self _

end Css

open Css in

/-- The tokens of a text. -/
def tokenizeCss : JsString → List CssToken
  | [] => []
  | code :: rest => (nextToken code rest).1 :: tokenizeCss (nextToken code rest).2
termination_by input => input.length
decreasing_by exact nextToken_lt code rest

end FigmaDevMcp

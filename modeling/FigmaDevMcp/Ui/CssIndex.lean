import FigmaDevMcp.Lib.WhileLoop
import FigmaDevMcp.Ui.CssSyntax

set_option autoImplicit false

/-!
# The tokenizer of the sanitizer, by its index

`css-syntax.ts` once more, with the index into the input and the loops that move it. The loops run
on fuel, as nothing in the source says that they end.

* `consumeEscape`, `consumeIdent`, …, `nextToken`, `tokenizeCss`: from the source;
* `hexLoop_advances`, …, `mainLoop_advances`: **every round of every loop moves the index**;
* `consumeIdent_spec` and the others: each function consumes what `CssSyntax` says;
* `tokenizeCss_eq`: the tokens are those of `CssSyntax`.
-/

namespace FigmaDevMcp.Css.Index

/-! ## The loops -/

section Source

variable (input : JsString)

/-- A backslash with no line break after it. -/
def isValidEscape (offset : ℕ) : Bool :=
  codeAt input offset == some 0x5c && !(codeAt input (offset + 1)).any isNewline

/-- An ident starts at the offset. -/
def startsIdent (offset : ℕ) : Bool :=
  if codeAt input offset = some 0x2d then
    (codeAt input (offset + 1)).any isNameStart || codeAt input (offset + 1) == some 0x2d ||
      isValidEscape input (offset + 1)
  else (codeAt input offset).any isNameStart || isValidEscape input offset

/-- A number starts at the offset. -/
def startsNumber (offset : ℕ) : Bool :=
  if (codeAt input offset).any isDigit then true
  else if codeAt input offset = some 0x2e then (codeAt input (offset + 1)).any isDigit
  else if codeAt input offset = some 0x2b ∨ codeAt input offset = some 0x2d then
    (codeAt input (offset + 1)).any isDigit ||
      (codeAt input (offset + 1) == some 0x2e && (codeAt input (offset + 2)).any isDigit)
  else false

/-- `input[index]`, to add to a value. -/
def unitAt (index : ℕ) : JsString := (codeAt input index).toList

/-- `while (p(codeAt(index))) index += 1` -/
def skipWhile (p : ℕ → Bool) : WhileLoop ℕ ℕ where
  test index := (codeAt input index).any p
  body index := some (.again (index + 1))
  exit := id

/-- The variables of the loop over the digits of an escape. -/
structure HexVars where
  count : ℕ
  hex : JsString
  index : ℕ

/-- Six digits are read at most. -/
def hexLoop : WhileLoop HexVars HexVars where
  test s := decide (s.count < 6) && (codeAt input s.index).any isHex
  body s := some (.again ⟨s.count + 1, s.hex ++ unitAt input s.index, s.index + 1⟩)
  exit := id

/-- The index and the value of a function that consumes. -/
structure Vars where
  index : ℕ
  value : JsString

variable (fuel : ℕ)

/-- The index after white space. -/
def consumeWhitespace (index : ℕ) : Option ℕ := (skipWhile input isWhitespace).run fuel index

/-- The index after digits. -/
def consumeDigits (index : ℕ) : Option ℕ := (skipWhile input isDigit).run fuel index

/-- The units of an escape, and the index after it. -/
def consumeEscape (index : ℕ) : Option Vars :=
  let index := index + 1
  match codeAt input index with
  | none => some ⟨index, [0xfffd]⟩
  | some first =>
    if isHex first then do
      let s ← (hexLoop input).run fuel ⟨0, [], index⟩
      let index := if (codeAt input s.index).any isWhitespace then s.index + 1 else s.index
      let value := parseHex s.hex
      return ⟨index,
        if value = 0 ∨ 0x10ffff < value ∨ (0xd800 ≤ value ∧ value ≤ 0xdfff) then [0xfffd]
        else Utf16.encodeOne value⟩
    else if isNewline first then
      let index :=
        if first = 0x0d ∧ codeAt input (index + 1) = some 0x0a then index + 1 else index
      some ⟨index + 1, []⟩
    else
      let index := index + 1
      some ⟨index, [(codeAt input (index - 1)).getD 0xfffd]⟩

/-- The loop over the units of an ident. -/
def identLoop : WhileLoop Vars Vars where
  test s := s.index < input.length
  body s :=
    if (codeAt input s.index).any isName then
      some (.again ⟨s.index + 1, s.value ++ unitAt input s.index⟩)
    else if isValidEscape input s.index then
      (consumeEscape input fuel s.index).map fun escape =>
        .again ⟨escape.index, s.value ++ escape.value⟩
    else some (.leave s)
  exit := id

/-- An ident, and the index after it. -/
def consumeIdent (index : ℕ) : Option Vars := (identLoop input fuel).run fuel ⟨index, []⟩

/-- The loop over the units of a string. -/
def stringLoop (ending : ℕ) : WhileLoop Vars Vars where
  test s := s.index < input.length
  body s :=
    if codeAt input s.index = some ending then some (.leave ⟨s.index + 1, s.value⟩)
    else if (codeAt input s.index).any isNewline then some (.leave s)
    else if codeAt input s.index = some 0x5c then
      if input.length ≤ s.index + 1 then some (.leave ⟨s.index + 1, s.value⟩)
      else if (codeAt input (s.index + 1)).any isNewline then
        let index :=
          if codeAt input (s.index + 1) = some 0x0d ∧ codeAt input (s.index + 2) = some 0x0a then
            s.index + 1
          else s.index
        some (.again ⟨index + 2, s.value⟩)
      else
        (consumeEscape input fuel s.index).map fun escape =>
          .again ⟨escape.index, s.value ++ escape.value⟩
    else some (.again ⟨s.index + 1, s.value ++ unitAt input s.index⟩)
  exit := id

/-- A string, and the index after it. -/
def consumeString (ending index : ℕ) : Option Vars :=
  (stringLoop input fuel ending).run fuel ⟨index + 1, []⟩

/-- `if (codeAt(index) === RPAREN) index += 1` -/
def skipParen (index : ℕ) : ℕ := if codeAt input index = some 0x29 then index + 1 else index

/-- The loop over the units of a url without quotes. -/
def urlLoop : WhileLoop Vars Vars where
  test s := s.index < input.length
  body s :=
    if codeAt input s.index = some 0x29 then some (.leave ⟨s.index + 1, s.value⟩)
    else if (codeAt input s.index).any isWhitespace then
      (consumeWhitespace input fuel s.index).map fun index => .leave ⟨skipParen input index, s.value⟩
    else if (codeAt input s.index).any fun code =>
        code = 0x22 ∨ code = 0x27 ∨ code = 0x28 ∨ code = 0x7f ∨ code < 0x20 then
      some (.again ⟨s.index + 1, s.value ++ unitAt input s.index⟩)
    else if isValidEscape input s.index then
      (consumeEscape input fuel s.index).map fun escape =>
        .again ⟨escape.index, s.value ++ escape.value⟩
    else some (.again ⟨s.index + 1, s.value ++ unitAt input s.index⟩)
  exit := id

/-- A url with or without quotes, and the index after it. -/
def consumeUrl (index : ℕ) : Option Vars := do
  let index ← consumeWhitespace input fuel index
  match codeAt input index with
  | some next =>
    if isQuote next then
      let string ← consumeString input fuel next index
      let index ← consumeWhitespace input fuel string.index
      return ⟨skipParen input index, string.value⟩
    else (urlLoop input fuel).run fuel ⟨index, []⟩
  | none => (urlLoop input fuel).run fuel ⟨index, []⟩

/-- The index after a sign. -/
def skipSign (index : ℕ) : ℕ :=
  if codeAt input index = some 0x2b ∨ codeAt input index = some 0x2d then index + 1 else index

/-- The index after a fraction. -/
def consumeFraction (index : ℕ) : Option ℕ :=
  if codeAt input index = some 0x2e ∧ (codeAt input (index + 1)).any isDigit then
    consumeDigits input fuel (index + 1)
  else some index

/-- The index after an exponent. -/
def consumeExponent (index : ℕ) : Option ℕ :=
  if (codeAt input index = some 0x45 ∨ codeAt input index = some 0x65) ∧
      ((codeAt input (index + 1)).any isDigit ∨
        (codeAt input (index + 1) = some 0x2b ∨ codeAt input (index + 1) = some 0x2d) ∧
          (codeAt input (index + 2)).any isDigit) then
    consumeDigits input fuel (skipSign input (index + 1))
  else some index

/-- A number, and the index after it. -/
def consumeNumber (index : ℕ) : Option Vars := do
  let start := index
  let index ← consumeDigits input fuel (skipSign input index)
  let index ← consumeFraction input fuel index
  let index ← consumeExponent input fuel index
  return ⟨index, (input.take index).drop start⟩

/-- The loop over the units of a comment. -/
def commentLoop : WhileLoop ℕ ℕ where
  test index := decide (index + 1 < input.length) &&
    !(codeAt input index == some 0x2a && codeAt input (index + 1) == some 0x2f)
  body index := some (.again (index + 1))
  exit := id

/-- A comment, and the index after it. -/
def consumeComment (index : ℕ) : Option Vars := do
  let start := index
  let index ← (commentLoop input).run fuel index
  let value := (input.take index).drop start
  return ⟨if index + 1 < input.length then index + 2 else index, value⟩

/-- What a round of the main loop pushes, and its index. -/
def nextToken (index : ℕ) : Option (CssToken × ℕ) :=
  let code := codeAt input index
  if code = some 0x2f ∧ codeAt input (index + 1) = some 0x2a then
    (consumeComment input fuel (index + 2)).map fun s => (.comment s.value, s.index)
  else if code.any isWhitespace then
    (consumeWhitespace input fuel index).map fun index => (.whitespace, index)
  else if code.any isQuote then
    (consumeString input fuel (code.getD 0) index).map fun s => (.string s.value, s.index)
  else if code = some 0x23 then
    let index := index + 1
    if (codeAt input index).any isName || isValidEscape input index then
      (consumeIdent input fuel index).map fun s => (.hash s.value, s.index)
    else some (.delim [0x23], index)
  else if code = some 0x40 then
    let index := index + 1
    if startsIdent input index then
      (consumeIdent input fuel index).map fun s => (.atKeyword s.value, s.index)
    else some (.delim [0x40], index)
  else if startsIdent input index then do
    let name ← consumeIdent input fuel index
    if codeAt input name.index = some 0x28 then
      let index := name.index + 1
      if isUrlName name.value then
        (consumeUrl input fuel index).map fun s => (.url s.value, s.index)
      else return (.function name.value, index)
    else return (.ident name.value, name.index)
  else if startsNumber input index then
    (consumeNumber input fuel index).map fun s => (.number s.value, s.index)
  else some (.delim (unitAt input index), index + 1)

/-- The variables of the loop over the tokens. -/
structure MainVars where
  index : ℕ
  tokens : List CssToken

/-- One token a round. -/
def mainLoop : WhileLoop MainVars (List CssToken) where
  test s := s.index < input.length
  body s := (nextToken input fuel s.index).map fun (token, index) =>
    .again ⟨index, s.tokens ++ [token]⟩
  exit s := s.tokens

/-- The tokens of a text, given enough fuel. -/
def tokenizeCss : Option (List CssToken) := (mainLoop input fuel).run fuel ⟨0, []⟩

end Source

/-! ## What is left of the input -/

theorem codeAt_drop (input : JsString) (index offset : ℕ) :
    codeAt (input.drop index) offset = codeAt input (index + offset) := List.getElem?_drop

theorem lt_of_codeAt {input : JsString} {index code : ℕ} (h : codeAt input index = some code) :
    index < input.length := (List.getElem?_eq_some_iff.1 h).1

theorem codeAt_eq_none {input : JsString} {index : ℕ} :
    codeAt input index = none ↔ input.length ≤ index := List.getElem?_eq_none_iff

theorem exists_codeAt {input : JsString} {index : ℕ} (h : index < input.length) :
    ∃ code, codeAt input index = some code := ⟨input[index], List.getElem?_eq_getElem h⟩

theorem drop_of_codeAt {input : JsString} {index code : ℕ} (h : codeAt input index = some code) :
    input.drop index = code :: input.drop (index + 1) := by
  obtain ⟨hlt, rfl⟩ := List.getElem?_eq_some_iff.1 h
  exact List.drop_eq_getElem_cons hlt

theorem tail_drop (input : JsString) (index : ℕ) :
    (input.drop index).tail = input.drop (index + 1) := List.tail_drop

theorem isValidEscape_eq (input : JsString) (index : ℕ) :
    Css.isValidEscape (input.drop index) = isValidEscape input index := by
  simp [Css.isValidEscape, isValidEscape, codeAt_drop]

theorem startsIdent_eq (input : JsString) (index : ℕ) :
    Css.startsIdent (input.drop index) = startsIdent input index := by
  simp [Css.startsIdent, startsIdent, codeAt_drop, isValidEscape_eq]

theorem startsNumber_eq (input : JsString) (index : ℕ) :
    Css.startsNumber (input.drop index) = startsNumber input index := by
  simp [Css.startsNumber, startsNumber, codeAt_drop]

/-! ## What the functions consume -/

variable {input : JsString} {fuel : ℕ}

/-- Units that meet a condition, and what comes after them. -/
theorem skipWhile_advances (p : ℕ → Bool) : (skipWhile input p).Advances id input.length where
  returns _ _ _ := ⟨_, rfl⟩
  forward := by
    rintro index _ - htest ⟨⟩
    obtain ⟨code, hcode, -⟩ := (Option.any_eq_true _ _).1 htest
    have hlt := lt_of_codeAt hcode
    exact ⟨Nat.lt_succ_self index, hlt⟩

theorem skipWhile_spec (p : ℕ → Bool) {index : ℕ} (h : index ≤ input.length)
    (hfuel : input.length < fuel) :
    ∃ i, (skipWhile input p).run fuel index = some i ∧ index ≤ i ∧ i ≤ input.length ∧
      (input.drop index).dropWhile p = input.drop i := by
  apply (skipWhile_advances p).exists_run (P := fun index i =>
    index ≤ i ∧ i ≤ input.length ∧ (input.drop index).dropWhile p = input.drop i)
  · intro index hle htest
    refine ⟨Nat.le_refl _, hle, ?_⟩
    show (input.drop index).dropWhile p = input.drop index
    cases hcode : codeAt input index with
    | none =>
        rw [List.drop_eq_nil_of_le (codeAt_eq_none.1 hcode)]
        rfl
    | some code =>
        have hp : p code = false := by simpa [skipWhile, hcode] using htest
        rw [drop_of_codeAt hcode, List.dropWhile_cons_of_neg (by simp [hp])]
  · intro _ _ _ _ hleave
    cases hleave
  · rintro index _ i - htest ⟨⟩ ⟨hle, hi, hdrop⟩
    obtain ⟨code, hcode, hp⟩ := (Option.any_eq_true _ _).1 htest
    refine ⟨by omega, hi, ?_⟩
    rw [drop_of_codeAt hcode, List.dropWhile_cons_of_pos hp, hdrop]
  · exact h
  · exact Nat.lt_of_le_of_lt (Nat.sub_le _ _) hfuel

theorem hexLoop_advances : (hexLoop input).Advances HexVars.index input.length where
  returns _ _ _ := ⟨_, rfl⟩
  forward := by
    rintro s _ - htest ⟨⟩
    rw [hexLoop, Bool.and_eq_true] at htest
    obtain ⟨code, hcode, -⟩ := (Option.any_eq_true _ _).1 htest.2
    have hlt := lt_of_codeAt hcode
    exact ⟨Nat.lt_succ_self s.index, hlt⟩

theorem hexLoop_spec {s : HexVars} (h : s.index ≤ input.length) (hfuel : input.length < fuel) :
    ∃ r, (hexLoop input).run fuel s = some r ∧ s.index ≤ r.index ∧ r.index ≤ input.length ∧
      ∃ hex, r.hex = s.hex ++ hex ∧
        consumeHex (6 - s.count) (input.drop s.index) = (hex, input.drop r.index) := by
  apply hexLoop_advances.exists_run (P := fun s r => s.index ≤ r.index ∧
    r.index ≤ input.length ∧ ∃ hex, r.hex = s.hex ++ hex ∧
      consumeHex (6 - s.count) (input.drop s.index) = (hex, input.drop r.index))
  · intro s hle htest
    refine ⟨Nat.le_refl _, hle, [], (List.append_nil _).symm, ?_⟩
    show consumeHex (6 - s.count) (input.drop s.index) = ([], input.drop s.index)
    simp only [hexLoop, Bool.and_eq_false_iff, decide_eq_false_iff_not] at htest
    rcases htest with hcount | hhex
    · rw [show 6 - s.count = 0 by omega, consumeHex]
      exact nofun
    · cases hcode : codeAt input s.index with
      | none =>
          rw [List.drop_eq_nil_of_le (codeAt_eq_none.1 hcode)]
          cases 6 - s.count <;> rfl
      | some code =>
          rw [hcode, Option.any_some] at hhex
          rw [drop_of_codeAt hcode]
          cases 6 - s.count with
          | zero => rfl
          | succ count => rw [consumeHex, hhex, if_neg Bool.false_ne_true]
  · intro _ _ _ _ hleave
    cases hleave
  · rintro s _ r - htest ⟨⟩ ⟨hle, hr, hex, hvalue, hconsume⟩
    rw [hexLoop, Bool.and_eq_true, decide_eq_true_eq] at htest
    obtain ⟨code, hcode, hhex⟩ := (Option.any_eq_true _ _).1 htest.2
    dsimp only at hle hvalue hconsume
    refine ⟨by omega, hr, code :: hex, ?_, ?_⟩
    · rw [hvalue, unitAt, hcode, List.append_assoc]
      rfl
    · obtain ⟨count, hcount⟩ : ∃ count, 6 - s.count = count + 1 := ⟨5 - s.count, by omega⟩
      rw [show 6 - (s.count + 1) = count by omega] at hconsume
      rw [hcount, drop_of_codeAt hcode, consumeHex, if_pos hhex, hconsume]
  · exact h
  · exact Nat.lt_of_le_of_lt (Nat.sub_le _ _) hfuel

/-- An escape takes its backslash at least, also at the end of the input. -/
theorem consumeEscape_spec {index : ℕ} (h : index < input.length) (hfuel : input.length < fuel) :
    ∃ s, consumeEscape input fuel index = some s ∧ index < s.index ∧ s.index ≤ input.length ∧
      Css.consumeEscape (input.drop index) = (s.value, input.drop s.index) := by
  unfold consumeEscape Css.consumeEscape
  rw [tail_drop]
  dsimp only
  cases hfirst : codeAt input (index + 1) with
  | none =>
      refine ⟨_, rfl, Nat.lt_succ_self _, h, ?_⟩
      rw [List.drop_eq_nil_of_le (codeAt_eq_none.1 hfirst)]
  | some first =>
      have hlt := lt_of_codeAt hfirst
      rw [drop_of_codeAt hfirst]
      dsimp only
      by_cases hhex : isHex first = true
      · rw [if_pos hhex, if_pos hhex]
        obtain ⟨r, hrun, hle, hr, hex, hvalue, hconsume⟩ :=
          hexLoop_spec (s := ⟨0, [], index + 1⟩) h hfuel
        dsimp only [Nat.sub_zero] at hle hvalue hconsume
        rw [drop_of_codeAt hfirst] at hconsume
        rw [List.nil_append] at hvalue
        have hcode : codeAt (input.drop r.index) 0 = codeAt input r.index := codeAt_drop _ _ _
        rw [hrun, hconsume, hcode]
        subst hvalue
        refine ⟨_, rfl, ?_, ?_, ?_⟩
        · dsimp only
          split_ifs <;> omega
        · dsimp only
          split_ifs with hspace
          · obtain ⟨code, hcode, -⟩ := (Option.any_eq_true _ _).1 hspace
            exact lt_of_codeAt hcode
          · exact hr
        · dsimp only
          split_ifs <;> simp only [tail_drop]
      · rw [if_neg hhex, if_neg hhex]
        by_cases hnewline : isNewline first = true
        · rw [if_pos hnewline, if_pos hnewline]
          have hcode : codeAt (input.drop (index + 1 + 1)) 0 = codeAt input (index + 1 + 1) :=
            codeAt_drop _ _ _
          rw [hcode]
          refine ⟨_, rfl, ?_, ?_, ?_⟩
          · dsimp only
            split_ifs <;> omega
          · dsimp only
            split_ifs with hpair
            · exact lt_of_codeAt hpair.2
            · exact hlt
          · dsimp only
            split_ifs
            · rw [tail_drop]
            · rfl
        · rw [if_neg hnewline, if_neg hnewline]
          refine ⟨_, rfl, ?_, hlt, ?_⟩
          · dsimp only
            omega
          · rw [Nat.add_sub_cancel, hfirst]
            rfl

/-- From the variables `s` on a loop consumes what `f` does. -/
structure Consumes (input : JsString) (f : JsString → JsString × JsString) (s r : Vars) : Prop where
  index_le : s.index ≤ r.index
  le_length : r.index ≤ input.length
  value : ∃ v, r.value = s.value ++ v ∧ f (input.drop s.index) = (v, input.drop r.index)

theorem Consumes.leave {f : JsString → JsString × JsString} {s : Vars} {index : ℕ}
    (hle : s.index ≤ index) (hindex : index ≤ input.length)
    (h : f (input.drop s.index) = ([], input.drop index)) : Consumes input f s ⟨index, s.value⟩ :=
  ⟨hle, hindex, [], (List.append_nil _).symm, h⟩

/-- A round takes `v`, and the rest of the loop goes on from there. -/
theorem Consumes.again {f : JsString → JsString × JsString} {s r : Vars} {index : ℕ} {v : JsString}
    (h : Consumes input f ⟨index, s.value ++ v⟩ r) (hle : s.index ≤ index)
    (hf : f (input.drop s.index) =
      (v ++ (f (input.drop index)).1, (f (input.drop index)).2)) : Consumes input f s r := by
  obtain ⟨hindex, hr, w, hvalue, hw⟩ := h
  refine ⟨Nat.le_trans hle hindex, hr, v ++ w, ?_, ?_⟩
  · rw [hvalue, List.append_assoc]
  · rw [hf, hw]

/-- A round takes units that are no part of the value. -/
theorem Consumes.skip {f : JsString → JsString × JsString} {s r : Vars} {index : ℕ}
    (h : Consumes input f ⟨index, s.value⟩ r) (hle : s.index ≤ index)
    (hf : f (input.drop s.index) = f (input.drop index)) : Consumes input f s r := by
  obtain ⟨hindex, hr, v, hvalue, hv⟩ := h
  exact ⟨Nat.le_trans hle hindex, hr, v, hvalue, hf.trans hv⟩

theorem Consumes.of_nil {f : JsString → JsString × JsString} {index : ℕ} {r : Vars}
    (h : Consumes input f ⟨index, []⟩ r) : f (input.drop index) = (r.value, input.drop r.index) := by
  obtain ⟨-, -, v, hvalue, hf⟩ := h
  rw [List.nil_append] at hvalue
  rw [hf, hvalue]

theorem identLoop_advances (hfuel : input.length < fuel) :
    (identLoop input fuel).Advances Vars.index input.length where
  returns := by
    intro s _ htest
    obtain ⟨escape, hescape, -⟩ := consumeEscape_spec (of_decide_eq_true htest) hfuel
    simp only [identLoop, hescape]
    split_ifs <;> exact ⟨_, rfl⟩
  forward := by
    intro s t _ htest hbody
    have hlt : s.index < input.length := of_decide_eq_true htest
    obtain ⟨escape, hescape, hforward, hle, -⟩ := consumeEscape_spec hlt hfuel
    simp only [identLoop, hescape] at hbody
    split_ifs at hbody <;> cases hbody
    · exact ⟨Nat.lt_succ_self _, hlt⟩
    · exact ⟨hforward, hle⟩

theorem identLoop_leavesWithin (hfuel : input.length < fuel) :
    (identLoop input fuel).LeavesWithin Vars.index input.length := by
  intro s t hle htest hbody
  obtain ⟨escape, hescape, -⟩ := consumeEscape_spec (of_decide_eq_true htest) hfuel
  simp only [identLoop, hescape] at hbody
  split_ifs at hbody <;> cases hbody
  exact ⟨Nat.le_refl _, hle⟩

theorem identLoop_spec {s : Vars} (h : s.index ≤ input.length) (hfuel : input.length < fuel) :
    ∃ r, (identLoop input fuel).run fuel s = some r ∧ Consumes input Css.consumeIdent s r := by
  apply (identLoop_advances hfuel).exists_run (P := Consumes input Css.consumeIdent)
  · intro s hle htest
    have hend : input.length ≤ s.index := Nat.le_of_not_lt (of_decide_eq_false htest)
    apply Consumes.leave (Nat.le_refl _) hle
    rw [List.drop_eq_nil_of_le hend, Css.consumeIdent]
  · intro s r hle htest hbody
    obtain ⟨code, hcode⟩ := exists_codeAt (of_decide_eq_true htest)
    obtain ⟨escape, hescape, -⟩ := consumeEscape_spec (of_decide_eq_true htest) hfuel
    simp only [identLoop, hescape, hcode, Option.any_some] at hbody
    split_ifs at hbody with hname hvalid <;> cases hbody
    apply Consumes.leave (Nat.le_refl _) hle
    rw [← isValidEscape_eq, drop_of_codeAt hcode] at hvalid
    rw [drop_of_codeAt hcode, Css.consumeIdent, if_neg hname, if_neg hvalid]
  · intro s t r hle htest hbody hpost
    obtain ⟨code, hcode⟩ := exists_codeAt (of_decide_eq_true htest)
    obtain ⟨escape, hescape, hforward, -, hvalue⟩ :=
      consumeEscape_spec (of_decide_eq_true htest) hfuel
    simp only [identLoop, hescape, hcode, Option.any_some] at hbody
    split_ifs at hbody with hname hvalid <;> cases hbody
    · apply hpost.again (Nat.le_succ _)
      rw [drop_of_codeAt hcode, Css.consumeIdent, if_pos hname, unitAt, hcode]
      rfl
    · apply hpost.again (Nat.le_of_lt hforward)
      rw [← isValidEscape_eq, drop_of_codeAt hcode] at hvalid
      rw [drop_of_codeAt hcode] at hvalue ⊢
      rw [Css.consumeIdent, if_neg hname, if_pos hvalid, hvalue]
  · exact h
  · exact Nat.lt_of_le_of_lt (Nat.sub_le _ _) hfuel

theorem stringLoop_advances (ending : ℕ) (hfuel : input.length < fuel) :
    (stringLoop input fuel ending).Advances Vars.index input.length where
  returns := by
    intro s _ htest
    obtain ⟨escape, hescape, -⟩ := consumeEscape_spec (of_decide_eq_true htest) hfuel
    simp only [stringLoop, hescape]
    split_ifs <;> exact ⟨_, rfl⟩
  forward := by
    intro s t _ htest hbody
    have hlt : s.index < input.length := of_decide_eq_true htest
    obtain ⟨escape, hescape, hforward, hle, -⟩ := consumeEscape_spec hlt hfuel
    simp only [stringLoop, hescape] at hbody
    split_ifs at hbody with hending hnewline hback hlast hbreak hpair <;> cases hbody
    · have := lt_of_codeAt hpair.2
      constructor <;> dsimp only <;> omega
    · constructor <;> dsimp only <;> omega
    · exact ⟨hforward, hle⟩
    · exact ⟨Nat.lt_succ_self _, hlt⟩

theorem stringLoop_leavesWithin (ending : ℕ) (hfuel : input.length < fuel) :
    (stringLoop input fuel ending).LeavesWithin Vars.index input.length := by
  intro s t hle htest hbody
  have hlt : s.index < input.length := of_decide_eq_true htest
  obtain ⟨escape, hescape, -⟩ := consumeEscape_spec hlt hfuel
  simp only [stringLoop, hescape] at hbody
  split_ifs at hbody <;> cases hbody
  · exact ⟨Nat.le_succ _, hlt⟩
  · exact ⟨Nat.le_refl _, hle⟩
  · exact ⟨Nat.le_succ _, hlt⟩

/-- An escaped line break, of one unit or of two. -/
theorem consumeStringLoop_newline {ending index : ℕ} (hcode : codeAt input index = some 0x5c)
    (hending : 0x5c ≠ ending) (hnewline : (codeAt input (index + 1)).any isNewline) :
    Css.consumeStringLoop ending (input.drop index) =
      Css.consumeStringLoop ending (input.drop
        ((if codeAt input (index + 1) = some 0x0d ∧ codeAt input (index + 2) = some 0x0a then
          index + 1 else index) + 2)) := by
  obtain ⟨next, hnext, hbreak⟩ := (Option.any_eq_true _ _).1 hnewline
  have hafter : codeAt (input.drop (index + 2)) 0 = codeAt input (index + 2) := codeAt_drop _ _ _
  rw [drop_of_codeAt hcode, drop_of_codeAt hnext, Css.consumeStringLoop, if_neg hending,
    if_neg (by decide), if_pos rfl]
  dsimp only
  rw [if_pos hbreak, show index + 1 + 1 = index + 2 from rfl, hafter, hnext]
  simp only [Option.some.injEq]
  split_ifs
  · rw [tail_drop, show index + 1 + 2 = index + 2 + 1 from rfl]
  · rfl

theorem stringLoop_spec (ending : ℕ) {s : Vars} (h : s.index ≤ input.length)
    (hfuel : input.length < fuel) :
    ∃ r, (stringLoop input fuel ending).run fuel s = some r ∧
      Consumes input (Css.consumeStringLoop ending) s r := by
  apply (stringLoop_advances ending hfuel).exists_run
    (P := Consumes input (Css.consumeStringLoop ending))
  · intro s hle htest
    have hend : input.length ≤ s.index := Nat.le_of_not_lt (of_decide_eq_false htest)
    apply Consumes.leave (Nat.le_refl _) hle
    rw [List.drop_eq_nil_of_le hend, Css.consumeStringLoop]
  · intro s r hle htest hbody
    have hlt : s.index < input.length := of_decide_eq_true htest
    obtain ⟨code, hcode⟩ := exists_codeAt hlt
    obtain ⟨escape, hescape, -⟩ := consumeEscape_spec hlt hfuel
    simp only [stringLoop, hescape, hcode, Option.any_some, Option.some.injEq] at hbody
    split_ifs at hbody with hending hnewline hback hlast hbreak <;> cases hbody
    · apply Consumes.leave (Nat.le_succ _) hlt
      rw [drop_of_codeAt hcode, Css.consumeStringLoop.eq_def]
      dsimp only
      rw [if_pos hending]
    · apply Consumes.leave (Nat.le_refl _) hle
      rw [drop_of_codeAt hcode, Css.consumeStringLoop.eq_def]
      dsimp only
      rw [if_neg hending, if_pos hnewline]
    · apply Consumes.leave (Nat.le_succ _) hlt
      rw [drop_of_codeAt hcode, List.drop_eq_nil_of_le hlast, Css.consumeStringLoop,
        if_neg hending, if_neg hnewline, if_pos hback]
  · intro s t r hle htest hbody hpost
    have hlt : s.index < input.length := of_decide_eq_true htest
    obtain ⟨code, hcode⟩ := exists_codeAt hlt
    obtain ⟨escape, hescape, hforward, -, hvalue⟩ := consumeEscape_spec hlt hfuel
    simp only [stringLoop, hescape, hcode, Option.any_some, Option.some.injEq] at hbody
    split_ifs at hbody with hending hnewline hback hlast hbreak hpair <;> cases hbody
    · subst hback
      have hmore := consumeStringLoop_newline hcode hending hbreak
      rw [if_pos hpair] at hmore
      exact hpost.skip (by omega) hmore
    · subst hback
      have hmore := consumeStringLoop_newline hcode hending hbreak
      rw [if_neg hpair] at hmore
      exact hpost.skip (Nat.le_add_right _ _) hmore
    · subst hback
      obtain ⟨next, hnext⟩ := exists_codeAt (Nat.lt_of_not_le hlast)
      rw [hnext, Option.any_some] at hbreak
      rw [drop_of_codeAt hcode, drop_of_codeAt hnext] at hvalue
      apply hpost.again (Nat.le_of_lt hforward)
      rw [drop_of_codeAt hcode, drop_of_codeAt hnext, Css.consumeStringLoop, if_neg hending,
        if_neg hnewline, if_pos rfl]
      dsimp only
      rw [if_neg hbreak, hvalue]
    · apply hpost.again (Nat.le_succ _)
      rw [drop_of_codeAt hcode, Css.consumeStringLoop.eq_def]
      dsimp only
      rw [if_neg hending, if_neg hnewline, if_neg hback, unitAt, hcode]
      rfl
  · exact h
  · exact Nat.lt_of_le_of_lt (Nat.sub_le _ _) hfuel

theorem consumeWhitespace_spec {index : ℕ} (h : index ≤ input.length)
    (hfuel : input.length < fuel) :
    ∃ i, consumeWhitespace input fuel index = some i ∧ index ≤ i ∧ i ≤ input.length ∧
      Css.consumeWhitespace (input.drop index) = input.drop i := skipWhile_spec isWhitespace h hfuel

theorem le_skipParen (input : JsString) (index : ℕ) : index ≤ skipParen input index := by
  unfold skipParen
  split_ifs <;> omega

theorem skipParen_le {index : ℕ} (h : index ≤ input.length) :
    skipParen input index ≤ input.length := by
  unfold skipParen
  split_ifs with hparen
  · exact lt_of_codeAt hparen
  · exact h

theorem skipParen_eq (input : JsString) (index : ℕ) :
    Css.skipParen (input.drop index) = input.drop (skipParen input index) := by
  rw [Css.skipParen, skipParen, codeAt_drop, Nat.add_zero]
  split_ifs <;> simp only [tail_drop]

theorem urlLoop_advances (hfuel : input.length < fuel) :
    (urlLoop input fuel).Advances Vars.index input.length where
  returns := by
    intro s hle htest
    obtain ⟨escape, hescape, -⟩ := consumeEscape_spec (of_decide_eq_true htest) hfuel
    obtain ⟨i, hi, -⟩ := consumeWhitespace_spec hle hfuel
    simp only [urlLoop, hescape, hi]
    split_ifs <;> exact ⟨_, rfl⟩
  forward := by
    intro s t hle htest hbody
    have hlt : s.index < input.length := of_decide_eq_true htest
    obtain ⟨escape, hescape, hforward, hescapele, -⟩ := consumeEscape_spec hlt hfuel
    obtain ⟨i, hi, -⟩ := consumeWhitespace_spec hle hfuel
    simp only [urlLoop, hescape, hi] at hbody
    split_ifs at hbody <;> cases hbody
    · exact ⟨Nat.lt_succ_self _, hlt⟩
    · exact ⟨hforward, hescapele⟩
    · exact ⟨Nat.lt_succ_self _, hlt⟩

theorem urlLoop_leavesWithin (hfuel : input.length < fuel) :
    (urlLoop input fuel).LeavesWithin Vars.index input.length := by
  intro s t hle htest hbody
  have hlt : s.index < input.length := of_decide_eq_true htest
  obtain ⟨escape, hescape, -⟩ := consumeEscape_spec hlt hfuel
  obtain ⟨i, hi, hindex, hilen, -⟩ := consumeWhitespace_spec hle hfuel
  simp only [urlLoop, hescape, hi] at hbody
  split_ifs at hbody <;> cases hbody
  · exact ⟨Nat.le_succ _, hlt⟩
  · exact ⟨Nat.le_trans hindex (le_skipParen input i), skipParen_le hilen⟩

theorem urlLoop_spec {s : Vars} (h : s.index ≤ input.length) (hfuel : input.length < fuel) :
    ∃ r, (urlLoop input fuel).run fuel s = some r ∧ Consumes input Css.consumeUrlLoop s r := by
  apply (urlLoop_advances hfuel).exists_run (P := Consumes input Css.consumeUrlLoop)
  · intro s hle htest
    have hend : input.length ≤ s.index := Nat.le_of_not_lt (of_decide_eq_false htest)
    apply Consumes.leave (Nat.le_refl _) hle
    rw [List.drop_eq_nil_of_le hend, Css.consumeUrlLoop]
  · intro s r hle htest hbody
    have hlt : s.index < input.length := of_decide_eq_true htest
    obtain ⟨code, hcode⟩ := exists_codeAt hlt
    obtain ⟨escape, hescape, -⟩ := consumeEscape_spec hlt hfuel
    obtain ⟨i, hi, hindex, hilen, hwhite⟩ := consumeWhitespace_spec hle hfuel
    simp only [urlLoop, hescape, hi, hcode, Option.any_some, Option.some.injEq] at hbody
    split_ifs at hbody with hparen hspace hplain hvalid <;> cases hbody
    · apply Consumes.leave (Nat.le_succ _) hlt
      rw [drop_of_codeAt hcode, Css.consumeUrlLoop, if_pos hparen]
    · apply Consumes.leave (Nat.le_trans hindex (le_skipParen input i)) (skipParen_le hilen)
      rw [drop_of_codeAt hcode] at hwhite ⊢
      rw [Css.consumeUrlLoop, if_neg hparen, if_pos hspace, hwhite, skipParen_eq]
  · intro s t r hle htest hbody hpost
    have hlt : s.index < input.length := of_decide_eq_true htest
    obtain ⟨code, hcode⟩ := exists_codeAt hlt
    obtain ⟨escape, hescape, hforward, -, hvalue⟩ := consumeEscape_spec hlt hfuel
    obtain ⟨i, hi, -⟩ := consumeWhitespace_spec hle hfuel
    simp only [urlLoop, hescape, hi, hcode, Option.any_some, Option.some.injEq,
      decide_eq_true_eq] at hbody
    split_ifs at hbody with hparen hspace hplain hvalid <;> cases hbody
    · apply hpost.again (Nat.le_succ _)
      rw [drop_of_codeAt hcode, Css.consumeUrlLoop, if_neg hparen, if_neg hspace, if_pos hplain,
        unitAt, hcode]
      rfl
    · apply hpost.again (Nat.le_of_lt hforward)
      rw [← isValidEscape_eq, drop_of_codeAt hcode] at hvalid
      rw [drop_of_codeAt hcode] at hvalue ⊢
      rw [Css.consumeUrlLoop, if_neg hparen, if_neg hspace, if_neg hplain, if_pos hvalid, hvalue]
    · apply hpost.again (Nat.le_succ _)
      rw [← isValidEscape_eq, drop_of_codeAt hcode] at hvalid
      rw [drop_of_codeAt hcode, Css.consumeUrlLoop, if_neg hparen, if_neg hspace, if_neg hplain,
        if_neg hvalid, unitAt, hcode]
      rfl
  · exact h
  · exact Nat.lt_of_le_of_lt (Nat.sub_le _ _) hfuel

/-- A function takes from `index` on what `f` does. -/
def Takes (input : JsString) (f : JsString → JsString × JsString) (index : ℕ)
    (result : Option Vars) : Prop :=
  ∃ s, result = some s ∧ index ≤ s.index ∧ s.index ≤ input.length ∧
    f (input.drop index) = (s.value, input.drop s.index)

theorem consumeIdent_spec {index : ℕ} (h : index ≤ input.length) (hfuel : input.length < fuel) :
    Takes input Css.consumeIdent index (consumeIdent input fuel index) := by
  obtain ⟨r, hrun, hr⟩ := identLoop_spec (s := ⟨index, []⟩) h hfuel
  exact ⟨r, hrun, hr.index_le, hr.le_length, hr.of_nil⟩

theorem consumeString_spec (ending : ℕ) {index : ℕ} (h : index < input.length)
    (hfuel : input.length < fuel) :
    Takes input (Css.consumeString ending) index (consumeString input fuel ending index) := by
  obtain ⟨r, hrun, hr⟩ := stringLoop_spec ending (s := ⟨index + 1, []⟩) h hfuel
  refine ⟨r, hrun, Nat.le_of_lt hr.index_le, hr.le_length, ?_⟩
  rw [Css.consumeString, tail_drop]
  exact hr.of_nil

theorem consumeUrl_spec {index : ℕ} (h : index ≤ input.length) (hfuel : input.length < fuel) :
    Takes input Css.consumeUrl index (consumeUrl input fuel index) := by
  obtain ⟨i, hi, hindex, hilen, hwhite⟩ := consumeWhitespace_spec h hfuel
  obtain ⟨r, hrun, hr⟩ := urlLoop_spec (s := ⟨i, []⟩) hilen hfuel
  have hurl := hr.of_nil
  have hr' := hr.index_le
  dsimp only at hr'
  unfold Takes consumeUrl Css.consumeUrl
  rw [hi, hwhite]
  cases hnext : codeAt input i with
  | none =>
      rw [List.drop_eq_nil_of_le (codeAt_eq_none.1 hnext)] at hurl ⊢
      refine ⟨r, ?_, by omega, hr.le_length, hurl⟩
      simp [hnext, hrun]
  | some next =>
      rw [drop_of_codeAt hnext] at hurl ⊢
      dsimp only
      by_cases hquote : isQuote next = true
      · obtain ⟨string, hstring, hle, hlen, hvalue⟩ :=
          consumeString_spec next (lt_of_codeAt hnext) hfuel
        obtain ⟨j, hj, hjle, hjlen, hwhite⟩ := consumeWhitespace_spec hlen hfuel
        rw [drop_of_codeAt hnext] at hvalue
        rw [if_pos hquote, hvalue]
        refine ⟨⟨skipParen input j, string.value⟩, ?_, ?_, skipParen_le hjlen, ?_⟩
        · simp [hnext, hquote, hstring, hj]
        · have := le_skipParen input j
          dsimp only
          omega
        · dsimp only
          rw [hwhite, skipParen_eq]
      · rw [if_neg hquote]
        refine ⟨r, ?_, by omega, hr.le_length, hurl⟩
        simp [hnext, hquote, hrun]

theorem skipSign_le {index : ℕ} (h : index ≤ input.length) :
    skipSign input index ≤ input.length := by
  unfold skipSign
  split_ifs with hsign
  · rcases hsign with hsign | hsign <;> exact lt_of_codeAt hsign
  · exact h

theorem le_skipSign (input : JsString) (index : ℕ) : index ≤ skipSign input index := by
  unfold skipSign
  split_ifs <;> omega

theorem skipSign_eq (input : JsString) (index : ℕ) :
    consumeSign (input.drop index) = input.drop (skipSign input index) := by
  rw [consumeSign, skipSign, codeAt_drop, Nat.add_zero]
  split_ifs <;> simp only [tail_drop]

theorem consumeDigits_spec {index : ℕ} (h : index ≤ input.length) (hfuel : input.length < fuel) :
    ∃ i, consumeDigits input fuel index = some i ∧ index ≤ i ∧ i ≤ input.length ∧
      Css.consumeDigits (input.drop index) = input.drop i := skipWhile_spec isDigit h hfuel

theorem consumeFraction_spec {index : ℕ} (h : index ≤ input.length) (hfuel : input.length < fuel) :
    ∃ i, consumeFraction input fuel index = some i ∧ index ≤ i ∧ i ≤ input.length ∧
      Css.consumeFraction (input.drop index) = input.drop i := by
  unfold consumeFraction Css.consumeFraction
  simp only [codeAt_drop, tail_drop, Nat.add_zero]
  split_ifs with hpoint
  · obtain ⟨i, hi, hle, hlen, hdigits⟩ := consumeDigits_spec (lt_of_codeAt hpoint.1) hfuel
    exact ⟨i, hi, by omega, hlen, hdigits⟩
  · exact ⟨index, rfl, Nat.le_refl _, h, rfl⟩

theorem consumeExponent_spec {index : ℕ} (h : index ≤ input.length) (hfuel : input.length < fuel) :
    ∃ i, consumeExponent input fuel index = some i ∧ index ≤ i ∧ i ≤ input.length ∧
      Css.consumeExponent (input.drop index) = input.drop i := by
  unfold consumeExponent Css.consumeExponent
  simp only [codeAt_drop, tail_drop, Nat.add_zero, skipSign_eq]
  split_ifs with hletter
  · have hlt : index < input.length := by
      rcases hletter.1 with hletter | hletter <;> exact lt_of_codeAt hletter
    have hafter : index + 1 ≤ input.length := hlt
    obtain ⟨i, hi, hle, hlen, hdigits⟩ := consumeDigits_spec (skipSign_le hafter) hfuel
    have := le_skipSign input (index + 1)
    exact ⟨i, hi, by omega, hlen, hdigits⟩
  · exact ⟨index, rfl, Nat.le_refl _, h, rfl⟩

/-- `input.slice(start, index)` -/
theorem take_drop_eq {start index : ℕ} (hle : start ≤ index) (hindex : index ≤ input.length) :
    (input.drop start).take ((input.drop start).length - (input.drop index).length) =
      (input.take index).drop start := by
  rw [List.drop_take, List.length_drop, List.length_drop]
  congr 1
  omega

theorem consumeNumber_spec {index : ℕ} (h : index ≤ input.length) (hfuel : input.length < fuel) :
    Takes input Css.consumeNumber index (consumeNumber input fuel index) := by
  obtain ⟨i, hi, hile, hilen, hdigits⟩ := consumeDigits_spec (skipSign_le h) hfuel
  obtain ⟨j, hj, hjle, hjlen, hfraction⟩ := consumeFraction_spec hilen hfuel
  obtain ⟨k, hk, hkle, hklen, hexponent⟩ := consumeExponent_spec hjlen hfuel
  have hsign := le_skipSign input index
  have hafter : afterNumber (input.drop index) = input.drop k := by
    rw [afterNumber, skipSign_eq, hdigits, hfraction, hexponent]
  have hle : index ≤ k := by omega
  refine ⟨⟨k, (input.take k).drop index⟩, ?_, hle, hklen, ?_⟩
  · simp [consumeNumber, hi, hj, hk]
  · rw [Css.consumeNumber, hafter, take_drop_eq hle hklen]

theorem commentLoop_advances : (commentLoop input).Advances id input.length where
  returns _ _ _ := ⟨_, rfl⟩
  forward := by
    rintro index _ - htest ⟨⟩
    rw [commentLoop, Bool.and_eq_true, decide_eq_true_eq] at htest
    have hlt := htest.1
    constructor <;> simp only [id] <;> omega

theorem commentLoop_spec {index : ℕ} (h : index ≤ input.length) (hfuel : input.length < fuel) :
    ∃ i, (commentLoop input).run fuel index = some i ∧ index ≤ i ∧ i ≤ input.length ∧
      Css.consumeComment (input.drop index) = ((input.take i).drop index, input.drop i) := by
  apply commentLoop_advances.exists_run (P := fun index i => index ≤ i ∧ i ≤ input.length ∧
    Css.consumeComment (input.drop index) = ((input.take i).drop index, input.drop i))
  · intro index hle htest
    refine ⟨Nat.le_refl _, hle, ?_⟩
    have hnil : (input.take index).drop index = [] :=
      List.drop_eq_nil_of_le (List.length_take_le index input)
    show Css.consumeComment (input.drop index) =
      ((input.take index).drop index, input.drop index)
    rw [hnil]
    simp only [commentLoop, Bool.and_eq_false_iff, decide_eq_false_iff_not, Bool.not_eq_false',
      Bool.and_eq_true, beq_iff_eq] at htest
    rcases htest with hend | ⟨hstar, hslash⟩
    · match hrest : input.drop index with
      | [] => rw [Css.consumeComment]; exact nofun
      | [code] => rw [Css.consumeComment]; exact nofun
      | code :: next :: rest =>
          have := congrArg List.length hrest
          simp only [List.length_drop, List.length_cons] at this
          omega
    · rw [drop_of_codeAt hstar, drop_of_codeAt hslash, Css.consumeComment, if_pos ⟨rfl, rfl⟩]
  · intro _ _ _ _ hleave
    cases hleave
  · rintro index _ i - htest ⟨⟩ ⟨hle, hi, hcomment⟩
    rw [commentLoop, Bool.and_eq_true, decide_eq_true_eq] at htest
    obtain ⟨hlt, hmark⟩ := htest
    obtain ⟨code, hcode⟩ := exists_codeAt (Nat.lt_of_succ_lt hlt)
    obtain ⟨next, hnext⟩ := exists_codeAt hlt
    have hne : ¬ (code = 0x2a ∧ next = 0x2f) := by
      simpa [hcode, hnext, imp_iff_not_or] using hmark
    have htake : codeAt (input.take i) index = some code := by
      rw [← hcode]
      exact List.getElem?_take_of_lt hle
    refine ⟨by omega, hi, ?_⟩
    rw [drop_of_codeAt hnext] at hcomment
    rw [drop_of_codeAt hcode, drop_of_codeAt hnext, Css.consumeComment, if_neg hne, hcomment,
      drop_of_codeAt htake]
  · exact h
  · exact Nat.lt_of_le_of_lt (Nat.sub_le _ _) hfuel

theorem consumeComment_spec {index : ℕ} (h : index ≤ input.length) (hfuel : input.length < fuel) :
    Takes input (fun rest => ((Css.consumeComment rest).1, skipEndMark (Css.consumeComment rest).2))
      index (consumeComment input fuel index) := by
  obtain ⟨i, hi, hle, hlen, hcomment⟩ := commentLoop_spec h hfuel
  have hmark : skipEndMark (input.drop i) =
      input.drop (if i + 1 < input.length then i + 2 else i) := by
    split_ifs with hlt
    · obtain ⟨code, hcode⟩ := exists_codeAt (Nat.lt_of_succ_lt hlt)
      obtain ⟨next, hnext⟩ := exists_codeAt hlt
      rw [drop_of_codeAt hcode, drop_of_codeAt hnext]
      rfl
    · match hrest : input.drop i with
      | [] => rfl
      | [code] => rfl
      | code :: next :: rest =>
          have := congrArg List.length hrest
          simp only [List.length_drop, List.length_cons] at this
          omega
  refine ⟨⟨if i + 1 < input.length then i + 2 else i, (input.take i).drop index⟩, ?_, ?_, ?_, ?_⟩
  · simp [consumeComment, hi]
  · dsimp only
    split_ifs <;> omega
  · dsimp only
    split_ifs <;> omega
  · dsimp only
    rw [hcomment, hmark]

/-- A function that takes a token takes it up to where the token ends. -/
theorem Takes.token {f : JsString → JsString × JsString} {index : ℕ} {result : Option Vars}
    (h : Takes input f index result) (token : JsString → CssToken) :
    ∃ t i, (result.map fun s => (token s.value, s.index)) = some (t, i) ∧ i ≤ input.length ∧
      (token (f (input.drop index)).1, (f (input.drop index)).2) = (t, input.drop i) := by
  obtain ⟨s, rfl, -, hlen, hf⟩ := h
  exact ⟨token s.value, s.index, rfl, hlen, by rw [hf]⟩

/-- What a round pushes is the token of `CssSyntax`, and the index is where that ends. -/
theorem nextToken_eq {index code : ℕ} (hcode : codeAt input index = some code)
    (hfuel : input.length < fuel) :
    ∃ token i, nextToken input fuel index = some (token, i) ∧ i ≤ input.length ∧
      Css.nextToken code (input.drop (index + 1)) = (token, input.drop i) := by
  have hlt := lt_of_codeAt hcode
  have hle := Nat.le_of_lt hlt
  have hafter : codeAt (input.drop (index + 1)) 0 = codeAt input (index + 1) := codeAt_drop _ _ _
  unfold nextToken Css.nextToken
  rw [← drop_of_codeAt hcode, hafter, isValidEscape_eq, startsIdent_eq, startsIdent_eq,
    startsNumber_eq, tail_drop, hcode]
  simp only [Option.some.injEq, Option.any_some, Option.getD_some]
  by_cases hcomment : code = 0x2f ∧ codeAt input (index + 1) = some 0x2a
  · rw [if_pos hcomment, if_pos hcomment]
    exact (consumeComment_spec (lt_of_codeAt hcomment.2) hfuel).token CssToken.comment
  rw [if_neg hcomment, if_neg hcomment]
  by_cases hspace : isWhitespace code = true
  · rw [if_pos hspace, if_pos hspace]
    obtain ⟨i, hi, -, hlen, hwhite⟩ := consumeWhitespace_spec hle hfuel
    exact ⟨.whitespace, i, by rw [hi]; rfl, hlen, by rw [hwhite]⟩
  rw [if_neg hspace, if_neg hspace]
  by_cases hquote : isQuote code = true
  · rw [if_pos hquote, if_pos hquote]
    exact (consumeString_spec code hlt hfuel).token CssToken.string
  rw [if_neg hquote, if_neg hquote]
  by_cases hhash : code = 0x23
  · rw [if_pos hhash, if_pos hhash]
    split_ifs
    · exact (consumeIdent_spec hlt hfuel).token CssToken.hash
    · exact ⟨_, _, rfl, hlt, by rw [hhash]⟩
  rw [if_neg hhash, if_neg hhash]
  by_cases hat : code = 0x40
  · rw [if_pos hat, if_pos hat]
    split_ifs
    · exact (consumeIdent_spec hlt hfuel).token CssToken.atKeyword
    · exact ⟨_, _, rfl, hlt, by rw [hat]⟩
  rw [if_neg hat, if_neg hat]
  by_cases hstart : startsIdent input index = true
  · rw [if_pos hstart, if_pos hstart]
    obtain ⟨name, hname, -, hlen, hvalue⟩ := consumeIdent_spec hle hfuel
    have hparen : codeAt (input.drop name.index) 0 = codeAt input name.index := codeAt_drop _ _ _
    rw [hname, hvalue, hparen, tail_drop]
    show ∃ token i, (if codeAt input name.index = some 0x28 then _ else _) = some (token, i) ∧ _
    split_ifs with hcall hurl
    · exact (consumeUrl_spec (lt_of_codeAt hcall) hfuel).token CssToken.url
    · exact ⟨_, _, rfl, lt_of_codeAt hcall, rfl⟩
    · exact ⟨_, _, rfl, hlen, rfl⟩
  rw [if_neg hstart, if_neg hstart]
  by_cases hnumber : startsNumber input index = true
  · rw [if_pos hnumber, if_pos hnumber]
    exact (consumeNumber_spec hle hfuel).token CssToken.number
  rw [if_neg hnumber, if_neg hnumber, unitAt, hcode]
  exact ⟨_, _, rfl, hlt, rfl⟩

/-! ## The main loop -/

theorem nextToken_spec {index : ℕ} (h : index < input.length) (hfuel : input.length < fuel) :
    ∃ token i, nextToken input fuel index = some (token, i) ∧ index < i ∧ i ≤ input.length ∧
      FigmaDevMcp.tokenizeCss (input.drop index) =
        token :: FigmaDevMcp.tokenizeCss (input.drop i) := by
  obtain ⟨code, hcode⟩ := exists_codeAt h
  obtain ⟨token, i, hnext, hlen, htoken⟩ := nextToken_eq hcode hfuel
  have hlt := nextToken_lt code (input.drop (index + 1))
  rw [htoken, List.length_cons, List.length_drop, List.length_drop] at hlt
  refine ⟨token, i, hnext, by omega, hlen, ?_⟩
  rw [drop_of_codeAt hcode, FigmaDevMcp.tokenizeCss, htoken]

/-- **Every round of the main loop moves the index**, and none leaves the loop. -/
theorem mainLoop_advances (hfuel : input.length < fuel) :
    (mainLoop input fuel).Advances MainVars.index input.length ∧
      (mainLoop input fuel).NeverLeaves := by
  refine ⟨⟨?_, ?_⟩, ?_⟩
  · intro s _ htest
    obtain ⟨token, i, hnext, -⟩ := nextToken_spec (of_decide_eq_true htest) hfuel
    exact ⟨_, congrArg (Option.map _) hnext⟩
  · intro s t _ htest hbody
    obtain ⟨token, i, hnext, hlt, hlen, -⟩ := nextToken_spec (of_decide_eq_true htest) hfuel
    simp only [mainLoop, hnext, Option.map_some, Option.some.injEq, WhileLoop.Round.again.injEq]
      at hbody
    subst hbody
    exact ⟨hlt, hlen⟩
  · intro s r hbody
    simp only [mainLoop, Option.map_eq_some_iff] at hbody
    obtain ⟨_, -, hleave⟩ := hbody
    cases hleave

/-- **The tokenizer ends**, with the tokens of `CssSyntax`. -/
theorem tokenizeCss_eq (hfuel : input.length < fuel) :
    tokenizeCss input fuel = some (FigmaDevMcp.tokenizeCss input) := by
  have hrun : ∃ tokens, (mainLoop input fuel).run fuel ⟨0, []⟩ = some tokens ∧
      tokens = [] ++ FigmaDevMcp.tokenizeCss (input.drop 0) := by
    apply (mainLoop_advances hfuel).1.exists_run (P := fun s tokens =>
      tokens = s.tokens ++ FigmaDevMcp.tokenizeCss (input.drop s.index))
    · intro s _ htest
      have hend : input.length ≤ s.index := Nat.le_of_not_lt (of_decide_eq_false htest)
      rw [List.drop_eq_nil_of_le hend, FigmaDevMcp.tokenizeCss, List.append_nil]
      rfl
    · intro s r _ _ hbody
      exact absurd hbody ((mainLoop_advances hfuel).2 s r)
    · intro s t r _ htest hbody hpost
      obtain ⟨token, i, hnext, -, -, htoken⟩ := nextToken_spec (of_decide_eq_true htest) hfuel
      simp only [mainLoop, hnext, Option.map_some, Option.some.injEq,
        WhileLoop.Round.again.injEq] at hbody
      subst hbody
      rw [hpost, htoken, List.append_assoc]
      rfl
    · exact Nat.zero_le _
    · exact Nat.lt_of_le_of_lt (Nat.sub_le _ _) hfuel
  obtain ⟨tokens, hrun, rfl⟩ := hrun
  rw [tokenizeCss, hrun, List.nil_append, List.drop_zero]

/-- **The tokenizer ends on every text.** Each round of the main loop moves the index on, within
the text, so that no two rounds start at one place; each round of the loops of the functions does
too, unless it leaves the loop, and then the index is within the text. -/
theorem tokenizeCss_terminates (input : JsString) (fuel : ℕ) (hfuel : input.length < fuel) :
    tokenizeCss input fuel = some (FigmaDevMcp.tokenizeCss input) ∧
    ((mainLoop input fuel).Advances MainVars.index input.length ∧
      (mainLoop input fuel).NeverLeaves ∧
      ((mainLoop input fuel).rounds fuel ⟨0, []⟩).Pairwise fun s t => s.index < t.index) ∧
    ((hexLoop input).Advances HexVars.index input.length ∧ (hexLoop input).NeverLeaves) ∧
    (∀ p, (skipWhile input p).Advances id input.length ∧ (skipWhile input p).NeverLeaves) ∧
    ((commentLoop input).Advances id input.length ∧ (commentLoop input).NeverLeaves) ∧
    ((identLoop input fuel).Advances Vars.index input.length ∧
      (identLoop input fuel).LeavesWithin Vars.index input.length) ∧
    (∀ ending, (stringLoop input fuel ending).Advances Vars.index input.length ∧
      (stringLoop input fuel ending).LeavesWithin Vars.index input.length) ∧
    (urlLoop input fuel).Advances Vars.index input.length ∧
      (urlLoop input fuel).LeavesWithin Vars.index input.length := by
  have hmain := mainLoop_advances hfuel
  refine ⟨tokenizeCss_eq hfuel, ⟨hmain.1, hmain.2, ?_⟩, ⟨hexLoop_advances, nofun⟩, ?_,
    ⟨commentLoop_advances, nofun⟩, ⟨identLoop_advances hfuel, identLoop_leavesWithin hfuel⟩, ?_,
    urlLoop_advances hfuel, urlLoop_leavesWithin hfuel⟩
  · exact (hmain.1.rounds_sorted fuel (Nat.zero_le _)).1
  · intro p
    exact ⟨skipWhile_advances p, nofun⟩
  · intro ending
    exact ⟨stringLoop_advances ending hfuel, stringLoop_leavesWithin ending hfuel⟩

/-- A backslash at the end. -/
theorem tokenizeCss_terminates_backslash :
    tokenizeCss [0x61, 0x5c] 3 = some (FigmaDevMcp.tokenizeCss [0x61, 0x5c]) ∧
      (mainLoop [0x61, 0x5c] 3).Advances MainVars.index 2 := by
  have h := tokenizeCss_terminates [0x61, 0x5c] 3 (by decide)
  exact ⟨h.1, h.2.1.1⟩

end FigmaDevMcp.Css.Index

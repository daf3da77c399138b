import FigmaDevMcp.Lib.JsValue
import FigmaDevMcp.Lib.Utf8

set_option autoImplicit false

/-!
# `JSON.parse`

A reader for the texts of JSON, and that it reads back what `stringify` has written of values
whose numbers are small natural ones.

* `parseString`, `parseNumber`, `parseValue`: what stands at the head of a text, with the rest;
* `parse`: a whole text;
* `parse_stringify`: reading back a plain value.
-/

namespace JsValue

open Utf16

/-- White space of JSON. -/
def isSpace (u : ℕ) : Bool := u == 0x20 || u == 0x09 || u == 0x0a || u == 0x0d

/-- What is left after white space. -/
def skipSpace (s : List ℕ) : List ℕ := s.dropWhile isSpace

/-- A digit. -/
def isDigit (u : ℕ) : Bool := 0x30 ≤ u && u ≤ 0x39

/-- The value of a hexadecimal digit. -/
def hexValue (u : ℕ) : Option ℕ :=
  if 0x30 ≤ u ∧ u ≤ 0x39 then some (u - 0x30)
  else if 0x61 ≤ u ∧ u ≤ 0x66 then some (u - 0x57)
  else if 0x41 ≤ u ∧ u ≤ 0x46 then some (u - 0x37)
  else none

/-- The unit that a letter after a backslash stands for. -/
def unescape (u : ℕ) : Option ℕ :=
  if u = 0x22 ∨ u = 0x5c ∨ u = 0x2f then some u
  else if u = 0x62 then some 0x08
  else if u = 0x66 then some 0x0c
  else if u = 0x6e then some 0x0a
  else if u = 0x72 then some 0x0d
  else if u = 0x74 then some 0x09
  else none

/-- The value of four hexadecimal digits. -/
def hexValues (a b c d : ℕ) : Option ℕ := do
  return (← hexValue a) * 0x1000 + (← hexValue b) * 0x100 + (← hexValue c) * 0x10 + (← hexValue d)

/-- The string up to its closing quote. -/
def parseString : List ℕ → Option (List ℕ × List ℕ)
  | [] => none
  | 0x22 :: rest => some ([], rest)
  | 0x5c :: 0x75 :: a :: b :: c :: d :: rest => do
    let u ← hexValues a b c d
    let (s, rest) ← parseString rest
    return (u :: s, rest)
  | 0x5c :: u :: rest => do
    let u ← unescape u
    let (s, rest) ← parseString rest
    return (u :: s, rest)
  | u :: rest =>
    if u < 0x20 ∨ u = 0x5c then none
    else do
      let (s, rest) ← parseString rest
      return (u :: s, rest)

/-- The value of digits, and how many there are. -/
def takeDigits (s : List ℕ) : List ℕ × List ℕ := (s.takeWhile isDigit, s.dropWhile isDigit)

/-- The digits after a point. -/
def parseFraction (s : List ℕ) : Option (List ℕ × List ℕ) :=
  match s with
  | 0x2e :: rest => if (takeDigits rest).1 = [] then none else some (takeDigits rest)
  | _ => some ([], s)

/-- The power of ten after an `e`. -/
def parseExponent (s : List ℕ) : Option (ℤ × List ℕ) :=
  match s with
  | e :: rest =>
    if e = 0x65 ∨ e = 0x45 then
      let (negative, rest) := match rest with
        | 0x2d :: rest => (true, rest)
        | 0x2b :: rest => (false, rest)
        | _ => (false, rest)
      let (digits, rest) := takeDigits rest
      if digits = [] then none
      else
        let exponent : ℤ := NumberText.undecimal digits
        some (if negative then -exponent else exponent, rest)
    else some (0, s)
  | [] => some (0, s)

/-- The double closest to a rational number. -/
def toNumber (negative : Bool) (q : ℚ) : JsNumber :=
  match NumberText.toDouble q with
  | some r => .finite (if negative then -r else r)
  | none => .infinite negative

/-- A number without its sign. -/
def parseUnsigned (negative : Bool) (s : List ℕ) : Option (JsNumber × List ℕ) := do
  let (whole, rest) := takeDigits s
  if whole = [] ∨ (whole.head? = some 0x30 ∧ whole ≠ [0x30]) then none
  let (fraction, rest) ← parseFraction rest
  let (exponent, rest) ← parseExponent rest
  let q : ℚ := NumberText.undecimal (whole ++ fraction) * (10 : ℚ) ^ (exponent - fraction.length)
  return (toNumber negative q, rest)

/-- A number with its sign. -/
def parseNumber : List ℕ → Option (JsNumber × List ℕ)
  | 0x2d :: rest => parseUnsigned true rest
  | s => parseUnsigned false s

/-- What follows a word of the language. -/
def parseWord (w : String) (s : List ℕ) : Option (List ℕ) :=
  if (ofString w).isPrefixOf s then some (s.drop (ofString w).length) else none

/-- A member read twice has its last value. -/
def setMember (key : List ℕ) (value : JsValue) :
    List (List ℕ × JsValue) → List (List ℕ × JsValue)
  | [] => [(key, value)]
  | (k, v) :: rest => if k = key then (key, value) :: rest else (k, v) :: setMember key value rest

mutual

/-- A value, with as many steps as `fuel`. -/
def parseValue : ℕ → List ℕ → Option (JsValue × List ℕ)
  | 0, _ => none
  | fuel + 1, s =>
    match skipSpace s with
    | 0x22 :: rest => (parseString rest).map fun r => (.string r.1, r.2)
    | 0x5b :: rest =>
      match skipSpace rest with
      | 0x5d :: rest => some (.array [], rest)
      | rest => (parseItems fuel rest).map fun r => (.array r.1, r.2)
    | 0x7b :: rest =>
      match skipSpace rest with
      | 0x7d :: rest => some (.object [], rest)
      | rest => (parseMembers fuel [] rest).map fun r => (.object r.1, r.2)
    | 0x74 :: rest => (parseWord "rue" rest).map fun rest => (.bool true, rest)
    | 0x66 :: rest => (parseWord "alse" rest).map fun rest => (.bool false, rest)
    | 0x6e :: rest => (parseWord "ull" rest).map fun rest => (.null, rest)
    | s => (parseNumber s).map fun r => (.number r.1, r.2)

/-- The items of an array, one at least. -/
def parseItems : ℕ → List ℕ → Option (List JsValue × List ℕ)
  | 0, _ => none
  | fuel + 1, s => do
    let (item, rest) ← parseValue fuel s
    match skipSpace rest with
    | 0x2c :: rest =>
      let (items, rest) ← parseItems fuel rest
      return (item :: items, rest)
    | 0x5d :: rest => return ([item], rest)
    | _ => none

/-- The members of an object, one at least, after those that have been read. -/
def parseMembers : ℕ → List (List ℕ × JsValue) → List ℕ →
    Option (List (List ℕ × JsValue) × List ℕ)
  | 0, _, _ => none
  | fuel + 1, members, s =>
    match skipSpace s with
    | 0x22 :: rest => do
      let (key, rest) ← parseString rest
      match skipSpace rest with
      | 0x3a :: rest =>
        let (value, rest) ← parseValue fuel rest
        match skipSpace rest with
        | 0x2c :: rest => parseMembers fuel (setMember key value members) rest
        | 0x7d :: rest => return (setMember key value members, rest)
        | _ => none
      | _ => none
    | _ => none

end

/-- `JSON.parse`: nothing for what throws. No text takes more steps than two for each of its
units. -/
def parse (s : List ℕ) : Option JsValue :=
  match parseValue (2 * s.length + 1) s with
  | some (value, rest) => if skipSpace rest = [] then some value else none
  | none => none

/-! ## Reading back -/

theorem parseString_raw {u : ℕ} (hlow : 0x20 ≤ u) (hquote : u ≠ 0x22) (hslash : u ≠ 0x5c)
    (t : List ℕ) : parseString (u :: t) = (parseString t).map fun r => (u :: r.1, r.2) := by
  rw [parseString.eq_def]
  split
  · next h => cases h
  · next h => exact absurd (List.cons.inj h).1 hquote
  · next h => exact absurd (List.cons.inj h).1 hslash
  · next h => exact absurd (List.cons.inj h).1 hslash
  · next v rest _ _ _ h =>
      obtain ⟨rfl, rfl⟩ := List.cons.inj h
      rw [if_neg (by omega)]
      cases parseString t <;> rfl

theorem parseString_escape {u v : ℕ} (hv : v ≠ 0x75) (h : unescape v = some u) (t : List ℕ) :
    parseString (0x5c :: v :: t) = (parseString t).map fun r => (u :: r.1, r.2) := by
  rw [parseString.eq_def]
  split
  · next h => cases h
  · next h => exact absurd (List.cons.inj h).1 (by decide)
  · next h => exact absurd (List.cons.inj (List.cons.inj h).2).1 hv
  · next w rest _ hw =>
      obtain ⟨rfl, rfl⟩ := List.cons.inj (List.cons.inj hw).2
      rw [h]
      cases parseString t <;> rfl
  · next w rest _ _ hother hw =>
      obtain ⟨rfl, rfl⟩ := List.cons.inj hw
      exact absurd rfl (hother v t rfl)

theorem hexValue_hexDigit {d : ℕ} (h : d < 16) : hexValue (hexDigit d) = some d := by
  unfold hexDigit
  split_ifs
  · rw [hexValue, if_pos (by omega), Nat.add_sub_cancel_left]
  · rw [hexValue, if_neg (by omega), if_pos (by omega), Nat.add_sub_cancel_left]

theorem parseString_unicodeEscape {u : ℕ} (hu : u < 0x10000) (t : List ℕ) :
    parseString (unicodeEscape u ++ t) = (parseString t).map fun r => (u :: r.1, r.2) := by
  show parseString (0x5c :: 0x75 :: _ :: _ :: _ :: _ :: t) = _
  have hvalue : hexValues (hexDigit (u / 0x1000)) (hexDigit (u / 0x100 % 0x10))
      (hexDigit (u / 0x10 % 0x10)) (hexDigit (u % 0x10)) = some u := by
    rw [hexValues, hexValue_hexDigit (by omega), hexValue_hexDigit (by omega),
      hexValue_hexDigit (by omega), hexValue_hexDigit (by omega)]
    show some _ = _
    congr 1
    omega
  rw [parseString, hvalue]
  cases parseString t <;> rfl

theorem parseString_escapeUnit (u : ℕ) (t : List ℕ) :
    parseString (escapeUnit u ++ t) = (parseString t).map fun r => (u :: r.1, r.2) := by
  unfold escapeUnit
  split_ifs with h1 h2 h3 h4 h5 h6 h7 h8
  · rw [h1]; exact parseString_escape (by decide) rfl t
  · rw [h2]; exact parseString_escape (by decide) rfl t
  · rw [h3]; exact parseString_escape (by decide) rfl t
  · rw [h4]; exact parseString_escape (by decide) rfl t
  · rw [h5]; exact parseString_escape (by decide) rfl t
  · rw [h6]; exact parseString_escape (by decide) rfl t
  · rw [h7]; exact parseString_escape (by decide) rfl t
  · refine parseString_unicodeEscape ?_ t
    simp only [isSurrogate, Bool.and_eq_true, decide_eq_true_eq] at h8
    omega
  · exact parseString_raw (by omega) h1 h2 t

/-- A quoted string reads as itself. -/
theorem parseString_quoteBody (s rest : List ℕ) :
    parseString (quoteBody s ++ 0x22 :: rest) = some (s, rest) := by
  induction s using quoteBody.induct with
  | case1 high low tail hpair ih =>
      rw [quoteBody, if_pos hpair, List.cons_append, List.cons_append]
      simp only [isHighSurrogate, isLowSurrogate, Bool.and_eq_true, decide_eq_true_eq] at hpair
      rw [parseString_raw (by omega) (by omega) (by omega),
        parseString_raw (by omega) (by omega) (by omega), ih]
      rfl
  | case2 high low tail hpair ih =>
      rw [quoteBody, if_neg hpair, List.append_assoc, parseString_escapeUnit, ih]
      rfl
  | case3 u =>
      rw [quoteBody, parseString_escapeUnit]
      rfl
  | case4 => rfl

theorem wellFormed_escapeUnit {u : ℕ} (hu : u < 0x10000) : WellFormed (escapeUnit u) := by
  have hdigit : ∀ d, d < 16 → hexDigit d < 0x80 := by
    intro d hd
    unfold hexDigit
    split_ifs <;> omega
  unfold escapeUnit
  split_ifs with h1 h2 h3 h4 h5 h6 h7 h8
  iterate 7 exact wellFormed_ascii (by decide)
  · refine wellFormed_ascii ?_
    simp only [unicodeEscape, List.forall_mem_cons]
    exact ⟨by decide, by decide, hdigit _ (by omega), hdigit _ (by omega), hdigit _ (by omega),
      hdigit _ (by omega), nofun⟩
  · exact wellFormed_singleton hu (by simpa using not_or.1 h8 |>.2)

/-- The text of a string has bytes, whatever the string. -/
theorem wellFormed_quoteBody {s : List ℕ} (hs : Units s) : WellFormed (quoteBody s) := by
  induction s using quoteBody.induct with
  | case1 high low tail hpair ih =>
      rw [quoteBody, if_pos hpair]
      have htail := ih fun u hu => hs u (by simp [hu])
      exact ⟨fun u hu => by
          rcases List.mem_cons.mp hu with rfl | hu
          · exact hs u (by simp)
          · rcases List.mem_cons.mp hu with rfl | hu
            · exact hs u (by simp)
            · exact htail.units u hu,
        by rw [PairedSurrogates, if_pos hpair]; exact htail.paired⟩
  | case2 high low tail hpair ih =>
      rw [quoteBody, if_neg hpair]
      exact (wellFormed_escapeUnit (hs high List.mem_cons_self)).append
        (ih fun u hu => hs u (List.mem_cons_of_mem _ hu))
  | case3 u => exact wellFormed_escapeUnit (hs u List.mem_cons_self)
  | case4 => exact ⟨List.forall_mem_nil _, trivial⟩

theorem wellFormed_quote {s : List ℕ} (hs : Units s) : WellFormed (quote s) :=
  (wellFormed_quoteBody hs).enclose (by decide) (by decide)

theorem quoteBody_append {s t : List ℕ} (hs : PairedSurrogates s) :
    quoteBody (s ++ t) = quoteBody s ++ quoteBody t := by
  induction s using quoteBody.induct with
  | case1 high low tail hpair ih =>
      rw [PairedSurrogates, if_pos hpair] at hs
      rw [List.cons_append, List.cons_append, quoteBody, if_pos hpair, quoteBody, if_pos hpair, ih hs]
      rfl
  | case2 high low tail hpair ih =>
      rw [PairedSurrogates, if_neg hpair] at hs
      rw [List.cons_append, List.cons_append, quoteBody, if_neg hpair, quoteBody, if_neg hpair,
        ← List.cons_append, ih hs.2, List.append_assoc]
  | case3 u =>
      cases t with
      | nil => exact (List.append_nil _).symm
      | cons v t =>
          rw [List.singleton_append, quoteBody, if_neg (not_pair_of_not_surrogate hs)]
          rfl
  | case4 => rfl

theorem wellFormed_member {key t : List ℕ} (hkey : Units key) (ht : WellFormed t) :
    WellFormed (quote key ++ 0x3a :: t) :=
  (wellFormed_quote hkey).join (by decide) ht

/-- What may stand after a value. -/
def Stops (rest : List ℕ) : Prop :=
  ∀ u ∈ rest.head?, u = 0x2c ∨ u = 0x5d ∨ u = 0x7d

theorem isDigit_decimal {n u : ℕ} (h : u ∈ NumberText.decimal n) : isDigit u = true := by
  have := NumberText.mem_decimal h
  simp only [isDigit, Bool.and_eq_true, decide_eq_true_eq]
  omega

theorem takeDigits_append {digits rest : List ℕ} (hdigits : ∀ u ∈ digits, isDigit u = true)
    (hrest : ∀ u ∈ rest.head?, isDigit u = false) : takeDigits (digits ++ rest) = (digits, rest) := by
  induction digits with
  | nil =>
      cases rest with
      | nil => rfl
      | cons u rest =>
          have hu := hrest u rfl
          simp [takeDigits, hu]
  | cons d digits ih =>
      have ⟨hd, hds⟩ := List.forall_mem_cons.1 hdigits
      have htail := ih hds
      simp only [takeDigits, Prod.mk.injEq] at htail
      simp [takeDigits, hd, htail.1, htail.2]

/-- **A small natural number reads as itself.** -/
theorem parseNumber_decimal {n : ℕ} (hn : n < 2 ^ 53) {rest : List ℕ} (hrest : Stops rest) :
    parseNumber (NumberText.decimal n ++ rest) = some (.finite n, rest) := by
  have hdigits : takeDigits (NumberText.decimal n ++ rest) = (NumberText.decimal n, rest) := by
    refine takeDigits_append (fun u hu => isDigit_decimal hu) fun u hu => ?_
    rcases hrest u hu with rfl | rfl | rfl <;> rfl
  have hfraction : parseFraction rest = some ([], rest) := by
    unfold parseFraction
    split
    · next rest' => exact absurd (hrest 0x2e rfl) (by decide)
    · rfl
  have hexponent : parseExponent rest = some (0, rest) := by
    cases rest with
    | nil => rfl
    | cons u rest =>
        rcases hrest u rfl with rfl | rfl | rfl <;> rfl
  have hunsigned : parseUnsigned false (NumberText.decimal n ++ rest) = some (.finite n, rest) := by
    have hvalue : (NumberText.undecimal (NumberText.decimal n ++ []) : ℚ) *
        (10 : ℚ) ^ ((0 : ℤ) - (([] : List ℕ).length : ℕ)) = n := by
      simp
    have hleading : ¬ (NumberText.decimal n = [] ∨
        ((NumberText.decimal n).head? = some 0x30 ∧ NumberText.decimal n ≠ [0x30])) := by
      rintro (h | ⟨h, hne⟩)
      · exact NumberText.decimal_ne_nil n h
      · obtain rfl := NumberText.eq_zero_of_head_decimal h
        exact hne rfl
    rw [parseUnsigned, hdigits]
    simp only [hleading, if_false, hfraction, hexponent, Option.bind_eq_bind, Option.bind_some,
      hvalue, toNumber, NumberText.toDouble_natCast hn]
    rfl
  cases hdecimal : NumberText.decimal n with
  | nil => exact absurd hdecimal (NumberText.decimal_ne_nil n)
  | cons u t =>
      have hu : u ≠ 0x2d := by
        have := NumberText.mem_decimal (n := n) (u := u) (by rw [hdecimal]; exact List.mem_cons_self)
        omega
      rw [hdecimal] at hunsigned
      rw [List.cons_append] at hunsigned ⊢
      unfold parseNumber
      split
      · next h => exact absurd (List.cons.inj h).1 hu
      · exact hunsigned

mutual

/-- A value that JSON has, of strings made of code units and small natural numbers. -/
def Plain : JsValue → Prop
  | .null | .bool _ => True
  | .string s => Units s
  | .number (.finite q) => ∃ n : ℕ, n < 2 ^ 53 ∧ q = n
  | .array items => PlainItems items
  | .object members => PlainMembers members ∧ (members.map Prod.fst).Nodup
  | _ => False

/-- The same for the items of an array. -/
def PlainItems : List JsValue → Prop
  | [] => True
  | item :: rest => Plain item ∧ PlainItems rest

/-- The same for the members of an object. -/
def PlainMembers : List (List ℕ × JsValue) → Prop
  | [] => True
  | (key, value) :: rest => Units key ∧ Plain value ∧ PlainMembers rest

end

theorem plainItems_iff {items : List JsValue} : PlainItems items ↔ ∀ v ∈ items, Plain v := by
  induction items with
  | nil => exact ⟨fun _ => nofun, fun _ => trivial⟩
  | cons v items ih => rw [PlainItems, ih, List.forall_mem_cons]

theorem plainMembers_iff {members : List (List ℕ × JsValue)} :
    PlainMembers members ↔ ∀ m ∈ members, Units m.1 ∧ Plain m.2 := by
  induction members with
  | nil => exact ⟨fun _ => nofun, fun _ => trivial⟩
  | cons m members ih => rw [PlainMembers, ih, List.forall_mem_cons, and_assoc]

/-- The text starts a value. -/
def Opens (t : List ℕ) : Prop := ∃ u rest, t = u :: rest ∧ isSpace u = false ∧ u ≠ 0x5d

theorem Opens.skipSpace {t : List ℕ} (h : Opens t) (rest : List ℕ) :
    skipSpace (t ++ rest) = t ++ rest := by
  obtain ⟨u, t, rfl, hu, -⟩ := h
  rw [JsValue.skipSpace, List.cons_append, List.dropWhile_cons, hu]
  rfl

theorem skipSpace_cons {u : ℕ} (h : isSpace u = false) (t : List ℕ) : skipSpace (u :: t) = u :: t := by
  rw [skipSpace, List.dropWhile_cons, h]
  rfl

/-- The text of the value reads as the value. -/
structure Reads (v : JsValue) (t : List ℕ) : Prop where
  text : stringify v = some t
  wellFormed : WellFormed t
  opens : Opens t
  parse : ∀ fuel rest, 2 * t.length ≤ fuel → Stops rest → parseValue fuel (t ++ rest) = some (v, rest)

theorem parseValue_digit (fuel : ℕ) {u : ℕ} (hu : 0x30 ≤ u ∧ u ≤ 0x39) (t : List ℕ) :
    parseValue (fuel + 1) (u :: t) = (parseNumber (u :: t)).map fun r => (.number r.1, r.2) := by
  have hspace : isSpace u = false := by
    simp only [isSpace, Bool.or_eq_false_iff, beq_eq_false_iff_ne]
    omega
  rw [parseValue.eq_def]
  simp only [skipSpace_cons hspace]
  split
  case h_7 => rfl
  all_goals
    next h =>
      have := (List.cons.inj h).1
      omega

theorem reads_decimal {n : ℕ} (hn : n < 2 ^ 53) :
    Reads (.number (.finite n)) (NumberText.decimal n) := by
  cases hdecimal : NumberText.decimal n with
  | nil => exact absurd hdecimal (NumberText.decimal_ne_nil n)
  | cons u t =>
      have hu := NumberText.mem_decimal (n := n) (u := u) (by rw [hdecimal]; exact List.mem_cons_self)
      refine ⟨?_, ?_, ⟨u, t, rfl, ?_, by omega⟩, fun fuel rest hfuel hrest => ?_⟩
      · rw [stringify, NumberText.toText_natCast hn, hdecimal]
      · refine wellFormed_ascii fun v hv => ?_
        have := NumberText.mem_decimal (n := n) (u := v) (by rw [hdecimal]; exact hv)
        omega
      · simp only [isSpace, Bool.or_eq_false_iff, beq_eq_false_iff_ne]
        omega
      · obtain ⟨fuel, rfl⟩ := Nat.exists_eq_add_of_le' (show 1 ≤ fuel by simp at hfuel; omega)
        have hnumber := parseNumber_decimal hn hrest
        rw [hdecimal, List.cons_append] at hnumber
        rw [List.cons_append, parseValue_digit fuel hu, hnumber]
        rfl

theorem commas_cons_cons (p q : List ℕ) (ps : List (List ℕ)) :
    commas (p :: q :: ps) = p ++ 0x2c :: commas (q :: ps) := by
  simp [commas, List.intercalate]

theorem commas_cons (p : List ℕ) {ps : List (List ℕ)} (h : ps ≠ []) :
    commas (p :: ps) = p ++ 0x2c :: commas ps := by
  cases ps with
  | nil => exact absurd rfl h
  | cons q ps => exact commas_cons_cons p q ps

theorem commas_singleton (p : List ℕ) : commas [p] = p := by
  simp [commas, List.intercalate]

theorem stops_cons {u : ℕ} (h : u = 0x2c ∨ u = 0x5d ∨ u = 0x7d) (rest : List ℕ) :
    Stops (u :: rest) := by
  intro v hv
  obtain rfl : u = v := Option.some.inj hv
  exact h

theorem Opens.append {t : List ℕ} (h : Opens t) (rest : List ℕ) : Opens (t ++ rest) := by
  obtain ⟨u, t, rfl, hu⟩ := h
  exact ⟨u, t ++ rest, rfl, hu⟩

theorem parseValue_array {fuel : ℕ} {t rest : List ℕ} {items : List JsValue} (ht : Opens t)
    (h : parseItems fuel (t ++ 0x5d :: rest) = some (items, rest)) :
    parseValue (fuel + 1) (0x5b :: (t ++ 0x5d :: rest)) = some (.array items, rest) := by
  have hspace := ht.skipSpace (0x5d :: rest)
  obtain ⟨u, t, rfl, -, hu⟩ := ht
  rw [parseValue.eq_def]
  simp only [skipSpace_cons (show isSpace 0x5b = false from rfl), hspace]
  split
  · next h => exact absurd (List.cons.inj h).1 hu
  · rw [h]
    rfl

theorem parseValue_object {fuel : ℕ} {t u rest : List ℕ} {members : List (List ℕ × JsValue)}
    (ht : t = 0x22 :: u) (h : parseMembers fuel [] (t ++ 0x7d :: rest) = some (members, rest)) :
    parseValue (fuel + 1) (0x7b :: (t ++ 0x7d :: rest)) = some (.object members, rest) := by
  subst ht
  change (parseMembers fuel [] (0x22 :: u ++ 0x7d :: rest)).map _ = _
  rw [h]
  rfl

/-- A member after its quoted name. -/
theorem parseMembers_quote (fuel : ℕ) (members : List (List ℕ × JsValue)) (key t : List ℕ) :
    parseMembers (fuel + 1) members (quote key ++ 0x3a :: t) =
      (do
        let (value, rest) ← parseValue fuel t
        match skipSpace rest with
        | 0x2c :: rest => parseMembers fuel (setMember key value members) rest
        | 0x7d :: rest => return (setMember key value members, rest)
        | _ => none) := by
  show (parseString ((quoteBody key ++ [0x22]) ++ 0x3a :: t)).bind _ = _
  rw [List.append_assoc, List.singleton_append, parseString_quoteBody]
  rfl

theorem setMember_append {key : List ℕ} {value : JsValue} {members : List (List ℕ × JsValue)}
    (h : key ∉ members.map Prod.fst) : setMember key value members = members ++ [(key, value)] := by
  induction members with
  | nil => rfl
  | cons member members ih =>
      obtain ⟨k, v⟩ := member
      rw [List.map_cons, List.mem_cons, not_or] at h
      rw [setMember, if_neg (Ne.symm h.1), ih h.2, List.cons_append]

theorem notMem_keys {key : List ℕ} {value : JsValue} {before members : List (List ℕ × JsValue)}
    (h : ((before ++ (key, value) :: members).map Prod.fst).Nodup) : key ∉ before.map Prod.fst := by
  rw [List.map_append, List.map_cons] at h
  exact fun hkey => (List.nodup_append.1 h).2.2 _ hkey _ List.mem_cons_self rfl

mutual

/-- **A plain value reads as itself.** -/
theorem reads_stringify : ∀ v : JsValue, Plain v → ∃ t, Reads v t
  | .undefined, h | .symbol, h | .method _, h => h.elim
  | .number .nan, h | .number (.infinite _), h => h.elim
  | .null, _ => ⟨ofString "null", rfl, wellFormed_ascii (by decide +kernel), ⟨_, _, rfl, rfl, by decide⟩, fun fuel rest hfuel _ => by
      obtain ⟨fuel, rfl⟩ := Nat.exists_eq_add_of_le' (show 1 ≤ fuel from le_trans (by decide) hfuel)
      rfl⟩
  | .bool true, _ => ⟨ofString "true", rfl, wellFormed_ascii (by decide +kernel), ⟨_, _, rfl, rfl, by decide⟩, fun fuel rest hfuel _ => by
      obtain ⟨fuel, rfl⟩ := Nat.exists_eq_add_of_le' (show 1 ≤ fuel from le_trans (by decide) hfuel)
      rfl⟩
  | .bool false, _ => ⟨ofString "false", rfl, wellFormed_ascii (by decide +kernel), ⟨_, _, rfl, rfl, by decide⟩, fun fuel rest hfuel _ => by
      obtain ⟨fuel, rfl⟩ := Nat.exists_eq_add_of_le' (show 1 ≤ fuel from le_trans (by decide) hfuel)
      rfl⟩
  | .number (.finite q), h => by
      obtain ⟨n, hn, rfl⟩ := h
      exact ⟨_, reads_decimal hn⟩
  | .string s, h => by
      refine ⟨quote s, rfl, wellFormed_quote h, ⟨_, _, rfl, rfl, by decide⟩, fun fuel rest hfuel _ => ?_⟩
      obtain ⟨fuel, rfl⟩ := Nat.exists_eq_add_of_le' (show 1 ≤ fuel by simp [quote] at hfuel; omega)
      show (parseString ((quoteBody s ++ [0x22]) ++ rest)).map _ = _
      rw [List.append_assoc, List.singleton_append, parseString_quoteBody]
      rfl
  | .array [], _ => ⟨ofString "[]", rfl, wellFormed_ascii (by decide +kernel), ⟨_, _, rfl, rfl, by decide⟩, fun fuel rest hfuel _ => by
      obtain ⟨fuel, rfl⟩ := Nat.exists_eq_add_of_le' (show 1 ≤ fuel from le_trans (by decide) hfuel)
      rfl⟩
  | .object [], _ => ⟨ofString "{}", rfl, wellFormed_ascii (by decide +kernel), ⟨_, _, rfl, rfl, by decide⟩, fun fuel rest hfuel _ => by
      obtain ⟨fuel, rfl⟩ := Nat.exists_eq_add_of_le' (show 1 ≤ fuel from le_trans (by decide) hfuel)
      rfl⟩
  | .array (item :: items), h => by
      obtain ⟨hformed, hopens, hparse⟩ :=
        reads_stringifyItems (item :: items) (List.cons_ne_nil _ _) h
      refine ⟨0x5b :: commas (stringifyItems (item :: items)) ++ [0x5d], rfl, hformed.enclose (by decide)
        (by decide), ⟨_, _, rfl, rfl, by decide⟩, fun fuel rest hfuel _ => ?_⟩
      rw [List.length_append, List.length_cons, List.length_singleton] at hfuel
      obtain ⟨fuel, rfl⟩ := Nat.exists_eq_add_of_le' (show 1 ≤ fuel by omega)
      have hitems := hparse fuel rest (by omega)
      rw [List.append_assoc, List.singleton_append, List.cons_append]
      exact parseValue_array hopens hitems
  | .object (member :: members), h => by
      obtain ⟨hformed, ⟨t, ht⟩, hparse⟩ :=
        reads_stringifyMembers (member :: members) [] (List.cons_ne_nil _ _) h.1 h.2
      refine ⟨0x7b :: commas (stringifyMembers (member :: members)) ++ [0x7d], rfl,
        hformed.enclose (by decide) (by decide), ⟨_, _, rfl, rfl, by decide⟩, fun fuel rest hfuel _ => ?_⟩
      rw [List.length_append, List.length_cons, List.length_singleton] at hfuel
      obtain ⟨fuel, rfl⟩ := Nat.exists_eq_add_of_le' (show 1 ≤ fuel by omega)
      have hmembers := hparse fuel rest (by omega)
      rw [List.append_assoc, List.singleton_append, List.cons_append]
      exact parseValue_object ht hmembers

/-- The items of an array, with the bracket after them. -/
theorem reads_stringifyItems : ∀ items : List JsValue, items ≠ [] → PlainItems items →
    WellFormed (commas (stringifyItems items)) ∧ Opens (commas (stringifyItems items)) ∧
      ∀ fuel rest, 2 * (commas (stringifyItems items)).length < fuel →
        parseItems fuel (commas (stringifyItems items) ++ 0x5d :: rest) = some (items, rest)
  | [], hne, _ => absurd rfl hne
  | [item], _, h => by
      obtain ⟨t, ht⟩ := reads_stringify item h.1
      have htext : commas (stringifyItems [item]) = t := by
        rw [stringifyItems, ht.text, stringifyItems, commas_singleton, Option.getD_some]
      rw [htext]
      refine ⟨ht.wellFormed, ht.opens, fun fuel rest hfuel => ?_⟩
      obtain ⟨fuel, rfl⟩ := Nat.exists_eq_add_of_le' (show 1 ≤ fuel by omega)
      rw [parseItems, ht.parse fuel _ (by omega) (stops_cons (Or.inr (Or.inl rfl)) rest)]
      rfl
  | item :: next :: items, _, h => by
      obtain ⟨t, ht⟩ := reads_stringify item h.1
      obtain ⟨hformed, -, hparse⟩ := reads_stringifyItems (next :: items) (List.cons_ne_nil _ _) h.2
      have htext : commas (stringifyItems (item :: next :: items)) =
          t ++ 0x2c :: commas (stringifyItems (next :: items)) := by
        rw [stringifyItems, ht.text, Option.getD_some, commas_cons]
        exact List.cons_ne_nil _ _
      rw [htext]
      refine ⟨ht.wellFormed.join (by decide) hformed, ht.opens.append _, fun fuel rest hfuel => ?_⟩
      rw [List.length_append, List.length_cons] at hfuel
      obtain ⟨fuel, rfl⟩ := Nat.exists_eq_add_of_le' (show 1 ≤ fuel by omega)
      rw [List.append_assoc, List.cons_append, parseItems,
        ht.parse fuel _ (by omega) (stops_cons (Or.inl rfl) _)]
      show (parseItems fuel _).bind _ = _
      rw [hparse fuel rest (by omega)]
      rfl

/-- The members of an object after others, with the brace after them. -/
theorem reads_stringifyMembers : ∀ (members before : List (List ℕ × JsValue)), members ≠ [] →
    PlainMembers members → ((before ++ members).map Prod.fst).Nodup →
      WellFormed (commas (stringifyMembers members)) ∧
      (∃ t, commas (stringifyMembers members) = 0x22 :: t) ∧
      ∀ fuel rest, 2 * (commas (stringifyMembers members)).length < fuel →
        parseMembers fuel before (commas (stringifyMembers members) ++ 0x7d :: rest) =
          some (before ++ members, rest)
  | [], _, hne, _, _ => absurd rfl hne
  | [(key, value)], before, _, h, hkeys => by
      obtain ⟨t, ht⟩ := reads_stringify value h.2.1
      have htext : commas (stringifyMembers [(key, value)]) = quote key ++ 0x3a :: t := by
        rw [stringifyMembers, ht.text]
        exact commas_singleton _
      rw [htext]
      refine ⟨wellFormed_member h.1 ht.wellFormed, ⟨_, rfl⟩, fun fuel rest hfuel => ?_⟩
      rw [List.length_append, List.length_cons] at hfuel
      obtain ⟨fuel, rfl⟩ := Nat.exists_eq_add_of_le' (show 1 ≤ fuel by omega)
      rw [List.append_assoc, List.cons_append, parseMembers_quote,
        ht.parse fuel _ (by omega) (stops_cons (Or.inr (Or.inr rfl)) rest)]
      rw [← setMember_append (notMem_keys hkeys)]
      rfl
  | (key, value) :: next :: members, before, _, h, hkeys => by
      obtain ⟨t, ht⟩ := reads_stringify value h.2.1
      have hkeys' : (((before ++ [(key, value)]) ++ next :: members).map Prod.fst).Nodup := by
        rwa [List.append_assoc, List.singleton_append]
      obtain ⟨hformed, ⟨u, hu⟩, hparse⟩ := reads_stringifyMembers (next :: members)
        (before ++ [(key, value)]) (List.cons_ne_nil _ _) h.2.2 hkeys'
      have htext : commas (stringifyMembers ((key, value) :: next :: members)) =
          (quote key ++ 0x3a :: t) ++ 0x2c :: commas (stringifyMembers (next :: members)) := by
        rw [stringifyMembers, ht.text]
        refine commas_cons _ fun hnil => ?_
        rw [hnil] at hu
        cases hu
      rw [htext]
      refine ⟨(wellFormed_member h.1 ht.wellFormed).join (by decide) hformed, ⟨_, rfl⟩, fun fuel rest hfuel => ?_⟩
      rw [List.length_append, List.length_append, List.length_cons, List.length_cons] at hfuel
      obtain ⟨fuel, rfl⟩ := Nat.exists_eq_add_of_le' (show 1 ≤ fuel by omega)
      rw [List.append_assoc, List.append_assoc, List.cons_append, List.cons_append, parseMembers_quote,
        ht.parse fuel _ (by omega) (stops_cons (Or.inl rfl) _)]
      show parseMembers fuel (setMember key value before)
        (commas (stringifyMembers (next :: members)) ++ 0x7d :: rest) = _
      rw [setMember_append (notMem_keys hkeys), hparse fuel rest (by omega), List.append_assoc]
      rfl

end

/-- **`JSON.parse` after `JSON.stringify`.** -/
theorem parse_stringify {v : JsValue} (h : Plain v) :
    ∃ t, stringify v = some t ∧ WellFormed t ∧ parse t = some v := by
  obtain ⟨t, ht⟩ := reads_stringify v h
  refine ⟨t, ht.text, ht.wellFormed, ?_⟩
  have hparse := ht.parse (2 * t.length + 1) [] (by omega) nofun
  rw [List.append_nil] at hparse
  rw [parse, hparse]
  rfl

end JsValue

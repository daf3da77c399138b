import FigmaDevMcp.Ui.Text

set_option autoImplicit false

/-!
# Strings of the plugin

* `utf8ByteLength`: the length in UTF-8 that the plugin computes from the code units, a lone
  surrogate counting three bytes. `serialize.ts`, `validation.ts` and `result-validation.ts` each
  have a copy;
* `trim`: `String.prototype.trim`, which takes white space and line ends of JavaScript away.
-/

namespace FigmaDevMcp

/-- The bytes of a string. A lone surrogate counts as three. -/
def utf8ByteLength : JsString → ℕ
  | code :: next :: rest =>
    if code ≤ 0x7f then 1 + utf8ByteLength (next :: rest)
    else if code ≤ 0x7ff then 2 + utf8ByteLength (next :: rest)
    else if Utf16.isHighSurrogate code && Utf16.isLowSurrogate next then 4 + utf8ByteLength rest
    else 3 + utf8ByteLength (next :: rest)
  | [code] => if code ≤ 0x7f then 1 else if code ≤ 0x7ff then 2 else 3
  | [] => 0

/-- What `trim` takes away: white space and line ends, and the byte order mark. -/
def isWhitespace (code : ℕ) : Bool :=
  (0x09 ≤ code && code ≤ 0x0d) || code == 0x20 || code == 0xa0 || code == 0x1680 ||
    (0x2000 ≤ code && code ≤ 0x200a) || code == 0x2028 || code == 0x2029 || code == 0x202f ||
    code == 0x205f || code == 0x3000 || code == 0xfeff

/-- `String.prototype.trim` -/
def trim (value : JsString) : JsString :=
  ((value.dropWhile isWhitespace).reverse.dropWhile isWhitespace).reverse

theorem utf8ByteLength_ascii {s : JsString} (h : ∀ u ∈ s, u < 0x80) : utf8ByteLength s = s.length := by
  induction s with
  | nil => rfl
  | cons u s ih =>
      have ⟨hu, hs⟩ := List.forall_mem_cons.1 h
      have hlow : u ≤ 0x7f := by omega
      rw [List.length_cons, ← ih hs]
      cases s with
      | nil => rw [utf8ByteLength, if_pos hlow]; rfl
      | cons v s => rw [utf8ByteLength, if_pos hlow, Nat.add_comm]

end FigmaDevMcp

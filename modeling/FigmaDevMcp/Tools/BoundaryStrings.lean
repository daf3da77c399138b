import FigmaDevMcp.Shared.ResultValidation
import FigmaDevMcp.Tools.SearchContract

set_option autoImplicit false

/-!
# Bounds of strings

The plugin counts the UTF-8 bytes of a string over its UTF-16 units, the server has the bytes. What
follows is that they agree, on every string that both can hold.

* `Str.bytes`: a Rust string as its bytes;
* `Str.exists_toJs`: the strings of the plugin that are a Rust string;
* `boundedString_eq_ok`: the two checks of the plugin are the same;
* `boundaryStrings_agree`: **the plugin accepts a string exactly when the server does**.
-/

namespace FigmaDevMcp.Tools

open JsValue

namespace Str

/-- The memory of a Rust string. -/
def bytes (s : Str) : List UInt8 := s.flatMap String.utf8EncodeChar

theorem length_bytes (s : Str) : s.bytes.length = s.len := by
  rw [bytes, len, List.length_flatMap]
  congr 1
  apply List.map_congr_left
  intro c _
  exact String.length_utf8EncodeChar c

theorem toJs_inj {s t : Str} (h : s.toJs = t.toJs) : s = t := Utf16.encode_toNat_inj h

/-- A string whose surrogates are paired is a Rust string, with the same bytes. -/
theorem exists_toJs {s : JsString} (hs : Utf16.WellFormed s) :
    ∃ t : Str, t.toJs = s ∧ Utf16.utf8 s = some t.bytes := by
  obtain ⟨_, hbytes⟩ := hs.exists_utf8
  obtain ⟨t, ht, -⟩ := Option.map_eq_some_iff.1 hbytes
  refine ⟨t, ?_, ?_⟩
  · rw [toJs, Utf16.map_toNat_chars ht, Utf16.encode_codePoints hs.units]
  · rw [Utf16.utf8, ht]
    rfl

@[simp] theorem toJs_eq_nil {s : Str} : s.toJs = [] ↔ s = [] := by
  constructor
  · intro h
    by_contra hs
    exact toJs_ne_nil hs h
  · rintro rfl
    rfl

end Str

theorem validateBoundaryString_eq_ok {bound : Bound} {value : Str} :
    validateBoundaryString bound value = .ok () ↔
      ¬ (bound.allowEmpty = false ∧ value = []) ∧ value.len ≤ bound.maximumBytes := by
  unfold validateBoundaryString
  split_ifs with hempty hlong
  · simp [hempty]
  · simp [hlong]
  · simp [hempty, Nat.le_of_not_lt hlong]

theorem boundedString_eq_ok {s : JsString} {label : JsString} {maximumBytes : ℕ}
    {allowEmpty : Bool} :
    Plugin.boundedString (.string s) label maximumBytes allowEmpty = .ok s ↔
      ¬ (allowEmpty = false ∧ s = []) ∧ utf8ByteLength s ≤ maximumBytes := by
  unfold Plugin.boundedString
  dsimp only
  split_ifs with hempty hlong
  · simp [hempty, Plugin.fail]
  · simp [hlong, Plugin.fail]
  · simp [hempty, Nat.le_of_not_lt hlong]

/-- The results are checked as the messages are. -/
theorem result_boundedString_eq_ok {s : JsString} {label : JsString} {maximumBytes : ℕ}
    {allowEmpty : Bool} :
    ResultValidation.boundedString (.string s) label maximumBytes allowEmpty = .ok s ↔
      ¬ (allowEmpty = false ∧ s = []) ∧ utf8ByteLength s ≤ maximumBytes := by
  unfold ResultValidation.boundedString
  rw [ResultValidation.string, Guard.ok_bind]
  split_ifs with hempty hlong
  · simp [hempty, ResultValidation.fail]
  · simp [hlong, ResultValidation.fail]
  · simp [hempty, Nat.le_of_not_lt hlong]

/-- **Every string that both sides can hold has one length, and is within a bound on both or on
neither.** -/
theorem boundaryStrings_agree {s : JsString} (hs : Utf16.WellFormed s) :
    ∃! t : Str, t.toJs = s ∧ Utf16.utf8 s = some t.bytes ∧
      utf8ByteLength s = t.len ∧ t.len = t.bytes.length ∧
      ∀ (bound : Bound) (label : JsString),
        (Plugin.boundedString (.string s) label bound.maximumBytes bound.allowEmpty = .ok s ↔
          validateBoundaryString bound t = .ok ()) ∧
        (ResultValidation.boundedString (.string s) label bound.maximumBytes bound.allowEmpty =
            .ok s ↔ validateBoundaryString bound t = .ok ()) := by
  obtain ⟨t, rfl, hbytes⟩ := Str.exists_toJs hs
  refine ⟨t, ⟨rfl, hbytes, Str.utf8ByteLength_toJs t, (Str.length_bytes t).symm, ?_⟩, ?_⟩
  · intro bound label
    rw [boundedString_eq_ok, result_boundedString_eq_ok, validateBoundaryString_eq_ok,
      Str.utf8ByteLength_toJs, Str.toJs_eq_nil]
    exact ⟨Iff.rfl, Iff.rfl⟩
  · rintro u ⟨hu, -⟩
    apply Str.toJs_inj
    exact hu

/-- A letter and a pair of surrogates are five bytes, on both sides. -/
theorem boundaryStrings_agree_pair :
    ∃ t : Str, t.toJs = [0x61, 0xd83d, 0xde00] ∧ t.len = 5 ∧
      validateBoundaryString ⟨5, "query", false⟩ t = .ok () ∧
      validateBoundaryString ⟨4, "query", false⟩ t ≠ .ok () := by
  have hs : Utf16.WellFormed [0x61, 0xd83d, 0xde00] :=
    ⟨by unfold Utf16.Units; decide, by simp [Utf16.PairedSurrogates, Utf16.isHighSurrogate,
      Utf16.isLowSurrogate, Utf16.isSurrogate]⟩
  obtain ⟨t, ht, -, hlen, -, hbounds⟩ := (boundaryStrings_agree hs).exists
  refine ⟨t, ht, hlen.symm, ?_, ?_⟩
  · apply (hbounds ⟨5, "query", false⟩ []).1.1
    decide
  · intro hok
    have := (hbounds ⟨4, "query", false⟩ []).1.2 hok
    revert this
    decide

end FigmaDevMcp.Tools

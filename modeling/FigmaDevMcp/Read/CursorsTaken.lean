import FigmaDevMcp.Read.SearchCursor
import FigmaDevMcp.Shared.Reparsing
import FigmaDevMcp.Tools.BoundaryStrings

set_option autoImplicit false

/-!
# Cursors that are taken back

What becomes of a cursor that is sent back with the input of its search. The plugin trims it and
counts its bytes, and the broker counts them too.

* `parseSearchNodesInput_cursor`, `exists_searchCursor_iff`: when an input may have a cursor;
* `Taken`: both ends accept an input with a cursor;
* **`nextCursor_taken_iff`**: when the cursors of a search are taken back.
-/

namespace FigmaDevMcp

open JsValue Plugin Tools

/-- An input that was accepted is accepted with a cursor that is not too long. -/
theorem parseSearchNodesInput_cursor {value : JsValue} {input : SearchNodesInput} {cursor : JsString}
    (h : parseSearchNodesInput value = .ok input) (hblank : input.cursor ≠ some [])
    (hne : cursor ≠ []) (htrim : trim cursor = cursor) :
    parseSearchNodesInput { input with cursor := some cursor }.toJs =
        .ok { input with cursor := some cursor } ↔ utf8ByteLength cursor ≤ maxSearchCursorBytes := by
  obtain ⟨hbounded, hvisible, htrimmed⟩ := parseSearchNodesInput_inv h
  have hother := hbounded hblank
  constructor
  · intro hagain
    have hbounds := (parseSearchNodesInput_inv hagain).1 fun hnil => hne (Option.some.inj hnil)
    exact (hbounds.cursor cursor rfl).2
  · intro hfits
    obtain ⟨members, hmembers, hencodes⟩ := encodes_toJs { input with cursor := some cursor }
    have hnew : Bounded { input with cursor := some cursor } :=
      { hother with cursor := fun s hs => Option.some.inj hs ▸ ⟨hne, hfits⟩ }
    rw [hmembers]
    refine (parseSearchNodesInput_eq_ok hencodes hnew).2 ⟨hvisible, ?_⟩
    have hquery := congrArg SearchNodesInput.query htrimmed
    have htypes := congrArg SearchNodesInput.types htrimmed
    simp only [trimmed] at hquery htypes
    simp only [trimmed, hquery, htypes, Option.map_some, htrim]

/-- A text is a cursor of the broker if it is not too long. -/
theorem exists_searchCursor_iff {cursor : JsString} (hne : cursor ≠ []) (h : Utf16.WellFormed cursor) :
    (∃ value : SearchCursor, value.value.toJs = cursor) ↔
      utf8ByteLength cursor ≤ maxSearchCursorBytes := by
  constructor
  · rintro ⟨value, rfl⟩
    exact value.bounds.2
  · intro hfits
    obtain ⟨s, rfl, -⟩ := Str.exists_toJs h
    rw [Str.utf8ByteLength_toJs] at hfits
    refine ⟨⟨s, validateBoundaryString_eq_ok.2 ⟨fun hempty => hne ?_, hfits⟩⟩, rfl⟩
    rw [hempty.2]
    rfl

/-- Both ends accept an input with a cursor. -/
structure Taken (input : SearchNodesInput) (cursor : JsString) : Prop where
  plugin : parseSearchNodesInput { input with cursor := some cursor }.toJs =
    .ok { input with cursor := some cursor }
  broker : ∃ value : SearchCursor, value.value.toJs = cursor

namespace Host

variable {ρ : Type} {host : Host ρ} {key cursor : JsString} {item : WalkItem ρ}

theorem bounds_cursorFor (h : host.cursorFor key item true = some cursor) :
    ∀ u ∈ cursor, 0x2d ≤ u ∧ u < 0x7b := by
  obtain ⟨payload, -, h⟩ := Option.bind_eq_some_iff.1 h
  obtain ⟨bytes, -, rfl⟩ := Option.map_eq_some_iff.1 h
  exact fun u hu => Base64Url.encode_bounds hu

theorem trim_cursorFor (h : host.cursorFor key item true = some cursor) : trim cursor = cursor := by
  refine Figma.trim_of_not_whitespace fun u hu => ?_
  have hu := bounds_cursorFor h u hu
  simp only [isWhitespace, Bool.or_eq_false_iff, Bool.and_eq_false_iff, beq_eq_false_iff_ne,
    decide_eq_false_iff_not]
  omega

theorem wellFormed_cursorFor (h : host.cursorFor key item true = some cursor) :
    Utf16.WellFormed cursor :=
  Utf16.wellFormed_ascii fun u hu => (bounds_cursorFor h u hu).2.trans (by decide)

end Host

namespace Figma

variable {ρ : Type} [DecidableEq ρ] {figma : Figma ρ} {cm : CaseMapping}

/-- An input whose cursor reads has no blank one. -/
theorem PageEnds.cursor_ne_blank {height : ρ → ℕ} {input : SearchNodesInput}
    {predicate : SearchPredicate} {item : WalkItem ρ}
    (h : figma.PageEnds cm height input predicate item) : input.cursor ≠ some [] := by
  obtain ⟨-, -, hcursor, -, -, -⟩ := h
  intro hblank
  rw [hblank] at hcursor
  cases hcursor

/-- **When the cursors of a search are taken back**: where their bytes are within the limit. -/
theorem nextCursor_taken_iff {height : ρ → ℕ} (htree : figma.IsTree height) {value : JsValue}
    {input : SearchNodesInput} (hparsed : parseSearchNodesInput value = .ok input)
    (hinput : input.Units) :
    (∀ result cursor, figma.searchNodes cm input = .ok result → result.nextCursor = some cursor →
        Taken input cursor) ↔
      ∀ predicate item, figma.PageEnds cm height input predicate item →
        figma.cursorBytes input predicate item ≤ 49152 := by
  have htaken : ∀ predicate item cursor, figma.PageEnds cm height input predicate item →
      figma.cursorFor (searchKey input predicate) item true = some cursor →
        (Taken input cursor ↔ utf8ByteLength cursor ≤ maxSearchCursorBytes) := by
    intro predicate item cursor hends hcursor
    have hlength := utf8ByteLength_cursorFor figma.toHost hinput hends.compiles (figma.units_id _)
      hends.paths hcursor
    have hne : cursor ≠ [] := by
      rintro rfl
      rw [Host.cursorBytes, utf8ByteLength] at hlength
      omega
    have hplugin := parseSearchNodesInput_cursor hparsed hends.cursor_ne_blank hne
      (Host.trim_cursorFor hcursor)
    have hbroker := exists_searchCursor_iff hne (Host.wellFormed_cursorFor hcursor)
    exact ⟨fun h => hplugin.1 h.plugin, fun h => ⟨hplugin.2 h, hbroker.2 h⟩⟩
  constructor
  · intro h predicate item hends
    obtain ⟨cursor, hcursor⟩ := hends.exists_cursor hinput
    obtain ⟨result, hresult, hnext⟩ := (figma.exists_nextCursor_iff cm htree).2 ⟨_, _, hends, hcursor⟩
    exact (hends.fits_iff hinput hcursor).1
      ((htaken _ _ _ hends hcursor).1 (h result cursor hresult hnext))
  · intro h result cursor hresult hnext
    obtain ⟨predicate, item, hends, hcursor⟩ :=
      (figma.exists_nextCursor_iff cm htree).1 ⟨result, hresult, hnext⟩
    exact (htaken _ _ _ hends hcursor).2 ((hends.fits_iff hinput hcursor).2 (h predicate item hends))

end Figma

end FigmaDevMcp

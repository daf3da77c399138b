import FigmaDevMcp.Lib.Groups
import FigmaDevMcp.Read.Getters
import FigmaDevMcp.Read.ItemEmission
import FigmaDevMcp.Read.Motion
import FigmaDevMcp.Read.VariableSession

set_option autoImplicit false

/-!
# The fonts of a scope

`getFonts` of `fonts.ts`: the fonts that the visible text in scope is set in, each with the nodes
that use it, of which no more than `MAX_INPUT_IDS` are listed.

* `textFonts`: the fonts of a text node;
* `getFonts`: the read;
* `listing`: what it lists where nothing cuts it;
* `getFonts_accounts`: **it lists that, up to a limit**.
-/

namespace FigmaDevMcp

open JsValue

/-! ## The values -/

/-- A font. -/
structure FontName where
  family : JsString
  style : JsString
deriving DecidableEq

/-- A font, as it is sent. -/
def FontName.toJs (f : FontName) : JsValue :=
  .object (member "family" (.string f.family) ++ member "style" (.string f.style))

/-- Whether a font is installed. -/
inductive FontAvailability
  | available | unavailable | unknown
deriving DecidableEq

/-- The word of an availability. -/
def FontAvailability.word : FontAvailability → String
  | available => "available"
  | unavailable => "unavailable"
  | unknown => "unknown"

/-- A font with the nodes that use it. -/
structure FontUsage where
  font : FontName
  availability : FontAvailability
  nodeIds : List JsString
deriving DecidableEq

/-- A font with its nodes, as it is sent. -/
def FontUsage.toJs (u : FontUsage) : JsValue :=
  .object (member "font" u.font.toJs ++
    member "availability" (FigmaDevMcp.word u.availability.word) ++
    member "nodeIds" (.array (u.nodeIds.map .string)))

/-! ## The fonts of a node -/

/-- The name of a font, unless both of its parts are empty. -/
def readFontName (raw : JsValue) : Option FontName :=
  if isRecord raw then
    match raw.field "family", raw.field "style" with
    | .string family, .string style =>
      if family = [] ∧ style = [] then none else some { family, style }
    | _, _ => none
  else none

/-- The key of a font. -/
def fontKey (font : FontName) : JsString := font.family ++ 0 :: font.style

/-- The characters that one call for the fonts of a text covers. -/
def fontSegmentRange : ℕ := 2048

/-- Where the ranges of a text begin that are read one by one. -/
def segmentStarts (length : ℕ) : List ℕ :=
  (List.range ((length + fontSegmentRange - 1) / fontSegmentRange)).map (· * fontSegmentRange)

/-- The plugin API with the fonts. A call that fails gives nothing. -/
structure FontFigma (ρ : Type) extends ThrowingFigma ρ where
  /-- `getStyledTextSegments` of a node, for the fonts of a range. -/
  fontSegments : ρ → ℕ → ℕ → HostAnswer
  listAvailableFontsAsync : Option HostAnswer

/-- A text node with its fonts. -/
structure TextFonts where
  id : JsString
  fonts : List FontName

/-- The use of a font by a node, under the key of the font. -/
abbrev FontUse := Groups.Event JsString FontName JsString

/-- The font under a key, with the ids of its nodes. -/
abbrev CollectedFont := Groups.Group FontName JsString

/-- What `addUsage` is called with. A node without an id adds nothing. -/
def TextFonts.uses (t : TextFonts) : List FontUse :=
  if t.id = [] then [] else t.fonts.map fun font => ⟨fontKey font, font, t.id⟩

/-- `addUsage`, for all that a node uses. -/
def addUsages (collected : JsMap JsString CollectedFont) (t : Option TextFonts) :
    JsMap JsString CollectedFont :=
  match t with
  | some t => t.uses.foldl (Groups.insert maxInputIds) collected
  | none => collected

namespace FontFigma

variable {ρ : Type} (figma : FontFigma ρ)

/-- A range that cannot be read is passed over. -/
def collectMixed (node : ρ) : Except ReadError (List FontName) := do
  match ← figma.read node "getStyledTextSegments" with
  | .method _ =>
    let length := (string (← figma.read node "characters")).length
    return (segmentStarts length).flatMap fun start =>
      (array ((figma.fontSegments node start (min (start + fontSegmentRange) length)).getD
        .undefined)).filterMap fun segment => readFontName ((record segment).field "fontName")
  | _ => return []

/-- What `collectNode` finds in a node. -/
def textFonts (node : ρ) : Except ReadError (Option TextFonts) := do
  if !isWord (← figma.read node "type") "TEXT" then return none
  let id := string (← figma.read node "id")
  match ← figma.read node "fontName" with
  | .symbol => return some { id, fonts := ← figma.collectMixed node }
  | fontName => return some { id, fonts := (readFontName fontName).toList }

/-- The fonts of the editor, if it says which it has. -/
def observedCatalog : Option (List JsString) :=
  match figma.listAvailableFontsAsync with
  | some (some fonts) =>
    some ((array fonts).filterMap fun item =>
      (readFontName ((record item).field "fontName")).map fontKey)
  | _ => none

end FontFigma

/-- Whether a font is in the catalog, if there is one. -/
def fontAvailability (key : JsString) (catalog : Option (List JsString)) : FontAvailability :=
  match catalog with
  | none => .unknown
  | some keys => if key ∈ keys then .available else .unavailable

/-! ## The read -/

/-- The fonts of a read. -/
structure GetFontsResult where
  fonts : List FontUsage
  truncated : Bool
  truncation : Option Truncation

/-- A font that was collected, with its availability. -/
def fontUsage (catalog : Option (List JsString)) (entry : JsString × CollectedFont) : FontUsage :=
  { font := entry.2.value
    availability := fontAvailability entry.1 catalog
    nodeIds := entry.2.members }

namespace FontFigma

variable {ρ : Type} [DecidableEq ρ] (figma : FontFigma ρ) (limits : SerializerLimits)

/-- The fonts are emitted by the loop that the reads of items share. -/
def getFonts (selector : Option Selector) : Except ReadError GetFontsResult := do
  let found ← figma.resolveDesignRoots selector
  let (collected, truncation) ←
    figma.readForest figma.textFonts addUsages limits found.roots .empty
  let start : ItemEmission FontUsage := {}
  let usages := collected.entries.map (fontUsage figma.observedCatalog)
  let (emission, _) ← inspect limits (fun usage => byteLength usage.toJs)
    (fun usage => .ok (some usage)) usages 0 ((truncation.map start.mark).getD start)
  return {
    fonts := emission.items
    truncated := emission.truncation.isSome
    truncation := emission.truncation }

/-! ## What a read lists -/

/-- The uses of fonts by a node. -/
def usesOf (node : ρ) : List FontUse :=
  match figma.textFonts node with
  | .ok (some t) => t.uses
  | _ => []

/-- The uses of fonts in a list of nodes. -/
def uses (nodes : List ρ) : List FontUse := nodes.flatMap figma.usesOf

/-- Every font that the nodes use, with its nodes. -/
def listing (nodes : List ρ) : List FontUsage :=
  (Firsts.firsts (fun key => key) ((figma.uses nodes).map (·.key))).filterMap fun key =>
    (Groups.group maxInputIds (figma.uses nodes) key).map fun font =>
      fontUsage figma.observedCatalog (key, font)

/-- What the limits let through. -/
structure Fits (limits : SerializerLimits) (nodes : List ρ) (usages : List FontUsage) : Prop where
  visited : nodes.length ≤ limits.visitedNodes
  returned : usages.length ≤ limits.returnedNodes
  bytes : (usages.map fun usage => byteLength usage.toJs).sum ≤ limits.encodedBytes

variable {figma limits} {height : ρ → ℕ} {selector : Option Selector}

omit [DecidableEq ρ] in
theorem foldl_addUsages {nodes : List ρ} {found : List (Option TextFonts)}
    (h : nodes.mapM figma.textFonts = .ok found) (collected : JsMap JsString CollectedFont) :
    found.foldl addUsages collected =
      (figma.uses nodes).foldl (Groups.insert maxInputIds) collected := by
  have hall := Guard.mapM_eq_ok.1 h
  clear h
  induction hall generalizing collected with
  | nil => rfl
  | @cons node t _ _ hfirst _ ih =>
      rw [List.foldl_cons, ih, uses, uses, List.flatMap_cons, List.foldl_append, usesOf, hfirst]
      cases t with
      | none => rfl
      | some t => rfl

omit [DecidableEq ρ] in
theorem listing_eq (nodes : List ρ) :
    (Groups.collect maxInputIds (figma.uses nodes)).entries.map (fontUsage figma.observedCatalog) =
      figma.listing nodes := by
  rw [Groups.entries_collect (by decide), List.map_filterMap, listing]
  refine List.filterMap_congr fun key _ => ?_
  rw [Option.map_map]
  rfl

end FontFigma

/-! ## Emitting all of a list -/

section Emit

variable {β : Type} {limits : SerializerLimits} {size : β → ℕ}

/-- No item trips a limit just where the whole list stays within both. -/
theorem fits_iff {items : List β} : (∀ before item after, items = before ++ item :: after →
    ¬ Trips limits size before item) ↔
      items.length ≤ limits.returnedNodes ∧ (items.map size).sum ≤ limits.encodedBytes := by
  constructor
  · intro h
    rcases List.eq_nil_or_concat items with rfl | ⟨before, item, hitems⟩
    · exact ⟨Nat.zero_le _, Nat.zero_le _⟩
    · rw [List.concat_eq_append] at hitems
      have hlast := not_or.1 (h before item [] hitems)
      rw [hitems, List.length_append, List.length_singleton, List.map_append, List.sum_append,
        List.map_singleton, List.sum_singleton]
      omega
  · rintro ⟨hcount, hbytes⟩ before item after rfl
    rw [List.length_append, List.length_cons] at hcount
    rw [List.map_append, List.sum_append, List.map_cons, List.sum_cons] at hbytes
    exact not_or.2 ⟨by omega, by omega⟩

/-- A loop whose items are all there has a result. -/
theorem inspect_all_returns (items : List β) (n : ℕ) (e : ItemEmission β) :
    ∃ r, inspect limits size (fun item => .ok (some item)) items n e = .ok r := by
  induction items generalizing n e with
  | nil => exact ⟨(e, n), rfl⟩
  | cons item rest ih =>
      rw [inspect, Guard.ok_bind]
      dsimp only
      cases hpush : e.push limits size item (n + 1) with
      | mk pushed e' =>
          cases pushed with
          | true => exact ih (n + 1) e'
          | false => exact ⟨(e', n + 1), rfl⟩

/-- **The loop over items that are all to be emitted.** -/
theorem inspect_all_spec {items : List β} {e e' : ItemEmission β} {n : ℕ}
    (hitems : e.items = []) (he : e.Counted size)
    (h : inspect limits size (fun item => .ok (some item)) items 0 e = .ok (e', n)) :
    e'.items <+: items ∧
      (e'.truncation = none ↔ e.walkTruncation = none ∧
        items.length ≤ limits.returnedNodes ∧ (items.map size).sum ≤ limits.encodedBytes) ∧
      (e'.truncation = none → e'.items = items) := by
  have hcontent : content (fun item : β => .ok (some item)) = some := rfl
  rw [← fits_iff]
  cases inspect_spec he h with
  | all hn hall hemit hwalk hlast =>
      rw [hcontent, hitems, List.filterMap_some, List.nil_append] at hall
      have htruncation : e'.truncation = e.walkTruncation := by
        rw [ItemEmission.truncation, hemit, hwalk]
        cases e.walkTruncation <;> rfl
      refine ⟨hall ▸ List.prefix_rfl, ?_, fun _ => hall⟩
      rw [htruncation]
      refine ⟨fun hnone => ⟨hnone, fun before item after hsplit => ?_⟩, And.left⟩
      have hfits := hlast before item after item hsplit rfl
      rwa [hcontent, hitems, List.filterMap_some, List.nil_append] at hfits
  | cut before item after value hsplit hn hvalue hcut hemit htrips =>
      obtain rfl := Option.some.inj hvalue
      rw [hcontent, hitems, List.filterMap_some, List.nil_append] at hcut
      have htruncation : e'.truncation ≠ none := by
        rw [ItemEmission.truncation]
        cases e'.walkTruncation with
        | some truncation => exact Option.some_ne_none truncation
        | none => exact Option.isSome_iff_ne_none.1 hemit
      refine ⟨?_, ⟨fun hnone => absurd hnone htruncation, ?_⟩,
        fun hnone => absurd hnone htruncation⟩
      · rw [hcut, hsplit]
        exact List.prefix_append _ _
      · rintro ⟨-, hfits⟩
        exact absurd (hcut ▸ htrips) (hfits before item after hsplit)

end Emit

namespace FontFigma

variable {ρ : Type} [DecidableEq ρ] {figma : FontFigma ρ} {limits : SerializerLimits}
  {height : ρ → ℕ} {selector : Option Selector} {r : GetFontsResult}

/-- A read fails only where its roots cannot be resolved, or a text node cannot be read. -/
theorem getFonts_returns (htree : figma.IsTree height) {found : DesignRoots ρ}
    (hfound : figma.resolveDesignRoots selector = .ok found)
    (hids : figma.OwnIds (figma.scope height selector))
    (hread : ∀ node ∈ figma.scope height selector, ∃ t, figma.textFonts node = .ok t) :
    ∃ r, figma.getFonts limits selector = .ok r := by
  rw [Figma.scope_eq hfound] at hids hread
  have hwalk : ∃ r, figma.readForest figma.textFonts addUsages limits found.roots .empty = .ok r :=
    ThrowingFigma.readForest_returns htree hids hread JsMap.empty
  obtain ⟨⟨collected, truncation⟩, hwalk⟩ := hwalk
  have hemit : ∃ r, inspect limits (fun usage => byteLength usage.toJs) (fun usage => .ok (some usage))
      (collected.entries.map (fontUsage figma.observedCatalog)) 0
      ((truncation.map ({} : ItemEmission FontUsage).mark).getD {}) = .ok r :=
    inspect_all_returns _ _ _
  obtain ⟨r, hemit⟩ := hemit
  exact ⟨_, Guard.bind_eq_ok.2 ⟨found, hfound, Guard.bind_eq_ok.2 ⟨_, hwalk,
    Guard.bind_eq_ok.2 ⟨r, hemit, rfl⟩⟩⟩⟩

/-- **A read lists** the fonts of the nodes that it has visited, up to a limit, and all of them where
everything fits. -/
theorem getFonts_accounts (htree : figma.IsTree height)
    (hids : figma.OwnIds (figma.scope height selector))
    (h : figma.getFonts limits selector = .ok r) :
    let nodes := figma.scope height selector
    r.fonts <+: figma.listing (nodes.take limits.visitedNodes) ∧
      (r.truncated = false ↔ Fits limits nodes (figma.listing nodes)) ∧
      (r.truncated = false → r.fonts = figma.listing nodes) := by
  obtain ⟨found, hfound, h⟩ := Guard.bind_eq_ok.1 h
  obtain ⟨⟨collected, truncation⟩, hread, h⟩ := Guard.bind_eq_ok.1 h
  obtain ⟨⟨e, n⟩, hemit, h⟩ := Guard.bind_eq_ok.1 h
  obtain rfl := Except.ok.inj h
  rw [Figma.scope_eq hfound] at hids ⊢
  obtain ⟨⟨seen, hseen, rfl⟩, rfl⟩ := (ThrowingFigma.readForest_eq_ok htree hids).1 hread
  intro nodes
  rw [foldl_addUsages hseen, ← Groups.collect, listing_eq] at hemit
  generalize hstart : (Option.map (ItemEmission.mark {}) (if nodes.length ≤ limits.visitedNodes
    then none else some (.nodeLimit limits.visitedNodes))).getD {} = e₀ at hemit
  obtain ⟨hitems, hcounted, hwalk⟩ : e₀.items = [] ∧
      e₀.Counted (fun usage => byteLength usage.toJs) ∧
      (e₀.walkTruncation = none ↔ nodes.length ≤ limits.visitedNodes) := by
    subst hstart
    split_ifs with hvisited
    · exact ⟨rfl, ⟨rfl, rfl⟩, iff_of_true rfl hvisited⟩
    · exact ⟨rfl, ⟨rfl, rfl⟩, iff_of_false (Option.some_ne_none _) hvisited⟩
  obtain ⟨hstart, htruncation, hwhole⟩ := inspect_all_spec hitems hcounted hemit
  rw [hwalk] at htruncation
  have hflag : e.truncation.isSome = false ↔ e.truncation = none := by
    rw [← Bool.not_eq_true, Option.not_isSome_iff_eq_none]
  have htake : nodes.length ≤ limits.visitedNodes → nodes.take limits.visitedNodes = nodes :=
    List.take_of_length_le
  refine ⟨hstart, hflag.trans (htruncation.trans ⟨?_, fun hfits => ?_⟩), fun hnone => ?_⟩
  · rintro ⟨hvisited, hcount, hbytes⟩
    rw [htake hvisited] at hcount hbytes
    exact ⟨hvisited, hcount, hbytes⟩
  · rw [htake hfits.visited]
    exact ⟨hfits.visited, hfits.returned, hfits.bytes⟩
  · have hnone' := hflag.1 hnone
    exact (hwhole hnone').trans (congrArg _ (htake (htruncation.1 hnone').1))

end FontFigma

end FigmaDevMcp

import FigmaDevMcp.Read.ByteBudget
import FigmaDevMcp.Read.Fonts
import Mathlib.Algebra.Group.Action.Defs
import Mathlib.Algebra.Order.BigOperators.Group.List

set_option autoImplicit false

/-!
# What a read of fonts covers

A font lists no more than `MAX_INPUT_IDS` nodes, and nothing says where it leaves some out.

* `Complete`: what a read that is not truncated is to have;
* `Listable`: no font has too many nodes, and no two fonts have one key;
* `getFonts_complete_iff`: **that is when a read is complete**, unless it is cut;
* `getFonts_incomplete`: a page on which one font has a node too many.
-/

namespace FigmaDevMcp

open JsValue

namespace FontFigma

variable {ρ : Type} (figma : FontFigma ρ)

/-- The fonts that a text node is set in, as far as they can be read. -/
def fontsOf (node : ρ) : List FontName :=
  match figma.textFonts node with
  | .ok (some t) => t.fonts
  | _ => []

/-- The nodes that use a font with the key. -/
def users (nodes : List ρ) (key : JsString) : List ρ :=
  nodes.filter fun node => figma.id node ≠ [] ∧ key ∈ (figma.fontsOf node).map fontKey

/-- A read that is not truncated lists every text node under each of its fonts; and no read lists a
font twice, or a node twice under one font. -/
structure Complete (nodes : List ρ) (r : GetFontsResult) : Prop where
  listed : r.truncated = false → ∀ node ∈ nodes, figma.id node ≠ [] → ∀ font ∈ figma.fontsOf node,
    ∃ usage ∈ r.fonts, usage.font = font ∧ figma.id node ∈ usage.nodeIds
  fonts : (r.fonts.map (·.font)).Nodup
  nodeIds : ∀ usage ∈ r.fonts, usage.nodeIds.Nodup

/-- No two fonts of the nodes have one key, and none has more nodes than it lists, where a node that
is there more than once counts as one. -/
structure Listable [DecidableEq ρ] (nodes : List ρ) : Prop where
  keyed : ∀ a ∈ nodes, figma.id a ≠ [] → ∀ b ∈ nodes, figma.id b ≠ [] → ∀ f ∈ figma.fontsOf a,
    ∀ g ∈ figma.fontsOf b, fontKey f = fontKey g → f = g
  few : ∀ node ∈ nodes, figma.id node ≠ [] → ∀ font ∈ figma.fontsOf node,
    (figma.users nodes (fontKey font)).dedup.length ≤ maxInputIds

variable {figma}

/-! ## The uses of fonts -/

theorem id_of_textFonts {node : ρ} {t : TextFonts} (h : figma.textFonts node = .ok (some t)) :
    t.id = figma.id node := by
  obtain ⟨type, _, h⟩ := Guard.bind_eq_ok.1 h
  split_ifs at h with htype
  · cases h
  obtain ⟨id, hid, h⟩ := Guard.bind_eq_ok.1 h
  obtain ⟨fontName, _, h⟩ := Guard.bind_eq_ok.1 h
  have hread := congrArg string (ThrowingFigma.read_eq_ok hid)
  split at h
  · obtain ⟨fonts, _, h⟩ := Guard.bind_eq_ok.1 h
    obtain rfl := Option.some.inj (Except.ok.inj h)
    exact hread
  · obtain rfl := Option.some.inj (Except.ok.inj h)
    exact hread

theorem mem_uses {nodes : List ρ} {e : FontUse} : e ∈ figma.uses nodes ↔
    ∃ node ∈ nodes, figma.id node ≠ [] ∧ ∃ font ∈ figma.fontsOf node,
      e = ⟨fontKey font, font, figma.id node⟩ := by
  rw [uses, List.mem_flatMap]
  refine exists_congr fun node => and_congr_right fun _ => ?_
  rw [usesOf, fontsOf]
  cases hfonts : figma.textFonts node with
  | error error =>
      constructor
      · intro h
        cases h
      · rintro ⟨-, font, h, -⟩
        cases h
  | ok t =>
      cases t with
      | none =>
          constructor
          · intro h
            cases h
          · rintro ⟨-, font, h, -⟩
            cases h
      | some t =>
          have hid := id_of_textFonts hfonts
          dsimp only
          rw [TextFonts.uses, hid]
          by_cases hempty : figma.id node = []
          · rw [if_pos hempty]
            constructor
            · intro h
              cases h
            · intro h
              exact absurd hempty h.1
          · rw [if_neg hempty, List.mem_map]
            constructor
            · rintro ⟨font, hfont, heq⟩
              exact ⟨hempty, font, hfont, heq.symm⟩
            · rintro ⟨-, font, hfont, heq⟩
              exact ⟨font, hfont, heq.symm⟩

theorem mem_users {nodes : List ρ} {key : JsString} {node : ρ} : node ∈ figma.users nodes key ↔
    node ∈ nodes ∧ figma.id node ≠ [] ∧ ∃ font ∈ figma.fontsOf node, fontKey font = key := by
  rw [users, List.mem_filter, decide_eq_true_iff, List.mem_map]

theorem mem_members {nodes : List ρ} {key id : JsString} :
    id ∈ Groups.members (figma.uses nodes) key ↔ id ∈ (figma.users nodes key).map figma.id := by
  rw [Groups.members, Firsts.mem_firsts_self, List.mem_map, List.mem_map]
  constructor
  · rintro ⟨e, he, rfl⟩
    obtain ⟨huse, hkey⟩ := List.mem_filter.1 he
    obtain ⟨node, hnode, hid, font, hfont, rfl⟩ := mem_uses.1 huse
    exact ⟨node, mem_users.2 ⟨hnode, hid, font, hfont, of_decide_eq_true hkey⟩, rfl⟩
  · rintro ⟨node, hnode, rfl⟩
    obtain ⟨hmem, hid, font, hfont, rfl⟩ := mem_users.1 hnode
    exact ⟨_, List.mem_filter.2 ⟨mem_uses.2 ⟨node, hmem, hid, font, hfont, rfl⟩,
      decide_eq_true rfl⟩, rfl⟩

/-- There are as many ids under a key as different nodes that use it. -/
theorem length_members [DecidableEq ρ] {nodes : List ρ} (hids : figma.OwnIds nodes)
    (key : JsString) :
    (Groups.members (figma.uses nodes) key).length = (figma.users nodes key).dedup.length := by
  have hmem : ∀ {node}, node ∈ (figma.users nodes key).dedup ↔ node ∈ figma.users nodes key :=
    List.mem_dedup
  have hnodup : ((figma.users nodes key).dedup.map figma.id).Nodup := by
    refine List.Nodup.map_on (fun a ha b hb hid => ?_) (List.nodup_dedup _)
    obtain ⟨ha, hnamed, -⟩ := mem_users.1 (hmem.1 ha)
    exact hids a ha b (mem_users.1 (hmem.1 hb)).1 hid hnamed
  have hlength : ((figma.users nodes key).dedup.map figma.id).length =
      (figma.users nodes key).dedup.length := List.length_map _
  rw [← hlength]
  refine ((List.perm_ext_iff_of_nodup Firsts.nodup_firsts_self hnodup).2 fun id => ?_).length_eq
  rw [← Groups.members, mem_members]
  simp only [List.mem_map, hmem]

theorem key_of_find {nodes : List ρ} {key : JsString} {e : FontUse}
    (h : (figma.uses nodes).find? (·.key = key) = some e) : key = fontKey e.value := by
  have hkey : e.key = key := by simpa using List.find?_some h
  obtain ⟨node, _, _, font, _, rfl⟩ := mem_uses.1 (List.mem_of_find?_eq_some h)
  exact hkey.symm

/-- A font that is listed is the first one of its key. -/
theorem mem_listing {nodes : List ρ} {usage : FontUsage} : usage ∈ figma.listing nodes ↔
    ∃ e, (figma.uses nodes).find? (·.key = fontKey usage.font) = some e ∧
      usage = fontUsage figma.observedCatalog (fontKey usage.font,
        ⟨e.value, (Groups.members (figma.uses nodes) (fontKey usage.font)).take maxInputIds⟩) := by
  rw [listing, List.mem_filterMap]
  constructor
  · rintro ⟨key, _, hgroup⟩
    obtain ⟨g, hg, rfl⟩ := Option.map_eq_some_iff.1 hgroup
    obtain ⟨e, he, rfl⟩ := Option.map_eq_some_iff.1 hg
    obtain rfl := key_of_find he
    exact ⟨e, he, rfl⟩
  · rintro ⟨e, he, husage⟩
    refine ⟨fontKey usage.font, ?_, ?_⟩
    · have hkey : e.key = fontKey usage.font := by simpa using List.find?_some he
      exact Firsts.mem_firsts_self.2
        (hkey ▸ List.mem_map_of_mem (List.mem_of_find?_eq_some he))
    · rw [Groups.group, he, Option.map_some, Option.map_some]
      exact congrArg some husage.symm

theorem font_of_listing {nodes : List ρ} {usage : FontUsage} (h : usage ∈ figma.listing nodes) :
    ∃ e, (figma.uses nodes).find? (·.key = fontKey usage.font) = some e ∧ usage.font = e.value ∧
      usage.nodeIds =
        (Groups.members (figma.uses nodes) (fontKey usage.font)).take maxInputIds := by
  obtain ⟨e, he, husage⟩ := mem_listing.1 h
  exact ⟨e, he, congrArg FontUsage.font husage, congrArg FontUsage.nodeIds husage⟩

/-- No font is listed twice. -/
theorem nodup_fonts_listing (nodes : List ρ) : ((figma.listing nodes).map (·.font)).Nodup := by
  have hkey : ∀ (key : JsString) (usage : FontUsage),
      ((Groups.group maxInputIds (figma.uses nodes) key).map fun font =>
        fontUsage figma.observedCatalog (key, font)) = some usage → fontKey usage.font = key := by
    intro key usage husage
    obtain ⟨g, hg, rfl⟩ := Option.map_eq_some_iff.1 husage
    obtain ⟨e, he, rfl⟩ := Option.map_eq_some_iff.1 hg
    exact (key_of_find he).symm
  have hkeys : ((figma.listing nodes).map fun usage => fontKey usage.font).Sublist
      ((Firsts.firsts (fun key => key) ((figma.uses nodes).map (·.key))).map fun key => key) :=
    Firsts.map_filterMap_sublist fun key _ => hkey key
  rw [List.map_id'] at hkeys
  refine List.Nodup.of_map fontKey ?_
  rw [List.map_map]
  exact Firsts.nodup_firsts_self.sublist hkeys

/-! ## When a read is complete -/

/-- What a use of a font comes to, where everything fits. -/
theorem exists_listing [DecidableEq ρ] {nodes : List ρ} {node : ρ} (hnode : node ∈ nodes)
    (hid : figma.id node ≠ []) {font : FontName} (hfont : font ∈ figma.fontsOf node)
    (hids : figma.OwnIds nodes) (hlistable : figma.Listable nodes) :
    ∃ usage ∈ figma.listing nodes, usage.font = font ∧ figma.id node ∈ usage.nodeIds := by
  have huse : (⟨fontKey font, font, figma.id node⟩ : FontUse) ∈ figma.uses nodes :=
    mem_uses.2 ⟨node, hnode, hid, font, hfont, rfl⟩
  have hfound : ((figma.uses nodes).find? (·.key = fontKey font)).isSome = true :=
    List.find?_isSome.2 ⟨_, huse, decide_eq_true rfl⟩
  obtain ⟨e, he⟩ := Option.isSome_iff_exists.1 hfound
  obtain ⟨first, hfirst, hfirstId, f, hf, heq⟩ := mem_uses.1 (List.mem_of_find?_eq_some he)
  have hkey := key_of_find he
  subst heq
  obtain rfl := hlistable.keyed node hnode hid first hfirst hfirstId font hfont f hf hkey
  have hfew := hlistable.few node hnode hid font hfont
  rw [← length_members hids] at hfew
  refine ⟨fontUsage figma.observedCatalog (fontKey font,
    ⟨font, (Groups.members (figma.uses nodes) (fontKey font)).take maxInputIds⟩),
    mem_listing.2 ⟨_, he, rfl⟩, rfl, ?_⟩
  show _ ∈ (Groups.members _ _).take _
  rw [List.take_of_length_le hfew, mem_members]
  exact List.mem_map_of_mem (mem_users.2 ⟨hnode, hid, font, hfont, rfl⟩)

/-- What a read that lists every use says of the nodes. -/
theorem listable_of_listed [DecidableEq ρ] {nodes : List ρ} (hids : figma.OwnIds nodes)
    (h : ∀ node ∈ nodes, figma.id node ≠ [] → ∀ font ∈ figma.fontsOf node,
      ∃ usage ∈ figma.listing nodes, usage.font = font ∧ figma.id node ∈ usage.nodeIds) :
    figma.Listable nodes := by
  -- the first use of its key is one of the font itself, and the node is among those kept
  have hfirst : ∀ node ∈ nodes, figma.id node ≠ [] → ∀ font ∈ figma.fontsOf node,
      ∃ e, (figma.uses nodes).find? (·.key = fontKey font) = some e ∧ font = e.value ∧
        figma.id node ∈ (Groups.members (figma.uses nodes) (fontKey font)).take maxInputIds := by
    intro node hnode hid font hfont
    obtain ⟨usage, husage, rfl, hmem⟩ := h node hnode hid font hfont
    obtain ⟨e, he, hvalue, hnodeIds⟩ := font_of_listing husage
    exact ⟨e, he, hvalue, hnodeIds ▸ hmem⟩
  refine ⟨fun a ha hida b hb hidb f hf g hg hkey => ?_, fun node hnode hid font hfont => ?_⟩
  · obtain ⟨e, he, hvalue, _⟩ := hfirst a ha hida f hf
    obtain ⟨e', he', hvalue', _⟩ := hfirst b hb hidb g hg
    rw [hkey, he'] at he
    rw [hvalue, hvalue', Option.some.inj he]
  · rw [← length_members hids]
    have hsubset : Groups.members (figma.uses nodes) (fontKey font) ⊆
        (Groups.members (figma.uses nodes) (fontKey font)).take maxInputIds := by
      intro id hmem
      obtain ⟨user, huser, rfl⟩ := List.mem_map.1 (mem_members.1 hmem)
      obtain ⟨hin, huserId, f, hf, hkey⟩ := mem_users.1 huser
      have ⟨_, _, _, hkept⟩ := hfirst user hin huserId f hf
      rwa [hkey] at hkept
    have hlength := (List.subperm_of_subset Firsts.nodup_firsts_self hsubset).length_le
    exact hlength.trans ((List.length_take_le _ _))

section Read

variable [DecidableEq ρ] {limits : SerializerLimits} {height : ρ → ℕ} {selector : Option Selector}
  {r : GetFontsResult}

/-- **A read of fonts is complete** if and only if no font has more nodes than it lists and no two
fonts have one key, or a limit cuts the read. -/
theorem getFonts_complete_iff (htree : figma.IsTree height)
    (hids : figma.OwnIds (figma.scope height selector))
    (h : figma.getFonts limits selector = .ok r) :
    figma.Complete (figma.scope height selector) r ↔
      (Fits limits (figma.scope height selector) (figma.listing (figma.scope height selector)) →
        figma.Listable (figma.scope height selector)) := by
  obtain ⟨hstart, hflag, hwhole⟩ := getFonts_accounts htree hids h
  constructor
  · intro hcomplete hfits
    have hnone := hflag.2 hfits
    exact listable_of_listed hids (hwhole hnone ▸ hcomplete.listed hnone)
  · intro hlistable
    refine ⟨fun hnone node hnode hid font hfont => ?_, ?_, fun usage husage => ?_⟩
    · rw [hwhole hnone]
      exact exists_listing hnode hid hfont hids (hlistable (hflag.1 hnone))
    · exact (nodup_fonts_listing _).sublist (hstart.sublist.map _)
    · obtain ⟨_, _, _, hnodeIds⟩ := font_of_listing (hstart.subset husage)
      rw [hnodeIds]
      exact Firsts.nodup_firsts_self.sublist (List.take_sublist _ _)

end Read

/-- A font. -/
def inter : FontName := { family := text "Inter", style := text "Regular" }

/-- Two text layers in a frame, of which one is set in a font that the editor lacks. -/
def typeset : FontFigma ℕ where
  get node key :=
    if key = "id" then .string (text (if node = 0 then "1:2" else if node = 1 then "1:3" else "1:4"))
    else if key = "type" then .string (text (if node = 3 then "PAGE" else if node = 0 then "FRAME"
      else "TEXT"))
    else if key = "fontName" then (if node = 1 then inter.toJs else .symbol)
    else if key = "characters" then .string (text "Hi")
    else if key = "getStyledTextSegments" then .method .undefined
    else .undefined
  parent node := if node = 1 ∨ node = 2 then some 0 else none
  children node := if node = 0 then [1, 2] else []
  children_length node := by split_ifs <;> simp
  get_units node key s h := by
    split_ifs at h <;> first
      | exact JsValue.string.inj h ▸ Utf16.units_ofString _
      | exact nomatch h
  currentPage := 3
  currentPage_isPage := by decide
  selection := []
  getNodeByIdAsync := some fun id => .found (if id = text "1:2" then 0 else 2)
  loadAsync _ := true
  throws _ _ := false
  fontSegments _ _ _ := some (.array [.object [(text "fontName", inter.toJs)],
    .object [(text "fontName",
      (FontName.mk (text "Roboto") (text "Bold")).toJs)]])
  listAvailableFontsAsync := some (some (.array [.object [(text "fontName", inter.toJs)]]))

/-- The frame and the second of its layers. -/
def frameAndLayer : Option Selector := some (.nodeIds [text "1:2", text "1:4"])

/-- The walk meets that layer twice. It is listed once under each of its fonts. -/
theorem getFonts_complete_iff_typeset :
    ∃ r, typeset.getFonts {} frameAndLayer = .ok r ∧
      typeset.scope (fun node => 1 - node) frameAndLayer = [0, 1, 2, 2] ∧
      r.fonts.map (·.nodeIds) = [[text "1:3", text "1:4"], [text "1:4"]] ∧
      typeset.Complete (typeset.scope (fun node => 1 - node) frameAndLayer) r := by
  have hlisted : ((typeset.getFonts {} frameAndLayer).toOption.map
      fun r => r.fonts.map (·.nodeIds)) = some [[text "1:3", text "1:4"], [text "1:4"]] := by
    decide +kernel
  obtain ⟨r, hr, hlisted⟩ := Option.map_eq_some_iff.1 hlisted
  have hread := Guard.toOption_eq_some.1 hr
  have hnodes : typeset.scope (fun node => 1 - node) frameAndLayer = [0, 1, 2, 2] := by
    decide +kernel
  have htree : typeset.IsTree fun node => 1 - node := by
    intro node child hchild
    have hmem := (Host.mem_visibleChildren _).1 hchild |>.1
    simp only [typeset] at hmem
    split_ifs at hmem with hnode
    · rcases List.mem_pair.1 hmem with rfl | rfl <;> subst hnode <;> decide
    · cases hmem
  have hids : typeset.OwnIds (typeset.scope (fun node => 1 - node) frameAndLayer) := by
    rw [hnodes]
    unfold Host.OwnIds
    decide +kernel
  have hlistable : typeset.Listable (typeset.scope (fun node => 1 - node) frameAndLayer) := by
    rw [hnodes]
    exact ⟨by decide +kernel, by decide +kernel⟩
  exact ⟨r, hread, hnodes, hlisted, (getFonts_complete_iff htree hids hread).2 fun _ => hlistable⟩

/-! ## A font with a node too many -/

theorem sum_map_le {α : Type} {size : α → ℕ} {bound : ℕ} {items : List α}
    (h : ∀ item ∈ items, size item ≤ bound) : (items.map size).sum ≤ items.length * bound := by
  have hsum := List.sum_le_card_nsmul (items.map size) bound fun bytes hbytes => by
    obtain ⟨item, hitem, rfl⟩ := List.mem_map.1 hbytes
    exact h item hitem
  rwa [List.length_map, smul_eq_mul] at hsum

/-- A page of text layers in one font, one more than a font lists. -/
def crowd : FontFigma ℕ where
  get node key :=
    if key = "id" then .string (text "0:" ++ NumberText.decimal node)
    else if key = "type" then .string (text (if node = 0 then "PAGE" else "TEXT"))
    else if key = "fontName" then inter.toJs
    else .undefined
  parent node := if node = 0 then none else some 0
  children node := if node = 0 then List.range' 1 (maxInputIds + 1) else []
  children_length node := by
    split_ifs
    · rw [List.length_range']
      decide
    · exact Nat.zero_lt_succ _
  get_units node key s h := by
    have hid : Utf16.Units (text "0:" ++ NumberText.decimal node) := fun u hu => by
      rcases List.mem_append.1 hu with hu | hu
      · exact Utf16.units_ofString _ u hu
      · have := NumberText.mem_decimal hu
        omega
    split_ifs at h
    · exact JsValue.string.inj h ▸ hid
    · exact JsValue.string.inj h ▸ Utf16.units_ofString _
    · exact JsValue.string.inj h ▸ Utf16.units_ofString _
    · exact nomatch h
  currentPage := 0
  currentPage_isPage := by decide
  selection := []
  getNodeByIdAsync := none
  loadAsync _ := true
  throws _ _ := false
  fontSegments _ _ _ := none
  listAvailableFontsAsync := none

/-- The levels below a node. -/
def crowdHeight (node : ℕ) : ℕ := 1 - node

theorem visibleChildren_crowd_zero : crowd.visibleChildren 0 = List.range' 1 (maxInputIds + 1) := by
  refine List.filter_eq_self.2 fun node hnode => ?_
  obtain ⟨n, rfl⟩ := Nat.exists_eq_succ_of_ne_zero (Nat.ne_of_gt (List.mem_range'_1.1 hnode).1)
  rfl

theorem isTree_crowd : crowd.IsTree crowdHeight := by
  intro node child hchild
  cases node with
  | zero =>
      rw [visibleChildren_crowd_zero] at hchild
      have := List.mem_range'_1.1 hchild
      rw [crowdHeight, crowdHeight]
      omega
  | succ n => cases hchild

theorem scope_crowd :
    crowd.scope crowdHeight none = 0 :: List.range' 1 (maxInputIds + 1) := by
  have hfound : crowd.resolveDesignRoots none = .ok { roots := [0] } := rfl
  rw [Figma.scope_eq hfound, Host.visibleNodes_singleton isTree_crowd, visibleChildren_crowd_zero,
    Host.visibleNodes_eq_flatMap]
  refine congrArg (0 :: ·) ((List.flatMap_congr fun node hnode => ?_).trans (List.flatMap_singleton' _))
  obtain ⟨n, rfl⟩ := Nat.exists_eq_succ_of_ne_zero (Nat.ne_of_gt (List.mem_range'_1.1 hnode).1)
  rw [Host.visibleNodes_singleton isTree_crowd]
  rfl

theorem id_crowd_injective : Function.Injective crowd.id := by
  intro a b h
  have hdecimal : NumberText.decimal a = NumberText.decimal b := List.append_cancel_left h
  rw [← NumberText.undecimal_decimal a, hdecimal, NumberText.undecimal_decimal]

theorem ownIds_crowd : crowd.OwnIds (crowd.scope crowdHeight none) :=
  fun _ _ _ _ hid _ => id_crowd_injective hid

theorem textFonts_crowd_succ (n : ℕ) :
    crowd.textFonts (n + 1) = .ok (some { id := crowd.id (n + 1), fonts := [inter] }) := by
  have htype : crowd.read (n + 1) "type" = .ok (word "TEXT") := rfl
  have hid : crowd.read (n + 1) "id" = .ok (.string (crowd.id (n + 1))) := rfl
  have hfont : crowd.read (n + 1) "fontName" = .ok inter.toJs := rfl
  rw [textFonts, htype, hid, hfont]
  simp
  rfl

theorem fontsOf_crowd_succ (n : ℕ) : crowd.fontsOf (n + 1) = [inter] := by
  rw [fontsOf, textFonts_crowd_succ]

theorem fontsOf_crowd_zero : crowd.fontsOf 0 = [] := rfl

theorem mem_fontsOf_crowd {node : ℕ} {font : FontName} (h : font ∈ crowd.fontsOf node) :
    font = inter := by
  cases node with
  | zero => cases h
  | succ n =>
      rw [fontsOf_crowd_succ] at h
      exact List.mem_singleton.1 h

theorem id_crowd_ne_nil (node : ℕ) : crowd.id node ≠ [] :=
  List.append_ne_nil_of_left_ne_nil (by decide) _

theorem length_users_crowd :
    (crowd.users (crowd.scope crowdHeight none) (fontKey inter)).dedup.length =
      maxInputIds + 1 := by
  have husers : crowd.users (crowd.scope crowdHeight none) (fontKey inter) =
      List.range' 1 (maxInputIds + 1) := by
    rw [users, scope_crowd, List.filter_cons_of_neg (by simp [fontsOf_crowd_zero])]
    refine List.filter_eq_self.2 fun node hnode => decide_eq_true ⟨id_crowd_ne_nil node, ?_⟩
    obtain ⟨n, rfl⟩ := Nat.exists_eq_succ_of_ne_zero (Nat.ne_of_gt (List.mem_range'_1.1 hnode).1)
    rw [fontsOf_crowd_succ]
    exact List.mem_singleton_self _
  rw [husers, List.dedup_eq_self.2 List.nodup_range', List.length_range']

theorem not_listable_crowd : ¬ crowd.Listable (crowd.scope crowdHeight none) := by
  intro h
  have hmem : 1 ∈ crowd.scope crowdHeight none := by
    rw [scope_crowd]
    exact List.mem_cons_of_mem _ (List.mem_range'_1.2 ⟨le_rfl, by decide⟩)
  have hfew := h.few 1 hmem (id_crowd_ne_nil 1) inter (by decide)
  rw [length_users_crowd] at hfew
  omega

/-- What a read of the page lists. -/
theorem of_mem_listing_crowd {usage : FontUsage}
    (h : usage ∈ crowd.listing (crowd.scope crowdHeight none)) :
    ∃ ids : List JsString, usage = ⟨inter, .unknown, ids⟩ ∧ ids.length ≤ maxInputIds ∧
      ∀ id ∈ ids, ∃ node < maxInputIds + 2, crowd.id node = id := by
  obtain ⟨e, he, husage⟩ := mem_listing.1 h
  obtain ⟨_, _, _, font, hfont, heq⟩ := mem_uses.1 (List.mem_of_find?_eq_some he)
  have hvalue : e.value = inter := by
    rw [heq]
    exact mem_fontsOf_crowd hfont
  rw [hvalue] at husage
  refine ⟨_, husage, List.length_take_le _ _, fun id hid => ?_⟩
  obtain ⟨node, hnode, rfl⟩ := List.mem_map.1 (mem_members.1 (List.mem_of_mem_take hid))
  have hscope := (mem_users.1 hnode).1
  rw [scope_crowd, List.mem_cons, List.mem_range'_1] at hscope
  exact ⟨node, by omega, rfl⟩

/-- Its bytes are few, for every id is short. -/
theorem bytes_crowd {usage : FontUsage}
    (h : usage ∈ crowd.listing (crowd.scope crowdHeight none)) : byteLength usage.toJs ≤ 20000 := by
  obtain ⟨ids, rfl, hlength, hids⟩ := of_mem_listing_crowd h
  have hshort : ∀ node < maxInputIds + 2, byteLength (.string (crowd.id node)) ≤ 8 := by
    intro node hnode
    have hplain : ∀ u ∈ crowd.id node, 0x30 ≤ u ∧ u < 0x5b := fun u hu => by
      rcases List.mem_append.1 hu with hu | hu
      · have : ∀ u ∈ text "0:", 0x30 ≤ u ∧ u < 0x5b := by decide
        exact this u hu
      · have := NumberText.mem_decimal hu
        omega
    have hdigits := NumberText.length_decimal_le (k := 4) (by decide)
      (hnode.trans (by decide : maxInputIds + 2 < 10 ^ 4))
    rw [byteLength_plain hplain, show (crowd.id node).length = 2 + (NumberText.decimal node).length
      from List.length_append]
    omega
  have hsum : ((ids.map JsValue.string).map byteLength).sum ≤ ids.length * 8 := by
    rw [List.map_map]
    refine sum_map_le fun id hid => ?_
    obtain ⟨node, hnode, rfl⟩ := hids id hid
    exact hshort node hnode
  have harray : byteLength (.array (ids.map .string)) ≤ 19000 := by
    have htext : ∀ item ∈ ids.map JsValue.string, HasText item := by
      intro item hitem
      obtain ⟨id, _, rfl⟩ := List.mem_map.1 hitem
      rfl
    rw [byteLength_array htext, List.length_map]
    rw [maxInputIds] at hlength
    omega
  have hfont : memberBytes (text "font", inter.toJs) ≤ 50 := by decide
  have havailability : memberBytes (text "availability", word "unknown") ≤ 30 := by decide
  have hkey : utf8ByteLength (quote (text "nodeIds")) = 9 := by decide
  have hvalues : ∀ m ∈ [(text "font", inter.toJs), (text "availability", word "unknown"),
      (text "nodeIds", JsValue.array (ids.map .string))], HasText m.2 := by
    simp only [List.forall_mem_cons]
    exact ⟨rfl, rfl, rfl, List.forall_mem_nil _⟩
  have hbytes := byteLength_object hvalues
  simp only [List.map_cons, List.sum_cons, List.map_nil, List.sum_nil] at hbytes
  rw [show memberBytes (text "nodeIds", JsValue.array (ids.map .string)) = 9 + 1 + _ from
    congrArg (· + 1 + _) hkey] at hbytes
  refine hbytes.trans_le ?_
  simp only [List.length_cons, List.length_nil]
  omega

/-- One font alone is listed, with no more than so many bytes. -/
theorem fits_crowd : Fits {} (crowd.scope crowdHeight none)
    (crowd.listing (crowd.scope crowdHeight none)) := by
  have hone : (crowd.listing (crowd.scope crowdHeight none)).length ≤ 1 := by
    have hsubset : (crowd.listing (crowd.scope crowdHeight none)).map (·.font) ⊆ [inter] := by
      intro font hmem
      obtain ⟨usage, husage, rfl⟩ := List.mem_map.1 hmem
      obtain ⟨ids, rfl, _⟩ := of_mem_listing_crowd husage
      exact List.mem_singleton_self _
    have hlength := (List.subperm_of_subset (nodup_fonts_listing _) hsubset).length_le
    rwa [List.length_map] at hlength
  refine ⟨?_, hone.trans (by decide), ?_⟩
  · rw [scope_crowd, List.length_cons, List.length_range']
    decide
  · refine (sum_map_le fun _ => bytes_crowd).trans ((Nat.mul_le_mul_right 20000 hone).trans ?_)
    decide

/-- **A read that is not truncated and leaves a node out.** -/
theorem getFonts_incomplete : ∃ r, crowd.getFonts {} none = .ok r ∧ r.truncated = false ∧
    ¬ crowd.Complete (crowd.scope crowdHeight none) r := by
  have hread : ∀ node ∈ crowd.scope crowdHeight none, ∃ t, crowd.textFonts node = .ok t := by
    intro node _
    cases node with
    | zero => exact ⟨none, rfl⟩
    | succ n => exact ⟨_, textFonts_crowd_succ n⟩
  obtain ⟨r, hr⟩ := getFonts_returns isTree_crowd rfl ownIds_crowd hread
  obtain ⟨_, hflag, hwhole⟩ := getFonts_accounts isTree_crowd ownIds_crowd hr
  have hnone := hflag.2 fits_crowd
  refine ⟨r, hr, hnone, fun hcomplete => not_listable_crowd ?_⟩
  exact listable_of_listed ownIds_crowd (hwhole hnone ▸ hcomplete.listed hnone)

end FontFigma

end FigmaDevMcp

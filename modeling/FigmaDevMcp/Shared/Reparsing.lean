import FigmaDevMcp.Shared.Accepting

set_option autoImplicit false

/-!
# Messages that are parsed again

The user interface parses what the broker sends and hands it on; the controller parses that once
more. A parser builds its message anew, with its strings trimmed and its defaults in place, so what
it builds is not what it was given; it parses to itself all the same.

* `Settles`: what a parser gives is printed to something that it parses to the same;
* `parseSelector_again`, `parseScopedInput_settles`, …: the parsers of the inputs;
* `parseReadOperation_again`: every operation parses to itself but a search with a blank cursor;
* `parseControllerBoundMessage_eq_ok`: **which requests the controller takes as they are**.
-/

namespace FigmaDevMcp.Plugin

open JsValue

/-! ## Parsers that settle -/

/-- What has been parsed, printed and parsed again is the same. -/
def Settles {α : Type} (parser : JsValue → JsString → Parsed α) (print : α → JsValue) : Prop :=
  ∀ ⦃value label a⦄, parser value label = .ok a → ∀ label, parser (print a) label = .ok a

section

variable {α : Type} {parser : JsValue → JsString → Parsed α} {print : α → JsValue}

theorem settles_of_ok {p : α → Prop} (hp : ∀ {value label a}, parser value label = .ok a → p a)
    (hok : ∀ {a}, p a → ∀ label, parser (print a) label = .ok a) : Settles parser print := by
  intro value label a h
  exact hok (hp h)

/-- A member that may be missing, in an object that has been parsed and in the one printed. -/
theorem Settles.optionalMember (h : Settles parser print) {object : JsValue} {members : List Member}
    {key : String} {x : Option α} (hparsed : optionalMember object key parser = .ok x)
    (hlookup : lookup (text key) members = x.map print) :
    optionalMember (.object members) key parser = .ok x := by
  rw [optionalMember_eq hlookup]
  cases x with
  | none => rfl
  | some a =>
      unfold Plugin.optionalMember at hparsed
      split_ifs at hparsed
      · obtain ⟨b, hb, heq⟩ := map_some_eq_ok.1 hparsed
        obtain rfl := Option.some.inj heq
        rw [Option.elim_some, h hb]
        rfl
      · cases hparsed

theorem Settles.parseItems (h : Settles parser print) {label label' : JsString} {index index' : ℕ}
    {items : List JsValue} {as : List α} (hparsed : parseItems parser label index items = .ok as) :
    Plugin.parseItems parser label' index' (as.map print) = .ok as := by
  induction items generalizing index index' as with
  | nil =>
      rw [← Except.ok.inj hparsed]
      rfl
  | cons item items ih =>
      rw [Plugin.parseItems] at hparsed
      obtain ⟨a, ha, hrest⟩ := Guard.bind_eq_ok.1 hparsed
      obtain ⟨rest, hitems, heq⟩ := Guard.bind_eq_ok.1 hrest
      rw [← Except.ok.inj heq, List.map_cons, Plugin.parseItems, h ha, Guard.ok_bind, ih hitems]
      rfl

theorem length_parseItems {label : JsString} {index : ℕ} {items : List JsValue} {as : List α}
    (h : Plugin.parseItems parser label index items = .ok as) : as.length = items.length := by
  induction items generalizing index as with
  | nil =>
      rw [← Except.ok.inj h]
      rfl
  | cons item items ih =>
      rw [Plugin.parseItems] at h
      obtain ⟨a, -, hrest⟩ := Guard.bind_eq_ok.1 h
      obtain ⟨rest, hitems, heq⟩ := Guard.bind_eq_ok.1 hrest
      rw [← Except.ok.inj heq, List.length_cons, List.length_cons, ih hitems]

end

/-! ## Single values -/

theorem boundedString_inv {value : JsValue} {label s : JsString} {maximumBytes : ℕ}
    {allowEmpty : Bool} (h : boundedString value label maximumBytes allowEmpty = .ok s) :
    (allowEmpty = false → s ≠ []) ∧ utf8ByteLength s ≤ maximumBytes := by
  cases value with
  | string t =>
      rw [boundedString] at h
      split_ifs at h with hblank hbytes
      · cases h
      · cases h
      · rw [← Except.ok.inj h]
        exact ⟨fun hallow ht => hblank ⟨hallow, ht⟩, Nat.not_lt.1 hbytes⟩
  | _ => cases h

theorem identifier_inv {value : JsValue} {label s : JsString} (h : identifier value label = .ok s) :
    IsIdentifier s := by
  obtain ⟨hne, hbytes⟩ := boundedString_inv h
  exact ⟨hne rfl, hbytes⟩

theorem identifier_settles : Settles identifier .string :=
  settles_of_ok identifier_inv identifier_ok

theorem boolean_settles : Settles boolean .bool := by
  intro value label b _ label'
  rfl

theorem unsignedInteger_inv {value : JsValue} {label : JsString} {n : ℕ}
    (h : unsignedInteger value label = .ok n) : n < 2 ^ 53 := by
  obtain ⟨q, -, h⟩ := Guard.bind_eq_ok.1 h
  rw [safeInteger] at h
  split_ifs at h with hsafe
  · rw [← Except.ok.inj h]
    omega
  · cases h

theorem unsignedInteger_settles : Settles unsignedInteger natural :=
  settles_of_ok unsignedInteger_inv unsignedInteger_ok

theorem detailLevel_settles : Settles detailLevel fun level => FigmaDevMcp.word level.word := by
  intro value label level _ label'
  cases level <;> rfl

theorem depthUpTo_settles : Settles depthUpTo natural := by
  intro value label depth h label'
  obtain ⟨n, hn, h⟩ := Guard.bind_eq_ok.1 h
  split_ifs at h with hdeep
  · cases h
  · obtain rfl := Except.ok.inj h
    rw [depthUpTo, unsignedInteger_settles hn, Guard.ok_bind, if_neg hdeep]

theorem parseStyleSource_settles :
    Settles parseStyleSource fun source => FigmaDevMcp.word source.word := by
  intro value label source _ label'
  cases source <;> rfl

theorem screenshotScale_settles : Settles screenshotScale .rational := by
  intro value label scale h label'
  obtain ⟨q, -, h⟩ := Guard.bind_eq_ok.1 h
  split_ifs at h with hrange
  · cases h
  · obtain rfl := Except.ok.inj h
    show (if q < 1 / 4 ∨ 4 < q then _ else _) = _
    rw [if_neg hrange]

theorem stringList_settles (maximum : ℕ) :
    Settles (fun value label => stringList value label maximum)
      fun ids => .array (ids.map .string) := by
  intro value label ids h label'
  dsimp only at h ⊢
  cases value with
  | array items =>
      rw [stringList] at h
      split_ifs at h with hlong
      · cases h
      · have hlength := length_parseItems h
        rw [stringList, if_neg (by rw [List.length_map, hlength]; exact hlong)]
        exact identifier_settles.parseItems h
  | _ => cases h

/-! ## Selectors -/

theorem parseSelector_again {value : JsValue} {pageLimit : ℕ} {selector : Selector}
    (h : parseSelector value pageLimit = .ok selector) :
    parseSelector selector.toJs pageLimit = .ok selector := by
  obtain ⟨object, -, h⟩ := Guard.bind_eq_ok.1 h
  split at h
  · split_ifs at h
    · split at h
      · rw [← Except.ok.inj h]
        rfl
      · cases h
    · obtain ⟨id, hid, heq⟩ := Guard.bind_eq_ok.1 h
      rw [← Except.ok.inj heq]
      show (do return Selector.pageId (← identifier (.string id) _) : Parsed Selector) = _
      rw [identifier_settles hid]
      rfl
    · obtain ⟨ids, hids, heq⟩ := Guard.bind_eq_ok.1 h
      have hagain := stringList_settles pageLimit hids (text "pageIds")
      dsimp only at hagain
      rw [← Except.ok.inj heq]
      show (do return Selector.pageIds (← stringList (.array (ids.map .string)) _ pageLimit) :
        Parsed Selector) = _
      rw [hagain]
      rfl
    · obtain ⟨id, hid, heq⟩ := Guard.bind_eq_ok.1 h
      rw [← Except.ok.inj heq]
      show (do return Selector.nodeId (← identifier (.string id) _) : Parsed Selector) = _
      rw [identifier_settles hid]
      rfl
    · obtain ⟨ids, hids, heq⟩ := Guard.bind_eq_ok.1 h
      have hagain := stringList_settles maxInputIds hids (text "nodeIds")
      dsimp only at hagain
      rw [← Except.ok.inj heq]
      show (do return Selector.nodeIds (← stringList (.array (ids.map .string)) _ maxInputIds) :
        Parsed Selector) = _
      rw [hagain]
      rfl
    · cases h
  · cases h

theorem parseScreenshotSelector_again {value : JsValue} {selector : Selector}
    (h : parseScreenshotSelector value = .ok selector) :
    parseScreenshotSelector selector.toJs = .ok selector := by
  obtain ⟨parsed, hparsed, h⟩ := Guard.bind_eq_ok.1 h
  have hagain := parseSelector_again hparsed
  cases parsed with
  | pageId id => cases h
  | pageIds ids => cases h
  | selection | nodeId id | nodeIds ids =>
      rw [← Except.ok.inj h]
      rw [parseScreenshotSelector, hagain]
      rfl

/-! ## Inputs -/

/-- The members of an object are known, and those that must be there are. -/
theorem parseFileScope_object {members : List Member} {label : JsString} {optional : List String}
    (hkeys : ∀ key ∈ members.map Prod.fst, key ∈ ("connectionId" :: optional).map text) :
    parseFileScope (.object members) label optional = .ok (.object members) :=
  exact_object hkeys nofun

theorem key_fileScope {key : JsString} {connectionId : Option JsString}
    (h : key ∈ (fileScope connectionId).map Prod.fst) : key = text "connectionId" :=
  key_optional h

theorem copyFileScope_again {object : JsValue} {members : List Member} {connectionId : Option JsString}
    (h : copyFileScope object = .ok connectionId)
    (hlookup : lookup (text "connectionId") members = connectionId.map .string) :
    copyFileScope (.object members) = .ok connectionId :=
  identifier_settles.optionalMember h hlookup

theorem optionalSelector_again {object : JsValue} {members : List Member} {selector : Option Selector}
    (h : optionalSelector object = .ok selector)
    (hlookup : lookup (text "selector") members = selector.map Selector.toJs) :
    optionalSelector (.object members) = .ok selector :=
  have hsettles : Settles (fun value _ => parseSelector value maxPageIds) Selector.toJs :=
    fun _ _ _ hparsed _ => parseSelector_again hparsed
  hsettles.optionalMember h hlookup

theorem key_members {key : JsString} {input : ScopedInput}
    (h : key ∈ input.members.map Prod.fst) : key = text "connectionId" ∨ key = text "selector" := by
  rw [ScopedInput.members, List.map_append, List.mem_append] at h
  exact h.imp key_fileScope key_optional

theorem parseScopedInput_settles : Settles parseScopedInput ScopedInput.toJs := by
  intro value label input h label'
  obtain ⟨object, -, h⟩ := Guard.bind_eq_ok.1 h
  obtain ⟨connectionId, hconnection, h⟩ := Guard.bind_eq_ok.1 h
  obtain ⟨selector, hselector, h⟩ := Guard.bind_eq_ok.1 h
  rw [← Except.ok.inj h, parseScopedInput, ScopedInput.toJs, parseFileScope_object]
  · rw [Guard.ok_bind, copyFileScope_again hconnection, optionalSelector_again hselector]
    · rfl
    all_goals simp [ScopedInput.members, fileScope, lookup_append, lookup_optional]
  · intro key hkey
    rcases key_members hkey with rfl | rfl <;> decide

/-- An object without a member that it has at its end. -/
theorem without_append_member {input : ScopedInput} {key : String} (value : JsValue)
    (hconnection : text key ≠ text "connectionId") (hselector : text key ≠ text "selector") :
    without (.object (input.members ++ member key value)) key = input.toJs := by
  have hfirst : input.members.filter (fun entry => entry.1 ≠ text key) = input.members := by
    rw [List.filter_eq_self]
    intro entry hentry
    rw [decide_eq_true_eq]
    rintro heq
    rcases key_members (List.mem_map_of_mem hentry) with hkey | hkey
    · exact hconnection (heq.symm.trans hkey)
    · exact hselector (heq.symm.trans hkey)
  have hlast : (member key value).filter (fun entry => entry.1 ≠ text key) = [] := by
    simp [member]
  rw [without, JsValue.entries, List.filter_append, hfirst, hlast, List.append_nil]
  rfl

/-- A scoped input with one more member, which is always printed. -/
theorem parseScopedWith_again {α : Type} {parser : JsValue → JsString → Parsed α}
    {print : α → JsValue} (hsettles : Settles parser print) {value : JsValue} {label : JsString}
    {key : String} {default a : α} {input : ScopedInput}
    (hconnection : text key ≠ text "connectionId") (hselector : text key ≠ text "selector")
    (hdefault : ∀ label, parser (print default) label = .ok default)
    (h : parseScopedWith value label key parser default = .ok (input, a)) :
    parseScopedWith (.object (input.members ++ member key (print a))) label key parser default =
      .ok (input, a) := by
  obtain ⟨object, -, h⟩ := Guard.bind_eq_ok.1 h
  obtain ⟨parsed, hparsed, h⟩ := Guard.bind_eq_ok.1 h
  obtain ⟨extra, hextra, h⟩ := Guard.bind_eq_ok.1 h
  obtain ⟨rfl, rfl⟩ := Prod.mk.inj (Except.ok.inj h)
  have hlookup : lookup (text key) (parsed.members ++ member key (print (extra.getD default))) =
      (some (extra.getD default)).map print := by
    have hnone : lookup (text key) parsed.members = none := by
      rw [← Option.not_isSome_iff_eq_none, lookup_isSome]
      intro hmem
      exact (key_members hmem).elim hconnection hselector
    rw [lookup_append, hnone, lookup_member, if_pos rfl]
    rfl
  have hagain : optionalMember (.object (parsed.members ++ member key (print (extra.getD default))))
      key parser = .ok (some (extra.getD default)) := by
    rw [optionalMember_eq hlookup, Option.elim_some]
    cases extra with
    | none =>
        rw [Option.getD_none, hdefault]
        rfl
    | some b =>
        unfold Plugin.optionalMember at hextra
        split_ifs at hextra
        · obtain ⟨c, hc, heq⟩ := map_some_eq_ok.1 hextra
          obtain rfl := Option.some.inj heq
          rw [Option.getD_some, hsettles hc]
          rfl
        · cases hextra
  rw [parseScopedWith, parseFileScope_object, Guard.ok_bind,
    without_append_member _ hconnection hselector, parseScopedInput_settles hparsed, Guard.ok_bind,
    hagain]
  · rfl
  · intro k hk
    rw [List.map_append, List.mem_append] at hk
    rcases hk with hk | hk
    · rcases key_members hk with rfl | rfl <;> simp
    · rw [key_member hk]
      simp

theorem parseGetSelectionInput_again {value : JsValue} {input : GetSelectionInput}
    (h : parseGetSelectionInput value = .ok input) :
    parseGetSelectionInput input.toJs = .ok input := by
  obtain ⟨object, -, h⟩ := Guard.bind_eq_ok.1 h
  obtain ⟨connectionId, hconnection, h⟩ := Guard.bind_eq_ok.1 h
  obtain ⟨detail, hdetail, h⟩ := Guard.bind_eq_ok.1 h
  obtain ⟨depth, hdepth, h⟩ := Guard.bind_eq_ok.1 h
  rw [← Except.ok.inj h, parseGetSelectionInput, GetSelectionInput.toJs, parseFileScope_object,
    Guard.ok_bind, copyFileScope_again hconnection, Guard.ok_bind,
    detailLevel_settles.optionalMember hdetail, Guard.ok_bind, optionalDepth,
    depthUpTo_settles.optionalMember hdepth]
  · rfl
  · simp [fileScope, detailAndDepth, lookup_append, lookup_optional]
  · simp [fileScope, detailAndDepth, lookup_append, lookup_optional]
  · simp [fileScope, detailAndDepth, lookup_append, lookup_optional]
  · intro key hkey
    simp only [List.map_append, List.mem_append, detailAndDepth] at hkey
    rcases hkey with hkey | hkey | hkey
    · rw [key_fileScope hkey]
      decide
    · rw [key_optional hkey]
      decide
    · rw [key_optional hkey]
      decide

theorem parseGetNodesInput_again {value : JsValue} {input : GetNodesInput}
    (h : parseGetNodesInput value = .ok input) : parseGetNodesInput input.toJs = .ok input := by
  obtain ⟨object, -, h⟩ := Guard.bind_eq_ok.1 h
  obtain ⟨connectionId, hconnection, h⟩ := Guard.bind_eq_ok.1 h
  obtain ⟨ids, hids, h⟩ := Guard.bind_eq_ok.1 h
  obtain ⟨detail, hdetail, h⟩ := Guard.bind_eq_ok.1 h
  obtain ⟨depth, hdepth, h⟩ := Guard.bind_eq_ok.1 h
  have hagain := stringList_settles maxInputIds hids (text "nodeIds")
  dsimp only at hagain
  rw [← Except.ok.inj h, parseGetNodesInput, GetNodesInput.toJs]
  generalize hmembers : fileScope connectionId ++ member "nodeIds" (.array (ids.map .string)) ++
    detailAndDepth detail depth = members
  have hnodes : lookup (text "nodeIds") members = some (.array (ids.map .string)) := by
    simp [← hmembers, fileScope, detailAndDepth, lookup_append, lookup_member, lookup_optional]
  have hexact : exact (.object members) (text "get_nodes input") ["nodeIds"]
      ["connectionId", "detail", "depth"] = .ok (.object members) := by
    refine exact_object ?_ (by simp [hnodes])
    intro key hkey
    simp only [← hmembers, List.map_append, List.mem_append, detailAndDepth] at hkey
    rcases hkey with (hkey | hkey) | hkey | hkey
    · rw [key_fileScope hkey]
      decide
    · rw [key_member hkey]
      decide
    · rw [key_optional hkey]
      decide
    · rw [key_optional hkey]
      decide
  rw [hexact, Guard.ok_bind, copyFileScope_again hconnection, Guard.ok_bind, field_eq hnodes, hagain,
    Guard.ok_bind, detailLevel_settles.optionalMember hdetail, Guard.ok_bind, optionalDepth,
    depthUpTo_settles.optionalMember hdepth]
  · rfl
  all_goals
    simp [← hmembers, fileScope, detailAndDepth, lookup_append, lookup_member, lookup_optional]

theorem parseGetDesignContextInput_again {value : JsValue} {input : GetDesignContextInput}
    (h : parseGetDesignContextInput value = .ok input) :
    parseGetDesignContextInput input.toJs = .ok input := by
  obtain ⟨object, -, h⟩ := Guard.bind_eq_ok.1 h
  obtain ⟨connectionId, hconnection, h⟩ := Guard.bind_eq_ok.1 h
  obtain ⟨dedupe, hdedupe, h⟩ := Guard.bind_eq_ok.1 h
  obtain ⟨selector, hselector, h⟩ := Guard.bind_eq_ok.1 h
  obtain ⟨detail, hdetail, h⟩ := Guard.bind_eq_ok.1 h
  obtain ⟨depth, hdepth, h⟩ := Guard.bind_eq_ok.1 h
  rw [← Except.ok.inj h, parseGetDesignContextInput, GetDesignContextInput.toJs]
  dsimp only
  generalize hmembers : fileScope connectionId ++
    member "dedupeComponents" (.bool (dedupe.getD false)) ++
    optional "selector" (selector.map Selector.toJs) ++ detailAndDepth detail depth = members
  have hflag : optionalMember (.object members) "dedupeComponents" boolean =
      .ok (some (dedupe.getD false)) := by
    have hlookup : lookup (text "dedupeComponents") members =
        (some (dedupe.getD false)).map .bool := by
      simp [← hmembers, fileScope, detailAndDepth, lookup_append, lookup_member, lookup_optional]
    rw [optionalMember_eq hlookup]
    rfl
  rw [parseFileScope_object, Guard.ok_bind, copyFileScope_again hconnection, Guard.ok_bind, hflag,
    Guard.ok_bind, optionalSelector_again hselector, Guard.ok_bind,
    detailLevel_settles.optionalMember hdetail, Guard.ok_bind, optionalDepth,
    depthUpTo_settles.optionalMember hdepth]
  · rfl
  · simp [← hmembers, fileScope, detailAndDepth, lookup_append, lookup_member, lookup_optional]
  · simp [← hmembers, fileScope, detailAndDepth, lookup_append, lookup_member, lookup_optional]
  · simp [← hmembers, fileScope, detailAndDepth, lookup_append, lookup_member, lookup_optional]
  · simp [← hmembers, fileScope, detailAndDepth, lookup_append, lookup_member, lookup_optional]
  · intro key hkey
    simp only [← hmembers, List.map_append, List.mem_append, detailAndDepth] at hkey
    rcases hkey with ((hkey | hkey) | hkey) | hkey | hkey
    · rw [key_fileScope hkey]
      decide
    · rw [key_member hkey]
      decide
    · rw [key_optional hkey]
      decide
    · rw [key_optional hkey]
      decide
    · rw [key_optional hkey]
      decide

/-! ## Screenshots -/

theorem parseRasterInput_again {object : JsValue} {format : ScreenshotFormat}
    {input : GetScreenshotInput} (h : parseRasterInput object format = .ok input) :
    parseScreenshotInput input.toJs = .ok input := by
  obtain ⟨raster, -, h⟩ := Guard.bind_eq_ok.1 h
  obtain ⟨connectionId, hconnection, h⟩ := Guard.bind_eq_ok.1 h
  obtain ⟨selector, hselector, h⟩ := Guard.bind_eq_ok.1 h
  obtain ⟨scale, hscale, h⟩ := Guard.bind_eq_ok.1 h
  have hagain := parseScreenshotSelector_again hselector
  rw [← Except.ok.inj h, GetScreenshotInput.toJs]
  generalize hmembers : member "format" (FigmaDevMcp.word format.word) ++ fileScope connectionId ++
    member "selector" selector.toJs ++ optional "scale" (scale.map .rational) = members
  have hformat : lookup (text "format") members = some (FigmaDevMcp.word format.word) := by
    simp [← hmembers, lookup_append, lookup_member]
  have hsel : lookup (text "selector") members = some selector.toJs := by
    simp [← hmembers, fileScope, lookup_append, lookup_member, lookup_optional]
  have hexact : exact (.object members) (text "raster screenshot input") ["format", "selector"]
      ["connectionId", "scale"] = .ok (.object members) := by
    refine exact_object ?_ (by simp [hformat, hsel])
    intro key hkey
    simp only [← hmembers, List.map_append, List.mem_append] at hkey
    rcases hkey with ((hkey | hkey) | hkey) | hkey
    · rw [key_member hkey]
      decide
    · rw [key_fileScope hkey]
      decide
    · rw [key_member hkey]
      decide
    · rw [key_optional hkey]
      decide
  have hraster : parseRasterInput (.object members) format =
      .ok (.raster format connectionId selector scale) := by
    rw [parseRasterInput, hexact, Guard.ok_bind, copyFileScope_again hconnection, Guard.ok_bind,
      field_eq hsel, hagain, Guard.ok_bind, screenshotScale_settles.optionalMember hscale]
    · rfl
    all_goals simp [← hmembers, fileScope, lookup_append, lookup_member, lookup_optional]
  rw [parseScreenshotInput, record, Guard.ok_bind, field_eq hformat]
  simp only [isWord_word]
  cases format with
  | png => exact hraster
  | jpeg => exact hraster

/-- A flag that has been printed. -/
theorem optionalBoolean_of_lookup {members : List Member} {key : String} {b : Bool}
    (h : lookup (text key) members = some (.bool b)) :
    optionalMember (.object members) key boolean = .ok (some b) := by
  rw [optionalMember_eq (x := some b) (f := .bool) h]
  rfl

theorem parseSvgInput_again {object : JsValue} {input : GetScreenshotInput}
    (h : parseSvgInput object = .ok input) : parseScreenshotInput input.toJs = .ok input := by
  obtain ⟨svg, -, h⟩ := Guard.bind_eq_ok.1 h
  obtain ⟨connectionId, hconnection, h⟩ := Guard.bind_eq_ok.1 h
  obtain ⟨selector, hselector, h⟩ := Guard.bind_eq_ok.1 h
  obtain ⟨outline, -, h⟩ := Guard.bind_eq_ok.1 h
  obtain ⟨ids, -, h⟩ := Guard.bind_eq_ok.1 h
  obtain ⟨simplify, -, h⟩ := Guard.bind_eq_ok.1 h
  have hagain := parseScreenshotSelector_again hselector
  rw [← Except.ok.inj h, GetScreenshotInput.toJs]
  generalize outline.getD true = outlineText
  generalize ids.getD false = idAttribute
  generalize simplify.getD true = simplifyStroke
  generalize hmembers : member "format" (FigmaDevMcp.word "svg") ++ fileScope connectionId ++
    member "selector" selector.toJs ++ member "svgOutlineText" (.bool outlineText) ++
    member "svgIdAttribute" (.bool idAttribute) ++
    member "svgSimplifyStroke" (.bool simplifyStroke) = members
  have hformat : lookup (text "format") members = some (FigmaDevMcp.word "svg") := by
    simp [← hmembers, lookup_append, lookup_member]
  have hsel : lookup (text "selector") members = some selector.toJs := by
    simp [← hmembers, fileScope, lookup_append, lookup_member, lookup_optional]
  have hexact : exact (.object members) (text "SVG screenshot input") ["format", "selector"]
      ["connectionId", "svgOutlineText", "svgIdAttribute", "svgSimplifyStroke"] =
        .ok (.object members) := by
    refine exact_object ?_ (by simp [hformat, hsel])
    intro key hkey
    simp only [← hmembers, List.map_append, List.mem_append] at hkey
    rcases hkey with ((((hkey | hkey) | hkey) | hkey) | hkey) | hkey
    · rw [key_member hkey]
      decide
    · rw [key_fileScope hkey]
      decide
    all_goals
      rw [key_member hkey]
      decide
  have hsvg : parseSvgInput (.object members) =
      .ok (.svg connectionId selector outlineText idAttribute simplifyStroke) := by
    rw [parseSvgInput, hexact, Guard.ok_bind, copyFileScope_again hconnection, Guard.ok_bind,
      field_eq hsel, hagain, Guard.ok_bind, optionalBoolean_of_lookup (b := outlineText),
      optionalBoolean_of_lookup (b := idAttribute), optionalBoolean_of_lookup (b := simplifyStroke)]
    · rfl
    all_goals simp [← hmembers, fileScope, lookup_append, lookup_member, lookup_optional]
  rw [parseScreenshotInput, record, Guard.ok_bind, field_eq hformat]
  simp only [isWord_word]
  exact hsvg

theorem parseScreenshotInput_again {value : JsValue} {input : GetScreenshotInput}
    (h : parseScreenshotInput value = .ok input) : parseScreenshotInput input.toJs = .ok input := by
  obtain ⟨object, -, h⟩ := Guard.bind_eq_ok.1 h
  dsimp only at h
  split_ifs at h
  · exact parseRasterInput_again h
  · exact parseRasterInput_again h
  · exact parseSvgInput_again h
  · cases h

/-! ## Searches -/

/-- A string that a parser has trimmed. -/
def Trimmed (s : JsString) : Prop := Visible s ∧ trim s = s

theorem trimmed_trim {s : JsString} (h : trim s ≠ []) : Trimmed (trim s) :=
  ⟨(trim_ne_nil.1 h).trim, trim_trim s⟩

theorem searchQuery_inv {value : JsValue} {label query : JsString}
    (h : searchQuery value label = .ok query) : utf8ByteLength query ≤ maxQueryBytes ∧ Trimmed query := by
  obtain ⟨s, hs, h⟩ := Guard.bind_eq_ok.1 h
  dsimp only at h
  split_ifs at h with hblank
  · cases h
  · rw [← Except.ok.inj h]
    exact ⟨(utf8ByteLength_trim_le s).trans (boundedString_inv hs).2, trimmed_trim hblank⟩

theorem searchTypesFrom_inv {label : JsString} {index : ℕ} {ids types : List JsString}
    (h : searchTypesFrom label index ids = .ok types) :
    types = ids.map trim ∧ ∀ s ∈ types, Trimmed s := by
  obtain ⟨hvisible, rfl⟩ := searchTypesFrom_eq_ok.1 h
  refine ⟨rfl, fun s hs => ?_⟩
  obtain ⟨id, hid, rfl⟩ := List.mem_map.1 hs
  exact trimmed_trim (trim_ne_nil.2 (hvisible id hid))

theorem mem_parseItems {label : JsString} {index : ℕ} {items : List JsValue} {ids : List JsString}
    (h : parseItems identifier label index items = .ok ids) : ∀ id ∈ ids, IsIdentifier id := by
  induction items generalizing index ids with
  | nil =>
      rw [← Except.ok.inj h]
      exact List.forall_mem_nil _
  | cons item items ih =>
      obtain ⟨id, hid, h⟩ := Guard.bind_eq_ok.1 h
      obtain ⟨rest, hrest, heq⟩ := Guard.bind_eq_ok.1 h
      rw [← Except.ok.inj heq, List.forall_mem_cons]
      exact ⟨identifier_inv hid, ih hrest⟩

theorem stringList_inv {value : JsValue} {label : JsString} {maximum : ℕ} {ids : List JsString}
    (h : stringList value label maximum = .ok ids) :
    ids.length ≤ maximum ∧ ∀ id ∈ ids, IsIdentifier id := by
  cases value with
  | array items =>
      rw [stringList] at h
      split_ifs at h with hlong
      · cases h
      · refine ⟨?_, mem_parseItems h⟩
        rw [length_parseItems h]
        exact Nat.not_lt.1 hlong
  | _ => cases h

theorem searchTypes_inv {value : JsValue} {label : JsString} {types : List JsString}
    (h : searchTypes value label = .ok types) :
    types.length ≤ maxInputIds ∧ ∀ s ∈ types, IsIdentifier s ∧ Trimmed s := by
  obtain ⟨ids, hids, h⟩ := Guard.bind_eq_ok.1 h
  obtain ⟨hlength, hidentifiers⟩ := stringList_inv hids
  obtain ⟨rfl, htrimmed⟩ := searchTypesFrom_inv h
  refine ⟨by rwa [List.length_map], fun s hs => ⟨?_, htrimmed s hs⟩⟩
  obtain ⟨id, hid, rfl⟩ := List.mem_map.1 hs
  refine ⟨?_, (utf8ByteLength_trim_le id).trans (hidentifiers id hid).2⟩
  rw [← trim_trim]
  exact trim_ne_nil.2 (htrimmed _ hs).1

theorem searchCursor_inv {value : JsValue} {label cursor : JsString}
    (h : searchCursor value label = .ok cursor) :
    utf8ByteLength cursor ≤ maxSearchCursorBytes ∧ trim cursor = cursor := by
  obtain ⟨s, hs, rfl⟩ := Guard.map_eq_ok.1 h
  exact ⟨(utf8ByteLength_trim_le s).trans (boundedString_inv hs).2, trim_trim s⟩

/-- What a parser has given for a member that may be missing. -/
theorem optionalMember_inv {α : Type} {object : JsValue} {key : String}
    {parser : JsValue → JsString → Parsed α} {x : Option α}
    (h : optionalMember object key parser = .ok x) :
    ∀ a ∈ x, ∃ value label, parser value label = .ok a := by
  unfold optionalMember at h
  split_ifs at h
  · obtain ⟨a, ha, rfl⟩ := map_some_eq_ok.1 h
    intro b hb
    rw [← Option.some.inj hb]
    exact ⟨_, _, ha⟩
  · rw [← Except.ok.inj h]
    simp

theorem searchScope_inv {selector : Selector} {scope : SearchScope}
    (h : searchScope selector = .ok scope) : selector = scope.selector := by
  cases selector <;> cases h <;> rfl

theorem isIdentifier_pageId {value : JsValue} {id : JsString} {pageLimit : ℕ}
    (h : parseSelector value pageLimit = .ok (.pageId id)) : IsIdentifier id := by
  have hagain : (identifier (.string id) (text "pageId") >>= fun id => pure (Selector.pageId id)) =
      Except.ok (Selector.pageId id) := parseSelector_again h
  obtain ⟨found, hfound, heq⟩ := Guard.bind_eq_ok.1 hagain
  obtain rfl := Selector.pageId.inj (Except.ok.inj heq)
  exact identifier_inv hfound

theorem isIdentifier_nodeId {value : JsValue} {id : JsString} {pageLimit : ℕ}
    (h : parseSelector value pageLimit = .ok (.nodeId id)) : IsIdentifier id := by
  have hagain : (identifier (.string id) (text "nodeId") >>= fun id => pure (Selector.nodeId id)) =
      Except.ok (Selector.nodeId id) := parseSelector_again h
  obtain ⟨found, hfound, heq⟩ := Guard.bind_eq_ok.1 hagain
  obtain rfl := Selector.nodeId.inj (Except.ok.inj heq)
  exact identifier_inv hfound

/-- A parsed search is within its bounds, unless its cursor is blank, and it is trimmed. -/
theorem parseSearchNodesInput_inv {value : JsValue} {input : SearchNodesInput}
    (h : parseSearchNodesInput value = .ok input) :
    (input.cursor ≠ some [] → Bounded input) ∧
      ((∀ s ∈ input.query, Visible s) ∧ ∀ types ∈ input.types, ∀ s ∈ types, Visible s) ∧
        trimmed input = input := by
  obtain ⟨object, -, h⟩ := Guard.bind_eq_ok.1 h
  obtain ⟨selector, hselector, h⟩ := Guard.bind_eq_ok.1 h
  obtain ⟨scope, hscope, h⟩ := Guard.bind_eq_ok.1 h
  obtain ⟨connectionId, hconnection, h⟩ := Guard.bind_eq_ok.1 h
  obtain ⟨matchMode, -, h⟩ := Guard.bind_eq_ok.1 h
  obtain ⟨number, -, h⟩ := Guard.bind_eq_ok.1 h
  obtain ⟨limit, hlimit, h⟩ := Guard.bind_eq_ok.1 h
  obtain ⟨query, hquery, h⟩ := Guard.bind_eq_ok.1 h
  obtain ⟨types, htypes, h⟩ := Guard.bind_eq_ok.1 h
  obtain ⟨_, hsearched, h⟩ := Guard.bind_eq_ok.1 h
  obtain ⟨cursor, hcursor, h⟩ := Guard.bind_eq_ok.1 h
  rw [← Except.ok.inj h]
  rw [searchScope_inv hscope] at hselector
  have hqueries : ∀ s ∈ query, utf8ByteLength s ≤ maxQueryBytes ∧ Trimmed s := by
    intro s hs
    obtain ⟨_, _, hs⟩ := optionalMember_inv hquery s hs
    exact searchQuery_inv hs
  have hsome : ∀ ids ∈ someTypes types, ids ≠ [] ∧ ids.length ≤ maxInputIds ∧
      ∀ s ∈ ids, IsIdentifier s ∧ Trimmed s := by
    intro ids hids
    have hmem : types = some ids ∧ ids ≠ [] := by
      cases types with
      | none => cases hids
      | some found =>
          cases found with
          | nil => cases hids
          | cons type rest =>
              rw [← Option.some.inj hids]
              exact ⟨rfl, List.cons_ne_nil _ _⟩
    obtain ⟨_, _, hparsed⟩ := optionalMember_inv htypes ids hmem.1
    exact ⟨hmem.2, searchTypes_inv hparsed⟩
  have hcursors : ∀ s ∈ cursor, utf8ByteLength s ≤ maxSearchCursorBytes ∧ trim s = s := by
    intro s hs
    obtain ⟨_, _, hs⟩ := optionalMember_inv hcursor s hs
    exact searchCursor_inv hs
  have hbounds : 1 ≤ limit ∧ limit ≤ maxReturnedNodes := by
    rw [searchLimit] at hlimit
    split_ifs at hlimit with hout
    · cases hlimit
    · rw [← Except.ok.inj hlimit]
      omega
  refine ⟨fun hblank => ?_, ⟨fun s hs => (hqueries s hs).2.1, fun ids hids s hs =>
    ((hsome ids hids).2.2 s hs).2.1⟩, ?_⟩
  · refine ⟨?_, ?_, fun s hs => (hqueries s hs).1, fun ids hids => ?_, ?_,
      hbounds, fun s hs => ⟨?_, (hcursors s hs).1⟩⟩
    · intro s hs
      obtain ⟨_, _, hs⟩ := optionalMember_inv hconnection s hs
      exact identifier_inv hs
    · cases scope with
      | pageId id => exact isIdentifier_pageId hselector
      | nodeId id => exact isIdentifier_nodeId hselector
    · exact ⟨(hsome ids hids).1, (hsome ids hids).2.1, fun s hs => ((hsome ids hids).2.2 s hs).1⟩
    · rw [checkSearch] at hsearched
      split_ifs at hsearched with hnone
      · cases hsearched
      · exact not_and_or.1 hnone
    · rintro rfl
      exact hblank hs
  · have hquery' : query.map trim = query := by
      cases query with
      | none => rfl
      | some s => exact congrArg some (hqueries s rfl).2.2
    have htypes' : (someTypes types).map (List.map trim) = someTypes types := by
      cases hids : someTypes types with
      | none => rfl
      | some ids =>
          refine congrArg some ((List.map_congr_left fun s hs => ?_).trans (List.map_id ids))
          exact ((hsome ids hids).2.2 s hs).2.2
    have hcursor' : cursor.map trim = cursor := by
      cases cursor with
      | none => rfl
      | some s => exact congrArg some (hcursors s rfl).2
    rw [trimmed]
    dsimp only
    rw [hquery', htypes', hcursor']

theorem parseSearchNodesInput_again {value : JsValue} {input : SearchNodesInput}
    (h : parseSearchNodesInput value = .ok input) :
    parseSearchNodesInput input.toJs = .ok input ↔ input.cursor ≠ some [] := by
  obtain ⟨hbounded, hvisible, htrimmed⟩ := parseSearchNodesInput_inv h
  obtain ⟨members, hmembers, hencodes⟩ := encodes_toJs input
  rw [hmembers]
  constructor
  · intro hagain hblank
    exact cursor_ne_nil hencodes hagain [] hblank rfl
  · intro hblank
    exact (parseSearchNodesInput_eq_ok hencodes (hbounded hblank)).2 ⟨hvisible, htrimmed.symm⟩

/-! ## Operations and messages -/

/-- A search whose cursor has been trimmed to nothing. -/
def BlankCursor : ReadOperation → Prop
  | .searchNodes input => input.cursor = some []
  | _ => False

theorem parseReadOperation_object (name input : JsValue) :
    parseReadOperation (.object (member "operation" name ++ member "input" input)) =
      parseOperationInput name input := by
  have hexact : exact (.object (member "operation" name ++ member "input" input))
      (text "read operation") ["operation", "input"] =
        .ok (.object (member "operation" name ++ member "input" input)) := by
    refine exact_object ?_ ?_
    · show ∀ key ∈ [text "operation", text "input"], _
      decide
    · simp [lookup_append, lookup_member]
  rw [parseReadOperation, hexact, Guard.ok_bind, @field_eq _ _ name (by simp [lookup_append, lookup_member]),
    @field_eq _ _ input (by simp [lookup_append, lookup_member])]

/-- The input of `get_metadata`. -/
def parseGetMetadataInput (input : JsValue) : Parsed FileScopedInput := do
  let object ← parseFileScope input (text "get_metadata input")
  return { connectionId := ← copyFileScope object }

/-- The parser of the input of an operation. -/
def inputParser : ReadOperation → JsValue → Parsed ReadOperation
  | .getMetadata _, input => (parseGetMetadataInput input).map .getMetadata
  | .getSelection _, input => (parseGetSelectionInput input).map .getSelection
  | .getNodes _, input => (parseGetNodesInput input).map .getNodes
  | .searchNodes _, input => (parseSearchNodesInput input).map .searchNodes
  | .getDesignContext _, input => (parseGetDesignContextInput input).map .getDesignContext
  | .getStyles _, input => (parseGetStylesInput input).map .getStyles
  | .getVariables _, input => (parseGetVariablesInput input).map .getVariables
  | .getComponents _, input =>
    (parseScopedInput input (text "get_components input")).map .getComponents
  | .getFonts _, input => (parseScopedInput input (text "get_fonts input")).map .getFonts
  | .getDevModeData _, input =>
    (parseScopedInput input (text "get_dev_mode_data input")).map .getDevModeData
  | .getReactions _, input =>
    (parseScopedInput input (text "get_reactions input")).map .getReactions
  | .getMotion _, input => (parseGetMotionInput input).map .getMotion
  | .getScreenshot _, input => (parseScreenshotInput input).map .getScreenshot

theorem parseMetadata_eq (input : JsValue) :
    (do
      let object ← parseFileScope input (text "get_metadata input")
      return ReadOperation.getMetadata { connectionId := ← copyFileScope object } :
        Parsed ReadOperation) = (parseGetMetadataInput input).map .getMetadata := by
  rw [parseGetMetadataInput]
  cases parseFileScope input (text "get_metadata input") with
  | error e => rfl
  | ok object =>
      rw [Guard.ok_bind, Guard.ok_bind]
      cases copyFileScope object <;> rfl

/-- The name of an operation chooses its parser. -/
theorem parseOperationInput_word (operation : ReadOperation) (input : JsValue) :
    parseOperationInput (FigmaDevMcp.word operation.name) input = inputParser operation input := by
  rw [parseOperationInput, parseMetadata_eq]
  cases operation <;> simp only [ReadOperation.name, isWord_word] <;> rfl

theorem map_ok {α β : Type} {x : Parsed α} {a : α} (f : α → β) (h : x = .ok a) :
    x.map f = .ok (f a) := by
  rw [h]
  rfl

theorem parseGetMetadataInput_again {value : JsValue} {input : FileScopedInput}
    (h : parseGetMetadataInput value = .ok input) : parseGetMetadataInput input.toJs = .ok input := by
  obtain ⟨object, -, h⟩ := Guard.bind_eq_ok.1 h
  obtain ⟨connectionId, hconnection, h⟩ := Guard.bind_eq_ok.1 h
  rw [← Except.ok.inj h, parseGetMetadataInput, FileScopedInput.toJs, parseFileScope_object,
    Guard.ok_bind, copyFileScope_again hconnection]
  · rfl
  · simp [fileScope, lookup_optional]
  · intro key hkey
    rw [key_fileScope hkey]
    decide

theorem parseGetStylesInput_again {value : JsValue} {input : GetStylesInput}
    (h : parseGetStylesInput value = .ok input) : parseGetStylesInput input.toJs = .ok input := by
  obtain ⟨⟨scope, source⟩, hparsed, rfl⟩ := Guard.map_eq_ok.1 h
  have hagain := parseScopedWith_again parseStyleSource_settles (by decide) (by decide)
    (fun _ => rfl) hparsed
  exact Guard.map_eq_ok.2 ⟨_, hagain, rfl⟩

theorem parseGetVariablesInput_again {value : JsValue} {input : GetVariablesInput}
    (h : parseGetVariablesInput value = .ok input) :
    parseGetVariablesInput input.toJs = .ok input := by
  obtain ⟨⟨scope, resolveAliases⟩, hparsed, rfl⟩ := Guard.map_eq_ok.1 h
  have hagain := parseScopedWith_again boolean_settles (by decide) (by decide) (fun _ => rfl) hparsed
  exact Guard.map_eq_ok.2 ⟨_, hagain, rfl⟩

theorem parseGetMotionInput_again {value : JsValue} {input : GetMotionInput}
    (h : parseGetMotionInput value = .ok input) : parseGetMotionInput input.toJs = .ok input := by
  obtain ⟨⟨scope, includeAvailableStyles⟩, hparsed, rfl⟩ := Guard.map_eq_ok.1 h
  have hagain := parseScopedWith_again boolean_settles (by decide) (by decide) (fun _ => rfl) hparsed
  exact Guard.map_eq_ok.2 ⟨_, hagain, rfl⟩

/-- The parser that the name of an operation chooses. -/
theorem parseOperationInput_again {name input : JsValue} {operation : ReadOperation}
    (h : parseOperationInput name input = .ok operation) :
    parseOperationInput (FigmaDevMcp.word operation.name) operation.input = .ok operation ↔
      ¬ BlankCursor operation := by
  rw [parseOperationInput, parseMetadata_eq] at h
  rw [parseOperationInput_word]
  by_cases hname0 : isWord name "get_metadata" = true
  · rw [if_pos hname0] at h
    obtain ⟨parsed, hparsed, rfl⟩ := Guard.map_eq_ok.1 h
    exact iff_of_true (map_ok ReadOperation.getMetadata (parseGetMetadataInput_again hparsed)) id
  rw [if_neg hname0] at h
  by_cases hname1 : isWord name "get_selection" = true
  · rw [if_pos hname1] at h
    obtain ⟨parsed, hparsed, rfl⟩ := Guard.map_eq_ok.1 h
    exact iff_of_true (map_ok ReadOperation.getSelection (parseGetSelectionInput_again hparsed)) id
  rw [if_neg hname1] at h
  by_cases hname2 : isWord name "get_nodes" = true
  · rw [if_pos hname2] at h
    obtain ⟨parsed, hparsed, rfl⟩ := Guard.map_eq_ok.1 h
    exact iff_of_true (map_ok ReadOperation.getNodes (parseGetNodesInput_again hparsed)) id
  rw [if_neg hname2] at h
  by_cases hname3 : isWord name "search_nodes" = true
  · rw [if_pos hname3] at h
    obtain ⟨parsed, hparsed, rfl⟩ := Guard.map_eq_ok.1 h
    rw [BlankCursor, ← Ne, ← parseSearchNodesInput_again hparsed]
    show (parseSearchNodesInput parsed.toJs).map ReadOperation.searchNodes = _ ↔ _
    constructor
    · intro hagain
      obtain ⟨found, hfound, heq⟩ := Guard.map_eq_ok.1 hagain
      rw [hfound, ReadOperation.searchNodes.inj heq]
    · exact map_ok ReadOperation.searchNodes
  rw [if_neg hname3] at h
  by_cases hname4 : isWord name "get_design_context" = true
  · rw [if_pos hname4] at h
    obtain ⟨parsed, hparsed, rfl⟩ := Guard.map_eq_ok.1 h
    exact iff_of_true (map_ok ReadOperation.getDesignContext (parseGetDesignContextInput_again hparsed)) id
  rw [if_neg hname4] at h
  by_cases hname5 : isWord name "get_styles" = true
  · rw [if_pos hname5] at h
    obtain ⟨parsed, hparsed, rfl⟩ := Guard.map_eq_ok.1 h
    exact iff_of_true (map_ok ReadOperation.getStyles (parseGetStylesInput_again hparsed)) id
  rw [if_neg hname5] at h
  by_cases hname6 : isWord name "get_variables" = true
  · rw [if_pos hname6] at h
    obtain ⟨parsed, hparsed, rfl⟩ := Guard.map_eq_ok.1 h
    exact iff_of_true (map_ok ReadOperation.getVariables (parseGetVariablesInput_again hparsed)) id
  rw [if_neg hname6] at h
  by_cases hname7 : isWord name "get_components" = true
  · rw [if_pos hname7] at h
    obtain ⟨parsed, hparsed, rfl⟩ := Guard.map_eq_ok.1 h
    exact iff_of_true (map_ok ReadOperation.getComponents (parseScopedInput_settles hparsed _)) id
  rw [if_neg hname7] at h
  by_cases hname8 : isWord name "get_fonts" = true
  · rw [if_pos hname8] at h
    obtain ⟨parsed, hparsed, rfl⟩ := Guard.map_eq_ok.1 h
    exact iff_of_true (map_ok ReadOperation.getFonts (parseScopedInput_settles hparsed _)) id
  rw [if_neg hname8] at h
  by_cases hname9 : isWord name "get_dev_mode_data" = true
  · rw [if_pos hname9] at h
    obtain ⟨parsed, hparsed, rfl⟩ := Guard.map_eq_ok.1 h
    exact iff_of_true (map_ok ReadOperation.getDevModeData (parseScopedInput_settles hparsed _)) id
  rw [if_neg hname9] at h
  by_cases hname10 : isWord name "get_reactions" = true
  · rw [if_pos hname10] at h
    obtain ⟨parsed, hparsed, rfl⟩ := Guard.map_eq_ok.1 h
    exact iff_of_true (map_ok ReadOperation.getReactions (parseScopedInput_settles hparsed _)) id
  rw [if_neg hname10] at h
  by_cases hname11 : isWord name "get_motion" = true
  · rw [if_pos hname11] at h
    obtain ⟨parsed, hparsed, rfl⟩ := Guard.map_eq_ok.1 h
    exact iff_of_true (map_ok ReadOperation.getMotion (parseGetMotionInput_again hparsed)) id
  rw [if_neg hname11] at h
  by_cases hname12 : isWord name "get_screenshot" = true
  · rw [if_pos hname12] at h
    obtain ⟨parsed, hparsed, rfl⟩ := Guard.map_eq_ok.1 h
    exact iff_of_true (map_ok ReadOperation.getScreenshot (parseScreenshotInput_again hparsed)) id
  · rw [if_neg hname12] at h
    cases h

/-- **Every operation parses to itself**, but a search whose cursor is blank. -/
theorem parseReadOperation_again {value : JsValue} {operation : ReadOperation}
    (h : parseReadOperation value = .ok operation) :
    parseReadOperation operation.toJs = .ok operation ↔ ¬ BlankCursor operation := by
  obtain ⟨object, -, h⟩ := Guard.bind_eq_ok.1 h
  rw [ReadOperation.toJs, parseReadOperation_object]
  exact parseOperationInput_again h

/-- What a parsed request is made of. -/
structure ParsedRequest (r : Request) : Prop where
  requestId : IsIdentifier r.requestId
  deadlineMs : r.deadlineMs < 2 ^ 53
  fileKey : ∀ s ∈ r.fileKey, IsIdentifier s
  operation : ∃ value, parseReadOperation value = .ok r.operation

theorem parseRequest_inv {object value : JsValue} {label : JsString} {fileKey : Option JsString}
    {r : Request} (htarget : parseTarget value label = .ok fileKey)
    (h : parseRequest object fileKey = .ok r) : ParsedRequest r := by
  obtain ⟨target, -, htarget⟩ := Guard.bind_eq_ok.1 htarget
  obtain ⟨requestId, hid, h⟩ := Guard.bind_eq_ok.1 h
  obtain ⟨deadlineMs, hdeadline, h⟩ := Guard.bind_eq_ok.1 h
  obtain ⟨operation, hoperation, h⟩ := Guard.bind_eq_ok.1 h
  rw [← Except.ok.inj h]
  refine ⟨identifier_inv hid, unsignedInteger_inv hdeadline, fun s hs => ?_, _, hoperation⟩
  obtain ⟨_, _, hs⟩ := optionalMember_inv htarget s hs
  exact identifier_inv hs

theorem parsedRequest_of_broker {value : JsValue} {r : Request}
    (h : parseBrokerToPlugin value = .ok (.request r)) : ParsedRequest r := by
  obtain ⟨object, -, h⟩ := Guard.bind_eq_ok.1 h
  dsimp only at h
  split_ifs at h
  · obtain ⟨request, -, h⟩ := Guard.bind_eq_ok.1 h
    obtain ⟨fileKey, htarget, h⟩ := Guard.bind_eq_ok.1 h
    obtain ⟨parsed, hparsed, h⟩ := Guard.bind_eq_ok.1 h
    rw [← BrokerToPlugin.request.inj (Except.ok.inj h)]
    exact parseRequest_inv htarget hparsed
  · obtain ⟨cancel, -, h⟩ := Guard.bind_eq_ok.1 h
    obtain ⟨requestId, -, h⟩ := Guard.bind_eq_ok.1 h
    cases h
  · obtain ⟨ping, -, h⟩ := Guard.bind_eq_ok.1 h
    obtain ⟨nonce, -, h⟩ := Guard.bind_eq_ok.1 h
    cases h
  · cases h

/-- **What becomes of a request** that is handed on to the controller. -/
theorem parseControllerBoundMessage_again {k : JsString} {r : Request} (h : ParsedRequest r)
    (huuid : parseUuid (.string k) = .ok k) :
    parseControllerBoundMessage (ControllerBoundMessage.request k r).toJs =
      (parseReadOperation r.operation.toJs).map fun operation =>
        .request k { r with operation } :=
  parseControllerBoundMessage_request huuid h.requestId h.deadlineMs h.fileKey r.operation.toJs

/-- **A request is taken as it is unless its cursor is blank**, and then it is refused. -/
theorem parseControllerBoundMessage_eq_ok {k : JsString} {r : Request} (h : ParsedRequest r)
    (huuid : parseUuid (.string k) = .ok k) :
    (¬ BlankCursor r.operation →
      parseControllerBoundMessage (ControllerBoundMessage.request k r).toJs = .ok (.request k r)) ∧
    (BlankCursor r.operation →
      (parseControllerBoundMessage (ControllerBoundMessage.request k r).toJs).isOk = false) := by
  obtain ⟨value, hvalue⟩ := h.operation
  rw [parseControllerBoundMessage_again h huuid]
  constructor
  · intro hblank
    rw [(parseReadOperation_again hvalue).2 hblank]
    rfl
  · intro hblank
    cases hoperation : r.operation with
    | searchNodes input =>
        rw [hoperation] at hblank
        obtain ⟨members, hmembers, hencodes⟩ := encodes_toJs input
        have hagain : ∀ parsed, parseSearchNodesInput input.toJs ≠ .ok parsed := by
          intro parsed hparsed
          rw [hmembers] at hparsed
          exact cursor_ne_nil hencodes hparsed [] hblank rfl
        rw [ReadOperation.toJs, parseReadOperation_object, parseOperationInput_word]
        show (((parseSearchNodesInput input.toJs).map _).map _).isOk = false
        cases hparsed : parseSearchNodesInput input.toJs with
        | error _ => rfl
        | ok parsed => exact absurd hparsed (hagain parsed)
    | _ =>
        rw [hoperation] at hblank
        cases hblank

end FigmaDevMcp.Plugin

import FigmaDevMcp.Ui.Svg

set_option autoImplicit false

/-!
# The reference law of the sanitizer

What an accepted tree promises about every attribute that is not a namespace declaration, and the
one exemption that goes too far: a name whose prefix is `xmlns` in another case counts as a
declaration.

* `AttributeLaw`, `ReferenceLaw`: the promise;
* `attributeLaw_of_safe`: an attribute that is checked keeps it;
* **`reference_law`**: an accepted tree keeps it exactly when its look-alike declarations do.
-/

namespace FigmaDevMcp.Svg

/-! ## What is promised -/

/-- A code that may stand in a scheme after its first letter (RFC 3986). -/
def IsSchemeCode (c : ℕ) : Prop :=
  isAlpha c ∨ (0x30 ≤ c ∧ c ≤ 0x39) ∨ c = 0x2b ∨ c = 0x2d ∨ c = 0x2e

/-- The value begins with a scheme and a colon. -/
def BeginsWithScheme (value : JsString) : Prop :=
  ∃ first more rest, value = first :: more ++ 0x3a :: rest ∧ isAlpha first ∧
    ∀ c ∈ more, IsSchemeCode c

/-- Without tabs, line feeds and carriage returns, and trimmed, the value starts with `//` or with
a scheme and a colon. -/
def IsActiveUrl (value : JsString) : Prop :=
  let url := trimAscii (stripUrlWhitespace value)
  text "//" <+: url ∨ BeginsWithScheme url

/-- A namespace declaration of Namespaces in XML. -/
def IsNamespaceDeclaration (name : JsString) : Prop :=
  name = text "xmlns" ∨ text "xmlns:" <+: name

/-- The name starts like a namespace declaration, but not in lower case. -/
def IsLookAlike (name : JsString) : Prop :=
  startsWithIgnoreCase name (text "xmlns:") ∧ ¬ text "xmlns:" <+: name

/-- The names are equal up to the case of ASCII letters. -/
def IsNamed (name : JsString) (s : String) : Prop := name.map foldCase = text s

instance (name : JsString) : Decidable (IsNamespaceDeclaration name) :=
  inferInstanceAs (Decidable (_ ∨ _))

instance (name : JsString) (s : String) : Decidable (IsNamed name s) :=
  inferInstanceAs (Decidable (_ = _))

/-- The attributes whose value is one reference. -/
def referenceNames : List String := ["href", "src", "base"]

/-- The attributes whose value may have references in it. -/
def resourceNames : List String :=
  ["to", "from", "by", "values", "fill", "stroke", "clip-path", "mask", "filter", "marker",
    "marker-start", "marker-mid", "marker-end"]

/-- What an attribute has to keep to. -/
structure AttributeLaw (cm : CaseMapping) (name value : JsString) : Prop where
  not_handler : ¬ startsWithIgnoreCase (afterLastColon name) (text "on")
  reference : ∀ s ∈ referenceNames, IsNamed (afterLastColon name) s → validateReference cm value
  resource : ∀ s ∈ resourceNames, IsNamed (afterLastColon name) s →
    ∀ item ∈ segments (text s) value, IsActiveUrl item → validateReference cm item

/-- The local name of an element as its document spells it. -/
def spelledName (element : SvgElement) : JsString :=
  match element.localName with
  | some (first :: rest) => first :: rest
  | _ => afterLastColon element.tagName

mutual

/-- Every element of a tree, at any depth. -/
def elements : SvgNode → List SvgElement
  | .element element childNodes => element :: elementsOfChildren childNodes
  | .processingInstruction _ _ => []
  | .other childNodes => elementsOfChildren childNodes

/-- The elements among nodes and below them. -/
def elementsOfChildren : List SvgNode → List SvgElement
  | [] => []
  | child :: rest => elements child ++ elementsOfChildren rest

end

/-- What an element has to keep to. -/
structure ElementLaw (cm : CaseMapping) (element : SvgElement) : Prop where
  not_script : ¬ IsNamed (spelledName element) "script"
  not_foreignObject : ¬ IsNamed (spelledName element) "foreignobject"
  attributes : ∀ a ∈ element.attributes.entries, ¬ IsNamespaceDeclaration a.1 → AttributeLaw cm a.1 a.2

/-- Every element of a document keeps to the law. -/
def ReferenceLaw (cm : CaseMapping) (root : SvgNode) : Prop :=
  ∀ element ∈ elements root, ElementLaw cm element

/-! ## Case folding -/

theorem lt_of_foldCase_lt {c : ℕ} (h : foldCase c < 0x80) : c < 0x80 := by
  unfold foldCase at h
  split_ifs at h
  · omega
  · exact h

/-- A text that folds to ASCII is lower-cased to what it folds to. -/
theorem lowerFrom_of_fold (cm : CaseMapping) (before value : JsString)
    (h : ∀ c ∈ value.map foldCase, c < 0x80) : lowerFrom cm before value = value.map foldCase := by
  induction value generalizing before with
  | nil => rfl
  | cons c rest ih =>
    simp only [List.map_cons, List.forall_mem_cons] at h
    rw [lowerFrom, if_pos (lt_of_foldCase_lt h.1), ih _ h.2]
    rfl

/-- A name that folds to an ASCII name is lower-cased to it. -/
theorem toLowerCase_of_isNamed (cm : CaseMapping) {name : JsString} {s : String}
    (hs : ∀ c ∈ text s, c < 0x80) (h : IsNamed name s) : toLowerCase cm name = text s := by
  rw [toLowerCase, lowerFrom_of_fold cm [] name (h ▸ hs)]
  exact h

/-- A prefix in any case becomes a prefix. -/
theorem isPrefix_lowerFrom (cm : CaseMapping) (before : JsString) {value lead : JsString}
    (hl : ∀ c ∈ lead, c < 0x80 ∧ foldCase c = c) (h : startsWithIgnoreCase value lead) :
    lead <+: lowerFrom cm before value := by
  induction lead generalizing before value with
  | nil => exact List.nil_prefix
  | cons c lead ih =>
    match value with
    | [] => cases h
    | d :: value =>
      simp only [startsWithIgnoreCase, Bool.and_eq_true, beq_iff_eq] at h
      have hc := hl c List.mem_cons_self
      have hd : foldCase d = c := h.1.trans hc.2
      rw [lowerFrom, if_pos (lt_of_foldCase_lt (hd ▸ hc.1)), hd, List.singleton_append,
        List.cons_prefix_cons]
      exact ⟨rfl, ih _ (fun x hx => hl x (List.mem_cons_of_mem c hx)) h.2⟩

/-! ## Active urls -/

/-- What the stripping removes, the trimming does not keep. -/
theorem dropWhile_stripUrlWhitespace (value : JsString) :
    (stripUrlWhitespace value).dropWhile isAsciiWhitespace =
      stripUrlWhitespace (value.dropWhile isAsciiWhitespace) := by
  induction value with
  | nil => rfl
  | cons c rest ih =>
    by_cases hw : isAsciiWhitespace c
    · rw [List.dropWhile_cons_of_pos hw, ← ih, stripUrlWhitespace, List.filter_cons]
      split_ifs
      · exact List.dropWhile_cons_of_pos hw
      · rfl
    · have hk : (!(c == 0x09 || c == 0x0a || c == 0x0d)) = true := by
        simp only [isAsciiWhitespace, Bool.or_eq_true, not_or] at hw
        simp only [Bool.not_eq_true', Bool.or_eq_false_iff]
        exact ⟨⟨eq_false_of_ne_true hw.1.1.1.1, eq_false_of_ne_true hw.1.1.1.2⟩,
          eq_false_of_ne_true hw.1.2⟩
      rw [List.dropWhile_cons_of_neg hw, stripUrlWhitespace, List.filter_cons, if_pos hk,
        List.dropWhile_cons_of_neg hw]

theorem trimAscii_stripUrlWhitespace (value : JsString) :
    trimAscii (stripUrlWhitespace value) = stripUrlWhitespace (trimAscii value) := by
  have hr : ∀ v : JsString, (stripUrlWhitespace v).reverse = stripUrlWhitespace v.reverse :=
    fun _ => List.filter_reverse.symm
  rw [trimAscii, dropWhile_stripUrlWhitespace, hr, dropWhile_stripUrlWhitespace, hr, trimAscii]

/-- The source looks for a hex digit where the standard has a digit: its letters are letters. -/
theorem isSchemeCode_iff (c : ℕ) :
    (!isAlpha c && !isHexChar c && c != 0x2b && c != 0x2d && c != 0x2e) = false ↔
      IsSchemeCode c := by
  simp only [IsSchemeCode, isAlpha, isHexChar, Bool.and_eq_false_iff, Bool.not_eq_false',
    bne_eq_false_iff_eq, Bool.or_eq_true, Bool.and_eq_true, decide_eq_true_eq]
  omega

theorem restIsScheme_iff (value : JsString) :
    restIsScheme value ↔
      ∃ more rest, value = more ++ 0x3a :: rest ∧ ∀ c ∈ more, IsSchemeCode c := by
  induction value with
  | nil => simp [restIsScheme]
  | cons c value ih =>
    by_cases hc : c = 0x3a
    · subst hc
      exact ⟨fun _ => ⟨[], value, rfl, by simp⟩, fun _ => rfl⟩
    rw [restIsScheme, if_neg hc]
    constructor
    · intro h
      split_ifs at h with hs
      obtain ⟨more, rest, rfl, hm⟩ := ih.1 h
      have hcode := (isSchemeCode_iff c).1 (eq_false_of_ne_true hs)
      exact ⟨c :: more, rest, rfl, List.forall_mem_cons.2 ⟨hcode, hm⟩⟩
    · rintro ⟨more, rest, hv, hm⟩
      match more with
      | [] => exact absurd (List.cons.inj hv).1 hc
      | d :: more =>
        obtain ⟨rfl, hrest⟩ := List.cons.inj hv
        rw [if_neg (ne_true_of_eq_false ((isSchemeCode_iff c).2 (hm c List.mem_cons_self)))]
        exact ih.2 ⟨more, rest, hrest, fun x hx => hm x (List.mem_cons_of_mem c hx)⟩

theorem hasUriScheme_iff (value : JsString) : hasUriScheme value ↔ BeginsWithScheme value := by
  match value with
  | [] =>
    constructor
    · intro h
      cases h
    · rintro ⟨_, _, _, h, -⟩
      cases h
  | c :: value =>
    rw [hasUriScheme, Bool.and_eq_true, restIsScheme_iff]
    constructor
    · rintro ⟨ha, more, rest, rfl, hm⟩
      exact ⟨c, more, rest, rfl, ha, hm⟩
    · rintro ⟨first, more, rest, hv, ha, hm⟩
      obtain ⟨rfl, rfl⟩ := List.cons.inj hv
      exact ⟨ha, more, rest, rfl, hm⟩

/-- Every active url looks like one. -/
theorem looksLikeActiveUrl_of_isActiveUrl {value : JsString} (h : IsActiveUrl value) :
    looksLikeActiveUrl value := by
  have h' : text "//" <+: stripUrlWhitespace (trimAscii value) ∨
      BeginsWithScheme (stripUrlWhitespace (trimAscii value)) := by
    rw [← trimAscii_stripUrlWhitespace]
    exact h
  unfold looksLikeActiveUrl
  dsimp only
  split_ifs with h1 h2 h3
  · rw [h1] at h'
    rcases h' with h' | h'
    · exact absurd (List.prefix_nil.1 h') (by decide)
    · cases (hasUriScheme_iff []).2 h'
  · rfl
  · rfl
  · rcases h' with h' | h'
    · exact absurd (List.prefix_iff_eq_take.1 h').symm h3
    · exact (hasUriScheme_iff _).2 h'

/-! ## Namespace declarations -/

/-- Setting the sixth bit finds a lower-case letter in both its cases, and nothing else. -/
theorem or_32_eq_iff {c d : ℕ} (hd : 0x61 ≤ d ∧ d ≤ 0x7a) : c ||| 32 = d ↔ foldCase c = d := by
  by_cases hc : c < 0x7b
  · have h : ∀ d < 0x7b, 0x61 ≤ d → ∀ c < 0x7b, (c ||| 32 = d ↔ foldCase c = d) := by
      decide +kernel
    exact h d (by omega) hd.1 c hc
  · have hle : c ≤ c ||| 32 := Nat.left_le_or
    have hf : foldCase c = c := if_neg (by omega)
    rw [hf]
    omega

theorem foldCase_eq_colon {c : ℕ} : foldCase c = 0x3a ↔ c = 0x3a := by
  unfold foldCase
  split_ifs <;> omega

theorem isXmlnsName_iff (name : JsString) :
    isXmlnsName name ↔ IsNamed name "xmlns" ∨ startsWithIgnoreCase name (text "xmlns:") := by
  have ht : text "xmlns" = [0x78, 0x6d, 0x6c, 0x6e, 0x73] := rfl
  have ht' : text "xmlns:" = [0x78, 0x6d, 0x6c, 0x6e, 0x73, 0x3a] := rfl
  rw [IsNamed, ht, ht']
  match name with
  | [] | [_] | [_, _] | [_, _, _] | [_, _, _, _] => simp [isXmlnsName, startsWithIgnoreCase]
  | a :: b :: c :: d :: e :: rest =>
    rw [isXmlnsName]
    simp only [ne_eq, or_32_eq_iff (show 0x61 ≤ 0x78 ∧ 0x78 ≤ 0x7a by decide),
      or_32_eq_iff (show 0x61 ≤ 0x6d ∧ 0x6d ≤ 0x7a by decide),
      or_32_eq_iff (show 0x61 ≤ 0x6c ∧ 0x6c ≤ 0x7a by decide),
      or_32_eq_iff (show 0x61 ≤ 0x6e ∧ 0x6e ≤ 0x7a by decide),
      or_32_eq_iff (show 0x61 ≤ 0x73 ∧ 0x73 ≤ 0x7a by decide)]
    have hf : foldCase 0x78 = 0x78 ∧ foldCase 0x6d = 0x6d ∧ foldCase 0x6c = 0x6c ∧
        foldCase 0x6e = 0x6e ∧ foldCase 0x73 = 0x73 ∧ foldCase 0x3a = 0x3a := by decide
    match rest with
    | [] => simp [startsWithIgnoreCase, hf, or_iff_not_imp_left]
    | x :: rest => simp [startsWithIgnoreCase, hf, foldCase_eq_colon, and_assoc, or_iff_not_imp_left]

/-- A name that counts as a declaration is one, or looks like one, or has no promise to keep. -/
theorem isXmlnsName_cases {name : JsString} (h : isXmlnsName name)
    (hn : ¬ IsNamespaceDeclaration name) : IsLookAlike name ∨ IsNamed name "xmlns" := by
  rcases (isXmlnsName_iff name).1 h with h | h
  · exact Or.inr h
  · exact Or.inl ⟨h, fun hp => hn (Or.inr hp)⟩

/-! ## What a checked attribute keeps -/

/-- A name is looked up in lower case. -/
theorem localNameOf_of_isNamed (cm : CaseMapping) {name : JsString} {s : String}
    (hs : (text s).all (· < 0x80)) (h : IsNamed (afterLastColon name) s) :
    localNameOf cm name = text s :=
  toLowerCase_of_isNamed cm (by simpa using hs) h

theorem referenceNames_checked : ∀ s ∈ referenceNames,
    (text s).all (· < 0x80) ∧ isReferenceAttribute (text s) := by
  decide

theorem resourceNames_checked : ∀ s ∈ resourceNames, (text s).all (· < 0x80) ∧
    isReferenceAttribute (text s) = false ∧ isResourceValueAttribute (text s) := by
  decide

/-- An attribute whose lower-cased local name does not start with `on` is no handler. -/
theorem not_handler_of_localName {cm : CaseMapping} {name : JsString}
    (h : ¬ (text "on").isPrefixOf (localNameOf cm name)) :
    ¬ startsWithIgnoreCase (afterLastColon name) (text "on") := fun hp =>
  h (List.isPrefixOf_iff_prefix.2 (isPrefix_lowerFrom cm [] (by decide) hp))

/-- **Attributes.** An attribute that is checked and not refused keeps the law. -/
theorem attributeLaw_of_safe {cm : CaseMapping} {name value : JsString}
    (hx : isXmlnsName name = false) (h : attributeValueUnsafe cm name value = none) :
    AttributeLaw cm name value := by
  unfold attributeValueUnsafe at h
  rw [hx] at h
  simp only [Bool.false_eq_true, if_false] at h
  split_ifs at h with hon href hval hres hcss
  · refine ⟨not_handler_of_localName hon, fun _ _ _ => hval, fun s hs hn => ?_⟩
    have hc := resourceNames_checked s hs
    rw [localNameOf_of_isNamed cm hc.1 hn, hc.2.1] at href
    cases href
  · refine ⟨not_handler_of_localName hon, fun s hs hn => ?_, fun s hs hn item hi ha => ?_⟩
    · have hc := referenceNames_checked s hs
      rw [localNameOf_of_isNamed cm hc.1 hn] at href
      exact absurd hc.2 href
    · have hc := resourceNames_checked s hs
      rw [localNameOf_of_isNamed cm hc.1 hn, hc.2.2, Bool.true_and, List.any_eq_true] at hres
      by_contra hv
      refine hres ⟨item, hi, ?_⟩
      rw [looksLikeActiveUrl_of_isActiveUrl ha, Bool.true_and, Bool.not_eq_true']
      exact eq_false_of_ne_true hv

theorem afterLastColon_of_notMem {name : JsString} (h : 0x3a ∉ name) :
    afterLastColon name = name := by
  have ht : name.reverse.takeWhile (· ≠ 0x3a) = name.reverse := by
    refine List.takeWhile_eq_self_iff.2 fun c hc => ?_
    rw [decide_eq_true_eq]
    rintro rfl
    exact h (List.mem_reverse.1 hc)
  rw [afterLastColon, ht, List.reverse_reverse]

theorem startsWithIgnoreCase_map {value lead : JsString} (h : startsWithIgnoreCase value lead) :
    lead.map foldCase <+: value.map foldCase := by
  induction lead generalizing value with
  | nil => exact List.nil_prefix
  | cons c lead ih =>
    match value with
    | [] => cases h
    | d :: value =>
      simp only [startsWithIgnoreCase, Bool.and_eq_true, beq_iff_eq] at h
      exact List.cons_prefix_cons.2 ⟨h.1.symm, ih h.2⟩

/-- A name that folds to `xmlns` is not one of the names that promise something. -/
theorem attributeLaw_of_isNamed_xmlns {cm : CaseMapping} {name : JsString} (value : JsString)
    (h : IsNamed name "xmlns") : AttributeLaw cm name value := by
  have hcolon : 0x3a ∉ name := fun hm => by
    have : foldCase 0x3a ∈ text "xmlns" := h ▸ List.mem_map_of_mem hm
    exact absurd this (by decide)
  have hother : ∀ s ∈ referenceNames ++ resourceNames, text "xmlns" ≠ text s := by decide
  have hname : ∀ s ∈ referenceNames ++ resourceNames, ¬ IsNamed (afterLastColon name) s := by
    intro s hs hn
    rw [afterLastColon_of_notMem hcolon] at hn
    exact hother s hs (h.symm.trans hn)
  refine ⟨fun hp => ?_, fun s hs hn => ?_, fun s hs hn => ?_⟩
  · rw [afterLastColon_of_notMem hcolon] at hp
    have hp := startsWithIgnoreCase_map hp
    rw [show name.map foldCase = text "xmlns" from h] at hp
    exact absurd hp (by decide)
  · exact absurd hn (hname s (List.mem_append_left _ hs))
  · exact absurd hn (hname s (List.mem_append_right _ hs))

/-! ## Elements and trees -/

theorem find?_of_mem {entries : List (JsString × JsString)}
    (hn : (entries.map Prod.fst).Nodup) {a : JsString × JsString} (ha : a ∈ entries) :
    entries.find? (·.1 == a.1) = some a := by
  induction entries with
  | nil => cases ha
  | cons b rest ih =>
    rw [List.map_cons, List.nodup_cons] at hn
    rcases List.mem_cons.1 ha with rfl | ha
    · simp
    · have hb : (b.1 == a.1) = false :=
        beq_eq_false_iff_ne.2 fun hb => hn.1 (hb ▸ List.mem_map_of_mem ha)
      rw [List.find?_cons, hb]
      exact ih hn.2 ha

theorem getAttribute_of_mem {attributes : SvgAttributes} {a : JsString × JsString}
    (ha : a ∈ attributes.entries) : getAttribute attributes a.1 = some a.2 := by
  rw [getAttribute, find?_of_mem attributes.names_nodup ha]
  rfl

theorem attributes_of_safe {cm : CaseMapping} {element : SvgElement}
    (h : elementUnsafe cm element = none) :
    ∀ a ∈ element.attributes.entries, attributeValueUnsafe cm a.1 a.2 = none := by
  intro a ha
  unfold elementUnsafe at h
  dsimp only at h
  split_ifs at h
  have := List.findSome?_eq_none_iff.1 h a.1 (List.mem_map_of_mem ha)
  rwa [getAttribute_of_mem ha] at this

theorem elementLocalName_of_isNamed {cm : CaseMapping} {element : SvgElement} {s : String}
    (hs : (text s).all (· < 0x80)) (h : IsNamed (spelledName element) s) :
    elementLocalName cm element = text s := by
  unfold spelledName at h
  unfold elementLocalName
  match hl : element.localName with
  | some (first :: rest) =>
    rw [hl] at h
    exact toLowerCase_of_isNamed cm (by simpa using hs) h
  | some [] | none =>
    rw [hl] at h
    exact localNameOf_of_isNamed cm hs h

theorem not_script_of_safe {cm : CaseMapping} {element : SvgElement}
    (h : elementUnsafe cm element = none) :
    ¬ IsNamed (spelledName element) "script" ∧ ¬ IsNamed (spelledName element) "foreignobject" := by
  have hn : ¬ (elementLocalName cm element = text "script" ∨
      elementLocalName cm element = text "foreignobject") := by
    intro hn
    unfold elementUnsafe at h
    rw [if_pos hn] at h
    cases h
  exact ⟨fun hs => hn (Or.inl (elementLocalName_of_isNamed (by decide) hs)),
    fun hs => hn (Or.inr (elementLocalName_of_isNamed (by decide) hs))⟩

mutual

/-- No element of an accepted tree is refused. -/
theorem elementUnsafe_of_walkUnsafe (cm : CaseMapping) (node : SvgNode)
    (h : walkUnsafe cm node = none) : ∀ element ∈ elements node, elementUnsafe cm element = none := by
  match node with
  | .processingInstruction _ _ => simp [elements]
  | .element element childNodes =>
    rw [walkUnsafe, Option.or_eq_none_iff] at h
    rw [elements, List.forall_mem_cons]
    exact ⟨h.1, elementUnsafe_of_walkChildren cm childNodes h.2⟩
  | .other childNodes =>
    rw [walkUnsafe] at h
    rw [elements]
    exact elementUnsafe_of_walkChildren cm childNodes h

theorem elementUnsafe_of_walkChildren (cm : CaseMapping) (nodes : List SvgNode)
    (h : walkChildren cm nodes = none) :
    ∀ element ∈ elementsOfChildren nodes, elementUnsafe cm element = none := by
  match nodes with
  | [] => simp [elementsOfChildren]
  | child :: rest =>
    rw [walkChildren, Option.or_eq_none_iff] at h
    rw [elementsOfChildren, List.forall_mem_append]
    exact ⟨elementUnsafe_of_walkUnsafe cm child h.1, elementUnsafe_of_walkChildren cm rest h.2⟩

end

/-- Every attribute of the tree that looks like a namespace declaration keeps the law. -/
def LookAlikesHarmless (cm : CaseMapping) (root : SvgNode) : Prop :=
  ∀ element ∈ elements root, ∀ a ∈ element.attributes.entries, IsLookAlike a.1 →
    AttributeLaw cm a.1 a.2

/-- An element that is not refused keeps the law when its look-alike declarations do. -/
theorem elementLaw_of_safe {cm : CaseMapping} {element : SvgElement}
    (h : elementUnsafe cm element = none)
    (hlook : ∀ a ∈ element.attributes.entries, IsLookAlike a.1 → AttributeLaw cm a.1 a.2) :
    ElementLaw cm element := by
  obtain ⟨hs, hf⟩ := not_script_of_safe h
  refine ⟨hs, hf, fun a ha hn => ?_⟩
  by_cases hx : isXmlnsName a.1
  · rcases isXmlnsName_cases hx hn with hl | hl
    · exact hlook a ha hl
    · exact attributeLaw_of_isNamed_xmlns a.2 hl
  · exact attributeLaw_of_safe (eq_false_of_ne_true hx) (attributes_of_safe h a ha)

/-- A look-alike is not a namespace declaration. -/
theorem IsLookAlike.not_declaration {name : JsString} (h : IsLookAlike name) :
    ¬ IsNamespaceDeclaration name := by
  rintro (rfl | hp)
  · exact absurd h.1 (by decide)
  · exact h.2 hp

/-! ## Main result -/

/-- **Reference law.** An accepted tree keeps the law exactly when every attribute whose name
starts like a namespace declaration in another case does. -/
theorem reference_law (cm : CaseMapping) (root : SvgNode) (h : walkUnsafe cm root = none) :
    ReferenceLaw cm root ↔ LookAlikesHarmless cm root := by
  constructor
  · intro hl element he a ha hlook
    exact (hl element he).attributes a ha hlook.not_declaration
  · intro hlook element he
    exact elementLaw_of_safe (elementUnsafe_of_walkUnsafe cm root h element he) (hlook element he)

/-- An image whose fragment reference is declared under the usual prefix. -/
def plainDocument : SvgNode :=
  .other [.element ⟨some (text "svg"), text "svg", none,
    ⟨[(text "xmlns:xlink", text "http://www.w3.org/1999/xlink")], by decide⟩⟩
    [.element ⟨some (text "image"), text "image", none,
      ⟨[(text "xlink:href", text "#a"), (text "fill", text "red")], by decide⟩⟩ []]]

theorem reference_law_plainDocument :
    walkUnsafe (fun _ c _ => [c]) plainDocument = none ∧
      (ReferenceLaw (fun _ c _ => [c]) plainDocument ↔
        LookAlikesHarmless (fun _ c _ => [c]) plainDocument) :=
  ⟨by decide +kernel, reference_law _ plainDocument (by decide +kernel)⟩

/-- The same image with the prefix `XMLNS` bound to the namespace of XLink. -/
def lookAlikeDocument : SvgNode :=
  .other [.element ⟨some (text "svg"), text "svg", none,
    ⟨[(text "xmlns:XMLNS", text "http://www.w3.org/1999/xlink")], by decide⟩⟩
    [.element ⟨some (text "image"), text "image", none,
      ⟨[(text "XMLNS:href", text "https://evil.example/")], by decide⟩⟩ []]]

theorem lookAlikeDocument_accepted :
    ¬ ∀ (cm : CaseMapping) (root : SvgNode), walkUnsafe cm root = none → ReferenceLaw cm root := by
  intro h
  have hl := h (fun _ c _ => [c]) lookAlikeDocument (by decide +kernel)
  have hv := ((hl ⟨some (text "image"), text "image", none,
    ⟨[(text "XMLNS:href", text "https://evil.example/")], by decide⟩⟩
    (by simp [lookAlikeDocument, elements, elementsOfChildren])).attributes _
    List.mem_cons_self (by decide +kernel)).reference "href" (by decide) (by decide +kernel)
  exact absurd hv (by decide +kernel)

end FigmaDevMcp.Svg

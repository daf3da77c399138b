import FigmaDevMcp.Ui.FramesTold

set_option autoImplicit false

/-!
# The message of a frame

A frame that has no lone surrogate stands for a message of the broker: every string of it is a string
of the broker within the same bound, every number one that its integers hold.

* `Conveys`: a frame and the message that has all that is in it;
* `exists_hello`, `exists_progress`, `exists_failure`: the records of the broker;
* `exists_conveyed`: **a frame conveys a message** where its result is one.
-/

namespace FigmaDevMcp.Plugin

open JsValue Serde Tools

/-! ## Surrogates -/

theorem pairedMembers_append {l r : List Member} :
    PairedMembers (l ++ r) ↔ PairedMembers l ∧ PairedMembers r := by
  induction l with
  | nil => exact ⟨fun h => ⟨trivial, h⟩, fun h => h.2⟩
  | cons m l ih =>
      obtain ⟨key, value⟩ := m
      rw [List.cons_append, PairedMembers, PairedMembers, ih, and_assoc]

theorem pairedMembers_member {key : String} {value : JsValue} :
    PairedMembers (member key value) ↔ Paired value := by
  have hkey : Utf16.PairedSurrogates (text key) := (wellFormed_encode key.toList).paired
  constructor
  · rintro ⟨h, -⟩
    cases htext : value.hasText with
    | true => exact (h htext).2
    | false => cases value <;> trivial
  · exact fun h => ⟨fun _ => ⟨hkey, h⟩, trivial⟩

theorem pairedMembers_optional {key : String} {value : Option JsValue} :
    PairedMembers (optional key value) ↔ ∀ v ∈ value, Paired v := by
  cases value with
  | none =>
      refine ⟨fun _ v hv => ?_, fun _ => trivial⟩
      cases hv
  | some v =>
      refine pairedMembers_member.trans ⟨fun h w hw => ?_, fun h => h v rfl⟩
      rwa [← Option.some.inj hw]

theorem pairedItems_iff {items : List JsValue} : PairedItems items ↔ ∀ v ∈ items, Paired v := by
  induction items with
  | nil => exact ⟨fun _ => List.forall_mem_nil _, fun _ => trivial⟩
  | cons item items ih => rw [PairedItems, List.forall_mem_cons, ih]

/-! ## Strings -/

theorem exists_bounded {bound : Bound} {s : JsString} (hunits : Utf16.Units s)
    (hpaired : Utf16.PairedSurrogates s) (hne : bound.allowEmpty = false → s ≠ [])
    (hbytes : utf8ByteLength s ≤ bound.maximumBytes) : ∃ v : BoundedString bound, v.value.toJs = s := by
  obtain ⟨t, rfl, -⟩ := Str.exists_toJs ⟨hunits, hpaired⟩
  rw [Str.utf8ByteLength_toJs] at hbytes
  have hvalid : validateBoundaryString bound t = .ok () :=
    validateBoundaryString_eq_ok.2 ⟨fun h => hne h.1 (by rw [h.2]; rfl), hbytes⟩
  exact ⟨⟨t, hvalid⟩, rfl⟩

theorem exists_name {label : String} {s : JsString} (h : IsName s) (hpaired : Utf16.PairedSurrogates s) :
    ∃ v : BoundedString ⟨maxIdentifierBytes, label, false⟩, v.value.toJs = s :=
  exists_bounded h.units hpaired (fun _ => h.identifier.1) h.identifier.2

theorem exists_displayText {s : JsString} (h : IsDisplayText s) (hpaired : Utf16.PairedSurrogates s) :
    ∃ v : Protocol.DisplayText, v.value.toJs = s :=
  exists_bounded h.units hpaired (fun h => by cases h) h.bytes

theorem IsName.isDisplayText {s : JsString} (h : IsName s) : IsDisplayText s :=
  ⟨h.units, h.identifier.2.trans (by decide)⟩

theorem uuidUnit_eq_uuidByte (index code : ℕ) : uuidUnit index code = uuidByte index code := by
  unfold uuidUnit uuidByte
  split_ifs
  · rfl
  · rfl
  · rw [Bool.eq_iff_iff]
    simp only [Bool.or_eq_true, beq_iff_eq]
    omega
  · rfl

/-- The identifier of a connection is one for the broker as well. -/
theorem exists_connectionId {s : JsString} (h : parseUuid (.string s) = .ok s) :
    ∃ v : ConnectionId, v.value.toJs = s := by
  obtain ⟨found, hfound, h⟩ := Guard.bind_eq_ok.1 h
  have hsame : s = found := by
    rw [boundedString] at hfound
    split_ifs at hfound
    · cases hfound
    · cases hfound
    · exact Except.ok.inj hfound
  subst hsame
  split_ifs at h with huuid
  · obtain ⟨hlength, hunits⟩ := isUuid_iff.1 huuid
    have hascii : ∀ u ∈ s, u < 0x80 := by
      intro u hu
      obtain ⟨index, hindex, rfl⟩ := List.mem_iff_getElem.1 hu
      exact lt_of_uuidUnit (hunits index hindex)
    have htoNat : (s.map Char.ofNat).map Char.toNat = s := by
      rw [List.map_map]
      exact (List.map_congr_left fun u hu => toNat_ofNat (hascii u hu)).trans (List.map_id s)
    have hcanonical : isCanonicalRfc4122Uuid (s.map Char.ofNat) = true := by
      rw [isCanonicalRfc4122Uuid, List.length_map, hlength]
      refine List.all_eq_true.2 fun index hindex => ?_
      have hlt : index < s.length := by
        rw [hlength]
        exact List.mem_range.1 hindex
      rw [List.getD_eq_getElem?_getD, List.getElem?_map, List.getElem?_eq_getElem hlt]
      show uuidByte index (Char.ofNat s[index]).toNat = true
      rw [toNat_ofNat (hascii _ (List.getElem_mem hlt)), ← uuidUnit_eq_uuidByte]
      exact hunits index hlt
    have hsmall : (s.map Char.ofNat).map Char.toLower = s.map Char.ofNat := by
      rw [List.map_map]
      refine List.map_congr_left fun u hu => Char.toNat_inj.1 ?_
      have hfold : foldCase u = u := by
        have := List.map_eq_map_iff.1 ((Except.ok.inj h).trans (List.map_id s).symm) u hu
        exact this
      rw [Function.comp_apply, Protocol.toNat_toLower, toNat_ofNat (hascii u hu)]
      exact hfold
    refine ⟨⟨s.map Char.ofNat, hcanonical, hsmall⟩, ?_⟩
    show Utf16.encode ((s.map Char.ofNat).map Char.toNat) = s
    rw [htoNat]
    exact encode_ascii hascii
  · cases h

/-! ## Records -/

theorem exists_hello {h : Hello} (hs : h.Sendable) (hp : Paired h.toJs) :
    ∃ H : Protocol.Hello, H.fileKey = none ∧ H.toPlugin = h := by
  simp only [Hello.toJs, PageIdentity.toJs, Paired, pairedMembers_append, pairedMembers_member] at hp
  obtain ⟨⟨⟨⟨⟨⟨⟨⟨-, hversion⟩, -⟩, hdisplay⟩, hfile⟩, hpageId, hpageName⟩, heditor⟩, hplugin⟩, -⟩ := hp
  obtain ⟨connectionId, hconnectionId⟩ := exists_connectionId hs.connectionId
  obtain ⟨displayName, hdisplayName⟩ := exists_displayText hs.displayName hdisplay
  obtain ⟨fileName, hfileName⟩ := exists_displayText hs.fileName hfile
  obtain ⟨pageId, hpageId⟩ : ∃ v : PageId, v.value.toJs = h.currentPage.id := exists_name hs.pageId hpageId
  obtain ⟨pageName, hpageName⟩ := exists_displayText hs.pageName hpageName
  obtain ⟨editorType, heditorType⟩ := exists_displayText hs.editorType heditor
  obtain ⟨pluginVersion, hpluginVersion⟩ := exists_displayText hs.pluginVersion.isDisplayText hplugin
  obtain ⟨version, hversion⟩ : ∃ v : Protocol.ProtocolVersion, v.value.toJs = h.protocolVersion := by
    rw [hs.version]
    exact ⟨⟨['4'], by decide⟩, rfl⟩
  refine ⟨⟨version, connectionId, displayName, none, fileName, ⟨pageId, pageName⟩, editorType,
    pluginVersion, ⟨h.capabilities.annotations, h.capabilities.devResources, h.capabilities.motion,
      h.capabilities.svgStringExport, h.capabilities.variableCodeSyntax⟩⟩, rfl, ?_⟩
  simp only [Protocol.Hello.toPlugin, Protocol.PageSummary.toPlugin, Protocol.CapabilitySet.toPlugin,
    hversion, hconnectionId, hdisplayName, hfileName, hpageId, hpageName, heditorType, hpluginVersion]

theorem exists_progress {p : Progress} (hs : p.Sendable) (id : RequestId)
    (hp : ∀ s ∈ p.message, Utf16.PairedSurrogates s) :
    ∃ Q : Protocol.Progress, Q.requestId = id ∧ Q.toPlugin = p := by
  obtain ⟨completed, total, message⟩ := p
  have hcompleted : completed < 2 ^ 32 := Nat.lt_succ_of_le hs.completed
  obtain ⟨total', htotal⟩ : ∃ t : Option (Fin (2 ^ 32)), t.map (fun n => (n : ℕ)) = total := by
    cases total with
    | none => exact ⟨none, rfl⟩
    | some n => exact ⟨some ⟨n, Nat.lt_succ_of_le (hs.total n rfl)⟩, rfl⟩
  obtain ⟨message', hmessage⟩ : ∃ m : Option Protocol.DisplayText, m.map (fun v => v.value.toJs) = message := by
    cases message with
    | none => exact ⟨none, rfl⟩
    | some s =>
        obtain ⟨v, hv⟩ := exists_displayText (hs.message s rfl) (hp s rfl)
        exact ⟨some v, congrArg some hv⟩
  refine ⟨⟨id, ⟨completed, hcompleted⟩, total', message'⟩, rfl, ?_⟩
  rw [Protocol.Progress.toPlugin, htotal, hmessage]

theorem exists_failureItem {e : PluginItemFailure} (hs : e.Sendable) (hp : Paired e.toJs) :
    ∃ E : Protocol.PluginItemFailure, E.toPlugin = e := by
  simp only [PluginItemFailure.toJs, Paired, pairedMembers_append, pairedMembers_optional] at hp
  obtain ⟨index, id, code, retryable⟩ := e
  have hindex : index < 2 ^ 64 := hs.index.trans (by decide)
  obtain ⟨id', hid⟩ : ∃ m : Option Protocol.ItemIdentifier, m.map (fun v => v.value.toJs) = id := by
    cases id with
    | none => exact ⟨none, rfl⟩
    | some s =>
        obtain ⟨v, hv⟩ : ∃ v : Protocol.ItemIdentifier, v.value.toJs = s :=
          exists_name (hs.id s rfl) (hp.1.1.2 _ rfl)
        exact ⟨some v, congrArg some hv⟩
  refine ⟨⟨⟨index, hindex⟩, id', code, retryable⟩, ?_⟩
  rw [Protocol.PluginItemFailure.toPlugin, hid]

/-- Items that each have a record of the broker. -/
theorem exists_map {α β : Type} {f : α → β} {items : List β} (h : ∀ b ∈ items, ∃ a, f a = b) :
    ∃ l : List α, l.map f = items := by
  induction items with
  | nil => exact ⟨[], rfl⟩
  | cons b items ih =>
      obtain ⟨⟨a, rfl⟩, hrest⟩ := List.forall_mem_cons.1 h
      obtain ⟨l, rfl⟩ := ih hrest
      exact ⟨a :: l, rfl⟩

theorem exists_failure {e : PluginFailure} (hs : e.Sendable) (hp : Paired e.toJs) :
    ∃ E : Protocol.PluginFailure, E.toPlugin = e := by
  simp only [PluginFailure.toJs, Paired, pairedMembers_append, pairedMembers_optional] at hp
  obtain ⟨code, retryable, items⟩ := e
  cases items with
  | none => exact ⟨⟨code, retryable, none⟩, rfl⟩
  | some items =>
      have hitems : ∀ item ∈ items, ∃ E : Protocol.PluginItemFailure, E.toPlugin = item := by
        intro item hitem
        have hpaired := pairedItems_iff.1 (hp.2 _ rfl) item.toJs (List.mem_map_of_mem hitem)
        exact exists_failureItem (hs.items items rfl item hitem) hpaired
      obtain ⟨list, rfl⟩ := exists_map hitems
      have hlength : list.length ≤ maxInputIds := by
        have := hs.length _ rfl
        rwa [List.length_map] at this
      exact ⟨⟨code, retryable, some ⟨list, hlength⟩⟩, rfl⟩

/-! ## Messages -/

section

variable {Result F : Type} (float : ℚ → F) (print : Result → JsValue) {P : Protocol.Payloads F}

/-- A message has all that is in a frame, and nothing else. -/
inductive Conveys : PluginToBroker Result → Protocol.PluginToBroker P → Prop
  | hello {h : Protocol.Hello} (hkey : h.fileKey = none) : Conveys (.hello h.toPlugin) (.hello h)
  | progress (p : Protocol.Progress) : Conveys (.progress p.requestId.value.toJs p.toPlugin) (.progress p)
  | response (id : RequestId) {result : Result} {raw : Json F} {r : Protocol.ReadResult P}
      (hraw : told float (print result) = some raw) (hread : Protocol.ReadResult.read raw = .ok r) :
      Conveys (.response id.value.toJs result) (.response ⟨id, r⟩)
  | error (e : Protocol.WireError) : Conveys (.error e.requestId.value.toJs e.error.toPlugin) (.error e)
  | pong (p : Protocol.Pong) : Conveys (.pong p.nonce) (.pong p)

/-- The result of a response is one for the broker. -/
def PluginToBroker.ResultReads (P : Protocol.Payloads F) : PluginToBroker Result → Prop
  | .response _ result => ∃ raw, told float (print result) = some raw ∧
      ∃ r : Protocol.ReadResult P, Protocol.ReadResult.read raw = .ok r
  | _ => True

/-- **A frame conveys a message** where no surrogate is alone and its result is read. -/
theorem exists_conveyed {m : PluginToBroker Result} (hs : m.Sendable) (hp : Paired (m.toJs print))
    (hresult : m.ResultReads float print P) : ∃ M : Protocol.PluginToBroker P, Conveys float print m M := by
  cases m with
  | hello h =>
      obtain ⟨H, hkey, rfl⟩ := exists_hello hs hp
      exact ⟨_, .hello hkey⟩
  | progress requestId p =>
      simp only [PluginToBroker.toJs, Paired, pairedMembers_append, pairedMembers_member,
        pairedMembers_optional] at hp
      obtain ⟨id, rfl⟩ : ∃ v : RequestId, v.value.toJs = requestId := exists_name hs.1 hp.1.1.1.2
      have hmessage : ∀ s ∈ p.message, Utf16.PairedSurrogates s := fun s hmem =>
        hp.2 _ (Option.mem_map_of_mem JsValue.string hmem)
      obtain ⟨Q, rfl, rfl⟩ := exists_progress hs.2 id hmessage
      exact ⟨_, .progress Q⟩
  | response requestId result =>
      simp only [PluginToBroker.toJs, Paired, pairedMembers_append, pairedMembers_member] at hp
      obtain ⟨id, rfl⟩ : ∃ v : RequestId, v.value.toJs = requestId := exists_name hs hp.1.2
      obtain ⟨raw, hraw, r, hread⟩ := hresult
      exact ⟨_, .response id hraw hread⟩
  | error requestId failure =>
      simp only [PluginToBroker.toJs, Paired, pairedMembers_append, pairedMembers_member] at hp
      obtain ⟨id, rfl⟩ : ∃ v : RequestId, v.value.toJs = requestId := exists_name hs.1 hp.1.2
      obtain ⟨E, rfl⟩ := exists_failure hs.2 hp.2
      exact ⟨_, .error ⟨id, E⟩⟩
  | pong nonce =>
      have hnonce : nonce < 2 ^ 64 := Nat.lt_trans hs (by decide)
      exact ⟨_, .pong ⟨⟨nonce, hnonce⟩⟩⟩

end

end FigmaDevMcp.Plugin

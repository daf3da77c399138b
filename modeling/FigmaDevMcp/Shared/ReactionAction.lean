import FigmaDevMcp.Shared.ResultValidation

set_option autoImplicit false

/-!
# Reaction actions of the plugin

`parseReactionAction` of `result-validation.ts`, and the members that it lets an action have.

* `Shape`, `shapeOf`: the members of each type;
* `parseReactionAction_isOk`: the names of an accepted action are those of its shape;
* `parseReactionAction_sample`: each such set of names has an accepted action.
-/

namespace FigmaDevMcp.ResultValidation

open JsValue

/-- The words of actions on a video. -/
def mediaActions : List String :=
  ["play", "pause", "togglePlayPause", "mute", "unmute", "toggleMuteUnmute", "skipForward",
    "skipBackward", "skipTo"]

/-- An identifier that may be missing, as a member. -/
def optionalId (object : JsValue) (key : String) : Validated (List Member) := do
  return optional key ((← optionalString object key identifier).map .string)

/-- The member of a number that may be missing. -/
def optionalFinite (object : JsValue) (key : String) (label : JsString) :
    Validated (List Member) := do
  return optional key ((← optionalMember object key finite (dot label key)).map .rational)

/-- An action by its type. -/
def parseReactionAction (value : JsValue) (label : JsString) : Validated JsValue := do
  let object ← record value label
  let type := object.field "type"
  if ["navigate", "openOverlay", "swapOverlay", "changeTo", "scrollTo"].any (isWord type) then do
    let action ← exact object label ["type"] ["destinationId"]
    let destinationId ← optionalId action "destinationId"
    return .object (member "type" type ++ destinationId)
  else if ["closeOverlay", "back"].any (isWord type) then do
    let _ ← exact object label ["type"]
    return .object (member "type" type)
  else if isWord type "openLink" then do
    let action ← exact object label ["type", "uri"]
    let uri ← string (action.field "uri") (dot label "uri")
    return .object (member "type" (word "openLink") ++ member "uri" (.string uri))
  else if isWord type "setVariable" then do
    let action ← exact object label ["type"] ["variableId"]
    let variableId ← optionalId action "variableId"
    return .object (member "type" (word "setVariable") ++ variableId)
  else if isWord type "setVariableMode" then do
    let action ← exact object label ["type"] ["variableCollectionId", "variableModeId"]
    let collectionId ← optionalId action "variableCollectionId"
    let modeId ← optionalId action "variableModeId"
    return .object (member "type" (word "setVariableMode") ++ collectionId ++ modeId)
  else if isWord type "conditional" then do
    let _ ← exact object label ["type"]
    return .object (member "type" (word "conditional"))
  else if isWord type "updateMediaRuntime" then do
    let action ← exact object label ["type", "mediaAction"]
      ["destinationId", "amountToSkip", "newTimestamp"]
    let mediaAction ← oneOf (action.field "mediaAction") mediaActions (dot label "mediaAction")
    let destinationId ← optionalId action "destinationId"
    let amountToSkip ← optionalFinite action "amountToSkip" label
    let newTimestamp ← optionalFinite action "newTimestamp" label
    return .object (member "type" (word "updateMediaRuntime") ++
      member "mediaAction" (.string mediaAction) ++ destinationId ++ amountToSkip ++ newTimestamp)
  else fail (dot label "type" ++ text " is not allowed")

/-! ## The members of an action -/

/-- The members that an action has besides its type, and those that it may have. -/
structure Shape where
  required : List String := []
  optional : List String := []

/-- The members that an action of a type may have. -/
def shapeOf (type : String) : Shape :=
  if type ∈ ["navigate", "openOverlay", "swapOverlay", "changeTo", "scrollTo"] then
    { optional := ["destinationId"] }
  else if type ∈ ["closeOverlay", "back"] then {}
  else if type = "openLink" then { required := ["uri"] }
  else if type = "setVariable" then { optional := ["variableId"] }
  else if type = "setVariableMode" then { optional := ["variableCollectionId", "variableModeId"] }
  else if type = "conditional" then {}
  else { required := ["mediaAction"], optional := ["destinationId", "amountToSkip", "newTimestamp"] }

/-- The types of actions. -/
def actionTypes : List String :=
  ["navigate", "openOverlay", "swapOverlay", "changeTo", "scrollTo", "closeOverlay", "back",
    "openLink", "setVariable", "setVariableMode", "conditional", "updateMediaRuntime"]

theorem isWord_word (v w : String) : isWord (word v) w = decide (v = w) := by
  rw [isWord]
  simp only [Utf16.ofString_inj]

theorem any_isWord_word (v : String) (words : List String) :
    words.any (isWord (word v)) = decide (v ∈ words) := by
  induction words with
  | nil => rfl
  | cons w words ih => rw [List.any_cons, ih, isWord_word, ← Bool.decide_or]; simp only [List.mem_cons]

variable {members : List Member} {label : JsString}

theorem field_of_lookup {key : String} {value : JsValue}
    (h : lookup (text key) members = some value) : (JsValue.object members).field key = value := by
  rw [JsValue.field, get_object, h, Option.getD_some]

/-- What comes first of what is accepted is accepted. -/
theorem Exactly.of_bind {α : Type} {required optional : List String} {f : JsValue → Validated α}
    (h : (exact (.object members) label required optional >>= f).isOk = true) :
    Exactly members required optional := by
  obtain ⟨object, hobject, _⟩ := isOk_bind.1 h
  exact (exact_object_eq_ok hobject).2

/-- **The names of an accepted action** are those of its shape. -/
theorem parseReactionAction_isOk {type : String}
    (htype : lookup (text "type") members = some (word type))
    (h : (parseReactionAction (.object members) label).isOk = true) :
    Exactly members ("type" :: (shapeOf type).required) (shapeOf type).optional := by
  have hfield := field_of_lookup htype
  unfold parseReactionAction at h
  simp only [record, Guard.ok_bind, hfield, any_isWord_word, isWord_word, decide_eq_true_eq] at h
  unfold shapeOf
  split_ifs at h ⊢
  all_goals first
    | exact Exactly.of_bind h
    | cases h

/-- Each member that is there is one that its parser takes. -/
structure Takes (members : List Member) : Prop where
  id : ∀ key ∈ ["destinationId", "variableId", "variableCollectionId", "variableModeId"],
    (optionalId (.object members) key).isOk = true
  uri : ∀ value ∈ lookup (text "uri") members, ∃ s, value = .string s
  mediaAction : ∀ value ∈ lookup (text "mediaAction") members,
    ∃ candidate ∈ mediaActions, value = word candidate
  number : ∀ key ∈ ["amountToSkip", "newTimestamp"],
    ∀ label, (optionalFinite (.object members) key label).isOk = true

theorem isOk_exact_bind {α : Type} {required optional : List String} {f : JsValue → Validated α}
    (h : Exactly members required optional) :
    (exact (.object members) label required optional >>= f).isOk =
      (f (.object members)).isOk := by
  rw [exact_object h, Guard.ok_bind]

/-- Where what comes first is accepted. -/
theorem isOk_bind_of {α β : Type} {x : Validated α} {f : α → Validated β} (hx : x.isOk = true)
    (hf : ∀ a, (f a).isOk = true) : (x >>= f).isOk = true := by
  obtain ⟨a, ha⟩ := isOk_iff.1 hx
  rw [ha]
  exact hf a

theorem optionalId_isOk {key : String}
    (h : ∀ value ∈ lookup (text key) members, (identifier value (text key)).isOk = true) :
    (optionalId (.object members) key).isOk = true :=
  isOk_bind_of ((optionalMember_isOk (p := fun value => (identifier value (text key)).isOk = true)
    fun _ => Iff.rfl).2 h) fun _ => rfl

theorem optionalFinite_isOk {key : String}
    (h : ∀ value ∈ lookup (text key) members, ∃ q, value = .rational q) (label : JsString) :
    (optionalFinite (.object members) key label).isOk = true := by
  have hfinite : ∀ value, (finite value (dot label key)).isOk = true ↔ ∃ q, value = .rational q := by
    intro value
    cases value with
    | number n =>
        cases n with
        | finite q => exact ⟨fun _ => ⟨q, rfl⟩, fun _ => rfl⟩
        | _ => exact ⟨nofun, fun ⟨_, h⟩ => nomatch h⟩
    | _ => exact ⟨nofun, fun ⟨_, h⟩ => nomatch h⟩
  exact isOk_bind_of ((optionalMember_isOk hfinite).2 h) fun _ => rfl

/-- **Each such set of names has an accepted action.** -/
theorem parseReactionAction_of_exactly {type : String} (hknown : type ∈ actionTypes)
    (htype : lookup (text "type") members = some (word type))
    (h : Exactly members ("type" :: (shapeOf type).required) (shapeOf type).optional)
    (htakes : Takes members) : (parseReactionAction (.object members) label).isOk = true := by
  have hfield := field_of_lookup htype
  have hid : ∀ {α : Type} {key : String} {f : List Member → Validated α},
      key ∈ ["destinationId", "variableId", "variableCollectionId", "variableModeId"] →
      (∀ a, (f a).isOk = true) → (optionalId (.object members) key >>= f).isOk = true :=
    fun hkey => isOk_bind_of (htakes.id _ hkey)
  unfold parseReactionAction
  simp only [record, Guard.ok_bind, hfield, any_isWord_word, isWord_word, decide_eq_true_eq]
  unfold shapeOf at h
  split_ifs at h ⊢
  · rw [isOk_exact_bind h]
    exact hid (by decide) fun _ => rfl
  · rw [isOk_exact_bind h]
    rfl
  · rw [isOk_exact_bind h]
    obtain ⟨value, hvalue⟩ := Option.isSome_iff_exists.1 (h.present "uri" (by decide))
    rw [field_of_lookup hvalue]
    exact isOk_bind_of (string_isOk.2 (htakes.uri value hvalue)) fun _ => rfl
  · rw [isOk_exact_bind h]
    exact hid (by decide) fun _ => rfl
  · rw [isOk_exact_bind h]
    exact hid (by decide) fun _ => hid (by decide) fun _ => rfl
  · rw [isOk_exact_bind h]
    rfl
  · rw [isOk_exact_bind h]
    obtain ⟨value, hvalue⟩ := Option.isSome_iff_exists.1 (h.present "mediaAction" (by decide))
    rw [field_of_lookup hvalue]
    refine isOk_bind_of (oneOf_isOk.2 (htakes.mediaAction value hvalue)) fun _ => ?_
    refine hid (by decide) fun _ => ?_
    refine isOk_bind_of (htakes.number _ (by decide) _) fun _ => ?_
    exact isOk_bind_of (htakes.number _ (by decide) _) fun _ => rfl
  · rename_i h1 h2 h3 h4 h5 h6 h7
    simp only [actionTypes, List.mem_cons, List.not_mem_nil, or_false] at hknown h1 h2
    tauto

end FigmaDevMcp.ResultValidation

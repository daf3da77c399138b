import FigmaDevMcp.Read.Variables
import FigmaDevMcp.Shared.ResultParts

set_option autoImplicit false

/-!
# Validation of variables

`parseVariablesResult` of `result-validation.ts`, and which of the results that a read can make it
accepts: the numbers and strings in them are never refused, only lists that are too long.

* `parseVariableValue`, `parseVariableDefinition`, `parseVariableCollection`: the parsers;
* `VariableDefinition.Fits`, `VariableCollection.Fits`: lists within the bound of a result;
* `parseVariablesResult_isOk`: **which results are accepted**.
-/

namespace FigmaDevMcp

/-! ## Within the bounds -/

/-- The lists of a variable are within their bounds. -/
structure VariableDefinition.Fits (d : VariableDefinition) : Prop where
  scopes : d.scopes.length ≤ maxReturnedNodes
  values : d.values.length ≤ maxReturnedNodes
  codeSyntax : d.codeSyntax.length ≤ maxReturnedNodes

/-- The lists of a collection are within their bounds. -/
structure VariableCollection.Fits (c : VariableCollection) : Prop where
  modes : c.modes.length ≤ maxReturnedNodes
  definitions : c.definitions.length ≤ maxReturnedNodes
  each : ∀ d ∈ c.definitions, d.Fits

/-- The lists and the counts of a result are within their bounds. -/
structure GetVariablesResult.Fits (r : GetVariablesResult) : Prop where
  collections : r.collections.length ≤ maxReturnedNodes
  each : ∀ c ∈ r.collections, c.Fits
  truncation : ∀ t ∈ r.truncation, t.Counted

namespace ResultValidation

open JsValue

/-! ## The parsers -/

/-- A value by its kind. -/
def parseVariableValue (value : JsValue) (label : JsString) : Validated JsValue := do
  let object ← exact value label ["kind", "value"]
  let kind := object.field "kind"
  let source := object.field "value"
  let made (value : JsValue) : JsValue := .object (member "kind" kind ++ member "value" value)
  if isWord kind "boolean" then return made (.bool (← boolean source (dot label "value")))
  else if isWord kind "float" then return made (.rational (← finite source (dot label "value")))
  else if isWord kind "string" then return made (.string (← string source (dot label "value")))
  else if isWord kind "color" then return made (← parseColor source (dot label "value"))
  else if isWord kind "alias" then return made (.string (← string source (dot label "value")))
  else fail (dot label "kind" ++ text " is not allowed")

/-- The name of a variable on a platform. -/
def parseCodeSyntax (value : JsValue) (label : JsString) : Validated JsValue := do
  let object ← exact value label ["platform", "code"]
  let platform ← string (object.field "platform") (dot label "platform")
  let code ← string (object.field "code") (dot label "code")
  return .object (member "platform" (.string platform) ++ member "code" (.string code))

/-- The error of an alias. -/
def parseVariableModeError (value : JsValue) (label : JsString) : Validated JsValue := do
  let object ← exact value label ["code", "retryable"]
  let code ← errorCode (object.field "code")
  let retryable ← boolean (object.field "retryable") (dot label "retryable")
  return .object (member "code" (word (Protocol.errorCodeWord code)) ++
    member "retryable" (.bool retryable))

/-- The value in a mode. -/
def parseVariableModeValue (value : JsValue) (label : JsString) : Validated JsValue := do
  let object ← exact value label ["modeId", "source"] ["resolved", "error"]
  let modeId ← string (object.field "modeId") (dot label "modeId")
  let source ← parseVariableValue (object.field "source") (dot label "source")
  let resolved ← optionalMember object "resolved" parseVariableValue (dot label "resolved")
  let error ← optionalMember object "error" parseVariableModeError (dot label "error")
  return .object (member "modeId" (.string modeId) ++ member "source" source ++
    optional "resolved" resolved ++ optional "error" error)

/-- A variable. -/
def parseVariableDefinition (value : JsValue) (label : JsString) : Validated JsValue := do
  let object ← exact value label ["id", "name", "collectionId", "scopes", "values", "codeSyntax"]
  let id ← string (object.field "id") (dot label "id")
  let name ← string (object.field "name") (dot label "name")
  let collectionId ← string (object.field "collectionId") (dot label "collectionId")
  let scopes ← arrayOf (object.field "scopes") (dot label "scopes") string
  let values ← arrayOf (object.field "values") (dot label "values") parseVariableModeValue
  let codeSyntax ← arrayOf (object.field "codeSyntax") (dot label "codeSyntax") parseCodeSyntax
  return .object (member "id" (.string id) ++ member "name" (.string name) ++
    member "collectionId" (.string collectionId) ++
    member "scopes" (.array (scopes.map .string)) ++ member "values" (.array values) ++
    member "codeSyntax" (.array codeSyntax))

/-- A mode of a collection. -/
def parseVariableMode (value : JsValue) (label : JsString) : Validated JsValue := do
  let object ← exact value label ["id", "name"]
  let id ← string (object.field "id") (dot label "id")
  let name ← string (object.field "name") (dot label "name")
  return .object (member "id" (.string id) ++ member "name" (.string name))

/-- A collection with its variables. -/
def parseVariableCollection (value : JsValue) (label : JsString) : Validated JsValue := do
  let object ← exact value label ["id", "name", "modes", "variables"]
  let id ← string (object.field "id") (dot label "id")
  let name ← string (object.field "name") (dot label "name")
  let modes ← arrayOf (object.field "modes") (dot label "modes") parseVariableMode
  let definitions ← arrayOf (object.field "variables") (dot label "variables")
    parseVariableDefinition
  return .object (member "id" (.string id) ++ member "name" (.string name) ++
    member "modes" (.array modes) ++ member "variables" (.array definitions))

/-- The result of `get_variables`. -/
def parseVariablesResult (value : JsValue) (label : JsString) : Validated JsValue := do
  let object ← exact value label ["collections", "truncated", "observation"] ["truncation"]
  let collections ← arrayOf (object.field "collections") (dot label "collections")
    parseVariableCollection
  withResultMetadata object (member "collections" (.array collections)) label

/-! ## What is always accepted -/

theorem parseVariableValue_isOk (v : VariableValue) (label : JsString) :
    (parseVariableValue v.toJs label).isOk = true := by
  have hexact : ∀ kind value, Exactly (member "kind" (word kind) ++ member "value" value)
      ["kind", "value"] [] := fun kind value =>
    exactly_of (K := ["kind", "value"]) (by simp [member]) (by simp) (by simp)
  cases v with
  | color value =>
      rw [parseVariableValue, VariableValue.toJs, isOk_exact_bind (hexact _ _)]
      simp only [JsValue.field, get_object, lookup_append, Plugin.lookup_member]
      exact isOk_bind_of (parseColor_isOk value _) fun _ => rfl
  | _ =>
      rw [parseVariableValue, VariableValue.toJs, isOk_exact_bind (hexact _ _)]
      simp [lookup_append, Plugin.lookup_member, isWord_word, finite_rational, string_string,
        boolean_bool]
      rfl

theorem parseCodeSyntax_isOk (c : CodeSyntax) (label : JsString) :
    (parseCodeSyntax c.toJs label).isOk = true := by
  have hexact : Exactly (member "platform" (word c.platform) ++ member "code" (.string c.code))
      ["platform", "code"] [] :=
    exactly_of (K := ["platform", "code"]) (by simp [member]) (by simp) (by simp)
  rw [parseCodeSyntax, CodeSyntax.toJs, isOk_exact_bind hexact]
  simp [lookup_append, Plugin.lookup_member, string_string, Guard.ok_bind]
  rfl

theorem errorCode_word (code : ErrorCode) :
    errorCode (word (Protocol.errorCodeWord code)) = .ok code := by
  cases code <;> simp [errorCode, Protocol.errorCodeWords, Protocol.errorCodeWord, isWord_word]

theorem parseVariableModeError_isOk (e : VariableModeError) (label : JsString) :
    (parseVariableModeError e.toJs label).isOk = true := by
  have hexact : Exactly (member "code" (word (Protocol.errorCodeWord e.code)) ++
      member "retryable" (.bool e.retryable)) ["code", "retryable"] [] :=
    exactly_of (K := ["code", "retryable"]) (by simp [member]) (by simp) (by simp)
  rw [parseVariableModeError, VariableModeError.toJs, isOk_exact_bind hexact]
  simp [lookup_append, Plugin.lookup_member, errorCode_word, boolean_bool, Guard.ok_bind]
  rfl

/-- An entry of a mode has no bounds. -/
theorem parseVariableModeValue_isOk (v : VariableModeValue) (label : JsString) :
    (parseVariableModeValue v.toJs label).isOk = true := by
  rw [parseVariableModeValue, VariableModeValue.toJs]
  generalize hmembers : member "modeId" (.string v.modeId) ++ member "source" v.source.toJs ++
    optional "resolved" (v.resolved.map VariableValue.toJs) ++
      optional "error" (v.error.map VariableModeError.toJs) = members
  have hlookup : ∀ key, lookup (text key) members =
      (((if "modeId" = key then some (.string v.modeId) else none).or
        (if "source" = key then some v.source.toJs else none)).or
        (if "resolved" = key then v.resolved.map VariableValue.toJs else none)).or
          (if "error" = key then v.error.map VariableModeError.toJs else none) := by
    intro key
    rw [← hmembers, lookup_append, lookup_append, lookup_append, Plugin.lookup_member,
      Plugin.lookup_member, Plugin.lookup_optional, Plugin.lookup_optional]
  have hexact : Exactly members ["modeId", "source"] ["resolved", "error"] := by
    refine ⟨?_, by simp [hlookup]⟩
    rw [← hmembers]
    cases v.resolved <;> cases v.error <;> simp [member, optional]
  have hmode : (JsValue.object members).field "modeId" = .string v.modeId := by simp [hlookup]
  have hsource : (JsValue.object members).field "source" = v.source.toJs := by simp [hlookup]
  rw [isOk_exact_bind hexact, hmode, hsource, string_string, Guard.ok_bind]
  refine isOk_bind_of (parseVariableValue_isOk _ _) fun _ => ?_
  refine isOk_bind_of (optionalMember_of_lookup (hlookup _) fun value hvalue => ?_) fun _ =>
    isOk_bind_of (optionalMember_of_lookup (hlookup _) fun value hvalue => ?_) fun _ => rfl
  · obtain ⟨resolved, -, rfl⟩ : ∃ r, v.resolved = some r ∧ r.toJs = value := by simpa using hvalue
    exact parseVariableValue_isOk resolved _
  · obtain ⟨error, -, rfl⟩ : ∃ e, v.error = some e ∧ e.toJs = value := by simpa using hvalue
    exact parseVariableModeError_isOk error _

theorem parseVariableMode_isOk (m : DeclaredMode) (label : JsString) :
    (parseVariableMode m.toJs label).isOk = true := by
  have hexact : Exactly (member "id" (.string m.id) ++ member "name" (.string m.name))
      ["id", "name"] [] :=
    exactly_of (K := ["id", "name"]) (by simp [member]) (by simp) (by simp)
  rw [parseVariableMode, DeclaredMode.toJs, isOk_exact_bind hexact]
  simp [lookup_append, Plugin.lookup_member, string_string, Guard.ok_bind]
  rfl

/-! ## The lists -/

theorem parseVariableDefinition_isOk (d : VariableDefinition) (label : JsString) :
    (parseVariableDefinition d.toJs label).isOk = true ↔ d.Fits := by
  rw [parseVariableDefinition, VariableDefinition.toJs]
  generalize hmembers : member "id" (.string d.id) ++ member "name" (.string d.name) ++
      member "collectionId" (.string d.collectionId) ++
      member "scopes" (.array (d.scopes.map .string)) ++
      member "values" (.array (d.values.map VariableModeValue.toJs)) ++
      member "codeSyntax" (.array (d.codeSyntax.map CodeSyntax.toJs)) = members
  have hexact : Exactly members
      ["id", "name", "collectionId", "scopes", "values", "codeSyntax"] [] :=
    exactly_of (K := ["id", "name", "collectionId", "scopes", "values", "codeSyntax"])
      (by simp [← hmembers, member]) (by simp) (by simp)
  have hid : (JsValue.object members).field "id" = .string d.id := by
    simp [← hmembers, lookup_append, Plugin.lookup_member]
  have hname : (JsValue.object members).field "name" = .string d.name := by
    simp [← hmembers, lookup_append, Plugin.lookup_member]
  have hcollection : (JsValue.object members).field "collectionId" = .string d.collectionId := by
    simp [← hmembers, lookup_append, Plugin.lookup_member]
  have hscopes : (JsValue.object members).field "scopes" = .array (d.scopes.map .string) := by
    simp [← hmembers, lookup_append, Plugin.lookup_member]
  have hvalues : (JsValue.object members).field "values" =
      .array (d.values.map VariableModeValue.toJs) := by
    simp [← hmembers, lookup_append, Plugin.lookup_member]
  have hcodeSyntax : (JsValue.object members).field "codeSyntax" =
      .array (d.codeSyntax.map CodeSyntax.toJs) := by
    simp [← hmembers, lookup_append, Plugin.lookup_member]
  rw [isOk_exact_bind hexact, hid, hname, hcollection, hscopes, hvalues, hcodeSyntax]
  simp only [string_string, Guard.ok_bind]
  refine (isOk_arrayOf_bind (p := fun _ => True)
    (fun s label => iff_true_intro (string_isOk.2 ⟨s, rfl⟩)) fun _ =>
    isOk_arrayOf_bind (p := fun _ => True)
      (fun v label => iff_true_intro (parseVariableModeValue_isOk v label)) fun _ =>
    isOk_arrayOf_bind (p := fun _ => True)
      (fun c label => iff_true_intro (parseCodeSyntax_isOk c label)) fun _ =>
    iff_true_intro rfl).trans ?_
  constructor
  · rintro ⟨⟨hs, -⟩, ⟨hv, -⟩, ⟨hc, -⟩, -⟩
    exact ⟨hs, hv, hc⟩
  · intro h
    exact ⟨⟨h.scopes, fun _ _ => trivial⟩, ⟨h.values, fun _ _ => trivial⟩,
      ⟨h.codeSyntax, fun _ _ => trivial⟩, trivial⟩

theorem parseVariableCollection_isOk (c : VariableCollection) (label : JsString) :
    (parseVariableCollection c.toJs label).isOk = true ↔ c.Fits := by
  rw [parseVariableCollection, VariableCollection.toJs]
  generalize hmembers : member "id" (.string c.id) ++ member "name" (.string c.name) ++
    member "modes" (.array (c.modes.map DeclaredMode.toJs)) ++
    member "variables" (.array (c.definitions.map VariableDefinition.toJs)) = members
  have hexact : Exactly members ["id", "name", "modes", "variables"] [] :=
    exactly_of (K := ["id", "name", "modes", "variables"]) (by simp [← hmembers, member])
      (by simp) (by simp)
  have hid : (JsValue.object members).field "id" = .string c.id := by
    simp [← hmembers, lookup_append, Plugin.lookup_member]
  have hname : (JsValue.object members).field "name" = .string c.name := by
    simp [← hmembers, lookup_append, Plugin.lookup_member]
  have hmodes : (JsValue.object members).field "modes" =
      .array (c.modes.map DeclaredMode.toJs) := by
    simp [← hmembers, lookup_append, Plugin.lookup_member]
  have hdefinitions : (JsValue.object members).field "variables" =
      .array (c.definitions.map VariableDefinition.toJs) := by
    simp [← hmembers, lookup_append, Plugin.lookup_member]
  rw [isOk_exact_bind hexact, hid, hname, hmodes, hdefinitions]
  simp only [string_string, Guard.ok_bind]
  refine (isOk_arrayOf_bind (p := fun _ => True)
    (fun m label => iff_true_intro (parseVariableMode_isOk m label)) fun _ =>
    isOk_arrayOf_bind parseVariableDefinition_isOk fun _ => iff_true_intro rfl).trans ?_
  constructor
  · rintro ⟨⟨hm, -⟩, ⟨hd, hall⟩, -⟩
    exact ⟨hm, hd, hall⟩
  · intro h
    exact ⟨⟨h.modes, fun _ _ => trivial⟩, ⟨h.definitions, h.each⟩, trivial⟩

/-! ## What every result has -/

theorem parseObservation_isOk (startedAt completedAt : IsoDate) (label : JsString) :
    (parseObservation (.object (member "startedAt" (.string startedAt.value) ++
      member "completedAt" (.string completedAt.value))) label).isOk = true := by
  have hdate : ∀ (d : IsoDate) label, displayText (.string d.value) label = .ok d.value := by
    intro d label
    refine boundedString_ok nofun ?_
    rw [utf8ByteLength_ascii d.ascii]
    exact le_trans d.length_le (by decide)
  have hexact : Exactly (member "startedAt" (.string startedAt.value) ++
      member "completedAt" (.string completedAt.value)) ["startedAt", "completedAt"] [] :=
    exactly_of (K := ["startedAt", "completedAt"]) (by simp [member]) (by simp) (by simp)
  rw [parseObservation, isOk_exact_bind hexact]
  simp [lookup_append, Plugin.lookup_member, hdate, Guard.ok_bind]
  rfl

/-- **Which results are accepted**: those whose lists and counts are within the bounds. -/
theorem parseVariablesResult_isOk (r : GetVariablesResult) (label : JsString) :
    (parseVariablesResult r.toJs label).isOk = true ↔ r.Fits := by
  rw [parseVariablesResult, GetVariablesResult.toJs]
  generalize hmembers : member "collections"
      (.array (r.collections.map VariableCollection.toJs)) ++
    member "truncated" (.bool r.truncation.isSome) ++
    member "observation" (.object (member "startedAt" (.string r.startedAt.value) ++
      member "completedAt" (.string r.completedAt.value))) ++
    optional "truncation" (r.truncation.map Truncation.toJs) = members
  have hexact : Exactly members ["collections", "truncated", "observation"] ["truncation"] := by
    rw [← hmembers]
    refine ⟨?_, by simp [lookup_append, Plugin.lookup_member]⟩
    cases r.truncation <;> simp [member, optional]
  have hcollections : (JsValue.object members).field "collections" =
      .array (r.collections.map VariableCollection.toJs) := by
    simp [← hmembers, lookup_append, Plugin.lookup_member]
  have htruncated : (JsValue.object members).field "truncated" = .bool r.truncation.isSome := by
    simp [← hmembers, lookup_append, Plugin.lookup_member]
  have hobservation : (JsValue.object members).field "observation" =
      .object (member "startedAt" (.string r.startedAt.value) ++
        member "completedAt" (.string r.completedAt.value)) := by
    simp [← hmembers, lookup_append, Plugin.lookup_member]
  have htruncation : lookup (text "truncation") members = r.truncation.map Truncation.toJs := by
    simp [← hmembers, lookup_append, Plugin.lookup_member, Plugin.lookup_optional]
  have hmetadata : ∀ collections : List JsValue,
      (withResultMetadata (.object members) (member "collections" (.array collections))
        label).isOk = true ↔ ∀ t ∈ r.truncation, t.Counted := by
    intro collections
    rw [withResultMetadata, htruncated, hobservation, boolean_bool, Guard.ok_bind]
    refine isOk_bind_iff (parseObservation_isOk _ _ _) fun _ => ?_
    refine (isOk_bind_and (p := True) fun _ _ => iff_true_intro rfl).trans ?_
    rw [and_true, optionalMember_isOk (p := fun v =>
      (parseTruncation v (dot label "truncation")).isOk = true) fun _ => Iff.rfl, htruncation]
    cases r.truncation with
    | none => simp
    | some t => simp [parseTruncation_isOk]
  rw [isOk_exact_bind hexact, hcollections]
  refine (isOk_arrayOf_bind parseVariableCollection_isOk hmetadata).trans ?_
  constructor
  · rintro ⟨⟨hlength, hall⟩, htruncation⟩
    exact ⟨hlength, hall, htruncation⟩
  · intro h
    exact ⟨⟨h.collections, h.each⟩, h.truncation⟩

end ResultValidation

end FigmaDevMcp

import FigmaDevMcp.Protocol.Writing
import FigmaDevMcp.Read.AliasResolution
import FigmaDevMcp.Read.ForestWalk
import FigmaDevMcp.Read.Navigation

set_option autoImplicit false

/-!
# Reading the variables of a scope

`getVariables` of `variables.ts`: the ids that the nodes of the scope are bound to, one lookup for
each, grouped by collection, and the collections that are emitted up to a limit.

* `GetVariablesResult` and what it is made of, with the JavaScript object of each;
* `readDefinition`, `pushCollection`, `emitCollections`: one variable, one collection, the loop;
* `getVariables`: the read; it has no result only where a resolution of an alias has none;
* `getVariables_isSome`: **it always has one**.
-/

namespace FigmaDevMcp

open JsValue

/-! ## The result -/

/-- A value, as it is sent. -/
def VariableValue.toJs : VariableValue → JsValue
  | .boolean value => .object (member "kind" (word "boolean") ++ member "value" (.bool value))
  | .float value => .object (member "kind" (word "float") ++ member "value" (.rational value))
  | .string value => .object (member "kind" (word "string") ++ member "value" (.string value))
  | .color value => .object (member "kind" (word "color") ++ member "value" value.toJs)
  | .alias_ id => .object (member "kind" (word "alias") ++ member "value" (.string id))

/-- Why an alias was not resolved. -/
structure VariableModeError where
  code : ErrorCode
  retryable : Bool

/-- The error of an alias, as it is sent. -/
def VariableModeError.toJs (e : VariableModeError) : JsValue :=
  .object (member "code" (word (Protocol.errorCodeWord e.code)) ++
    member "retryable" (.bool e.retryable))

/-- The value in a mode, with what it was resolved to. -/
structure VariableModeValue where
  modeId : JsString
  source : VariableValue
  resolved : Option VariableValue := none
  error : Option VariableModeError := none

/-- The value in a mode, as it is sent. -/
def VariableModeValue.toJs (v : VariableModeValue) : JsValue :=
  .object (member "modeId" (.string v.modeId) ++ member "source" v.source.toJs ++
    optional "resolved" (v.resolved.map VariableValue.toJs) ++
    optional "error" (v.error.map VariableModeError.toJs))

/-- The name of a variable on a platform. -/
structure CodeSyntax where
  platform : String
  code : JsString

/-- A name on a platform, as it is sent. -/
def CodeSyntax.toJs (c : CodeSyntax) : JsValue :=
  .object (member "platform" (word c.platform) ++ member "code" (.string c.code))

/-- A variable. -/
structure VariableDefinition where
  id : JsString
  name : JsString
  collectionId : JsString
  scopes : List JsString
  values : List VariableModeValue
  codeSyntax : List CodeSyntax

/-- A variable, as it is sent. -/
def VariableDefinition.toJs (d : VariableDefinition) : JsValue :=
  .object (member "id" (.string d.id) ++ member "name" (.string d.name) ++
    member "collectionId" (.string d.collectionId) ++
    member "scopes" (.array (d.scopes.map .string)) ++
    member "values" (.array (d.values.map VariableModeValue.toJs)) ++
    member "codeSyntax" (.array (d.codeSyntax.map CodeSyntax.toJs)))

/-- A mode of a collection. -/
structure DeclaredMode where
  id : JsString
  name : JsString

/-- A mode, as it is sent. -/
def DeclaredMode.toJs (m : DeclaredMode) : JsValue :=
  .object (member "id" (.string m.id) ++ member "name" (.string m.name))

/-- A collection with its variables. -/
structure VariableCollection where
  id : JsString
  name : JsString
  modes : List DeclaredMode
  definitions : List VariableDefinition

/-- A collection, as it is sent. -/
def VariableCollection.toJs (c : VariableCollection) : JsValue :=
  .object (member "id" (.string c.id) ++ member "name" (.string c.name) ++
    member "modes" (.array (c.modes.map DeclaredMode.toJs)) ++
    member "variables" (.array (c.definitions.map VariableDefinition.toJs)))

/-- What `toISOString` gives: 24 ASCII characters, or 27 for a year that four digits do not hold. -/
structure IsoDate where
  value : JsString
  ascii : ∀ u ∈ value, u < 0x80
  length_le : value.length ≤ 27

/-- The variables of a read. -/
structure GetVariablesResult where
  collections : List VariableCollection
  truncation : Option Truncation
  startedAt : IsoDate
  completedAt : IsoDate

/-- The variables of a read, as they are sent. -/
def GetVariablesResult.toJs (r : GetVariablesResult) : JsValue :=
  .object (member "collections" (.array (r.collections.map VariableCollection.toJs)) ++
    member "truncated" (.bool r.truncation.isSome) ++
    member "observation" (.object (member "startedAt" (.string r.startedAt.value) ++
      member "completedAt" (.string r.completedAt.value))) ++
    optional "truncation" (r.truncation.map Truncation.toJs))

/-! ## One variable -/

/-- The platforms by the host's words. -/
def codeSyntaxPlatforms : List String := ["WEB", "ANDROID", "iOS"]

/-- The names on the platforms that have one. -/
def codeSyntax (value : JsValue) : List CodeSyntax :=
  codeSyntaxPlatforms.filterMap fun platform =>
    match (record value).field platform with
    | .string code => some { platform, code }
    | _ => none

/-- The scopes of a variable. -/
def scopes (value : JsValue) : List JsString :=
  (array value).filterMap fun scope =>
    match scope with
    | .string s => some s
    | _ => none

/-- The modes that a variable has values in. -/
def valueModeIds (valuesByMode : JsValue) : List JsString :=
  (valuesByMode.entries.map Prod.fst).filter (· ≠ [])

/-- The ids of the modes that a collection declares, with their names. -/
def declaredModes (collection : JsValue) : List DeclaredMode :=
  (array (collection.field "modes")).filterMap fun mode =>
    let modeId := string ((record mode).field "modeId")
    if modeId = [] then none else some { id := modeId, name := string ((record mode).field "name") }

/-- The modes in which a variable may have a value: those of its collection, or its own. -/
def modeIdsOf (collection valuesByMode : JsValue) : List JsString :=
  let declared := (declaredModes collection).map (·.id)
  if declared = [] then valueModeIds valuesByMode else declared

/-- The modes of variables whose collection declares none, each once and without a name. -/
def fallbackModes (group : List JsValue) : List DeclaredMode :=
  let ids := (group.flatMap fun raw => valueModeIds (valuesByMode raw)).foldl
    (fun seen id => if id ∈ seen then seen else seen ++ [id]) []
  ids.map fun id => { id, name := [] }

namespace FigmaVariables

variable (api : FigmaVariables) (clock : Clock)

/-- `resolve`, on calls enough for any chain. -/
def resolve (p : VariableMode) (s : VariableSession) : Option (AliasResolution × VariableSession) :=
  api.resolveFrom clock (api.fuel p) p [] s

/-- The entry of a mode, with what its alias has been resolved to. -/
def modeValue (modeId : JsString) (source : VariableValue) : AliasResolution → VariableModeValue
  | .success value => { modeId, source, resolved := some value }
  | .error code retryable => { modeId, source, error := some { code, retryable } }

/-- The value in a mode, resolved if it is an alias. -/
def readValue (resolveAliases : Bool) (modeId : JsString) (source : VariableValue)
    (s : VariableSession) : Option (VariableModeValue × VariableSession) :=
  match source with
  | .alias_ id =>
    if resolveAliases then
      (api.resolve clock (id, modeId) s).map fun (r, s) => (modeValue modeId source r, s)
    else some ({ modeId, source }, s)
  | _ => some ({ modeId, source }, s)

/-- The value of a variable in a mode, where it has one. -/
def sourceIn (valuesByMode : JsValue) (modeId : JsString) : Option VariableValue :=
  if valuesByMode.hasOwn modeId then normalizeValue (valuesByMode.get modeId) else none

/-- The values in several modes. -/
def readValues (resolveAliases : Bool) (valuesByMode : JsValue) :
    List JsString → VariableSession → Option (List VariableModeValue × VariableSession)
  | [], s => some ([], s)
  | modeId :: rest, s =>
    match sourceIn valuesByMode modeId with
    | none => readValues resolveAliases valuesByMode rest s
    | some source =>
      (api.readValue clock resolveAliases modeId source s).bind fun (value, s) =>
        (readValues resolveAliases valuesByMode rest s).map fun (values, s) => (value :: values, s)

/-- A variable without an id has no definition. -/
def readDefinition (resolveAliases : Bool) (raw : JsValue) (s : VariableSession) :
    Option (Option VariableDefinition × VariableSession) :=
  let id := string ((record raw).field "id")
  if id = [] then some (none, s)
  else
    let (collection, s) := api.lookupCollection clock (collectionId raw) s
    (api.readValues clock resolveAliases (valuesByMode raw)
        (modeIdsOf (recordOf collection) (valuesByMode raw)) s).map fun (values, s) =>
      (some {
        id
        name := string ((record raw).field "name")
        collectionId := collectionId raw
        scopes := scopes ((record raw).field "scopes")
        values
        codeSyntax := codeSyntax ((record raw).field "codeSyntax") }, s)

/-- The variables of a collection. -/
def readDefinitions (resolveAliases : Bool) :
    List JsValue → VariableSession → Option (List VariableDefinition × VariableSession)
  | [], s => some ([], s)
  | raw :: rest, s =>
    (api.readDefinition clock resolveAliases raw s).bind fun (definition, s) =>
      (readDefinitions resolveAliases rest s).map fun (definitions, s) =>
        (definition.toList ++ definitions, s)

end FigmaVariables

/-! ## The collections that are emitted -/

/-- What has been put into the result, and what it comes to. -/
structure VariableEmission where
  collections : List VariableCollection := []
  returned : ℕ := 0
  encoded : ℕ := 0
  visited : ℕ := 0
  truncation : Option Truncation := none

namespace VariableEmission

variable (limits : SerializerLimits)

/-- One more collection is looked at, if the limits allow it. -/
def consider (e : VariableEmission) : Bool × VariableEmission :=
  let e := { e with visited := e.visited + 1 }
  if e.truncation.isSome then (false, e)
  else if limits.returnedNodes ≤ e.returned then
    (false, { e with truncation := some (.nodeLimit e.visited) })
  else (true, e)

/-- A collection goes into the result. -/
def pushCollection (collection : VariableCollection) (e : VariableEmission) :
    Bool × VariableEmission :=
  let encoded := e.encoded + byteLength collection.toJs
  if limits.encodedBytes < encoded then (false, { e with truncation := some (.byteLimit encoded) })
  else
    (true, { e with
      encoded
      returned := e.returned + 1
      collections := e.collections ++ [collection] })

end VariableEmission

/-- The variables of a collection, in the order in which they are looked up. -/
abbrev VariableGroup := JsString × List JsValue

/-- The envelope of a collection; what it is filled with comes later. -/
def collectionOfGroup (group : VariableGroup) (raw : Option JsValue)
    (definitions : List VariableDefinition) : VariableCollection :=
  let declared := declaredModes (recordOf raw)
  { id := group.1
    name := string ((recordOf raw).field "name")
    modes := if declared.isEmpty then fallbackModes group.2 else declared
    definitions }

/-- The loop over the collections on its way. -/
structure EmissionRun where
  emission : VariableEmission := {}
  unresolvedCollections : ℕ := 0
  session : VariableSession

namespace FigmaVariables

variable (api : FigmaVariables) (clock : Clock) (limits : SerializerLimits)

/-- One collection: whether the loop goes on after it. -/
def emitCollection (resolveAliases : Bool) (group : VariableGroup) (run : EmissionRun) :
    Option (Bool × EmissionRun) :=
  let (considered, emission) := run.emission.consider limits
  if !considered then some (false, { run with emission })
  else if group.1 = [] then some (true, { run with emission })
  else
    let (raw, session) := api.lookupCollection clock group.1 run.session
    (api.readDefinitions clock resolveAliases group.2 session).map fun (definitions, session) =>
      let (pushed, emission) :=
        emission.pushCollection limits (collectionOfGroup group raw definitions)
      (pushed,
        { emission
          unresolvedCollections := run.unresolvedCollections + if raw.isNone then 1 else 0
          session })

/-- The collections go into the result, until a limit is reached. -/
def emitCollections (resolveAliases : Bool) : List VariableGroup → EmissionRun → Option EmissionRun
  | [], run => some run
  | group :: rest, run =>
    (api.emitCollection clock limits resolveAliases group run).bind fun (more, run) =>
      if more then emitCollections resolveAliases rest run else some run

/-! ## The variables of the scope -/

/-- The loop over the ids on its way. -/
structure LookupRun where
  attempted : ℕ := 0
  grouped : JsMap JsString (List JsValue) := .empty
  session : VariableSession := {}

/-- The variables of several ids are looked up, until the clock runs out. -/
def lookUpPending : List JsString → LookupRun → LookupRun
  | [], run => run
  | id :: rest, run =>
    let (late, session) := run.session.expired clock
    if late then { run with session }
    else
      let (raw, session) := api.lookupVariable clock id session
      let grouped :=
        match raw with
        | none => run.grouped
        | some raw =>
          run.grouped.set (collectionId raw) ((run.grouped.get (collectionId raw)).getD [] ++ [raw])
      lookUpPending rest { attempted := run.attempted + 1, grouped, session }

end FigmaVariables

/-- The plugin API with its variables: none where it does not look a variable up by its id. -/
structure VariablesFigma (ρ : Type) extends Figma ρ where
  variablesApi : Option FigmaVariables

namespace VariablesFigma

variable {ρ : Type} [DecidableEq ρ] (figma : VariablesFigma ρ)

/-- The ids of the variables of a node are noted once. -/
def addVariableIds (node : ρ) (pending : List JsString) : List JsString :=
  (figma.variableIdsOf node).foldl
    (fun pending id => if id ∈ pending then pending else pending ++ [id]) pending

/-- `resolveAliases` is that of the input; the dates are those of the read. -/
def getVariables (clock : Clock) (limits : SerializerLimits) (selector : Option Selector)
    (resolveAliases : Bool) (startedAt completedAt : IsoDate) :
    Except ReadError (Option GetVariablesResult) := do
  let some api := figma.variablesApi | throw (.read .capabilityUnavailable false)
  let found ← figma.resolveDesignRoots selector
  let walked := figma.walkNodeForest limits figma.addVariableIds found.roots []
  let looked := api.lookUpPending clock walked.seen {}
  let emitted := api.emitCollections clock limits resolveAliases looked.grouped.entries
    { session := looked.session }
  return emitted.map fun run =>
    let budgetTruncation :=
      if run.session.tripped then some (.nodeLimit looked.attempted) else none
    let unresolvedTruncation :=
      if 0 < run.unresolvedCollections then some (.nodeLimit run.emission.visited) else none
    { collections := run.emission.collections
      truncation := walked.context.truncation <|> budgetTruncation <|> run.emission.truncation <|>
        unresolvedTruncation
      startedAt
      completedAt }

end VariablesFigma

namespace FigmaVariables

variable {api : FigmaVariables} {clock : Clock}

/-! ## What the session keeps -/

/-- Each thing that a read does with its session keeps the property. -/
structure Keeps (api : FigmaVariables) (clock : Clock) (P : VariableSession → Prop) : Prop where
  expired : ∀ s, P s → P (s.expired clock).2
  variable_ : ∀ id s, P s → P (api.lookupVariable clock id s).2
  collection : ∀ id s, P s → P (api.lookupCollection clock id s).2
  memoise : ∀ p r s, P s → P (s.memoise p r)

section Keeps

variable {P : VariableSession → Prop} {s t : VariableSession}

theorem Keeps.enter (h : Keeps api clock P) {p : VariableMode} {stack : List JsString}
    (hs : P s) : P (enter clock p stack s).2 := by
  have hexpired := h.expired s hs
  unfold FigmaVariables.enter
  cases s.memo.get (memoKey p) with
  | some r => exact hs
  | none =>
      dsimp only
      split_ifs <;> exact hexpired

theorem Keeps.visit (h : Keeps api clock P) {p : VariableMode} (hs : P s) :
    P (api.visit clock p s).2 := by
  have hvariable := h.variable_ p.1 s hs
  unfold FigmaVariables.visit
  cases hlookup : api.lookupVariable clock p.1 s with
  | mk found u =>
      rw [hlookup] at hvariable
      cases found with
      | none => exact hvariable
      | some raw =>
          dsimp only
          split_ifs
          · exact h.collection _ u hvariable
          · exact hvariable

theorem Keeps.resolveFrom (h : Keeps api clock P) {n : ℕ} {p : VariableMode}
    {stack : List JsString} {r : AliasResolution} (hs : P s)
    (hr : api.resolveFrom clock n p stack s = some (r, t)) : P t := by
  induction n generalizing p stack s r t with
  | zero => cases hr
  | succ n ih =>
      rw [FigmaVariables.resolveFrom] at hr
      have hentered : P (FigmaVariables.enter clock p stack s).2 := h.enter hs
      cases henter : FigmaVariables.enter clock p stack s with
      | mk x u =>
          rw [henter] at hr hentered
          cases x with
          | some early =>
              obtain ⟨-, rfl⟩ := Prod.mk.inj (Option.some.inj hr)
              exact hentered
          | none =>
              have hvisited : P (api.visit clock p u).2 := h.visit hentered
              cases hvisit : api.visit clock p u with
              | mk x v =>
                  rw [hvisit] at hvisited
                  simp only [hvisit] at hr
                  cases x with
                  | exhausted =>
                      obtain ⟨-, rfl⟩ := Prod.mk.inj (Option.some.inj hr)
                      exact hvisited
                  | answer x =>
                      obtain ⟨-, rfl⟩ := Prod.mk.inj (Option.some.inj hr)
                      exact h.memoise _ _ _ hvisited
                  | alias_ q =>
                      obtain ⟨⟨r', w⟩, hresolve, hrt⟩ := Option.map_eq_some_iff.1 hr
                      obtain ⟨-, rfl⟩ := Prod.mk.inj hrt
                      exact h.memoise _ _ _ (ih hvisited hresolve)

variable {resolveAliases : Bool}

theorem Keeps.readValue (h : Keeps api clock P) {modeId : JsString} {source : VariableValue}
    {value : VariableModeValue} (hs : P s)
    (hr : api.readValue clock resolveAliases modeId source s = some (value, t)) : P t := by
  unfold FigmaVariables.readValue at hr
  cases source with
  | alias_ id =>
      dsimp only at hr
      split_ifs at hr
      · obtain ⟨⟨r, u⟩, hresolve, hrt⟩ := Option.map_eq_some_iff.1 hr
        obtain ⟨-, rfl⟩ := Prod.mk.inj hrt
        exact h.resolveFrom hs hresolve
      · obtain ⟨-, rfl⟩ := Prod.mk.inj (Option.some.inj hr)
        exact hs
  | _ =>
      obtain ⟨-, rfl⟩ := Prod.mk.inj (Option.some.inj hr)
      exact hs

/-- The values that are read: one for each mode in which the variable has one. -/
theorem readValues_spec (h : Keeps api clock P) {modes : JsValue} {ids : List JsString}
    {values : List VariableModeValue} (hs : P s)
    (hr : api.readValues clock resolveAliases modes ids s = some (values, t)) :
    P t ∧ values.length = (ids.filter fun id => (sourceIn modes id).isSome).length := by
  induction ids generalizing s values t with
  | nil =>
      obtain ⟨rfl, rfl⟩ := Prod.mk.inj (Option.some.inj hr)
      exact ⟨hs, rfl⟩
  | cons id ids ih =>
      rw [readValues] at hr
      cases hsource : sourceIn modes id with
      | none =>
          rw [hsource] at hr
          have ⟨ht, hlength⟩ := ih hs hr
          refine ⟨ht, ?_⟩
          rw [List.filter_cons, hsource, hlength]
          rfl
      | some source =>
          rw [hsource] at hr
          obtain ⟨⟨value, u⟩, hvalue, hr⟩ := Option.bind_eq_some_iff.1 hr
          obtain ⟨⟨rest, v⟩, hrest, hrt⟩ := Option.map_eq_some_iff.1 hr
          obtain ⟨rfl, rfl⟩ := Prod.mk.inj hrt
          have ⟨ht, hlength⟩ := ih (h.readValue hs hvalue) hrest
          refine ⟨ht, ?_⟩
          rw [List.filter_cons, hsource, List.length_cons, hlength]
          rfl

/-- A variable without an id has no definition; for any other, its collection is looked up. -/
theorem readDefinition_cases {raw : JsValue} {definition : Option VariableDefinition}
    (hr : api.readDefinition clock resolveAliases raw s = some (definition, t)) :
    string ((record raw).field "id") = [] ∧ definition = none ∧ t = s ∨
      string ((record raw).field "id") ≠ [] ∧ ∃ values,
        api.readValues clock resolveAliases (valuesByMode raw)
          (modeIdsOf (recordOf (api.lookupCollection clock (collectionId raw) s).1)
            (valuesByMode raw)) (api.lookupCollection clock (collectionId raw) s).2 =
              some (values, t) ∧
        definition = some {
          id := string ((record raw).field "id")
          name := string ((record raw).field "name")
          collectionId := collectionId raw
          scopes := FigmaDevMcp.scopes ((record raw).field "scopes")
          values
          codeSyntax := FigmaDevMcp.codeSyntax ((record raw).field "codeSyntax") } := by
  unfold FigmaVariables.readDefinition at hr
  dsimp only at hr
  split_ifs at hr with hid
  · obtain ⟨rfl, rfl⟩ := Prod.mk.inj (Option.some.inj hr)
    exact Or.inl ⟨hid, rfl, rfl⟩
  · obtain ⟨⟨values, u⟩, hvalues, hrt⟩ := Option.map_eq_some_iff.1 hr
    obtain ⟨rfl, rfl⟩ := Prod.mk.inj hrt
    exact Or.inr ⟨hid, values, hvalues, rfl⟩

theorem Keeps.readDefinition (h : Keeps api clock P) {raw : JsValue}
    {definition : Option VariableDefinition} (hs : P s)
    (hr : api.readDefinition clock resolveAliases raw s = some (definition, t)) : P t := by
  rcases readDefinition_cases hr with ⟨-, -, rfl⟩ | ⟨-, values, hvalues, -⟩
  · exact hs
  · exact (readValues_spec h (h.collection _ s hs) hvalues).1

theorem Keeps.readDefinitions (h : Keeps api clock P) {group : List JsValue}
    {definitions : List VariableDefinition} (hs : P s)
    (hr : api.readDefinitions clock resolveAliases group s = some (definitions, t)) : P t := by
  induction group generalizing s definitions t with
  | nil =>
      obtain ⟨-, rfl⟩ := Prod.mk.inj (Option.some.inj hr)
      exact hs
  | cons raw group ih =>
      rw [FigmaVariables.readDefinitions] at hr
      obtain ⟨⟨definition, u⟩, hdefinition, hr⟩ := Option.bind_eq_some_iff.1 hr
      obtain ⟨⟨rest, v⟩, hrest, hrt⟩ := Option.map_eq_some_iff.1 hr
      obtain ⟨-, rfl⟩ := Prod.mk.inj hrt
      exact ih (h.readDefinition hs hdefinition) hrest

variable {limits : SerializerLimits} {run next : EmissionRun} {more : Bool}

/-- **What one collection comes to.** -/
theorem emitCollection_cases {group : VariableGroup}
    (hr : api.emitCollection clock limits resolveAliases group run = some (more, next)) :
    (run.emission.consider limits).1 = false ∧ more = false ∧
        next = { run with emission := (run.emission.consider limits).2 } ∨
      (run.emission.consider limits).1 = true ∧ group.1 = [] ∧ more = true ∧
        next = { run with emission := (run.emission.consider limits).2 } ∨
      (run.emission.consider limits).1 = true ∧ group.1 ≠ [] ∧ ∃ definitions,
        api.readDefinitions clock resolveAliases group.2
          (api.lookupCollection clock group.1 run.session).2 = some (definitions, next.session) ∧
        (run.emission.consider limits).2.pushCollection limits
          (collectionOfGroup group (api.lookupCollection clock group.1 run.session).1 definitions) =
            (more, next.emission) := by
  unfold FigmaVariables.emitCollection at hr
  dsimp only at hr
  cases hconsider : (run.emission.consider limits).1 with
  | false =>
      rw [hconsider] at hr
      obtain ⟨rfl, rfl⟩ := Prod.mk.inj (Option.some.inj hr)
      exact Or.inl ⟨rfl, rfl, rfl⟩
  | true =>
      rw [hconsider, if_neg (by decide)] at hr
      refine Or.inr ?_
      by_cases hid : group.1 = []
      · rw [if_pos hid] at hr
        obtain ⟨rfl, rfl⟩ := Prod.mk.inj (Option.some.inj hr)
        exact Or.inl ⟨rfl, hid, rfl, rfl⟩
      · rw [if_neg hid] at hr
        obtain ⟨⟨definitions, u⟩, hdefinitions, hrt⟩ := Option.map_eq_some_iff.1 hr
        obtain ⟨rfl, rfl⟩ := Prod.mk.inj hrt
        exact Or.inr ⟨rfl, hid, definitions, hdefinitions, rfl⟩

theorem Keeps.emitCollection (h : Keeps api clock P) {group : VariableGroup} (hs : P run.session)
    (hr : api.emitCollection clock limits resolveAliases group run = some (more, next)) :
    P next.session := by
  rcases emitCollection_cases hr with ⟨-, -, rfl⟩ | ⟨-, -, -, rfl⟩ | ⟨-, -, definitions, hread, -⟩
  · exact hs
  · exact hs
  · exact h.readDefinitions (h.collection _ _ hs) hread

end Keeps

/-! ## It always has a result -/

theorem keeps_cached : Keeps api clock (Cached api) where
  expired s hs := by
    have ⟨_, _, hvariables, hcollections⟩ := VariableSession.expired_spec
      (rfl : s.expired clock = (_, _))
    exact hs.of_eq hvariables hcollections
  variable_ id s hs := (lookupVariable_onward hs id).1
  collection id s hs := (lookupCollection_onward hs id).1
  memoise p r s hs := hs.of_eq rfl rfl

variable {s : VariableSession} {resolveAliases : Bool}

theorem resolve_isSome (hs : Cached api s) (p : VariableMode) :
    (api.resolve clock p s).isSome = true := by
  refine resolveFrom_isSome hs List.mem_cons_self List.nodup_nil (List.forall_mem_nil _) ?_
  rw [fuel]
  exact Nat.lt_succ_self _

theorem readValue_isSome (hs : Cached api s) (modeId : JsString) (source : VariableValue) :
    (api.readValue clock resolveAliases modeId source s).isSome = true := by
  unfold readValue
  cases source with
  | alias_ id =>
      dsimp only
      split_ifs
      · rw [Option.isSome_map]
        exact resolve_isSome hs _
      · rfl
  | _ => rfl

theorem readValues_isSome (hs : Cached api s) (modes : JsValue) (ids : List JsString) :
    (api.readValues clock resolveAliases modes ids s).isSome = true := by
  induction ids generalizing s with
  | nil => rfl
  | cons id ids ih =>
      rw [readValues]
      cases sourceIn modes id with
      | none => exact ih hs
      | some source =>
          have hread : (api.readValue clock resolveAliases id source s).isSome = true :=
            readValue_isSome hs id source
          obtain ⟨⟨value, t⟩, hvalue⟩ := Option.isSome_iff_exists.1 hread
          dsimp only
          rw [hvalue, Option.bind_some, Option.isSome_map]
          exact ih (keeps_cached.readValue hs hvalue)

theorem readDefinition_isSome (hs : Cached api s) (raw : JsValue) :
    (api.readDefinition clock resolveAliases raw s).isSome = true := by
  unfold readDefinition
  dsimp only
  split_ifs
  · rfl
  · rw [Option.isSome_map]
    exact readValues_isSome (keeps_cached.collection _ s hs) _ _

theorem readDefinitions_isSome (hs : Cached api s) (group : List JsValue) :
    (api.readDefinitions clock resolveAliases group s).isSome = true := by
  induction group generalizing s with
  | nil => rfl
  | cons raw group ih =>
      have hread : (api.readDefinition clock resolveAliases raw s).isSome = true :=
        readDefinition_isSome hs raw
      obtain ⟨⟨definition, t⟩, hdefinition⟩ := Option.isSome_iff_exists.1 hread
      rw [readDefinitions, hdefinition, Option.bind_some, Option.isSome_map]
      exact ih (keeps_cached.readDefinition hs hdefinition)

theorem emitCollection_isSome {limits : SerializerLimits} {run : EmissionRun}
    (hs : Cached api run.session) (group : VariableGroup) :
    (api.emitCollection clock limits resolveAliases group run).isSome = true := by
  unfold emitCollection
  dsimp only
  by_cases hconsider : (!(run.emission.consider limits).1) = true
  · rw [if_pos hconsider]
    rfl
  by_cases hid : group.1 = []
  · rw [if_neg hconsider, if_pos hid]
    rfl
  · rw [if_neg hconsider, if_neg hid, Option.isSome_map]
    exact readDefinitions_isSome (keeps_cached.collection _ _ hs) _

theorem emitCollections_isSome {limits : SerializerLimits} {run : EmissionRun}
    (hs : Cached api run.session) (groups : List VariableGroup) :
    (api.emitCollections clock limits resolveAliases groups run).isSome = true := by
  induction groups generalizing run with
  | nil => rfl
  | cons group groups ih =>
      have hemit : (api.emitCollection clock limits resolveAliases group run).isSome = true :=
        emitCollection_isSome hs group
      obtain ⟨⟨more, next⟩, hnext⟩ := Option.isSome_iff_exists.1 hemit
      rw [emitCollections, hnext, Option.bind_some]
      dsimp only
      split_ifs
      · exact ih (keeps_cached.emitCollection hs hnext)
      · rfl

theorem lookUpPending_cached {pending : List JsString} {run : LookupRun}
    (hs : Cached api run.session) : Cached api (api.lookUpPending clock pending run).session := by
  induction pending generalizing run with
  | nil => exact hs
  | cons id pending ih =>
      have hexpired : Cached api (run.session.expired clock).2 := keeps_cached.expired _ hs
      rw [lookUpPending]
      dsimp only
      split_ifs
      · exact hexpired
      · exact ih (keeps_cached.variable_ id _ hexpired)

end FigmaVariables

namespace VariablesFigma

variable {ρ : Type} [DecidableEq ρ]

/-- **A read that does not fail has a result.** -/
theorem getVariables_isSome {figma : VariablesFigma ρ} {clock : Clock} {limits : SerializerLimits}
    {selector : Option Selector} {resolveAliases : Bool} {startedAt completedAt : IsoDate}
    {result : Option GetVariablesResult}
    (h : figma.getVariables clock limits selector resolveAliases startedAt completedAt =
      .ok result) : result.isSome = true := by
  unfold getVariables at h
  cases hapi : figma.variablesApi with
  | none =>
      rw [hapi] at h
      cases h
  | some api =>
      rw [hapi] at h
      obtain ⟨found, -, h⟩ := Guard.bind_eq_ok.1 h
      obtain rfl := Except.ok.inj h
      rw [Option.isSome_map]
      exact FigmaVariables.emitCollections_isSome
        (FigmaVariables.lookUpPending_cached FigmaVariables.cached_start) _

end VariablesFigma

end FigmaDevMcp

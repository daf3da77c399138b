import FigmaDevMcp.Lib.Chain
import FigmaDevMcp.Lib.JsMap
import FigmaDevMcp.Protocol.Error
import FigmaDevMcp.Read.NodeData

set_option autoImplicit false

/-!
# Variables and their aliases

`VariableSession` of `variables.ts`: lookups that are made once and share one deadline, and the
resolution of an alias in a mode. The clock is read at the points where the source reads it, and
may have passed the deadline at any of them.

* `FigmaVariables`: the variables and collections that the host answers with;
* `lookupVariable`, `lookupCollection`, `visit`, `resolveFrom`: one lookup, one variable of a
  chain, the chain;
* `next`, `Resolution`: what a pair of a variable and a mode leads to, without session or clock;
* `aim`, `Inherits`: what it should lead to, and where that is not where it does;
* `Reached`: the sessions of a read.
-/

namespace FigmaDevMcp

open JsValue

/-- The value of a variable in a mode. -/
inductive VariableValue
  | boolean (value : Bool)
  | float (value : ℚ)
  | string (value : JsString)
  | color (value : Color)
  | alias_ (id : JsString)

/-- What an alias is resolved to. -/
inductive AliasResolution
  | success (value : VariableValue)
  | error (code : ErrorCode) (retryable : Bool)

namespace AliasResolution

/-- The budget of a resolution is used up. -/
def exhausted : AliasResolution := .error .limitExceeded true

/-- The target of an alias is missing. -/
def missing : AliasResolution := .error .nodeNotFound false

/-- An alias leads back to itself. -/
def cycle : AliasResolution := .error .limitExceeded false

end AliasResolution

/-- What a lookup settles with: none where it rejects, throws or is skipped. -/
abbrev HostAnswer := Option JsValue

/-- There is no value. -/
def isUndefined : JsValue → Bool
  | .undefined => true
  | _ => false

/-- `?? null` -/
def settle : HostAnswer → Option JsValue
  | some .null | some .undefined | none => none
  | some value => some value

/-- The variables API of the host. It knows finitely many variables. -/
structure FigmaVariables where
  getVariableByIdAsync : JsString → HostAnswer
  getVariableCollectionByIdAsync : Option (JsString → HostAnswer)
  ids : List JsString
  mem_ids : ∀ id, settle (getVariableByIdAsync id) ≠ none → id ∈ ids

/-! ## Values -/

/-- `string(value, fallback)` -/
def stringOr (value : JsValue) (fallback : JsString) : JsString :=
  match value with
  | .string s => s
  | _ => fallback

/-- The id of an alias. -/
def aliasId (value : JsValue) : Option JsString :=
  if isWord ((record value).field "type") "VARIABLE_ALIAS" then
    match (record value).field "id" with
    | .string id => some id
    | _ => none
  else none

/-- A number. -/
def isNumber : JsValue → Bool
  | .number _ => true
  | _ => false

/-- A color, and no alias. -/
def isColor (value : JsValue) : Bool :=
  match value with
  | .object _ | .array _ =>
    (aliasId value).isNone && isNumber (value.field "r") && isNumber (value.field "g") &&
      isNumber (value.field "b")
  | _ => false

/-- A value that is understood. -/
def normalizeValue (value : JsValue) : Option VariableValue :=
  match value with
  | .bool b => some (.boolean b)
  | .number (.finite q) => some (.float q)
  | .string s => some (.string s)
  | value =>
    match aliasId value with
    | some id => some (.alias_ id)
    | none => if isColor value then some (.color (toColor value)) else none

/-! ## The session -/

/-- A variable with a mode. -/
abbrev VariableMode := JsString × JsString

/-- The key of a variable with a mode. -/
def memoKey (p : VariableMode) : JsString := p.1 ++ 0 :: p.2

/-- What a read remembers of the variables that it has looked up. -/
structure VariableSession where
  variableCache : JsMap JsString (Option JsValue) := .empty
  collectionCache : JsMap JsString (Option JsValue) := .empty
  memo : JsMap JsString AliasResolution := .empty
  tripped : Bool := false
  /-- How often the clock was read. -/
  reads : ℕ := 0

/-- Whether the deadline has passed, each time the clock is read. -/
abbrev Clock := ℕ → Bool

namespace VariableSession

/-- The clock is read, until it has once run out. -/
def expired (clock : Clock) (s : VariableSession) : Bool × VariableSession :=
  if s.tripped then (true, s)
  else (clock s.reads, { s with tripped := clock s.reads, reads := s.reads + 1 })

/-- A resolution is remembered. -/
def memoise (s : VariableSession) (p : VariableMode) (r : AliasResolution) : VariableSession :=
  { s with memo := s.memo.set (memoKey p) r }

end VariableSession

/-- What looking up one variable of a chain comes to. -/
inductive Visit
  | exhausted
  | answer (r : AliasResolution)
  | alias_ (p : VariableMode)

namespace FigmaVariables

variable (api : FigmaVariables) (clock : Clock)

/-- A variable, looked up once for an id. -/
def lookupVariable (id : JsString) (s : VariableSession) : Option JsValue × VariableSession :=
  match s.variableCache.get id with
  | some value => (value, s)
  | none =>
    let (late, s) := s.expired clock
    if late then (none, s)
    else
      let value := settle (api.getVariableByIdAsync id)
      (value, { s with variableCache := s.variableCache.set id value })

/-- A collection, looked up once for an id. -/
def lookupCollection (id : JsString) (s : VariableSession) : Option JsValue × VariableSession :=
  match s.collectionCache.get id with
  | some value => (value, s)
  | none =>
    let (late, s) := s.expired clock
    if late then (none, s)
    else
      match api.getVariableCollectionByIdAsync with
      | none => (none, s)
      | some lookup =>
        let value := settle (lookup id)
        (value, { s with collectionCache := s.collectionCache.set id value })

end FigmaVariables

/-- `record` of a lookup that may have given nothing. -/
def recordOf (raw : Option JsValue) : JsValue := record (raw.getD .null)

/-- The values of a variable by mode. -/
def valuesByMode (raw : JsValue) : JsValue := record ((record raw).field "valuesByMode")

/-- The id of the collection of a variable. -/
def collectionId (raw : JsValue) : JsString := string ((record raw).field "variableCollectionId")

/-- The mode of a collection that a variable falls back to. -/
def fallbackMode (collection : Option JsValue) (modeId : JsString) : JsString :=
  stringOr ((recordOf collection).field "defaultModeId") modeId

/-- What the value of a variable in a mode comes to. -/
def verdict (source : JsValue) (modeId : JsString) : VariableMode ⊕ AliasResolution :=
  if isUndefined source then .inr .missing
  else
    match aliasId source with
    | some id => .inl (id, modeId)
    | none =>
      match normalizeValue source with
      | none => .inr .missing
      | some value => .inr (.success value)

/-- A hop, or the answer at the end. -/
def Visit.of : VariableMode ⊕ AliasResolution → Visit
  | .inl p => .alias_ p
  | .inr r => .answer r

namespace FigmaVariables

variable (api : FigmaVariables) (clock : Clock)

/-- A variable that is not in the memo and not in the chain: from its lookup to its result. -/
def visit (p : VariableMode) (s : VariableSession) : Visit × VariableSession :=
  match api.lookupVariable clock p.1 s with
  | (none, s) => (if s.tripped then .exhausted else .answer .missing, s)
  | (some raw, s) =>
    let source := (valuesByMode raw).property p.2
    if isUndefined source then
      let (collection, s) := api.lookupCollection clock (collectionId raw) s
      let modeId := fallbackMode collection p.2
      (.of (verdict ((valuesByMode raw).property modeId) modeId), s)
    else (.of (verdict source p.2), s)

/-- What is answered before a variable is looked up. -/
def enter (p : VariableMode) (stack : List JsString) (s : VariableSession) :
    Option AliasResolution × VariableSession :=
  match s.memo.get (memoKey p) with
  | some r => (some r, s)
  | none =>
    let (late, s) := s.expired clock
    if late then (some .exhausted, s)
    else if memoKey p ∈ stack then (some .cycle, s)
    else (none, s)

/-- `resolve`, on a number of nested calls. -/
def resolveFrom : ℕ → VariableMode → List JsString → VariableSession →
    Option (AliasResolution × VariableSession)
  | 0, _, _, _ => none
  | fuel + 1, p, stack, s =>
    match enter clock p stack s with
    | (some r, s) => some (r, s)
    | (none, s) =>
      match api.visit clock p s with
      | (.exhausted, s) => some (.exhausted, s)
      | (.answer r, s) => some (r, s.memoise p r)
      | (.alias_ q, s) =>
        (resolveFrom fuel q (memoKey p :: stack) s).map fun (r, s) => (r, s.memoise p r)

/-! ## Without session and clock -/

/-- The variable of an id. -/
def variableOf (id : JsString) : Option JsValue := settle (api.getVariableByIdAsync id)

/-- The collection of an id. -/
def collectionOf (id : JsString) : Option JsValue :=
  api.getVariableCollectionByIdAsync.bind fun lookup => settle (lookup id)

/-- The mode in which the value of a variable is read: the one asked for, or that of its
collection. -/
def modeOf (raw : JsValue) (modeId : JsString) : JsString :=
  if isUndefined ((valuesByMode raw).property modeId) then
    fallbackMode (api.collectionOf (collectionId raw)) modeId
  else modeId

/-- What a variable in a mode leads to, as its values are read. -/
def next (p : VariableMode) : VariableMode ⊕ AliasResolution :=
  match api.variableOf p.1 with
  | none => .inr .missing
  | some raw => verdict ((valuesByMode raw).property (api.modeOf raw p.2)) (api.modeOf raw p.2)

/-- What following the chain gives: the result it ends with, or the error of one that comes back to
itself. -/
abbrev Resolution : VariableMode → AliasResolution → Prop := Chain.Answer api.next .cycle

/-- The value that a variable has in a mode: a member of its own. -/
def valueIn (raw : JsValue) (modeId : JsString) : JsValue :=
  ((valuesByMode raw).ownProperty modeId).getD .undefined

/-- What a variable in a mode is meant to lead to: its value there or, where it has none, its value
in the default mode of its collection. -/
def aim (p : VariableMode) : VariableMode ⊕ AliasResolution :=
  match api.variableOf p.1 with
  | none => .inr .missing
  | some raw =>
    if isUndefined (valueIn raw p.2) then
      let modeId := fallbackMode (api.collectionOf (collectionId raw)) p.2
      verdict (valueIn raw modeId) modeId
    else verdict (valueIn raw p.2) p.2

/-- The value reached by following aliases, or the error of a chain that comes back to itself. -/
abbrev Aimed : VariableMode → AliasResolution → Prop := Chain.Answer api.aim .cycle

/-- The variable has no value in the mode, whose name is that of something every object has. -/
def Inherits (p : VariableMode) : Prop :=
  ∃ raw, api.variableOf p.1 = some raw ∧ (valuesByMode raw).ownProperty p.2 = none ∧
    isUndefined ((valuesByMode raw).inheritedProperty p.2) = false

/-- No U+0000 in the ids that the variables name. -/
structure NulFree : Prop where
  alias_ : ∀ id raw mode target, api.variableOf id = some raw →
    aliasId ((valuesByMode raw).property mode) = some target → 0 ∉ target
  mode : ∀ id collection mode, api.collectionOf id = some collection →
    (record collection).field "defaultModeId" = .string mode → 0 ∉ mode

/-- A pair without U+0000. -/
def Clean (p : VariableMode) : Prop := 0 ∉ p.1 ∧ 0 ∉ p.2

/-- The sessions of a read: what it looks up and resolves, in any order. -/
inductive Reached : VariableSession → Prop
  | start : Reached {}
  | variable_ {s : VariableSession} (h : Reached s) (id : JsString) :
    Reached (api.lookupVariable clock id s).2
  | collection {s : VariableSession} (h : Reached s) (id : JsString) :
    Reached (api.lookupCollection clock id s).2
  | resolve {s t : VariableSession} (h : Reached s) {p : VariableMode} (hp : Clean p) {fuel : ℕ}
    {r : AliasResolution} (hr : api.resolveFrom clock fuel p [] s = some (r, t)) : Reached t

end FigmaVariables

end FigmaDevMcp

import FigmaDevMcp.Protocol.Limits
import FigmaDevMcp.Lib.Guard
import FigmaDevMcp.Shared.Results
import FigmaDevMcp.Shared.Text

set_option autoImplicit false

/-!
# Validation of results

The checks of `result-validation.ts` that all its parsers are made of. The plugin sends no result
that they refuse.

* `record`, `exact`, `identifier` and the other checks of one value, `arrayOf`, `oneOf`;
* `withResultMetadata`: what every result has besides its items;
* `isOk_bind`, `exact_eq_ok`, `arrayOf_map_isOk` and the others: **which values they accept**.
-/

namespace FigmaDevMcp.ResultValidation

open JsValue

/-- What a parser gives, or the message that it throws. -/
abbrev Validated (α : Type) := Except JsString α

variable {α β : Type}

/-- The text of every error of a result starts alike. -/
def fail (message : JsString) : Validated α := .error (text "Invalid plugin result: " ++ message)

/-! ## Checks of one value -/

/-- An object. -/
def record (value : JsValue) (label : JsString) : Validated JsValue :=
  match value with
  | .object members => .ok (.object members)
  | _ => fail (label ++ text " must be an object")

/-- The first name that is not allowed, and the first that is missing. -/
def exactKeys (object : JsValue) (label : JsString) (required optional : List String) :
    Validated JsValue :=
  match (object.entries.map Prod.fst).find? fun key =>
      decide (key ∉ (required ++ optional).map text) with
  | some key => fail (label ++ text " contains unknown field " ++ key)
  | none =>
    match required.find? fun key => !object.hasOwn (text key) with
    | some key => fail (label ++ text " is missing " ++ text key)
    | none => .ok object

/-- An object with members of these names only, and those that it must have. -/
def exact (value : JsValue) (label : JsString) (required : List String)
    (optional : List String := []) : Validated JsValue := do
  exactKeys (← record value label) label required optional

/-- A string. -/
def string (value : JsValue) (label : JsString) : Validated JsString :=
  match value with
  | .string s => .ok s
  | _ => fail (label ++ text " must be a string")

/-- A string whose bytes are within a bound. -/
def boundedString (value : JsValue) (label : JsString) (maximumBytes : ℕ)
    (allowEmpty : Bool := false) : Validated JsString := do
  let parsed ← string value label
  if allowEmpty = false ∧ parsed = [] then fail (label ++ text " must not be blank")
  else if maximumBytes < utf8ByteLength parsed then
    fail (label ++ text " exceeds " ++ NumberText.decimal maximumBytes ++ text " UTF-8 bytes")
  else .ok parsed

/-- A string that can be an id. -/
def identifier (value : JsValue) (label : JsString) : Validated JsString :=
  boundedString value label maxIdentifierBytes

/-- A string that can be shown. -/
def displayText (value : JsValue) (label : JsString) : Validated JsString :=
  boundedString value label maxDisplayTextBytes true

/-- A boolean. -/
def boolean (value : JsValue) (label : JsString) : Validated Bool :=
  match value with
  | .bool b => .ok b
  | _ => fail (label ++ text " must be boolean")

/-- A finite number. -/
def finite (value : JsValue) (label : JsString) : Validated ℚ :=
  match value with
  | .number (.finite q) => .ok q
  | _ => fail (label ++ text " must be finite")

/-- `Number.MAX_SAFE_INTEGER` -/
def maxSafeInteger : ℕ := 2 ^ 53 - 1

/-- An integer that is not negative, within a bound. -/
def integer (value : JsValue) (label : JsString) (maximum : ℕ := maxSafeInteger) : Validated ℕ := do
  let parsed ← finite value label
  if parsed.den = 1 ∧ 0 ≤ parsed.num ∧ parsed.num ≤ maxSafeInteger ∧ parsed.num ≤ maximum then
    .ok parsed.num.toNat
  else fail (label ++ text " must be an integer from 0 through " ++ NumberText.decimal maximum)

/-- The label of an item. -/
def itemLabel (label : JsString) (index : ℕ) : JsString :=
  label ++ text "[" ++ NumberText.decimal index ++ text "]"

/-- The items from an index on, each with its label. -/
def parseItems (parser : JsValue → JsString → Validated α) (label : JsString) :
    ℕ → List JsValue → Validated (List α)
  | _, [] => .ok []
  | index, item :: rest => do
    let parsed ← parser item (itemLabel label index)
    return parsed :: (← parseItems parser label (index + 1) rest)

/-- An array whose items are read, of which there may be so many. -/
def arrayOf (value : JsValue) (label : JsString) (parser : JsValue → JsString → Validated α)
    (maximum : ℕ := maxReturnedNodes) : Validated (List α) :=
  match value with
  | .array items =>
    if maximum < items.length then
      fail (label ++ text " exceeds " ++ NumberText.decimal maximum ++ text " items")
    else parseItems parser label 0 items
  | _ => fail (label ++ text " must be an array")

/-- A member that may be missing. -/
def optionalMember (object : JsValue) (key : String) (parser : JsValue → JsString → Validated α)
    (label : JsString) : Validated (Option α) :=
  if object.hasOwn (text key) then (parser (object.field key) label).map some else .ok none

/-- A string under its own name. -/
def optionalString (object : JsValue) (key : String)
    (parser : JsValue → JsString → Validated JsString := string) : Validated (Option JsString) :=
  optionalMember object key parser (text key)

/-- `value === word` -/
def isWord (value : JsValue) (w : String) : Bool :=
  match value with
  | .string s => s = text w
  | _ => false

/-- One of several words. -/
def oneOf (value : JsValue) (allowed : List String) (label : JsString) : Validated JsString :=
  match allowed.find? (isWord value) with
  | some candidate => .ok (text candidate)
  | none => fail (label ++ text " is not an allowed value")

/-- The label of a member. -/
def dot (label : JsString) (key : String) : JsString := label ++ text "." ++ text key

/-! ## What every result has -/

/-- A cut by its reason. -/
def parseTruncation (value : JsValue) (label : JsString) : Validated JsValue := do
  let object ← exact value label ["reason"] ["appliedDepth", "visitedNodes", "encodedBytes"]
  let reason ← oneOf (object.field "reason") ["depthLimit", "nodeLimit", "byteLimit"]
    (dot label "reason")
  let appliedDepth ← optionalMember object "appliedDepth" (integer · · 255) (dot label "appliedDepth")
  let visitedNodes ← optionalMember object "visitedNodes" integer (dot label "visitedNodes")
  let encodedBytes ← optionalMember object "encodedBytes" integer (dot label "encodedBytes")
  return .object (member "reason" (.string reason) ++
    optional "appliedDepth" (appliedDepth.map natural) ++
    optional "visitedNodes" (visitedNodes.map natural) ++
    optional "encodedBytes" (encodedBytes.map natural))

/-- The times of a read. -/
def parseObservation (value : JsValue) (label : JsString) : Validated JsValue := do
  let object ← exact value label ["startedAt", "completedAt"]
  let startedAt ← displayText (object.field "startedAt") (dot label "startedAt")
  let completedAt ← displayText (object.field "completedAt") (dot label "completedAt")
  return .object (member "startedAt" (.string startedAt) ++
    member "completedAt" (.string completedAt))

/-- The members of the result, and those that all results have. -/
def withResultMetadata (object : JsValue) (members : List Member) (label : JsString) :
    Validated JsValue := do
  let truncated ← boolean (object.field "truncated") (dot label "truncated")
  let observation ← parseObservation (object.field "observation") (dot label "observation")
  let truncation ← optionalMember object "truncation" parseTruncation (dot label "truncation")
  return .object (members ++ member "truncated" (.bool truncated) ++
    member "observation" observation ++ optional "truncation" truncation)

/-! ## What is accepted -/

theorem isOk_bind {x : Validated α} {f : α → Validated β} :
    (x >>= f).isOk = true ↔ ∃ a, x = .ok a ∧ (f a).isOk = true := by
  cases x with
  | error e => exact ⟨nofun, fun ⟨_, h, _⟩ => nomatch h⟩
  | ok a => exact ⟨fun h => ⟨a, rfl, h⟩, fun ⟨_, h, hf⟩ => Except.ok.inj h ▸ hf⟩

theorem isOk_iff {x : Validated α} : x.isOk = true ↔ ∃ a, x = .ok a := by
  cases x with
  | error e => exact ⟨nofun, fun ⟨_, h⟩ => nomatch h⟩
  | ok a => exact ⟨fun _ => ⟨a, rfl⟩, fun _ => rfl⟩

/-- Where what follows does not fail by what is read, both are accepted. -/
theorem isOk_bind_and {x : Validated α} {f : α → Validated β} {p : Prop}
    (h : ∀ a, x = .ok a → ((f a).isOk = true ↔ p)) :
    (x >>= f).isOk = true ↔ x.isOk = true ∧ p := by
  rw [isOk_bind, isOk_iff]
  constructor
  · rintro ⟨a, ha, hf⟩
    exact ⟨⟨a, ha⟩, (h a ha).1 hf⟩
  · rintro ⟨⟨a, ha⟩, hp⟩
    exact ⟨a, ha, (h a ha).2 hp⟩

theorem isOk_map {x : Validated α} {f : α → β} : (x.map f).isOk = x.isOk := by
  cases x <;> rfl

theorem exact_eq_ok {value object : JsValue} {label : JsString} {required optional : List String} :
    exact value label required optional = .ok object ↔
      object = value ∧ ∃ members, value = .object members ∧
        (∀ key ∈ members.map Prod.fst, key ∈ (required ++ optional).map text) ∧
        ∀ key ∈ required, value.hasOwn (text key) = true := by
  cases value with
  | object members =>
      have hfirst : exact (.object members) label required optional =
          exactKeys (.object members) label required optional := rfl
      rw [hfirst, exactKeys]
      cases hunknown : ((JsValue.object members).entries.map Prod.fst).find? fun key =>
          decide (key ∉ (required ++ optional).map text) with
      | some key =>
          have hkey : key ∉ (required ++ optional).map text :=
            of_decide_eq_true (by simpa using List.find?_some hunknown)
          refine ⟨nofun, ?_⟩
          rintro ⟨-, other, hother, hkeys, -⟩
          obtain rfl := JsValue.object.inj hother
          exact absurd (hkeys key (List.mem_of_find?_eq_some hunknown)) hkey
      | none =>
          have hknown : ∀ key ∈ members.map Prod.fst, key ∈ (required ++ optional).map text := by
            intro key hkey
            by_contra hno
            exact List.find?_eq_none.1 hunknown key hkey (decide_eq_true hno)
          cases hmissing : required.find? fun key =>
              !(JsValue.object members).hasOwn (text key) with
          | some key =>
              have hkey := List.find?_some hmissing
              refine ⟨nofun, ?_⟩
              rintro ⟨-, other, hother, -, hall⟩
              rw [hall key (List.mem_of_find?_eq_some hmissing)] at hkey
              cases hkey
          | none =>
              refine ⟨fun h => ⟨(Except.ok.inj h).symm, members, rfl, hknown, fun key hkey => ?_⟩,
                fun h => congrArg _ h.1.symm⟩
              have hpresent := List.find?_eq_none.1 hmissing key hkey
              rwa [Bool.not_eq_true', Bool.not_eq_false] at hpresent
  | _ => exact ⟨nofun, fun ⟨_, _, h, _⟩ => nomatch h⟩

/-- An object with the members it should have. -/
structure Exactly (members : List Member) (required optional : List String) : Prop where
  known : ∀ key ∈ members.map Prod.fst, key ∈ (required ++ optional).map text
  present : ∀ key ∈ required, (lookup (text key) members).isSome = true

theorem exact_object {members : List Member} {label : JsString} {required optional : List String}
    (h : Exactly members required optional) :
    exact (.object members) label required optional = .ok (.object members) :=
  exact_eq_ok.2 ⟨rfl, members, rfl, h.known, h.present⟩

theorem exact_object_eq_ok {members : List Member} {object : JsValue} {label : JsString}
    {required optional : List String}
    (h : exact (.object members) label required optional = .ok object) :
    object = .object members ∧ Exactly members required optional := by
  obtain ⟨rfl, other, hother, hknown, hpresent⟩ := exact_eq_ok.1 h
  obtain rfl := JsValue.object.inj hother
  exact ⟨rfl, hknown, hpresent⟩

theorem string_isOk {value : JsValue} {label : JsString} :
    (string value label).isOk = true ↔ ∃ s, value = .string s := by
  cases value with
  | string s => exact ⟨fun _ => ⟨s, rfl⟩, fun _ => rfl⟩
  | _ => exact ⟨nofun, fun ⟨_, h⟩ => nomatch h⟩

theorem boundedString_ok {s : JsString} {label : JsString} {maximumBytes : ℕ} {allowEmpty : Bool}
    (hne : allowEmpty = false → s ≠ []) (hbytes : utf8ByteLength s ≤ maximumBytes) :
    boundedString (.string s) label maximumBytes allowEmpty = .ok s := by
  have hblank : ¬ (allowEmpty = false ∧ s = []) := fun h => hne h.1 h.2
  show (if allowEmpty = false ∧ s = [] then _ else _ : Validated JsString) = .ok s
  rw [if_neg hblank, if_neg (Nat.not_lt.2 hbytes)]

/-- The items of an array that is made from a list. -/
theorem parseItems_map_isOk {ι : Type} {f : ι → JsValue}
    {parser : JsValue → JsString → Validated α} {p : ι → Prop}
    (h : ∀ x label, (parser (f x) label).isOk = true ↔ p x) (label : JsString)
    (xs : List ι) (index : ℕ) :
    (parseItems parser label index (xs.map f)).isOk = true ↔ ∀ x ∈ xs, p x := by
  induction xs generalizing index with
  | nil => exact ⟨fun _ => List.forall_mem_nil _, fun _ => rfl⟩
  | cons x xs ih =>
      rw [List.map_cons, parseItems, isOk_bind_and (p := ∀ y ∈ xs, p y), h, List.forall_mem_cons]
      intro parsed _
      rw [isOk_bind_and (p := True) fun _ _ => ⟨fun _ => trivial, fun _ => rfl⟩, ih, and_true]

theorem arrayOf_map_isOk {ι : Type} {f : ι → JsValue}
    {parser : JsValue → JsString → Validated α} {p : ι → Prop}
    (h : ∀ x label, (parser (f x) label).isOk = true ↔ p x) {xs : List ι}
    {label : JsString} {maximum : ℕ} :
    (arrayOf (.array (xs.map f)) label parser maximum).isOk = true ↔
      xs.length ≤ maximum ∧ ∀ x ∈ xs, p x := by
  rw [arrayOf, List.length_map]
  by_cases hlength : maximum < xs.length
  · rw [if_pos hlength]
    exact ⟨nofun, fun h => absurd h.1 (Nat.not_le.2 hlength)⟩
  · rw [if_neg hlength, parseItems_map_isOk h]
    exact ⟨fun h => ⟨Nat.not_lt.1 hlength, h⟩, And.right⟩

theorem optionalMember_isOk {members : List Member} {key : String}
    {parser : JsValue → JsString → Validated α} {label : JsString} {p : JsValue → Prop}
    (h : ∀ value, (parser value label).isOk = true ↔ p value) :
    (optionalMember (.object members) key parser label).isOk = true ↔
      ∀ value ∈ lookup (text key) members, p value := by
  rw [optionalMember, hasOwn_object]
  cases hlookup : lookup (text key) members with
  | none => exact ⟨fun _ => nofun, fun _ => rfl⟩
  | some value =>
      have hfield : (JsValue.object members).field key = value := by
        rw [JsValue.field, get_object, hlookup, Option.getD_some]
      rw [Option.isSome_some, if_pos rfl, isOk_map, hfield, h]
      exact ⟨fun hp _ hv => Option.some.inj hv ▸ hp, fun hall => hall value rfl⟩

theorem isWord_iff {value : JsValue} {w : String} : isWord value w = true ↔ value = word w := by
  cases value with
  | string s =>
      rw [isWord, decide_eq_true_eq]
      exact ⟨congrArg JsValue.string, JsValue.string.inj⟩
  | _ => exact ⟨nofun, nofun⟩

theorem oneOf_isOk {value : JsValue} {allowed : List String} {label : JsString} :
    (oneOf value allowed label).isOk = true ↔ ∃ candidate ∈ allowed, value = word candidate := by
  rw [oneOf]
  cases hfind : allowed.find? (isWord value) with
  | some candidate =>
      exact ⟨fun _ => ⟨candidate, List.mem_of_find?_eq_some hfind,
        isWord_iff.1 (List.find?_some hfind)⟩, fun _ => rfl⟩
  | none =>
      refine ⟨nofun, ?_⟩
      rintro ⟨candidate, hmem, hword⟩
      exact absurd (isWord_iff.2 hword) (List.find?_eq_none.1 hfind candidate hmem)

end FigmaDevMcp.ResultValidation

import FigmaDevMcp.Lib.NumberText
import FigmaDevMcp.Lib.Utf16

set_option autoImplicit false

/-!
# JavaScript values

The values a program reads from a host object or a parsed text, without identity and without
methods that have effects. Strings and names of members are lists of code units.

* `get`, `hasOwn`, `values`: members of an object;
* `ownProperty`, `inheritedProperty`, `property`: members by any name, and those of the prototypes;
* `quote`, `stringify`: `JSON.stringify`, with lone surrogates escaped.
-/

/-- A double is the rational it denotes, or none. -/
inductive JsNumber
  | nan
  | infinite (negative : Bool)
  | finite (q : ℚ)
deriving DecidableEq

/-- A `method` is a function, with what calling it returns. -/
inductive JsValue
  | undefined
  | null
  | bool (b : Bool)
  | number (n : JsNumber)
  | string (s : List ℕ)
  | symbol
  | method (result : JsValue)
  | array (items : List JsValue)
  | object (members : List (List ℕ × JsValue))

namespace JsValue

open Utf16

/-- A finite number. -/
abbrev rational (q : ℚ) : JsValue := .number (.finite q)

/-- The member of a name, the first one where there are several. -/
def lookup (key : List ℕ) : List (List ℕ × JsValue) → Option JsValue
  | [] => none
  | (k, v) :: rest => if k = key then some v else lookup key rest

/-- `Object.hasOwn`, for names that are no array index. -/
def hasOwn (value : JsValue) (key : List ℕ) : Bool :=
  match value with
  | .object members => (lookup key members).isSome
  | _ => false

/-- `value[key]`, for names that are no array index. -/
def get (value : JsValue) (key : List ℕ) : JsValue :=
  match value with
  | .object members => (lookup key members).getD .undefined
  | _ => .undefined

/-- The member of a name that is written out in the program. -/
abbrev field (value : JsValue) (key : String) : JsValue := value.get (ofString key)

/-- `Object.values`. -/
def values : JsValue → List JsValue
  | .object members => members.map Prod.snd
  | .array items => items
  | _ => []

/-- `Object.entries`, of an object. -/
def entries : JsValue → List (List ℕ × JsValue)
  | .object members => members
  | _ => []

/-! ## Members of any name -/

/-- The functions of `Object.prototype`. -/
def objectMethods : List String :=
  ["constructor", "hasOwnProperty", "isPrototypeOf", "propertyIsEnumerable", "toLocaleString",
    "toString", "valueOf", "__defineGetter__", "__defineSetter__", "__lookupGetter__",
    "__lookupSetter__"]

/-- The functions of `Array.prototype` that `Object.prototype` has not. -/
def arrayMethods : List String :=
  ["at", "concat", "copyWithin", "entries", "every", "fill", "filter", "find", "findIndex",
    "findLast", "findLastIndex", "flat", "flatMap", "forEach", "includes", "indexOf", "join",
    "keys", "lastIndexOf", "map", "pop", "push", "reduce", "reduceRight", "reverse", "shift",
    "slice", "some", "sort", "splice", "toReversed", "toSorted", "toSpliced", "unshift", "values",
    "with"]

/-- The names of the functions that an object or an array inherits. -/
def prototypeMethods : JsValue → List String
  | .object _ => objectMethods
  | .array _ => objectMethods ++ arrayMethods
  | _ => []

/-- The member that an object or an array has itself, array indices among them. -/
def ownProperty (value : JsValue) (key : List ℕ) : Option JsValue :=
  match value with
  | .object members => lookup key members
  | .array items =>
    if key = ofString "length" then some (rational items.length)
    else (items.zipIdx.find? fun item => NumberText.decimal item.2 = key).map Prod.fst
  | _ => none

/-- What an object or an array has from its prototypes. What their functions return is left open,
and the prototypes themselves have no members but functions. -/
def inheritedProperty (value : JsValue) (key : List ℕ) : JsValue :=
  if key = ofString "__proto__" then .object []
  else if ∃ name ∈ prototypeMethods value, ofString name = key then .method .undefined
  else .undefined

/-- `value[key]`, for an object or an array. -/
def property (value : JsValue) (key : List ℕ) : JsValue :=
  (ownProperty value key).getD (inheritedProperty value key)

/-! ## `JSON.stringify` -/

/-- A hexadecimal digit in small letters. -/
def hexDigit (n : ℕ) : ℕ := if n < 10 then 0x30 + n else 0x57 + n

/-- `\uXXXX` -/
def unicodeEscape (u : ℕ) : List ℕ :=
  [0x5c, 0x75, hexDigit (u / 0x1000), hexDigit (u / 0x100 % 0x10), hexDigit (u / 0x10 % 0x10),
    hexDigit (u % 0x10)]

/-- A code unit that is not half of a pair, in a quoted string. -/
def escapeUnit (u : ℕ) : List ℕ :=
  if u = 0x22 then [0x5c, 0x22]
  else if u = 0x5c then [0x5c, 0x5c]
  else if u = 0x08 then [0x5c, 0x62]
  else if u = 0x0c then [0x5c, 0x66]
  else if u = 0x0a then [0x5c, 0x6e]
  else if u = 0x0d then [0x5c, 0x72]
  else if u = 0x09 then [0x5c, 0x74]
  else if u < 0x20 ∨ isSurrogate u then unicodeEscape u
  else [u]

/-- The units of a string between its quotes. A lone surrogate is escaped. -/
def quoteBody : List ℕ → List ℕ
  | high :: low :: rest =>
    if isHighSurrogate high && isLowSurrogate low then high :: low :: quoteBody rest
    else escapeUnit high ++ quoteBody (low :: rest)
  | [u] => escapeUnit u
  | [] => []

/-- A string as a text of JSON. -/
def quote (s : List ℕ) : List ℕ := 0x22 :: quoteBody s ++ [0x22]

/-- Pieces with a comma between them. -/
def commas (pieces : List (List ℕ)) : List ℕ := [0x2c].intercalate pieces

mutual

/-- `JSON.stringify`: nothing for what JSON does not have. -/
def stringify : JsValue → Option (List ℕ)
  | .undefined | .symbol | .method _ => none
  | .null => some (ofString "null")
  | .bool b => some (if b then ofString "true" else ofString "false")
  | .number (.finite q) => some (NumberText.toText q)
  | .number _ => some (ofString "null")
  | .string s => some (quote s)
  | .array items => some (0x5b :: commas (stringifyItems items) ++ [0x5d])
  | .object members => some (0x7b :: commas (stringifyMembers members) ++ [0x7d])

/-- The texts of the items of an array. One without a text is `null`. -/
def stringifyItems : List JsValue → List (List ℕ)
  | [] => []
  | item :: rest => (stringify item).getD (ofString "null") :: stringifyItems rest

/-- A member whose value has no text is left out. -/
def stringifyMembers : List (List ℕ × JsValue) → List (List ℕ)
  | [] => []
  | (key, value) :: rest =>
    match stringify value with
    | some text => (quote key ++ 0x3a :: text) :: stringifyMembers rest
    | none => stringifyMembers rest

end

@[simp] theorem get_object (members : List (List ℕ × JsValue)) (key : List ℕ) :
    (JsValue.object members).get key = (lookup key members).getD .undefined := rfl

@[simp] theorem hasOwn_object (members : List (List ℕ × JsValue)) (key : List ℕ) :
    (JsValue.object members).hasOwn key = (lookup key members).isSome := rfl

theorem inheritedProperty_cases (value : JsValue) (key : List ℕ) :
    value.inheritedProperty key = .undefined ∨ value.inheritedProperty key = .object [] ∨
      value.inheritedProperty key = .method .undefined := by
  rw [inheritedProperty]
  split_ifs
  · exact Or.inr (Or.inl rfl)
  · exact Or.inr (Or.inr rfl)
  · exact Or.inl rfl

/-- Nothing is inherited by another name. -/
theorem inheritedProperty_eq_undefined (value : JsValue) {key : List ℕ}
    (hproto : key ≠ ofString "__proto__")
    (hkey : ∀ name ∈ objectMethods ++ arrayMethods, ofString name ≠ key) :
    value.inheritedProperty key = .undefined := by
  rw [inheritedProperty, if_neg hproto, if_neg]
  rintro ⟨name, hname, hsame⟩
  refine hkey name ?_ hsame
  cases value with
  | object members => exact List.mem_append_left _ hname
  | array items => exact hname
  | _ => cases hname

theorem property_of_own {value x : JsValue} {key : List ℕ} (h : value.ownProperty key = some x) :
    value.property key = x := by
  rw [property, h, Option.getD_some]

theorem property_of_none {value : JsValue} {key : List ℕ} (h : value.ownProperty key = none) :
    value.property key = value.inheritedProperty key := by
  rw [property, h, Option.getD_none]

@[simp] theorem lookup_nil (key : List ℕ) : lookup key [] = none := rfl

@[simp] theorem lookup_cons (key k : List ℕ) (v : JsValue) (rest : List (List ℕ × JsValue)) :
    lookup key ((k, v) :: rest) = if k = key then some v else lookup key rest := rfl

theorem lookup_isSome {key : List ℕ} {members : List (List ℕ × JsValue)} :
    (lookup key members).isSome = true ↔ key ∈ members.map Prod.fst := by
  induction members with
  | nil => exact ⟨nofun, nofun⟩
  | cons m members ih =>
      obtain ⟨k, v⟩ := m
      rw [lookup_cons, List.map_cons, List.mem_cons]
      by_cases hk : k = key
      · rw [if_pos hk]
        exact ⟨fun _ => Or.inl hk.symm, fun _ => rfl⟩
      · rw [if_neg hk, ih]
        exact (or_iff_right (Ne.symm hk)).symm

/-- The member of a key, where the members are made from their keys. -/
theorem lookup_map {keys : List (List ℕ)} {f : List ℕ → JsValue} {key : List ℕ} (h : key ∈ keys) :
    lookup key (keys.map fun k => (k, f k)) = some (f key) := by
  induction keys with
  | nil => cases h
  | cons k keys ih =>
      rw [List.map_cons, lookup_cons]
      by_cases hk : k = key
      · rw [if_pos hk, hk]
      · rw [if_neg hk]
        exact ih ((List.mem_cons.1 h).resolve_left (Ne.symm hk))

theorem lookup_append (key : List ℕ) (l r : List (List ℕ × JsValue)) :
    lookup key (l ++ r) = (lookup key l).or (lookup key r) := by
  induction l with
  | nil => rfl
  | cons kv l ih =>
      obtain ⟨k, v⟩ := kv
      rw [List.cons_append, lookup_cons, lookup_cons]
      split_ifs
      · rfl
      · exact ih

end JsValue

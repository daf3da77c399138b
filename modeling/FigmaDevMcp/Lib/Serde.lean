import FigmaDevMcp.Lib.Guard
import Mathlib.Algebra.Ring.Nat
import Mathlib.Data.List.Nodup
import Mathlib.Data.List.Perm.Basic
import Mathlib.Logic.Function.Basic
import Mathlib.Tactic.Common

set_option autoImplicit false

/-!
# Reading an object member by member

A deserializer is told of the members of a JSON object one after the other. It keeps a slot for
each field it knows, and makes a value of the slots when the object ends.

* `Json`: a JSON text, as what it denotes and how long it is;
* `Agree`, `agree_foldlM_perm`: when a run over a list does not depend on its order;
* `Spec`: the fields of an object, with `visitMap`, the run over its members;
* `visitMap_perm`, `slots_of_visitMap`, `visitMap_members`: its order does not matter, its slots
  are the members, and what is written from slots is read back into them;
* `Readable`, `visitMap_isOk`: which objects have slots;
* `visitMap_of_visitMap`: slots under another specification of the same members.
-/

namespace Serde

/-- A number as a deserializer is told of it. `F` are the doubles. -/
inductive Number (F : Type)
  | unsigned (n : ℕ)
  | negative (n : ℕ)
  | float (x : F)

/-- The name of a member, with the bytes between its quotes. -/
structure Name where
  size : ℕ
  text : String

/-- A JSON text: what it denotes, with the bytes of a number, the bytes between the quotes of a
string, and the white space between the parts of an array or an object. -/
inductive Json (F : Type)
  | null
  | bool (b : Bool)
  | number (size : ℕ) (value : Number F)
  | string (size : ℕ) (value : List Char)
  | array (space : ℕ) (items : List (Json F))
  | object (space : ℕ) (members : List (Name × Json F))

/-- A member of an object. -/
abbrev Member (F : Type) := Name × Json F

/-- Why a text is not read. -/
inductive DecodeError
  | invalidType (expected : String)
  | invalidLength (length : ℕ)
  | unknownField (name : String)
  | unknownVariant (name : List Char)
  | duplicateField (name : String)
  | missingField (name : String)
  | custom (message : String)
  /-- The error of a text that was read on its own. -/
  | nested (error : DecodeError)

variable {F : Type}

namespace Json

mutual

/-- The bytes of the text. -/
def len : Json F → ℕ
  | null => 4
  | bool b => if b then 4 else 5
  | number size _ => size
  | string size _ => size + 2
  | array space items => 2 + space + lenItems items + (items.length - 1)
  | object space members => 2 + space + lenMembers members + (members.length - 1)

/-- The bytes of the items of an array. -/
def lenItems : List (Json F) → ℕ
  | [] => 0
  | item :: rest => item.len + lenItems rest

/-- A member has quotes around its name, and a colon after it. -/
def lenMembers : List (Name × Json F) → ℕ
  | [] => 0
  | (name, value) :: rest => name.size + 3 + value.len + lenMembers rest

end

/-- `deserialize_map` -/
def visitMap {α : Type} (expected : String) (visit : List (Member F) → Except DecodeError α) :
    Json F → Except DecodeError α
  | object _ members => visit members
  | _ => .error (.invalidType expected)

/-- A boolean. -/
def readBool : Json F → Except DecodeError Bool
  | bool b => .ok b
  | _ => .error (.invalidType "a boolean")

/-- A string. -/
def readString : Json F → Except DecodeError (List Char)
  | string _ value => .ok value
  | _ => .error (.invalidType "a string")

/-- An unsigned integer of that many bits. -/
def readUnsigned (bits : ℕ) : Json F → Except DecodeError (Fin (2 ^ bits))
  | number _ (.unsigned n) =>
    if h : n < 2 ^ bits then .ok ⟨n, h⟩ else .error (.invalidType "an unsigned integer")
  | _ => .error (.invalidType "an unsigned integer")

/-- A value that may be missing: `null` is none. -/
def readOption {α : Type} (read : Json F → Except DecodeError α) :
    Json F → Except DecodeError (Option α)
  | null => .ok none
  | json => (read json).map some

/-- The word of a closed set: as a string, or as the only name of an object with nothing in it. -/
def readWord {α : Type} (words : List (String × α)) : Json F → Except DecodeError α
  | string _ value => pick value
  | object _ [(name, null)] => pick name.text.toList
  | _ => .error (.invalidType "string or map")
where
  pick (value : List Char) : Except DecodeError α :=
    match words.find? fun w => w.1.toList = value with
    | some w => .ok w.2
    | none => .error (.unknownVariant value)

end Json

/-! ## Runs that do not depend on an order -/

section

variable {ε σ τ υ α : Type}

/-- Both succeed, with results that are related, or both fail. -/
inductive Agree (R : σ → τ → Prop) : Except ε σ → Except ε τ → Prop
  | ok {s : σ} {t : τ} (h : R s t) : Agree R (.ok s) (.ok t)
  | error (d e : ε) : Agree R (.error d) (.error e)

theorem Agree.bind {σ' τ' : Type} {R : σ → τ → Prop} {S : σ' → τ' → Prop} {x : Except ε σ}
    {y : Except ε τ} {f : σ → Except ε σ'} {g : τ → Except ε τ'} (h : Agree R x y)
    (hfg : ∀ s t, R s t → Agree S (f s) (g t)) : Agree S (x >>= f) (y >>= g) := by
  cases h with
  | ok h => exact hfg _ _ h
  | error d e => exact .error d e

theorem Agree.map {σ' τ' : Type} {R : σ → τ → Prop} {S : σ' → τ' → Prop} {x : Except ε σ}
    {y : Except ε τ} {f : σ → σ'} {g : τ → τ'} (h : Agree R x y)
    (hfg : ∀ s t, R s t → S (f s) (g t)) : Agree S (x.map f) (y.map g) := by
  cases h with
  | ok h => exact .ok (hfg _ _ h)
  | error d e => exact .error d e

theorem Agree.trans {R : σ → σ → Prop} (hR : ∀ s t u, R s t → R t u → R s u) {x y z : Except ε σ}
    (hxy : Agree R x y) (hyz : Agree R y z) : Agree R x z := by
  cases hxy with
  | ok h =>
      cases hyz with
      | ok h' => exact .ok (hR _ _ _ h h')
  | error d e =>
      cases hyz with
      | error _ e' => exact .error d e'

theorem Agree.refl {R : σ → σ → Prop} (hR : ∀ s, R s s) (x : Except ε σ) : Agree R x x := by
  cases x with
  | ok s => exact .ok (hR s)
  | error e => exact .error e e

theorem agree_of_imp {R : σ → τ → Prop} {x : Except ε σ} {y : Except ε τ}
    (h : ∀ s, x = .ok s → ∃ t, y = .ok t ∧ R s t) (h' : ∀ t, y = .ok t → ∃ s, x = .ok s) :
    Agree R x y := by
  cases hx : x with
  | ok s =>
      obtain ⟨t, hy, hst⟩ := h s hx
      rw [hy]
      exact .ok hst
  | error d =>
      cases hy : y with
      | ok t =>
          obtain ⟨s, hs⟩ := h' t hy
          rw [hx] at hs
          cases hs
      | error e => exact .error d e

/-- Where each step takes a key that no step before it has taken, no key comes twice. -/
theorem nodup_of_foldlM {κ : Type} {step : σ → α → Except ε σ} {key : α → κ} {taken : σ → κ → Prop}
    (hstep : ∀ s a t, step s a = .ok t →
      ¬ taken s (key a) ∧ taken t (key a) ∧ ∀ k, taken s k → taken t k)
    {l : List α} {s t : σ} (h : l.foldlM step s = .ok t) :
    (l.map key).Nodup ∧ ∀ a ∈ l, ¬ taken s (key a) := by
  induction l generalizing s with
  | nil => exact ⟨List.nodup_nil, List.forall_mem_nil _⟩
  | cons a l ih =>
      rw [List.foldlM_cons] at h
      obtain ⟨u, hu, h⟩ := Guard.bind_eq_ok.1 h
      have ⟨hfree, htaken, hkeep⟩ := hstep s a u hu
      have ⟨hnodup, hrest⟩ := ih h
      refine ⟨List.nodup_cons.2 ⟨fun hmem => ?_, hnodup⟩, List.forall_mem_cons.2 ⟨hfree, ?_⟩⟩
      · obtain ⟨b, hb, hkey⟩ := List.mem_map.1 hmem
        exact hrest b hb (hkey ▸ htaken)
      · exact fun b hb hs => hrest b hb (hkeep _ hs)

/-- **Order rule.** Where two steps in either order agree, so do the runs over a list and over any
rearrangement of it. -/
theorem agree_foldlM_perm {step : σ → α → Except ε σ} {R : σ → σ → Prop} (hrefl : ∀ s, R s s)
    (htrans : ∀ s t u, R s t → R t u → R s u)
    (hstep : ∀ s t a, R s t → Agree R (step s a) (step t a))
    (hswap : ∀ s a b, Agree R (step s a >>= (step · b)) (step s b >>= (step · a)))
    {l₁ l₂ : List α} (h : l₁.Perm l₂) :
    ∀ s t, R s t → Agree R (l₁.foldlM step s) (l₂.foldlM step t) := by
  have hsame : ∀ (l : List α) s t, R s t → Agree R (l.foldlM step s) (l.foldlM step t) := by
    intro l
    induction l with
    | nil => exact fun s t hst => .ok hst
    | cons a l ih => exact fun s t hst => (hstep s t a hst).bind ih
  induction h with
  | nil => exact fun s t hst => .ok hst
  | cons a _ ih => exact fun s t hst => (hstep s t a hst).bind ih
  | swap a b l =>
      intro s t hst
      have htwo : ∀ s, ∀ x y : α, (x :: y :: l).foldlM step s =
          (step s x >>= (step · y)) >>= fun s => l.foldlM step s := by
        intro s x y
        rw [List.foldlM_cons, bind_assoc]
        rfl
      rw [htwo, htwo]
      refine Agree.bind ((hswap s b a).trans htrans ?_) (hsame l)
      exact (hstep s t a hst).bind fun s t hst => hstep s t b hst
  | trans _ _ ih₁ ih₂ =>
      exact fun s t hst => (ih₁ s t hst).trans htrans (ih₂ t t (hrefl t))

end

/-! ## Fields and slots -/

/-- The fields of an object, in their order: their names, their values, and how these are read. -/
structure Spec (F Field : Type) where
  fields : List Field
  name : Field → String
  Val : Field → Type
  read : ∀ f, Json F → Except DecodeError (Val f)
  /-- A repeated member is noticed before its value is read. -/
  early : Bool
  nodup : fields.Nodup
  complete : ∀ f, f ∈ fields
  name_inj : ∀ f g, name f = name g → f = g

namespace Spec

variable {Field : Type} [DecidableEq Field] (spec : Spec F Field)

/-- The fields that have been read so far. -/
abbrev Slots := ∀ f, Option (spec.Val f)

/-- A specification by the list of its fields, whose names differ. -/
def ofNodup (fields : List Field) (name : Field → String) (Val : Field → Type)
    (read : ∀ f, Json F → Except DecodeError (Val f)) (early : Bool)
    (complete : ∀ f, f ∈ fields) (nodup : (fields.map name).Nodup) : Spec F Field where
  fields := fields
  name := name
  Val := Val
  read := read
  early := early
  nodup := .of_map name nodup
  complete := complete
  name_inj f g h := List.inj_on_of_nodup_map nodup (complete f) (complete g) h

/-- The field of a name, if there is one. -/
def field (name : String) : Option Field := spec.fields.find? fun f => spec.name f = name

/-- One member of the object. -/
def step (s : spec.Slots) (m : Member F) : Except DecodeError spec.Slots :=
  match spec.field m.1.text with
  | none => .error (.unknownField m.1.text)
  | some f =>
    if spec.early && (s f).isSome then .error (.duplicateField (spec.name f))
    else do
      let v ← spec.read f m.2
      if (s f).isSome then .error (.duplicateField (spec.name f))
      else .ok (Function.update s f (some v))

/-- The members of an object are read in the order in which they stand. -/
def visitMap (members : List (Member F)) : Except DecodeError spec.Slots :=
  members.foldlM spec.step fun _ => none

/-- The items of an array, one for each field in turn. -/
def visitSeq (defaulted : Field → Bool) (items : List (Json F)) : Except DecodeError spec.Slots :=
  go 0 spec.fields items fun _ => none
where
  go : ℕ → List Field → List (Json F) → spec.Slots → Except DecodeError spec.Slots
    | _, [], [], s => .ok s
    | _, [], _ :: _, _ => .error (.custom "trailing characters")
    | index, f :: fields, [], s =>
      if defaulted f then go (index + 1) fields [] s else .error (.invalidLength index)
    | index, f :: fields, item :: items, s => do
      let v ← spec.read f item
      go (index + 1) fields items (Function.update s f (some v))

/-- A structure whose deserializer is derived: an object, or the array of its fields. -/
def readStruct {α : Type} (expected : String) (defaulted : Field → Bool)
    (build : spec.Slots → Except DecodeError α) : Json F → Except DecodeError α
  | .object _ members => spec.visitMap members >>= build
  | .array _ items => spec.visitSeq defaulted items >>= build
  | _ => .error (.invalidType expected)

/-- The value of a slot that has to be there. -/
def require {spec : Spec F Field} (s : spec.Slots) (f : Field) : Except DecodeError (spec.Val f) :=
  match s f with
  | some v => .ok v
  | none => .error (.missingField (spec.name f))

/-- What is written of the slots of some fields that are there. A name has no escapes. -/
def members (order : List Field) (write : ∀ f, spec.Val f → Json F) (s : spec.Slots) :
    List (Member F) :=
  order.filterMap fun f => (s f).map fun v => (⟨(spec.name f).utf8ByteSize, spec.name f⟩, write f v)

variable {spec}

omit [DecidableEq Field] in
theorem field_eq_some {name : String} {f : Field} :
    spec.field name = some f ↔ spec.name f = name := by
  constructor
  · intro h
    simpa using List.find?_some h
  · rintro rfl
    cases h : spec.field (spec.name f) with
    | none => exact absurd (List.find?_eq_none.1 h f (spec.complete f)) (by simp)
    | some g => rw [spec.name_inj g f (by simpa using List.find?_some h)]

/-- A step that succeeds fills the slot of its member, which was empty. -/
theorem step_eq_ok {s t : spec.Slots} {m : Member F} :
    spec.step s m = .ok t ↔ ∃ f v, spec.name f = m.1.text ∧ s f = none ∧
      spec.read f m.2 = .ok v ∧ t = Function.update s f (some v) := by
  rw [step]
  cases hf : spec.field m.1.text with
  | none =>
      refine ⟨nofun, ?_⟩
      rintro ⟨f, v, hname, -⟩
      rw [field_eq_some.2 hname] at hf
      cases hf
  | some f =>
      have hname := field_eq_some.1 hf
      dsimp only
      cases hs : s f with
      | some w =>
          constructor
          · intro h
            simp only [Option.isSome_some, Bool.and_true, if_true] at h
            split_ifs at h
            cases hv : spec.read f m.2 <;> rw [hv] at h <;> cases h
          · rintro ⟨g, v, hg, hnone, -⟩
            obtain rfl := spec.name_inj g f (hg.trans hname.symm)
            rw [hs] at hnone
            cases hnone
      | none =>
          simp only [Option.isSome_none, Bool.and_false, Bool.false_eq_true, if_false]
          constructor
          · intro h
            obtain ⟨v, hv, h⟩ := Guard.bind_eq_ok.1 h
            exact ⟨f, v, hname, hs, hv, (Except.ok.inj h).symm⟩
          · rintro ⟨g, v, hg, -, hv, rfl⟩
            obtain rfl := spec.name_inj g f (hg.trans hname.symm)
            rw [hv]
            rfl

theorem two_steps {s t : spec.Slots} {a b : Member F}
    (h : (spec.step s a >>= fun s => spec.step s b) = .ok t) :
    (spec.step s b >>= fun s => spec.step s a) = .ok t := by
  obtain ⟨u, ha, hb⟩ := Guard.bind_eq_ok.1 h
  obtain ⟨f, v, hf, hsf, hv, rfl⟩ := step_eq_ok.1 ha
  obtain ⟨g, w, hg, hug, hw, rfl⟩ := step_eq_ok.1 hb
  have hne : g ≠ f := by
    rintro rfl
    rw [Function.update_self] at hug
    cases hug
  rw [Function.update_of_ne hne] at hug
  refine Guard.bind_eq_ok.2 ⟨_, step_eq_ok.2 ⟨g, w, hg, hug, hw, rfl⟩, ?_⟩
  refine step_eq_ok.2 ⟨f, v, hf, ?_, hv, Function.update_comm hne.symm _ _ _⟩
  rwa [Function.update_of_ne hne.symm]

/-- **The order of the members does not matter.** -/
theorem visitMap_perm {l₁ l₂ : List (Member F)} (h : l₁.Perm l₂) :
    Agree Eq (spec.visitMap l₁) (spec.visitMap l₂) := by
  refine agree_foldlM_perm (fun _ => rfl) (fun _ _ _ => Eq.trans) ?_ ?_ h _ _ rfl
  · rintro s _ a rfl
    exact .refl (fun _ => rfl) _
  · exact fun s a b => agree_of_imp (fun t h => ⟨t, two_steps h, rfl⟩) fun t h => ⟨t, two_steps h⟩

theorem foldlM_step_eq_ok {ms : List (Member F)} {s t : spec.Slots}
    (h : ms.foldlM spec.step s = .ok t) :
    (ms.map fun m => m.1.text).Nodup ∧
      (∀ m ∈ ms, ∃ f v, spec.name f = m.1.text ∧ s f = none ∧ spec.read f m.2 = .ok v ∧
        t f = some v) ∧
      ∀ f, (∀ m ∈ ms, m.1.text ≠ spec.name f) → t f = s f := by
  induction ms generalizing s with
  | nil =>
      obtain rfl := Except.ok.inj h
      exact ⟨List.nodup_nil, List.forall_mem_nil _, fun _ _ => rfl⟩
  | cons m ms ih =>
      rw [List.foldlM_cons] at h
      obtain ⟨u, hu, h⟩ := Guard.bind_eq_ok.1 h
      obtain ⟨f, v, hf, hsf, hv, rfl⟩ := step_eq_ok.1 hu
      have ⟨hnodup, hslots, hrest⟩ := ih h
      have hfresh : ∀ n ∈ ms, n.1.text ≠ spec.name f := by
        intro n hn hname
        obtain ⟨g, w, hg, hnone, -⟩ := hslots n hn
        obtain rfl := spec.name_inj g f (hg.trans hname)
        rw [Function.update_self] at hnone
        cases hnone
      refine ⟨?_, List.forall_mem_cons.2 ⟨?_, ?_⟩, ?_⟩
      · refine List.nodup_cons.2 ⟨fun hmem => ?_, hnodup⟩
        obtain ⟨n, hn, hname⟩ := List.mem_map.1 hmem
        exact hfresh n hn (hname.trans hf.symm)
      · refine ⟨f, v, hf, hsf, hv, ?_⟩
        rw [hrest f hfresh, Function.update_self]
      · intro n hn
        obtain ⟨g, w, hg, hnone, hw, htg⟩ := hslots n hn
        have hne : g ≠ f := fun heq => hfresh n hn (hg.symm.trans (congrArg _ heq))
        rw [Function.update_of_ne hne] at hnone
        exact ⟨g, w, hg, hnone, hw, htg⟩
      · intro g hg
        have ⟨hm, hms⟩ := List.forall_mem_cons.1 hg
        have hne : g ≠ f := fun heq => hm (hf.symm.trans (congrArg _ heq.symm))
        rw [hrest g hms, Function.update_of_ne hne]

/-- **The slots are the members**: each member has a field of its own, whose slot holds what was
read of it, and the other slots are empty. -/
theorem slots_of_visitMap {ms : List (Member F)} {s : spec.Slots} (h : spec.visitMap ms = .ok s) :
    (ms.map fun m => m.1.text).Nodup ∧
      (∀ m ∈ ms, ∃ f v, spec.name f = m.1.text ∧ spec.read f m.2 = .ok v ∧ s f = some v) ∧
      ∀ f, (∀ m ∈ ms, m.1.text ≠ spec.name f) → s f = none := by
  have ⟨hnodup, hslots, hrest⟩ := foldlM_step_eq_ok h
  refine ⟨hnodup, fun m hm => ?_, hrest⟩
  obtain ⟨f, v, hf, -, hv, hs⟩ := hslots m hm
  exact ⟨f, v, hf, hv, hs⟩

variable (spec) in
/-- Each member has a field of its own, as which its value can be read. -/
structure Readable (ms : List (Member F)) : Prop where
  nodup : (ms.map fun m => m.1.text).Nodup
  read : ∀ m ∈ ms, ∃ f v, spec.name f = m.1.text ∧ spec.read f m.2 = .ok v

theorem Readable.foldlM {ms : List (Member F)} (h : spec.Readable ms) (s : spec.Slots)
    (hs : ∀ m ∈ ms, ∀ f, spec.name f = m.1.text → s f = none) :
    ∃ t, ms.foldlM spec.step s = .ok t := by
  induction ms generalizing s with
  | nil => exact ⟨s, rfl⟩
  | cons m ms ih =>
      have ⟨hm, hms⟩ := List.nodup_cons.1 h.nodup
      have ⟨hread, hrest⟩ := List.forall_mem_cons.1 h.read
      have ⟨hfree, hfrees⟩ := List.forall_mem_cons.1 hs
      obtain ⟨f, v, hf, hv⟩ := hread
      obtain ⟨t, ht⟩ := ih ⟨hms, hrest⟩ (Function.update s f (some v)) fun n hn g hg => by
        have hne : g ≠ f := by
          rintro rfl
          exact hm (List.mem_map.2 ⟨n, hn, hg.symm.trans hf⟩)
        rw [Function.update_of_ne hne]
        exact hfrees n hn g hg
      refine ⟨t, ?_⟩
      rw [List.foldlM_cons, step_eq_ok.2 ⟨f, v, hf, hfree f hf, hv, rfl⟩, Guard.ok_bind, ht]

/-- **Which objects have slots.** -/
theorem visitMap_isOk {ms : List (Member F)} :
    (∃ s, spec.visitMap ms = .ok s) ↔ spec.Readable ms := by
  constructor
  · rintro ⟨s, hs⟩
    have ⟨hnodup, hslots, _⟩ := slots_of_visitMap hs
    refine ⟨hnodup, fun m hm => ?_⟩
    obtain ⟨f, v, hf, hv, _⟩ := hslots m hm
    exact ⟨f, v, hf, hv⟩
  · exact fun h => h.foldlM _ fun _ _ _ _ => rfl

/-- A slot holds what was read of the member of its name. -/
theorem slot_eq_some {ms : List (Member F)} {s : spec.Slots} (h : spec.visitMap ms = .ok s)
    {f : Field} {v : spec.Val f} :
    s f = some v ↔ ∃ m ∈ ms, m.1.text = spec.name f ∧ spec.read f m.2 = .ok v := by
  have ⟨_, hslots, hrest⟩ := slots_of_visitMap h
  constructor
  · intro hsf
    have hmem : ∃ m ∈ ms, m.1.text = spec.name f := by
      by_contra hno
      rw [hrest f fun m hm hname => hno ⟨m, hm, hname⟩] at hsf
      cases hsf
    obtain ⟨m, hm, hname⟩ := hmem
    obtain ⟨g, w, hg, hw, hsg⟩ := hslots m hm
    obtain rfl := spec.name_inj g f (hg.trans hname)
    rw [hsf] at hsg
    exact ⟨m, hm, hname, Option.some.inj hsg ▸ hw⟩
  · rintro ⟨m, hm, hname, hv⟩
    obtain ⟨g, w, hg, hw, hsg⟩ := hslots m hm
    obtain rfl := spec.name_inj g f (hg.trans hname)
    rw [hsg, Except.ok.inj (hw.symm.trans hv)]

theorem slot_ne_none {ms : List (Member F)} {s : spec.Slots} (h : spec.visitMap ms = .ok s)
    {f : Field} : s f ≠ none ↔ ∃ m ∈ ms, m.1.text = spec.name f := by
  have ⟨_, hslots, hrest⟩ := slots_of_visitMap h
  constructor
  · intro hf
    by_contra hno
    exact hf (hrest f fun m hm hname => hno ⟨m, hm, hname⟩)
  · rintro ⟨m, hm, hname⟩
    obtain ⟨g, w, hg, _, hsg⟩ := hslots m hm
    obtain rfl := spec.name_inj g f (hg.trans hname)
    rw [hsg]
    exact Option.some_ne_none w

/-- The same object under another specification, which reads the same members, some of them in
another way. -/
theorem visitMap_of_visitMap {spec' : Spec F Field} {ms : List (Member F)} {s : spec.Slots}
    {t : spec'.Slots} (h : spec.visitMap ms = .ok s) (hname : ∀ f, spec'.name f = spec.name f)
    (hnone : ∀ f, s f = none → t f = none)
    (hsome : ∀ m ∈ ms, ∀ f v, spec.name f = m.1.text → s f = some v → spec.read f m.2 = .ok v →
      ∃ w, t f = some w ∧ spec'.read f m.2 = .ok w) :
    spec'.visitMap ms = .ok t := by
  have ⟨hnodup, hslots, hrest⟩ := slots_of_visitMap h
  have hmember : ∀ m ∈ ms, ∃ f w, spec'.name f = m.1.text ∧ t f = some w ∧
      spec'.read f m.2 = .ok w := by
    intro m hm
    obtain ⟨f, v, hf, hv, hs⟩ := hslots m hm
    obtain ⟨w, ht, hw⟩ := hsome m hm f v hf hs hv
    exact ⟨f, w, (hname f).trans hf, ht, hw⟩
  obtain ⟨u, hu⟩ := visitMap_isOk.2 ⟨hnodup, fun m hm => by
    obtain ⟨f, w, hf, _, hw⟩ := hmember m hm
    exact ⟨f, w, hf, hw⟩⟩
  rw [hu]
  refine congrArg Except.ok (funext fun f => ?_)
  by_cases hmem : ∃ m ∈ ms, m.1.text = spec'.name f
  · obtain ⟨m, hm, hf⟩ := hmem
    obtain ⟨g, w, hg, ht, hw⟩ := hmember m hm
    obtain rfl := spec'.name_inj g f (hg.trans hf)
    rw [ht]
    exact (slot_eq_some hu).2 ⟨m, hm, hf, hw⟩
  · have hno : ∀ m ∈ ms, m.1.text ≠ spec'.name f := fun m hm hf => hmem ⟨m, hm, hf⟩
    rw [(slots_of_visitMap hu).2.2 f hno, hnone f (hrest f fun m hm hf => hno m hm (hf.trans (hname f).symm))]

/-- What the reader makes of an object depends on no order of its members. -/
def OrderFree {α : Type} (read : Json F → Except DecodeError α) : Prop :=
  ∀ space₁ space₂ l₁ l₂, l₁.Perm l₂ →
    Agree Eq (read (.object space₁ l₁)) (read (.object space₂ l₂))

/-- The reader refuses an object in which a name comes twice. -/
def RejectsRepeated {α : Type} (read : Json F → Except DecodeError α) : Prop :=
  ∀ space members v, read (.object space members) = .ok v →
    (members.map fun m => m.1.text).Nodup

theorem orderFree {α : Type} {read : Json F → Except DecodeError α}
    {build : spec.Slots → Except DecodeError α}
    (hread : ∀ space members, read (.object space members) = spec.visitMap members >>= build) :
    OrderFree read := by
  intro space₁ space₂ l₁ l₂ hperm
  rw [hread, hread]
  refine (visitMap_perm hperm).bind ?_
  rintro s _ rfl
  exact .refl (fun _ => rfl) _

theorem rejectsRepeated {α : Type} {read : Json F → Except DecodeError α}
    {build : spec.Slots → Except DecodeError α}
    (hread : ∀ space members, read (.object space members) = spec.visitMap members >>= build) :
    RejectsRepeated read := by
  intro space members v h
  rw [hread] at h
  obtain ⟨s, hs, -⟩ := Guard.bind_eq_ok.1 h
  exact (slots_of_visitMap hs).1

theorem foldlM_members {write : ∀ f, spec.Val f → Json F} {s : spec.Slots}
    (hwrite : ∀ f v, s f = some v → spec.read f (write f v) = .ok v) {order : List Field}
    (hnodup : order.Nodup) (t : spec.Slots) (ht : ∀ f ∈ order, t f = none) :
    (spec.members order write s).foldlM spec.step t = .ok fun f => if f ∈ order then s f else t f := by
  induction order generalizing t with
  | nil => exact congrArg Except.ok (funext fun f => (if_neg List.not_mem_nil).symm)
  | cons f order ih =>
      have ⟨hf, hnodup⟩ := List.nodup_cons.1 hnodup
      have ⟨htf, hrest⟩ := List.forall_mem_cons.1 ht
      cases hs : s f with
      | none =>
          have hmembers : spec.members (f :: order) write s = spec.members order write s := by
            rw [members, List.filterMap_cons, hs]
            rfl
          rw [hmembers, ih hnodup t hrest]
          refine congrArg Except.ok (funext fun g => ?_)
          by_cases hg : g = f
          · rw [hg, if_neg hf, if_pos List.mem_cons_self, htf, hs]
          · simp only [List.mem_cons, hg, false_or]
      | some v =>
          have hmembers : spec.members (f :: order) write s =
              (⟨(spec.name f).utf8ByteSize, spec.name f⟩, write f v) ::
                spec.members order write s := by
            rw [members, List.filterMap_cons, hs]
            rfl
          rw [hmembers, List.foldlM_cons, step_eq_ok.2 ⟨f, v, rfl, htf, hwrite f v hs, rfl⟩,
            Guard.ok_bind, ih hnodup _ fun g hg => ?_]
          · refine congrArg Except.ok (funext fun g => ?_)
            by_cases hg : g = f
            · rw [hg, if_neg hf, if_pos List.mem_cons_self, Function.update_self, hs]
            · simp only [List.mem_cons, hg, false_or, Function.update_of_ne hg]
          · have hne : g ≠ f := by
              rintro rfl
              exact hf hg
            rw [Function.update_of_ne hne, hrest g hg]

/-- **What is written from slots is read back into them.** -/
theorem visitMap_members {write : ∀ f, spec.Val f → Json F} {s : spec.Slots}
    (hwrite : ∀ f v, s f = some v → spec.read f (write f v) = .ok v) {order : List Field}
    (hnodup : order.Nodup) (hall : ∀ f, f ∈ order) :
    spec.visitMap (spec.members order write s) = .ok s := by
  rw [visitMap, foldlM_members hwrite hnodup _ fun _ _ => rfl]
  exact congrArg Except.ok (funext fun f => if_pos (hall f))

end Spec

end Serde

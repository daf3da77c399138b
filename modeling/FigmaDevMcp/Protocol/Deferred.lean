import FigmaDevMcp.Lib.Serde
import FigmaDevMcp.Protocol.Limits

set_option autoImplicit false

/-!
# Deferred objects

`deferred.rs`: the members of an object that are put aside, as the texts they are, until the
discriminator says how to read them.

* `DeferredObject.insert`, `decode`, `decodeRaw`: from the source;
* `len_encoded`: the bytes charged are those of the text that is put together;
* `agree_decode`: what is read of the object does not depend on the order of its fields.
-/

namespace FigmaDevMcp.Protocol

open Serde

variable {F : Type}

/-- A member that is put aside. -/
structure DeferredField (F : Type) where
  name : String
  value : Json F

/-- The members that are put aside, and the estimate of their bytes. -/
structure DeferredObject (F : Type) where
  fields : List (DeferredField F)
  encodedBytes : ℕ

/-- `"name":value`, and the comma before every field except the first. -/
def fieldCost (nameLen valueLen : ℕ) (isFirst : Bool) : ℕ :=
  nameLen + 3 + valueLen + if isFirst then 0 else 1

/-- The members come to too many bytes. -/
def tooLong : DecodeError := .custom s!"deferred JSON exceeds {maxEnvelopeBytes} bytes"

/-- `usize::MAX`, where that has 64 bits. -/
def maxUsize : ℕ := 2 ^ 64 - 1

namespace DeferredObject

/-- An object without members. -/
def new : DeferredObject F := ⟨[], 2⟩

/-- A member is put aside, unless its name is there or the bytes are too many. -/
def insert (object : DeferredObject F) (name : String) (value : Json F) :
    Except DecodeError (DeferredObject F) :=
  if object.fields.any fun field => field.name = name then .error (.duplicateField name)
  else
    let next := object.encodedBytes + fieldCost name.utf8ByteSize value.len object.fields.isEmpty
    if maxUsize < next then .error (.custom "deferred JSON length overflow")
    else if maxEnvelopeBytes < next then .error tooLong
    else .ok ⟨object.fields ++ [⟨name, value⟩], next⟩

/-- The text that is put together: no white space, and names without escapes. -/
def members (object : DeferredObject F) : List (Member F) :=
  object.fields.map fun field => (⟨field.name.utf8ByteSize, field.name⟩, field.value)

/-- The object of the members. -/
def encoded (object : DeferredObject F) : Json F := .object 0 object.members

/-- The object is read. -/
def decode {α : Type} (read : Json F → Except DecodeError α) (object : DeferredObject F) :
    Except DecodeError α :=
  if maxEnvelopeBytes < object.encoded.len then .error tooLong
  else (read object.encoded).mapError .nested

end DeferredObject

/-- A value that was kept as its text is read. -/
def decodeRaw {α : Type} (read : Json F → Except DecodeError α) (raw : Json F) :
    Except DecodeError α :=
  if maxEnvelopeBytes < raw.len then .error tooLong else (read raw).mapError .nested

namespace DeferredObject

/-- The object has been charged for its fields. -/
def Charged (object : DeferredObject F) : Prop :=
  object.encodedBytes = 2 + Json.lenMembers object.members + (object.fields.length - 1)

theorem lenMembers_append (l r : List (Member F)) :
    Json.lenMembers (l ++ r) = Json.lenMembers l + Json.lenMembers r := by
  induction l with
  | nil => exact (Nat.zero_add _).symm
  | cons m l ih =>
      rw [List.cons_append, Json.lenMembers, Json.lenMembers, ih]
      omega

theorem lenMembers_perm {l r : List (Member F)} (h : l.Perm r) :
    Json.lenMembers l = Json.lenMembers r := by
  induction h with
  | nil => rfl
  | cons m _ ih => rw [Json.lenMembers, Json.lenMembers, ih]
  | swap m n l =>
      simp only [Json.lenMembers]
      omega
  | trans _ _ ih₁ ih₂ => exact ih₁.trans ih₂

theorem len_encoded {object : DeferredObject F} (h : object.Charged) :
    object.encoded.len = object.encodedBytes := by
  rw [h, encoded, Json.len, members, List.length_map]

theorem charged_new : (new : DeferredObject F).Charged := rfl

theorem insert_eq_ok {object result : DeferredObject F} {name : String} {value : Json F} :
    object.insert name value = .ok result ↔
      (∀ field ∈ object.fields, field.name ≠ name) ∧
        object.encodedBytes + fieldCost name.utf8ByteSize value.len object.fields.isEmpty ≤
          maxEnvelopeBytes ∧
        result = ⟨object.fields ++ [⟨name, value⟩],
          object.encodedBytes + fieldCost name.utf8ByteSize value.len object.fields.isEmpty⟩ := by
  have hfits : maxEnvelopeBytes ≤ maxUsize := by decide
  rw [insert]
  by_cases hany : object.fields.any (fun field => field.name = name) = true
  · rw [if_pos hany]
    refine ⟨nofun, fun h => ?_⟩
    obtain ⟨field, hfield, hname⟩ := List.any_eq_true.1 hany
    exact absurd (of_decide_eq_true hname) (h.1 field hfield)
  · have hfresh : ∀ field ∈ object.fields, field.name ≠ name := by
      intro field hfield hname
      exact hany (List.any_eq_true.2 ⟨field, hfield, decide_eq_true hname⟩)
    rw [if_neg hany]
    dsimp only
    split_ifs with hover hlong
    · exact ⟨nofun, fun h => absurd h.2.1 (by omega)⟩
    · exact ⟨nofun, fun h => absurd h.2.1 (by omega)⟩
    · exact ⟨fun h => ⟨hfresh, Nat.le_of_not_lt hlong, (Except.ok.inj h).symm⟩,
        fun h => congrArg Except.ok h.2.2.symm⟩

/-- What a field costs is what it adds to the text. -/
theorem Charged.cost {object : DeferredObject F} (h : object.Charged) (name : String)
    (value : Json F) :
    object.encodedBytes + fieldCost name.utf8ByteSize value.len object.fields.isEmpty =
      (Json.object 0 (object.members ++ [(⟨name.utf8ByteSize, name⟩, value)])).len := by
  rw [Json.len, lenMembers_append, h, fieldCost, List.length_append, members, List.length_map]
  cases hfields : object.fields with
  | nil =>
      simp only [List.isEmpty_nil, if_true, List.length_nil, List.length_singleton, Json.lenMembers]
      omega
  | cons field fields =>
      simp only [List.isEmpty_cons, Bool.false_eq_true, if_false, List.length_cons,
        List.length_nil, Json.lenMembers]
      omega

/-- The estimate never drifts from the text. -/
theorem Charged.insert {object result : DeferredObject F} {name : String} {value : Json F}
    (h : object.Charged) (hinsert : object.insert name value = .ok result) : result.Charged := by
  obtain ⟨-, -, rfl⟩ := insert_eq_ok.1 hinsert
  rw [Charged, h.cost, Json.len, members, members, List.map_append, List.length_append,
    List.length_append, List.length_map]
  rfl

theorem len_append_le (space : ℕ) (l r : List (Member F)) :
    (Json.object space l).len ≤ (Json.object space (l ++ r)).len := by
  rw [Json.len, Json.len, lenMembers_append, List.length_append]
  omega

/-- The same fields in some order, charged alike. -/
structure Same (a b : DeferredObject F) : Prop where
  fields : a.fields.Perm b.fields
  encodedBytes : a.encodedBytes = b.encodedBytes

theorem Same.refl (a : DeferredObject F) : Same a a := ⟨.refl _, rfl⟩

theorem Same.trans {a b c : DeferredObject F} (h : Same a b) (h' : Same b c) : Same a c :=
  ⟨h.fields.trans h'.fields, h.encodedBytes.trans h'.encodedBytes⟩

theorem Same.symm {a b : DeferredObject F} (h : Same a b) : Same b a :=
  ⟨h.fields.symm, h.encodedBytes.symm⟩

theorem Same.isEmpty {a b : DeferredObject F} (h : Same a b) :
    a.fields.isEmpty = b.fields.isEmpty := by
  rw [Bool.eq_iff_iff, List.isEmpty_iff, List.isEmpty_iff]
  exact ⟨fun hnil => (hnil ▸ h.fields).symm.eq_nil, fun hnil => (hnil ▸ h.fields).eq_nil⟩

theorem Same.insert {a b r : DeferredObject F} (h : Same a b) {name : String} {value : Json F}
    (ha : a.insert name value = .ok r) : ∃ t, b.insert name value = .ok t ∧ Same r t := by
  obtain ⟨hfresh, hle, rfl⟩ := insert_eq_ok.1 ha
  rw [h.isEmpty, h.encodedBytes] at hle ⊢
  refine ⟨_, insert_eq_ok.2 ⟨fun field hfield => hfresh field (h.fields.mem_iff.2 hfield), hle, rfl⟩,
    ?_⟩
  exact ⟨h.fields.append_right _, rfl⟩

/-- Two fields are charged the same in either order. -/
theorem insert_swap {a b c : DeferredObject F} {m n : String} {v w : Json F}
    (hb : a.insert m v = .ok b) (hc : b.insert n w = .ok c) :
    ∃ d e, a.insert n w = .ok d ∧ d.insert m v = .ok e ∧ Same c e := by
  obtain ⟨hm, hle, rfl⟩ := insert_eq_ok.1 hb
  obtain ⟨hn, hle', rfl⟩ := insert_eq_ok.1 hc
  have ⟨hn, hmn⟩ := List.forall_mem_append.1 hn
  have hne : m ≠ n := hmn _ List.mem_cons_self
  have hcost : ∀ k l first, fieldCost k l false = fieldCost k l first + if first then 1 else 0 := by
    intro k l first
    cases first <;> rfl
  have hright : (a.fields ++ [(⟨m, v⟩ : DeferredField F)]).isEmpty = false := by simp
  have hleft : (a.fields ++ [(⟨n, w⟩ : DeferredField F)]).isEmpty = false := by simp
  simp only [hright] at hle' ⊢
  rw [hcost _ _ a.fields.isEmpty] at hle' ⊢
  refine ⟨_, _, insert_eq_ok.2 ⟨hn, by omega, rfl⟩, insert_eq_ok.2 ⟨?_, ?_, rfl⟩, ?_, ?_⟩
  · exact List.forall_mem_append.2 ⟨hm, List.forall_mem_singleton.2 hne.symm⟩
  · simp only [hleft]
    rw [hcost _ _ a.fields.isEmpty]
    omega
  · rw [List.append_assoc, List.append_assoc]
    exact (List.Perm.swap _ _ _).append_left a.fields
  · simp only [hleft]
    rw [hcost m.utf8ByteSize v.len a.fields.isEmpty]
    omega

theorem Same.len_encoded {a b : DeferredObject F} (h : Same a b) :
    a.encoded.len = b.encoded.len := by
  have hperm : a.members.Perm b.members := h.fields.map _
  rw [encoded, encoded, Json.len, Json.len, lenMembers_perm hperm, hperm.length_eq]

/-- **What is read of the object does not depend on the order of its fields**, where that holds of
the reader. -/
theorem agree_decode {α : Type} {a b : DeferredObject F} (h : Same a b)
    {read : Json F → Except DecodeError α}
    (hread : ∀ l r, l.Perm r → Agree Eq (read (.object 0 l)) (read (.object 0 r))) :
    Agree Eq (a.decode read) (b.decode read) := by
  rw [decode, decode, h.len_encoded]
  split_ifs with hlong
  · exact .error _ _
  · have hagree := hread a.members b.members (h.fields.map _)
    rw [encoded, encoded]
    generalize read (.object 0 a.members) = x at hagree ⊢
    generalize read (.object 0 b.members) = y at hagree ⊢
    cases hagree with
    | ok heq => exact .ok heq
    | error d e => exact .error _ _

end DeferredObject

end FigmaDevMcp.Protocol

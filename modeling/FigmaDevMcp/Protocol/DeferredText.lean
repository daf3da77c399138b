import FigmaDevMcp.Protocol.Deferred
import Mathlib.Algebra.BigOperators.Group.List.Basic

set_option autoImplicit false

/-!
# Deferred objects, byte by byte

`deferred.rs` once more, with the values as the bytes that they are and `insert` as the method that
changes the object in place.

* `insert`, `encoded`, `decode`: from the source;
* `insert_of_not_fresh`, `insert_of_fresh`: all that a call can do;
* `Accounted`: the estimate is the length of the text, which every call keeps;
* `accepts_iff`: **which members are accepted**, in any order;
* `decode_insertAll`: what is made of the objects of `Deferred` is made of these, their values as
  bytes.
-/

namespace FigmaDevMcp.Deferred

open Serde
open FigmaDevMcp.Protocol (fieldCost tooLong maxUsize)

/-- A field that is put aside, and the text of its value. -/
structure DeferredField where
  name : String
  value : List UInt8

/-- The members that are put aside, and the estimate of their bytes. -/
structure DeferredObject where
  fields : List DeferredField
  encodedBytes : ℕ

namespace DeferredObject

/-- An object without members. -/
def new : DeferredObject := ⟨[], 2⟩

/-- `usize::checked_add` -/
def checkedAdd (a b : ℕ) : Option ℕ := if maxUsize < a + b then none else some (a + b)

/-- What the call gives, and the object after it. -/
def insert (name : String) (value : List UInt8) (self : DeferredObject) :
    Except DecodeError Unit × DeferredObject :=
  if self.fields.any fun field => field.name = name then (.error (.duplicateField name), self)
  else
    -- both texts are in memory: their lengths do not overflow
    let cost := fieldCost name.utf8ByteSize value.length self.fields.isEmpty
    match checkedAdd self.encodedBytes cost with
    | none => (.error (.custom "deferred JSON length overflow"), self)
    | some next =>
      if maxEnvelopeBytes < next then (.error tooLong, self)
      else
        let self := { self with encodedBytes := next }
        (.ok (), { self with fields := self.fields ++ [⟨name, value⟩] })

/-- What one turn of the loop of `decode` writes. -/
def encodeField (field : DeferredField) (index : ℕ) : List UInt8 :=
  (if index ≠ 0 then [0x2c] else []) ++ [0x22] ++ field.name.toByteArray.data.toList ++
    [0x22, 0x3a] ++ field.value

/-- The text of the object. -/
def encoded (object : DeferredObject) : List UInt8 :=
  [0x7b] ++ (object.fields.zipIdx.flatMap fun field => encodeField field.1 field.2) ++ [0x7d]

/-- The text is read. -/
def decode {T : Type} (fromSlice : List UInt8 → Except DecodeError T) (object : DeferredObject) :
    Except DecodeError T :=
  if maxEnvelopeBytes < object.encoded.length then .error tooLong
  else (fromSlice object.encoded).mapError .nested

/-! ## What a call can do -/

/-- No member has this name. -/
def Fresh (name : String) (object : DeferredObject) : Prop :=
  ∀ field ∈ object.fields, field.name ≠ name

/-- The bytes of the object with a field more. -/
def next (name : String) (value : List UInt8) (object : DeferredObject) : ℕ :=
  object.encodedBytes + fieldCost name.utf8ByteSize value.length object.fields.isEmpty

/-- The object with a field more, charged for it. -/
def add (name : String) (value : List UInt8) (object : DeferredObject) : DeferredObject :=
  ⟨object.fields ++ [⟨name, value⟩], next name value object⟩

theorem any_eq_false {name : String} {object : DeferredObject} :
    (object.fields.any fun field => field.name = name) = false ↔ Fresh name object := by
  simp [Fresh]

theorem insert_of_not_fresh {name : String} {value : List UInt8} {object : DeferredObject}
    (h : ¬ Fresh name object) :
    insert name value object = (.error (.duplicateField name), object) := by
  rw [← any_eq_false, Bool.not_eq_false] at h
  rw [insert, if_pos h]

theorem insert_of_fits {name : String} {value : List UInt8} {object : DeferredObject}
    (h : Fresh name object) (hfits : next name value object ≤ maxEnvelopeBytes) :
    insert name value object = (.ok (), add name value object) := by
  have hmax : maxEnvelopeBytes ≤ maxUsize := by decide
  rw [← any_eq_false] at h
  have hadd : checkedAdd object.encodedBytes
      (fieldCost name.utf8ByteSize value.length object.fields.isEmpty) =
        some (next name value object) := if_neg (Nat.not_lt.2 (Nat.le_trans hfits hmax))
  rw [insert, h, if_neg Bool.false_ne_true]
  dsimp only
  rw [hadd]
  dsimp only
  rw [if_neg (Nat.not_lt.2 hfits)]
  rfl

/-- The sum that overflows is beyond the ceiling too. -/
theorem insert_of_too_long {name : String} {value : List UInt8} {object : DeferredObject}
    (h : Fresh name object) (hlong : maxEnvelopeBytes < next name value object) :
    ∃ error, insert name value object = (.error error, object) := by
  rw [← any_eq_false] at h
  rw [insert, h, if_neg Bool.false_ne_true]
  dsimp only
  by_cases hover : maxUsize < next name value object
  · have hadd : checkedAdd object.encodedBytes
        (fieldCost name.utf8ByteSize value.length object.fields.isEmpty) = none := if_pos hover
    rw [hadd]
    exact ⟨_, rfl⟩
  · have hadd : checkedAdd object.encodedBytes
        (fieldCost name.utf8ByteSize value.length object.fields.isEmpty) =
          some (next name value object) := if_neg hover
    rw [hadd]
    dsimp only
    rw [if_pos hlong]
    exact ⟨_, rfl⟩

/-- A call is accepted, and adds the field, or is refused. -/
theorem insert_eq_ok {name : String} {value : List UInt8} {object : DeferredObject} :
    (insert name value object).1 = .ok () ↔
      Fresh name object ∧ next name value object ≤ maxEnvelopeBytes := by
  by_cases hfresh : Fresh name object
  · by_cases hfits : next name value object ≤ maxEnvelopeBytes
    · simp [insert_of_fits hfresh hfits, hfresh, hfits]
    · obtain ⟨error, herror⟩ := insert_of_too_long hfresh (Nat.lt_of_not_le hfits)
      simp [herror, hfits]
  · simp [insert_of_not_fresh hfresh, hfresh]

theorem insert_accepted {name : String} {value : List UInt8} {object : DeferredObject}
    (h : (insert name value object).1 = .ok ()) :
    (insert name value object).2 = add name value object := by
  obtain ⟨hfresh, hfits⟩ := insert_eq_ok.1 h
  rw [insert_of_fits hfresh hfits]

theorem insert_refused {name : String} {value : List UInt8} {object : DeferredObject}
    (h : (insert name value object).1 ≠ .ok ()) : (insert name value object).2 = object := by
  by_cases hfresh : Fresh name object
  · have hlong : maxEnvelopeBytes < next name value object := by
      by_contra hfits
      exact h (insert_eq_ok.2 ⟨hfresh, Nat.le_of_not_lt hfits⟩)
    obtain ⟨error, herror⟩ := insert_of_too_long hfresh hlong
    rw [herror]
  · rw [insert_of_not_fresh hfresh]

/-! ## The bytes -/

/-- What a field costs besides its comma. -/
def cost (field : DeferredField) : ℕ := field.name.utf8ByteSize + 3 + field.value.length

theorem length_encodeField (field : DeferredField) (index : ℕ) :
    (encodeField field index).length = fieldCost field.name.utf8ByteSize field.value.length
      (index = 0) := by
  have hname : field.name.toByteArray.data.toList.length = field.name.utf8ByteSize := rfl
  by_cases hindex : index = 0
  · simp [encodeField, fieldCost, hindex, hname]
    omega
  · simp [encodeField, fieldCost, hindex, hname]
    omega

/-- Every field after the first has its comma. -/
theorem length_encodeFields (fields : List DeferredField) (index : ℕ) (h : index ≠ 0) :
    ((fields.zipIdx index).flatMap fun field => encodeField field.1 field.2).length =
      (fields.map cost).sum + fields.length := by
  induction fields generalizing index with
  | nil => rfl
  | cons field fields ih =>
      rw [List.zipIdx_cons, List.flatMap_cons, List.length_append, ih _ (by omega),
        length_encodeField, List.map_cons, List.sum_cons, List.length_cons, fieldCost, cost]
      simp [h]
      omega

theorem length_encoded (object : DeferredObject) :
    object.encoded.length = 2 + (object.fields.map cost).sum + (object.fields.length - 1) := by
  rw [encoded, List.length_append, List.length_append, List.length_singleton,
    List.length_singleton]
  cases object.fields with
  | nil => rfl
  | cons field fields =>
      rw [List.zipIdx_cons, List.flatMap_cons, List.length_append,
        length_encodeFields fields 1 (by omega), length_encodeField, List.map_cons, List.sum_cons,
        List.length_cons, fieldCost, cost]
      simp
      omega

/-- The estimate is the length of the text. -/
def Accounted (object : DeferredObject) : Prop := object.encodedBytes = object.encoded.length

theorem accounted_new : new.Accounted := rfl

theorem next_eq {name : String} {value : List UInt8} {object : DeferredObject}
    (h : object.Accounted) : next name value object = (add name value object).encoded.length := by
  rw [next, h, length_encoded, length_encoded, add]
  cases object.fields with
  | nil => simp [fieldCost, cost]
  | cons field fields =>
      simp [fieldCost, cost]
      omega

/-- **No call lets the estimate drift from the text.** -/
theorem Accounted.insert {object : DeferredObject} (h : object.Accounted) (name : String)
    (value : List UInt8) : (insert name value object).2.Accounted := by
  by_cases hok : (DeferredObject.insert name value object).1 = .ok ()
  · rw [insert_accepted hok]
    exact next_eq h
  · rw [insert_refused hok]
    exact h

/-! ## Runs of calls -/

/-- The object after some calls, some of which may have been refused. -/
def after (calls : List DeferredField) (object : DeferredObject) : DeferredObject :=
  calls.foldl (fun object call => (insert call.name call.value object).2) object

theorem Accounted.after {object : DeferredObject} (h : object.Accounted)
    (calls : List DeferredField) : (object.after calls).Accounted := by
  induction calls generalizing object with
  | nil => exact h
  | cons call calls ih => exact ih (h.insert call.name call.value)

/-- Every call of the list is accepted. -/
def Accepts : List DeferredField → DeferredObject → Prop
  | [], _ => True
  | call :: calls, object =>
    (insert call.name call.value object).1 = .ok () ∧
      Accepts calls (insert call.name call.value object).2

theorem fresh_add {name other : String} {value : List UInt8} {object : DeferredObject} :
    Fresh other (add name value object) ↔ Fresh other object ∧ name ≠ other := by
  simp [Fresh, add, or_imp, forall_and]

/-- The bytes with some members more. -/
def total (members : List DeferredField) (object : DeferredObject) : ℕ :=
  2 + ((object.fields ++ members).map cost).sum + ((object.fields ++ members).length - 1)

theorem total_nil (object : DeferredObject) : total [] object = object.encoded.length := by
  rw [total, List.append_nil, length_encoded]

theorem total_add (member : DeferredField) (members : List DeferredField)
    (object : DeferredObject) :
    total members (add member.name member.value object) = total (member :: members) object := by
  simp [total, add]

theorem total_le (members : List DeferredField) (object : DeferredObject) :
    object.encoded.length ≤ total members object := by
  rw [length_encoded, total, List.map_append, List.sum_append, List.length_append]
  omega

theorem total_perm {members others : List DeferredField} (h : members.Perm others)
    (object : DeferredObject) : total members object = total others object := by
  have happend := h.append_left object.fields
  rw [total, total, (happend.map cost).sum_eq, happend.length_eq]

/-- **Members are accepted when their names are new and the text with all of them fits.** -/
theorem accepts_iff {members : List DeferredField} {object : DeferredObject} (h : object.Accounted)
    (hobject : object.encodedBytes ≤ maxEnvelopeBytes) :
    Accepts members object ↔
      (members.map DeferredField.name).Nodup ∧ (∀ member ∈ members, Fresh member.name object) ∧
        total members object ≤ maxEnvelopeBytes := by
  induction members generalizing object with
  | nil => simp [Accepts, total_nil, ← show object.encodedBytes = _ from h, hobject]
  | cons member members ih =>
      have hnext : next member.name member.value object ≤ total (member :: members) object := by
        rw [next_eq h, ← total_add]
        exact total_le _ _
      have haccounted : (add member.name member.value object).Accounted := next_eq h
      rw [Accepts, insert_eq_ok]
      constructor
      · rintro ⟨⟨hfresh, hfits⟩, hrest⟩
        rw [insert_of_fits hfresh hfits] at hrest
        obtain ⟨hnodup, hnew, htotal⟩ := (ih haccounted hfits).1 hrest
        rw [total_add] at htotal
        refine ⟨?_, ?_, htotal⟩
        · rw [List.map_cons, List.nodup_cons]
          refine ⟨?_, hnodup⟩
          intro hmem
          obtain ⟨other, hother, hname⟩ := List.mem_map.1 hmem
          exact (fresh_add.1 (hnew other hother)).2 hname.symm
        · intro other hother
          rcases List.mem_cons.1 hother with rfl | hother
          · exact hfresh
          · exact (fresh_add.1 (hnew other hother)).1
      · rintro ⟨hnodup, hnew, htotal⟩
        rw [List.map_cons, List.nodup_cons] at hnodup
        have hfresh := hnew member List.mem_cons_self
        have hfits := Nat.le_trans hnext htotal
        refine ⟨⟨hfresh, hfits⟩, ?_⟩
        rw [insert_of_fits hfresh hfits]
        apply (ih haccounted hfits).2
        refine ⟨hnodup.2, ?_, ?_⟩
        · intro other hother
          refine fresh_add.2 ⟨hnew other (List.mem_cons_of_mem _ hother), ?_⟩
          intro hname
          apply hnodup.1
          rw [hname]
          exact List.mem_map_of_mem hother
        · rw [total_add]
          exact htotal

theorem accepts_perm {members others : List DeferredField} (hperm : members.Perm others)
    {object : DeferredObject} (h : object.Accounted)
    (hobject : object.encodedBytes ≤ maxEnvelopeBytes) :
    Accepts members object ↔ Accepts others object := by
  rw [accepts_iff h hobject, accepts_iff h hobject, (hperm.map _).nodup_iff, total_perm hperm]
  simp only [hperm.mem_iff]

/-- No object outgrows the ceiling. -/
theorem after_le {object : DeferredObject} (hobject : object.encodedBytes ≤ maxEnvelopeBytes)
    (calls : List DeferredField) : (object.after calls).encodedBytes ≤ maxEnvelopeBytes := by
  induction calls generalizing object with
  | nil => exact hobject
  | cons call calls ih =>
      apply ih
      show (insert call.name call.value object).2.encodedBytes ≤ maxEnvelopeBytes
      by_cases hok : (insert call.name call.value object).1 = .ok ()
      · rw [insert_accepted hok]
        exact (insert_eq_ok.1 hok).2
      · rw [insert_refused hok]
        exact hobject

/-- The ceiling of `decode` is never reached through `insert`. -/
theorem decode_after {T : Type} (fromSlice : List UInt8 → Except DecodeError T)
    (calls : List DeferredField) :
    (new.after calls).decode fromSlice =
      (fromSlice (new.after calls).encoded).mapError .nested := by
  have hle := after_le (by decide : new.encodedBytes ≤ maxEnvelopeBytes) calls
  rw [accounted_new.after calls] at hle
  rw [decode, if_neg (Nat.not_lt.2 hle)]

/-- **The accounting**: after every run of calls the estimate is the length of the text that
`decode` puts together and reads; a call for a new name is refused exactly when the text with it would be
beyond the ceiling, and otherwise puts its field behind the others; the order in which members come
does not matter; and a call that is refused leaves the object as it was. -/
theorem deferred_accounting (calls : List DeferredField) :
    (new.after calls).encodedBytes = (new.after calls).encoded.length ∧
    (∀ (T : Type) (fromSlice : List UInt8 → Except DecodeError T),
      (new.after calls).decode fromSlice =
        (fromSlice (new.after calls).encoded).mapError .nested) ∧
    (∀ name value,
      (insert name value (new.after calls)).1 = .ok () ↔
        Fresh name (new.after calls) ∧
          (add name value (new.after calls)).encoded.length ≤ maxEnvelopeBytes) ∧
    (∀ name value, (insert name value (new.after calls)).1 = .ok () →
      (insert name value (new.after calls)).2 = add name value (new.after calls) ∧
        (insert name value (new.after calls)).2.fields =
          (new.after calls).fields ++ [⟨name, value⟩]) ∧
    (∀ name value, (insert name value (new.after calls)).1 ≠ .ok () →
      (insert name value (new.after calls)).2 = new.after calls) ∧
    (∀ members others : List DeferredField, members.Perm others →
      (Accepts members (new.after calls) ↔ Accepts others (new.after calls))) := by
  have haccounted := accounted_new.after calls
  have hle := after_le (by decide : new.encodedBytes ≤ maxEnvelopeBytes) calls
  refine ⟨haccounted, fun T fromSlice => decode_after fromSlice calls, ?_, ?_, ?_, ?_⟩
  · intro name value
    rw [← next_eq haccounted]
    exact insert_eq_ok
  · intro name value haccepted
    rw [insert_accepted haccepted]
    exact ⟨rfl, rfl⟩
  · intro name value hrefused
    exact insert_refused hrefused
  · intro members others hperm
    exact accepts_perm hperm haccounted hle

/-- After a name that came twice, two members are accepted in the other order too. -/
theorem deferred_accounting_pair :
    Accepts [⟨"b", [0x32]⟩, ⟨"a", [0x31]⟩] (new.after [⟨"type", [0x30]⟩, ⟨"type", [0x30]⟩]) := by
  have hboth : Accepts [⟨"a", [0x31]⟩, ⟨"b", [0x32]⟩]
      (new.after [⟨"type", [0x30]⟩, ⟨"type", [0x30]⟩]) := ⟨rfl, rfl, trivial⟩
  exact ((deferred_accounting _).2.2.2.2.2 _ _ (List.Perm.swap _ _ _)).1 hboth

/-! ## The values read -/

section Values

variable {F : Type} (text : Json F → List UInt8)

/-- The object with the texts of its values. -/
def toText (object : Protocol.DeferredObject F) : DeferredObject :=
  ⟨object.fields.map fun field => ⟨field.name, text field.value⟩, object.encodedBytes⟩

theorem insert_toText {text : Json F → List UInt8} (htext : ∀ value, (text value).length = value.len)
    (object : Protocol.DeferredObject F) (name : String) (value : Json F) :
    insert name (text value) (toText text object) =
      match object.insert name value with
      | .ok result => (.ok (), toText text result)
      | .error error => (.error error, toText text object) := by
  have hany : ((toText text object).fields.any fun field => field.name = name) =
      object.fields.any fun field => field.name = name := by
    simp [toText, Function.comp_def]
  have hempty : (toText text object).fields.isEmpty = object.fields.isEmpty := by
    simp [toText]
  rw [insert, Protocol.DeferredObject.insert, hany, hempty, htext]
  dsimp only
  rw [checkedAdd, show (toText text object).encodedBytes = object.encodedBytes from rfl]
  split_ifs with hdup hover hlong
  · rfl
  · rfl
  · simp [hlong]
  · simp [hlong, toText]

theorem length_encoded_toText {text : Json F → List UInt8}
    (htext : ∀ value, (text value).length = value.len) (object : Protocol.DeferredObject F) :
    (toText text object).encoded.length = object.encoded.len := by
  have hsum : ∀ fields : List (Protocol.DeferredField F),
      ((fields.map fun field => (⟨field.name, text field.value⟩ : DeferredField)).map cost).sum =
        Json.lenMembers (fields.map fun field =>
          ((⟨field.name.utf8ByteSize, field.name⟩, field.value) : Member F)) := by
    intro fields
    induction fields with
    | nil => rfl
    | cons field fields ih =>
        rw [List.map_cons, List.map_cons, List.sum_cons, ih, List.map_cons, Json.lenMembers, cost,
          htext]
  rw [length_encoded, toText, hsum, Protocol.DeferredObject.encoded, Json.len,
    Protocol.DeferredObject.members, List.length_map, List.length_map]

/-- The call for a field. -/
def call (field : Protocol.DeferredField F) : DeferredField := ⟨field.name, text field.value⟩

/-- The calls for the members of a message, up to the first that is refused. -/
def insertAll (object : Protocol.DeferredObject F) (fields : List (Protocol.DeferredField F)) :
    Except DecodeError (Protocol.DeferredObject F) :=
  fields.foldlM (fun object field => object.insert field.name field.value) object

variable {text}

theorem after_insertAll (htext : ∀ value, (text value).length = value.len)
    {fields : List (Protocol.DeferredField F)} {object result : Protocol.DeferredObject F}
    (h : insertAll object fields = .ok result) :
    Accepts (fields.map (call text)) (toText text object) ∧
      (toText text object).after (fields.map (call text)) = toText text result := by
  induction fields generalizing object with
  | nil =>
      obtain rfl := Except.ok.inj h
      exact ⟨trivial, rfl⟩
  | cons field fields ih =>
      obtain ⟨middle, hinsert, hrest⟩ := Guard.bind_eq_ok.1 h
      obtain ⟨haccepts, hafter⟩ := ih hrest
      have hinsert : object.insert field.name field.value = .ok middle := hinsert
      have hcall : insert (call text field).name (call text field).value (toText text object) =
          (.ok (), toText text middle) := by
        rw [call, insert_toText htext, hinsert]
      rw [List.map_cons, Accepts, after, List.foldl_cons, hcall]
      exact ⟨⟨rfl, haccepts⟩, hafter⟩

/-- **Reading the text is reading the values**, for a deserializer that reads the same of both. -/
theorem decode_insertAll {T : Type} (htext : ∀ value, (text value).length = value.len)
    {fields : List (Protocol.DeferredField F)} {result : Protocol.DeferredObject F}
    (h : insertAll .new fields = .ok result) {read : Json F → Except DecodeError T}
    {fromSlice : List UInt8 → Except DecodeError T}
    (hread : fromSlice (toText text result).encoded = read result.encoded) :
    (new.after (fields.map (call text))).decode fromSlice = result.decode read := by
  have hafter : new.after (fields.map (call text)) = toText text result :=
    (after_insertAll htext h).2
  rw [hafter, decode, Protocol.DeferredObject.decode, length_encoded_toText htext, hread]

end Values

end DeferredObject

end FigmaDevMcp.Deferred

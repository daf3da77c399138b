import FigmaDevMcp.Lib.Serde

set_option autoImplicit false

/-!
# Writing an object from slots

The other direction: a value is written as the members of its slots, and read back.

* `Doubles`: what a writer makes of a double, and what the reader then makes of its text;
* `Json.writeString`, `writeUnsigned`, `writeWord`: the other leaves;
* `Spec.encode`, `Spec.read_encode`: **round trip** of an object, from those of its members;
* `Spec.len_le_encode`, `Spec.exists_read_of_encode`: what holds of an object holds of its members;
* `Spec.Closed`, `Spec.closed`: only the members that a variant has, and all that it requires.
-/

namespace Serde

/-- The doubles of a text format. The text of a finite double is read as a double that need not be
the same one; a double that is not finite is written as `null`. -/
structure Doubles where
  F : Type
  finite : F → Bool
  /-- The bytes of the text. -/
  size : F → ℕ
  reread : F → F
  ofUnsigned : ℕ → F
  ofNegative : ℕ → F

namespace Doubles

variable (D : Doubles)

/-- A number that is not finite is written as `null`. -/
def write (x : D.F) : Json D.F :=
  if D.finite x then .number (D.size x) (.float (D.reread x)) else .null

/-- A number, which an integer is too. -/
def read : Json D.F → Except DecodeError D.F
  | .number _ (.float x) => .ok x
  | .number _ (.unsigned n) => .ok (D.ofUnsigned n)
  | .number _ (.negative n) => .ok (D.ofNegative n)
  | _ => .error (.invalidType "f64")

/-- A double that its own text stands for. -/
def Exact (x : D.F) : Prop := D.finite x = true ∧ D.reread x = x

variable {D}

theorem read_write {x : D.F} (h : D.Exact x) : D.read (D.write x) = .ok x := by
  rw [write, if_pos h.1, h.2]
  rfl

/-- Only an exact double is read back. -/
theorem read_write_iff {x : D.F} : D.read (D.write x) = .ok x ↔ D.Exact x := by
  refine ⟨fun h => ?_, read_write⟩
  rw [write] at h
  by_cases hfinite : D.finite x = true
  · rw [if_pos hfinite] at h
    exact ⟨hfinite, Except.ok.inj h⟩
  · rw [if_neg hfinite] at h
    cases h

end Doubles

variable {F : Type}

namespace Json

/-- The bytes of a character between quotes. -/
def escapedSize (c : Char) : ℕ :=
  if c = '"' ∨ c = '\\' then 2
  else if c.toNat = 8 ∨ c.toNat = 9 ∨ c.toNat = 10 ∨ c.toNat = 12 ∨ c.toNat = 13 then 2
  else if c.toNat < 32 then 6
  else c.utf8Size

/-- A string, with the bytes of its escapes. -/
def writeString (value : List Char) : Json F := .string (value.map escapedSize).sum value

/-- A boolean. -/
def writeBool (b : Bool) : Json F := .bool b

/-- An unsigned integer. -/
def writeUnsigned {bits : ℕ} (n : Fin (2 ^ bits)) : Json F :=
  .number (Nat.repr n).length (.unsigned n)

/-- `None` is `null`. -/
def writeOption {α : Type} (write : α → Json F) : Option α → Json F
  | none => .null
  | some v => write v

/-- The word of a closed set, which has no escapes. -/
def writeWord (word : String) : Json F := .string word.utf8ByteSize word.toList

/-- A list, item by item. -/
def writeList {α : Type} (write : α → Json F) (items : List α) : Json F :=
  .array 0 (items.map write)

theorem readString_writeString (value : List Char) :
    (writeString value : Json F).readString = .ok value := rfl

theorem readUnsigned_writeUnsigned {bits : ℕ} (n : Fin (2 ^ bits)) :
    readUnsigned bits (writeUnsigned n : Json F) = .ok n := dif_pos n.2

theorem readWord_writeWord {α : Type} [DecidableEq α] {words : List (String × α)} {word : α → String}
    (hnodup : (words.map fun w => w.1).Nodup) {a : α} (ha : (word a, a) ∈ words) :
    readWord words (writeWord (word a) : Json F) = .ok a := by
  have hpick : words.find? (fun w => w.1.toList = (word a).toList) = some (word a, a) := by
    cases h : words.find? fun w => w.1.toList = (word a).toList with
    | none => exact absurd (List.find?_eq_none.1 h _ ha) (by simp)
    | some w =>
        have hname : w.1 = word a := String.toList_injective (by simpa using List.find?_some h)
        exact congrArg some (List.inj_on_of_nodup_map hnodup (List.mem_of_find?_eq_some h) ha hname)
  show readWord.pick words (word a).toList = .ok a
  rw [readWord.pick, hpick]

/-- A value that is not `null` is read back as one that is there. -/
theorem readOption_of_ne_null {α : Type} {read : Json F → Except DecodeError α} {json : Json F}
    {v : α} (h : read json = .ok v) (hnull : json ≠ .null) :
    readOption read json = .ok (some v) := by
  cases json with
  | null => exact absurd rfl hnull
  | _ =>
      show (read _).map some = .ok (some v)
      rw [h]
      rfl

theorem lenMembers_le_of_mem {members : List (Member F)} {m : Member F} (h : m ∈ members) :
    m.2.len ≤ lenMembers members := by
  induction members with
  | nil => cases h
  | cons first rest ih =>
      rw [lenMembers]
      rcases List.mem_cons.1 h with rfl | h
      · omega
      · have := ih h
        omega

/-- The text of a member is part of the text of its object. -/
theorem len_le_of_mem {space : ℕ} {members : List (Member F)} {m : Member F} (h : m ∈ members) :
    m.2.len ≤ (object space members).len := by
  have := lenMembers_le_of_mem h
  rw [len]
  omega

theorem lenItems_le_of_mem {items : List (Json F)} {item : Json F} (h : item ∈ items) :
    item.len ≤ lenItems items := by
  induction items with
  | nil => cases h
  | cons first rest ih =>
      rw [lenItems]
      rcases List.mem_cons.1 h with rfl | h
      · omega
      · have := ih h
        omega

/-- The text of an item is part of the text of its array. -/
theorem len_le_of_mem_items {space : ℕ} {items : List (Json F)} {item : Json F} (h : item ∈ items) :
    item.len ≤ (array space items).len := by
  have := lenItems_le_of_mem h
  rw [len]
  omega

/-- A character takes a byte or more, and the string two more. -/
theorem length_lt_writeString (value : List Char) :
    value.length < (writeString value : Json F).len := by
  have hpos : ∀ c, 1 ≤ escapedSize c := by
    intro c
    have := c.utf8Size_pos
    unfold escapedSize
    split_ifs <;> omega
  have hsum : value.length ≤ (value.map escapedSize).sum := by
    induction value with
    | nil => exact Nat.zero_le _
    | cons c value ih =>
        have := hpos c
        rw [List.length_cons, List.map_cons, List.sum_cons]
        omega
  rw [writeString, len]
  omega

theorem readOption_writeOption {α : Type} {read : Json F → Except DecodeError α}
    {write : α → Json F} (hread : ∀ v, read (write v) = .ok v) (hnull : ∀ v, write v ≠ .null)
    {o : Option α} {v : Option α} (h : o.map some = some v) :
    readOption read (writeOption write v) = .ok v := by
  obtain ⟨a, -, rfl⟩ := Option.map_eq_some_iff.1 h
  exact readOption_of_ne_null (hread a) (hnull a)

end Json

namespace Spec

variable {Field : Type} [DecidableEq Field] {spec : Spec F Field} {α : Type}

omit [DecidableEq Field] in
theorem require_eq_ok {s : spec.Slots} {f : Field} {v : spec.Val f} :
    require s f = .ok v ↔ s f = some v := by
  rw [require]
  cases s f with
  | none => exact ⟨nofun, nofun⟩
  | some w => exact ⟨fun h => congrArg some (Except.ok.inj h), fun h => congrArg _ (Option.some.inj h)⟩

variable (spec) in
/-- The object of the slots that are there. -/
def encode (write : ∀ f, spec.Val f → Json F) (s : spec.Slots) : Json F :=
  .object 0 (spec.members spec.fields write s)

/-- An object whose members are read back is read as its slots are. -/
theorem read_encode_eq {read : Json F → Except DecodeError α}
    {build : spec.Slots → Except DecodeError α}
    (hread : ∀ space members, read (.object space members) = spec.visitMap members >>= build)
    {write : ∀ f, spec.Val f → Json F} {s : spec.Slots}
    (hwrite : ∀ f v, s f = some v → spec.read f (write f v) = .ok v) :
    read (spec.encode write s) = build s := by
  rw [encode, hread, visitMap_members hwrite spec.nodup spec.complete]
  rfl

/-- **Round trip.** An object is read back where its members are. -/
theorem read_encode {read : Json F → Except DecodeError α}
    {build : spec.Slots → Except DecodeError α}
    (hread : ∀ space members, read (.object space members) = spec.visitMap members >>= build)
    {write : ∀ f, spec.Val f → Json F} {s : spec.Slots}
    (hwrite : ∀ f v, s f = some v → spec.read f (write f v) = .ok v) {v : α}
    (hbuild : build s = .ok v) : read (spec.encode write s) = .ok v :=
  (read_encode_eq hread hwrite).trans hbuild

omit [DecidableEq Field] in
theorem mem_members {order : List Field} {write : ∀ f, spec.Val f → Json F} {s : spec.Slots}
    {f : Field} (hf : f ∈ order) {w : spec.Val f} (hw : s f = some w) :
    ((⟨(spec.name f).utf8ByteSize, spec.name f⟩, write f w) : Member F) ∈
      spec.members order write s := by
  refine List.mem_filterMap.2 ⟨f, hf, ?_⟩
  rw [hw]
  rfl

omit [DecidableEq Field] in
variable (spec) in
/-- What is written of a slot is part of the text of the object. -/
theorem len_le_encode (write : ∀ f, spec.Val f → Json F) (s : spec.Slots) {f : Field}
    {w : spec.Val f} (hw : s f = some w) : (write f w).len ≤ (spec.encode write s).len :=
  Json.len_le_of_mem (mem_members (spec.complete f) hw)

omit [DecidableEq Field] in
theorem lenMembers_members_le {write : ∀ f, spec.Val f → Json F} {s : spec.Slots} {n k : ℕ}
    (hname : ∀ f, (spec.name f).utf8ByteSize ≤ k)
    (h : ∀ f v, s f = some v → (write f v).len ≤ n) (order : List Field) :
    Json.lenMembers (spec.members order write s) + (spec.members order write s).length ≤
      order.length * (n + k + 4) := by
  induction order with
  | nil => exact Nat.zero_le _
  | cons f order ih =>
      rw [members] at ih ⊢
      rw [List.length_cons, Nat.succ_mul]
      cases hv : s f with
      | none =>
          rw [List.filterMap_cons_none (by rw [hv]; rfl)]
          omega
      | some v =>
          have := h f v hv
          have := hname f
          rw [List.filterMap_cons_some (by rw [hv]; rfl), Json.lenMembers, List.length_cons]
          dsimp only
          omega

omit [DecidableEq Field] in
/-- An object is no longer than its fields can be. -/
theorem len_encode_le {write : ∀ f, spec.Val f → Json F} {s : spec.Slots} {n k : ℕ}
    (hname : ∀ f, (spec.name f).utf8ByteSize ≤ k)
    (h : ∀ f v, s f = some v → (write f v).len ≤ n) :
    (spec.encode write s).len ≤ 2 + spec.fields.length * (n + k + 4) := by
  have := lenMembers_members_le hname h spec.fields
  rw [encode, Json.len]
  omega

/-- Of an object that is read, so is every slot that was written. -/
theorem exists_read_of_encode {read : Json F → Except DecodeError α}
    {build : spec.Slots → Except DecodeError α}
    (hread : ∀ space members, read (.object space members) = spec.visitMap members >>= build)
    {write : ∀ f, spec.Val f → Json F} {s : spec.Slots} {v : α}
    (h : read (spec.encode write s) = .ok v) {f : Field} {w : spec.Val f} (hw : s f = some w) :
    ∃ w', spec.read f (write f w) = .ok w' := by
  rw [encode, hread] at h
  obtain ⟨t, ht, -⟩ := Guard.bind_eq_ok.1 h
  obtain ⟨g, w', hname, hw', -⟩ := (slots_of_visitMap ht).2.1 _ (mem_members (spec.complete f) hw)
  obtain rfl := spec.name_inj g f hname
  exact ⟨w', hw'⟩

section Closed

variable (spec) (tag : Field) (required optional : spec.Val tag → List Field)

/-- **A closed union**: an object that is read has the discriminator of its variant, only members
that the variant has, and all members that it requires. -/
def Closed (variant : α → spec.Val tag) (read : Json F → Except DecodeError α) : Prop :=
  ∀ space members v, read (.object space members) = .ok v →
    (∃ m ∈ members, m.1.text = spec.name tag ∧ spec.read tag m.2 = .ok (variant v)) ∧
      (∀ m ∈ members, ∃ f, spec.name f = m.1.text ∧
        (f = tag ∨ f ∈ required (variant v) ∨ f ∈ optional (variant v))) ∧
      ∀ f ∈ required (variant v), ∃ m ∈ members, m.1.text = spec.name f

/-- The slots of a variant: no others, and all that it requires. -/
structure Shaped (t : spec.Val tag) (s : spec.Slots) : Prop where
  tagged : s tag = some t
  only : ∀ f, s f ≠ none → f = tag ∨ f ∈ required t ∨ f ∈ optional t
  all : ∀ f ∈ required t, s f ≠ none

variable {spec tag required optional}

/-- Where a variant has no member that may be missing. -/
theorem Shaped.of_contains {t : spec.Val tag} {s : spec.Slots} (htag : s tag = some t)
    (h : ∀ f, (s f).isSome = (tag :: required t).contains f) :
    Shaped spec tag required (fun _ => []) t s := by
  refine ⟨htag, fun f hf => ?_, fun f hf hnone => ?_⟩
  · rcases List.mem_cons.1 (List.contains_iff_mem.1 ((h f).symm.trans (Option.isSome_iff_ne_none.2 hf)))
      with hf | hf
    · exact .inl hf
    · exact .inr (.inl hf)
  · have hsome := (h f).trans (List.contains_iff_mem.2 (List.mem_cons_of_mem _ hf))
    rw [hnone] at hsome
    cases hsome

theorem closed {variant : α → spec.Val tag} {read : Json F → Except DecodeError α}
    {build : spec.Slots → Except DecodeError α}
    (hread : ∀ space members, read (.object space members) = spec.visitMap members >>= build)
    (hbuild : ∀ s v, build s = .ok v → Shaped spec tag required optional (variant v) s) :
    Closed spec tag required optional variant read := by
  intro space members v h
  rw [hread] at h
  obtain ⟨s, hs, hv⟩ := Guard.bind_eq_ok.1 h
  obtain ⟨-, hslots, hrest⟩ := slots_of_visitMap hs
  have hshaped := hbuild s v hv
  have hmember : ∀ f, s f ≠ none → ∃ m ∈ members, m.1.text = spec.name f := by
    intro f hf
    by_contra hno
    exact hf (hrest f fun m hm hname => hno ⟨m, hm, hname⟩)
  refine ⟨?_, fun m hm => ?_, fun f hf => hmember f (hshaped.all f hf)⟩
  · obtain ⟨m, hm, hname⟩ := hmember tag (by rw [hshaped.tagged]; exact nofun)
    obtain ⟨f, w, hf, hw, hsf⟩ := hslots m hm
    obtain rfl := spec.name_inj f tag (hf.trans hname)
    rw [hshaped.tagged] at hsf
    obtain rfl := Option.some.inj hsf
    exact ⟨m, hm, hname, hw⟩
  · obtain ⟨f, w, hf, -, hsf⟩ := hslots m hm
    exact ⟨f, hf, hshaped.only f (by rw [hsf]; exact nofun)⟩

end Closed

end Spec

end Serde

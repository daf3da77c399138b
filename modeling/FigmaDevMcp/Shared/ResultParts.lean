import FigmaDevMcp.Shared.Accepting
import FigmaDevMcp.Shared.NodeForests
import FigmaDevMcp.Shared.ReactionAction

set_option autoImplicit false

/-!
# Parts of results

What the validators of several results have in common.

* `exactly_of`, `Known`: the names of an object that is read;
* `parseColor_isOk`, `parseTruncation_isOk`: **which colors and truncations are accepted**.
-/

namespace FigmaDevMcp

/-- Its counts are numbers that the validator takes. -/
structure Truncation.Counted (t : Truncation) : Prop where
  appliedDepth : ∀ n ∈ t.appliedDepth, n ≤ 255
  visitedNodes : ∀ n ∈ t.visitedNodes, n ≤ ResultValidation.maxSafeInteger
  encodedBytes : ∀ n ∈ t.encodedBytes, n ≤ ResultValidation.maxSafeInteger

namespace ResultValidation

open JsValue

/-- A color. -/
def parseColor (value : JsValue) (label : JsString) : Validated JsValue := do
  let object ← exact value label ["r", "g", "b", "a"]
  let r ← finite (object.field "r") (dot label "r")
  let g ← finite (object.field "g") (dot label "g")
  let b ← finite (object.field "b") (dot label "b")
  let a ← finite (object.field "a") (dot label "a")
  return .object (member "r" (.rational r) ++ member "g" (.rational g) ++
    member "b" (.rational b) ++ member "a" (.rational a))

/-! ## The objects that are read -/

section Objects

variable {members : List Member} {label : JsString} {required optional : List String}

theorem finite_rational (q : ℚ) (label : JsString) : finite (.rational q) label = .ok q := rfl

theorem string_string (s : JsString) (label : JsString) : string (.string s) label = .ok s := rfl

theorem boolean_bool (b : Bool) (label : JsString) : boolean (.bool b) label = .ok b := rfl

/-- Members under names that are those of an object. -/
theorem exactly_of {K : List String} (h : members.map Prod.fst = K.map text)
    (hknown : ∀ key ∈ K, key ∈ required ++ optional) (hpresent : ∀ key ∈ required, key ∈ K) :
    Exactly members required optional where
  known key hkey := by
    rw [h] at hkey
    obtain ⟨name, hname, rfl⟩ := List.mem_map.1 hkey
    exact List.mem_map.2 ⟨name, hknown name hname, rfl⟩
  present key hkey := by
    rw [lookup_isSome, h]
    exact List.mem_map_of_mem (hpresent key hkey)

theorem optionalMember_of_lookup {α : Type} {parser : JsValue → JsString → Validated α}
    {key : String} {value : Option JsValue} (hlookup : lookup (text key) members = value)
    (h : ∀ v ∈ value, (parser v label).isOk = true) :
    (optionalMember (.object members) key parser label).isOk = true := by
  rw [optionalMember_isOk (p := fun v => (parser v label).isOk = true) fun _ => Iff.rfl, hlookup]
  exact h

theorem isOk_bind_iff {α β : Type} {x : Validated α} {f : α → Validated β} {p : Prop}
    (hx : x.isOk = true) (hf : ∀ a, (f a).isOk = true ↔ p) : (x >>= f).isOk = true ↔ p := by
  rw [isOk_bind_and fun a _ => hf a]
  exact and_iff_right hx

/-- A list that is parsed before the rest. -/
theorem isOk_arrayOf_bind {ι α β : Type} {f : ι → JsValue}
    {parser : JsValue → JsString → Validated α} {p : ι → Prop} {q : Prop}
    (h : ∀ x label, (parser (f x) label).isOk = true ↔ p x) {xs : List ι}
    {rest : List α → Validated β} (hrest : ∀ ys, (rest ys).isOk = true ↔ q) :
    (arrayOf (.array (xs.map f)) label parser >>= rest).isOk = true ↔
      (xs.length ≤ maxReturnedNodes ∧ ∀ x ∈ xs, p x) ∧ q := by
  rw [isOk_bind_and fun ys _ => hrest ys, arrayOf_map_isOk h]

end Objects

theorem parseColor_isOk (c : Color) (label : JsString) : (parseColor c.toJs label).isOk = true := by
  have hexact : Exactly (member "r" (.rational c.r) ++ member "g" (.rational c.g) ++
      member "b" (.rational c.b) ++ member "a" (.rational c.a)) ["r", "g", "b", "a"] [] :=
    exactly_of (K := ["r", "g", "b", "a"]) (by simp [member]) (by simp) (by simp)
  rw [parseColor, Color.toJs, isOk_exact_bind hexact]
  simp [lookup_append, Plugin.lookup_member, finite_rational, Guard.ok_bind]
  rfl

/-! ## Members under known names -/

/-- Names that are among some. -/
def Known (K : List String) (members : List Member) : Prop :=
  ∀ key ∈ members.map Prod.fst, key ∈ K.map text

theorem known_member {K : List String} {k : String} {value : JsValue} (h : k ∈ K) :
    Known K (member k value) := by
  intro key hkey
  rw [Plugin.key_member hkey]
  exact List.mem_map_of_mem h

theorem known_optional {K : List String} {k : String} {value : Option JsValue} (h : k ∈ K) :
    Known K (optional k value) := by
  intro key hkey
  rw [Plugin.key_optional hkey]
  exact List.mem_map_of_mem h

theorem Known.append {K : List String} {l r : List Member} (hl : Known K l) (hr : Known K r) :
    Known K (l ++ r) := by
  intro key hkey
  rw [List.map_append, List.mem_append] at hkey
  exact hkey.elim (hl key) (hr key)

/-! ## Counts -/

theorem integer_isOk {n maximum : ℕ} (label : JsString) :
    (integer (natural n) label maximum).isOk = true ↔ n ≤ maxSafeInteger ∧ n ≤ maximum := by
  have hfinite : finite (natural n) label = .ok (n : ℚ) := rfl
  rw [integer, hfinite, Guard.ok_bind]
  split_ifs with h
  · refine iff_of_true rfl ?_
    simp at h
    exact h
  · refine iff_of_false (by rw [fail]; exact Bool.false_ne_true) fun hn => h ?_
    simp
    exact hn

/-- A count that may be missing. -/
theorem optionalInteger_isOk {members : List Member} {key : String} {count : Option ℕ}
    {maximum : ℕ} {label : JsString} (hmaximum : maximum ≤ maxSafeInteger)
    (hlookup : lookup (text key) members = count.map natural) :
    (optionalMember (.object members) key (integer · · maximum) label).isOk = true ↔
      ∀ n ∈ count, n ≤ maximum := by
  rw [optionalMember_isOk (p := fun v => (integer v label maximum).isOk = true) fun _ => Iff.rfl,
    hlookup]
  cases count with
  | none => exact iff_of_true nofun nofun
  | some n =>
      have hcount : (integer (natural n) label maximum).isOk = true ↔
          n ≤ maxSafeInteger ∧ n ≤ maximum := integer_isOk label
      constructor
      · intro h m hm
        obtain rfl := Option.some.inj hm
        exact (hcount.1 (h _ rfl)).2
      · intro h v hv
        obtain rfl := Option.some.inj hv
        exact hcount.2 ⟨le_trans (h n rfl) hmaximum, h n rfl⟩

theorem reason_isOk (reason : TruncationReason) (label : JsString) :
    (oneOf (word reason.word) ["depthLimit", "nodeLimit", "byteLimit"] label).isOk = true :=
  oneOf_isOk.2 ⟨reason.word, by cases reason <;> simp [TruncationReason.word], rfl⟩

theorem parseTruncation_isOk (t : Truncation) (label : JsString) :
    (parseTruncation t.toJs label).isOk = true ↔ t.Counted := by
  rw [parseTruncation, Truncation.toJs]
  generalize hmembers : member "reason" (word t.reason.word) ++
    optional "appliedDepth" (t.appliedDepth.map natural) ++
    optional "visitedNodes" (t.visitedNodes.map natural) ++
    optional "encodedBytes" (t.encodedBytes.map natural) = members
  have hexact : Exactly members ["reason"] ["appliedDepth", "visitedNodes", "encodedBytes"] := by
    rw [← hmembers]
    refine ⟨?_, by simp [lookup_append, Plugin.lookup_member]⟩
    cases t.appliedDepth <;> cases t.visitedNodes <;> cases t.encodedBytes <;>
      simp [member, optional]
  have hreason : (JsValue.object members).field "reason" = word t.reason.word := by
    simp [← hmembers, lookup_append, Plugin.lookup_member]
  have happlied : lookup (text "appliedDepth") members = t.appliedDepth.map natural := by
    simp [← hmembers, lookup_append, Plugin.lookup_member, Plugin.lookup_optional]
  have hvisited : lookup (text "visitedNodes") members = t.visitedNodes.map natural := by
    simp [← hmembers, lookup_append, Plugin.lookup_member, Plugin.lookup_optional]
  have hencoded : lookup (text "encodedBytes") members = t.encodedBytes.map natural := by
    simp [← hmembers, lookup_append, Plugin.lookup_member, Plugin.lookup_optional]
  rw [isOk_exact_bind hexact, hreason]
  refine (isOk_bind_iff (reason_isOk _ _) fun _ =>
    (isOk_bind_and fun _ _ => (isOk_bind_and fun _ _ => (isOk_bind_and (p := True) fun _ _ =>
      iff_true_intro rfl)))).trans ?_
  rw [optionalInteger_isOk (by decide) happlied, optionalInteger_isOk (le_refl _) hvisited,
    optionalInteger_isOk (le_refl _) hencoded]
  constructor
  · rintro ⟨ha, hv, he, -⟩
    exact ⟨ha, hv, he⟩
  · intro h
    exact ⟨h.appliedDepth, h.visitedNodes, h.encodedBytes, trivial⟩

end ResultValidation

end FigmaDevMcp

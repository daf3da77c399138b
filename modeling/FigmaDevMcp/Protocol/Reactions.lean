import FigmaDevMcp.Protocol.Unions
import FigmaDevMcp.Shared.ReactionAction

set_option autoImplicit false

/-!
# Reaction actions

The hand-written decoder of `prototype.rs`: nine members that may be there, and an arm for each of
twelve variants that takes some of them, refuses some, and says nothing of the rest.

* `ReactionAction`, `build`, `read`, `encode`;
* `required`, `optional`, `refused`, `forgotten`: the members of a variant;
* `build_eq_ok`, `read_isOk_iff`: what an object is read as;
* `acceptsSet_iff`, `allowsSet_iff`: which members the decoder and the plugin let an action have;
* `reactionAction_closed_iff`: **when decoding is closed**.
-/

namespace FigmaDevMcp.Protocol

open Serde Tools

variable {D : Doubles}

/-- What a reaction does. -/
inductive ReactionAction (D : Doubles)
  | navigate (destinationId : Option NodeId)
  | openOverlay (destinationId : Option NodeId)
  | swapOverlay (destinationId : Option NodeId)
  | closeOverlay
  | back
  | changeTo (destinationId : Option NodeId)
  | scrollTo (destinationId : Option NodeId)
  | openLink (uri : Str)
  | setVariable (variableId : Option Str)
  | setVariableMode (variableCollectionId variableModeId : Option Str)
  | conditional
  | updateMediaRuntime (mediaAction : Str) (destinationId : Option NodeId)
      (amountToSkip newTimestamp : Option D.F)

/-- The types of actions. -/
inductive ReactionActionTag
  | navigate | openOverlay | swapOverlay | closeOverlay | back | changeTo | scrollTo | openLink
  | setVariable | setVariableMode | conditional | updateMediaRuntime
deriving DecidableEq

namespace ReactionActionTag

def word : ReactionActionTag → String
  | navigate => "navigate"
  | openOverlay => "openOverlay"
  | swapOverlay => "swapOverlay"
  | closeOverlay => "closeOverlay"
  | back => "back"
  | changeTo => "changeTo"
  | scrollTo => "scrollTo"
  | openLink => "openLink"
  | setVariable => "setVariable"
  | setVariableMode => "setVariableMode"
  | conditional => "conditional"
  | updateMediaRuntime => "updateMediaRuntime"

def words : List (String × ReactionActionTag) :=
  [("navigate", navigate), ("openOverlay", openOverlay), ("swapOverlay", swapOverlay),
    ("closeOverlay", closeOverlay), ("back", back), ("changeTo", changeTo), ("scrollTo", scrollTo),
    ("openLink", openLink), ("setVariable", setVariable), ("setVariableMode", setVariableMode),
    ("conditional", conditional), ("updateMediaRuntime", updateMediaRuntime)]

theorem readWord_word {F : Type} (v : ReactionActionTag) :
    Json.readWord words (Json.writeWord v.word : Json F) = .ok v :=
  Json.readWord_writeWord (by decide) (by cases v <;> decide)

end ReactionActionTag

/-- The members of an action, whatever its type. -/
inductive ReactionActionField
  | type | destinationId | uri | variableId | variableCollectionId | variableModeId | mediaAction
  | amountToSkip | newTimestamp
deriving DecidableEq

namespace ReactionActionField

def name : ReactionActionField → String
  | type => "type"
  | destinationId => "destinationId"
  | uri => "uri"
  | variableId => "variableId"
  | variableCollectionId => "variableCollectionId"
  | variableModeId => "variableModeId"
  | mediaAction => "mediaAction"
  | amountToSkip => "amountToSkip"
  | newTimestamp => "newTimestamp"

abbrev Val (D : Doubles) : ReactionActionField → Type
  | type => ReactionActionTag
  | destinationId => NodeId
  | uri => Str
  | variableId => Str
  | variableCollectionId => Str
  | variableModeId => Str
  | mediaAction => Str
  | amountToSkip => D.F
  | newTimestamp => D.F

def read : ∀ f : ReactionActionField, Json D.F → Except DecodeError (f.Val D)
  | type => Json.readWord ReactionActionTag.words
  | destinationId => readBounded _
  | uri => Json.readString
  | variableId => Json.readString
  | variableCollectionId => Json.readString
  | variableModeId => Json.readString
  | mediaAction => Json.readString
  | amountToSkip => D.read
  | newTimestamp => D.read

def all : List ReactionActionField :=
  [type, destinationId, uri, variableId, variableCollectionId, variableModeId, mediaAction,
    amountToSkip, newTimestamp]

theorem mem_all (f : ReactionActionField) : f ∈ all := by
  cases f <;> decide

def spec : Spec D.F ReactionActionField := .ofNodup all name (Val D) read false mem_all (by decide)

end ReactionActionField

namespace ReactionAction

def destination (s : (ReactionActionField.spec (D := D)).Slots)
    (make : Option NodeId → ReactionAction D) : Except DecodeError (ReactionAction D) := do
  rejectFields (s .uri).isSome "destination action cannot contain a URI"
  return make (s .destinationId)

def payloadFree (s : (ReactionActionField.spec (D := D)).Slots) (action : ReactionAction D) :
    Except DecodeError (ReactionAction D) := do
  rejectFields ((s .destinationId).isSome || (s .uri).isSome)
    "payload-free reaction action contains extra fields"
  return action

def build (s : (ReactionActionField.spec (D := D)).Slots) :
    Except DecodeError (ReactionAction D) := do
  match ← Spec.require s .type with
  | .navigate => destination s .navigate
  | .openOverlay => destination s .openOverlay
  | .swapOverlay => destination s .swapOverlay
  | .changeTo => destination s .changeTo
  | .scrollTo => destination s .scrollTo
  | .openLink => do
    rejectFields (s .destinationId).isSome "open-link action cannot contain destinationId"
    let uri ← Spec.require s .uri
    return .openLink uri
  | .closeOverlay => payloadFree s .closeOverlay
  | .back => payloadFree s .back
  | .setVariable => return .setVariable (s .variableId)
  | .setVariableMode => return .setVariableMode (s .variableCollectionId) (s .variableModeId)
  | .conditional => return .conditional
  | .updateMediaRuntime => do
    let mediaAction ← Spec.require s .mediaAction
    return .updateMediaRuntime mediaAction (s .destinationId) (s .amountToSkip) (s .newTimestamp)

def read : Json D.F → Except DecodeError (ReactionAction D) :=
  Json.visitMap "a closed prototype reaction action" fun members =>
    ReactionActionField.spec.visitMap members >>= build

/-! ## The other direction -/

def tag : ReactionAction D → ReactionActionTag
  | navigate _ => .navigate
  | openOverlay _ => .openOverlay
  | swapOverlay _ => .swapOverlay
  | closeOverlay => .closeOverlay
  | back => .back
  | changeTo _ => .changeTo
  | scrollTo _ => .scrollTo
  | openLink _ => .openLink
  | setVariable _ => .setVariable
  | setVariableMode _ _ => .setVariableMode
  | conditional => .conditional
  | updateMediaRuntime _ _ _ _ => .updateMediaRuntime

def slots (v : ReactionAction D) : (ReactionActionField.spec (D := D)).Slots
  | .type => some v.tag
  | .destinationId => match v with
    | navigate id | openOverlay id | swapOverlay id | changeTo id | scrollTo id => id
    | updateMediaRuntime _ id _ _ => id
    | _ => none
  | .uri => match v with
    | openLink uri => some uri
    | _ => none
  | .variableId => match v with
    | setVariable id => id
    | _ => none
  | .variableCollectionId => match v with
    | setVariableMode id _ => id
    | _ => none
  | .variableModeId => match v with
    | setVariableMode _ id => id
    | _ => none
  | .mediaAction => match v with
    | updateMediaRuntime action _ _ _ => some action
    | _ => none
  | .amountToSkip => match v with
    | updateMediaRuntime _ _ amount _ => amount
    | _ => none
  | .newTimestamp => match v with
    | updateMediaRuntime _ _ _ timestamp => timestamp
    | _ => none

def write : ∀ f : ReactionActionField, f.Val D → Json D.F
  | .type => fun tag => Json.writeWord tag.word
  | .destinationId => writeBounded
  | .uri => Json.writeString
  | .variableId => Json.writeString
  | .variableCollectionId => Json.writeString
  | .variableModeId => Json.writeString
  | .mediaAction => Json.writeString
  | .amountToSkip => D.write
  | .newTimestamp => D.write

/-- The members in the order of the variants, which have `mediaAction` before the destination. -/
def order : List ReactionActionField :=
  [.type, .mediaAction, .destinationId, .uri, .variableId, .variableCollectionId, .variableModeId,
    .amountToSkip, .newTimestamp]

def encode (v : ReactionAction D) : Json D.F :=
  .object 0 (ReactionActionField.spec.members order write v.slots)

def numbers : ReactionAction D → List D.F
  | updateMediaRuntime _ _ amountToSkip newTimestamp => amountToSkip.toList ++ newTimestamp.toList
  | _ => []

/-! ## The members of a variant -/

def required : ReactionActionTag → List ReactionActionField
  | .openLink => [.uri]
  | .updateMediaRuntime => [.mediaAction]
  | _ => []

def optional : ReactionActionTag → List ReactionActionField
  | .navigate | .openOverlay | .swapOverlay | .changeTo | .scrollTo => [.destinationId]
  | .setVariable => [.variableId]
  | .setVariableMode => [.variableCollectionId, .variableModeId]
  | .updateMediaRuntime => [.destinationId, .amountToSkip, .newTimestamp]
  | _ => []

/-- The members that the arm of the variant refuses. -/
def refused : ReactionActionTag → List ReactionActionField
  | .navigate | .openOverlay | .swapOverlay | .changeTo | .scrollTo => [.uri]
  | .openLink => [.destinationId]
  | .closeOverlay | .back => [.destinationId, .uri]
  | _ => []

/-- The members that the variant has. -/
def own (t : ReactionActionTag) : List ReactionActionField := .type :: (required t ++ optional t)

/-- The members that it has not, and that its arm says nothing of. -/
def forgotten (t : ReactionActionTag) : List ReactionActionField :=
  ReactionActionField.all.filter fun f => f ∉ own t ∧ f ∉ refused t

theorem mem_forgotten {t : ReactionActionTag} {f : ReactionActionField} :
    f ∈ forgotten t ↔ f ∉ own t ∧ f ∉ refused t := by
  rw [forgotten, List.mem_filter, decide_eq_true_eq]
  exact and_iff_right (ReactionActionField.mem_all f)

theorem not_refused_of_own {t : ReactionActionTag} {f : ReactionActionField} (h : f ∈ own t) :
    f ∉ refused t := by
  revert h
  cases t <;> cases f <;> decide

theorem destination_eq_ok {s : (ReactionActionField.spec (D := D)).Slots}
    {make : Option NodeId → ReactionAction D} {v : ReactionAction D} :
    destination s make = .ok v ↔ s .uri = none ∧ make (s .destinationId) = v := by
  simp only [destination, Guard.bind_eq_ok, rejectFields_eq_ok, exists_const, isSome_eq_false,
    Guard.pure_eq_ok]

theorem payloadFree_eq_ok {s : (ReactionActionField.spec (D := D)).Slots}
    {action v : ReactionAction D} :
    payloadFree s action = .ok v ↔ (s .destinationId = none ∧ s .uri = none) ∧ action = v := by
  simp only [payloadFree, Guard.bind_eq_ok, rejectFields_eq_ok, exists_const,
    Bool.or_eq_false_iff, isSome_eq_false, Guard.pure_eq_ok]

/-- **What an object is read as**: nothing refused, all that is required, and what the variant has
of the rest. -/
theorem build_eq_ok {s : (ReactionActionField.spec (D := D)).Slots} {v : ReactionAction D} :
    build s = .ok v ↔ s .type = some v.tag ∧ (∀ f ∈ refused v.tag, s f = none) ∧
      (∀ f ∈ required v.tag, s f ≠ none) ∧ v.slots = fun f => if f ∈ own v.tag then s f else none := by
  constructor
  · intro h
    obtain ⟨tag, htag, h⟩ := Guard.bind_eq_ok.1 h
    rw [Spec.require_eq_ok] at htag
    cases tag with
    | navigate | openOverlay | swapOverlay | changeTo | scrollTo =>
        obtain ⟨huri, rfl⟩ := destination_eq_ok.1 h
        refine ⟨htag, List.forall_mem_singleton.2 huri, List.forall_mem_nil _, ?_⟩
        funext f
        cases f <;> first | exact htag.symm | rfl
    | closeOverlay | back =>
        obtain ⟨⟨hdestination, huri⟩, rfl⟩ := payloadFree_eq_ok.1 h
        refine ⟨htag, List.forall_mem_cons.2 ⟨hdestination, List.forall_mem_singleton.2 huri⟩,
          List.forall_mem_nil _, ?_⟩
        funext f
        cases f <;> first | exact htag.symm | rfl
    | openLink =>
        simp only [Guard.bind_eq_ok, rejectFields_eq_ok, exists_const, isSome_eq_false,
          Spec.require_eq_ok, Guard.pure_eq_ok] at h
        obtain ⟨hdestination, uri, huri, rfl⟩ := h
        refine ⟨htag, List.forall_mem_singleton.2 hdestination,
          List.forall_mem_singleton.2 (by rw [huri]; exact Option.some_ne_none _), ?_⟩
        funext f
        cases f <;> first | exact htag.symm | exact huri.symm | rfl
    | setVariable | setVariableMode | conditional =>
        obtain rfl := Guard.pure_eq_ok.1 h
        refine ⟨htag, List.forall_mem_nil _, List.forall_mem_nil _, ?_⟩
        funext f
        cases f <;> first | exact htag.symm | rfl
    | updateMediaRuntime =>
        simp only [Guard.bind_eq_ok, Spec.require_eq_ok, Guard.pure_eq_ok] at h
        obtain ⟨action, haction, rfl⟩ := h
        refine ⟨htag, List.forall_mem_nil _,
          List.forall_mem_singleton.2 (by rw [haction]; exact Option.some_ne_none _), ?_⟩
        funext f
        cases f <;> first | exact htag.symm | exact haction.symm | rfl
  · rintro ⟨htag, hrefused, hrequired, hslots⟩
    refine Guard.bind_eq_ok.2 ⟨v.tag, Spec.require_eq_ok.2 htag, ?_⟩
    cases v with
    | navigate id | openOverlay id | swapOverlay id | changeTo id | scrollTo id =>
        exact destination_eq_ok.2 ⟨hrefused _ List.mem_cons_self,
          congrArg _ (congrFun hslots .destinationId).symm⟩
    | closeOverlay | back =>
        exact payloadFree_eq_ok.2 ⟨⟨hrefused _ List.mem_cons_self,
          hrefused _ (List.mem_cons_of_mem _ List.mem_cons_self)⟩, rfl⟩
    | openLink uri =>
        have huri : some uri = s .uri := congrFun hslots .uri
        simp only [tag, Guard.bind_eq_ok, rejectFields_eq_ok, exists_const, isSome_eq_false,
          Spec.require_eq_ok, Guard.pure_eq_ok]
        exact ⟨hrefused _ List.mem_cons_self, uri, huri.symm, rfl⟩
    | setVariable id =>
        exact congrArg (Except.ok ∘ setVariable) (congrFun hslots .variableId).symm
    | setVariableMode collection mode =>
        have hcollection : collection = s .variableCollectionId :=
          congrFun hslots .variableCollectionId
        have hmode : mode = s .variableModeId := congrFun hslots .variableModeId
        rw [hcollection, hmode]
        rfl
    | conditional => rfl
    | updateMediaRuntime action id amount timestamp =>
        have haction : some action = s .mediaAction := congrFun hslots .mediaAction
        have hid : id = s .destinationId := congrFun hslots .destinationId
        have hamount : amount = s .amountToSkip := congrFun hslots .amountToSkip
        have htimestamp : timestamp = s .newTimestamp := congrFun hslots .newTimestamp
        simp only [tag, Guard.bind_eq_ok, Spec.require_eq_ok, Guard.pure_eq_ok]
        exact ⟨action, haction.symm, by rw [hid, hamount, htimestamp]⟩

theorem slot_of_build {s : (ReactionActionField.spec (D := D)).Slots} {v : ReactionAction D}
    (h : build s = .ok v) (f : ReactionActionField) :
    v.slots f = if f ∈ own v.tag then s f else none :=
  congrFun (build_eq_ok.1 h).2.2.2 f

theorem build_isOk {s : (ReactionActionField.spec (D := D)).Slots} {t : ReactionActionTag}
    (htag : s .type = some t) (hrefused : ∀ f ∈ refused t, s f = none)
    (hrequired : ∀ f ∈ required t, s f ≠ none) : ∃ v, build s = .ok v ∧ v.tag = t := by
  have hbuild : ∃ v, build s = .ok v := by
    simp only [build, Guard.bind_eq_ok, Spec.require_eq_ok]
    cases t with
    | navigate | openOverlay | swapOverlay | changeTo | scrollTo =>
        exact ⟨_, _, htag, destination_eq_ok.2 ⟨hrefused _ List.mem_cons_self, rfl⟩⟩
    | closeOverlay | back =>
        exact ⟨_, _, htag, payloadFree_eq_ok.2 ⟨⟨hrefused _ List.mem_cons_self,
          hrefused _ (List.mem_cons_of_mem _ List.mem_cons_self)⟩, rfl⟩⟩
    | openLink =>
        obtain ⟨uri, huri⟩ := Option.ne_none_iff_exists'.1 (hrequired _ List.mem_cons_self)
        refine ⟨.openLink uri, _, htag, ?_⟩
        simp only [Guard.bind_eq_ok, rejectFields_eq_ok, exists_const, isSome_eq_false,
          Spec.require_eq_ok, Guard.pure_eq_ok]
        exact ⟨hrefused _ List.mem_cons_self, uri, huri, rfl⟩
    | setVariable | setVariableMode | conditional => exact ⟨_, _, htag, rfl⟩
    | updateMediaRuntime =>
        obtain ⟨action, haction⟩ := Option.ne_none_iff_exists'.1 (hrequired _ List.mem_cons_self)
        refine ⟨.updateMediaRuntime action (s .destinationId) (s .amountToSkip) (s .newTimestamp),
          _, htag, ?_⟩
        simp only [Guard.bind_eq_ok, Spec.require_eq_ok, Guard.pure_eq_ok]
        exact ⟨action, haction, rfl⟩
  obtain ⟨v, hv⟩ := hbuild
  exact ⟨v, hv, Option.some.inj ((build_eq_ok.1 hv).1.symm.trans htag)⟩

/-! ## Round trip -/

theorem build_slots (v : ReactionAction D) : build v.slots = .ok v := by
  cases v <;> rfl

theorem mem_order (f : ReactionActionField) : f ∈ order := by
  cases f <;> decide

theorem read_write {v : ReactionAction D} (h : ∀ x ∈ v.numbers, D.Exact x)
    (f : ReactionActionField) (w : f.Val D) (hw : v.slots f = some w) :
    f.read (write f w) = .ok w := by
  cases f with
  | type => exact ReactionActionTag.readWord_word (F := D.F) w
  | destinationId => exact readBounded_writeBounded (F := D.F) w
  | amountToSkip =>
      cases v with
      | updateMediaRuntime action id amount timestamp =>
          exact Doubles.read_write (h w (List.mem_append_left _ (Option.mem_toList.2 hw)))
      | _ => cases hw
  | newTimestamp =>
      cases v with
      | updateMediaRuntime action id amount timestamp =>
          exact Doubles.read_write (h w (List.mem_append_right _ (Option.mem_toList.2 hw)))
      | _ => cases hw
  | uri | variableId | variableCollectionId | variableModeId | mediaAction => rfl

theorem read_encode {v : ReactionAction D} (h : ∀ x ∈ v.numbers, D.Exact x) :
    read v.encode = .ok v := by
  refine Guard.bind_eq_ok.2 ⟨v.slots, ?_, build_slots v⟩
  exact Spec.visitMap_members (read_write h) (by decide : order.Nodup) mem_order

/-- An action is read back just if its numbers are exact. -/
theorem read_encode_iff {v : ReactionAction D} :
    read v.encode = .ok v ↔ ∀ x ∈ v.numbers, D.Exact x := by
  refine ⟨fun h => ?_, read_encode⟩
  obtain ⟨s, hs, hv⟩ := Guard.bind_eq_ok.1 h
  have hfield : ∀ (f : ReactionActionField) (w : f.Val D), v.slots f = some w →
      f.read (write f w) = .ok w := by
    intro f w hw
    have hsf : s f = some w := by
      have heq : some w = _ := hw.symm.trans (slot_of_build hv f)
      by_cases hown : f ∈ own v.tag
      · exact (heq.trans (if_pos hown)).symm
      · exact absurd (heq.trans (if_neg hown)) (Option.some_ne_none w)
    obtain ⟨m, hm, hname, hread⟩ := (Spec.slot_eq_some hs).1 hsf
    obtain ⟨g, -, hg⟩ := List.mem_filterMap.1 hm
    obtain ⟨u, hu, rfl⟩ := Option.map_eq_some_iff.1 hg
    obtain rfl := ReactionActionField.spec.name_inj g f hname
    obtain rfl := Option.some.inj (hu.symm.trans hw)
    exact hread
  cases v with
  | updateMediaRuntime action id amount timestamp =>
      intro x hx
      rcases List.mem_append.1 hx with hx | hx
      · exact Doubles.read_write_iff.1 (hfield .amountToSkip x (Option.mem_toList.1 hx))
      · exact Doubles.read_write_iff.1 (hfield .newTimestamp x (Option.mem_toList.1 hx))
  | _ => exact List.forall_mem_nil _

/-! ## What is forgotten -/

/-- The object has a member of that name. -/
def Has (members : List (Serde.Member D.F)) (f : ReactionActionField) : Prop :=
  ∃ m ∈ members, m.1.text = f.name

/-- The discriminator of the object. -/
def HasTag (members : List (Serde.Member D.F)) (t : ReactionActionTag) : Prop :=
  ∃ m ∈ members, m.1.text = ReactionActionField.type.name ∧
    Json.readWord ReactionActionTag.words m.2 = .ok t

/-- The action holds what was read of each member. -/
def Keeps (members : List (Serde.Member D.F)) (v : ReactionAction D) : Prop :=
  ∀ m ∈ members, ∃ (f : ReactionActionField) (w : f.Val D),
    f.name = m.1.text ∧ f.read m.2 = .ok w ∧ v.slots f = some w

/-- An object whose members can be read and are enough for its variant, with none that the variant
refuses, and one that it forgets. -/
structure Forgets (members : List (Serde.Member D.F)) (t : ReactionActionTag) : Prop where
  readable : (ReactionActionField.spec (D := D)).Readable members
  tagged : HasTag members t
  required : ∀ f ∈ required t, Has members f
  refused : ∀ f ∈ refused t, ¬ Has members f
  forgotten : ∃ f ∈ forgotten t, Has members f

theorem has_iff {members : List (Serde.Member D.F)} {s : (ReactionActionField.spec (D := D)).Slots}
    (hs : ReactionActionField.spec.visitMap members = .ok s) (f : ReactionActionField) :
    Has members f ↔ s f ≠ none :=
  (Spec.slot_ne_none hs).symm

theorem hasTag_iff {members : List (Serde.Member D.F)}
    {s : (ReactionActionField.spec (D := D)).Slots}
    (hs : ReactionActionField.spec.visitMap members = .ok s) (t : ReactionActionTag) :
    HasTag members t ↔ s .type = some t :=
  (Spec.slot_eq_some hs (f := .type)).symm

/-- **What is read**: an object with readable members, all that its variant requires and none that
it refuses. -/
theorem read_isOk_iff {space : ℕ} {members : List (Serde.Member D.F)} {t : ReactionActionTag} :
    (∃ v, read (.object space members) = .ok v ∧ v.tag = t) ↔
      (ReactionActionField.spec (D := D)).Readable members ∧ HasTag members t ∧
        (∀ f ∈ required t, Has members f) ∧ ∀ f ∈ refused t, ¬ Has members f := by
  constructor
  · rintro ⟨v, h, rfl⟩
    obtain ⟨s, hs, hv⟩ := Guard.bind_eq_ok.1 h
    have ⟨htag, hrefused, hrequired, _⟩ := build_eq_ok.1 hv
    refine ⟨Spec.visitMap_isOk.1 ⟨s, hs⟩, (hasTag_iff hs _).2 htag, fun f hf => ?_, fun f hf => ?_⟩
    · exact (has_iff hs f).2 (hrequired f hf)
    · exact fun h => (has_iff hs f).1 h (hrefused f hf)
  · rintro ⟨hreadable, htag, hrequired, hrefused⟩
    obtain ⟨s, hs⟩ := Spec.visitMap_isOk.2 hreadable
    obtain ⟨v, hv, hvt⟩ := build_isOk ((hasTag_iff hs t).1 htag)
      (fun f hf => not_not.1 (mt (has_iff hs f).2 (hrefused f hf)))
      fun f hf => (has_iff hs f).1 (hrequired f hf)
    exact ⟨v, Guard.bind_eq_ok.2 ⟨s, hs, hv⟩, hvt⟩

/-- **Nothing is dropped** of an object that forgets nothing. -/
theorem keeps_iff (space : ℕ) (members : List (Serde.Member D.F)) :
    (∀ v, read (.object space members) = .ok v → Keeps members v) ↔ ∀ t, ¬ Forgets members t := by
  constructor
  · intro h t hforgets
    obtain ⟨v, hv, rfl⟩ := (@read_isOk_iff _ space _ _).2
      ⟨hforgets.readable, hforgets.tagged, hforgets.required, hforgets.refused⟩
    obtain ⟨f, hf, m, hm, hname⟩ := hforgets.forgotten
    obtain ⟨g, w, hg, -, hslot⟩ := h v hv m hm
    obtain rfl := ReactionActionField.spec.name_inj (F := D.F) g f (hg.trans hname)
    obtain ⟨s, hs, hbuild⟩ := Guard.bind_eq_ok.1 hv
    exact absurd (hslot.symm.trans ((slot_of_build hbuild g).trans (if_neg (mem_forgotten.1 hf).1)))
      (Option.some_ne_none w)
  · intro h v hv m hm
    have ⟨hreadable, htag, hrequired, hrefused⟩ := read_isOk_iff.1 ⟨v, hv, rfl⟩
    obtain ⟨s, hs, hbuild⟩ := Guard.bind_eq_ok.1 hv
    obtain ⟨f, w, hf, hw, hsf⟩ := (Spec.slots_of_visitMap hs).2.1 m hm
    refine ⟨f, w, hf, hw, (slot_of_build hbuild f).trans ?_⟩
    by_cases hown : f ∈ own v.tag
    · exact (if_pos hown).trans hsf
    · have hhas : Has members f := ⟨m, hm, hf.symm⟩
      have hnot : f ∉ refused v.tag := fun hmem => hrefused f hmem hhas
      exact absurd ⟨hreadable, htag, hrequired, hrefused, f, mem_forgotten.2 ⟨hown, hnot⟩, hhas⟩
        (h v.tag)

/-! ## The sets of members -/

variable (D) in
/-- The decoder takes an object of that type with members of these names. -/
def AcceptsSet (t : ReactionActionTag) (names : List String) : Prop :=
  ∃ (space : ℕ) (members : List (Serde.Member D.F)),
    members.map (fun m => m.1.text) = names ∧ ∃ v, read (.object space members) = .ok v ∧ v.tag = t

/-- The plugin takes an object of that type with members of these names. -/
def AllowsSet (t : ReactionActionTag) (names : List String) : Prop :=
  names.Nodup ∧ ∃ (members : List FigmaDevMcp.Member) (label : JsString),
    members.map Prod.fst = names.map text ∧
      JsValue.lookup (text "type") members = some (FigmaDevMcp.word t.word) ∧
      (ResultValidation.parseReactionAction (.object members) label).isOk = true

/-- A value that can be read as that field. -/
def sample (t : ReactionActionTag) : ReactionActionField → Json D.F
  | .type => Json.writeWord t.word
  | .amountToSkip | .newTimestamp => .number 1 (.unsigned 0)
  | _ => .string 1 ['x']

theorem read_sample (t : ReactionActionTag) (f : ReactionActionField) :
    ∃ w, f.read (sample (D := D) t f) = .ok w := by
  cases f with
  | type => exact ⟨t, ReactionActionTag.readWord_word (F := D.F) t⟩
  | destinationId => exact ⟨⟨['x'], by decide⟩, rfl⟩
  | _ => exact ⟨_, rfl⟩

/-- A value that can be read under that name. -/
def sampleOf (t : ReactionActionTag) (name : String) : Json D.F :=
  (((ReactionActionField.spec (D := D)).field name).map (sample t)).getD .null

def sampleMembers (t : ReactionActionTag) (names : List String) : List (Serde.Member D.F) :=
  names.map fun name => (⟨name.utf8ByteSize, name⟩, sampleOf t name)

theorem sampleOf_name (t : ReactionActionTag) (f : ReactionActionField) :
    sampleOf (D := D) t f.name = sample t f := by
  have hfield : (ReactionActionField.spec (D := D)).field f.name = some f :=
    Spec.field_eq_some.2 rfl
  rw [sampleOf, hfield]
  rfl

theorem acceptsSet_iff {t : ReactionActionTag} {names : List String} :
    AcceptsSet D t names ↔ names.Nodup ∧ (∀ n ∈ names, ∃ f : ReactionActionField, f.name = n) ∧
      "type" ∈ names ∧ (∀ f ∈ required t, f.name ∈ names) ∧ ∀ f ∈ refused t, f.name ∉ names := by
  have hhas : ∀ (members : List (Serde.Member D.F)) (f : ReactionActionField),
      Has members f ↔ f.name ∈ members.map fun m => m.1.text := fun members f =>
    (List.mem_map (b := f.name)).symm
  constructor
  · rintro ⟨space, members, rfl, hread⟩
    have ⟨hreadable, htag, hrequired, hrefused⟩ := read_isOk_iff.1 hread
    refine ⟨hreadable.nodup, fun n hn => ?_, ?_, fun f hf => (hhas members f).1 (hrequired f hf),
      fun f hf h => hrefused f hf ((hhas members f).2 h)⟩
    · obtain ⟨m, hm, rfl⟩ := List.mem_map.1 hn
      obtain ⟨f, _, hf, _⟩ := hreadable.read m hm
      exact ⟨f, hf⟩
    · obtain ⟨m, hm, hname, _⟩ := htag
      exact List.mem_map.2 ⟨m, hm, hname⟩
  · rintro ⟨hnodup, hknown, htype, hrequired, hrefused⟩
    have hnames : (sampleMembers (D := D) t names).map (fun m => m.1.text) = names := by
      rw [sampleMembers, List.map_map]
      exact List.map_id names
    refine ⟨0, sampleMembers t names, hnames, read_isOk_iff.2 ⟨⟨?_, ?_⟩, ?_, ?_, ?_⟩⟩
    · rwa [hnames]
    · intro m hm
      obtain ⟨n, hn, rfl⟩ := List.mem_map.1 hm
      obtain ⟨f, rfl⟩ := hknown n hn
      obtain ⟨w, hw⟩ := read_sample (D := D) t f
      exact ⟨f, w, rfl, (congrArg f.read (sampleOf_name t f)).trans hw⟩
    · refine ⟨_, List.mem_map.2 ⟨_, htype, rfl⟩, rfl, ?_⟩
      exact (congrArg _ (sampleOf_name t .type)).trans (ReactionActionTag.readWord_word (F := D.F) t)
    · intro f hf
      rw [hhas, hnames]
      exact hrequired f hf
    · intro f hf
      rw [hhas, hnames]
      exact hrefused f hf

theorem mem_own_name {t : ReactionActionTag} {n : String} :
    n ∈ "type" :: (required t).map ReactionActionField.name ++
      (optional t).map ReactionActionField.name ↔ ∃ f ∈ own t, f.name = n := by
  rw [List.cons_append, ← List.map_append, ← List.mem_map]
  exact Iff.rfl

theorem shapeOf_word (t : ReactionActionTag) : ResultValidation.shapeOf t.word =
    { required := (required t).map ReactionActionField.name
      optional := (optional t).map ReactionActionField.name } := by
  cases t <;> rfl

/-- A value that the plugin takes under that name. -/
def sampleJs (t : ReactionActionTag) (key : JsString) : JsValue :=
  if key = text "type" then FigmaDevMcp.word t.word
  else if key = text "mediaAction" then FigmaDevMcp.word "play"
  else if key = text "amountToSkip" ∨ key = text "newTimestamp" then .rational 0
  else FigmaDevMcp.word "x"

theorem takes_sampleJs (t : ReactionActionTag) (keys : List JsString) :
    ResultValidation.Takes (keys.map fun key => (key, sampleJs t key)) := by
  have hvalue : ∀ key : String, ∀ value ∈ JsValue.lookup (text key)
      (keys.map fun key => (key, sampleJs t key)), value = sampleJs t (text key) := by
    intro key value hmem
    have hkey : text key ∈ keys := by
      have hsome := JsValue.lookup_isSome.1 (Option.isSome_of_mem hmem)
      rwa [List.map_map, show (Prod.fst ∘ fun key => (key, sampleJs t key)) = id from rfl,
        List.map_id] at hsome
    rw [JsValue.lookup_map hkey] at hmem
    exact (Option.some.inj hmem).symm
  refine ⟨fun key hkey => ResultValidation.optionalId_isOk fun value hmem => ?_,
    fun value hmem => ?_, fun value hmem => ?_,
    fun key hkey => ResultValidation.optionalFinite_isOk fun value hmem => ?_⟩
  · rw [hvalue key value hmem]
    clear hmem
    revert key
    cases t <;> decide
  · exact ⟨_, hvalue _ value hmem⟩
  · exact ⟨"play", by decide, hvalue _ value hmem⟩
  · refine ⟨0, (hvalue key value hmem).trans ?_⟩
    simp only [List.mem_cons, List.not_mem_nil, or_false] at hkey
    rcases hkey with rfl | rfl <;> rfl

theorem allowsSet_iff {t : ReactionActionTag} {names : List String} :
    AllowsSet t names ↔ names.Nodup ∧ (∀ n ∈ names, ∃ f ∈ own t, f.name = n) ∧ "type" ∈ names ∧
      ∀ f ∈ required t, f.name ∈ names := by
  have hmem : ∀ key : String, text key ∈ names.map text ↔ key ∈ names := fun key =>
    List.mem_map_of_injective fun _ _ => Utf16.ofString_inj.1
  constructor
  · rintro ⟨hnodup, members, label, hnames, htype, hok⟩
    have hexactly := ResultValidation.parseReactionAction_isOk htype hok
    rw [shapeOf_word] at hexactly
    have hpresent : ∀ key ∈ "type" :: (required t).map ReactionActionField.name, key ∈ names :=
      fun key hkey => (hmem key).1 (hnames ▸ JsValue.lookup_isSome.1 (hexactly.present key hkey))
    refine ⟨hnodup, fun n hn => ?_, hpresent _ List.mem_cons_self, fun f hf => ?_⟩
    · have hknown := hexactly.known (text n) (hnames ▸ (hmem n).2 hn)
      obtain ⟨key, hkey, heq⟩ := List.mem_map.1 hknown
      obtain rfl := Utf16.ofString_inj.1 heq
      exact mem_own_name.1 hkey
    · exact hpresent _ (List.mem_cons_of_mem _ (List.mem_map.2 ⟨f, hf, rfl⟩))
  · rintro ⟨hnodup, hown, htype, hrequired⟩
    have hkeys : ((names.map text).map fun key => (key, sampleJs t key)).map Prod.fst =
        names.map text := by
      rw [List.map_map]
      exact List.map_id _
    have hlookup : ∀ key : String, key ∈ names →
        JsValue.lookup (text key) ((names.map text).map fun key => (key, sampleJs t key)) =
          some (sampleJs t (text key)) := fun key hkey => JsValue.lookup_map ((hmem key).2 hkey)
    refine ⟨hnodup, _, [], hkeys, hlookup "type" htype, ?_⟩
    refine ResultValidation.parseReactionAction_of_exactly (by cases t <;> decide)
      (hlookup "type" htype) ?_ (takes_sampleJs t _)
    rw [shapeOf_word]
    refine ⟨fun key hkey => ?_, fun key hkey => ?_⟩
    · rw [hkeys] at hkey
      obtain ⟨n, hn, rfl⟩ := List.mem_map.1 hkey
      exact List.mem_map.2 ⟨n, mem_own_name.2 (hown n hn), rfl⟩
    · rw [JsValue.lookup_isSome, hkeys, hmem]
      rcases List.mem_cons.1 hkey with rfl | hkey
      · exact htype
      · obtain ⟨f, hf, rfl⟩ := List.mem_map.1 hkey
        exact hrequired f hf

/-- **The decoder accepts what the plugin allows**, of a set in which no member is forgotten. -/
theorem accepts_iff_allows {t : ReactionActionTag} {names : List String} :
    (AcceptsSet D t names ↔ AllowsSet t names) ↔
      ¬ (AcceptsSet D t names ∧ ∃ f ∈ forgotten t, f.name ∈ names) := by
  have hinj : ∀ f g : ReactionActionField, f.name = g.name → f = g :=
    (ReactionActionField.spec (D := D)).name_inj
  rw [acceptsSet_iff, allowsSet_iff]
  constructor
  · rintro h ⟨haccepts, f, hf, hmem⟩
    obtain ⟨g, hg, hname⟩ := (h.1 haccepts).2.1 _ hmem
    obtain rfl := hinj g f hname
    exact (mem_forgotten.1 hf).1 hg
  · refine fun h => ⟨?_, ?_⟩
    · rintro ⟨hnodup, hknown, htype, hrequired, hrefused⟩
      refine ⟨hnodup, fun n hn => ?_, htype, hrequired⟩
      obtain ⟨f, rfl⟩ := hknown n hn
      by_contra hno
      have hown : f ∉ own t := fun hf => hno ⟨f, hf, rfl⟩
      have hnot : f ∉ refused t := fun hf => hrefused f hf hn
      exact h ⟨⟨hnodup, hknown, htype, hrequired, hrefused⟩, f, mem_forgotten.2 ⟨hown, hnot⟩, hn⟩
    · rintro ⟨hnodup, hown, htype, hrequired⟩
      refine ⟨hnodup, fun n hn => ?_, htype, hrequired, fun f hf hmem => ?_⟩
      · obtain ⟨f, _, hname⟩ := hown n hn
        exact ⟨f, hname⟩
      · obtain ⟨g, hg, hname⟩ := hown _ hmem
        obtain rfl := hinj g f hname
        exact not_refused_of_own hg hf

/-- **When decoding is closed.** An action is read back just if its numbers are exact; nothing of
an object is dropped just if it forgets nothing; and the decoder takes the sets of members that the
plugin allows just where no member of a set is forgotten. -/
theorem reactionAction_closed_iff (D : Doubles) :
    (∀ v : ReactionAction D, read v.encode = .ok v ↔ ∀ x ∈ v.numbers, D.Exact x) ∧
      (∀ (space : ℕ) (members : List (Serde.Member D.F)),
        (∀ v, read (.object space members) = .ok v → Keeps members v) ↔
          ∀ t, ¬ Forgets members t) ∧
      ∀ (t : ReactionActionTag) (names : List String),
        (AcceptsSet D t names ↔ AllowsSet t names) ↔
          ¬ ((names.Nodup ∧ (∀ n ∈ names, ∃ f : ReactionActionField, f.name = n) ∧
              "type" ∈ names ∧ (∀ f ∈ required t, f.name ∈ names) ∧
              ∀ f ∈ refused t, f.name ∉ names) ∧ ∃ f ∈ forgotten t, f.name ∈ names) := by
  refine ⟨fun v => read_encode_iff, keeps_iff, fun t names => ?_⟩
  rw [← acceptsSet_iff (D := D)]
  exact accepts_iff_allows

/-- An object to navigate, with a variable. -/
def navigateVariable : List (Serde.Member wholeNumbers.F) :=
  [(⟨4, "type"⟩, Json.writeWord "navigate"), (⟨10, "variableId"⟩, Json.writeString ['v'])]

/-- The decoder drops the variable, where the plugin refuses the object. -/
theorem navigate_drops_variable :
    (∃ v, read (D := wholeNumbers) (.object 0 navigateVariable) = .ok v ∧
      v = .navigate none ∧ ¬ Keeps navigateVariable v) ∧
    (ResultValidation.parseReactionAction (.object
      [(text "type", FigmaDevMcp.word "navigate"), (text "variableId", FigmaDevMcp.word "v")])
        (text "action")).isOk = false := by
  refine ⟨⟨.navigate none, rfl, rfl, fun h => ?_⟩, by decide⟩
  obtain ⟨f, w, hf, _, hslot⟩ := h _ (List.mem_cons_of_mem _ List.mem_cons_self)
  obtain rfl := (ReactionActionField.spec (D := wholeNumbers)).name_inj f .variableId hf
  cases hslot

end ReactionAction

end FigmaDevMcp.Protocol

import FigmaDevMcp.Protocol.Rpc

set_option autoImplicit false

/-!
# The order of members

A message is read the same whatever order its members come in, and a message with a repeated
member is refused.

* `bufferMember_eq_ok`: what one member does to what has been read;
* `Buffered.Same`, `Buffered.swap`: two members in either order leave the same behind;
* `visitMessage_orderFree`, `visitMessage_rejectsRepeated`: the loop of the visitors;
* **`decoding_ignores_order`**: the five unions.
-/

namespace FigmaDevMcp.Protocol

open Serde

variable {F Tag α : Type} {tags : List (String × Tag)}

theorem MessageField.ofName_eq_some {name : String} {field : MessageField} :
    MessageField.ofName name = some field ↔ messageFieldName field = name := by
  have hnodup : (MessageField.all.map messageFieldName).Nodup := by decide
  have hall : ∀ f, f ∈ MessageField.all := by
    intro f
    cases f <;> decide
  constructor
  · intro h
    simpa using List.find?_some h
  · rintro rfl
    cases h : MessageField.ofName (messageFieldName field) with
    | none => exact absurd (List.find?_eq_none.1 h field (hall field)) (by simp)
    | some g =>
        have hname : messageFieldName g = messageFieldName field := by
          simpa using List.find?_some h
        rw [List.inj_on_of_nodup_map hnodup (hall g) (hall field) hname]

theorem bufferMember_other {s : Buffered F Tag} {m : Serde.Member F} {field : MessageField}
    (hfield : MessageField.ofName m.1.text = some field) (hne : field ≠ .type) :
    bufferMember tags s m = (s.object.insert m.1.text m.2).map fun object => ⟨s.tag, object⟩ := by
  have hname := MessageField.ofName_eq_some.1 hfield
  rw [← hname, bufferMember, hfield]
  cases field with
  | type => exact absurd rfl hne
  | _ =>
      dsimp only
      cases s.object.insert _ m.2 <;> rfl

/-- A member is the type, which has not come before, or it is put aside under its own name. -/
theorem bufferMember_eq_ok {s t : Buffered F Tag} {m : Serde.Member F} :
    bufferMember tags s m = .ok t ↔
      (m.1.text = "type" ∧ s.tag = none ∧
        ∃ tag, Json.readWord tags m.2 = .ok tag ∧ t = ⟨some tag, s.object⟩) ∨
      (m.1.text ≠ "type" ∧ (∃ field, messageFieldName field = m.1.text) ∧
        ∃ object, s.object.insert m.1.text m.2 = .ok object ∧ t = ⟨s.tag, object⟩) := by
  cases hfield : MessageField.ofName m.1.text with
  | none =>
      have hnone : ∀ field, messageFieldName field ≠ m.1.text := by
        intro field hname
        rw [MessageField.ofName_eq_some.2 hname] at hfield
        cases hfield
      rw [bufferMember, hfield]
      refine ⟨nofun, ?_⟩
      rintro (⟨htype, -⟩ | ⟨-, ⟨field, hname⟩, -⟩)
      · exact absurd htype.symm (hnone .type)
      · exact absurd hname (hnone field)
  | some field =>
      have hname := MessageField.ofName_eq_some.1 hfield
      by_cases htype : field = .type
      · subst htype
        have htext : m.1.text = "type" := hname.symm
        rw [bufferMember, hfield]
        dsimp only
        constructor
        · intro h
          split_ifs at h with hsome
          · obtain ⟨tag, htag, h⟩ := Guard.bind_eq_ok.1 h
            exact .inl ⟨htext, by simpa using hsome, tag, htag, (Except.ok.inj h).symm⟩
        · rintro (⟨-, hnone, tag, htag, rfl⟩ | ⟨hne, -⟩)
          · rw [hnone, htag]
            rfl
          · exact absurd htext hne
      · have htext : m.1.text ≠ "type" := by
          intro h
          rw [MessageField.ofName_eq_some.2 (show messageFieldName .type = m.1.text from h.symm)]
            at hfield
          exact htype (Option.some.inj hfield).symm
        rw [bufferMember_other hfield htype]
        constructor
        · intro h
          cases hinsert : s.object.insert m.1.text m.2 with
          | error e =>
              rw [hinsert] at h
              cases h
          | ok object =>
              rw [hinsert] at h
              exact .inr ⟨htext, ⟨field, hname⟩, object, rfl, (Except.ok.inj h).symm⟩
        · rintro (⟨htext', -⟩ | ⟨-, -, object, hinsert, rfl⟩)
          · exact absurd htext' htext
          · rw [hinsert]
            rfl

namespace Buffered

/-- The same type, and the same members put aside. -/
structure Same (s t : Buffered F Tag) : Prop where
  tag : s.tag = t.tag
  object : DeferredObject.Same s.object t.object

theorem Same.refl (s : Buffered F Tag) : Same s s := ⟨rfl, .refl _⟩

theorem Same.symm {s t : Buffered F Tag} (h : Same s t) : Same t s :=
  ⟨h.tag.symm, h.object.symm⟩

theorem Same.trans {s t u : Buffered F Tag} (h : Same s t) (h' : Same t u) : Same s u :=
  ⟨h.tag.trans h'.tag, h.object.trans h'.object⟩

theorem Same.step {s t r : Buffered F Tag} (h : Same s t) {m : Serde.Member F}
    (hs : bufferMember tags s m = .ok r) : ∃ u, bufferMember tags t m = .ok u ∧ Same r u := by
  rcases bufferMember_eq_ok.1 hs with ⟨htext, hnone, tag, htag, rfl⟩ | ⟨htext, hname, o, ho, rfl⟩
  · exact ⟨_, bufferMember_eq_ok.2 (.inl ⟨htext, h.tag ▸ hnone, tag, htag, rfl⟩), rfl, h.object⟩
  · obtain ⟨o', ho', hsame⟩ := h.object.insert ho
    exact ⟨_, bufferMember_eq_ok.2 (.inr ⟨htext, hname, o', ho', rfl⟩), h.tag, hsame⟩

/-- Two members in either order leave the same behind. -/
theorem swap {s t : Buffered F Tag} {m n : Serde.Member F}
    (h : (bufferMember tags s m >>= fun s => bufferMember tags s n) = .ok t) :
    ∃ u, (bufferMember tags s n >>= fun s => bufferMember tags s m) = .ok u ∧ Same t u := by
  obtain ⟨r, hr, ht⟩ := Guard.bind_eq_ok.1 h
  rcases bufferMember_eq_ok.1 hr with ⟨hm, hnone, tag, htag, rfl⟩ | ⟨hm, hmname, o, ho, rfl⟩
  · rcases bufferMember_eq_ok.1 ht with ⟨-, hsome, -⟩ | ⟨hn, hnname, o, ho, rfl⟩
    · cases hsome
    · refine ⟨_, Guard.bind_eq_ok.2 ⟨_, bufferMember_eq_ok.2 (.inr ⟨hn, hnname, o, ho, rfl⟩),
        bufferMember_eq_ok.2 (.inl ⟨hm, hnone, tag, htag, rfl⟩)⟩, .refl _⟩
  · rcases bufferMember_eq_ok.1 ht with ⟨hn, hnone, tag, htag, rfl⟩ | ⟨hn, hnname, o', ho', rfl⟩
    · refine ⟨_, Guard.bind_eq_ok.2 ⟨_, bufferMember_eq_ok.2 (.inl ⟨hn, hnone, tag, htag, rfl⟩),
        bufferMember_eq_ok.2 (.inr ⟨hm, hmname, o, ho, rfl⟩)⟩, .refl _⟩
    · obtain ⟨p, q, hp, hq, hsame⟩ := DeferredObject.insert_swap ho ho'
      refine ⟨_, Guard.bind_eq_ok.2 ⟨_, bufferMember_eq_ok.2 (.inr ⟨hn, hnname, p, hp, rfl⟩),
        bufferMember_eq_ok.2 (.inr ⟨hm, hmname, q, hq, rfl⟩)⟩, rfl, hsame⟩

/-- A member of that name has been read. -/
def Taken (s : Buffered F Tag) (name : String) : Prop :=
  (name = "type" ∧ s.tag.isSome) ∨ (name ≠ "type" ∧ ∃ field ∈ s.object.fields, field.name = name)

end Buffered

theorem visitMessage_orderFree {choose : Tag → DeferredObject F → Except DecodeError α}
    (hchoose : ∀ tag a b, DeferredObject.Same a b → Agree Eq (choose tag a) (choose tag b))
    {expected : String} :
    Spec.OrderFree (Json.visitMap expected (visitMessage tags choose)) := by
  intro _ _ l₁ l₂ hperm
  have hrun : Agree Buffered.Same (l₁.foldlM (bufferMember tags) ⟨none, .new⟩)
      (l₂.foldlM (bufferMember tags) ⟨none, .new⟩) := by
    refine agree_foldlM_perm Buffered.Same.refl (fun _ _ _ => .trans) ?_ ?_ hperm _ _ (.refl _)
    · intro s t m hst
      refine agree_of_imp (fun r hr => hst.step hr) fun r hr => ?_
      obtain ⟨u, hu, -⟩ := hst.symm.step hr
      exact ⟨u, hu⟩
    · intro s m n
      refine agree_of_imp (fun r hr => Buffered.swap hr) fun r hr => ?_
      obtain ⟨u, hu, -⟩ := Buffered.swap hr
      exact ⟨u, hu⟩
  show Agree Eq (visitMessage tags choose l₁) (visitMessage tags choose l₂)
  refine hrun.bind fun s t hst => ?_
  rw [hst.tag]
  cases t.tag with
  | none => exact .error _ _
  | some tag => exact hchoose tag _ _ hst.object

theorem visitMessage_rejectsRepeated {choose : Tag → DeferredObject F → Except DecodeError α}
    {expected : String} :
    Spec.RejectsRepeated (Json.visitMap expected (visitMessage tags choose)) := by
  intro _ members v h
  obtain ⟨s, hs, -⟩ := Guard.bind_eq_ok.1 (show visitMessage tags choose members = .ok v from h)
  have hstep : ∀ (s : Buffered F Tag) (m : Serde.Member F) t, bufferMember tags s m = .ok t →
      ¬ s.Taken m.1.text ∧ t.Taken m.1.text ∧ ∀ name, s.Taken name → t.Taken name := by
    intro s m t h
    rcases bufferMember_eq_ok.1 h with ⟨htext, hnone, tag, -, rfl⟩ | ⟨htext, -, o, ho, rfl⟩
    · refine ⟨?_, .inl ⟨htext, rfl⟩, fun name htaken => ?_⟩
      · rintro (⟨-, hsome⟩ | ⟨hne, -⟩)
        · rw [hnone] at hsome
          cases hsome
        · exact hne htext
      · exact htaken.imp (fun h => ⟨h.1, rfl⟩) id
    · obtain ⟨hfresh, -, rfl⟩ := DeferredObject.insert_eq_ok.1 ho
      refine ⟨?_, .inr ⟨htext, _, List.mem_append_right _ List.mem_cons_self, rfl⟩, ?_⟩
      · rintro (⟨h, -⟩ | ⟨-, field, hfield, hname⟩)
        · exact htext h
        · exact hfresh field hfield hname
      · rintro name (h | ⟨hne, field, hfield, hname⟩)
        · exact .inl h
        · exact .inr ⟨hne, field, List.mem_append_left _ hfield, hname⟩
  exact (nodup_of_foldlM hstep hs).1

/-! ## The unions -/

variable {P : Payloads F}

theorem agree_decode_map {β : Type} {read : Json F → Except DecodeError β} {make : β → α}
    (hread : Spec.OrderFree read) {a b : DeferredObject F} (h : DeferredObject.Same a b) :
    Agree Eq ((a.decode read).map make) ((b.decode read).map make) :=
  (DeferredObject.agree_decode h fun l r => hread 0 0 l r).map fun _ _ => congrArg make

theorem PluginToBroker.choose_agree (tag : PluginMessageTag) {a b : DeferredObject F}
    (h : DeferredObject.Same a b) :
    Agree Eq (PluginToBroker.choose (P := P) a tag) (PluginToBroker.choose b tag) := by
  cases tag with
  | hello => exact agree_decode_map (Spec.orderFree fun _ _ => rfl) h
  | progress => exact agree_decode_map (Spec.orderFree fun _ _ => rfl) h
  | response => exact agree_decode_map (Spec.orderFree fun _ _ => rfl) h
  | error => exact agree_decode_map (Spec.orderFree fun _ _ => rfl) h
  | pong => exact agree_decode_map (Spec.orderFree fun _ _ => rfl) h

theorem BrokerToPlugin.choose_agree (tag : BrokerMessageTag) {a b : DeferredObject F}
    (h : DeferredObject.Same a b) :
    Agree Eq (BrokerToPlugin.choose (P := P) a tag) (BrokerToPlugin.choose b tag) := by
  cases tag with
  | request => exact agree_decode_map (Spec.orderFree fun _ _ => rfl) h
  | cancel => exact agree_decode_map (Spec.orderFree fun _ _ => rfl) h
  | ping => exact agree_decode_map (Spec.orderFree fun _ _ => rfl) h

/-- Read the same in every order of the members, and not at all when one comes twice. -/
structure IgnoresOrder (read : Json F → Except DecodeError α) : Prop where
  orderFree : Spec.OrderFree read
  rejectsRepeated : Spec.RejectsRepeated read

/-- **Decoding ignores the order of members**, for each of the unions, whatever payloads they
carry. -/
theorem decoding_ignores_order (P : Payloads F) :
    IgnoresOrder (PluginToBroker.read (P := P)) ∧ IgnoresOrder (BrokerToPlugin.read (P := P)) ∧
      IgnoresOrder (ReadOperation.read (P := P)) ∧ IgnoresOrder (BrokerCall.read (P := P)) ∧
      IgnoresOrder (LeaderToFrontend.read (P := P)) := by
  refine ⟨⟨?_, visitMessage_rejectsRepeated⟩, ⟨?_, visitMessage_rejectsRepeated⟩, ⟨?_, ?_⟩,
    ⟨?_, ?_⟩, ⟨?_, ?_⟩⟩
  · exact visitMessage_orderFree fun tag _ _ h => PluginToBroker.choose_agree tag h
  · exact visitMessage_orderFree fun tag _ _ h => BrokerToPlugin.choose_agree tag h
  · exact Spec.orderFree fun _ _ => rfl
  · exact Spec.rejectsRepeated fun _ _ => rfl
  · exact Spec.orderFree fun _ _ => rfl
  · exact Spec.rejectsRepeated fun _ _ => rfl
  · exact Spec.orderFree fun _ _ => rfl
  · exact Spec.rejectsRepeated fun _ _ => rfl

end FigmaDevMcp.Protocol

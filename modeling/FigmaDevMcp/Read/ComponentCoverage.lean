import FigmaDevMcp.Read.Components
import Mathlib.Data.List.ReduceOption

set_option autoImplicit false

/-!
# What a read of components covers

The three passes share one emission. Each of them adds, in order, some of what it has to add, and
all of it where nothing is cut.

* `Gained`: what a pass adds to the emission;
* `emitComponents_gained`, `lookupBatches_gained`: the passes;
* `getComponents_complete`: **nothing twice, and nothing left out of a read that is not
  truncated**.
-/

namespace FigmaDevMcp

open ComponentEmission

/-- From `e` to `e'` the emission has gained some of the components and instances, and all of them
where nothing is cut. -/
structure Gained (cs : List ComponentDefinition) (is : List InstanceRelationship)
    (e e' : ComponentEmission) : Prop where
  components : ∃ l : List ComponentDefinition, l.Sublist cs ∧ e'.components = e.components ++ l
  instances : ∃ l : List InstanceRelationship, l.Sublist is ∧ e'.instances = e.instances ++ l
  whole : e'.truncation = none → e.truncation = none ∧
    e'.components = e.components ++ cs ∧ e'.instances = e.instances ++ is

namespace Gained

variable {cs more : List ComponentDefinition} {is others : List InstanceRelationship}
  {e e₁ e' : ComponentEmission}

theorem refl (e : ComponentEmission) : Gained [] [] e e where
  components := ⟨[], List.Sublist.slnil, (List.append_nil _).symm⟩
  instances := ⟨[], List.Sublist.slnil, (List.append_nil _).symm⟩
  whole h := ⟨h, (List.append_nil _).symm, (List.append_nil _).symm⟩

theorem trans (h : Gained cs is e e₁) (h' : Gained more others e₁ e') :
    Gained (cs ++ more) (is ++ others) e e' := by
  obtain ⟨l, hl, hcs⟩ := h.components
  obtain ⟨l', hl', hmore⟩ := h'.components
  obtain ⟨k, hk, his⟩ := h.instances
  obtain ⟨k', hk', hothers⟩ := h'.instances
  refine ⟨⟨l ++ l', hl.append hl', ?_⟩, ⟨k ++ k', hk.append hk', ?_⟩, fun hnone => ?_⟩
  · rw [hmore, hcs, List.append_assoc]
  · rw [hothers, his, List.append_assoc]
  · have ⟨hopen, hcs', his'⟩ := h'.whole hnone
    have ⟨hopen', hcs'', his''⟩ := h.whole hopen
    refine ⟨hopen', ?_, ?_⟩
    · rw [hcs', hcs'', List.append_assoc]
    · rw [his', his'', List.append_assoc]

/-- Where a pass is cut, it need not have gained anything more. -/
theorem cut (hcs : e'.components = e.components) (his : e'.instances = e.instances)
    (htruncation : e'.truncation ≠ none) : Gained cs is e e' where
  components := ⟨[], List.nil_sublist _, by rw [hcs, List.append_nil]⟩
  instances := ⟨[], List.nil_sublist _, by rw [his, List.append_nil]⟩
  whole h := absurd h htruncation

/-- What was gained until a pass was cut. -/
theorem of_cut (h : Gained cs is e e') (htruncation : e'.truncation ≠ none) :
    Gained (cs ++ more) (is ++ others) e e' :=
  h.trans (cut rfl rfl htruncation)

end Gained

/-! ## One item -/

theorem truncation_ne_none_of_emit {e : ComponentEmission} (h : e.emitTruncation ≠ none) :
    e.truncation ≠ none := by
  rw [truncation]
  cases e.walkTruncation with
  | some truncation => exact Option.some_ne_none truncation
  | none => exact h

theorem truncation_mark (e : ComponentEmission) (t : Truncation) : (e.mark t).truncation ≠ none := by
  rw [truncation, mark]
  cases hwalk : e.walkTruncation with
  | some truncation =>
      rw [Option.isNone_some, if_neg Bool.false_ne_true, hwalk]
      exact Option.some_ne_none truncation
  | none => exact Option.some_ne_none t

theorem components_mark (e : ComponentEmission) (t : Truncation) :
    (e.mark t).components = e.components := by
  rw [mark]
  split_ifs <;> rfl

theorem instances_mark (e : ComponentEmission) (t : Truncation) :
    (e.mark t).instances = e.instances := by
  rw [mark]
  split_ifs <;> rfl

theorem gained_mark {cs : List ComponentDefinition} {is : List InstanceRelationship}
    {e e' : ComponentEmission} (h : Gained cs is e e') (t : Truncation) : Gained cs is e (e'.mark t) := by
  have hcut : Gained [] [] e' (e'.mark t) :=
    .cut (components_mark e' t) (instances_mark e' t) (truncation_mark e' t)
  have hmarked := h.trans hcut
  rwa [List.append_nil, List.append_nil] at hmarked

variable {limits : SerializerLimits} {e e' : ComponentEmission} {b : Bool}

/-- What the shared limits let through. -/
theorem accept_spec {payload : JsValue} (h : e.accept limits payload = (b, e')) :
    e'.components = e.components ∧ e'.instances = e.instances ∧
      (b = true → e'.truncation = e.truncation) ∧ (b = false → e'.truncation ≠ none) := by
  rw [accept] at h
  dsimp only at h
  split_ifs at h with hcut hfull hbytes
  · obtain ⟨rfl, rfl⟩ := Prod.mk.inj h
    refine ⟨rfl, rfl, nofun, fun _ => truncation_ne_none_of_emit ?_⟩
    exact Option.isSome_iff_ne_none.1 hcut
  · obtain ⟨rfl, rfl⟩ := Prod.mk.inj h
    exact ⟨rfl, rfl, nofun, fun _ => truncation_ne_none_of_emit (Option.some_ne_none _)⟩
  · obtain ⟨rfl, rfl⟩ := Prod.mk.inj h
    exact ⟨rfl, rfl, nofun, fun _ => truncation_ne_none_of_emit (Option.some_ne_none _)⟩
  · obtain ⟨rfl, rfl⟩ := Prod.mk.inj h
    exact ⟨rfl, rfl, fun _ => rfl, nofun⟩

theorem pushComponent_spec {component : ComponentDefinition}
    (h : e.pushComponent limits component = (b, e')) :
    Gained [component] [] e e' ∧ (b = false → e'.truncation ≠ none) := by
  rw [pushComponent] at h
  cases haccept : e.accept limits component.toJs with
  | mk taken e₁ =>
      have ⟨hcs, his, htaken, hcut⟩ := accept_spec haccept
      rw [haccept] at h
      cases taken with
      | true =>
          obtain ⟨rfl, rfl⟩ := Prod.mk.inj h
          refine ⟨⟨⟨_, List.Sublist.refl _, ?_⟩, ⟨[], List.Sublist.slnil, ?_⟩, fun hnone => ?_⟩, nofun⟩
          · rw [hcs]
          · rw [his, List.append_nil]
          · refine ⟨(htaken rfl).symm.trans hnone, ?_, ?_⟩
            · rw [hcs]
            · rw [his, List.append_nil]
      | false =>
          obtain ⟨rfl, rfl⟩ := Prod.mk.inj h
          exact ⟨.cut hcs his (hcut rfl), fun _ => hcut rfl⟩

theorem pushInstance_spec {relationship : InstanceRelationship}
    (h : e.pushInstance limits relationship = (b, e')) :
    Gained [] [relationship] e e' ∧ (b = false → e'.truncation ≠ none) := by
  rw [pushInstance] at h
  cases haccept : e.accept limits relationship.toJs with
  | mk taken e₁ =>
      have ⟨hcs, his, htaken, hcut⟩ := accept_spec haccept
      rw [haccept] at h
      cases taken with
      | true =>
          obtain ⟨rfl, rfl⟩ := Prod.mk.inj h
          refine ⟨⟨⟨[], List.Sublist.slnil, ?_⟩, ⟨_, List.Sublist.refl _, ?_⟩, fun hnone => ?_⟩, nofun⟩
          · rw [hcs, List.append_nil]
          · rw [his]
          · refine ⟨(htaken rfl).symm.trans hnone, ?_, ?_⟩
            · rw [hcs, List.append_nil]
            · rw [his]
      | false =>
          obtain ⟨rfl, rfl⟩ := Prod.mk.inj h
          exact ⟨.cut hcs his (hcut rfl), fun _ => hcut rfl⟩

/-! ## The batches -/

section Batches

variable {α β : Type} {clock : LookupClock} {settle : α → Except ReadError (Option β)}
  {push : β → ComponentEmission → Except ReadError (Bool × ComponentEmission)}
  {cs : β → List ComponentDefinition} {is : β → List InstanceRelationship}

/-- What emitting one item adds. -/
def Pushes (push : β → ComponentEmission → Except ReadError (Bool × ComponentEmission))
    (cs : β → List ComponentDefinition) (is : β → List InstanceRelationship) : Prop :=
  ∀ item e b e', push item e = .ok (b, e') →
    Gained (cs item) (is item) e e' ∧ (b = false → e'.truncation ≠ none)

theorem pushAll_gained (hpush : Pushes push cs is) {items : List (Option β)}
    (h : pushAll push items e = .ok e') :
    Gained (items.reduceOption.flatMap cs) (items.reduceOption.flatMap is) e e' := by
  induction items generalizing e with
  | nil =>
      obtain rfl := Except.ok.inj h
      exact .refl e
  | cons item rest ih =>
      cases item with
      | none => exact ih h
      | some item =>
          obtain ⟨⟨taken, e₁⟩, hitem, h⟩ := Guard.bind_eq_ok.1 h
          have ⟨hgained, hcut⟩ := hpush item e taken e₁ hitem
          rw [List.reduceOption_cons_of_some, List.flatMap_cons, List.flatMap_cons]
          cases taken with
          | true => exact hgained.trans (ih h)
          | false =>
              obtain rfl := Except.ok.inj h
              exact hgained.of_cut (hcut rfl)

/-- What a batch settles with. -/
theorem reduceOption_of_mapM {items : List α} {resolved : List (Option β)}
    (h : items.mapM settle = .ok resolved) :
    resolved.reduceOption = items.filterMap (content settle) := by
  have hall := Guard.mapM_eq_ok.1 h
  clear h
  induction hall with
  | nil => rfl
  | @cons item value _ _ hfirst _ ih =>
      have hcontent := content_eq hfirst
      cases value with
      | none => rw [List.reduceOption_cons_of_none, ih, List.filterMap_cons_none hcontent]
      | some value => rw [List.reduceOption_cons_of_some, ih, List.filterMap_cons_some hcontent]

/-- **The batches of a pass** add what their items settle with. -/
theorem lookupBatches_gained (hpush : Pushes push cs is) {fuel : ℕ} {items : List α}
    (hfuel : items.length ≤ fuel) {reading last : ℕ}
    (h : lookupBatches clock settle push fuel items reading e = .ok (e', last)) :
    Gained ((items.filterMap (content settle)).flatMap cs)
      ((items.filterMap (content settle)).flatMap is) e e' := by
  induction fuel generalizing items reading e with
  | zero =>
      obtain rfl := List.length_eq_zero_iff.1 (Nat.le_zero.1 hfuel)
      obtain ⟨rfl, -⟩ := Prod.mk.inj (Except.ok.inj h)
      exact .refl e
  | succ fuel ih =>
      rw [lookupBatches] at h
      split_ifs at h with hstop hexpired hlate
      · obtain ⟨rfl, -⟩ := Prod.mk.inj (Except.ok.inj h)
        rcases hstop with rfl | hcut
        · exact .refl e
        · exact .cut rfl rfl (truncation_ne_none_of_emit (Option.isSome_iff_ne_none.1 hcut))
      · obtain ⟨rfl, -⟩ := Prod.mk.inj (Except.ok.inj h)
        exact .cut (components_mark _ _) (instances_mark _ _) (truncation_mark _ _)
      all_goals
        obtain ⟨resolved, hresolved, h⟩ := Guard.bind_eq_ok.1 h
        obtain ⟨e₁, hpushed, h⟩ := Guard.bind_eq_ok.1 h
        have hbatch := pushAll_gained hpush hpushed
        rw [reduceOption_of_mapM hresolved] at hbatch
        rw [← List.take_append_drop lookupBatch items, List.filterMap_append, List.flatMap_append,
          List.flatMap_append]
      · obtain ⟨rfl, -⟩ := Prod.mk.inj (Except.ok.inj h)
        exact (gained_mark hbatch _).of_cut (truncation_mark _ _)
      · refine hbatch.trans (ih ?_ h)
        have hpos : 0 < items.length := List.length_pos_of_ne_nil fun hnil => hstop (.inl hnil)
        rw [List.length_drop, lookupBatch]
        omega

end Batches

namespace ComponentFigma

variable {ρ : Type} {figma : ComponentFigma ρ}

/-! ## What the passes add -/

/-- **The components of the walk** are added, but for those that cannot be read. -/
theorem emitComponents_gained {nodes : List ρ} (h : figma.emitComponents limits nodes e = .ok e') :
    Gained (nodes.filterMap (content figma.serializeComponent)) [] e e' := by
  induction nodes generalizing e with
  | nil =>
      obtain rfl := Except.ok.inj h
      exact .refl e
  | cons node rest ih =>
      rw [emitComponents] at h
      cases hserialize : figma.serializeComponent node with
      | error error =>
          have hcontent : content figma.serializeComponent node = none := by rw [content, hserialize]
          rw [hserialize] at h
          rw [List.filterMap_cons_none hcontent]
          cases error with
          | read code retryable => cases h
          | other => exact ih h
      | ok value =>
          have hcontent := content_eq hserialize
          rw [hserialize] at h
          cases value with
          | none =>
              rw [List.filterMap_cons_none hcontent]
              exact ih h
          | some component =>
              rw [List.filterMap_cons_some hcontent]
              cases hpush : e.pushComponent limits component with
              | mk taken e₁ =>
                  obtain ⟨hgained, hcut⟩ := pushComponent_spec hpush
                  simp only [hpush] at h
                  cases taken with
                  | true => exact hgained.trans (ih h)
                  | false =>
                      obtain rfl := Except.ok.inj h
                      exact hgained.of_cut (hcut rfl)

theorem pushes_relationship :
    Pushes (pushRelationship limits) (fun _ => []) fun relationship => [relationship] := by
  intro relationship e b e' h
  exact pushInstance_spec (Except.ok.inj h)

theorem pushes_resolved : Pushes (figma.pushResolved limits)
    (fun node => (content figma.serializeComponent node).toList) fun _ => [] := by
  intro node e b e' h
  obtain ⟨value, hvalue, h⟩ := Guard.bind_eq_ok.1 h
  dsimp only
  rw [content_eq hvalue]
  cases value with
  | none =>
      obtain ⟨rfl, rfl⟩ := Prod.mk.inj (Except.ok.inj h)
      exact ⟨.refl e, nofun⟩
  | some component => exact pushComponent_spec (Except.ok.inj h)

/-! ## A component -/

variable (figma) in

/-- A component or a set of them. -/
def isComponent (node : ρ) : Bool := figma.isType node "COMPONENT" || figma.isType node "COMPONENT_SET"

theorem id_of_serializeComponent {node : ρ} {component : ComponentDefinition}
    (h : figma.serializeComponent node = .ok (some component)) : component.id = figma.id node := by
  obtain ⟨id, hid, h⟩ := Guard.bind_eq_ok.1 h
  have hread := ThrowingFigma.read_eq_ok hid
  dsimp only at h
  split_ifs at h with hempty
  · cases h
  obtain ⟨type, _, h⟩ := Guard.bind_eq_ok.1 h
  split_ifs at h with htype
  · cases h
  obtain ⟨name, _, h⟩ := Guard.bind_eq_ok.1 h
  obtain ⟨componentSetId, _, h⟩ := Guard.bind_eq_ok.1 h
  obtain rfl := Option.some.inj (Except.ok.inj h)
  exact congrArg string hread

theorem id_of_content {node : ρ} {component : ComponentDefinition}
    (h : content figma.serializeComponent node = some component) : component.id = figma.id node := by
  cases hserialize : figma.serializeComponent node with
  | error error =>
      rw [content, hserialize] at h
      cases h
  | ok value =>
      rw [content_eq hserialize] at h
      exact id_of_serializeComponent (h ▸ hserialize)

theorem componentSetId_of_readable (hreads : figma.Readable) (node : ρ) :
    ∃ id, figma.componentSetId node = .ok id := by
  rw [componentSetId]
  cases figma.parent node with
  | none => exact ⟨none, rfl⟩
  | some parent =>
      simp only [hreads.read_eq, Guard.ok_bind]
      split_ifs
      · exact ⟨_, rfl⟩
      · exact ⟨_, rfl⟩
      · exact ⟨_, rfl⟩

/-- A component is reported where no getter throws. -/
theorem serializeComponent_isSome (hreads : figma.Readable) {node : ρ} (hid : figma.id node ≠ [])
    (hcomponent : figma.isComponent node = true) :
    ∃ component, content figma.serializeComponent node = some component := by
  have ⟨set, hset⟩ := componentSetId_of_readable hreads node
  have htype : (!isWord (figma.get node "type") "COMPONENT" &&
      !isWord (figma.get node "type") "COMPONENT_SET") = false := by
    rw [← Bool.not_or]
    exact congrArg (!·) hcomponent
  suffices hok : ∃ component, figma.serializeComponent node = .ok (some component) from
    hok.imp fun component => content_eq
  rw [serializeComponent]
  simp only [hreads.read_eq, Guard.ok_bind, hset, htype]
  rw [if_neg (show ¬ string (figma.get node "id") = [] from hid), if_neg Bool.false_ne_true]
  exact ⟨_, rfl⟩

/-! ## The walk -/

theorem findComponent_eq (hreads : figma.Readable) (node : ρ) : figma.findComponent node = .ok
    (if figma.id node = [] then .other
      else if figma.isComponent node then .component (figma.id node) node
      else if figma.isType node "INSTANCE" then .instance_ (figma.id node) node else .other) := by
  rw [findComponent]
  simp only [hreads.read_eq, Guard.ok_bind]
  show (if figma.id node = [] then _ else if figma.isComponent node = true then _
    else if figma.isType node "INSTANCE" = true then _ else _) = _
  split_ifs <;> rfl

/-- What a node adds to the components of the walk. -/
def FoundComponent.asComponent : FoundComponent ρ → Option (JsString × ρ)
  | .component id node => some (id, node)
  | _ => none

/-- An instance with its id. -/
def FoundComponent.asInstance : FoundComponent ρ → Option (JsString × ρ)
  | .instance_ id node => some (id, node)
  | _ => none

theorem components_foldl_collect {found : List (FoundComponent ρ)} {walk : ComponentWalk ρ} :
    (found.foldl ComponentWalk.collect walk).components =
      Firsts.addAll Prod.fst walk.components (found.filterMap FoundComponent.asComponent) := by
  induction found generalizing walk with
  | nil => rfl
  | cons f found ih =>
      rw [List.foldl_cons, ih]
      cases f with
      | component id node => rfl
      | instance_ id node => rfl
      | other => rfl

theorem instances_foldl_collect {found : List (FoundComponent ρ)} {walk : ComponentWalk ρ} :
    (found.foldl ComponentWalk.collect walk).instances =
      Firsts.addAll Prod.fst walk.instances (found.filterMap FoundComponent.asInstance) := by
  induction found generalizing walk with
  | nil => rfl
  | cons f found ih =>
      rw [List.foldl_cons, ih]
      cases f with
      | component id node => rfl
      | instance_ id node => rfl
      | other => rfl

/-- Some kind of node that the walk collects under its ids. -/
def Collects (figma : ComponentFigma ρ) (as : FoundComponent ρ → Option (JsString × ρ))
    (P : ρ → Prop) : Prop :=
  ∀ node f p, figma.findComponent node = .ok f →
    (as f = some p ↔ p = (figma.id node, node) ∧ figma.id node ≠ [] ∧ P node)

theorem collects_components (hreads : figma.Readable) :
    Collects figma FoundComponent.asComponent fun node => figma.isComponent node = true := by
  intro node f p h
  rw [findComponent_eq hreads] at h
  obtain rfl := Except.ok.inj h
  split_ifs with hid hcomponent hinstance
  · exact ⟨nofun, fun h => absurd hid h.2.1⟩
  · exact ⟨fun h => ⟨(Option.some.inj h).symm, hid, hcomponent⟩, fun h => congrArg some h.1.symm⟩
  · exact ⟨nofun, fun h => absurd h.2.2 hcomponent⟩
  · exact ⟨nofun, fun h => absurd h.2.2 hcomponent⟩

theorem not_isComponent_of_instance {node : ρ} (h : figma.isType node "INSTANCE" = true) :
    ¬ figma.isComponent node = true := by
  rw [Host.isType] at h
  rw [isComponent, Host.isType, Host.isType]
  cases htype : figma.get node "type" with
  | string s =>
      rw [htype] at h
      obtain rfl : s = text "INSTANCE" := eq_of_beq h
      decide
  | _ =>
      rw [htype] at h
      cases h

theorem collects_instances (hreads : figma.Readable) :
    Collects figma FoundComponent.asInstance fun node => figma.isType node "INSTANCE" = true := by
  intro node f p h
  rw [findComponent_eq hreads] at h
  obtain rfl := Except.ok.inj h
  split_ifs with hid hcomponent hinstance
  · exact ⟨nofun, fun h => absurd hid h.2.1⟩
  · exact ⟨nofun, fun h => absurd hcomponent (not_isComponent_of_instance h.2.2)⟩
  · exact ⟨fun h => ⟨(Option.some.inj h).symm, hid, hinstance⟩, fun h => congrArg some h.1.symm⟩
  · exact ⟨nofun, fun h => absurd h.2.2 hinstance⟩

section Collected

variable {as : FoundComponent ρ → Option (JsString × ρ)} {P : ρ → Prop} {nodes : List ρ}
  {found : List (FoundComponent ρ)}

/-- What is collected are nodes that the walk has visited. -/
theorem mem_of_mem_collected (has : Collects figma as P) (h : nodes.mapM figma.findComponent = .ok found)
    {p : JsString × ρ} (hp : p ∈ Firsts.firsts Prod.fst (found.filterMap as)) :
    p.1 = figma.id p.2 ∧ p.1 ≠ [] ∧ p.2 ∈ nodes ∧ P p.2 := by
  obtain ⟨f, hf, hfp⟩ := List.mem_filterMap.1 ((Firsts.mem_addAll hp).resolve_left List.not_mem_nil)
  obtain ⟨node, hnode, hfound⟩ := Guard.exists_of_mem_mapM h hf
  obtain ⟨rfl, hid, hP⟩ := (has node f p hfound).1 hfp
  exact ⟨rfl, hid, hnode, hP⟩

/-- Every such node that the walk has visited is collected, under its id. -/
theorem exists_collected (hreads : figma.Readable) (has : Collects figma as P)
    (h : nodes.mapM figma.findComponent = .ok found) {node : ρ} (hnode : node ∈ nodes)
    (hid : figma.id node ≠ []) (hP : P node) :
    ∃ p ∈ Firsts.firsts Prod.fst (found.filterMap as), p.1 = figma.id node := by
  have hfound := findComponent_eq hreads node
  have hmem := Guard.mem_of_mem_mapM h hnode hfound
  have hcollected := List.mem_filterMap.2 ⟨_, hmem, (has node _ _ hfound).2 ⟨rfl, hid, hP⟩⟩
  have hkey : figma.id node ∈ (Firsts.firsts Prod.fst (found.filterMap as)).map Prod.fst :=
    Firsts.mem_keys_addAll.2 (Or.inr (List.mem_map_of_mem hcollected))
  obtain ⟨p, hp, hfst⟩ := List.mem_map.1 hkey
  exact ⟨p, hp, hfst⟩

end Collected

/-! ## The whole read -/

theorem relationship_spec {instance_ : JsString × ρ} {relationship : InstanceRelationship}
    (h : content figma.relationship instance_ = some relationship) :
    relationship.instanceId = instance_.1 ∧ relationship.componentId ≠ [] := by
  cases hok : figma.relationship instance_ with
  | error error =>
      rw [content, hok] at h
      cases h
  | ok value =>
      rw [content_eq hok] at h
      subst h
      obtain ⟨_, _, hok⟩ := Guard.bind_eq_ok.1 hok
      split at hok
      · cases hok
      · split at hok
        · cases hok
        · split at hok
          · cases hok
          · split_ifs at hok with hempty
            · cases hok
            · obtain rfl := Option.some.inj (Except.ok.inj hok)
              exact ⟨rfl, hempty⟩

variable (figma) in
/-- The main component of an instance, if its lookup settles in time. -/
def mainComponent (node : ρ) : Option ρ :=
  (figma.getMainComponentAsync node).bind (settleOrSkip (figma.mainInTime node))

variable (figma) in
/-- The node of an id, if its lookup settles in time. -/
def nodeById (id : JsString) : Option ρ :=
  figma.getNodeByIdAsync.bind fun lookup => settleOrSkip (figma.nodeInTime id) (lookup id)

variable (figma) in
/-- `getNodeByIdAsync` finds the node with the id that it is given. -/
def FindsById : Prop :=
  ∀ lookup, figma.getNodeByIdAsync = some lookup → ∀ id node, lookup id = .found node →
    figma.id node = id

theorem content_relationship (hreads : figma.Readable) {instance_ : JsString × ρ} {main : ρ}
    (hmain : figma.mainComponent instance_.2 = some main) (hid : figma.id main ≠ []) :
    content figma.relationship instance_ = some ⟨instance_.1, figma.id main⟩ := by
  obtain ⟨lookup, hlookup, hsettles⟩ := Option.bind_eq_some_iff.1 hmain
  refine content_eq ?_
  rw [relationship]
  simp only [hreads.read_eq, Guard.ok_bind, hlookup, hsettles]
  rw [if_neg (show ¬ string (figma.get main "id") = [] from hid)]
  rfl

theorem id_of_nodeById (hfinds : figma.FindsById) {id : JsString} {node : ρ}
    (h : figma.nodeById id = some node) : figma.id node = id := by
  obtain ⟨lookup, hlookup, hsettles⟩ := Option.bind_eq_some_iff.1 h
  refine hfinds lookup hlookup id node ?_
  cases hsettled : lookup id with
  | found other =>
      rw [hsettled, settleOrSkip] at hsettles
      split_ifs at hsettles
      rw [Option.some.inj hsettles]
  | absent | failed =>
      rw [hsettled] at hsettles
      cases hsettles

section Read

variable [DecidableEq ρ] {height : ρ → ℕ} {clock : LookupClock} {selector : Option Selector}
  {r : GetComponentsResult}

/-- The components that the passes report, of those of the walk and of the ids that are left. -/
def reported (figma : ComponentFigma ρ) (components : List (JsString × ρ)) (ids : List JsString) :
    List ComponentDefinition :=
  (components.map Prod.snd).filterMap (content figma.serializeComponent) ++
    (ids.filterMap figma.nodeById).filterMap (content figma.serializeComponent)

/-- What a read gives, from what its walk has collected. -/
structure Reads (figma : ComponentFigma ρ) (components instances : List (JsString × ρ))
    (r : GetComponentsResult) : Prop where
  instances_sublist : r.instances.Sublist (instances.filterMap (content figma.relationship))
  components_sublist : ∃ related, r.components.Sublist
    (reported figma components (unresolvedIds (components.map Prod.fst) related))
  whole : r.truncated = false → r.instances = instances.filterMap (content figma.relationship) ∧
    r.components = reported figma components (unresolvedIds (components.map Prod.fst) r.instances)

theorem reads_of_getComponents (htree : figma.IsTree height)
    (hids : figma.OwnIds (figma.scope height selector))
    (h : figma.getComponents limits clock selector = .ok r) :
    ∃ seen, ((figma.scope height selector).take limits.visitedNodes).mapM figma.findComponent =
        .ok seen ∧
      Reads figma (Firsts.firsts Prod.fst (seen.filterMap FoundComponent.asComponent))
        (Firsts.firsts Prod.fst (seen.filterMap FoundComponent.asInstance)) r ∧
      (r.truncated = false → (figma.scope height selector).length ≤ limits.visitedNodes) := by
  obtain ⟨found, hfound, h⟩ := Guard.bind_eq_ok.1 h
  obtain ⟨⟨walk, truncation⟩, hread, h⟩ := Guard.bind_eq_ok.1 h
  obtain ⟨e₁, hcomponents, h⟩ := Guard.bind_eq_ok.1 h
  obtain ⟨⟨e₂, reading⟩, hinstances, h⟩ := Guard.bind_eq_ok.1 h
  obtain ⟨⟨e₃, last⟩, hresolved, h⟩ := Guard.bind_eq_ok.1 h
  obtain rfl := Except.ok.inj h
  rw [Figma.scope_eq hfound] at hids ⊢
  obtain ⟨⟨seen, hseen, rfl⟩, rfl⟩ := (ThrowingFigma.readForest_eq_ok htree hids).1 hread
  rw [components_foldl_collect] at hcomponents hresolved
  rw [instances_foldl_collect] at hinstances
  generalize hstart : (Option.map (mark {}) (if (figma.visibleNodes height found.roots).length ≤
    limits.visitedNodes then none else some (.nodeLimit limits.visitedNodes))).getD {} = e₀
    at hcomponents
  obtain ⟨hnoComponents, hnoInstances, hfits⟩ : e₀.components = [] ∧ e₀.instances = [] ∧
      (e₀.truncation = none →
        (figma.visibleNodes height found.roots).length ≤ limits.visitedNodes) := by
    subst hstart
    split_ifs with hfits
    · exact ⟨rfl, rfl, fun _ => hfits⟩
    · exact ⟨rfl, rfl, nofun⟩
  have hfirst := emitComponents_gained hcomponents
  have hsecond := lookupBatches_gained pushes_relationship le_rfl hinstances
  have hthird := lookupBatches_gained pushes_resolved le_rfl hresolved
  have hresolve : content figma.resolveNode = figma.nodeById := rfl
  rw [List.flatMap_eq_nil_iff.2 fun _ _ => rfl, List.flatMap_singleton'] at hsecond
  rw [hresolve, ← List.filterMap_eq_flatMap_toList, List.flatMap_eq_nil_iff.2 fun _ _ => rfl] at hthird
  have hall := hfirst.trans (hsecond.trans hthird)
  rw [List.nil_append, List.nil_append, List.append_nil] at hall
  obtain ⟨cs, hcs, hcomponents'⟩ := hall.components
  obtain ⟨is, his, hinstances'⟩ := hall.instances
  rw [hnoComponents, List.nil_append] at hcomponents'
  rw [hnoInstances, List.nil_append] at hinstances'
  refine ⟨seen, hseen, ⟨hinstances' ▸ his, ⟨_, hcomponents' ▸ hcs⟩, fun hwhole => ?_⟩, fun hwhole => ?_⟩
  · have hnone := Option.not_isSome_iff_eq_none.1 (Bool.eq_false_iff.1 hwhole)
    obtain ⟨_, hgained, hrelated⟩ := hall.whole hnone
    have hsame := (hthird.whole hnone).2.2
    rw [List.append_nil] at hsame
    rw [hnoComponents, List.nil_append] at hgained
    rw [hnoInstances, List.nil_append] at hrelated
    exact ⟨hrelated, hgained.trans (by rw [hsame]; rfl)⟩
  · exact hfits (hall.whole (Option.not_isSome_iff_eq_none.1 (Bool.eq_false_iff.1 hwhole))).1

omit [DecidableEq ρ] in
theorem mem_unresolvedIds {order : List JsString} {related : List InstanceRelationship} {id : JsString} :
    id ∈ unresolvedIds order related ↔
      id ∈ related.map (·.componentId) ∧ id ≠ [] ∧ id ∉ order := by
  rw [unresolvedIds, Firsts.mem_firsts_self, List.mem_filter, decide_eq_true_iff]

omit [DecidableEq ρ] in
/-- **No component is reported twice**: what is found by its id is not a component of the walk. -/
theorem Reads.nodup_components (hfinds : figma.FindsById) {components instances : List (JsString × ρ)}
    (h : Reads figma components instances r) (hkeys : (components.map Prod.fst).Nodup)
    (hids : ∀ p ∈ components, p.1 = figma.id p.2) : (r.components.map (·.id)).Nodup := by
  obtain ⟨related, hsublist⟩ := h.components_sublist
  have hunresolved : (unresolvedIds (components.map Prod.fst) related).Nodup :=
    Firsts.nodup_firsts_self
  refine List.Nodup.sublist ?_ (List.nodup_append.2 ⟨hkeys, hunresolved, ?_⟩)
  · refine (hsublist.map _).trans ?_
    rw [reported, List.map_append]
    refine List.Sublist.append ?_ ?_
    · rw [List.filterMap_map]
      refine Firsts.map_filterMap_sublist fun p hp component hcomponent => ?_
      exact (id_of_content hcomponent).trans (hids p hp).symm
    · rw [List.filterMap_filterMap]
      conv_rhs => rw [← List.map_id' (unresolvedIds _ _)]
      refine Firsts.map_filterMap_sublist fun id _ component hcomponent => ?_
      obtain ⟨node, hnode, hcomponent⟩ := Option.bind_eq_some_iff.1 hcomponent
      exact (id_of_content hcomponent).trans (id_of_nodeById hfinds hnode)
  · rintro id hid other hother rfl
    exact (mem_unresolvedIds.1 hother).2.2 hid

omit [DecidableEq ρ] in
theorem Reads.nodup_instances {components instances : List (JsString × ρ)}
    (h : Reads figma components instances r) (hkeys : (instances.map Prod.fst).Nodup) :
    (r.instances.map (·.instanceId)).Nodup := by
  refine hkeys.sublist ((h.instances_sublist.map _).trans ?_)
  exact Firsts.map_filterMap_sublist fun p _ relationship hrelationship =>
    (relationship_spec hrelationship).1

omit [DecidableEq ρ] in
/-- What is reported of a component of the walk, and of an id that is left. -/
theorem mem_reported (hreads : figma.Readable) {components : List (JsString × ρ)} {ids : List JsString}
    {node : ρ} (hid : figma.id node ≠ []) (hcomponent : figma.isComponent node = true)
    (h : node ∈ components.map Prod.snd ∨ ∃ id ∈ ids, figma.nodeById id = some node) :
    ∃ c ∈ reported figma components ids, c.id = figma.id node := by
  have ⟨c, hc⟩ := serializeComponent_isSome hreads hid hcomponent
  refine ⟨c, List.mem_append.2 ?_, id_of_content hc⟩
  rcases h with h | ⟨id, hmem, hnode⟩
  · exact Or.inl (List.mem_filterMap.2 ⟨node, h, hc⟩)
  · exact Or.inr (List.mem_filterMap.2 ⟨node, List.mem_filterMap.2 ⟨id, hmem, hnode⟩, hc⟩)

/-- **A read of components** lists no component and no instance twice. Where it is not truncated it
lists every component in scope, relates every instance in scope to the main component that is found
in time, and lists every related component that is found in time. -/
theorem getComponents_complete (htree : figma.IsTree height)
    (hids : figma.OwnIds (figma.scope height selector)) (hreads : figma.Readable)
    (hfinds : figma.FindsById) (h : figma.getComponents limits clock selector = .ok r) :
    (r.components.map (·.id)).Nodup ∧ (r.instances.map (·.instanceId)).Nodup ∧
      (r.truncated = false →
        (∀ node ∈ figma.scope height selector, figma.id node ≠ [] → figma.isComponent node = true →
          ∃ c ∈ r.components, c.id = figma.id node) ∧
        (∀ node ∈ figma.scope height selector, figma.id node ≠ [] →
          figma.isType node "INSTANCE" = true → ∀ main, figma.mainComponent node = some main →
            figma.id main ≠ [] → ⟨figma.id node, figma.id main⟩ ∈ r.instances) ∧
        ∀ relationship ∈ r.instances, ∀ node, figma.nodeById relationship.componentId = some node →
          figma.isComponent node = true → ∃ c ∈ r.components, c.id = relationship.componentId) := by
  obtain ⟨seen, hseen, hread, hfits⟩ := reads_of_getComponents htree hids h
  have hcomponents {p} := mem_of_mem_collected (p := p) (collects_components hreads) hseen
  have hinstances {p} := mem_of_mem_collected (p := p) (collects_instances hreads) hseen
  refine ⟨hread.nodup_components hfinds (Firsts.nodup_addAll List.nodup_nil) fun p hp =>
      (hcomponents hp).1, hread.nodup_instances (Firsts.nodup_addAll List.nodup_nil), fun hwhole => ?_⟩
  obtain ⟨hrelated, hreported⟩ := hread.whole hwhole
  rw [List.take_of_length_le (hfits hwhole)] at hseen
  refine ⟨fun node hnode hid hcomponent => ?_, fun node hnode hid hinstance main hmain hmainId => ?_,
    fun relationship hrelationship node hfound hcomponent => ?_⟩
  · obtain ⟨p, hp, hkey⟩ := exists_collected hreads (collects_components hreads) hseen hnode hid hcomponent
    obtain ⟨hfst, _, _, hcomponent'⟩ := hcomponents hp
    have hsame := hfst.symm.trans hkey
    rw [hreported, ← hsame]
    exact mem_reported hreads (hsame ▸ hid) hcomponent' (.inl (List.mem_map_of_mem hp))
  · obtain ⟨p, hp, hkey⟩ := exists_collected hreads (collects_instances hreads) hseen hnode hid hinstance
    obtain ⟨hfst, _, hp', _⟩ := hinstances hp
    have hsame : node = p.2 :=
      hids node hnode p.2 (List.mem_of_mem_take hp') (hkey.symm.trans hfst) hid
    rw [hrelated]
    refine List.mem_filterMap.2 ⟨p, hp, ?_⟩
    rw [← hkey]
    exact content_relationship hreads (hsame ▸ hmain) hmainId
  · have hnodeId := id_of_nodeById hfinds hfound
    obtain ⟨p, _, hrelationship'⟩ := List.mem_filterMap.1 (hrelated ▸ hrelationship)
    have hid : figma.id node ≠ [] := hnodeId ▸ (relationship_spec hrelationship').2
    rw [hreported, ← hnodeId]
    by_cases hwalked : relationship.componentId ∈
        (Firsts.firsts Prod.fst (seen.filterMap FoundComponent.asComponent)).map Prod.fst
    · obtain ⟨p, hp, hkey⟩ := List.mem_map.1 hwalked
      obtain ⟨hfst, hne, _, hcomponent'⟩ := hcomponents hp
      have hsame := hfst.symm.trans (hkey.trans hnodeId.symm)
      rw [← hsame]
      exact mem_reported hreads (hsame ▸ hid) hcomponent' (.inl (List.mem_map_of_mem hp))
    · refine mem_reported hreads hid hcomponent (.inr ⟨_, ?_, hfound⟩)
      exact mem_unresolvedIds.2 ⟨List.mem_map_of_mem hrelationship, hnodeId ▸ hid, hwalked⟩

end Read

/-- A frame with an instance of a component of a library. -/
def instanced : ComponentFigma ℕ where
  toFigma :=
    { Figma.framed with
      get := fun node key =>
        if key = "id" then .string (text (if node = 0 then "1:2" else if node = 1 then "1:3" else "9:9"))
        else if key = "type" then
          .string (text (if node = 0 then "FRAME" else if node = 1 then "INSTANCE"
            else if node = 2 then "PAGE" else "COMPONENT"))
        else .undefined
      children_length := Figma.framed_children_length
      get_units := fun node key s h => by
        split_ifs at h <;> exact JsValue.string.inj h ▸ Utf16.units_ofString _
      currentPage_isPage := by decide
      getNodeByIdAsync := some fun id =>
        if id = text "1:2" then .found 0 else if id = text "1:3" then .found 1
        else if id = text "9:9" then .found 3 else .absent }
  throws _ _ := false
  getMainComponentAsync node := if node = 1 then some (.found 3) else none
  mainInTime _ := true
  nodeInTime _ := true

theorem findsById_instanced : instanced.FindsById := by
  intro lookup hlookup id node hfound
  obtain rfl := Option.some.inj hlookup
  dsimp only at hfound
  split_ifs at hfound with hframe hinstance hlibrary
  · obtain rfl := Lookup.found.inj hfound
    exact hframe.symm
  · obtain rfl := Lookup.found.inj hfound
    exact hinstance.symm
  · obtain rfl := Lookup.found.inj hfound
    exact hlibrary.symm

theorem isTree_instanced : instanced.IsTree fun node => 1 - node := by
  intro node child hchild
  have hmem := (Host.mem_visibleChildren _).1 hchild |>.1
  simp only [instanced, Figma.framed] at hmem
  split_ifs at hmem with hnode
  · obtain rfl := List.mem_singleton.1 hmem
    rw [hnode]
    exact Nat.zero_lt_one
  · cases hmem

/-- The frame and the instance in it. -/
def frameAndInstance : Option Selector := some (.nodeIds [text "1:2", text "1:3"])

/-- The walk meets the instance twice. It is listed once, with its component. -/
theorem getComponents_complete_instanced :
    ∃ r, instanced.getComponents {} { now := fun _ => 0 } frameAndInstance = .ok r ∧
      instanced.scope (fun node => 1 - node) frameAndInstance = [0, 1, 1] ∧
      (r.instances.map (·.instanceId)).Nodup ∧ ⟨text "1:3", text "9:9"⟩ ∈ r.instances ∧
      ∃ c ∈ r.components, c.id = text "9:9" := by
  have hrun : ((instanced.getComponents {} { now := fun _ => 0 } frameAndInstance).toOption.map
      (·.truncated)) = some false := by decide +kernel
  obtain ⟨r, hr, hwhole⟩ := Option.map_eq_some_iff.1 hrun
  have hnodes : instanced.scope (fun node => 1 - node) frameAndInstance = [0, 1, 1] := by
    decide +kernel
  have hids : instanced.OwnIds (instanced.scope (fun node => 1 - node) frameAndInstance) := by
    rw [hnodes]
    unfold Host.OwnIds
    decide +kernel
  have hread := Guard.toOption_eq_some.1 hr
  obtain ⟨-, honce, hcomplete⟩ := getComponents_complete isTree_instanced hids (fun _ _ => rfl)
    findsById_instanced hread
  have hrelated := (hcomplete hwhole).2.1 1 (hnodes ▸ by decide) (by decide) (by decide) 3 rfl
    (by decide)
  exact ⟨r, hread, hnodes, honce, hrelated, (hcomplete hwhole).2.2 _ hrelated 3 rfl (by decide)⟩

end ComponentFigma

end FigmaDevMcp

import FigmaDevMcp.Broker.Release
import FigmaDevMcp.Broker.ToolCalls

set_option autoImplicit false

/-!
# Where callers stand

* `Holds`: where the caller of a request stands, and what the broker still has of the request;
* `Justified`: what a caller returns is the value of its own entry, or there is a reason for it;
* `CallsInv`, `step_callsInv`: every step keeps both.
-/

namespace FigmaDevMcp

variable {W : World}

namespace ToolCall

/-! ## What a caller can still find -/

/-- What holds of a request in each phase of its caller: until the cancel, its socket is the one
that its connection is routed to; after it, nothing of the request is left. -/
def Holds (b : BrokerState W) (r : W.RequestId) : Phase W → Prop
  | .idle => True
  | .opening c => ∀ s, (b.call r).socket? = some s → b.Bound c s
  | .opened c | .waiting c _ _ | .aborting c _ =>
    (b.call r).place.isSome = true ∧ ∀ s, (b.call r).socket? = some s → b.Bound c s
  | .cancelling s _ =>
    (b.call r).place.isSome = true ∧ (∀ u, (b.call r).socket? = some u → u = s ∨ b.Gone u) ∧
      (s, r) ∈ b.cancelRouted
  | .sending s _ => b.Released r ∧ (s, r) ∈ b.cancelSends
  | .returned _ => b.Released r

variable {b b' : BrokerState W} {e : BrokerEvent W} {r : W.RequestId} {p : Phase W}

theorem socket_of_step (hstep : b.step e = some b') (hroute : ∀ c, e ≠ .route r c) {s : W.SocketId}
    (h : (b'.call r).socket? = some s) : (b.call r).socket? = some s := by
  cases BrokerState.step_call hstep r with
  | same hcall => rw [← hcall, h]
  | routed c hevent _ _ => exact absurd hevent (hroute c)
  | moved u hfrom hto => rw [hfrom, hto s h]

theorem placed_of_step (hstep : b.step e = some b') (h : (b.call r).place.isSome = true) :
    (b'.call r).place.isSome = true := by
  rw [BrokerState.step_place hstep (Or.inr h)]
  exact h

/-- What holds of a request is kept by every step that its caller does not take itself. -/
theorem Holds.step (h : Holds b r p) (hinv : b.RouteInv) (hstep : b.step e = some b')
    (hfree : p = .idle ∨ ownStep e ≠ some r) : Holds b' r p := by
  rcases hfree with rfl | hfree
  · trivial
  have hroute : ∀ c, e ≠ .route r c := fun c hc => hfree (by rw [hc]; rfl)
  have hbound : ∀ {c}, (∀ s, (b.call r).socket? = some s → b.Bound c s) →
      ∀ s, (b'.call r).socket? = some s → b'.Bound c s := fun hb s hs =>
    BrokerState.step_bound hinv hstep (hb s (socket_of_step hstep hroute hs))
  cases p with
  | idle => trivial
  | opening c => exact hbound h
  | opened c => exact ⟨placed_of_step hstep h.1, hbound h.2⟩
  | waiting c d next => exact ⟨placed_of_step hstep h.1, hbound h.2⟩
  | aborting c d => exact ⟨placed_of_step hstep h.1, hbound h.2⟩
  | cancelling s d =>
      refine ⟨placed_of_step hstep h.1, fun u hu => ?_, ?_⟩
      · exact (h.2.1 u (socket_of_step hstep hroute hu)).imp_right (BrokerState.step_gone hstep)
      · refine (BrokerState.step_frame hstep).routed _ h.2.2 fun hevent => hfree ?_
        rw [hevent]
        rfl
  | sending s d =>
      refine ⟨BrokerState.step_released hstep hroute h.1, ?_⟩
      refine (BrokerState.step_frame hstep).sends _ h.2 fun hevent => hfree ?_
      rw [hevent]
      rfl
  | returned v => exact BrokerState.step_released hstep hroute h

/-! ### Progress is taken -/

section

variable {f : W.RequestId → Channel NormalizedProgress}

theorem gone_progress {s : W.SocketId} (h : b.Gone s) : { b with progress := f }.Gone s :=
  ⟨h.known, h.routes⟩

theorem released_progress (h : b.Released r) : { b with progress := f }.Released r :=
  ⟨h.halted, fun s => (h.entry s).imp_right gone_progress⟩

theorem holds_progress (h : Holds b r p) : Holds { b with progress := f } r p := by
  cases p with
  | idle => trivial
  | opening c => exact fun s hs => (h s hs).imp_right gone_progress
  | opened c => exact ⟨h.1, fun s hs => (h.2 s hs).imp_right gone_progress⟩
  | waiting c d next => exact ⟨h.1, fun s hs => (h.2 s hs).imp_right gone_progress⟩
  | aborting c d => exact ⟨h.1, fun s hs => (h.2 s hs).imp_right gone_progress⟩
  | cancelling s d => exact ⟨h.1, fun u hu => (h.2.1 u hu).imp_right gone_progress, h.2.2⟩
  | sending s d => exact ⟨released_progress h.1, h.2⟩
  | returned v => exact released_progress h

end

/-! ## What a caller returns -/

namespace Calls

/-- A deadline of the wait has passed. -/
def Late (t : Calls W) (r : W.RequestId) : Prop :=
  t.began r + inactivityTimeoutSecs * 1000 ≤ t.broker.now ∨ t.totalDeadline r ≤ t.broker.now

/-- The caller has given up. -/
def Reason (t : Calls W) (r : W.RequestId) (e : ToolError) : Prop :=
  (e = .new .cancelled false ∧ t.fired r = true) ∨ (e = .new .timeout true ∧ t.Late r)

/-- The value of the request's own entry, a reason to give up, or the failure of a request that was
never admitted. -/
inductive Answer (t : Calls W) (r : W.RequestId) : PendingResult W → Prop
  | settled (x : Settled W) (hx : x ∈ t.broker.resolved) (hkey : x.key.2 = r) : Answer t r x.result
  | gaveUp (e : ToolError) (he : t.Reason r e) : Answer t r (.error e)
  | refused (e : ToolError) (hnone : (t.broker.call r).socket? = none) : Answer t r (.error e)

/-- A phase in which a call gives up has its reason, and one in which it waits has its deadlines. -/
def Justified (t : Calls W) (r : W.RequestId) : Phase W → Prop
  | .waiting _ inactivity _ =>
    t.began r ≤ t.broker.now ∧ t.began r + inactivityTimeoutSecs * 1000 ≤ inactivity
  | .aborting _ e | .cancelling _ e | .sending _ e => t.Reason r e
  | .returned result => t.Answer r result
  | _ => True

/-- For the request `r`, the second state comes after the first. -/
structure Later (t t' : Calls W) (r : W.RequestId) : Prop where
  now : t.broker.now ≤ t'.broker.now
  resolved : ∀ x ∈ t.broker.resolved, x ∈ t'.broker.resolved
  fired : t.fired r = true → t'.fired r = true
  began : t'.began r = t.began r
  since : t'.since r = t.since r
  socket : (t.broker.call r).socket? = none → (t'.broker.call r).socket? = none

variable {t t' : Calls W}

theorem Reason.later {d : ToolError} (h : t.Reason r d) (hl : t.Later t' r) : t'.Reason r d := by
  rcases h with ⟨hd, hfired⟩ | ⟨hd, hlate | hlate⟩
  · exact Or.inl ⟨hd, hl.fired hfired⟩
  · refine Or.inr ⟨hd, Or.inl (le_trans ?_ hl.now)⟩
    rw [hl.began]
    exact hlate
  · refine Or.inr ⟨hd, Or.inr (le_trans ?_ hl.now)⟩
    unfold totalDeadline at hlate ⊢
    rw [hl.since]
    exact hlate

theorem Justified.later (h : t.Justified r p) (hl : t.Later t' r) : t'.Justified r p := by
  cases p with
  | waiting c d next =>
      show t'.began r ≤ t'.broker.now ∧ t'.began r + _ ≤ d
      rw [hl.began]
      exact ⟨h.1.trans hl.now, h.2⟩
  | aborting c d => exact Reason.later h hl
  | cancelling s d => exact Reason.later h hl
  | sending s d => exact Reason.later h hl
  | returned v =>
      change t.Answer r v at h
      cases h with
      | settled x hx hkey => exact Answer.settled x (hl.resolved x hx) hkey
      | gaveUp d hd => exact Answer.gaveUp d (hd.later hl)
      | refused d hnone => exact Answer.refused d (hl.socket hnone)
  | _ => trivial

theorem later_step {f : Calls W} (hf : f = { t with broker := b' })
    (hstep : t.broker.step e = some b') (hroute : ∀ c, e ≠ .route r c) : t.Later f r := by
  subst hf
  refine ⟨(BrokerState.step_frame hstep).now, fun x hx => ?_, id, rfl, rfl, fun hnone => ?_⟩
  · obtain ⟨out, hout⟩ := BrokerState.step_resolved_prefix hstep
    show x ∈ b'.resolved
    rw [hout]
    exact List.mem_append_left out hx
  · refine Option.eq_none_iff_forall_ne_some.2 fun s hs => ?_
    rw [socket_of_step hstep hroute hs] at hnone
    cases hnone

/-! ## The invariant -/

/-- What holds between the calls and the broker in every state of a run. -/
structure CallsInv (t : Calls W) : Prop where
  pending : t.broker.PendingInv
  routes : t.broker.RouteInv
  holds : ∀ r, Holds t.broker r (t.phase r)
  mapped : ∀ r v, t.mapped r = some v → ∃ x ∈ t.broker.resolved, x.key.2 = r ∧ x.result = v
  justified : ∀ r, t.Justified r (t.phase r)

theorem callsInv_init : CallsInv (init : Calls W) := by
  refine ⟨BrokerState.pendingInv_init, BrokerState.routeInv_init, fun _ => trivial, fun r v h => ?_,
    fun _ => trivial⟩
  cases h

theorem phase_setPhase (t : Calls W) (q r : W.RequestId) (p : Phase W) :
    (t.setPhase q p).phase r = if r = q then p else t.phase r := Function.update_apply _ _ _ _

/-- The caller of one request goes on by itself. -/
theorem CallsInv.setPhase (h : CallsInv t) {q : W.RequestId} (hholds : Holds t.broker q p)
    (hjustified : t.Justified q p) : CallsInv (t.setPhase q p) := by
  refine ⟨h.pending, h.routes, fun r => ?_, h.mapped, fun r => ?_⟩
  · rw [phase_setPhase]
    split_ifs with hr
    · exact hr ▸ hholds
    · exact h.holds r
  · rw [phase_setPhase]
    have hl : t.Later (t.setPhase q p) r := ⟨le_rfl, fun _ hx => hx, id, rfl, rfl, id⟩
    split_ifs with hr
    · subst hr
      exact hjustified.later hl
    · exact (h.justified r).later hl

theorem CallsInv.kept (h : CallsInv t) (hstep : t.broker.step e = some b')
    (hfree : t.phase r = .idle ∨ ownStep e ≠ some r) :
    Holds b' r (t.phase r) ∧ ({ t with broker := b' } : Calls W).Justified r (t.phase r) := by
  refine ⟨(h.holds r).step h.routes hstep hfree, ?_⟩
  rcases hfree with hidle | hfree
  · rw [hidle]
    trivial
  · exact (h.justified r).later (later_step rfl hstep fun c hc => hfree (by rw [hc]; rfl))

theorem CallsInv.mapped_step (h : CallsInv t) (hstep : t.broker.step e = some b')
    {v : PendingResult W} (hv : t.mapped r = some v) :
    ∃ x ∈ b'.resolved, x.key.2 = r ∧ x.result = v := by
  obtain ⟨x, hx, hkey⟩ := h.mapped r v hv
  obtain ⟨out, hout⟩ := BrokerState.step_resolved_prefix hstep
  rw [hout]
  exact ⟨x, List.mem_append_left out hx, hkey⟩

/-- The broker goes on without the callers. -/
theorem CallsInv.move (h : CallsInv t) (hstep : t.broker.step e = some b')
    (hfree : ∀ r, t.phase r = .idle ∨ ownStep e ≠ some r) :
    CallsInv ({ t with broker := b' } : Calls W) :=
  ⟨BrokerState.step_pendingInv _ _ _ hstep h.pending, BrokerState.step_routeInv hstep h.routes,
    fun r => (h.kept hstep (hfree r)).1, fun _ _ hv => h.mapped_step hstep hv,
    fun r => (h.kept hstep (hfree r)).2⟩

/-- The broker goes on, and the caller of one request with it. -/
theorem CallsInv.through (h : CallsInv t) (hstep : t.broker.step e = some b') {q : W.RequestId}
    (hown : ∀ r, r ≠ q → t.phase r = .idle ∨ ownStep e ≠ some r) (hholds : Holds b' q p)
    (hjustified : ({ t with broker := b' } : Calls W).Justified q p) :
    CallsInv (({ t with broker := b' } : Calls W).setPhase q p) := by
  refine ⟨BrokerState.step_pendingInv _ _ _ hstep h.pending,
    BrokerState.step_routeInv hstep h.routes, fun r => ?_,
    fun _ _ hv => h.mapped_step hstep hv, fun r => ?_⟩
  · rw [phase_setPhase]
    split_ifs with hr
    · exact hr ▸ hholds
    · exact (h.kept hstep (hown r hr)).1
  · rw [phase_setPhase]
    have hl : ({ t with broker := b' } : Calls W).Later
        (({ t with broker := b' } : Calls W).setPhase q p) r :=
      ⟨le_rfl, fun _ hx => hx, id, rfl, rfl, id⟩
    split_ifs with hr
    · subst hr
      exact hjustified.later hl
    · exact (h.kept hstep (hown r hr)).2.later hl

end Calls

/-! ## Every step -/

theorem released_of_none (hp : b.PendingInv) (h : (b.call r).socket? = none) : b.Released r := by
  refine ⟨Or.inl h, fun s => Or.inl (Option.eq_none_iff_forall_ne_some.2 fun q hq => ?_)⟩
  obtain ⟨t, -, ht⟩ := (hp.entry (s, r) q hq).ticket
  rw [CallPhase.socket_of_place ht] at h
  cases h

/-- A placed request is released when its entry can only be where `P` says. -/
theorem released_of_place (hp : b.PendingInv) (hplace : (b.call r).place.isSome = true)
    (h : ∀ s, (b.call r).socket? = some s → b.pending.lookup (s, r) = none ∨ b.Gone s) :
    b.Released r := by
  refine ⟨Or.inr hplace, fun s => ?_⟩
  cases hentry : b.pending.lookup (s, r) with
  | none => exact Or.inl rfl
  | some q =>
      obtain ⟨t, -, ht⟩ := (hp.entry (s, r) q hentry).ticket
      have hs := h s (CallPhase.socket_of_place ht)
      rw [hentry] at hs
      exact hs

/-- The entry is taken out, and the plugin is owed a message where there was one. -/
theorem cancelPending_spec {s : W.SocketId} (h : b.step (.cancelPending s r) = some b') :
    b'.pending.lookup (s, r) = none ∧
      (b.pending.contains s r = true → (s, r) ∈ b'.cancelSends) := by
  simp only [BrokerState.step, BrokerState.cancelPending] at h
  split_ifs at h
  unfold PendingMap.contains
  cases hentry : b.pending.lookup (s, r) with
  | none =>
      rw [PendingMap.cancel, PendingMap.complete_eq_none hentry] at h
      cases h
      exact ⟨hentry, fun hsome => absurd hsome (by simp)⟩
  | some q =>
      cases hcancel : b.pending.cancel s r with
      | none =>
          rw [hcancel] at h
          cases h
          unfold PendingMap.cancel PendingMap.complete at hcancel
          rw [hentry] at hcancel
          cases hcancel
      | some out =>
          rw [hcancel] at h
          cases h
          obtain ⟨-, -, -, hlookup⟩ := PendingMap.complete_eq_some hcancel
          refine ⟨?_, fun _ => List.mem_cons_self⟩
          show out.2.lookup (s, r) = none
          rw [hlookup, if_pos rfl]

namespace Calls

variable {t t' : Calls W} {e : BrokerEvent W}

theorem CallsInv.stamp {since began : W.RequestId → ℕ} (h : CallsInv t)
    (hsince : ∀ q, q ≠ r → since q = t.since q) (hbegan : ∀ q, q ≠ r → began q = t.began q)
    (htrivial : ∀ f : Calls W, f.Justified r (t.phase r)) :
    CallsInv { t with since := since, began := began } := by
  refine ⟨h.pending, h.routes, h.holds, h.mapped, fun q => ?_⟩
  by_cases hq : q = r
  · subst hq
    exact htrivial _
  · exact (h.justified q).later ⟨le_rfl, fun _ hx => hx, id, hbegan q hq, hsince q hq, id⟩

theorem CallsInv.progress {f : W.RequestId → Channel NormalizedProgress} (h : CallsInv t) :
    CallsInv { t with broker := { t.broker with progress := f } } := by
  refine ⟨⟨h.pending.ledger, fun k _ hq => ?_⟩, ⟨h.routes.paired, h.routes.known⟩,
    fun r => holds_progress (h.holds r), h.mapped, fun r => ?_⟩
  · obtain ⟨hs, hr, hp, ht⟩ := h.pending.entry k _ hq
    exact ⟨hs, hr, hp, ht⟩
  · exact (h.justified r).later ⟨le_rfl, fun _ hx => hx, id, rfl, rfl, id⟩

theorem free_of_own (h : ownStep e = some r) :
    ∀ q, q ≠ r → t.phase q = .idle ∨ ownStep e ≠ some q :=
  fun _ hq => Or.inr fun hown => hq (Option.some.inj (hown.symm.trans h))

/-- The caller has a value, of its own entry. -/
theorem CallsInv.released_of_mapped (h : CallsInv t)
    (hplace : (t.broker.call r).place.isSome = true) {v : PendingResult W}
    (hv : t.mapped r = some v) : t.broker.Released r := by
  obtain ⟨x, hx, rfl, -⟩ := h.mapped r v hv
  refine ⟨Or.inr hplace, fun s => Or.inl (Option.eq_none_iff_forall_ne_some.2 fun q hq => ?_)⟩
  have hlive : t.broker.ledger.live s x.key.2 := by
    show (t.broker.pending.lookup (s, x.key.2)).isSome = true
    rw [hq]
    rfl
  refine h.pending.ledger.notMem_settled hlive (List.mem_map.2 ⟨x.key, ?_, rfl⟩)
  exact List.mem_map_of_mem hx

theorem CallsInv.other_step (h : CallsInv t) (hstep : t.other e = some t') : CallsInv t' := by
  simp only [other] at hstep
  split_ifs at hstep with hfree
  obtain ⟨b, hb, rfl⟩ := Option.map_eq_some_iff.mp hstep
  refine h.move hb fun r => ?_
  cases hown : ownStep e with
  | none => exact Or.inr (by simp)
  | some q =>
      rw [hown] at hfree
      by_cases hr : q = r
      · subst hr
        left
        cases hq : t.phase q with
        | idle => rfl
        | _ =>
            dsimp only at hfree
            rw [hq] at hfree
            cases hfree
      · exact Or.inr fun heq => hr (Option.some.inj heq)

theorem CallsInv.deliver_step (h : CallsInv t) (hstep : t.deliver r = some t') : CallsInv t' := by
  obtain ⟨x, hx, rfl⟩ := Option.map_eq_some_iff.mp hstep
  refine ⟨h.pending, h.routes, h.holds, fun q v hv => ?_, fun q => (h.justified q).later ?_⟩
  · change Function.update t.mapped r (some x.result) q = some v at hv
    rw [Function.update_apply] at hv
    split_ifs at hv with hq
    · subst hq
      refine ⟨x, List.mem_of_find?_eq_some hx, ?_, Option.some.inj hv⟩
      simpa using List.find?_some hx
    · exact h.mapped q v hv
  · exact ⟨le_rfl, fun _ hy => hy, id, rfl, rfl, id⟩

theorem CallsInv.resolve_step {c : Option W.ConnectionId} (h : CallsInv t)
    (hstep : t.resolve r c = some t') : CallsInv t' := by
  unfold resolve at hstep
  split at hstep <;> cases hstep
  rename_i hcall
  have hnone : (t.broker.call r).socket? = none := by rw [hcall]; rfl
  have hreleased := released_of_none h.pending hnone
  unfold target
  cases t.broker.registry.select c with
  | one session =>
      refine h.setPhase (fun s hs => ?_) trivial
      rw [hnone] at hs
      cases hs
  | none => exact h.setPhase hreleased (Answer.refused _ hnone)
  | ambiguous => exact h.setPhase hreleased (Answer.refused _ hnone)
  | missing => exact h.setPhase hreleased (Answer.refused _ hnone)

theorem CallsInv.route_step (h : CallsInv t) (hstep : t.route r = some t') : CallsInv t' := by
  unfold route at hstep
  split at hstep
  · rename_i c hphase
    obtain ⟨b, hb, rfl⟩ := Option.map_eq_some_iff.mp hstep
    have hold := h.holds r
    rw [hphase] at hold
    refine h.through hb (free_of_own rfl) (fun s hs => ?_) trivial
    refine BrokerState.step_bound h.routes hb ?_
    cases BrokerState.step_call hb r with
    | same hcall => exact hold s (by rw [← hcall, hs])
    | routed d hevent _ hto =>
        cases hevent
        exact Or.inl (hto s hs)
    | moved u hfrom hto => exact hold s (by rw [hfrom, hto s hs])
  · cases hstep

theorem CallsInv.admitRequest_step (h : CallsInv t) (hstep : t.admitRequest r = some t') :
    CallsInv t' := by
  unfold admitRequest at hstep
  split at hstep
  · rename_i c s u since hphase hcall
    obtain ⟨b, hb, rfl⟩ := Option.map_eq_some_iff.mp hstep
    have hstamp : CallsInv { t with since := Function.update t.since r since } := by
      refine h.stamp (fun q hq => Function.update_of_ne hq _ _) (fun _ _ => rfl) fun f => ?_
      rw [hphase]
      trivial
    have hold := h.holds r
    rw [hphase] at hold
    have hbound : ∀ s, (b.call r).socket? = some s → b.Bound c s := fun s hs =>
      BrokerState.step_bound h.routes hb
        (hold s (socket_of_step hb (fun d hd => by cases hd) hs))
    refine hstamp.through hb (free_of_own rfl) ?_ ?_
    · dsimp only
      split_ifs with hplace
      · exact ⟨hplace, hbound⟩
      · exact hbound
    · dsimp only
      split_ifs <;> trivial
  · cases hstep

theorem CallsInv.refused_step (h : CallsInv t) (hstep : t.refused r = some t') : CallsInv t' := by
  unfold refused at hstep
  split at hstep <;> cases hstep
  rename_i hcall
  have hnone : (t.broker.call r).socket? = none := by rw [hcall]; rfl
  exact h.setPhase (released_of_none h.pending hnone) (Answer.refused _ hnone)

theorem CallsInv.wait_step (h : CallsInv t) (hstep : t.wait r = some t') : CallsInv t' := by
  unfold wait at hstep
  split at hstep <;> cases hstep
  rename_i c hphase
  have hold := h.holds r
  rw [hphase] at hold
  have hstamp : CallsInv { t with began := Function.update t.began r t.broker.now } := by
    refine h.stamp (fun _ _ => rfl) (fun q hq => Function.update_of_ne hq _ _) fun f => ?_
    rw [hphase]
    trivial
  have hbegan : Function.update t.began r t.broker.now r = t.broker.now :=
    Function.update_self _ _ _
  exact hstamp.setPhase hold ⟨hbegan.le, Nat.add_le_add_right hbegan.le _⟩

/-- A caller that polls on stands where it did. -/
theorem CallsInv.polled (h : CallsInv t) {c : W.ConnectionId} {inactivity : ℕ} {branch : Branch}
    (hphase : t.phase r = .waiting c inactivity branch) (next : Branch) :
    CallsInv (t.setPhase r (.waiting c inactivity next)) := by
  have hold := h.holds r
  have hjust := h.justified r
  rw [hphase] at hold hjust
  exact h.setPhase hold hjust

theorem CallsInv.poll_step (h : CallsInv t) (hstep : t.poll r = some t') : CallsInv t' := by
  have hold := h.holds r
  have hjust := h.justified r
  unfold poll at hstep
  split at hstep
  · rename_i c inactivity hphase
    rw [hphase] at hold
    cases hv : t.mapped r with
    | some v =>
        rw [hv] at hstep
        cases hstep
        obtain ⟨x, hx, hkey, hvalue⟩ := h.mapped r v hv
        exact h.setPhase (h.released_of_mapped hold.1 hv) (hvalue ▸ Answer.settled x hx hkey)
    | none =>
        rw [hv] at hstep
        cases hstep
        exact h.polled hphase .progress
  · rename_i c inactivity hphase
    rw [hphase] at hold hjust
    cases hrecv : (t.broker.progress r).recv with
    | some taken =>
        rw [hrecv] at hstep
        cases hstep
        exact h.progress.setPhase (holds_progress hold) ⟨hjust.1, Nat.add_le_add_right hjust.1 _⟩
    | none =>
        rw [hrecv] at hstep
        cases hstep
        exact h.polled hphase _
  · rename_i c inactivity hphase
    rw [hphase] at hold
    split_ifs at hstep with hfired
    · cases hstep
      exact h.setPhase hold (Or.inl ⟨rfl, hfired⟩)
    · cases hstep
      exact h.polled hphase .inactivity
  · rename_i c inactivity hphase
    rw [hphase] at hold hjust
    split_ifs at hstep with hlate
    · cases hstep
      exact h.setPhase hold (Or.inr ⟨rfl, Or.inl (hjust.2.trans hlate)⟩)
    · cases hstep
      exact h.polled hphase .total
  · rename_i c inactivity hphase
    rw [hphase] at hold
    split_ifs at hstep with hlate
    · cases hstep
      exact h.setPhase hold (Or.inr ⟨rfl, Or.inr hlate⟩)
    · cases hstep
      exact h.polled hphase .result
  · cases hstep

theorem CallsInv.cancelRoute_step (h : CallsInv t) (hstep : t.cancelRoute r = some t') :
    CallsInv t' := by
  unfold cancelRoute at hstep
  split at hstep
  · rename_i c d hphase
    have hold := h.holds r
    have hjust := h.justified r
    rw [hphase] at hold hjust
    cases hroute : t.broker.registry.routeFor c with
    | none =>
        rw [hroute] at hstep
        cases hstep
        refine h.setPhase (released_of_place h.pending hold.1 fun s hs => ?_)
          (Answer.gaveUp d hjust)
        rcases hold.2 s hs with hbound | hgone
        · rw [hroute] at hbound
          cases hbound
        · exact Or.inr hgone
    | some s =>
        rw [hroute] at hstep
        obtain ⟨b, hb, rfl⟩ := Option.map_eq_some_iff.mp hstep
        refine h.through hb (free_of_own rfl) ⟨placed_of_step hb hold.1, fun u hu => ?_, ?_⟩ ?_
        · rcases hold.2 u (socket_of_step hb (fun d hd => by cases hd) hu) with hbound | hgone
          · rw [hroute] at hbound
            exact Or.inl (Option.some.inj hbound).symm
          · exact Or.inr (BrokerState.step_gone hb hgone)
        · simp only [BrokerState.step, BrokerState.cancelRoute, hroute] at hb
          cases hb
          exact List.mem_cons_self
        · exact Reason.later hjust (later_step rfl hb fun d hd => by cases hd)
  · cases hstep

theorem CallsInv.cancelPending_step (h : CallsInv t) (hstep : t.cancelPending r = some t') :
    CallsInv t' := by
  unfold cancelPending at hstep
  split at hstep
  · rename_i s d hphase
    obtain ⟨b, hb, rfl⟩ := Option.map_eq_some_iff.mp hstep
    have hold := h.holds r
    have hjust := h.justified r
    rw [hphase] at hold hjust
    obtain ⟨hnone, hsends⟩ := cancelPending_spec hb
    have hpending := BrokerState.step_pendingInv _ _ _ hb h.pending
    have hreleased : b.Released r := by
      refine released_of_place hpending (placed_of_step hb hold.1) fun u hu => ?_
      rcases hold.2.1 u (socket_of_step hb (fun d hd => by cases hd) hu) with rfl | hgone
      · exact Or.inl hnone
      · exact Or.inr (BrokerState.step_gone hb hgone)
    have hreason := Reason.later hjust (later_step rfl hb fun d hd => by cases hd)
    refine h.through hb (free_of_own rfl) ?_ ?_
    · split_ifs with hcontains
      · exact ⟨hreleased, hsends hcontains⟩
      · exact hreleased
    · split_ifs
      · exact hreason
      · exact Answer.gaveUp d hreason
  · cases hstep

theorem CallsInv.cancelSend_step (h : CallsInv t) (hstep : t.cancelSend r = some t') :
    CallsInv t' := by
  unfold cancelSend at hstep
  split at hstep
  · rename_i s d hphase
    obtain ⟨b, hb, rfl⟩ := Option.map_eq_some_iff.mp hstep
    have hold := h.holds r
    have hjust := h.justified r
    rw [hphase] at hold hjust
    refine h.through hb (free_of_own rfl) ?_ (Answer.gaveUp d ?_)
    · exact BrokerState.step_released hb (fun d hd => by cases hd) hold.1
    · exact Reason.later hjust (later_step rfl hb fun d hd => by cases hd)
  · cases hstep

theorem step_callsInv (t : Calls W) (e : CallEvent W) (t' : Calls W) (hstep : t.step e = some t')
    (h : CallsInv t) : CallsInv t' := by
  cases e with
  | broker e => exact h.other_step hstep
  | fire r =>
      cases hstep
      refine ⟨h.pending, h.routes, h.holds, h.mapped, fun q => (h.justified q).later ?_⟩
      refine ⟨le_rfl, fun _ hx => hx, fun hq => ?_, rfl, rfl, id⟩
      show Function.update t.fired r true q = true
      rw [Function.update_apply]
      split_ifs
      · rfl
      · exact hq
  | deliver r => exact h.deliver_step hstep
  | resolve r c => exact h.resolve_step hstep
  | route r => exact h.route_step hstep
  | admitRequest r => exact h.admitRequest_step hstep
  | refused r => exact h.refused_step hstep
  | wait r => exact h.wait_step hstep
  | poll r => exact h.poll_step hstep
  | cancelRoute r => exact h.cancelRoute_step hstep
  | cancelPending r => exact h.cancelPending_step hstep
  | cancelSend r => exact h.cancelSend_step hstep

theorem callsInv_of_reachable (h : Exec.Reachable step init t) : CallsInv t :=
  h.rec_inv callsInv_init step_callsInv

end Calls

end ToolCall

end FigmaDevMcp

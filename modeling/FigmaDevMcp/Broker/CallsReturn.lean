import FigmaDevMcp.Broker.CallsInvariant

set_option autoImplicit false

/-!
# Calls return

* `returns_of_settled`: a caller whose entry is settled gets its value, or has given up before;
* `returns_of_givesUp`: a caller with a reason to give up finds it;
* **`calls_return`**: a caller leaves nothing of its request behind, and one whose call ends gets to
  return.
-/

namespace FigmaDevMcp

variable {W : World}

namespace ToolCall

namespace Calls

variable {t t' : Calls W} {r : W.RequestId}

/-- The caller of the request takes the step, or the task that passes its result on. -/
def Serves (r : W.RequestId) (f : CallEvent W) : Prop := f.caller = some r ∨ f = .deliver r

/-- Steps that serve the caller bring it out of the call. -/
def Returns (t : Calls W) (r : W.RequestId) : Prop :=
  ∃ es t' v, (∀ f ∈ es, Serves r f) ∧ Exec.exec step t es = some t' ∧ t'.phase r = .returned v

theorem Returns.of_step {f : CallEvent W} (hstep : t.step f = some t') (hserves : Serves r f)
    (h : t'.Returns r) : t.Returns r := by
  obtain ⟨es, u, v, hes, hrun, hv⟩ := h
  have hown : ∀ g ∈ f :: es, Serves r g := List.forall_mem_cons.2 ⟨hserves, hes⟩
  exact ⟨f :: es, u, v, hown, Exec.exec_cons_eq_some.2 ⟨t', hstep, hrun⟩, hv⟩

theorem Returns.of_phase {v : PendingResult W} (h : t.phase r = .returned v) : t.Returns r :=
  ⟨[], t, v, List.forall_mem_nil _, rfl, h⟩

theorem returns_of_sending {s : W.SocketId} {d : ToolError} (hphase : t.phase r = .sending s d)
    (hsend : (s, r) ∈ t.broker.cancelSends) : t.Returns r := by
  obtain ⟨b, hb⟩ : ∃ b, t.broker.step (.cancelSend s r) = some b := ⟨_, if_pos hsend⟩
  have hstep : t.step (.cancelSend r) =
      some (({ t with broker := b } : Calls W).setPhase r (.returned (.error d))) := by
    simp only [step, cancelSend, hphase, through, hb]
    rfl
  refine Returns.of_step hstep (Or.inl rfl) (Returns.of_phase (v := .error d) ?_)
  rw [phase_setPhase, if_pos rfl]

theorem returns_of_cancelling {s : W.SocketId} {d : ToolError}
    (hphase : t.phase r = .cancelling s d) (hrouted : (s, r) ∈ t.broker.cancelRouted)
    (hdropping : t.broker.dropping = []) : t.Returns r := by
  have henabled : ∃ b, t.broker.step (.cancelPending s r) = some b := by
    simp only [BrokerState.step, BrokerState.cancelPending, if_pos (And.intro hrouted hdropping)]
    split <;> exact ⟨_, rfl⟩
  obtain ⟨b, hb⟩ := henabled
  have hstep : t.step (.cancelPending r) = some (({ t with broker := b } : Calls W).setPhase r
      (if t.broker.pending.contains s r then .sending s d else .returned (.error d))) := by
    simp only [step, cancelPending, hphase, through, hb]
    rfl
  refine Returns.of_step hstep (Or.inl rfl) ?_
  split_ifs with hcontains
  · refine returns_of_sending (s := s) (d := d) ?_ ((cancelPending_spec hb).2 hcontains)
    rw [phase_setPhase, if_pos rfl]
  · refine Returns.of_phase (v := .error d) ?_
    rw [phase_setPhase, if_pos rfl]

theorem returns_of_aborting {c : W.ConnectionId} {d : ToolError}
    (hphase : t.phase r = .aborting c d) (hdropping : t.broker.dropping = []) : t.Returns r := by
  cases hroute : t.broker.registry.routeFor c with
  | none =>
      have hstep : t.step (.cancelRoute r) = some (t.setPhase r (.returned (.error d))) := by
        simp only [step, cancelRoute, hphase, hroute]
      refine Returns.of_step hstep (Or.inl rfl) (Returns.of_phase (v := .error d) ?_)
      rw [phase_setPhase, if_pos rfl]
  | some s =>
      have hb : t.broker.step (.cancelRoute c r) =
          some { t.broker with cancelRouted := (s, r) :: t.broker.cancelRouted } := by
        simp only [BrokerState.step, BrokerState.cancelRoute, hroute]
      have hstep : t.step (.cancelRoute r) = some (({ t with
          broker := { t.broker with cancelRouted := (s, r) :: t.broker.cancelRouted } } :
            Calls W).setPhase r (.cancelling s d)) := by
        simp only [step, cancelRoute, hphase, hroute, through, hb]
        rfl
      refine Returns.of_step hstep (Or.inl rfl)
        (returns_of_cancelling (s := s) (d := d) ?_ ?_ hdropping)
      · rw [phase_setPhase, if_pos rfl]
      · exact List.mem_cons_self

/-! ### Polling on -/

section

variable {c : W.ConnectionId} {inactivity : ℕ}

/-- The caller is about to poll a branch. -/
def pollsAt (t : Calls W) (r : W.RequestId) (c : W.ConnectionId) (inactivity : ℕ)
    (branch : Branch) : Calls W :=
  t.setPhase r (.waiting c inactivity branch)

theorem phase_pollsAt (branch : Branch) :
    (t.pollsAt r c inactivity branch).phase r = .waiting c inactivity branch := by
  rw [pollsAt, phase_setPhase, if_pos rfl]

theorem setPhase_setPhase (p q : Phase W) : (t.setPhase r p).setPhase r q = t.setPhase r q := by
  unfold setPhase
  simp only [Function.update_idem]

theorem eq_pollsAt {branch : Branch} (h : t.phase r = .waiting c inactivity branch) :
    t = t.pollsAt r c inactivity branch := by
  unfold pollsAt setPhase
  rw [← h, Function.update_eq_self]

/-- A poll that leads to another one, or out of the loop. -/
theorem Returns.of_poll {branch : Branch} {p : Phase W}
    (hpoll : (t.pollsAt r c inactivity branch).poll r =
      some ((t.pollsAt r c inactivity branch).setPhase r p))
    (h : (t.setPhase r p).Returns r) : (t.pollsAt r c inactivity branch).Returns r := by
  refine Returns.of_step (f := .poll r) hpoll (Or.inl rfl) ?_
  rw [pollsAt, setPhase_setPhase]
  exact h

theorem step_of_frame {m : NormalizedProgress} {channel : Channel NormalizedProgress}
    (hrecv : (t.broker.progress r).recv = some (m, channel)) :
    (t.pollsAt r c inactivity .progress).step (.poll r) =
      some (({ t with broker := { t.broker with
        progress := Function.update t.broker.progress r channel } } : Calls W).pollsAt r c
          t.inactivityDeadline .result) := by
  simp only [step, poll, phase_pollsAt]
  rw [show ((t.pollsAt r c inactivity .progress).broker.progress r).recv = some (m, channel)
    from hrecv]
  exact congrArg some (setPhase_setPhase (t := { t with broker := { t.broker with
    progress := Function.update t.broker.progress r channel } }) _ _)

theorem poll_of_empty (hrecv : (t.broker.progress r).recv = none) :
    (t.pollsAt r c inactivity .progress).poll r =
      some ((t.pollsAt r c inactivity .progress).setPhase r
        (.waiting c inactivity (if t.progressClosed r then .result else .cancelled))) := by
  simp only [poll, phase_pollsAt]
  rw [show ((t.pollsAt r c inactivity .progress).broker.progress r).recv = none from hrecv]
  rfl

theorem returns_of_givenUp {d : ToolError} (hdropping : t.broker.dropping = []) :
    (t.setPhase r (.aborting c d)).Returns r := by
  refine returns_of_aborting (c := c) (d := d) ?_ hdropping
  rw [phase_setPhase, if_pos rfl]

/-- The value is passed on first, where it is there. -/
theorem returns_of_mapped {v : PendingResult W} (hv : t.mapped r = some v) :
    (t.pollsAt r c inactivity .result).Returns r := by
  refine Returns.of_poll (p := .returned v) ?_ (Returns.of_phase (v := v) ?_)
  · simp only [poll, phase_pollsAt]
    rw [show (t.pollsAt r c inactivity .result).mapped r = some v from hv]
  · rw [phase_setPhase, if_pos rfl]

/-- The branches behind `progress` lead back to the first, or out of the loop. -/
theorem returns_behind (hdropping : t.broker.dropping = [])
    (h : (t.pollsAt r c inactivity .result).Returns r) {branch : Branch}
    (hbranch : branch ≠ .progress) : (t.pollsAt r c inactivity branch).Returns r := by
  have htotal : (t.pollsAt r c inactivity .total).Returns r := by
    by_cases hlate : (t.pollsAt r c inactivity .total).totalDeadline r ≤ t.broker.now
    · refine Returns.of_poll (p := .aborting c (.new .timeout true)) ?_ (returns_of_givenUp hdropping)
      simp only [poll, phase_pollsAt]
      exact if_pos hlate
    · refine Returns.of_poll (p := .waiting c inactivity .result) ?_ h
      simp only [poll, phase_pollsAt]
      exact if_neg hlate
  have hinactivity : (t.pollsAt r c inactivity .inactivity).Returns r := by
    by_cases hlate : inactivity ≤ t.broker.now
    · refine Returns.of_poll (p := .aborting c (.new .timeout true)) ?_ (returns_of_givenUp hdropping)
      simp only [poll, phase_pollsAt]
      exact if_pos hlate
    · refine Returns.of_poll (p := .waiting c inactivity .total) ?_ htotal
      simp only [poll, phase_pollsAt]
      exact if_neg hlate
  cases branch with
  | result => exact h
  | progress => exact absurd rfl hbranch
  | cancelled =>
      by_cases hfired : t.fired r = true
      · refine Returns.of_poll (p := .aborting c (.new .cancelled false)) ?_
          (returns_of_givenUp hdropping)
        simp only [poll, phase_pollsAt]
        exact if_pos hfired
      · refine Returns.of_poll (p := .waiting c inactivity .inactivity) ?_ hinactivity
        simp only [poll, phase_pollsAt]
        exact if_neg hfired
  | inactivity => exact hinactivity
  | total => exact htotal

/-- A caller whose value has been passed on gets it, or has given up before. -/
theorem returns_of_value (hdropping : t.broker.dropping = []) {v : PendingResult W}
    (hv : t.mapped r = some v) (branch : Branch) : (t.pollsAt r c inactivity branch).Returns r := by
  by_cases hbranch : branch = .progress
  · subst hbranch
    cases hrecv : (t.broker.progress r).recv with
    | some taken =>
        obtain ⟨m, channel⟩ := taken
        let u : Calls W := { t with
          broker := { t.broker with progress := Function.update t.broker.progress r channel } }
        refine Returns.of_step (step_of_frame hrecv) (Or.inl rfl) (returns_of_mapped (t := u) hv)
    | none =>
        refine Returns.of_poll (poll_of_empty hrecv) ?_
        split_ifs
        · exact returns_of_mapped hv
        · have hcancelled : Branch.cancelled ≠ .progress := by decide
          exact returns_behind hdropping (returns_of_mapped hv) hcancelled
  · exact returns_behind hdropping (returns_of_mapped hv) hbranch

/-- A caller whose entry is settled: its value is passed on. -/
theorem returns_of_settled (hdropping : t.broker.dropping = [])
    (h : ∃ x ∈ t.broker.resolved, x.key.2 = r) (branch : Branch) :
    (t.pollsAt r c inactivity branch).Returns r := by
  cases hfind : t.broker.resolved.find? fun x => x.key.2 = r with
  | none =>
      obtain ⟨x, hx, hkey⟩ := h
      exact absurd hkey (by simpa using List.find?_eq_none.1 hfind x hx)
  | some x =>
      let u : Calls W := { t with mapped := Function.update t.mapped r (some x.result) }
      have hstep : (t.pollsAt r c inactivity branch).step (.deliver r) =
          some (u.pollsAt r c inactivity branch) := by
        show (t.broker.resolved.find? fun x => x.key.2 = r).map _ = _
        rw [hfind]
        rfl
      have hmapped : u.mapped r = some x.result := Function.update_self _ _ _
      exact Returns.of_step hstep (Or.inr rfl) (returns_of_value (t := u) hdropping hmapped branch)

/-- A reason to give up that no frame of progress takes away. -/
def GivesUp (t : Calls W) (r : W.RequestId) (inactivity : ℕ) : Prop :=
  t.fired r = true ∨ t.totalDeadline r ≤ t.broker.now ∨
    inactivity ≤ t.broker.now ∧ (t.broker.progress r).recv = none

/-- Once the frames are taken, a reason to give up is found. -/
theorem returns_of_cancelled (hdropping : t.broker.dropping = []) (h : t.GivesUp r inactivity) :
    (t.pollsAt r c inactivity .cancelled).Returns r := by
  by_cases hfired : t.fired r = true
  · refine Returns.of_poll (p := .aborting c (.new .cancelled false)) ?_
      (returns_of_givenUp hdropping)
    simp only [poll, phase_pollsAt]
    exact if_pos hfired
  refine Returns.of_poll (p := .waiting c inactivity .inactivity) ?_ ?_
  · simp only [poll, phase_pollsAt]
    exact if_neg hfired
  by_cases hlate : inactivity ≤ t.broker.now
  · refine Returns.of_poll (p := .aborting c (.new .timeout true)) ?_ (returns_of_givenUp hdropping)
    simp only [poll, phase_pollsAt]
    exact if_pos hlate
  refine Returns.of_poll (t := t) (p := .waiting c inactivity .total) ?_ ?_
  · simp only [poll, phase_pollsAt]
    exact if_neg hlate
  have htotal : t.totalDeadline r ≤ t.broker.now := by
    rcases h with h | h | h
    · exact absurd h hfired
    · exact h
    · exact absurd h.1 hlate
  refine Returns.of_poll (t := t) (p := .aborting c (.new .timeout true)) ?_
    (returns_of_givenUp hdropping)
  simp only [poll, phase_pollsAt]
  exact if_pos htotal

/-- **A caller with a reason to give up** takes the frames that have come, and then finds the reason,
or its value. -/
theorem returns_of_givesUp (hdropping : t.broker.dropping = [])
    (hclosed : t.progressClosed r = true → ∃ x ∈ t.broker.resolved, x.key.2 = r)
    (h : t.GivesUp r inactivity) (branch : Branch) :
    (t.pollsAt r c inactivity branch).Returns r := by
  -- on the frames that are still to be taken
  induction hn : (t.broker.progress r).queue.length using Nat.strongRecOn
    generalizing t inactivity branch with
  | ind n ih =>
  have hprogress : (t.pollsAt r c inactivity .progress).Returns r := by
    cases hrecv : (t.broker.progress r).recv with
    | some taken =>
        obtain ⟨m, channel⟩ := taken
        obtain ⟨-, rest, hqueue, hchannel⟩ := Channel.recv_eq_some hrecv
        have hshorter : channel.queue.length < n := by
          rw [← hn, hqueue, hchannel]
          exact Nat.lt_succ_self _
        have hreason : t.fired r = true ∨ t.totalDeadline r ≤ t.broker.now := by
          rcases h with h | h | h
          · exact Or.inl h
          · exact Or.inr h
          · rw [hrecv] at h
            cases h.2
        let u : Calls W := { t with
          broker := { t.broker with progress := Function.update t.broker.progress r channel } }
        have htaken : (u.broker.progress r).queue.length = channel.queue.length := by
          show (Function.update t.broker.progress r channel r).queue.length = _
          rw [Function.update_self]
        refine Returns.of_step (step_of_frame hrecv) (Or.inl rfl) ?_
        exact ih channel.queue.length hshorter (t := u) hdropping hclosed
          (hreason.imp_right Or.inl) .result htaken
    | none =>
        refine Returns.of_poll (poll_of_empty hrecv) ?_
        split_ifs with hopen
        · exact returns_of_settled hdropping (hclosed hopen) .result
        · exact returns_of_cancelled hdropping h
  have hresult : (t.pollsAt r c inactivity .result).Returns r := by
    cases hmapped : t.mapped r with
    | some v => exact returns_of_mapped hmapped
    | none =>
        refine Returns.of_poll (p := .waiting c inactivity .progress) ?_ hprogress
        simp only [poll, phase_pollsAt]
        rw [show (t.pollsAt r c inactivity .result).mapped r = none from hmapped]
  by_cases hbranch : branch = .progress
  · rw [hbranch]
    exact hprogress
  · exact returns_behind hdropping hresult hbranch

end

/-- Where the call of a caller ends: it has given up, or its entry is settled, or it has a reason to
give up. -/
def Ends (t : Calls W) (r : W.RequestId) : Prop :=
  match t.phase r with
  | .waiting _ inactivity _ =>
    (∃ x ∈ t.broker.resolved, x.key.2 = r) ∨ t.GivesUp r inactivity
  | .aborting _ _ | .cancelling _ _ | .sending _ _ => True
  | _ => False

/-- The channel of the progress closes where the entry is settled. -/
theorem CallsInv.settled_of_closed (h : CallsInv t) (hplace : (t.broker.call r).place.isSome = true)
    (hclosed : t.progressClosed r = true) : ∃ x ∈ t.broker.resolved, x.key.2 = r := by
  obtain ⟨⟨s, ticket⟩, hat⟩ := Option.isSome_iff_exists.1 hplace
  have hledger : t.broker.ledger.place r = some s := by
    show (t.broker.call r).place.map Prod.fst = some s
    rw [hat]
    rfl
  rcases h.pending.ledger.accounted s r hledger with hlive | hsettled
  · unfold progressClosed at hclosed
    rw [hat] at hclosed
    have hcontains : t.broker.pending.contains s r = true := hlive
    dsimp only at hclosed
    rw [hcontains] at hclosed
    cases hclosed
  · obtain ⟨x, hx, hkey⟩ := List.mem_map.1 hsettled
    exact ⟨x, hx, congrArg Prod.snd hkey⟩

theorem CallsInv.returns_of_waiting (h : CallsInv t) {c : W.ConnectionId} {inactivity : ℕ}
    {branch : Branch} (hphase : t.phase r = .waiting c inactivity branch) (hends : t.Ends r)
    (hdropping : t.broker.dropping = []) : t.Returns r := by
  have hold := h.holds r
  rw [hphase] at hold
  simp only [Ends, hphase] at hends
  rw [eq_pollsAt hphase]
  rcases hends with hsettled | hgivesUp
  · exact returns_of_settled hdropping hsettled branch
  · exact returns_of_givesUp hdropping (h.settled_of_closed hold.1) hgivesUp branch

/-- **Calls return, and leave nothing behind.** In every reachable state, a caller that has returned
has left no entry of its request that a cleanup will not take, and what it returned is the value its
entry was settled with, or a reason to give up that holds, or the failure of a request that was
never admitted; and while the lock of the pending map is free, a caller whose call ends gets to
return by steps of its own and of the task that passes its value on. -/
theorem calls_return {t : Calls W} (h : Exec.Reachable step init t) (r : W.RequestId) :
    (∀ v, t.phase r = .returned v → t.broker.Released r ∧ t.Answer r v) ∧
      (t.Ends r → t.broker.dropping = [] → t.Returns r) := by
  have hinv := callsInv_of_reachable h
  have hholds := hinv.holds r
  have hjustified := hinv.justified r
  refine ⟨fun v hv => ?_, fun hends hdropping => ?_⟩
  · rw [hv] at hholds hjustified
    exact ⟨hholds, hjustified⟩
  · cases hphase : t.phase r with
    | waiting c inactivity branch => exact hinv.returns_of_waiting hphase hends hdropping
    | aborting c d => exact returns_of_aborting hphase hdropping
    | cancelling s d =>
        rw [hphase] at hholds
        exact returns_of_cancelling hphase hholds.2.2 hdropping
    | sending s d =>
        rw [hphase] at hholds
        exact returns_of_sending hphase hholds.2
    | _ =>
        simp only [Ends, hphase] at hends

/-- Request `1` waits until its token fires. -/
def firedWait : List (CallEvent World.numbers) :=
  [.broker (.register 0 10), .broker (.addQueue 0), .resolve 1 none, .route 1,
    .broker (.findQueue 1), .broker (.tryEnqueue 1), .admitRequest 1, .broker (.dispatch 1),
    .wait 1, .poll 1, .fire 1]

/-- The token is found, and the plugin is told. -/
def firedCall : List (CallEvent World.numbers) :=
  firedWait ++ [.poll 1, .poll 1, .cancelRoute 1, .cancelPending 1, .cancelSend 1]

theorem calls_return_fired :
    (∃ t, Exec.exec step init firedWait = some t ∧ t.Returns 1) ∧
    ∃ t, Exec.exec step init firedCall = some t ∧
      t.phase 1 = .returned (.error (.new .cancelled false)) ∧ t.broker.Released 1 :=
  ⟨⟨_, rfl, (calls_return ⟨firedWait, rfl⟩ 1).2 (Or.inr (Or.inl rfl)) rfl⟩,
    _, rfl, rfl, ((calls_return ⟨firedCall, rfl⟩ 1).1 _ rfl).1⟩

end Calls

end ToolCall

end FigmaDevMcp

import FigmaDevMcp.Broker.Routes

set_option autoImplicit false

/-!
# Cleanup and shutdown against late admissions

An invocation that has found its queue is admitted whatever becomes of its socket, and nothing takes
a late entry out again except its dispatch or an expiry.

* `InTime`: no invocation stands between its queue and its admission at a sweep, and none finds its
  queue after one;
* `FinalInv`: what every step in time keeps;
* **`cleanup_final`**: in runs in time, cleanup and shutdown are final, and nobody is left waiting;
* `late_admission_outlives_cleanup`: two runs that leave an entry behind.
-/

namespace FigmaDevMcp

variable {W : World}

/-- The socket whose queue an invocation has found, until its admission. -/
def CallPhase.queueAt : CallPhase W → Option W.SocketId
  | .found s | .enqueued s _ _ => some s
  | _ => none

/-- The task has taken its socket out of the registry. -/
def SocketPhase.isUnregistered : SocketPhase → Bool
  | .unregistered | .swept | .cleaned | .closed => true
  | _ => false

namespace BrokerState

/-- No invocation stands between its queue and its admission when the entries of its socket are
swept, by the cleanup or by a shutdown, and none finds its queue after that. -/
def InTime (st : BrokerState W) : BrokerEvent W → Prop
  | .cleanupPending s => ∀ r, (st.call r).queueAt ≠ some s
  | .drain => ∀ r, (st.call r).queueAt = none
  | .findQueue r => ∀ s, st.call r = .routed s → st.queues s = true →
      (st.socket s).isSwept = false ∧ st.drained = false
  | _ => True

/-! ## Queues and the invocations that have found them -/

section

variable {st st' : BrokerState W} {e : BrokerEvent W}

theorem completeOrDiscard_queues (st : BrokerState W) (s : W.SocketId) (r : W.RequestId)
    (result : PendingResult W) : (st.completeOrDiscard s r result).queues = st.queues := by
  unfold completeOrDiscard
  split <;> rfl

theorem noteProgress_queues (st : BrokerState W) (s : W.SocketId) (r : W.RequestId)
    (p : Progress) : (st.noteProgress s r p).queues = st.queues := by
  unfold noteProgress
  split
  · rfl
  · rfl
  · split <;> rfl

theorem trySendCancel_queues (st : BrokerState W) (s : W.SocketId) (r : W.RequestId) :
    (st.trySendCancel s r).queues = st.queues := by
  unfold trySendCancel
  split <;> rfl

theorem handleIncoming_queues (st : BrokerState W) (s : W.SocketId) (m : PluginToBroker W) :
    (st.handleIncoming s m).queues = st.queues := by
  cases m with
  | hello => rfl
  | pong => rfl
  | progress r p => exact noteProgress_queues (st.touchSocket s) s r p
  | response r v => exact completeOrDiscard_queues (st.touchSocket s) s r _
  | error r e => exact completeOrDiscard_queues (st.touchSocket s) s r _

/-- A queue is there from the socket's `addQueue` to its cleanup. -/
theorem step_queues (h : st.step e = some st') (u : W.SocketId) :
    st'.queues u = st.queues u ∨ e = .addQueue u ∧ st.socket u = .joined ∨
      e = .cleanupQueue u ∧ st'.queues u = false := by
  cases e with
  | addQueue s =>
      simp only [step, addQueue] at h
      split_ifs at h with hs
      cases h
      by_cases hu : u = s
      · exact Or.inr (Or.inl ⟨by rw [hu], hu ▸ hs⟩)
      · exact Or.inl (Function.update_of_ne hu _ _)
  | cleanupQueue s =>
      simp only [step, cleanupQueue] at h
      split_ifs at h with hs
      cases h
      by_cases hu : u = s
      · subst hu
        exact Or.inr (Or.inr ⟨rfl, Function.update_self _ _ _⟩)
      · exact Or.inl (Function.update_of_ne hu _ _)
  | incoming s m =>
      simp only [step, incoming] at h
      split_ifs at h
      cases h
      exact Or.inl (by rw [handleIncoming_queues])
  | recvOutbound s =>
      simp only [step, recvOutbound] at h
      split_ifs at h
      obtain ⟨_, -, rfl⟩ := Option.map_eq_some_iff.mp h
      exact Or.inl rfl
  | dispatch r =>
      obtain ⟨s, t, -, ⟨-, rfl⟩ | ⟨-, -, -, ⟨c, -, rfl⟩ | ⟨err, rfl⟩⟩⟩ := dispatch_cases h
      · exact Or.inl rfl
      · exact Or.inl rfl
      · exact Or.inl (by rw [completeOrDiscard_queues]; rfl)
  | cancelSend s r =>
      simp only [step, cancelSend] at h
      split_ifs at h
      cases h
      exact Or.inl (by rw [trySendCancel_queues])
  | expireSend s r =>
      simp only [step, expireSend] at h
      split_ifs at h
      split at h <;> cases h
      · exact Or.inl (by rw [trySendCancel_queues])
      · exact Or.inl rfl
  | _ =>
      simp only [step, register, leave, cleanupRegistry, cleanupPending, closeSocket, abortSocket,
        route, findQueue, tryEnqueue, admitRequest, abandon, dropAbandoned, cancelRoute,
        cancelPending, takeExpired, drain, dropTicket] at h
      repeat' split at h
      all_goals (cases h <;> exact Or.inl rfl)

theorem queueAt_setCall {st₀ : BrokerState W} (hcall : st₀.call = st.call) {q r : W.RequestId}
    {p : CallPhase W} (hp : p.queueAt = none ∨ p.queueAt = (st.call q).queueAt) {s : W.SocketId}
    (h : ((st₀.setCall q p).call r).queueAt = some s) : (st.call r).queueAt = some s := by
  rw [call_setCall, hcall] at h
  split_ifs at h with hr
  · rw [hr]
    rcases hp with hp | hp
    · rw [hp] at h
      cases h
    · rw [← hp, h]
  · exact h

/-- An invocation comes to have a queue only by finding it. -/
theorem step_queueAt (h : st.step e = some st') {r : W.RequestId} {s : W.SocketId}
    (hr : (st'.call r).queueAt = some s) :
    (st.call r).queueAt = some s ∨
      e = .findQueue r ∧ st.call r = .routed s ∧ st.queues s = true := by
  cases e with
  | route q c =>
      simp only [step, route] at h
      repeat' split at h
      all_goals cases h
      all_goals exact Or.inl (queueAt_setCall rfl (Or.inl rfl) hr)
  | findQueue q =>
      simp only [step, findQueue] at h
      split at h
      · rename_i u hcall
        split_ifs at h with hqueue <;> cases h
        · rw [call_setCall] at hr
          split_ifs at hr with hq
          · obtain rfl : u = s := Option.some.inj hr
            exact Or.inr ⟨by rw [hq], hq ▸ hcall, hqueue⟩
          · exact Or.inl hr
        · exact Or.inl (queueAt_setCall rfl (Or.inl rfl) hr)
      · cases h
  | tryEnqueue q =>
      simp only [step, tryEnqueue] at h
      split at h
      · rename_i u hcall
        split at h <;> cases h
        · exact Or.inl (queueAt_setCall (by rfl) (Or.inr (by rw [hcall]; rfl)) hr)
        · exact Or.inl (queueAt_setCall (by rfl) (Or.inl rfl) hr)
      · cases h
  | admitRequest q =>
      obtain ⟨u, t, since, -, -, ⟨m, -, rfl⟩ | ⟨-, rfl⟩⟩ := admitRequest_cases h
      · exact Or.inl (queueAt_setCall (by rfl) (Or.inl rfl) hr)
      · exact Or.inl (queueAt_setCall (by rfl) (Or.inl rfl) hr)
  | dispatch q =>
      have hdispatched : ∀ {u t}, ((st.afterDispatch q u t).call r).queueAt = some s →
          (st.call r).queueAt = some s := fun hr =>
        queueAt_setCall (show (st.setQueue _ _).call = st.call from rfl) (Or.inl rfl) hr
      obtain ⟨u, t, -, ⟨-, rfl⟩ | ⟨-, -, -, ⟨c, -, rfl⟩ | ⟨err, rfl⟩⟩⟩ := dispatch_cases h
      · exact Or.inl (hdispatched hr)
      · exact Or.inl (hdispatched hr)
      · rw [completeOrDiscard_call] at hr
        exact Or.inl (hdispatched hr)
  | abandon q =>
      simp only [step, abandon] at h
      split at h <;> cases h
      all_goals exact Or.inl (queueAt_setCall (by rfl) (Or.inl rfl) hr)
  | dropAbandoned q =>
      simp only [step, dropAbandoned] at h
      split at h <;> cases h
      exact Or.inl (queueAt_setCall (by rfl) (Or.inl rfl) hr)
  | incoming u m =>
      simp only [step, incoming] at h
      split_ifs at h
      cases h
      rw [handleIncoming_call] at hr
      exact Or.inl hr
  | recvOutbound u =>
      simp only [step, recvOutbound] at h
      split_ifs at h
      obtain ⟨_, -, rfl⟩ := Option.map_eq_some_iff.mp h
      exact Or.inl hr
  | cancelSend u q =>
      simp only [step, cancelSend] at h
      split_ifs at h
      cases h
      rw [trySendCancel_call] at hr
      exact Or.inl hr
  | expireSend u q =>
      simp only [step, expireSend] at h
      split_ifs at h
      split at h <;> cases h
      · rw [trySendCancel_call] at hr
        exact Or.inl hr
      · exact Or.inl hr
  | _ =>
      simp only [step, register, addQueue, leave, cleanupRegistry, cleanupPending, cleanupQueue,
        closeSocket, abortSocket, cancelRoute, cancelPending, takeExpired, drain, dropTicket] at h
      repeat' split at h
      all_goals (cases h <;> exact Or.inl hr)

end

/-! ## Runs in time -/

/-- What a socket that is swept, and a broker that is drained, have lost for good. -/
structure FinalInv (st : BrokerState W) : Prop where
  pending : PendingInv st
  routes : RouteInv st
  swept : ∀ s, (st.socket s).isSwept = true → ∀ r, st.pending.lookup (s, r) = none
  drained : st.drained = true → ∀ k, st.pending.lookup k = none
  passed : ∀ s, (st.socket s).isSwept = true ∨ st.drained = true → ∀ r, (st.call r).queueAt ≠ some s
  gone : ∀ s, (st.socket s).isUnregistered = true → st.Gone s
  queues : ∀ s, (st.socket s).isCleaned = true → st.queues s = false

theorem finalInv_init : FinalInv (init : BrokerState W) := by
  refine ⟨pendingInv_init, routeInv_init, fun _ h => ?_, fun h => ?_, fun _ h => ?_, fun _ h => ?_,
    fun _ h => ?_⟩
  · cases h
  · cases h
  · rcases h with h | h <;> cases h
  · cases h
  · cases h

section

variable {st st' : BrokerState W} {e : BrokerEvent W}

/-- Only an invocation that has found its queue can be admitted. -/
theorem step_lookup_queueAt (hstep : st.step e = some st') {k : PendingKey W}
    (hk : st.pending.lookup k = none) :
    st'.pending.lookup k = none ∨ (st.call k.2).queueAt = some k.1 := by
  rcases step_lookup_none hstep hk with hnone | ⟨t, since, -, hcall⟩
  · exact Or.inl hnone
  · right
    rw [hcall]
    rfl

theorem FinalInv.step_passed (h : FinalInv st) (htime : st.InTime e) (hstep : st.step e = some st')
    {s : W.SocketId} (hs : (st'.socket s).isSwept = true ∨ st'.drained = true) (r : W.RequestId) :
    (st'.call r).queueAt ≠ some s := by
  intro hr
  rcases step_queueAt hstep hr with hold | ⟨rfl, hcall, hqueue⟩
  · rcases hs with hs | hs
    · rcases step_swept hstep hs with hs | rfl
      · exact h.passed s (Or.inl hs) r hold
      · exact htime r hold
    · rcases step_drained hstep hs with hs | rfl
      · exact h.passed s (Or.inr hs) r hold
      · rw [htime r] at hold
        cases hold
  · obtain ⟨hswept, hdrained⟩ := htime s hcall hqueue
    rcases hs with hs | hs
    · rcases step_swept hstep hs with hs | hevent
      · rw [hs] at hswept
        cases hswept
      · cases hevent
    · rcases step_drained hstep hs with hs | hevent
      · rw [hs] at hdrained
        cases hdrained
      · cases hevent

theorem FinalInv.step_gone (h : FinalInv st) (hstep : st.step e = some st') {s : W.SocketId}
    (hs : (st'.socket s).isUnregistered = true) : st'.Gone s := by
  have hmove := step_socket hstep s
  cases hp : st.socket s with
  | unregistered | swept | cleaned | closed =>
      exact BrokerState.step_gone hstep (h.gone s (by rw [hp]; rfl))
  | leaving =>
      generalize hq : st'.socket s = q at hmove hs
      rw [hp] at hmove
      cases hmove with
      | stays => cases hs
      | serves hq =>
          simp only [List.mem_cons, List.not_mem_nil, or_false] at hq
          rcases hq with rfl | rfl | rfl | rfl <;> cases hs
      | unregisters =>
          simp only [BrokerState.step, cleanupRegistry, if_pos hp] at hstep
          cases hstep
          refine ⟨?_, not_routed_removeSocket h.routes.paired s⟩
          rw [hq]
          decide
  | fresh | joined | serving | aborted =>
      generalize st'.socket s = q at hmove hs
      rw [hp] at hmove
      cases hmove with
      | stays => cases hs
      | serves hq =>
          simp only [List.mem_cons, List.not_mem_nil, or_false] at hq
          rcases hq with rfl | rfl | rfl | rfl <;> cases hs

theorem FinalInv.step_queues (h : FinalInv st) (hstep : st.step e = some st') {s : W.SocketId}
    (hs : (st'.socket s).isCleaned = true) : st'.queues s = false := by
  have hmove := step_socket hstep s
  have hkept : (st.socket s).isCleaned = true → st'.queues s = false := fun hold => by
    rcases BrokerState.step_queues hstep s with hsame | ⟨-, hjoined⟩ | ⟨-, hnone⟩
    · rw [hsame, h.queues s hold]
    · rw [hjoined] at hold
      cases hold
    · exact hnone
  generalize hp : st.socket s = p at hmove hkept
  generalize st'.socket s = q at hmove hs
  cases hmove with
  | stays => exact hkept hs
  | serves hq =>
      simp only [List.mem_cons, List.not_mem_nil, or_false] at hq
      rcases hq with rfl | rfl | rfl | rfl <;> cases hs
  | unregisters => cases hs
  | sweeps => cases hs
  | cleans =>
      simp only [BrokerState.step, cleanupQueue, if_pos hp] at hstep
      cases hstep
      exact Function.update_self _ _ _
  | closes => exact hkept rfl

end

theorem step_finalInv (st : BrokerState W) (e : BrokerEvent W) (st' : BrokerState W)
    (htime : st.InTime e) (hstep : st.step e = some st') (h : FinalInv st) : FinalInv st' := by
  refine ⟨step_pendingInv st e st' hstep h.pending, step_routeInv hstep h.routes, ?_, ?_,
    fun s hs r => h.step_passed htime hstep hs r, fun s hs => h.step_gone hstep hs,
    fun s hs => h.step_queues hstep hs⟩
  · intro s hs r
    rcases step_swept hstep hs with hs | rfl
    · rcases step_lookup_queueAt hstep (h.swept s hs r) with hnone | hqueue
      · exact hnone
      · exact absurd hqueue (h.passed s (Or.inl hs) r)
    · exact cleanupPending_swept h.pending hstep r
  · intro hd k
    rcases step_drained hstep hd with hd | rfl
    · rcases step_lookup_queueAt hstep (h.drained hd k) with hnone | hqueue
      · exact hnone
      · exact absurd hqueue (h.passed k.1 (Or.inr hd) k.2)
    · exact drain_empties hstep k

/-! ## Nobody is left waiting -/

/-- Nobody waits at the socket: it has no entry, every invocation admitted on it has its result, and
none has found its queue without having been admitted. -/
structure Over (st : BrokerState W) (s : W.SocketId) : Prop where
  entry : ∀ r, st.pending.lookup (s, r) = none
  result : ∀ r, (st.call r).place.map Prod.fst = some s → ∃ x ∈ st.resolved, x.key = (s, r)
  passed : ∀ r, (st.call r).queueAt ≠ some s

theorem FinalInv.over {st : BrokerState W} (h : FinalInv st) {s : W.SocketId}
    (hs : (st.socket s).isSwept = true ∨ st.drained = true) : st.Over s := by
  have hentry : ∀ r, st.pending.lookup (s, r) = none := fun r => by
    rcases hs with hs | hs
    · exact h.swept s hs r
    · exact h.drained hs (s, r)
  refine ⟨hentry, fun r hplace => ?_, h.passed s hs⟩
  rcases h.pending.ledger.accounted s r hplace with hlive | hsettled
  · have hsome : (st.pending.lookup (s, r)).isSome = true := hlive
    rw [hentry] at hsome
    cases hsome
  · obtain ⟨x, hx, hkey⟩ := List.mem_map.1 hsettled
    exact ⟨x, hx, hkey⟩

/-- An invocation that does not find its queue has failed. -/
theorem findQueue_fails {st : BrokerState W} {r : W.RequestId} {s : W.SocketId}
    (hcall : st.call r = .routed s) (hqueue : st.queues s = false) :
    st.step (.findQueue r) = some (st.setCall r (.failed (.new .connectionNotFound false))) := by
  simp only [step, findQueue, hcall, hqueue, Bool.false_eq_true, if_false]

/-- An invocation that has its ticket is admitted, whatever has become of its socket. -/
theorem admitted_of_enqueued {st : BrokerState W} (h : PendingInv st) {r : W.RequestId}
    {s : W.SocketId} {t : QueueTicket} {since : ℕ} (hcall : st.call r = .enqueued s t since)
    (hlock : st.dropping = []) :
    ∃ st', st.step (.admitRequest r) = some st' ∧ (st'.pending.lookup (s, r)).isSome = true ∧
      st'.socket = st.socket ∧ st'.drained = st.drained := by
  have hnone : (st.pending.lookup (s, r)).isSome = false := by
    cases hentry : st.pending.lookup (s, r) with
    | none => rfl
    | some p =>
        obtain ⟨u, -, hu⟩ := (h.entry (s, r) p hentry).ticket
        rw [hcall] at hu
        cases hu
  have hadmit : st.pending.admitEntry (admission r s t since) =
      .ok (st.pending.insert (s, r) (admission r s t since)) := by
    unfold PendingMap.admitEntry
    exact if_neg (by rw [show (admission r s t since).socketId = s from rfl,
      show (admission r s t since).requestId = r from rfl, hnone]; exact Bool.false_ne_true)
  refine ⟨{ st with pending := st.pending.insert (s, r) (admission r s t since) }.setCall r
    (.admitted s t), ?_, ?_, rfl, rfl⟩
  · simp only [step, admitRequest, hcall, if_pos hlock, hadmit]
  · show ((st.pending.insert (s, r) (admission r s t since)).lookup (s, r)).isSome = true
    rw [Table.lookup_insert_eq, if_pos rfl]
    rfl

/-- **Cleanup is final in runs in time.** Once a socket is cleaned up, nobody waits at it, no
connection is routed to it, and an invocation that was routed to it before fails as it looks for the
queue. After a shutdown nobody waits at any socket, and an invocation that looks for its queue in
time fails. Out of time, an invocation that has its ticket is admitted all the same. -/
theorem cleanup_final {es : List (BrokerEvent W)} {st : BrokerState W}
    (htime : Exec.Along step InTime init es) (hrun : Exec.exec step init es = some st) :
    (∀ s, (st.socket s).isCleaned = true → st.Over s ∧ (∀ c, st.registry.routeFor c ≠ some s) ∧
      ∀ r, st.call r = .routed s → st.step (.findQueue r) =
        some (st.setCall r (.failed (.new .connectionNotFound false)))) ∧
    (st.drained = true → ∀ s, st.Over s ∧
      ∀ r, st.call r = .routed s → st.InTime (.findQueue r) → st.step (.findQueue r) =
        some (st.setCall r (.failed (.new .connectionNotFound false)))) ∧
    ∀ late : BrokerState W, Exec.Reachable step init late → ∀ r s t since,
      (late.socket s).isCleaned = true ∨ late.drained = true → late.call r = .enqueued s t since →
      late.dropping = [] → ∃ after, late.step (.admitRequest r) = some after ∧
        ((after.socket s).isCleaned = true ∨ after.drained = true) ∧ ¬ after.Over s := by
  have hinv := Exec.exec_invariant_along step_finalInv htime hrun finalInv_init
  refine ⟨fun s hs => ?_, fun hd s => ⟨hinv.over (Or.inr hd), fun r hcall htime => ?_⟩,
    fun late hlate r s t since hover hcall hlock => ?_⟩
  · have hswept : (st.socket s).isSwept = true := by
      cases hp : st.socket s <;> rw [hp] at hs <;> first | rfl | cases hs
    have hgone : (st.socket s).isUnregistered = true := by
      cases hp : st.socket s <;> rw [hp] at hs <;> first | rfl | cases hs
    exact ⟨hinv.over (Or.inl hswept), (hinv.gone s hgone).routes,
      fun r hcall => findQueue_fails hcall (hinv.queues s hs)⟩
  · refine findQueue_fails hcall (Bool.eq_false_of_not_eq_true fun hqueue => ?_)
    rw [(htime s hcall hqueue).2] at hd
    cases hd
  · obtain ⟨after, hstep, hentry, hsocket, hdrained⟩ :=
      admitted_of_enqueued (pendingInv_of_reachable hlate) hcall hlock
    refine ⟨after, hstep, by rw [hsocket, hdrained]; exact hover, fun h => ?_⟩
    rw [h.entry r] at hentry
    cases hentry

/-- The condition, computed where nothing but some requests has called. -/
def inTimeFor (rs : List W.RequestId) (st : BrokerState W) : BrokerEvent W → Bool
  | .cleanupPending s => rs.all fun r => (st.call r).queueAt ≠ some s
  | .drain => rs.all fun r => (st.call r).queueAt.isNone
  | .findQueue r => match st.call r with
    | .routed s => !st.queues s || (!(st.socket s).isSwept && !st.drained)
    | _ => true
  | .route r _ => r ∈ rs
  | _ => true

theorem inTime_of_inTimeFor {rs : List W.RequestId} {st : BrokerState W} {e : BrokerEvent W}
    (hidle : ∀ r, r ∉ rs → st.call r = .idle) (h : st.inTimeFor rs e = true) : st.InTime e := by
  have hqueueAt : ∀ {P : Option W.SocketId → Prop}, P none → (∀ r ∈ rs, P (st.call r).queueAt) →
      ∀ r, P (st.call r).queueAt := by
    intro P hnone hall r
    by_cases hr : r ∈ rs
    · exact hall r hr
    · rw [hidle r hr]
      exact hnone
  cases e with
  | cleanupPending s =>
      refine hqueueAt (P := fun q => q ≠ some s) (Option.some_ne_none s).symm fun r hr => ?_
      exact of_decide_eq_true (List.all_eq_true.1 h r hr)
  | drain =>
      refine hqueueAt (P := fun q => q = none) rfl fun r hr => ?_
      exact Option.isNone_iff_eq_none.1 (List.all_eq_true.1 h r hr)
  | findQueue r =>
      intro s hcall hqueue
      simpa [inTimeFor, hcall, hqueue] using h
  | _ => trivial

theorem along_inTime {rs : List W.RequestId} {st : BrokerState W} {es : List (BrokerEvent W)}
    (hidle : ∀ r, r ∉ rs → st.call r = .idle) (h : Exec.check step (inTimeFor rs) st es = true) :
    Exec.Along step InTime st es := by
  induction es generalizing st with
  | nil => trivial
  | cons e es ih =>
      rw [Exec.check, Bool.and_eq_true] at h
      refine ⟨inTime_of_inTimeFor hidle h.1, fun st' hstep => ih (fun r hr => ?_) ?_⟩
      · cases step_call hstep r with
        | same hcall => rw [hcall, hidle r hr]
        | routed c hevent _ _ =>
            rw [hevent] at h
            exact absurd (of_decide_eq_true h.1) hr
        | moved s hfrom _ =>
            rw [hidle r hr] at hfrom
            cases hfrom
      · simpa only [hstep] using h.2

/-- Request `1` is admitted and request `2` routed, their socket leaves and is cleaned up, and the
broker shuts down. -/
def orderlyRun : List (BrokerEvent World.numbers) :=
  [.register 0 10, .addQueue 0, .route 1 10, .findQueue 1, .tryEnqueue 1, .admitRequest 1,
    .route 2 10, .leave 0, .cleanupRegistry 0, .cleanupPending 0, .cleanupQueue 0,
    .dropTicket 0 ⟨1, 0⟩, .shutdown, .drain]

theorem cleanup_final_orderlyRun :
    ∃ st, Exec.exec step init orderlyRun = some st ∧ (st.socket 0).isCleaned = true ∧ st.Over 0 ∧
      st.step (.findQueue 2) = some (st.setCall 2 (.failed (.new .connectionNotFound false))) := by
  have hcheck : Exec.check step (inTimeFor [(1 : ℕ), (2 : ℕ)]) init orderlyRun = true := rfl
  have htime : Exec.Along step InTime init orderlyRun :=
    along_inTime (W := World.numbers) (fun _ _ => rfl) hcheck
  exact ⟨_, rfl, rfl, ((cleanup_final htime rfl).1 0 rfl).1,
    ((cleanup_final htime rfl).1 0 rfl).2.2 2 rfl⟩

/-- Request `1` has its ticket when its socket leaves, and is admitted after the cleanup. -/
def lateCleanupRun : List (BrokerEvent World.numbers) :=
  [.register 0 10, .addQueue 0, .route 1 10, .findQueue 1, .tryEnqueue 1, .leave 0,
    .cleanupRegistry 0, .cleanupPending 0, .cleanupQueue 0, .admitRequest 1]

/-- Request `1` is routed after the shutdown, while its socket is still registered. -/
def lateShutdownRun : List (BrokerEvent World.numbers) :=
  [.register 0 10, .addQueue 0, .shutdown, .drain, .route 1 10, .findQueue 1, .tryEnqueue 1,
    .admitRequest 1]

/-- An entry admitted late outlives the cleanup of its socket, and the shutdown; in the first
run its request is even sent before the socket's task returns, and then waits. -/
theorem late_admission_outlives_cleanup :
    (∃ st : BrokerState World.numbers,
      Exec.exec step init (lateCleanupRun ++ [.dispatch 1, .closeSocket 0]) = some st ∧
        (st.socket 0).isCleaned = true ∧ (st.pending.lookup (0, 1)).isSome = true) ∧
    ∃ st : BrokerState World.numbers, Exec.exec step init lateShutdownRun = some st ∧
      st.drained = true ∧ (st.pending.lookup (0, 1)).isSome = true :=
  ⟨⟨_, rfl, rfl, rfl⟩, ⟨_, rfl, rfl, rfl⟩⟩

end BrokerState

end FigmaDevMcp

import FigmaDevMcp.Broker.ExactlyOnce

set_option autoImplicit false

/-!
# Sweeps of the pending map

`cleanup_socket` and the shutdown empty the pending map once, each in its turn.

* `step_socket`: what a step does to the phase of a socket;
* `cleanupPending_swept`, `drain_empties`: what a sweep leaves;
* `step_lookup_none`: only an admission makes an entry.
-/

namespace FigmaDevMcp

variable {W : World}

/-- The cleanup of the socket has swept the pending map. -/
def SocketPhase.isSwept : SocketPhase → Bool
  | .swept | .cleaned | .closed => true
  | _ => false

/-- The cleanup of the socket is complete. -/
def SocketPhase.isCleaned : SocketPhase → Bool
  | .cleaned | .closed => true
  | _ => false

namespace BrokerState

/-! ## Phases -/

/-- What a step can do to the phase of a socket: `cleanup_socket` has its three stages in order, and
nothing else leads past the first. -/
inductive SocketStep (s : W.SocketId) : BrokerEvent W → SocketPhase → SocketPhase → Prop
  | stays {e : BrokerEvent W} {p : SocketPhase} : SocketStep s e p p
  | serves {e : BrokerEvent W} {p q : SocketPhase}
      (hq : q ∈ [SocketPhase.joined, .serving, .leaving, .aborted]) : SocketStep s e p q
  | unregisters : SocketStep s (.cleanupRegistry s) .leaving .unregistered
  | sweeps : SocketStep s (.cleanupPending s) .unregistered .swept
  | cleans : SocketStep s (.cleanupQueue s) .swept .cleaned
  | closes : SocketStep s (.closeSocket s) .cleaned .closed

theorem SocketStep.setSocket {st st₀ : BrokerState W} {e : BrokerEvent W} {s : W.SocketId}
    {p : SocketPhase} (hsocket : st₀.socket = st.socket) (h : SocketStep s e (st.socket s) p)
    (u : W.SocketId) : SocketStep u e (st.socket u) ((st₀.setSocket s p).socket u) := by
  show SocketStep u e (st.socket u) (Function.update st₀.socket s p u)
  rw [Function.update_apply, hsocket]
  split_ifs with hu
  · exact hu ▸ h
  · exact .stays

theorem SocketStep.of_eq {st st' : BrokerState W} {e : BrokerEvent W} (h : st'.socket = st.socket)
    (u : W.SocketId) : SocketStep u e (st.socket u) (st'.socket u) := by
  rw [h]
  exact .stays

theorem completeOrDiscard_socket (st : BrokerState W) (s : W.SocketId) (r : W.RequestId)
    (result : PendingResult W) : (st.completeOrDiscard s r result).socket = st.socket ∧
      (st.completeOrDiscard s r result).drained = st.drained := by
  unfold completeOrDiscard
  split <;> exact ⟨rfl, rfl⟩

theorem noteProgress_socket (st : BrokerState W) (s : W.SocketId) (r : W.RequestId)
    (p : Progress) : (st.noteProgress s r p).socket = st.socket ∧
      (st.noteProgress s r p).drained = st.drained := by
  unfold noteProgress
  split
  · exact ⟨rfl, rfl⟩
  · exact ⟨rfl, rfl⟩
  · split <;> exact ⟨rfl, rfl⟩

theorem trySendCancel_socket (st : BrokerState W) (s : W.SocketId) (r : W.RequestId) :
    (st.trySendCancel s r).socket = st.socket ∧ (st.trySendCancel s r).drained = st.drained := by
  unfold trySendCancel
  split <;> exact ⟨rfl, rfl⟩

theorem handleIncoming_drained (st : BrokerState W) (s : W.SocketId) (m : PluginToBroker W) :
    (st.handleIncoming s m).drained = st.drained := by
  cases m with
  | hello => rfl
  | pong => rfl
  | progress r p => exact (noteProgress_socket (st.touchSocket s) s r p).2
  | response r v => exact (completeOrDiscard_socket (st.touchSocket s) s r _).2
  | error r e => exact (completeOrDiscard_socket (st.touchSocket s) s r _).2

theorem step_socket {st st' : BrokerState W} {e : BrokerEvent W} (h : st.step e = some st')
    (u : W.SocketId) : SocketStep u e (st.socket u) (st'.socket u) := by
  cases e with
  | register s c =>
      simp only [step, register] at h
      split_ifs at h
      split at h <;> cases h <;> exact .setSocket (by rfl) (.serves (by simp)) u
  | addQueue s =>
      simp only [step, addQueue] at h
      split_ifs at h
      cases h
      exact .setSocket (by rfl) (.serves (by simp)) u
  | incoming s m =>
      simp only [step, incoming] at h
      split_ifs at h
      cases h
      cases m with
      | hello =>
          have htouched : (st.touchSocket s).socket = st.socket := rfl
          exact .setSocket htouched (.serves (by simp)) u
      | pong => exact .of_eq (by rfl) u
      | progress r p => exact .of_eq (noteProgress_socket (st.touchSocket s) s r p).1 u
      | response r v => exact .of_eq (completeOrDiscard_socket (st.touchSocket s) s r _).1 u
      | error r e => exact .of_eq (completeOrDiscard_socket (st.touchSocket s) s r _).1 u
  | recvOutbound s =>
      simp only [step, recvOutbound] at h
      split_ifs at h
      obtain ⟨_, -, rfl⟩ := Option.map_eq_some_iff.mp h
      exact .of_eq rfl u
  | leave s =>
      simp only [step, leave] at h
      split_ifs at h
      cases h
      exact .setSocket rfl (.serves (by simp)) u
  | cleanupRegistry s =>
      simp only [step, cleanupRegistry] at h
      split_ifs at h with hs
      cases h
      exact .setSocket (by rfl) (hs ▸ .unregisters) u
  | cleanupPending s =>
      simp only [step, cleanupPending] at h
      split_ifs at h with hs
      cases h
      exact .setSocket (by rfl) (hs.1 ▸ .sweeps) u
  | cleanupQueue s =>
      simp only [step, cleanupQueue] at h
      split_ifs at h with hs
      cases h
      exact .setSocket (by rfl) (hs ▸ .cleans) u
  | closeSocket s =>
      simp only [step, closeSocket] at h
      split_ifs at h with hs
      cases h
      exact .setSocket (by rfl) (hs ▸ .closes) u
  | abortSocket s =>
      simp only [step, abortSocket] at h
      split_ifs at h
      cases h
      exact .setSocket (by rfl) (.serves (by simp)) u
  | dispatch r =>
      obtain ⟨s, t, -, ⟨-, rfl⟩ | ⟨-, -, -, ⟨c, -, rfl⟩ | ⟨err, rfl⟩⟩⟩ := dispatch_cases h
      · exact .of_eq rfl u
      · exact .of_eq rfl u
      · exact .of_eq (completeOrDiscard_socket (st.afterDispatch r s t) s r _).1 u
  | cancelSend s r =>
      simp only [step, cancelSend] at h
      split_ifs at h
      cases h
      refine .of_eq ?_ u
      rw [(trySendCancel_socket _ _ _).1]
  | expireSend s r =>
      simp only [step, expireSend] at h
      split_ifs at h
      split at h <;> cases h
      · refine .of_eq ?_ u
        rw [(trySendCancel_socket _ _ _).1]
      · exact .of_eq rfl u
  | _ =>
      simp only [step, route, findQueue, tryEnqueue, admitRequest, abandon, dropAbandoned,
        cancelRoute, cancelPending, takeExpired, drain, dropTicket] at h
      repeat' split at h
      all_goals (cases h <;> exact .of_eq rfl u)

/-- A socket comes to be swept only by its own sweep. -/
theorem step_swept {st st' : BrokerState W} {e : BrokerEvent W} (h : st.step e = some st')
    {u : W.SocketId} (hu : (st'.socket u).isSwept = true) :
    (st.socket u).isSwept = true ∨ e = .cleanupPending u := by
  have hmove := step_socket h u
  generalize st.socket u = p at hmove ⊢
  generalize st'.socket u = q at hmove hu
  cases hmove with
  | stays => exact Or.inl hu
  | serves hq =>
      simp only [List.mem_cons, List.not_mem_nil, or_false] at hq
      rcases hq with rfl | rfl | rfl | rfl <;> cases hu
  | unregisters => cases hu
  | sweeps => exact Or.inr rfl
  | cleans => exact Or.inl rfl
  | closes => exact Or.inl rfl

theorem step_drained {st st' : BrokerState W} {e : BrokerEvent W} (h : st.step e = some st')
    (hd : st'.drained = true) : st.drained = true ∨ e = .drain := by
  cases e with
  | drain => exact Or.inr rfl
  | incoming s m =>
      simp only [step, incoming] at h
      split_ifs at h
      cases h
      exact Or.inl (handleIncoming_drained st s m ▸ hd)
  | recvOutbound s =>
      simp only [step, recvOutbound] at h
      split_ifs at h
      obtain ⟨_, -, rfl⟩ := Option.map_eq_some_iff.mp h
      exact Or.inl hd
  | dispatch r =>
      obtain ⟨s, t, -, ⟨-, rfl⟩ | ⟨-, -, -, ⟨c, -, rfl⟩ | ⟨err, rfl⟩⟩⟩ := dispatch_cases h
      · exact Or.inl hd
      · exact Or.inl hd
      · rw [(completeOrDiscard_socket _ _ _ _).2] at hd
        exact Or.inl hd
  | cancelSend s r =>
      simp only [step, cancelSend] at h
      split_ifs at h
      cases h
      rw [(trySendCancel_socket _ _ _).2] at hd
      exact Or.inl hd
  | expireSend s r =>
      simp only [step, expireSend] at h
      split_ifs at h
      split at h <;> cases h
      · rw [(trySendCancel_socket _ _ _).2] at hd
        exact Or.inl hd
      · exact Or.inl hd
  | _ =>
      simp only [step, register, addQueue, leave, cleanupRegistry, cleanupPending, cleanupQueue,
        closeSocket, abortSocket, route, findQueue, tryEnqueue, admitRequest, abandon,
        dropAbandoned, cancelRoute, cancelPending, takeExpired, dropTicket] at h
      repeat' split at h
      all_goals (cases h <;> exact Or.inl hd)

/-! ## The sweeps -/

theorem cleanupPending_swept {st st' : BrokerState W} (h : PendingInv st) {s : W.SocketId}
    (hstep : st.step (.cleanupPending s) = some st') (r : W.RequestId) :
    st'.pending.lookup (s, r) = none := by
  simp only [step, cleanupPending] at hstep
  split_ifs at hstep
  cases hstep
  have hall : ∀ p, st.pending.lookup (s, r) = some p → decide (p.socketId = s) = true :=
    fun p hp => decide_eq_true (h.entry (s, r) p hp).socketId
  exact PendingMap.lookup_removeMatching_none .connectionLost hall

theorem drain_empties {st st' : BrokerState W} (hstep : st.step .drain = some st')
    (k : PendingKey W) : st'.pending.lookup k = none := by
  simp only [step, drain] at hstep
  split_ifs at hstep
  cases hstep
  have hall : ∀ p, st.pending.lookup k = some p → (fun _ : PendingRequest W => true) p = true :=
    fun _ _ => rfl
  exact PendingMap.lookup_removeMatching_none .connectionLost hall

/-- A key without an entry gets one only by an admission on its socket. -/
theorem step_lookup_none {st st' : BrokerState W} {e : BrokerEvent W}
    (h : st.step e = some st') {k : PendingKey W} (hk : st.pending.lookup k = none) :
    st'.pending.lookup k = none ∨
      ∃ t since, e = .admitRequest k.2 ∧ st.call k.2 = .enqueued k.1 t since := by
  cases step_effect h with
  | kept _ hcore _ =>
      refine Or.inl ?_
      have hc := hcore k
      rw [hk, Option.map_none, Option.map_eq_none_iff] at hc
      exact hc
  | admitted r s t since m hevent hcall hm hst =>
      subst hst
      by_cases hks : k = (s, r)
      · subst hks
        exact Or.inr ⟨t, since, hevent, hcall⟩
      · refine Or.inl ?_
        change m.lookup k = none
        rw [PendingMap.lookup_admitEntry hm]
        exact (if_neg hks).trans hk
  | settled out hsettling _ _ _ =>
      refine Or.inl ?_
      rw [hsettling.rest, hk, ite_self]

end BrokerState

end FigmaDevMcp

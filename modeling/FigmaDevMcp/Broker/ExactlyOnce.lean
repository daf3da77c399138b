import FigmaDevMcp.Lib.Ledger
import FigmaDevMcp.Broker.Effect

set_option autoImplicit false

/-!
# Each admitted request is settled at most once

The pending map is a ledger of waiters: an admission enters a request at a socket, and whatever
takes the entry out settles it.

* `step_ledger`: every step of the broker is a step of that ledger;
* `PendingInv`: the ledger's invariant, and what each entry of the map holds;
* **`pending_exactly_once`**: at most one value for each admitted request, only from the causes
  of `Settles`, and none of another request's business touched by a message.
-/

namespace FigmaDevMcp

variable {W : World}

namespace BrokerState

/-- The ledger of waiters behind a broker state. -/
def ledger (st : BrokerState W) : Ledger W.SocketId W.RequestId where
  place := fun r => (st.call r).place.map Prod.fst
  live := fun s r => (st.pending.lookup (s, r)).isSome = true
  settled := st.resolved.map Settled.key

/-- **Refinement.** Every step of the broker is a step of its ledger. -/
theorem step_ledger {st st' : BrokerState W} {e : BrokerEvent W} (h : st.step e = some st') :
    Ledger.Step st.ledger st'.ledger := by
  cases step_effect h with
  | kept hresolved hcore hcalls =>
      refine .stay (fun r => congrArg (Option.map Prod.fst) (hcalls r).place) (fun s r => ?_)
        (congrArg (List.map Settled.key) hresolved)
      have hk := congrArg Option.isSome (hcore (s, r))
      simp only [Option.isSome_map] at hk
      simp only [ledger, hk]
  | admitted r s t since m _ hcall hm hst =>
      subst hst
      have hlook := PendingMap.lookup_admitEntry hm
      refine .enter s r ?_ ?_ ?_ ?_ rfl
      · simp only [ledger, hcall, CallPhase.place, Option.map_none]
      · simp only [ledger, setCall, Function.update_self, CallPhase.place, Option.map_some]
      · intro q hq
        simp only [ledger, setCall, Function.update_of_ne hq]
      · intro u q
        change (m.lookup (u, q)).isSome = true ↔ _
        rw [hlook]
        by_cases hk : (u, q) = (s, r)
        · obtain ⟨rfl, rfl⟩ := Prod.mk.inj hk
          simp only [admission, if_true, Option.isSome_some, and_self, true_or]
        · rw [if_neg (by simpa only [admission] using hk)]
          rw [Prod.mk.injEq] at hk
          simp only [ledger, hk, false_or]
  | settled out hsettling _ hresolved hcalls =>
      refine .settle (out.map Settled.key) hsettling.nodup ?_
        (fun r => congrArg (Option.map Prod.fst) (hcalls r).place) ?_ ?_
      · intro k hk
        obtain ⟨x, hx, rfl⟩ := List.mem_map.mp hk
        simp only [ledger, hsettling.entry x hx, Option.isSome_some]
      · intro s r
        simp only [ledger, hsettling.rest]
        split_ifs with hk
        · simp only [Option.isSome_none, Bool.false_eq_true, hk, not_true_eq_false, and_false]
        · simp only [hk, not_false_eq_true, and_true]
      · simp only [ledger, hresolved, List.map_append]

/-- What an entry under key `k` holds. -/
structure EntryOk (st : BrokerState W) (k : PendingKey W) (p : PendingRequest W) : Prop where
  socketId : p.socketId = k.1
  requestId : p.requestId = k.2
  progress : p.progress = some k.2
  ticket : ∃ t, p.ticket = some t ∧ (st.call k.2).place = some (k.1, t)

/-- What the ledger and the phases of the calls say of the entries of the map. -/
structure PendingInv (st : BrokerState W) : Prop where
  ledger : st.ledger.Inv
  entry : ∀ k p, st.pending.lookup k = some p → st.EntryOk k p

theorem pendingInv_init : PendingInv (init : BrokerState W) := by
  refine ⟨⟨?_, ?_, List.nodup_nil, ?_, ?_⟩, ?_⟩
  · intro s r h
    exact absurd h (by simp [BrokerState.ledger, init])
  · intro s r h
    exact absurd h List.not_mem_nil
  · intro s r h
    exact absurd h (by simp [BrokerState.ledger, init])
  · intro s r h
    exact absurd h (by simp [BrokerState.ledger, init, CallPhase.place])
  · intro k p h
    exact absurd h (by simp [init])

theorem EntryOk.congr {st st' : BrokerState W} {k : PendingKey W} {p p' : PendingRequest W}
    (h : st.EntryOk k p) (hp : p'.core = p.core)
    (hplace : (st'.call k.2).place = (st.call k.2).place) : st'.EntryOk k p' := by
  simp only [PendingRequest.core, Prod.mk.injEq] at hp
  obtain ⟨hs, hr, hpr, ht⟩ := hp
  exact ⟨hs.trans h.socketId, hr.trans h.requestId, hpr.trans h.progress,
    by rw [ht, hplace]; exact h.ticket⟩

/-- Every step keeps the invariant. -/
theorem step_pendingInv (st : BrokerState W) (e : BrokerEvent W) (st' : BrokerState W)
    (hstep : st.step e = some st') (h : PendingInv st) : PendingInv st' := by
  refine ⟨(step_ledger hstep).inv h.ledger, ?_⟩
  intro k p hp
  cases step_effect hstep with
  | kept _ hcore hcalls =>
      have hc := hcore k
      rw [hp] at hc
      cases hq : st.pending.lookup k with
      | none => simp only [hq, Option.map_some, Option.map_none, reduceCtorEq] at hc
      | some q =>
          simp only [hq, Option.map_some, Option.some.injEq] at hc
          exact (h.entry k q hq).congr hc (hcalls k.2).place
  | admitted r s t since m _ hcall hm hst =>
      subst hst
      change m.lookup k = some p at hp
      rw [PendingMap.lookup_admitEntry hm] at hp
      split_ifs at hp with hk
      · obtain rfl := Option.some_inj.mp hp
        subst hk
        exact ⟨rfl, rfl, rfl, t, rfl,
          by simp only [setCall, admission, Function.update_self, CallPhase.place]⟩
      · have hok := h.entry k p hp
        -- an entry of `r` itself would have been admitted before
        have hkr : k.2 ≠ r := by
          intro hkr
          obtain ⟨u, -, hu⟩ := hok.ticket
          rw [hkr, hcall] at hu
          exact absurd hu (by simp [CallPhase.place])
        exact hok.congr rfl (by simp only [setCall, Function.update_of_ne hkr])
  | settled out hsettling _ _ hcalls =>
      rw [hsettling.rest] at hp
      split_ifs at hp
      exact (h.entry k p hp).congr rfl (hcalls k.2).place

theorem pendingInv_of_reachable {st : BrokerState W} (h : Exec.Reachable step init st) :
    PendingInv st :=
  h.rec_inv pendingInv_init step_pendingInv

/-! ## Messages -/

/-- Completing what is not pending changes nothing. -/
theorem completeOrDiscard_of_none {st : BrokerState W} {s : W.SocketId} {r : W.RequestId}
    (result : PendingResult W) (h : st.pending.lookup (s, r) = none) :
    st.completeOrDiscard s r result = st := by
  simp only [completeOrDiscard, PendingMap.complete_eq_none h]

theorem noteProgress_of_none {st : BrokerState W} {s : W.SocketId} {r : W.RequestId}
    (p : Progress) (h : st.pending.lookup (s, r) = none) : st.noteProgress s r p = st := by
  simp only [noteProgress, PendingMap.noteProgress, h]

/-- A message about nothing pending on its socket only refreshes that socket. -/
theorem handleIncoming_of_none {st : BrokerState W} {s : W.SocketId} {m : PluginToBroker W}
    (h : ∀ r, m.requestId? = some r → st.pending.lookup (s, r) = none) :
    st.handleIncoming s m = st.touchSocket s ∨
      st.handleIncoming s m = (st.touchSocket s).setSocket s .leaving := by
  cases m with
  | hello => exact Or.inr rfl
  | pong => exact Or.inl rfl
  | progress r p => exact Or.inl (noteProgress_of_none p (h r rfl))
  | response r v => exact Or.inl (completeOrDiscard_of_none _ (h r rfl))
  | error r e => exact Or.inl (completeOrDiscard_of_none _ (h r rfl))

theorem completeOrDiscard_frame (st : BrokerState W) (s : W.SocketId) (r : W.RequestId)
    (result : PendingResult W) {k : PendingKey W} (hk : k ≠ (s, r)) :
    (st.completeOrDiscard s r result).pending.lookup k = st.pending.lookup k ∧
      (st.completeOrDiscard s r result).progress = st.progress := by
  unfold completeOrDiscard
  cases hc : st.pending.complete s r result with
  | none => exact ⟨rfl, rfl⟩
  | some xm =>
      obtain ⟨e, -, -, hrest⟩ := PendingMap.complete_eq_some hc
      exact ⟨(hrest k).trans (if_neg hk), rfl⟩

theorem noteProgress_frame {st : BrokerState W} (h : PendingInv st) (s : W.SocketId)
    (r : W.RequestId) (p : Progress) {k : PendingKey W} (hk : k ≠ (s, r)) :
    (st.noteProgress s r p).pending.lookup k = st.pending.lookup k ∧
      ∀ q, q ≠ r → (st.noteProgress s r p).progress q = st.progress q := by
  unfold noteProgress
  cases hn : st.pending.noteProgress s r p st.now with
  | none => exact ⟨rfl, fun _ _ => rfl⟩
  | some mo =>
      obtain ⟨m, out⟩ := mo
      obtain ⟨e, he, hout, hlook⟩ := PendingMap.noteProgress_eq_some hn
      have hl : m.lookup k = st.pending.lookup k := (hlook k).trans (if_neg hk)
      rw [(h.entry (s, r) e he).progress, Option.map_some] at hout
      subst hout
      dsimp only
      split
      · exact ⟨hl, fun q hq => Function.update_of_ne hq _ _⟩
      · exact ⟨hl, fun _ _ => rfl⟩

/-- A message touches at most the request it is about, on the socket it came from. -/
theorem handleIncoming_frame {st : BrokerState W} (h : PendingInv st) (s : W.SocketId)
    (m : PluginToBroker W) {k : PendingKey W}
    (hk : ∀ r, m.requestId? = some r → k ≠ (s, r)) :
    (st.handleIncoming s m).pending.lookup k = st.pending.lookup k ∧
      ∀ q, m.requestId? ≠ some q → (st.handleIncoming s m).progress q = st.progress q := by
  have htouch : PendingInv (st.touchSocket s) := ⟨h.ledger, fun k p hp => (h.entry k p hp).congr rfl rfl⟩
  cases m with
  | hello => exact ⟨rfl, fun _ _ => rfl⟩
  | pong => exact ⟨rfl, fun _ _ => rfl⟩
  | progress r p =>
      obtain ⟨hl, hp⟩ := noteProgress_frame htouch s r p (hk r rfl)
      exact ⟨hl, fun q hq => hp q fun he => hq (he ▸ rfl)⟩
  | response r v =>
      obtain ⟨hl, hp⟩ := completeOrDiscard_frame (st.touchSocket s) s r (.ok v) (hk r rfl)
      exact ⟨hl, fun q _ => congrFun hp q⟩
  | error r e =>
      obtain ⟨hl, hp⟩ := completeOrDiscard_frame (st.touchSocket s) s r (.error e) (hk r rfl)
      exact ⟨hl, fun q _ => congrFun hp q⟩

/-! ## Main result -/

/-- The values a step sends go to entries that were pending, and are pending no more. -/
theorem step_resolved {st st' : BrokerState W} {e : BrokerEvent W} (h : PendingInv st)
    (hstep : st.step e = some st') :
    ∃ out, st'.resolved = st.resolved ++ out ∧ ∀ x ∈ out,
      (st.call x.key.2).place.map Prod.fst = some x.key.1 ∧
        st.pending.lookup x.key = some x.entry ∧ st'.pending.lookup x.key = none ∧
        st.Settles e x := by
  cases step_effect hstep with
  | kept hresolved _ _ =>
      exact ⟨[], by rw [hresolved, List.append_nil], fun x hx => absurd hx List.not_mem_nil⟩
  | admitted r s t since m _ _ _ hst =>
      subst hst
      exact ⟨[], (List.append_nil _).symm, fun x hx => absurd hx List.not_mem_nil⟩
  | settled out hsettling hcause hresolved _ =>
      refine ⟨out, hresolved, fun x hx => ⟨?_, hsettling.entry x hx, ?_, hcause x hx⟩⟩
      · obtain ⟨t, -, ht⟩ := (h.entry _ _ (hsettling.entry x hx)).ticket
        rw [ht]
        rfl
      · rw [hsettling.rest, if_pos (List.mem_map_of_mem hx)]

/-- **Exactly once, and only from its own socket.** In every reachable state no request has been
settled twice; a step settles only requests admitted at the socket of their entry and in one of
the ways of `Settles`; a message about a request that was not admitted on its socket, or is
settled already, changes neither the map nor any waiter; and no message touches another request. -/
theorem pending_exactly_once {st : BrokerState W} (h : Exec.Reachable step init st) :
    (st.resolved.map fun x => x.key.2).Nodup ∧
    (∀ e st', st.step e = some st' → ∃ out, st'.resolved = st.resolved ++ out ∧ ∀ x ∈ out,
      (st.call x.key.2).place.map Prod.fst = some x.key.1 ∧
        st.pending.lookup x.key = some x.entry ∧ st'.pending.lookup x.key = none ∧
        st.Settles e x) ∧
    (∀ s m st', st.step (.incoming s m) = some st' →
      (∀ r, m.requestId? = some r →
        (st.call r).place.map Prod.fst ≠ some s ∨ r ∈ st.resolved.map fun x => x.key.2) →
      st'.pending = st.pending ∧ st'.resolved = st.resolved ∧ st'.progress = st.progress) ∧
    (∀ s m st', st.step (.incoming s m) = some st' →
      (∀ k, (∀ r, m.requestId? = some r → k ≠ (s, r)) →
        st'.pending.lookup k = st.pending.lookup k) ∧
      ∀ q, m.requestId? ≠ some q → st'.progress q = st.progress q) := by
  have hinv := pendingInv_of_reachable h
  have hkeys : (st.ledger.settled.map Prod.snd) = st.resolved.map fun x => x.key.2 := by
    simp only [BrokerState.ledger, List.map_map, Function.comp_def]
  refine ⟨hkeys ▸ hinv.ledger.once, fun e st' he => step_resolved hinv he, ?_, ?_⟩
  · intro s m st' hstep hstale
    have hnone : ∀ r, m.requestId? = some r → st.pending.lookup (s, r) = none := by
      intro r hr
      rw [← Option.not_isSome_iff_eq_none]
      intro hlive
      rcases hstale r hr with hne | hmem
      · exact hne (hinv.ledger.live_place s r hlive)
      · exact hinv.ledger.notMem_settled (s := s) hlive (hkeys ▸ hmem)
    simp only [step, incoming] at hstep
    split_ifs at hstep
    obtain rfl := Option.some_inj.mp hstep
    rcases handleIncoming_of_none hnone with he | he <;> rw [he] <;> exact ⟨rfl, rfl, rfl⟩
  · intro s m st' hstep
    simp only [step, incoming] at hstep
    split_ifs at hstep
    obtain rfl := Option.some_inj.mp hstep
    refine ⟨fun k hk => (handleIncoming_frame hinv s m hk).1, fun q hq => ?_⟩
    cases hm : m.requestId? with
    | none => exact (handleIncoming_frame hinv s m (k := (s, q)) (by simp [hm])).2 q hq
    | some r =>
        have hne : q ≠ r := fun he => hq (he ▸ hm)
        refine (handleIncoming_frame hinv s m (k := (s, q)) ?_).2 q hq
        intro r' hr' he
        exact hq ((Prod.mk.inj he).2 ▸ hr')

/-- Request `1` goes to socket `0`; the other socket answers it in vain, its own socket answers
it twice. -/
def answeredTwice : List (BrokerEvent World.numbers) :=
  [.register 0 10, .addQueue 0, .register 5 15, .addQueue 5, .route 1 10, .findQueue 1,
    .tryEnqueue 1, .admitRequest 1, .dispatch 1, .incoming 5 (.response 1 70),
    .incoming 0 (.response 1 71), .dropTicket 0 ⟨1, 0⟩, .incoming 0 (.response 1 72)]

theorem pending_exactly_once_answeredTwice :
    ∃ st, Exec.exec step init answeredTwice = some st ∧
      (st.resolved.map Settled.result) = [.ok 71] ∧ (st.resolved.map fun x => x.key.2).Nodup :=
  ⟨_, rfl, rfl, (pending_exactly_once ⟨answeredTwice, rfl⟩).1⟩

end BrokerState

end FigmaDevMcp

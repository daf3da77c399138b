import Mathlib.Combinatorics.Enumerative.DoubleCounting
import FigmaDevMcp.Broker.Slots

set_option autoImplicit false

/-!
# The admission cap

What the accounting of places says about a socket: the queue bounds its pending requests, and a
place is held exactly as long as its entry is.

* `SlotInv.card_le`: requests are as many as the places of their tickets at most;
* **`admission_cap`**: at most `maxInFlight` handed over and `maxInFlight + maxQueue` pending,
  and places are held as long as entries are;
* `saturated_place_leaks`: once ticket numbers repeat, a place can be lost.
-/

namespace FigmaDevMcp

variable {W : World}

namespace BrokerState

/-! ## The cap -/

/-- The ticket of a pending request is live. -/
theorem SlotInv.pending_ticket {st : BrokerState W} (h : SlotInv st) (hp : PendingInv st)
    {s : W.SocketId} {r : W.RequestId} (hl : (st.pending.lookup (s, r)).isSome = true) :
    ∃ t, (st.call r).place = some (s, t) ∧ st.TicketOk r s t ∧ t ∈ (st.queue s).tickets := by
  obtain ⟨p, hlook⟩ := Option.isSome_iff_exists.mp hl
  obtain ⟨t, -, ht⟩ := (hp.entry _ p hlook).ticket
  have hok := h.ticket r s t (ticket_of_place ht)
  refine ⟨t, ht, hok, hok.held.mpr ?_⟩
  unfold Holds
  cases hc : st.call r <;> simp_all [CallPhase.place]

/-- The live ticket of a pending request has its place among the active or the waiting ones. -/
theorem SlotInv.placed {st : BrokerState W} (h : SlotInv st) {s : W.SocketId} {r : W.RequestId}
    {t : QueueTicket} (hlt : (st.queue s).enqueues < 2 ^ 64)
    (hplace : (st.call r).place = some (s, t)) (ht : t ∈ (st.queue s).tickets)
    (hl : (st.pending.lookup (s, r)).isSome = true) :
    t.id ∈ (st.queue s).queue.active ∨ ⟨t.id, t.wait⟩ ∈ (st.queue s).queue.waiting := by
  have hx := (h.queue s).exact hlt
  have hok := h.ticket r s t (ticket_of_place hplace)
  cases hc : st.call r with
  | admitted u v =>
      have hr := hok.alive (by rw [hc]; rfl)
      rcases hx.accounted t ht with ha | ha | ha
      · exact Or.inl ha
      · exact Or.inr ha
      · exact absurd hr ha
  | dispatched u v =>
      rw [hc] at hplace
      obtain ⟨rfl, rfl⟩ := Prod.mk.inj (Option.some.inj hplace)
      exact Or.inl ((hx.granted _ ht).mp (hok.sent hlt hc hl))
  | _ =>
      rw [hc] at hplace
      exact absurd hplace (by simp [CallPhase.place])

/-- Requests with live tickets are at most as many as the places their tickets have. -/
theorem SlotInv.card_le {st : BrokerState W} (h : SlotInv st) {s : W.SocketId}
    (hlt : (st.queue s).enqueues < 2 ^ 64) (rs : Finset W.RequestId) (places : Finset ℕ)
    (hrs : ∀ r ∈ rs, ∃ t, (st.call r).ticket = some (s, t) ∧ t.id ∈ places) :
    rs.card ≤ places.card := by
  refine Finset.card_le_card_of_forall_subsingleton
    (fun r i => ∃ t, (st.call r).ticket = some (s, t) ∧ t.id = i) ?_ ?_
  · intro r hr
    obtain ⟨t, ht, hi⟩ := hrs r hr
    exact ⟨t.id, hi, t, ht, rfl⟩
  · rintro i - q ⟨-, t, ht, hti⟩ r ⟨-, u, hu, hui⟩
    have htn := (h.ticket q s t ht).number hlt
    have hun := (h.ticket r s u hu).number hlt
    refine h.inj q r s t u ht hu ?_
    omega

theorem card_active {q : SessionQueue} {ts : List QueueTicket} {n : ℕ} (h : q.Exact ts n)
    (hb : q.Bounded) : q.active.card ≤ maxInFlight := h.count ▸ hb.inFlight_le

/-- **Admission cap.** In every reachable state, for a socket with fewer than `2 ^ 64` enqueues:
at most `maxInFlight` pending requests were handed to its channel, at most
`maxInFlight + maxQueue` are pending, a pending request has its place among the active or the
waiting ones, and the ticket of an admitted request is live exactly as long as its entry is
pending or the task that took the entry out is about to drop it; then its place is free. -/
theorem admission_cap {st : BrokerState W} (h : Exec.Reachable step init st) (s : W.SocketId)
    (hlt : (st.queue s).enqueues < 2 ^ 64) :
    (∀ rs : Finset W.RequestId, (∀ r ∈ rs, .request r ∈ (st.outbound s).log ∧
      (st.pending.lookup (s, r)).isSome = true) → rs.card ≤ maxInFlight) ∧
    (∀ rs : Finset W.RequestId, (∀ r ∈ rs, (st.pending.lookup (s, r)).isSome = true) →
      rs.card ≤ maxInFlight + maxQueue) ∧
    ∀ r t, (st.call r).place = some (s, t) →
      ((st.pending.lookup (s, r)).isSome = true → t ∈ (st.queue s).tickets ∧
        (t.id ∈ (st.queue s).queue.active ∨ ⟨t.id, t.wait⟩ ∈ (st.queue s).queue.waiting)) ∧
      (st.pending.lookup (s, r) = none → (t ∈ (st.queue s).tickets ↔ (s, t) ∈ st.dropping) ∧
        ((s, t) ∉ st.dropping → t.id ∉ (st.queue s).queue.active ∧
          ⟨t.id, t.wait⟩ ∉ (st.queue s).queue.waiting)) := by
  obtain ⟨hp, hs⟩ := slotInv_of_reachable h
  have hx := (hs.queue s).exact hlt
  have hb := (hs.queue s).bounded
  refine ⟨fun rs hrs => ?_, fun rs hrs => ?_, fun r t hplace => ⟨fun hl => ?_, fun hn => ?_⟩⟩
  · -- a request that was handed over has been granted its place
    refine (hs.card_le hlt rs (st.queue s).queue.active fun r hr => ?_).trans (card_active hx hb)
    obtain ⟨hsent, hl⟩ := hrs r hr
    obtain ⟨t, hplace, hok, hin⟩ := hs.pending_ticket hp hl
    obtain ⟨u, hu⟩ := (sendInv_of_reachable h).sent s r hsent
    have hut : u = t := by
      rw [hu] at hplace
      exact (Prod.mk.inj (Option.some.inj hplace)).2
    exact ⟨t, ticket_of_place hplace, (hx.granted t hin).mp (hok.sent hlt (hut ▸ hu) hl)⟩
  · have hcard : ((st.queue s).queue.active ∪
        ((st.queue s).queue.waiting.map Waiter.id).toFinset).card ≤ maxInFlight + maxQueue := by
      calc _ ≤ (st.queue s).queue.active.card +
            ((st.queue s).queue.waiting.map Waiter.id).toFinset.card := Finset.card_union_le _ _
        _ ≤ maxInFlight + ((st.queue s).queue.waiting.map Waiter.id).length :=
          Nat.add_le_add (card_active hx hb) (List.toFinset_card_le _)
        _ ≤ maxInFlight + maxQueue := by
          rw [List.length_map]
          exact Nat.add_le_add_left hb.waiting_le _
    refine (hs.card_le hlt rs _ fun r hr => ?_).trans hcard
    obtain ⟨t, hplace, -, hin⟩ := hs.pending_ticket hp (hrs r hr)
    refine ⟨t, ticket_of_place hplace, Finset.mem_union.mpr ?_⟩
    rcases hs.placed hlt hplace hin (hrs r hr) with ha | hw
    · exact Or.inl ha
    · exact Or.inr (List.mem_toFinset.mpr (List.mem_map_of_mem hw))
  · obtain ⟨u, hu, -, hin⟩ := hs.pending_ticket hp hl
    obtain ⟨-, rfl⟩ := Prod.mk.inj (Option.some.inj (hplace.symm.trans hu))
    exact ⟨hin, hs.placed hlt hplace hin hl⟩
  · have hok := hs.ticket r s t (ticket_of_place hplace)
    have hheld : t ∈ (st.queue s).tickets ↔ (s, t) ∈ st.dropping := by
      rw [hok.held]
      unfold Holds
      cases hc : st.call r <;> simp_all [CallPhase.place]
    refine ⟨hheld, fun hd => ?_⟩
    have hgone : t ∉ (st.queue s).tickets := mt hheld.mp hd
    refine ⟨fun ha => ?_, fun hw => hgone (hx.waiting_live _ hw)⟩
    -- an active place is that of a live ticket, and numbers are channels
    obtain ⟨u, hu, hid⟩ := hx.active_live _ ha
    have hwait : u.wait = t.wait := by
      have htn := hok.number hlt
      have hun := hx.number u hu
      omega
    obtain ⟨q, hq⟩ := hs.owned s u hu
    obtain rfl := hs.inj q r s u t hq (ticket_of_place hplace) hwait
    obtain ⟨-, rfl⟩ := Prod.mk.inj (Option.some.inj (hq.symm.trans (ticket_of_place hplace)))
    exact hgone hu

/-- Five requests on one socket: the fifth waits until the first one is answered. -/
def crowdedCalls : List (BrokerEvent World.numbers) :=
  [.register 0 10, .addQueue 0] ++
    ([1, 2, 3, 4, 5].flatMap fun r =>
      [.route r 10, .findQueue r, .tryEnqueue r, .admitRequest r]) ++
    [.dispatch 1, .dispatch 2, .dispatch 3, .dispatch 4, .incoming 0 (.response 1 70),
      .dropTicket 0 ⟨1, 0⟩, .dispatch 5]

theorem admission_cap_crowdedCalls :
    ∃ st, Exec.exec step init crowdedCalls = some st ∧ (st.queue 0).queue.inFlight = 4 ∧
      Finset.card {2, 3, 4, 5} ≤ maxInFlight :=
  ⟨_, rfl, rfl, (admission_cap ⟨crowdedCalls, rfl⟩ 0 (by decide)).1 {2, 3, 4, 5} (by decide)⟩

/-! ## Saturated ticket numbers -/

/-- After `n` requests that were enqueued and given up, nothing is left behind. -/
structure Quiet (st : BrokerState World.numbers) (n : ℕ) : Prop where
  routed : st.registry.routeFor 10 = some 0
  queues : st.queues 0 = true
  idle : ∀ r, n ≤ r → st.call r = .idle
  pending : ∀ k, st.pending.lookup k = none
  dropping : st.dropping = []
  cancelRouted : st.cancelRouted = []
  nextId : (st.queue 0).queue.nextId = min (n + 1) (2 ^ 64 - 1)
  inFlight : (st.queue 0).queue.inFlight = 0
  waiting : (st.queue 0).queue.waiting = []
  active : (st.queue 0).queue.active = ∅
  tickets : (st.queue 0).tickets = []

theorem quiet_zero : ∃ st : BrokerState World.numbers,
    Exec.exec step (init : BrokerState World.numbers) [.register (0 : ℕ) (10 : ℕ), .addQueue (0 : ℕ)] =
      some st ∧ Quiet st 0 :=
  ⟨_, rfl, rfl, rfl, fun _ _ => rfl, fun _ => rfl, rfl, rfl, by decide, rfl, rfl, rfl, rfl⟩

/-- A free place is taken at once. -/
theorem tryEnqueue_free {q : QueueState} (hin : q.queue.inFlight < maxInFlight)
    (hw : q.queue.waiting = []) :
    ∃ p, q.tryEnqueue = (.ok ⟨q.queue.nextId, q.queue.chans.next⟩, p) ∧
      p.queue.nextId = saturatingSucc q.queue.nextId ∧ p.queue.waiting = [] ∧
      p.queue.inFlight = q.queue.inFlight + 1 ∧
      p.queue.active = insert q.queue.nextId q.queue.active ∧
      p.tickets = ⟨q.queue.nextId, q.queue.chans.next⟩ :: q.tickets := by
  refine ⟨q.tryEnqueue.2, Prod.ext ?_ rfl, ?_⟩ <;>
    simp only [QueueState.tryEnqueue, SessionQueue.tryEnqueue, hin, hw, and_self, if_true]

/-- Dropping the ticket of an active place frees it when nobody waits. -/
theorem dropTicket_active {q : QueueState} {t : QueueTicket} (hw : q.queue.waiting = [])
    (ha : t.id ∈ q.queue.active) :
    (q.dropTicket t).queue.nextId = q.queue.nextId ∧ (q.dropTicket t).queue.waiting = [] ∧
      (q.dropTicket t).queue.inFlight = q.queue.inFlight - 1 ∧
      (q.dropTicket t).queue.active = q.queue.active.erase t.id := by
  simp only [QueueState.dropTicket, SessionQueue.release, hw, List.not_mem_nil, false_and,
    exists_false, if_false, ha, if_true, SessionQueue.promote, SessionQueue.promoteLoop, and_self]

/-- One more request is enqueued and given up. -/
def giveUp (r : ℕ) : List (BrokerEvent World.numbers) :=
  [.route r 10, .findQueue r, .tryEnqueue r, .abandon r, .dropAbandoned r]

theorem Quiet.succ {st : BrokerState World.numbers} {n : ℕ} (h : Quiet st n) :
    ∃ st', Exec.exec step st (giveUp n) = some st' ∧ Quiet st' (n + 1) := by
  have hn := h.idle n le_rfl
  have hin : (st.queue 0).queue.inFlight < maxInFlight := by rw [h.inFlight]; decide
  obtain ⟨q, hq, hnext, hwait, hfly, hact, htick⟩ := tryEnqueue_free hin h.waiting
  set t : QueueTicket := ⟨(st.queue 0).queue.nextId, (st.queue 0).queue.chans.next⟩ with ht
  obtain ⟨hnext', hwait', hfly', hact'⟩ :=
    dropTicket_active (q := q.dropWait t.wait) (t := t) hwait (hact ▸ Finset.mem_insert_self _ _)
  refine ⟨_, Exec.exec_cons_eq_some.mpr ⟨st.setCall n (.routed 0), ?_,
    Exec.exec_cons_eq_some.mpr ⟨st.setCall n (.found 0), ?_,
    Exec.exec_cons_eq_some.mpr ⟨(st.setQueue 0 q).setCall n (.enqueued 0 t st.now), ?_,
    Exec.exec_cons_eq_some.mpr ⟨(st.setQueue 0 (q.dropWait t.wait)).setCall n (.abandoned 0 t), ?_,
    Exec.exec_cons_eq_some.mpr
      ⟨(st.setQueue 0 ((q.dropWait t.wait).dropTicket t)).setCall n .givenUp, ?_, rfl⟩⟩⟩⟩⟩, ?_⟩
  · simp only [step, route, hn, h.routed]
  · simp only [step, findQueue, setCall, Function.update_self, h.queues, if_true,
      Function.update_idem]
  · simp only [step, tryEnqueue, setCall, Function.update_self, hq, setQueue,
      Function.update_idem]
  · simp only [step, abandon, setCall, Function.update_self, setQueue, Function.update_idem]
  · simp only [step, dropAbandoned, setCall, Function.update_self, setQueue, Function.update_idem]
  · refine ⟨h.routed, h.queues, fun r hr => ?_, h.pending, h.dropping, h.cancelRouted, ?_, ?_, ?_,
      ?_, ?_⟩ <;> simp only [setCall, setQueue, Function.update_self]
    · rw [Function.update_of_ne (by omega : r ≠ n)]
      exact h.idle r (by omega)
    · rw [hnext']
      change q.queue.nextId = _
      rw [hnext, h.nextId, saturatingSucc_min]
    · rw [hfly']
      change q.queue.inFlight - 1 = 0
      rw [hfly, h.inFlight]
    · exact hwait'
    · rw [hact']
      change q.queue.active.erase t.id = ∅
      rw [hact, h.active]
      simp [ht]
    · change q.tickets.erase t = []
      rw [htick, h.tickets]
      simp

theorem exists_quiet (n : ℕ) :
    ∃ st : BrokerState World.numbers, Exec.Reachable step init st ∧ Quiet st n := by
  induction n with
  | zero =>
      obtain ⟨st, hrun, hq⟩ := quiet_zero
      exact ⟨st, ⟨_, hrun⟩, hq⟩
  | succ n ih =>
      obtain ⟨st, ⟨es, hes⟩, hq⟩ := ih
      obtain ⟨st', hrun, hq'⟩ := hq.succ
      exact ⟨st', ⟨es ++ giveUp n, (Exec.exec_append_of_eq hes _).trans hrun⟩, hq'⟩

/-- An invocation runs up to its admission. -/
theorem exec_invoke {st : BrokerState W} {r : W.RequestId} {c : W.ConnectionId} {s : W.SocketId}
    {t : QueueTicket} {q : QueueState} (hcall : st.call r = .idle)
    (hroute : st.registry.routeFor c = some s) (hqueue : st.queues s = true)
    (htry : (st.queue s).tryEnqueue = (.ok t, q)) (hfree : st.dropping = [])
    (hl : st.pending.lookup (s, r) = none) :
    Exec.exec step st [.route r c, .findQueue r, .tryEnqueue r, .admitRequest r] =
      some ({ st with pending := st.pending.insert (s, r) (admission r s t st.now) }.setQueue s
        q |>.setCall r (.admitted s t)) := by
  refine Exec.exec_cons_eq_some.mpr ⟨st.setCall r (.routed s), ?_,
    Exec.exec_cons_eq_some.mpr ⟨st.setCall r (.found s), ?_,
    Exec.exec_cons_eq_some.mpr ⟨(st.setQueue s q).setCall r (.enqueued s t st.now), ?_,
    Exec.exec_cons_eq_some.mpr ⟨_, ?_, rfl⟩⟩⟩⟩
  · simp only [step, route, hcall, hroute]
  · simp only [step, findQueue, setCall, Function.update_self, hqueue, if_true,
      Function.update_idem]
  · simp only [step, tryEnqueue, setCall, Function.update_self, htry, setQueue,
      Function.update_idem]
  · simp only [step, admitRequest, setCall, Function.update_self, setQueue, hfree, if_true,
      PendingMap.admitEntry, admission, hl, Option.isSome_none, Bool.false_eq_true, if_false,
      Function.update_idem]

/-- A cancel takes the entry out and drops its ticket. -/
theorem exec_cancel {st : BrokerState W} {r : W.RequestId} {c : W.ConnectionId} {s : W.SocketId}
    {t : QueueTicket} {p : PendingRequest W} (hroute : st.registry.routeFor c = some s)
    (hfree : st.dropping = []) (hrouted : st.cancelRouted = [])
    (hl : st.pending.lookup (s, r) = some p) (ht : p.ticket = some t) :
    Exec.exec step st [.cancelRoute c r, .cancelPending s r, .dropTicket s t] =
      some ({ st with
        pending := st.pending.erase (s, r)
        resolved := st.resolved ++ [Settled.mk (s, r) p (.error (.new .cancelled false))]
        cancelSends := (s, r) :: st.cancelSends }.setQueue s ((st.queue s).dropTicket t)) := by
  refine Exec.exec_cons_eq_some.mpr ⟨{ st with cancelRouted := [(s, r)] }, ?_,
    Exec.exec_cons_eq_some.mpr ⟨{ st with
      pending := st.pending.erase (s, r)
      resolved := st.resolved ++ [Settled.mk (s, r) p (.error (.new .cancelled false))]
      dropping := [(s, t)]
      cancelSends := (s, r) :: st.cancelSends }, ?_,
    Exec.exec_cons_eq_some.mpr ⟨_, ?_, rfl⟩⟩⟩
  · simp only [step, cancelRoute, hroute, hrouted]
  · simp only [step, cancelPending, List.mem_singleton, hfree, and_self, if_true, PendingMap.cancel,
      PendingMap.complete, hl, settle, hrouted, List.erase_cons_head, List.filterMap_cons, ht,
      Option.map_some, List.filterMap_nil]
  · simp only [step, dropTicket, List.mem_singleton, if_true, List.erase_cons_head, hfree]

/-- A second place under the number of the first cannot be given back. -/
theorem leak_of_saturated {q : QueueState} (hin : q.queue.inFlight = 0)
    (hw : q.queue.waiting = []) (ht : q.tickets = [])
    (hid : saturatingSucc q.queue.nextId = q.queue.nextId) :
    ∃ t u p p', q.tryEnqueue = (.ok t, p) ∧ p.tryEnqueue = (.ok u, p') ∧
      ((p'.dropTicket t).dropTicket u).queue.inFlight = 1 ∧
      ((p'.dropTicket t).dropTicket u).tickets = [] := by
  obtain ⟨p, hp, hnext, hwait, hfly, hact, htick⟩ :=
    tryEnqueue_free (by rw [hin]; decide : q.queue.inFlight < maxInFlight) hw
  obtain ⟨p', hp', -, hwait', hfly', hact', htick'⟩ :=
    tryEnqueue_free (by rw [hfly, hin]; decide : p.queue.inFlight < maxInFlight) hwait
  have hnum : p.queue.nextId = q.queue.nextId := hnext.trans hid
  rw [hnum] at hp' hact' htick'
  set t : QueueTicket := ⟨q.queue.nextId, q.queue.chans.next⟩ with htdef
  set u : QueueTicket := ⟨q.queue.nextId, p.queue.chans.next⟩ with hudef
  have hmem : t.id ∈ p'.queue.active := hact' ▸ Finset.mem_insert_self _ _
  obtain ⟨-, hwait₁, hfly₁, hact₁⟩ := dropTicket_active hwait' hmem
  have hgone : u.id ∉ (p'.dropTicket t).queue.active := by
    rw [hact₁]
    exact Finset.notMem_erase _ _
  refine ⟨t, u, p, p', hp, hp', ?_, ?_⟩
  · rw [QueueState.dropTicket]
    simp only [SessionQueue.release, hwait₁, List.not_mem_nil, false_and, exists_false, if_false,
      hgone, hfly₁, hfly', hfly, hin]
  · change (p'.tickets.erase t).erase u = []
    rw [htick', htick, ht]
    by_cases hut : u = t
    · simp [hut]
    · simp [hut]

/-- From there, two admitted requests get the last number, and are cancelled. -/
theorem Quiet.leak {st : BrokerState World.numbers} {n : ℕ} (h : Quiet st n)
    (hn : 2 ^ 64 ≤ n) :
    ∃ es st', Exec.exec step st es = some st' ∧ (∀ k, st'.pending.lookup k = none) ∧
      st'.dropping = [] ∧ (st'.queue 0).tickets = [] ∧ (st'.queue 0).queue.inFlight = 1 := by
  have hid : (st.queue 0).queue.nextId = 2 ^ 64 - 1 := by
    rw [h.nextId]
    omega
  obtain ⟨t, u, p, p', hp, hp', hfly, htick⟩ :=
    leak_of_saturated h.inFlight h.waiting h.tickets (by rw [hid]; decide)
  have hne : n + 1 ≠ n := Nat.succ_ne_self n
  have hk : (((0 : ℕ), n) : PendingKey World.numbers) ≠ ((0 : ℕ), n + 1) := by simp
  have hk' : (((0 : ℕ), n + 1) : PendingKey World.numbers) ≠ ((0 : ℕ), n) := by simp
  -- both are admitted
  have hadmit := exec_invoke (h.idle n le_rfl) h.routed h.queues hp h.dropping (h.pending _)
  set a := ({ st with pending := st.pending.insert ((0 : ℕ), n) (admission n (0 : ℕ) t st.now) } :
    BrokerState World.numbers).setQueue (0 : ℕ) p |>.setCall n (.admitted (0 : ℕ) t) with ha
  have hidle : a.call (n + 1) = .idle := by
    simp only [ha, setCall, Function.update_of_ne hne]
    exact h.idle _ (Nat.le_succ n)
  have htry : (a.queue 0).tryEnqueue = (.ok u, p') := by
    simp only [ha, setCall, setQueue, Function.update_self]
    exact hp'
  have hnew : a.pending.lookup ((0 : ℕ), n + 1) = none := by
    change (st.pending.insert _ _).lookup _ = none
    rw [Table.lookup_insert_eq, if_neg hk']
    exact h.pending _
  have hadmit' := exec_invoke hidle h.routed h.queues htry h.dropping hnew
  set b := ({ a with
      pending := a.pending.insert ((0 : ℕ), n + 1) (admission (n + 1) (0 : ℕ) u a.now) } :
    BrokerState World.numbers).setQueue (0 : ℕ) p' |>.setCall (n + 1) (.admitted (0 : ℕ) u) with hb
  have hbl : ∀ k, b.pending.lookup k = if k = ((0 : ℕ), n + 1) then
      some (admission (n + 1) (0 : ℕ) u a.now) else if k = ((0 : ℕ), n) then
      some (admission n (0 : ℕ) t st.now) else none := by
    intro k
    change ((st.pending.insert _ _).insert _ _).lookup k = _
    rw [Table.lookup_insert_eq, Table.lookup_insert_eq, h.pending]
  -- both are cancelled
  have hlive : b.pending.lookup ((0 : ℕ), n) = some (admission n (0 : ℕ) t st.now) := by
    rw [hbl, if_neg hk, if_pos rfl]
  have hroute : b.registry.routeFor (10 : ℕ) = some (0 : ℕ) := h.routed
  have hcancel := exec_cancel hroute h.dropping h.cancelRouted hlive rfl
  set d := ({ b with
      pending := b.pending.erase ((0 : ℕ), n)
      resolved := b.resolved ++
        [Settled.mk ((0 : ℕ), n) (admission n (0 : ℕ) t st.now) (.error (.new .cancelled false))]
      cancelSends := ((0 : ℕ), n) :: b.cancelSends } : BrokerState World.numbers).setQueue (0 : ℕ)
    ((b.queue 0).dropTicket t) with hd
  have hlive' : d.pending.lookup ((0 : ℕ), n + 1) = some (admission (n + 1) (0 : ℕ) u a.now) := by
    change (b.pending.erase _).lookup _ = _
    rw [Table.lookup_erase_eq, if_neg hk', hbl, if_pos rfl]
  have hroute' : d.registry.routeFor (10 : ℕ) = some (0 : ℕ) := h.routed
  have hcancel' := exec_cancel hroute' h.dropping h.cancelRouted hlive' rfl
  refine ⟨_, _, (Exec.exec_append_of_eq hadmit _).trans ((Exec.exec_append_of_eq hadmit' _).trans
    ((Exec.exec_append_of_eq hcancel _).trans hcancel')), fun k => ?_, h.dropping, ?_, ?_⟩
  · change ((b.pending.erase _).erase _).lookup k = none
    rw [Table.lookup_erase_eq, Table.lookup_erase_eq, hbl]
    split_ifs <;> rfl
  · simpa only [hd, hb, setCall, setQueue, Function.update_self] using htick
  · simpa only [hd, hb, setCall, setQueue, Function.update_self] using hfly

/-- **A leaked place.** After enough requests two admitted ones share the last ticket number;
both are cancelled and their tickets dropped, and one place stays taken for good. -/
theorem saturated_place_leaks :
    ∃ st : BrokerState World.numbers, Exec.Reachable step init st ∧
      (∀ k, st.pending.lookup k = none) ∧ st.dropping = [] ∧ (st.queue 0).tickets = [] ∧ (st.queue 0).queue.inFlight = 1 := by
  obtain ⟨st, ⟨es, hes⟩, h⟩ := exists_quiet (2 ^ 64)
  obtain ⟨fs, st', hfs, hleak⟩ := h.leak le_rfl
  exact ⟨st', ⟨es ++ fs, (Exec.exec_append_of_eq hes _).trans hfs⟩, hleak⟩

end BrokerState

end FigmaDevMcp

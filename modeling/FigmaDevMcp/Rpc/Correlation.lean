import FigmaDevMcp.Rpc.ClientInvariant
import FigmaDevMcp.Rpc.WindDown

set_option autoImplicit false

/-!
# Requests and results of one connection

A client and the leader's side of its connection, with the two streams between them: each side
reads what the other has written, in order.

* `LedgerEffect`, `LeaderInv`: the leader answers each request it has read at most once, and
  answers it or serves it until its loop ends;
* `LinkInv`: both sides and what they have read of each other;
* **`rpc_correlation`**: which results the calls of the client get.
-/

namespace FigmaDevMcp

variable {W : RpcWorld}

/-- The message ends the call `r`. -/
def LeaderToFrontend.ends (r : W.RpcRequestId)
    (m : LeaderToFrontend W.RpcRequestId W.BrokerResult) : Bool :=
  m.terminal.any fun a => a.1 = r

namespace Leader

/-! ## What the leader owes -/

/-- The frames written, with the one that is being written. -/
def written (l : Leader W) : List (LeaderToFrontend W.RpcRequestId W.BrokerResult) :=
  match l.phase with
  | .sending m => l.sent ++ [m]
  | _ => l.sent

/-- How often the call `r` was answered. -/
def answers (l : Leader W) (r : W.RpcRequestId) : ℕ :=
  l.written.countP fun m => m.ends r

/-- How often the request `r` was read. -/
def requests (l : Leader W) (r : W.RpcRequestId) : ℕ := l.received.count (.request r)

/-- A call of this id is under way. -/
def serves (l : Leader W) (r : W.RpcRequestId) : Bool := (l.calls.lookup r).isSome

/-- What a step does to the requests read, the calls served and the answers. -/
inductive LedgerEffect (l l' : Leader W) : Prop
  | stays (hrequests : ∀ r, l'.requests r = l.requests r) (hserves : ∀ r, l'.serves r = l.serves r)
      (hanswers : ∀ r, l'.answers r = l.answers r) (hover : l.isOver = true → l'.isOver = true)
  | takes (r : W.RpcRequestId) (hfree : l.serves r = false)
      (hrequests : ∀ q, l'.requests q = l.requests q + if q = r then 1 else 0)
      (hserves : ∀ q, l'.serves q = (decide (q = r) || l.serves q))
      (hanswers : ∀ q, l'.answers q = l.answers q) (hover : l.isOver = true → l'.isOver = true)
  | answers (r : W.RpcRequestId) (hloop : l.isOver = false) (hbusy : l.serves r = true)
      (hrequests : ∀ q, l'.requests q = l.requests q)
      (hserves : ∀ q, l'.serves q = (!decide (q = r) && l.serves q))
      (hanswers : ∀ q, l'.answers q = l.answers q + if q = r then 1 else 0)
  | stops (hrequests : ∀ r, l.requests r ≤ l'.requests r)
      (hserves : ∀ r, l'.serves r = true → l.serves r = true)
      (hanswers : ∀ r, l'.answers r ≤ l.answers r) (hover : l'.isOver = true)

theorem ends_ofResult (r q : W.RpcRequestId) (result : CallResult W) :
    (LeaderToFrontend.ofResult r result).ends q = decide (q = r) := by
  simp only [LeaderToFrontend.ends, LeaderToFrontend.terminal_ofResult, Option.any_some, eq_comm]

/-- A task's step changes neither. -/
theorem ledger_stepCall {l l' : Leader W} {r : W.RpcRequestId}
    {f : LeaderCall W → Option (LeaderCall W)} (h : l.stepCall r f = some l') :
    LedgerEffect l l' := by
  obtain ⟨c, c', hc, -, rfl⟩ := stepCall_eq_some h
  refine .stays (fun _ => rfl) (fun q => ?_) (fun _ => rfl) id
  simp only [serves, setCall, setCalls, Table.lookup_insert_eq]
  by_cases hq : q = r
  · subst hq
    rw [if_pos rfl, hc]
    rfl
  · rw [if_neg hq]

theorem serves_erase (l : Leader W) (r q : W.RpcRequestId) :
    (l.setCalls (l.calls.erase r)).serves q = (!decide (q = r) && l.serves q) := by
  simp only [serves, setCalls, Table.lookup_erase_eq]
  by_cases hq : q = r <;> simp [hq]

theorem ledger_receive {l l' : Leader W} {m : FrontendToLeader W.RpcRequestId}
    (h : l.receive m = some l') : LedgerEffect l l' := by
  unfold receive at h
  split_ifs at h with hloop
  have hphase := inLoop_phase hloop
  have hcount : ∀ q, (l.received ++ [m]).count (.request q) =
      l.received.count (.request q) + if m = .request q then 1 else 0 := by
    intro q
    rw [List.count_append, List.count_singleton]
    simp only [beq_iff_eq]
  cases m with
  | request r =>
      dsimp only at h
      split_ifs at h with hdup <;> cases h
      · refine .stops (fun q => ?_) (fun q hq => hq) (fun q => ?_) rfl
        · exact (Nat.le_add_right _ _).trans (hcount q).ge
        · simp only [answers, written, hphase, le_refl]
      · refine .takes r (Bool.eq_false_iff.mpr hdup) (fun q => ?_) (fun q => ?_) (fun _ => rfl) id
        · refine (hcount q).trans ?_
          simp only [FrontendToLeader.request.injEq, eq_comm, requests]
        · simp only [serves, setCalls, Table.lookup_insert_eq]
          by_cases hq : q = r <;> simp [hq]
  | cancel r =>
      cases h
      refine .stays (fun q => ?_) (fun q => ?_) (fun _ => rfl) id
      · refine (hcount q).trans ?_
        simp only [reduceCtorEq, if_false, Nat.add_zero, requests]
      · simp only [serves, setCalls, Table.lookup_modify]
        by_cases hq : q = r
        · subst hq
          rw [if_pos rfl, Option.isSome_map]
        · rw [if_neg hq]

theorem ledger_recvProgress {l l' : Leader W} (h : l.recvProgress = some l') :
    LedgerEffect l l' := by
  unfold recvProgress at h
  split_ifs at h with hloop
  have hphase := inLoop_phase hloop
  split at h
  · exact absurd h (by simp)
  · rename_i r f ch hrecv
    dsimp only at h
    split_ifs at h <;> cases h
    · refine .stays (fun _ => rfl) (fun _ => rfl) (fun q => ?_) fun ho => ?_
      · simp only [answers, written, hphase, List.countP_append, List.countP_singleton,
          LeaderToFrontend.ends, LeaderToFrontend.terminal, Option.any_none, Bool.false_eq_true,
          if_false, Nat.add_zero]
      · simp [isOver, hphase] at ho
    · exact .stays (fun _ => rfl) (fun _ => rfl) (fun _ => rfl) id

theorem ledger_join {l l' : Leader W} {r : W.RpcRequestId} (h : l.join r = some l') :
    LedgerEffect l l' := by
  unfold join at h
  split_ifs at h with hloop
  have hphase := inLoop_phase hloop
  split at h
  · rename_i result a b o hc
    cases h
    have hbusy : l.serves r = true := by
      rw [serves, hc]
      rfl
    -- an answer is written, whatever it is
    have hanswer : ∀ m : LeaderToFrontend W.RpcRequestId W.BrokerResult,
        (∀ q, m.ends q = decide (q = r)) → LedgerEffect l
          { l.setCalls (l.calls.erase r) with phase := .sending m } := by
      intro m hm
      refine .answers r (by simp only [isOver, hphase]) hbusy (fun _ => rfl) (fun q => serves_erase l r q) fun q => ?_
      simp only [Leader.answers, written, hphase, setCalls, List.countP_append,
        List.countP_singleton, hm, decide_eq_true_eq]
    unfold answer
    split_ifs
    · exact hanswer _ fun q => ends_ofResult r q result
    · exact hanswer _ fun q => ends_ofResult r q (.error (.new .limitExceeded false))
    · refine .stops (fun _ => le_rfl) (fun q hq => ?_) (fun q => ?_) rfl
      · have hs := (serves_erase l r q).symm.trans hq
        simp only [Bool.and_eq_true] at hs
        exact hs.2
      · simp only [Leader.answers, written, hphase, setCalls, le_refl]
  · exact absurd h (by simp)

theorem ledger_end {l : Leader W} (h : l.inLoop = true) :
    LedgerEffect l { l with phase := .ended } :=
  .stops (fun _ => le_rfl) (fun _ hq => hq)
    (fun _ => by simp only [Leader.answers, written, inLoop_phase h, le_refl]) rfl

/-- **Ledger effect.** Every step does one of these four things to the calls. -/
theorem step_ledger {l l' : Leader W} {e : LeaderEvent W} (h : l.step e = some l') :
    LedgerEffect l l' := by
  cases e with
  | shutdown =>
      cases h
      exact .stays (fun _ => rfl) (fun _ => rfl) (fun _ => rfl) id
  | endShutdown =>
      simp only [step] at h
      split_ifs at h with hc
      cases h
      exact ledger_end hc.1
  | endStream =>
      simp only [step] at h
      split_ifs at h with hc
      cases h
      exact ledger_end hc
  | receive m => exact ledger_receive h
  | recvProgress => exact ledger_recvProgress h
  | join r => exact ledger_join h
  | sent =>
      simp only [step, finishSend] at h
      split at h <;> cases h
      rename_i m hphase
      refine .stays (fun _ => rfl) (fun _ => rfl) (fun q => ?_) fun ho => ?_
      · simp only [Leader.answers, written, hphase]
      · simp [isOver, hphase] at ho
  | sendFailed =>
      simp only [step, failSend] at h
      split at h <;> cases h
      rename_i m hphase
      refine .stops (fun _ => le_rfl) (fun _ hq => hq) (fun q => ?_) rfl
      simp only [Leader.answers, written, hphase, List.countP_append, Nat.le_add_right]
  | cancelAll =>
      simp only [step, cancelAll] at h
      split at h <;> cases h
      rename_i hphase
      refine .stays (fun _ => rfl) (fun q => ?_) (fun q => ?_) fun _ => rfl
      · simp only [serves, setCalls, Table.lookup_mapValues, Option.isSome_map]
      · simp only [Leader.answers, written, hphase, setCalls]
  | drain r =>
      simp only [step, drain] at h
      split at h <;> cases h
      rename_i hphase hc
      refine .stops (fun _ => le_rfl) (fun q hq => ?_) (fun _ => le_rfl) ?_
      · have hs := (serves_erase l r q).symm.trans hq
        simp only [Bool.and_eq_true] at hs
        exact hs.2
      · simp only [isOver, setCalls, hphase]
  | finish =>
      simp only [step, finish] at h
      split at h
      · rename_i hphase
        split_ifs at h
        cases h
        refine .stays (fun _ => rfl) (fun _ => rfl) (fun _ => ?_) fun _ => rfl
        simp only [Leader.answers, written, hphase]
      · exact absurd h (by simp)
  | opened r e => exact ledger_stepCall h
  | takeResult r | takeProgress r | takeCancel r | cancelDone r => exact ledger_stepCall h
  | emit r f => exact ledger_stepCall h
  | settle r result => exact ledger_stepCall h
  | forward r =>
      simp only [step, forward] at h
      split at h
      · rename_i f a b o hc
        split at h <;> cases h
        refine .stays (fun _ => rfl) (fun q => ?_) (fun _ => rfl) id
        simp only [serves, setCall, setCalls, Table.lookup_insert_eq]
        by_cases hq : q = r
        · subst hq
          rw [if_pos rfl, hc]
          rfl
        · rw [if_neg hq]
      · exact absurd h (by simp)

/-- A request is answered at most once, and served or answered until the loop ends. -/
structure LeaderInv (l : Leader W) : Prop where
  once : ∀ r, l.answers r + (if l.serves r then 1 else 0) ≤ l.requests r
  owed : ∀ r, 0 < l.requests r → l.serves r = true ∨ 0 < l.answers r ∨ l.isOver = true

theorem leaderInv_init : LeaderInv (init : Leader W) :=
  ⟨fun _ => le_rfl, fun _ h => absurd h (lt_irrefl 0)⟩

theorem step_leaderInv (l : Leader W) (e : LeaderEvent W) (l' : Leader W)
    (hstep : l.step e = some l') (h : LeaderInv l) : LeaderInv l' := by
  cases step_ledger hstep with
  | stays hrequests hserves hanswers hover =>
      refine ⟨fun r => ?_, fun r hr => ?_⟩
      · rw [hanswers, hserves, hrequests]
        exact h.once r
      · rw [hrequests] at hr
        rw [hserves, hanswers]
        exact (h.owed r hr).imp id (Or.imp id hover)
  | takes r hfree hrequests hserves hanswers hover =>
      refine ⟨fun q => ?_, fun q hq => ?_⟩
      · have ho := h.once q
        rw [hanswers, hserves, hrequests]
        by_cases hqr : q = r
        · subst hqr
          simp only [hfree] at ho
          simpa using ho
        · simpa [hqr] using ho
      · rw [hserves, hanswers]
        by_cases hqr : q = r
        · exact Or.inl (by simp [hqr])
        · rw [hrequests, if_neg hqr] at hq
          refine (h.owed q hq).imp (fun hs => ?_) (Or.imp id hover)
          rw [hs, Bool.or_true]
  | answers r hloop hbusy hrequests hserves hanswers =>
      refine ⟨fun q => ?_, fun q hq => ?_⟩
      · have ho := h.once q
        rw [hanswers, hserves, hrequests]
        by_cases hqr : q = r
        · subst hqr
          simp only [hbusy, if_true] at ho
          simpa using ho
        · simpa [hqr] using ho
      · rw [hrequests] at hq
        rw [hserves, hanswers]
        by_cases hqr : q = r
        · exact Or.inr (Or.inl (by simp [hqr]))
        · rcases h.owed q hq with hs | ha | hover
          · exact Or.inl (by simp [hqr, hs])
          · exact Or.inr (Or.inl (Nat.lt_add_right _ ha))
          · exact absurd (hloop.symm.trans hover) (by simp)
  | stops hrequests hserves hanswers hover =>
      refine ⟨fun q => ?_, fun q _ => Or.inr (Or.inr hover)⟩
      have ho := h.once q
      have hr := hrequests q
      have ha := hanswers q
      have hs : (if l'.serves q then 1 else 0) ≤ if l.serves q then 1 else 0 := by
        by_cases hq : l'.serves q = true
        · simp [hq, hserves q hq]
        · simp [hq]
      omega

end Leader

/-! ## Both sides -/

/-- A client and the leader's side of its connection. -/
structure Link (W : RpcWorld) where
  client : Client W
  leader : Leader W

/-- A step of either side other than reading, or one side reads the next frame of the other. -/
inductive LinkEvent (W : RpcWorld) where
  | client (e : ClientEvent W)
  | leader (e : LeaderEvent W)
  | toClient
  | toLeader

namespace Link

/-- Both ends before anything is sent. -/
def init : Link W := ⟨.init, .init⟩

/-- What one event does; the next message on the wire is received at the other end. -/
def step (k : Link W) : LinkEvent W → Option (Link W)
  | .client (.receive _) => none
  | .client e => (k.client.step e).map fun c => { k with client := c }
  | .leader (.receive _) => none
  | .leader e => (k.leader.step e).map fun l => { k with leader := l }
  | .toClient =>
    k.leader.sent[k.client.received.length]?.bind fun m =>
      (k.client.receive m).map fun c => { k with client := c }
  | .toLeader =>
    k.client.sent[k.leader.received.length]?.bind fun m =>
      (k.leader.receive m).map fun l => { k with leader := l }

/-- Reading the next frame of a stream. -/
theorem isPrefix_snoc {α : Type} {l s : List α} {a : α} (h : l <+: s)
    (ha : s[l.length]? = some a) : l ++ [a] <+: s := by
  obtain ⟨t, rfl⟩ := h
  rw [List.getElem?_append_right le_rfl, Nat.sub_self] at ha
  cases t with
  | nil => exact absurd ha (by simp)
  | cons b t =>
      obtain rfl : b = a := by simpa using ha
      exact ⟨t, by simp⟩

/-- Both ends keep their invariants, and each has received the first of what the other has sent. -/
structure LinkInv (k : Link W) : Prop where
  client : k.client.ClientInv
  leader : k.leader.LeaderInv
  toLeader : k.leader.received <+: k.client.sent
  toClient : k.client.received <+: k.leader.sent

theorem linkInv_init : LinkInv (init : Link W) :=
  ⟨Client.clientInv_init, Leader.leaderInv_init, List.prefix_rfl, List.prefix_rfl⟩

/-! ## The streams -/

/-- A step of the client writes at the end of its stream and reads one frame at most. -/
theorem client_streams {c c' : Client W} {e : ClientEvent W} (h : c.step e = some c') :
    c.sent <+: c'.sent ∧ (c'.received = c.received ∨
      ∃ m, e = .receive m ∧ c'.received = c.received ++ [m]) := by
  cases e with
  | command delivered =>
      obtain ⟨m, ch, -, -, -, -, -, hreceived, -, hsent⟩ := Client.command_eq_some h
      refine ⟨?_, Or.inl hreceived⟩
      rcases hsent with ⟨-, hs⟩ | ⟨-, hs⟩ <;> rw [hs]
      exact List.prefix_append _ _
  | receive m =>
      obtain ⟨-, ⟨r, result, -, -, rfl⟩ | ⟨-, frames, rfl⟩⟩ := Client.receive_eq_some h
      · exact ⟨List.prefix_rfl, Or.inr ⟨m, rfl, rfl⟩⟩
      · exact ⟨List.prefix_rfl, Or.inr ⟨m, rfl, rfl⟩⟩
  | sendRequest r =>
      obtain ⟨d, -, -, ⟨ch, -, rfl⟩ | ⟨-, rfl⟩⟩ := Client.sendRequest_eq_some h
      · exact ⟨List.prefix_rfl, Or.inl rfl⟩
      · exact ⟨List.prefix_rfl, Or.inl rfl⟩
  | cancelRpc r =>
      obtain ⟨ch, -, rfl⟩ | ⟨-, rfl⟩ := Client.sendCommand_eq_some h
      · exact ⟨List.prefix_rfl, Or.inl rfl⟩
      · exact ⟨List.prefix_rfl, Or.inl rfl⟩
  | sendCancel r =>
      simp only [Client.step, Client.sendCancel] at h
      split at h
      · obtain ⟨c₁, hc, rfl⟩ := Option.map_eq_some_iff.mp h
        obtain ⟨ch, -, rfl⟩ | ⟨-, rfl⟩ := Client.sendCommand_eq_some hc
        · exact ⟨List.prefix_rfl, Or.inl rfl⟩
        · exact ⟨List.prefix_rfl, Or.inl rfl⟩
      · exact absurd h (by simp)
  | watch r =>
      simp only [Client.step, Client.watch] at h
      split at h
      · obtain ⟨c₁, hc, rfl⟩ := Option.map_eq_some_iff.mp h
        obtain ⟨ch, -, rfl⟩ | ⟨-, rfl⟩ := Client.sendCommand_eq_some hc
        · exact ⟨List.prefix_rfl, Or.inl rfl⟩
        · exact ⟨List.prefix_rfl, Or.inl rfl⟩
      · exact absurd h (by simp)
  | recvProgress r =>
      obtain ⟨⟨f, ch⟩, -, rfl⟩ := Option.map_eq_some_iff.mp h
      exact ⟨List.prefix_rfl, Or.inl rfl⟩
  | start r k | fire r | takeReply r | takeCancel r | endStream | flush | dropCommands =>
      simp only [Client.step, Client.start, Client.fire, Client.takeReply, Client.takeCancel,
        Client.flush, Client.dropCommands] at h
      split at h <;> cases h <;> exact ⟨List.prefix_rfl, Or.inl rfl⟩

/-- A step of the leader writes at the end of its stream and reads one frame at most. -/
theorem leader_streams {l l' : Leader W} {e : LeaderEvent W} (h : l.step e = some l') :
    l.sent <+: l'.sent ∧ (l'.received = l.received ∨
      ∃ m, e = .receive m ∧ l'.received = l.received ++ [m]) := by
  cases e with
  | shutdown =>
      cases h
      exact ⟨List.prefix_rfl, Or.inl rfl⟩
  | receive m =>
      simp only [Leader.step, Leader.receive] at h
      split_ifs at h
      cases m with
      | request r =>
          dsimp only at h
          split_ifs at h <;> cases h <;> exact ⟨List.prefix_rfl, Or.inr ⟨_, rfl, rfl⟩⟩
      | cancel r =>
          cases h
          exact ⟨List.prefix_rfl, Or.inr ⟨_, rfl, rfl⟩⟩
  | recvProgress =>
      simp only [Leader.step, Leader.recvProgress] at h
      split_ifs at h
      split at h
      · exact absurd h (by simp)
      · split_ifs at h <;> cases h <;> exact ⟨List.prefix_rfl, Or.inl rfl⟩
  | join r =>
      simp only [Leader.step, Leader.join] at h
      split_ifs at h
      split at h <;> cases h
      exact ⟨List.prefix_rfl, Or.inl rfl⟩
  | sent =>
      simp only [Leader.step, Leader.finishSend] at h
      split at h <;> cases h
      exact ⟨List.prefix_append _ _, Or.inl rfl⟩
  | finish =>
      simp only [Leader.step, Leader.finish] at h
      split at h
      · split_ifs at h
        cases h
        exact ⟨List.prefix_rfl, Or.inl rfl⟩
      · exact absurd h (by simp)
  | forward r =>
      simp only [Leader.step, Leader.forward] at h
      split at h
      · split at h <;> cases h
        exact ⟨List.prefix_rfl, Or.inl rfl⟩
      · exact absurd h (by simp)
  | endShutdown | endStream | sendFailed | cancelAll | drain r =>
      simp only [Leader.step, Leader.failSend, Leader.cancelAll, Leader.drain] at h
      split at h <;> cases h
      exact ⟨List.prefix_rfl, Or.inl rfl⟩
  | opened r e | takeResult r | takeProgress r | takeCancel r | cancelDone r | emit r f | settle r x =>
      obtain ⟨c, c', -, -, rfl⟩ := Leader.stepCall_eq_some h
      exact ⟨List.prefix_rfl, Or.inl rfl⟩

/-- A step of the link is a step of one side, which reads what the other has written. -/
theorem step_cases {k k' : Link W} {e : LinkEvent W} (h : k.step e = some k') :
    (∃ d c, k.client.step d = some c ∧ k' = { k with client := c } ∧
      ∀ m, d = .receive m → k.leader.sent[k.client.received.length]? = some m) ∨
    ∃ d l, k.leader.step d = some l ∧ k' = { k with leader := l } ∧
      ∀ m, d = .receive m → k.client.sent[k.leader.received.length]? = some m := by
  cases e with
  | client d =>
      refine Or.inl ?_
      cases d with
      | receive m => exact absurd h (by simp [step])
      | _ =>
          obtain ⟨c, hc, rfl⟩ := Option.map_eq_some_iff.mp h
          exact ⟨_, c, hc, rfl, fun n hn => absurd hn (by simp)⟩
  | leader d =>
      refine Or.inr ?_
      cases d with
      | receive m => exact absurd h (by simp [step])
      | _ =>
          simp only [step] at h
          obtain ⟨l, hl, rfl⟩ := Option.map_eq_some_iff.mp h
          exact ⟨_, l, hl, rfl, fun n hn => absurd hn (by simp)⟩
  | toClient =>
      obtain ⟨m, hm, h⟩ := Option.bind_eq_some_iff.mp h
      obtain ⟨c, hc, rfl⟩ := Option.map_eq_some_iff.mp h
      refine Or.inl ⟨.receive m, c, hc, rfl, fun n hn => ?_⟩
      obtain rfl : m = n := by simpa using hn
      exact hm
  | toLeader =>
      obtain ⟨m, hm, h⟩ := Option.bind_eq_some_iff.mp h
      obtain ⟨l, hl, rfl⟩ := Option.map_eq_some_iff.mp h
      refine Or.inr ⟨.receive m, l, hl, rfl, fun n hn => ?_⟩
      obtain rfl : m = n := by simpa using hn
      exact hm

/-! ## The invariant of the link -/

theorem countP_pos_of_terminal {r : W.RpcRequestId} {result : CallResult W}
    {m : LeaderToFrontend W.RpcRequestId W.BrokerResult}
    {ms : List (LeaderToFrontend W.RpcRequestId W.BrokerResult)} (hm : m ∈ ms)
    (ht : m.terminal = some (r, result)) : 0 < ms.countP fun m => m.ends r := by
  refine List.countP_pos_iff.mpr ⟨m, hm, ?_⟩
  simp only [LeaderToFrontend.ends, ht, Option.any_some, decide_true]

theorem sent_prefix_written (l : Leader W) : l.sent <+: l.written := by
  unfold Leader.written
  split
  · exact List.prefix_append _ _
  · exact List.prefix_rfl

/-- A final message the leader has written is for a request it has read. -/
theorem request_of_terminal {k : Link W} (h : LinkInv k) {r : W.RpcRequestId}
    {result : CallResult W} {m : LeaderToFrontend W.RpcRequestId W.BrokerResult}
    (hm : m ∈ k.leader.sent) (ht : m.terminal = some (r, result)) : .request r ∈ k.client.sent := by
  have hpos : 0 < k.leader.answers r :=
    countP_pos_of_terminal ((sent_prefix_written k.leader).subset hm) ht
  have honce := h.leader.once r
  have hread : 0 < k.leader.requests r := by omega
  exact h.toLeader.subset (List.count_pos_iff.mp hread)

/-- Every step of the link keeps the invariant. -/
theorem step_linkInv (k : Link W) (e : LinkEvent W) (k' : Link W) (hstep : k.step e = some k')
    (h : LinkInv k) : LinkInv k' := by
  obtain ⟨d, c, hc, rfl, hnext⟩ | ⟨d, l, hl, rfl, hnext⟩ := step_cases hstep
  · obtain ⟨hsent, hreceived⟩ := client_streams hc
    refine ⟨Client.step_clientInv hc ?_ h.client, h.leader, h.toLeader.trans hsent, ?_⟩
    · rintro m r result rfl ht
      exact request_of_terminal h (List.mem_of_getElem? (hnext m rfl)) ht
    · rcases hreceived with hr | ⟨m, rfl, hr⟩
      · exact hr ▸ h.toClient
      · exact hr ▸ isPrefix_snoc h.toClient (hnext m rfl)
  · obtain ⟨hsent, hreceived⟩ := leader_streams hl
    refine ⟨h.client, Leader.step_leaderInv _ _ _ hl h.leader, ?_, h.toClient.trans hsent⟩
    rcases hreceived with hr | ⟨m, rfl, hr⟩
    · exact hr ▸ h.toLeader
    · exact hr ▸ isPrefix_snoc h.toLeader (hnext m rfl)

theorem linkInv_of_reachable {k : Link W} (h : Exec.Reachable step init k) : LinkInv k :=
  h.rec_inv linkInv_init step_linkInv

/-! ## The results of the calls -/

/-- A request of the client is read by the leader once at most. -/
theorem LinkInv.requests_le {k : Link W} (h : LinkInv k) (r : W.RpcRequestId) :
    k.leader.requests r ≤ 1 := by
  calc k.leader.requests r ≤ k.client.sent.count (.request r) := h.toLeader.sublist.count_le _
    _ ≤ k.client.commands.received.count (.request r) := h.client.replies.sent.count_le _
    _ ≤ k.client.commands.log.count (.request r) :=
      (Channel.received_isPrefix_log _).sublist.count_le _
    _ ≤ 1 := h.client.replies.once r

/-- Where the result of a call comes from. -/
theorem LinkInv.result {k : Link W} (h : LinkInv k) {r : W.RpcRequestId} {d : ClientCall W}
    {result : CallResult W} (hd : k.client.calls r = some d) (hdone : d.phase = .done result) :
    k.client.answer r = some result ∨
      (d.kind = .call ∧ d.cancelled = true ∧ result = callCancelled) ∨
      ((k.client.phase = .flushed ∨ k.client.phase = .closed) ∧ result = connectionLost ∧
        k.client.answer r = none) := by
  rcases (h.client.call r d hd).done result hdone with hv | ⟨hdrop, hl⟩ | hc | ⟨hn, hp, hl⟩
  · exact (h.client.replies.value r result hv).imp id Or.inr
  · exact Or.inr (Or.inr ⟨Or.inr (h.client.replies.dropped r hdrop), hl,
      h.client.replies.unanswered r (Or.inr hdrop)⟩)
  · exact Or.inr (Or.inl hc)
  · exact Or.inr (Or.inr ⟨Or.inr hp, hl,
      h.client.replies.unanswered r (Or.inl (h.client.replies.unsent r hn).2)⟩)

/-- A call that waits without a reply has its request on the way, in service, or answered by a
message that is on its way; or one side has ended. -/
theorem LinkInv.underway {k : Link W} (h : LinkInv k) (hrun : k.client.phase = .running)
    {r : W.RpcRequestId} {d : ClientCall W} (hd : k.client.calls r = some d)
    (hwait : d.phase = .waiting) (hunset : k.client.reply r = .unset) :
    .request r ∈ k.client.commands.queue ∨ .request r ∈ k.client.sent ∧
      (.request r ∉ k.leader.received ∨ k.leader.serves r = true ∨
        (∃ m ∈ k.leader.written, ∃ result, m.terminal = some (r, result) ∧
          m ∉ k.client.received) ∨ k.leader.isOver = true) := by
  have hlog := (h.client.call r d hd).waits (Or.inl hwait)
  rcases List.mem_append.mp hlog with hr | hq
  · refine Or.inr ?_
    have hp : r ∈ k.client.pending :=
      (h.client.replies.taken r hr).resolve_right fun hne => hne hunset
    refine ⟨h.client.replies.written hrun r hp, ?_⟩
    by_cases hread : .request r ∈ k.leader.received
    · refine Or.inr ?_
      rcases h.leader.owed r (List.count_pos_iff.mpr hread) with hs | ha | ho
      · exact Or.inl hs
      · refine Or.inr (Or.inl ?_)
        obtain ⟨m, hm, hends⟩ := List.countP_pos_iff.mp ha
        obtain ⟨⟨q, result⟩, ht, hq⟩ := (Option.any_eq_true _ _).mp hends
        obtain rfl : q = r := of_decide_eq_true hq
        have hnone := firstAnswer_eq_none.mp (h.client.replies.unanswered q (Or.inl hunset))
        exact ⟨m, hm, result, ht, fun hmem => hnone m hmem result ht⟩
      · exact Or.inr (Or.inr ho)
    · exact Or.inl hread
  · exact Or.inl hq

/-- Once the loop has returned, every unfinished call can take its last step. -/
theorem LinkInv.finishes {k : Link W} (h : LinkInv k) (hclosed : k.client.phase = .closed)
    {r : W.RpcRequestId} {d : ClientCall W} (hd : k.client.calls r = some d)
    (hunfinished : ∀ result, d.phase ≠ .done result) :
    ∃ e k' d' result, k.step (.client e) = some k' ∧ k'.client.calls r = some d' ∧
      d'.phase = .done result := by
  have hch := h.client.replies.closed.mpr hclosed
  obtain ⟨kind, phase, cancelled, watched⟩ := d
  cases phase with
  | sending =>
      refine ⟨.sendRequest r, ⟨k.client.setCall r ⟨kind, .done connectionLost, cancelled, watched⟩,
        k.leader⟩, _, _, ?_, Function.update_self _ _ _, rfl⟩
      simp only [step, Client.step, Client.sendRequest, hd, Channel.trySend, hch, if_true,
        Option.map_some]
  | waiting =>
      have hlog := (h.client.call r _ hd).waits (Or.inl rfl)
      have hset : k.client.reply r ≠ .unset := by
        rcases List.mem_append.mp hlog with hr | hq
        · refine (h.client.replies.taken r hr).resolve_left ?_
          rw [h.client.replies.swept (Or.inr hclosed)]
          exact Finset.notMem_empty r
        · rw [h.client.replies.lost hclosed r hq]
          simp
      cases hv : k.client.reply r with
      | unset => exact absurd hv hset
      | value result =>
          refine ⟨.takeReply r, ⟨k.client.setCall r ⟨kind, .done result, cancelled, watched⟩,
        k.leader⟩, _, _, ?_, Function.update_self _ _ _, rfl⟩
          simp only [step, Client.step, Client.takeReply, hd, hv, Option.map_some]
      | dropped =>
          refine ⟨.takeReply r, ⟨k.client.setCall r ⟨kind, .done connectionLost, cancelled, watched⟩,
        k.leader⟩, _, _, ?_, Function.update_self _ _ _, rfl⟩
          simp only [step, Client.step, Client.takeReply, hd, hv, Option.map_some]
  | cancelling =>
      refine ⟨.sendCancel r, ⟨k.client.setCall r ⟨kind, .done callCancelled, cancelled, watched⟩,
        k.leader⟩, _, _, ?_, Function.update_self _ _ _, rfl⟩
      simp only [step, Client.step, Client.sendCancel, hd, Client.sendCommand, Channel.trySend, hch,
        if_true, Option.map_some]
  | done result => exact absurd rfl (hunfinished result)

/-- Another call's step, or one that keeps the phase. -/
theorem done_setCall {c : Client W} {r q : W.RpcRequestId} {d e : ClientCall W}
    {result : CallResult W} (hd : c.calls r = some d) (hdone : d.phase = .done result)
    (he : q = r → e.phase = d.phase) :
    ∃ d', (c.setCall q e).calls r = some d' ∧ d'.phase = .done result := by
  by_cases hq : q = r
  · subst hq
    exact ⟨e, Function.update_self _ _ _, (he rfl).trans hdone⟩
  · exact ⟨d, (Function.update_of_ne (Ne.symm hq) _ _).trans hd, hdone⟩

/-- A result is never taken back. -/
theorem client_done {c c' : Client W} {e : ClientEvent W} (h : c.step e = some c')
    {r : W.RpcRequestId} {d : ClientCall W} {result : CallResult W} (hd : c.calls r = some d)
    (hdone : d.phase = .done result) :
    ∃ d', c'.calls r = some d' ∧ d'.phase = .done result := by
  -- a call in another phase is another call
  have hother : ∀ q d', c.calls q = some d' → (∀ x, d'.phase ≠ .done x) → q ≠ r := by
    rintro q d' hq hne rfl
    rw [hd] at hq
    exact hne result (Option.some_inj.mp hq ▸ hdone)
  have hcommand : ∀ q c₁, c.sendCommand (.cancel q) = some c₁ → c₁.calls = c.calls := by
    intro q c₁ hc
    obtain ⟨ch, -, rfl⟩ | ⟨-, rfl⟩ := Client.sendCommand_eq_some hc <;> rfl
  cases e with
  | start q k =>
      simp only [Client.step, Client.start] at h
      split at h <;> cases h
      rename_i hq
      refine done_setCall hd hdone fun he => ?_
      rw [he, hd] at hq
      exact absurd hq (by simp)
  | sendRequest q =>
      obtain ⟨d', hq, hsending, ⟨ch, -, rfl⟩ | ⟨-, rfl⟩⟩ := Client.sendRequest_eq_some h
      · exact done_setCall (c := { c with commands := ch }) hd hdone fun he =>
          absurd he (hother q d' hq (by simp [hsending]))
      · exact done_setCall hd hdone fun he => absurd he (hother q d' hq (by simp [hsending]))
  | fire q =>
      simp only [Client.step, Client.fire] at h
      split at h <;> cases h
      rename_i d' _ hq
      refine done_setCall hd hdone fun he => ?_
      rw [he, hd] at hq
      rw [Option.some_inj.mp hq]
  | takeReply q =>
      simp only [Client.step, Client.takeReply] at h
      split at h
      · rename_i hq _
        cases h
        exact done_setCall hd hdone fun he => absurd he (hother q _ hq (by simp))
      · rename_i hq _
        cases h
        exact done_setCall hd hdone fun he => absurd he (hother q _ hq (by simp))
      · exact absurd h (by simp)
  | takeCancel q =>
      simp only [Client.step, Client.takeCancel] at h
      split at h <;> cases h
      rename_i hq
      exact done_setCall hd hdone fun he => absurd he (hother q _ hq (by simp))
  | sendCancel q =>
      simp only [Client.step, Client.sendCancel] at h
      split at h
      · rename_i hq
        obtain ⟨c₁, hc, rfl⟩ := Option.map_eq_some_iff.mp h
        exact done_setCall (hcommand q c₁ hc ▸ hd) hdone fun he =>
          absurd he (hother q _ hq (by simp))
      · exact absurd h (by simp)
  | watch q =>
      simp only [Client.step, Client.watch] at h
      split at h
      · rename_i hq
        obtain ⟨c₁, hc, rfl⟩ := Option.map_eq_some_iff.mp h
        refine done_setCall (hcommand q c₁ hc ▸ hd) hdone fun he => ?_
        rw [he, hd] at hq
        rw [Option.some_inj.mp hq]
      · exact absurd h (by simp)
  | cancelRpc q => exact ⟨d, hcommand q c' h ▸ hd, hdone⟩
  | recvProgress q =>
      obtain ⟨⟨f, ch⟩, -, rfl⟩ := Option.map_eq_some_iff.mp h
      exact ⟨d, hd, hdone⟩
  | command delivered => exact ⟨d, (Client.command_frame h).1 ▸ hd, hdone⟩
  | receive m =>
      obtain ⟨-, ⟨q, x, -, -, rfl⟩ | ⟨-, frames, rfl⟩⟩ := Client.receive_eq_some h
      · exact ⟨d, hd, hdone⟩
      · exact ⟨d, hd, hdone⟩
  | endStream | flush | dropCommands =>
      simp only [Client.step, Client.flush, Client.dropCommands] at h
      split at h <;> cases h
      exact ⟨d, hd, hdone⟩

theorem step_done {k k' : Link W} {e : LinkEvent W} (h : k.step e = some k')
    {r : W.RpcRequestId} {d : ClientCall W} {result : CallResult W}
    (hd : k.client.calls r = some d) (hdone : d.phase = .done result) :
    ∃ d', k'.client.calls r = some d' ∧ d'.phase = .done result := by
  obtain ⟨e', c, hc, rfl, -⟩ | ⟨e', l, -, rfl, -⟩ := step_cases h
  · exact client_done hc hd hdone
  · exact ⟨d, hd, hdone⟩

/-! ## Main result -/

/-- **Correlation.** In every reachable state of a connection: a call's result is the first
answer with its own identifier, or `Cancelled` once its own token has fired, or a lost connection
when the stream ended without an answer; no step takes it back; a call that waits without a
reply is on its way, in service or answered, or a side has ended; once the client's loop has
returned every unfinished call can finish; and the leader sends one answer at most for each
request it reads, so at most one for an identifier of this client. -/
theorem rpc_correlation {k : Link W} (h : Exec.Reachable step init k) :
    (∀ r d result, k.client.calls r = some d → d.phase = .done result →
      k.client.answer r = some result ∨
        (d.kind = .call ∧ d.cancelled = true ∧ result = callCancelled) ∨
        ((k.client.phase = .flushed ∨ k.client.phase = .closed) ∧ result = connectionLost ∧
          k.client.answer r = none)) ∧
    (∀ e k' r d result, k.step e = some k' → k.client.calls r = some d →
      d.phase = .done result → ∃ d', k'.client.calls r = some d' ∧ d'.phase = .done result) ∧
    (k.client.phase = .running → ∀ r d, k.client.calls r = some d → d.phase = .waiting →
      k.client.reply r = .unset → .request r ∈ k.client.commands.queue ∨
        .request r ∈ k.client.sent ∧ (.request r ∉ k.leader.received ∨ k.leader.serves r = true ∨
          (∃ m ∈ k.leader.written, ∃ result, m.terminal = some (r, result) ∧
            m ∉ k.client.received) ∨ k.leader.isOver = true)) ∧
    (k.client.phase = .closed → ∀ r d, k.client.calls r = some d →
      (∀ result, d.phase ≠ .done result) → ∃ e k' d' result, k.step (.client e) = some k' ∧
        k'.client.calls r = some d' ∧ d'.phase = .done result) ∧
    (∀ r, k.leader.answers r ≤ 1) ∧
    ∀ l : Leader W, Exec.Reachable Leader.step Leader.init l → ∀ r, l.answers r ≤ l.requests r := by
  have hinv := linkInv_of_reachable h
  refine ⟨fun r d result hd => hinv.result hd, fun e k' r d result hstep => step_done hstep,
    fun hrun r d hd => hinv.underway hrun hd, fun hclosed r d hd => hinv.finishes hclosed hd,
    fun r => ?_, fun l hl r => ?_⟩
  · have honce := hinv.leader.once r
    have hreq := hinv.requests_le r
    omega
  · have honce := (hl.rec_inv Leader.leaderInv_init Leader.step_leaderInv).once r
    omega

/-- Call `1` is answered; call `2` waits when the stream ends. -/
def answeredRun : List (LinkEvent RpcWorld.numbers) :=
  [.client (.start 1 .call), .client (.sendRequest 1), .client (.command true), .toLeader,
    .client (.start 2 .opened), .client (.sendRequest 2), .leader (.opened 1 none),
    .leader (.settle 1 (.ok 7)), .leader (.takeResult 1), .leader (.join 1), .leader .sent,
    .toClient, .client .endStream, .client .flush, .client .dropCommands, .client (.takeReply 1),
    .client (.takeReply 2)]

theorem rpc_correlation_answeredRun :
    ∃ k, Exec.exec step init answeredRun = some k ∧
      k.client.answer (1 : ℕ) = some (.ok 7) ∧ k.client.answer (2 : ℕ) = none ∧
      k.leader.answers (1 : ℕ) ≤ 1 :=
  ⟨_, rfl, rfl, rfl, (rpc_correlation ⟨answeredRun, rfl⟩).2.2.2.2.1 1⟩

/-- Call `1` gives up while the leader serves it. -/
def cancelledRun : List (LinkEvent RpcWorld.numbers) :=
  [.client (.start 1 .call), .client (.sendRequest 1), .client (.command true), .toLeader,
    .leader (.opened 1 none), .client (.fire 1), .client (.takeCancel 1), .client (.sendCancel 1)]

/-- A cancelled call has a result that no message brought, on a stream that has not ended. -/
theorem cancelled_without_answer :
    ∃ (k : Link RpcWorld.numbers) (d : ClientCall RpcWorld.numbers),
      Exec.exec step init cancelledRun = some k ∧ k.client.calls (1 : ℕ) = some d ∧
        d.phase = .done callCancelled ∧ k.client.phase = .running ∧ k.client.received = [] :=
  ⟨_, _, rfl, rfl, rfl, rfl, rfl⟩

end Link

end FigmaDevMcp

import FigmaDevMcp.Rpc.Client

set_option autoImplicit false

/-!
# Where the replies of a client are

The sender of a call's reply is in the command channel, then in the loop's table, and then used
or dropped.

* `ReplyInv`: where the sender is, and where a reply came from;
* `CallOk`: what the phase of a call says about its reply;
* `step_clientInv`: every step keeps both.
-/

namespace FigmaDevMcp

variable {W : RpcWorld}

namespace Client

/-! ## Where the replies are -/

/-- The first answer to `r` the client has read. -/
def answer (c : Client W) (r : W.RpcRequestId) : Option (CallResult W) := firstAnswer r c.received

/-- The sender of a reply is in the command channel, in the table of the loop, used or dropped;
a reply is the first answer, or a lost connection. -/
structure ReplyInv (c : Client W) : Prop where
  once : ∀ r, c.commands.log.count (.request r) ≤ 1
  unsent : ∀ r, .request r ∉ c.commands.log → r ∉ c.pending ∧ c.reply r = .unset
  queued : c.phase ≠ .closed → ∀ r, .request r ∈ c.commands.queue →
    r ∉ c.pending ∧ c.reply r = .unset
  taken : ∀ r, .request r ∈ c.commands.received → r ∈ c.pending ∨ c.reply r ≠ .unset
  waiting : ∀ r ∈ c.pending, c.reply r = .unset
  sent : c.sent.Sublist c.commands.received
  written : c.phase = .running → ∀ r ∈ c.pending, .request r ∈ c.sent
  closed : c.commands.closed = true ↔ c.phase = .closed
  swept : c.phase = .flushed ∨ c.phase = .closed → c.pending = ∅
  lost : c.phase = .closed → ∀ r, .request r ∈ c.commands.queue → c.reply r = .dropped
  dropped : ∀ r, c.reply r = .dropped → c.phase = .closed
  value : ∀ r result, c.reply r = .value result → c.answer r = some result ∨
    (c.phase = .flushed ∨ c.phase = .closed) ∧ result = connectionLost ∧ c.answer r = none
  unanswered : ∀ r, c.reply r = .unset ∨ c.reply r = .dropped → c.answer r = none

theorem replyInv_init : ReplyInv (init : Client W) := by
  refine ⟨fun _ => Nat.zero_le _, fun _ _ => ⟨Finset.notMem_empty _, rfl⟩, ?_, ?_, ?_,
    List.Sublist.refl _, ?_, by simp [init, Channel.new], fun _ => rfl, ?_, ?_, ?_, fun _ _ => rfl⟩
  · exact fun _ r hr => absurd hr List.not_mem_nil
  · exact fun r hr => absurd hr List.not_mem_nil
  · exact fun r hr => absurd hr (Finset.notMem_empty _)
  · exact fun _ r hr => absurd hr (Finset.notMem_empty _)
  · exact fun h => absurd h (by simp [init])
  · exact fun r hr => absurd hr (by simp [init])
  · exact fun r result hr => absurd hr (by simp [init])

/-- A step of a call that touches neither the channel nor the loop. -/
theorem ReplyInv.congr {c c' : Client W} (h : ReplyInv c) (hphase : c'.phase = c.phase)
    (hcommands : c'.commands = c.commands) (hpending : c'.pending = c.pending)
    (hreply : c'.reply = c.reply) (hsent : c'.sent = c.sent)
    (hanswer : ∀ r, c'.answer r = c.answer r) : ReplyInv c' := by
  constructor
  · rw [hcommands]
    exact h.once
  · rw [hcommands, hpending, hreply]
    exact h.unsent
  · rw [hphase, hcommands, hpending, hreply]
    exact h.queued
  · rw [hcommands, hpending, hreply]
    exact h.taken
  · rw [hpending, hreply]
    exact h.waiting
  · rw [hsent, hcommands]
    exact h.sent
  · rw [hphase, hpending, hsent]
    exact h.written
  · rw [hcommands, hphase]
    exact h.closed
  · rw [hphase, hpending]
    exact h.swept
  · rw [hphase, hcommands, hreply]
    exact h.lost
  · rw [hphase, hreply]
    exact h.dropped
  · simp only [hphase, hreply, hanswer]
    exact h.value
  · simp only [hreply, hanswer]
    exact h.unanswered

/-- A command enters the channel; a request only once. -/
theorem ReplyInv.accept {c : Client W} (h : ReplyInv c) {m : FrontendToLeader W.RpcRequestId}
    {ch : Channel (FrontendToLeader W.RpcRequestId)} (hsend : c.commands.trySend m = .ok ch)
    (hfresh : m ∉ c.commands.log ∨ ∀ r, m ≠ .request r) :
    ReplyInv { c with commands := ch } := by
  have hlog := Channel.log_of_trySend hsend
  obtain ⟨hopen, -, rfl⟩ := Channel.trySend_eq_ok hsend
  have hphase : c.phase ≠ .closed := fun hp => by
    rw [h.closed.mpr hp] at hopen
    exact absurd hopen (by simp)
  have hnew : ∀ r, m = .request r → .request r ∉ c.commands.log := by
    rintro r rfl
    exact hfresh.resolve_right fun hne => hne r rfl
  constructor
  · intro r
    rw [hlog, List.count_append]
    by_cases hm : m = .request r
    · rw [List.count_eq_zero.mpr (hnew r hm), hm]
      simp
    · have hone : List.count (FrontendToLeader.request r) [m] = 0 :=
        List.count_eq_zero.mpr (by simpa using Ne.symm hm)
      rw [hone]
      exact h.once r
  · intro r hr
    rw [hlog, List.mem_append, not_or] at hr
    exact h.unsent r hr.1
  · intro _ r hr
    rcases List.mem_append.mp hr with hr | hr
    · exact h.queued hphase r hr
    · exact h.unsent r (hnew r (List.mem_singleton.mp hr).symm)
  · exact h.taken
  · exact h.waiting
  · exact h.sent
  · exact h.written
  · exact h.closed
  · exact h.swept
  · exact fun hp => absurd hp hphase
  · exact h.dropped
  · exact h.value
  · exact h.unanswered

/-- The loop takes a command over. -/
theorem ReplyInv.command {c c' : Client W} (h : ReplyInv c) {delivered : Bool}
    (hstep : c.command delivered = some c') : ReplyInv c' := by
  obtain ⟨m, ch, hrun, hrecv, hcmd, hreply, -, hreceived, hpending, hsent⟩ := command_eq_some hstep
  have hlog : c'.commands.log = c.commands.log := by rw [hcmd, Channel.log_of_recv hrecv]
  obtain ⟨hopen, rest, hqueue, hch⟩ := Channel.recv_eq_some hrecv
  have hrest : c'.commands.queue = rest := by rw [hcmd, hch]
  have htook : c'.commands.received = c.commands.received ++ [m] := by rw [hcmd, hch]
  have hclosed : c'.commands.closed = false := by rw [hcmd, hch]; exact hopen
  have hphase : c'.phase = .running ∨ c'.phase = .ended := hsent.imp And.left And.left
  have hanswer : ∀ r, c'.answer r = c.answer r := fun r => by rw [answer, hreceived, answer]
  have hnotclosed : c.phase ≠ .closed := by rw [hrun]; simp
  have hfirst : ∀ r, m = .request r → r ∉ c.pending ∧ c.reply r = .unset := by
    rintro r rfl
    exact h.queued hnotclosed r (hqueue ▸ List.mem_cons_self)
  -- a request that is taken is not queued a second time
  have hgone : ∀ r, m = .request r → .request r ∉ rest := by
    rintro r rfl hr
    have hone := h.once r
    rw [Channel.log, List.count_append, hqueue, List.count_cons_self] at hone
    have hpos := List.count_pos_iff.mpr hr
    omega
  constructor
  · rw [hlog]
    exact h.once
  · intro r hr
    rw [hlog] at hr
    have hu := h.unsent r hr
    rw [hpending, hreply]
    refine ⟨fun hor => hor.elim (fun hm => hr ?_) hu.1, hu.2⟩
    rw [Channel.log, hqueue, ← hm]
    exact List.mem_append_right _ List.mem_cons_self
  · intro _ r hr
    rw [hrest] at hr
    have hu := h.queued hnotclosed r (hqueue ▸ List.mem_cons_of_mem _ hr)
    rw [hpending, hreply]
    exact ⟨fun hor => hor.elim (fun hm => hgone r hm hr) hu.1, hu.2⟩
  · intro r hr
    rw [htook] at hr
    rw [hpending, hreply]
    rcases List.mem_append.mp hr with hr | hr
    · exact (h.taken r hr).imp Or.inr id
    · exact Or.inl (Or.inl (List.mem_singleton.mp hr).symm)
  · intro r hr
    rw [hreply]
    exact ((hpending r).mp hr).elim (fun hm => (hfirst r hm).2) (h.waiting r)
  · rw [htook]
    rcases hsent with ⟨-, hs⟩ | ⟨-, hs⟩ <;> rw [hs]
    · exact h.sent.append (List.Sublist.refl _)
    · exact h.sent.trans (List.sublist_append_left _ _)
  · intro hr r hp
    rcases hsent with ⟨-, hs⟩ | ⟨he, -⟩
    · rw [hs]
      rcases (hpending r).mp hp with hm | hm
      · exact List.mem_append_right _ (by simp [hm])
      · exact List.mem_append_left _ (h.written hrun r hm)
    · rw [he] at hr
      exact absurd hr (by simp)
  · rw [hclosed]
    rcases hphase with hp | hp <;> simp [hp]
  · rcases hphase with hp | hp <;> simp [hp]
  · rcases hphase with hp | hp <;> simp [hp]
  · intro r hr
    rw [hreply] at hr
    exact absurd (h.dropped r hr) hnotclosed
  · intro r result hr
    rw [hreply] at hr
    rw [hanswer]
    refine Or.inl ((h.value r result hr).resolve_right fun hv => ?_)
    rw [hrun] at hv
    exact absurd hv.1 (by simp)
  · intro r hr
    rw [hreply] at hr
    rw [hanswer]
    exact h.unanswered r hr

/-- The loop reads a message; a final one is for a request it has written. -/
theorem ReplyInv.receive {c c' : Client W} (h : ReplyInv c)
    {m : LeaderToFrontend W.RpcRequestId W.BrokerResult} (hstep : c.receive m = some c')
    (hown : ∀ r result, m.terminal = some (r, result) → .request r ∈ c.sent) : ReplyInv c' := by
  obtain ⟨hrun, ⟨r, result, hm, hr, rfl⟩ | ⟨hnot, frames, rfl⟩⟩ := receive_eq_some hstep
  · have hother : ∀ q, q ≠ r → firstAnswer q (c.received ++ [m]) = firstAnswer q c.received := by
      refine fun q hq => firstAnswer_snoc_of_ne (fun p x hp => ?_) _
      rw [hm] at hp
      obtain ⟨rfl, -⟩ := Prod.mk.inj (Option.some_inj.mp hp)
      exact hq.symm
    have hself : firstAnswer r (c.received ++ [m]) = some result := by
      have hnone : firstAnswer r c.received = none := h.unanswered r (Or.inl (h.waiting r hr))
      rw [firstAnswer_append, hnone, firstAnswer_singleton, hm, Option.bind_some, if_pos rfl]
      rfl
    have hreply : ∀ q, q ≠ r → Function.update c.reply r (.value result) q = c.reply q :=
      fun q hq => Function.update_of_ne hq _ _
    have hne : ∀ q, .request q ∉ c.commands.log → q ≠ r := by
      rintro q hq rfl
      exact (h.unsent q hq).1 hr
    have hrun' : c.phase ≠ .closed := by rw [hrun]; simp
    constructor
    · exact h.once
    · intro q hq
      refine ⟨fun hp => (h.unsent q hq).1 (Finset.mem_of_mem_erase hp), ?_⟩
      exact (hreply q (hne q hq)).trans (h.unsent q hq).2
    · intro _ q hq
      have hu := h.queued hrun' q hq
      have hqr : q ≠ r := by
        rintro rfl
        exact hu.1 hr
      exact ⟨fun hp => hu.1 (Finset.mem_of_mem_erase hp), (hreply q hqr).trans hu.2⟩
    · intro q hq
      by_cases hqr : q = r
      · subst hqr
        refine Or.inr ?_
        simp [setReply]
      · refine (h.taken q hq).imp (fun hp => Finset.mem_erase.mpr ⟨hqr, hp⟩) fun hu => ?_
        exact fun he => hu ((hreply q hqr).symm.trans he)
    · intro q hq
      obtain ⟨hqr, hp⟩ := Finset.mem_erase.mp hq
      exact (hreply q hqr).trans (h.waiting q hp)
    · exact h.sent
    · exact fun hp q hq => h.written hp q (Finset.mem_of_mem_erase hq)
    · exact h.closed
    · intro hp
      exact absurd hp (by simp [setReply, hrun])
    · exact fun hp => absurd hp hrun'
    · intro q hq
      by_cases hqr : q = r
      · subst hqr
        exact absurd hq (by simp [setReply])
      · exact h.dropped q ((hreply q hqr).symm.trans hq)
    · intro q x hq
      refine Or.inl ?_
      by_cases hqr : q = r
      · subst hqr
        simp only [setReply, Function.update_self, Reply.value.injEq] at hq
        exact hself.trans (congrArg some hq)
      · refine (hother q hqr).trans ((h.value q x ((hreply q hqr).symm.trans hq)).resolve_right ?_)
        rw [hrun]
        exact fun hv => absurd hv.1 (by simp)
    · intro q hq
      have hqr : q ≠ r := by
        rintro rfl
        simp [setReply] at hq
      refine (hother q hqr).trans (h.unanswered q ?_)
      exact hreply q hqr ▸ hq
  · -- a final message that is not expected is a second one
    have hanswer : ∀ r, c.reply r = .unset ∨ c.reply r = .dropped →
        firstAnswer r (c.received ++ [m]) = firstAnswer r c.received := by
      refine fun r hr => firstAnswer_snoc_of_ne (fun q x hq => ?_) _
      rintro rfl
      have htaken := h.taken q (h.sent.subset (hown q x hq))
      rcases htaken with hp | hu
      · exact hnot q x hq hp
      · rcases hr with hr | hr
        · exact hu hr
        · exact absurd (h.dropped q hr) (by rw [hrun]; simp)
    constructor
    · exact h.once
    · exact h.unsent
    · exact h.queued
    · exact h.taken
    · exact h.waiting
    · exact h.sent
    · exact h.written
    · exact h.closed
    · exact h.swept
    · exact h.lost
    · exact h.dropped
    · intro r x hr
      refine Or.inl ?_
      have hv := (h.value r x hr).resolve_right (by rw [hrun]; exact fun hv => absurd hv.1 (by simp))
      change firstAnswer r (c.received ++ [m]) = some x
      rw [firstAnswer_append, show firstAnswer r c.received = some x from hv]
      rfl
    · intro r hr
      exact (hanswer r hr).trans (h.unanswered r hr)

/-- The registered calls get a lost connection. -/
theorem ReplyInv.flush {c c' : Client W} (h : ReplyInv c) (hstep : c.flush = some c') :
    ReplyInv c' := by
  unfold Client.flush at hstep
  split_ifs at hstep with hphase
  cases hstep
  have hopen : c.commands.closed ≠ true := fun hc => by
    rw [h.closed.mp hc] at hphase
    exact absurd hphase (by simp)
  have hnotclosed : c.phase ≠ .closed := by rw [hphase]; simp
  constructor
  · exact h.once
  · intro r hr
    have hu := h.unsent r hr
    exact ⟨Finset.notMem_empty r, by simp only [hu.1, if_false, hu.2]⟩
  · intro _ r hr
    have hu := h.queued hnotclosed r hr
    exact ⟨Finset.notMem_empty r, by simp only [hu.1, if_false, hu.2]⟩
  · intro r hr
    refine Or.inr ?_
    rcases h.taken r hr with hp | hu
    · simp [hp]
    · by_cases hp : r ∈ c.pending
      · simp [hp]
      · simpa [hp] using hu
  · exact fun r hr => absurd hr (Finset.notMem_empty r)
  · exact h.sent
  · exact fun hp => absurd hp (by simp)
  · exact ⟨fun hc => absurd hc hopen, fun hp => absurd hp (by simp)⟩
  · exact fun _ => rfl
  · exact fun hp => absurd hp (by simp)
  · intro r hr
    by_cases hp : r ∈ c.pending
    · simp [hp] at hr
    · simp only [hp, if_false] at hr
      exact absurd (h.dropped r hr) hnotclosed
  · intro r x hr
    by_cases hp : r ∈ c.pending
    · simp only [hp, if_true, Reply.value.injEq] at hr
      exact Or.inr ⟨Or.inl rfl, hr.symm, h.unanswered r (Or.inl (h.waiting r hp))⟩
    · simp only [hp, if_false] at hr
      refine Or.inl ((h.value r x hr).resolve_right ?_)
      rw [hphase]
      exact fun hv => absurd hv.1 (by simp)
  · intro r hr
    by_cases hp : r ∈ c.pending
    · simp [hp] at hr
    · simp only [hp, if_false] at hr
      exact h.unanswered r hr

/-- The calls still queued lose their senders. -/
theorem ReplyInv.dropCommands {c c' : Client W} (h : ReplyInv c)
    (hstep : c.dropCommands = some c') : ReplyInv c' := by
  unfold Client.dropCommands at hstep
  split_ifs at hstep with hphase
  cases hstep
  have hnotclosed : c.phase ≠ .closed := by rw [hphase]; simp
  have hempty : c.pending = ∅ := h.swept (Or.inl hphase)
  have hqueue : ∀ r, .request r ∉ c.commands.log → .request r ∉ c.commands.queue :=
    fun r hr hq => hr (List.mem_append_right _ hq)
  constructor
  · exact h.once
  · intro r hr
    have hu := h.unsent r hr
    exact ⟨hu.1, by simp only [hqueue r hr, if_false, hu.2]⟩
  · exact fun hp => absurd rfl hp
  · intro r hr
    by_cases hq : .request r ∈ c.commands.queue
    · refine Or.inr ?_
      simp [hq]
    · refine (h.taken r hr).imp id fun hu => ?_
      simpa [hq] using hu
  · intro r hr
    rw [hempty] at hr
    exact absurd hr (Finset.notMem_empty r)
  · exact h.sent
  · exact fun hp => absurd hp (by simp)
  · exact ⟨fun _ => rfl, fun _ => rfl⟩
  · exact fun _ => hempty
  · intro _ r hr
    exact if_pos hr
  · exact fun _ _ => rfl
  · intro r x hr
    by_cases hq : .request r ∈ c.commands.queue
    · simp [hq] at hr
    · simp only [hq, if_false] at hr
      rcases h.value r x hr with hv | hv
      · exact Or.inl hv
      · exact Or.inr ⟨Or.inr rfl, hv.2⟩
  · intro r hr
    by_cases hq : .request r ∈ c.commands.queue
    · exact h.unanswered r (Or.inl (h.queued hnotclosed r hq).2)
    · simp only [hq, if_false] at hr
      exact h.unanswered r hr

theorem ReplyInv.endStream {c : Client W} (h : ReplyInv c) (hphase : c.phase = .running) :
    ReplyInv { c with phase := .ended } := by
  have hopen : c.commands.closed ≠ true := fun hc => by
    rw [h.closed.mp hc] at hphase
    exact absurd hphase (by simp)
  have hnotclosed : c.phase ≠ .closed := by rw [hphase]; simp
  refine ⟨h.once, h.unsent, fun _ => h.queued hnotclosed, h.taken, h.waiting, h.sent, ?_, ?_, ?_,
    ?_, ?_, ?_, h.unanswered⟩
  · exact fun hp => absurd hp (by simp)
  · exact ⟨fun hc => absurd hc hopen, fun hp => absurd hp (by simp)⟩
  · exact fun hp => absurd hp (by simp)
  · exact fun hp => absurd hp (by simp)
  · exact fun r hr => absurd (h.dropped r hr) hnotclosed
  · intro r x hr
    refine Or.inl ((h.value r x hr).resolve_right ?_)
    rw [hphase]
    exact fun hv => absurd hv.1 (by simp)

/-! ## The calls -/

/-- What the phase of a call says about its reply. -/
structure CallOk (c : Client W) (r : W.RpcRequestId) (d : ClientCall W) : Prop where
  waits : d.phase = .waiting ∨ d.phase = .cancelling → .request r ∈ c.commands.log
  cancels : d.phase = .cancelling → d.kind = .call ∧ d.cancelled = true
  done : ∀ result, d.phase = .done result →
    c.reply r = .value result ∨ c.reply r = .dropped ∧ result = connectionLost ∨
      (d.kind = .call ∧ d.cancelled = true ∧ result = callCancelled) ∨
      (.request r ∉ c.commands.log ∧ c.phase = .closed ∧ result = connectionLost)

/-- What holds between the calls, their replies and what was sent. -/
structure ClientInv (c : Client W) : Prop where
  replies : ReplyInv c
  fresh : ∀ r, (∀ d, c.calls r = some d → d.phase = .sending) → .request r ∉ c.commands.log
  call : ∀ r d, c.calls r = some d → c.CallOk r d

theorem clientInv_init : ClientInv (init : Client W) :=
  ⟨replyInv_init, fun _ _ => List.not_mem_nil, fun r d h => absurd h (by simp [init])⟩

/-- A call's state under a step of the loop, which only grows what was set. -/
theorem CallOk.mono {c c' : Client W} {r : W.RpcRequestId} {d : ClientCall W} (h : c.CallOk r d)
    (hlog : .request r ∈ c'.commands.log ↔ .request r ∈ c.commands.log)
    (hreply : c.reply r ≠ .unset → c'.reply r = c.reply r)
    (hphase : c.phase = .closed → c'.phase = .closed) : c'.CallOk r d := by
  refine ⟨fun hp => hlog.mpr (h.waits hp), h.cancels, fun result hr => ?_⟩
  rcases h.done result hr with hv | ⟨hd, hl⟩ | hc | ⟨hn, hp, hl⟩
  · exact Or.inl ((hreply (by simp [hv])).trans hv)
  · exact Or.inr (Or.inl ⟨(hreply (by simp [hd])).trans hd, hl⟩)
  · exact Or.inr (Or.inr (Or.inl hc))
  · exact Or.inr (Or.inr (Or.inr ⟨mt hlog.mp hn, hphase hp, hl⟩))

/-- A step of the loop. -/
theorem ClientInv.loop {c c' : Client W} (h : ClientInv c) (hreplies : ReplyInv c')
    (hcalls : c'.calls = c.calls) (hlog : c'.commands.log = c.commands.log)
    (hreply : ∀ r, c.reply r ≠ .unset → c'.reply r = c.reply r)
    (hphase : c.phase = .closed → c'.phase = .closed) : ClientInv c' := by
  refine ⟨hreplies, fun r hr => ?_, fun r d hd => ?_⟩
  · rw [hlog]
    exact h.fresh r (hcalls ▸ hr)
  · exact (h.call r d (hcalls ▸ hd)).mono (by rw [hlog]) (hreply r) hphase

/-- A step of a call that sends nothing. -/
theorem ClientInv.setCall {c : Client W} (h : ClientInv c) {r : W.RpcRequestId}
    {d : ClientCall W} (hok : c.CallOk r d)
    (hfresh : d.phase = .sending → .request r ∉ c.commands.log) : ClientInv (c.setCall r d) := by
  refine ⟨h.replies.congr rfl rfl rfl rfl rfl fun _ => rfl, fun q hq => ?_, fun q e he => ?_⟩
  · by_cases hqr : q = r
    · subst hqr
      exact hfresh (hq d (by simp only [Client.setCall, Function.update_self]))
    · exact h.fresh q fun e he => hq e (by simpa only [Client.setCall, Function.update_of_ne hqr])
  · by_cases hqr : q = r
    · subst hqr
      simp only [Client.setCall, Function.update_self, Option.some.injEq] at he
      exact he ▸ ⟨hok.waits, hok.cancels, hok.done⟩
    · simp only [Client.setCall, Function.update_of_ne hqr] at he
      have hold := h.call q e he
      exact ⟨hold.waits, hold.cancels, hold.done⟩

/-- A cancel enters the command channel, or is forgotten. -/
theorem ClientInv.sendCommand {c c' : Client W} (h : ClientInv c) {r : W.RpcRequestId}
    (hstep : c.sendCommand (.cancel r) = some c') :
    ClientInv c' ∧ c'.calls = c.calls := by
  obtain ⟨ch, hsend, rfl⟩ | ⟨-, rfl⟩ := sendCommand_eq_some hstep
  · have hlog := Channel.log_of_trySend hsend
    have hmem : ∀ q, FrontendToLeader.request q ∈ ch.log ↔ .request q ∈ c.commands.log :=
      fun q => by rw [hlog]; simp
    refine ⟨⟨h.replies.accept hsend (Or.inr fun q => by simp), fun q hq => ?_, fun q d hd => ?_⟩,
      rfl⟩
    · exact fun hm => h.fresh q hq ((hmem q).mp hm)
    · exact (h.call q d hd).mono (hmem q) (fun _ => rfl) id
  · exact ⟨h, rfl⟩

/-- A request enters the command channel, or the call is over. -/
theorem ClientInv.sendRequest {c c' : Client W} (h : ClientInv c) {r : W.RpcRequestId}
    (hstep : c.sendRequest r = some c') : ClientInv c' := by
  obtain ⟨d, hd, hphase, ⟨ch, hsend, rfl⟩ | ⟨hclosed, rfl⟩⟩ := sendRequest_eq_some hstep
  · have hnew : .request r ∉ c.commands.log := h.fresh r fun e he => by
      rw [hd] at he
      exact Option.some_inj.mp he ▸ hphase
    have hlog := Channel.log_of_trySend hsend
    have hother : ∀ q, q ≠ r →
        (FrontendToLeader.request q ∈ ch.log ↔ .request q ∈ c.commands.log) := by
      intro q hq
      rw [hlog, List.mem_append, List.mem_singleton, FrontendToLeader.request.injEq]
      exact or_iff_left hq
    have hin : .request r ∈ ch.log := by
      rw [hlog]
      exact List.mem_append_right _ List.mem_cons_self
    have hreplies := h.replies.accept hsend (Or.inl hnew)
    refine ⟨hreplies.congr rfl rfl rfl rfl rfl fun _ => rfl, fun q hq => ?_, fun q e he => ?_⟩
    · by_cases hqr : q = r
      · subst hqr
        have hw := hq _ (by simp only [Client.setCall, Function.update_self]; rfl)
        exact absurd hw (by simp)
      · refine fun hm => h.fresh q (fun e he => hq e ?_) ((hother q hqr).mp hm)
        simpa only [Client.setCall, Function.update_of_ne hqr]
    · by_cases hqr : q = r
      · subst hqr
        simp only [Client.setCall, Function.update_self, Option.some.injEq] at he
        subst he
        exact ⟨fun _ => hin, fun hc => absurd hc (by simp), fun x hx => absurd hx (by simp)⟩
      · simp only [Client.setCall, Function.update_of_ne hqr] at he
        exact (h.call q e he).mono (hother q hqr) (fun _ => rfl) id
  · have hnew : .request r ∉ c.commands.log := h.fresh r fun e he => by
      rw [hd] at he
      exact Option.some_inj.mp he ▸ hphase
    refine h.setCall ⟨fun hp => ?_, fun hp => ?_, fun x hx => ?_⟩ fun hp => ?_
    · exact absurd hp (by simp)
    · exact absurd hp (by simp)
    · have hxl : connectionLost = x := by simpa using hx
      exact Or.inr (Or.inr (Or.inr ⟨hnew, h.replies.closed.mp hclosed, hxl.symm⟩))
    · exact absurd hp (by simp)

/-! ## Every step -/

/-- Replies that were set stay what they are, and the sent frames only grow. -/
theorem command_frame {c c' : Client W} {delivered : Bool} (h : c.command delivered = some c') :
    c'.calls = c.calls ∧ c'.commands.log = c.commands.log ∧ c'.reply = c.reply ∧
      c.phase = .running := by
  obtain ⟨m, ch, hrun, hrecv, hcmd, hreply, hcalls, -⟩ := command_eq_some h
  exact ⟨hcalls, by rw [hcmd, Channel.log_of_recv hrecv], hreply, hrun⟩

/-- **Client step.** Every step keeps the invariant, as long as the final messages it reads are
for requests it has written. -/
theorem step_clientInv {c c' : Client W} {e : ClientEvent W} (hstep : c.step e = some c')
    (hown : ∀ m r result, e = .receive m → m.terminal = some (r, result) → .request r ∈ c.sent)
    (h : ClientInv c) : ClientInv c' := by
  cases e with
  | start r k =>
      simp only [step, start] at hstep
      split at hstep <;> cases hstep
      rename_i hnone
      refine h.setCall ⟨fun hp => ?_, fun hp => ?_, fun x hx => ?_⟩ fun _ => ?_
      · exact absurd hp (by simp)
      · exact absurd hp (by simp)
      · exact absurd hx (by simp)
      · exact h.fresh r fun d hd => by simp [hnone] at hd
  | sendRequest r => exact h.sendRequest hstep
  | fire r =>
      simp only [step, fire] at hstep
      split at hstep
      · exact absurd hstep (by simp)
      · exact absurd hstep (by simp)
      · rename_i d _ hd
        cases hstep
        have hok := h.call r d hd
        refine h.setCall ⟨hok.waits, fun hp => ⟨(hok.cancels hp).1, rfl⟩, fun x hx => ?_⟩ fun hp => ?_
        · rcases hok.done x hx with hv | hv | ⟨hk, -, hx⟩ | hv
          · exact Or.inl hv
          · exact Or.inr (Or.inl hv)
          · exact Or.inr (Or.inr (Or.inl ⟨hk, rfl, hx⟩))
          · exact Or.inr (Or.inr (Or.inr hv))
        · refine h.fresh r fun e he => ?_
          rw [hd] at he
          exact Option.some_inj.mp he ▸ hp
  | takeReply r =>
      simp only [step, takeReply] at hstep
      split at hstep
      · rename_i k cancelled watched result hd hv
        cases hstep
        refine h.setCall ⟨fun hp => ?_, fun hp => ?_, fun x hx => ?_⟩ fun hp => ?_
        · exact absurd hp (by simp)
        · exact absurd hp (by simp)
        · have hxr : result = x := by simpa using hx
          exact Or.inl (hxr ▸ hv)
        · exact absurd hp (by simp)
      · rename_i k cancelled watched hd hv
        cases hstep
        refine h.setCall ⟨fun hp => ?_, fun hp => ?_, fun x hx => ?_⟩ fun hp => ?_
        · exact absurd hp (by simp)
        · exact absurd hp (by simp)
        · have hxl : connectionLost = x := by simpa using hx
          exact Or.inr (Or.inl ⟨hv, hxl.symm⟩)
        · exact absurd hp (by simp)
      · exact absurd hstep (by simp)
  | takeCancel r =>
      simp only [step, takeCancel] at hstep
      split at hstep
      · rename_i watched hd
        cases hstep
        have hok := h.call r _ hd
        refine h.setCall ⟨fun _ => hok.waits (Or.inl rfl), fun _ => ⟨rfl, rfl⟩, fun x hx => ?_⟩
          fun hp => ?_
        · exact absurd hx (by simp)
        · exact absurd hp (by simp)
      · exact absurd hstep (by simp)
  | sendCancel r =>
      simp only [step, sendCancel] at hstep
      split at hstep
      · rename_i k cancelled watched hd
        obtain ⟨c₁, hc₁, rfl⟩ := Option.map_eq_some_iff.mp hstep
        obtain ⟨hinv, -⟩ := h.sendCommand hc₁
        obtain ⟨hk, hcancelled⟩ := (h.call r _ hd).cancels rfl
        refine hinv.setCall ⟨fun hp => ?_, fun hp => ?_, fun x hx => ?_⟩ fun hp => ?_
        · exact absurd hp (by simp)
        · exact absurd hp (by simp)
        · have hxc : callCancelled = x := by simpa using hx
          exact Or.inr (Or.inr (Or.inl ⟨hk, hcancelled, hxc.symm⟩))
        · exact absurd hp (by simp)
      · exact absurd hstep (by simp)
  | watch r =>
      simp only [step, watch] at hstep
      split at hstep
      · rename_i k phase hd
        obtain ⟨c₁, hc₁, rfl⟩ := Option.map_eq_some_iff.mp hstep
        obtain ⟨hinv, hcalls⟩ := h.sendCommand hc₁
        rw [← hcalls] at hd
        have hok := hinv.call r _ hd
        refine hinv.setCall ⟨hok.waits, hok.cancels, hok.done⟩ fun hp => hinv.fresh r fun e he => ?_
        rw [hd] at he
        exact Option.some_inj.mp he ▸ hp
      · exact absurd hstep (by simp)
  | cancelRpc r => exact (h.sendCommand hstep).1
  | recvProgress r =>
      simp only [step, recvProgress] at hstep
      obtain ⟨⟨f, ch⟩, -, rfl⟩ := Option.map_eq_some_iff.mp hstep
      exact h.loop (h.replies.congr rfl rfl rfl rfl rfl fun _ => rfl) rfl rfl (fun _ _ => rfl) id
  | command delivered =>
      obtain ⟨hcalls, hlog, hreply, hrun⟩ := command_frame hstep
      refine h.loop (h.replies.command hstep) hcalls hlog (fun r _ => by rw [hreply]) fun hp => ?_
      rw [hrun] at hp
      exact absurd hp (by simp)
  | receive m =>
      have hreplies := h.replies.receive hstep fun r x hm => hown m r x rfl hm
      obtain ⟨hrun, ⟨r, result, -, hr, rfl⟩ | ⟨-, frames, rfl⟩⟩ := receive_eq_some hstep
      · refine h.loop hreplies rfl rfl (fun q hq => ?_) id
        have hqr : q ≠ r := by
          rintro rfl
          exact hq (h.replies.waiting q hr)
        exact Function.update_of_ne hqr _ _
      · exact h.loop hreplies rfl rfl (fun _ _ => rfl) id
  | endStream =>
      simp only [step] at hstep
      split_ifs at hstep with hrun
      cases hstep
      refine h.loop (h.replies.endStream hrun) rfl rfl (fun _ _ => rfl) fun hp => ?_
      rw [hrun] at hp
      exact absurd hp (by simp)
  | flush =>
      have hreplies := h.replies.flush hstep
      simp only [step, Client.flush] at hstep
      split_ifs at hstep with hphase
      cases hstep
      refine h.loop hreplies rfl rfl (fun r hr => ?_) fun hp => ?_
      · exact if_neg fun hp => hr (h.replies.waiting r hp)
      · rw [hphase] at hp
        exact absurd hp (by simp)
  | dropCommands =>
      have hreplies := h.replies.dropCommands hstep
      simp only [step, Client.dropCommands] at hstep
      split_ifs at hstep with hphase
      cases hstep
      refine h.loop hreplies rfl rfl (fun r hr => ?_) fun _ => rfl
      refine if_neg fun hq => hr ?_
      exact (h.replies.queued (by rw [hphase]; simp) r hq).2






end Client

end FigmaDevMcp

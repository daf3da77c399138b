import Mathlib.Data.Finset.Card
import FigmaDevMcp.Rpc.Leader

set_option autoImplicit false

/-!
# The wind-down of a frontend connection

Once the loop has ended nobody drains the progress channel, and the wind-down waits for the
tasks. `backlog` counts the queued frames and the tasks that wait for room.

* `step_room`: what a step does to the channel and to the tasks that wait for it;
* `Wedged`: a full channel and a task waiting for it after the end, which lasts for ever;
* **`wind_down`**: every unfinished task can step as long as the backlog fits the channel, and a
  step that lets it outgrow the channel leads to a wedged state.
-/

namespace FigmaDevMcp

variable {W : RpcWorld}

/-- The call is about to forward progress. -/
def LeaderCall.isForwarding (c : LeaderCall W) : Bool :=
  match c.phase with
  | .forwarding _ => true
  | _ => false

/-- The call has its result. -/
def LeaderCall.isFinished (c : LeaderCall W) : Bool :=
  match c.phase with
  | .finished _ => true
  | _ => false

/-- The call a task's own step belongs to. -/
def LeaderEvent.task? : LeaderEvent W → Option W.RpcRequestId
  | .opened r _ | .takeResult r | .takeProgress r | .forward r | .takeCancel r | .cancelDone r =>
    some r
  | _ => none

namespace Leader

/-- The loop has ended. -/
def isOver (l : Leader W) : Bool :=
  match l.phase with
  | .ended | .joining | .returned => true
  | _ => false

/-- The calls whose tasks wait for room in the progress channel. -/
def forwarding (l : Leader W) : Finset W.RpcRequestId :=
  (l.calls.keysWhere fun _ c => c.isForwarding).toFinset

/-- The frames that are queued or wait for room. -/
def backlog (l : Leader W) : ℕ := l.progress.queue.length + l.forwarding.card

/-- The step ends the loop. -/
def ends (l : Leader W) : LeaderEvent W → Bool
  | .endShutdown | .endStream | .sendFailed => true
  | .receive (.request r) => (l.calls.lookup r).isSome
  | .join r =>
    match l.calls.lookup r with
    | some ⟨.finished result, _, _, _⟩ =>
      match (answer r result : LoopPhase W) with
      | .ended => true
      | _ => false
    | _ => false
  | _ => false

/-- The loop ends only while the backlog fits the channel, and afterwards a task takes progress
only while there is room for it. -/
def keepsRoom (l : Leader W) (e : LeaderEvent W) : Bool :=
  match e with
  | .takeProgress _ => !l.isOver || l.backlog < 32
  | e => !l.ends e || l.backlog ≤ 32

/-- The task of `r` can take a step of its own. -/
def CanStep (l : Leader W) (r : W.RpcRequestId) : Prop :=
  ∃ e : LeaderEvent W, e.task? = some r ∧ (l.step e).isSome = true

/-! ## The calls that wait for room -/

theorem mem_forwarding {l : Leader W} {r : W.RpcRequestId} :
    r ∈ l.forwarding ↔ ∃ c, l.calls.lookup r = some c ∧ c.isForwarding = true := by
  rw [forwarding, List.mem_toFinset, Table.mem_keysWhere]

theorem forwarding_congr {l l' : Leader W}
    (h : ∀ r, (l'.calls.lookup r).any LeaderCall.isForwarding =
      (l.calls.lookup r).any LeaderCall.isForwarding) : l'.forwarding = l.forwarding := by
  ext r
  have hr := h r
  simp only [mem_forwarding, ← Option.any_eq_true] at hr ⊢
  rw [hr]

theorem forwarding_setCall (l : Leader W) (r : W.RpcRequestId) (c : LeaderCall W) :
    (l.setCall r c).forwarding =
      if c.isForwarding then insert r l.forwarding else l.forwarding.erase r := by
  ext q
  rw [mem_forwarding]
  simp only [setCall, setCalls, Table.lookup_insert_eq]
  by_cases hq : q = r
  · subst hq
    cases hc : c.isForwarding <;> simp [hc]
  · cases hc : c.isForwarding <;> simp [hq, mem_forwarding]

/-- A call that is not waiting leaves, or its task moves on without waiting. -/
theorem forwarding_erase {l : Leader W} {r : W.RpcRequestId} {c : LeaderCall W}
    (hr : l.calls.lookup r = some c) (hc : c.isForwarding = false) :
    (l.setCalls (l.calls.erase r)).forwarding = l.forwarding := by
  refine forwarding_congr fun q => ?_
  simp only [setCalls, Table.lookup_erase_eq]
  by_cases hq : q = r
  · subst hq
    simp [hr, hc]
  · simp [hq]

theorem stepCall_eq_some {l l' : Leader W} {r : W.RpcRequestId}
    {f : LeaderCall W → Option (LeaderCall W)} (h : l.stepCall r f = some l') :
    ∃ c c', l.calls.lookup r = some c ∧ f c = some c' ∧ l' = l.setCall r c' := by
  obtain ⟨c, hc, h⟩ := Option.bind_eq_some_iff.mp h
  obtain ⟨c', hc', rfl⟩ := Option.map_eq_some_iff.mp h
  exact ⟨c, c', hc, hc', rfl⟩

/-- A task's step that neither starts nor stops waiting. -/
theorem forwarding_stepCall {l l' : Leader W} {r : W.RpcRequestId}
    {f : LeaderCall W → Option (LeaderCall W)} (h : l.stepCall r f = some l')
    (hf : ∀ c c', f c = some c' → c'.isForwarding = c.isForwarding) :
    l'.forwarding = l.forwarding := by
  obtain ⟨c, c', hc, hc', rfl⟩ := stepCall_eq_some h
  refine forwarding_congr fun q => ?_
  simp only [setCall, setCalls, Table.lookup_insert_eq]
  by_cases hq : q = r
  · subst hq
    simp [hc, hf c c' hc']
  · simp [hq]

theorem stepCall_frame {l l' : Leader W} {r : W.RpcRequestId}
    {f : LeaderCall W → Option (LeaderCall W)} (h : l.stepCall r f = some l') :
    l'.phase = l.phase ∧ l'.progress = l.progress := by
  obtain ⟨c, c', -, -, rfl⟩ := stepCall_eq_some h
  exact ⟨rfl, rfl⟩

/-! ## The steps of one task -/

theorem opened_isForwarding {e : Option ToolError} {c c' : LeaderCall W}
    (h : opened e c = some c') : c'.isForwarding = c.isForwarding := by
  unfold opened at h
  split at h <;> cases h <;> rename_i hc <;> simp only [LeaderCall.isForwarding, hc]

theorem takeResult_isForwarding {c c' : LeaderCall W} (h : takeResult c = some c') :
    c'.isForwarding = c.isForwarding := by
  unfold takeResult at h
  split at h <;> cases h
  rename_i hc _
  simp only [LeaderCall.isForwarding, hc]

theorem takeProgress_isForwarding {c c' : LeaderCall W} (h : takeProgress c = some c') :
    c.isForwarding = false ∧ c'.isForwarding = true := by
  unfold takeProgress at h
  split at h <;> cases h
  rename_i hc _
  simp only [LeaderCall.isForwarding, hc, and_self]

theorem takeCancel_isForwarding {c c' : LeaderCall W} (h : takeCancel c = some c') :
    c'.isForwarding = c.isForwarding := by
  unfold takeCancel at h
  split at h <;> cases h
  rename_i hc _
  simp only [LeaderCall.isForwarding, hc]

theorem cancelDone_isForwarding {c c' : LeaderCall W} (h : cancelDone c = some c') :
    c'.isForwarding = c.isForwarding := by
  unfold cancelDone at h
  split at h <;> cases h
  rename_i hc
  simp only [LeaderCall.isForwarding, hc]

theorem emit_phase {f : NormalizedProgress} {c c' : LeaderCall W} (h : emit f c = some c') :
    c'.phase = c.phase := by
  unfold emit at h
  split at h <;> cases h
  rfl

theorem settle_phase {result : CallResult W} {c c' : LeaderCall W}
    (h : settle result c = some c') : c'.phase = c.phase := by
  unfold settle at h
  split at h <;> cases h
  rfl

theorem isForwarding_congr {c c' : LeaderCall W} (h : c'.phase = c.phase) :
    c'.isForwarding = c.isForwarding := by
  simp only [LeaderCall.isForwarding, h]

/-! ## The backlog -/

/-- What a step can do to the progress channel and the tasks that wait for it. -/
inductive RoomEffect (l : Leader W) (e : LeaderEvent W) (l' : Leader W) : Prop
  | keeps (hends : l.ends e = false) (htakes : ∀ r, e ≠ .takeProgress r)
      (hover : l'.isOver = l.isOver) (hprogress : l'.progress = l.progress)
      (hforwarding : l'.forwarding = l.forwarding)
  | ends (hends : l.ends e = true) (hover : l'.isOver = true) (hprogress : l'.progress = l.progress)
      (hforwarding : l'.forwarding = l.forwarding)
  | takes (r : W.RpcRequestId) (hevent : e = .takeProgress r) (hover : l'.isOver = l.isOver)
      (hprogress : l'.progress = l.progress) (hr : r ∉ l.forwarding)
      (hforwarding : l'.forwarding = insert r l.forwarding)
  | drains (m : W.RpcRequestId × NormalizedProgress) (hevent : e = .recvProgress)
      (hloop : l.isOver = false) (hover : l'.isOver = false)
      (hrecv : l.progress.recv = some (m, l'.progress))
      (hforwarding : l'.forwarding = l.forwarding)
  | forwards (r : W.RpcRequestId) (m : W.RpcRequestId × NormalizedProgress)
      (hevent : e = .forward r) (hover : l'.isOver = l.isOver) (hr : r ∈ l.forwarding)
      (hsend : l.progress.trySend m = .ok l'.progress)
      (hforwarding : l'.forwarding = l.forwarding.erase r)

theorem inLoop_phase {l : Leader W} (h : l.inLoop = true) : l.phase = .selecting := by
  unfold inLoop at h
  split at h
  · assumption
  · exact absurd h (by simp)

theorem isOver_congr {l l' : Leader W} (hp : l'.phase = l.phase) : l'.isOver = l.isOver := by
  simp only [isOver, hp]

/-- A task's step that does not touch the waiting. -/
theorem room_stepCall {l l' : Leader W} {e : LeaderEvent W} {r : W.RpcRequestId}
    {f : LeaderCall W → Option (LeaderCall W)} (h : l.stepCall r f = some l')
    (hf : ∀ c c', f c = some c' → c'.isForwarding = c.isForwarding)
    (hends : l.ends e = false) (htakes : ∀ q, e ≠ .takeProgress q) : RoomEffect l e l' := by
  obtain ⟨hphase, hprogress⟩ := stepCall_frame h
  exact .keeps hends htakes (isOver_congr hphase) hprogress (forwarding_stepCall h hf)

theorem receive_room {l l' : Leader W} {m : FrontendToLeader W.RpcRequestId}
    (h : l.receive m = some l') : RoomEffect l (.receive m) l' := by
  unfold receive at h
  split_ifs at h with hloop
  cases m with
  | request r =>
      dsimp only at h
      split_ifs at h with hdup <;> cases h
      · exact .ends hdup rfl rfl rfl
      · refine .keeps (by simpa [ends] using hdup) (fun _ => by simp) (isOver_congr rfl) rfl
          (forwarding_congr fun q => ?_)
        simp only [setCalls, Table.lookup_insert_eq]
        by_cases hq : q = r
        · subst hq
          rw [if_pos rfl, Option.not_isSome_iff_eq_none.mp hdup]
          rfl
        · rw [if_neg hq]
  | cancel r =>
      cases h
      refine .keeps rfl (fun _ => by simp) (isOver_congr rfl) rfl (forwarding_congr fun q => ?_)
      simp only [setCalls, Table.lookup_modify]
      by_cases hq : q = r
      · subst hq
        rw [if_pos rfl]
        cases l.calls.lookup q <;> rfl
      · rw [if_neg hq]

theorem recvProgress_room {l l' : Leader W} (h : l.recvProgress = some l') :
    RoomEffect l .recvProgress l' := by
  unfold recvProgress at h
  split_ifs at h with hloop
  have hphase := inLoop_phase hloop
  split at h
  · exact absurd h (by simp)
  · rename_i r f ch hrecv
    dsimp only at h
    split_ifs at h <;> cases h <;>
      exact .drains (r, f) rfl (by simp only [isOver, hphase]) (by simp only [isOver, hphase]) hrecv rfl

theorem answer_isOver (l : Leader W) (r : W.RpcRequestId) (result : CallResult W) :
    { l with phase := answer r result }.isOver =
      match (answer r result : LoopPhase W) with
      | .ended => true
      | _ => false := by
  unfold answer
  split_ifs <;> rfl

theorem join_room {l l' : Leader W} {r : W.RpcRequestId} (h : l.join r = some l') :
    RoomEffect l (.join r) l' := by
  unfold join at h
  split_ifs at h with hloop
  have hphase := inLoop_phase hloop
  split at h
  · rename_i result a b o hc
    cases h
    have hover := answer_isOver (l.setCalls (l.calls.erase r)) r result
    cases hends : l.ends (.join r) with
    | true =>
        refine .ends hends ?_ rfl (forwarding_erase hc rfl)
        rw [hover]
        simpa only [ends, hc] using hends
    | false =>
        refine .keeps hends (fun _ => by simp) ?_ rfl (forwarding_erase hc rfl)
        have hnot : l.isOver = false := by simp only [isOver, hphase]
        rw [hover, hnot]
        simpa only [ends, hc] using hends
  · exact absurd h (by simp)

/-- A frame moves from its task into the channel. -/
theorem forward_eq_some {l l' : Leader W} {r : W.RpcRequestId} (h : l.forward r = some l') :
    l'.isOver = l.isOver ∧ r ∈ l.forwarding ∧ (∃ m, l.progress.trySend m = .ok l'.progress) ∧
      l'.forwarding = l.forwarding.erase r := by
  unfold forward at h
  split at h
  · rename_i f a b o hc
    split at h
    · rename_i ch hsend
      cases h
      refine ⟨isOver_congr rfl, mem_forwarding.mpr ⟨_, hc, rfl⟩, ⟨_, hsend⟩, ?_⟩
      exact (forwarding_setCall l r ⟨.selecting, a, b, o⟩).trans
        (if_neg (by simp [LeaderCall.isForwarding]))
    · exact absurd h (by simp)
  · exact absurd h (by simp)

theorem takeProgress_room {l l' : Leader W} {r : W.RpcRequestId}
    (h : l.stepCall r takeProgress = some l') : RoomEffect l (.takeProgress r) l' := by
  obtain ⟨hphase, hprogress⟩ := stepCall_frame h
  obtain ⟨c, c', hc, hc', rfl⟩ := stepCall_eq_some h
  obtain ⟨hold, hnew⟩ := takeProgress_isForwarding hc'
  refine .takes r rfl (isOver_congr hphase) hprogress ?_ ?_
  · rw [mem_forwarding]
    rintro ⟨d, hd, hfd⟩
    rw [hc] at hd
    obtain rfl := Option.some_inj.mp hd
    exact absurd (hold.symm.trans hfd) (by simp)
  · rw [forwarding_setCall, if_pos hnew]

/-- **Room effect.** Every step does one of these five things to the channel. -/
theorem step_room {l l' : Leader W} {e : LeaderEvent W} (h : l.step e = some l') :
    RoomEffect l e l' := by
  cases e with
  | shutdown =>
      cases h
      exact .keeps rfl (fun _ => by simp) (isOver_congr rfl) rfl rfl
  | endShutdown =>
      simp only [step] at h
      split_ifs at h
      cases h
      exact .ends rfl rfl rfl rfl
  | endStream =>
      simp only [step] at h
      split_ifs at h
      cases h
      exact .ends rfl rfl rfl rfl
  | receive m => exact receive_room h
  | recvProgress => exact recvProgress_room h
  | join r => exact join_room h
  | sent =>
      simp only [step, finishSend] at h
      split at h <;> cases h
      rename_i m hphase
      exact .keeps rfl (fun _ => by simp) (by simp only [isOver, hphase]) rfl rfl
  | sendFailed =>
      simp only [step, failSend] at h
      split at h <;> cases h
      exact .ends rfl rfl rfl rfl
  | cancelAll =>
      simp only [step, cancelAll] at h
      split at h <;> cases h
      rename_i hphase
      refine .keeps rfl (fun _ => by simp) (by simp only [isOver, hphase])
        rfl (forwarding_congr fun q => ?_)
      simp only [setCalls, Table.lookup_mapValues]
      cases l.calls.lookup q <;> rfl
  | drain r =>
      simp only [step, drain] at h
      split at h <;> cases h
      rename_i hc
      exact .keeps rfl (fun _ => by simp) (isOver_congr rfl)
        rfl (forwarding_erase hc rfl)
  | finish =>
      simp only [step, finish] at h
      split at h
      · rename_i hphase
        split_ifs at h
        cases h
        exact .keeps rfl (fun _ => by simp) (by simp only [isOver, hphase]) rfl rfl
      · exact absurd h (by simp)
  | opened r e => exact room_stepCall h (fun _ _ => opened_isForwarding) rfl fun _ => by simp
  | takeResult r => exact room_stepCall h (fun _ _ => takeResult_isForwarding) rfl fun _ => by simp
  | takeProgress r => exact takeProgress_room h
  | forward r =>
      obtain ⟨hover, hr, ⟨m, hsend⟩, hf⟩ := forward_eq_some h
      exact .forwards r m rfl hover hr hsend hf
  | takeCancel r => exact room_stepCall h (fun _ _ => takeCancel_isForwarding) rfl fun _ => by simp
  | cancelDone r => exact room_stepCall h (fun _ _ => cancelDone_isForwarding) rfl fun _ => by simp
  | emit r f =>
      exact room_stepCall h (fun _ _ hc => isForwarding_congr (emit_phase hc)) rfl fun _ => by simp
  | settle r result =>
      exact room_stepCall h (fun _ _ hc => isForwarding_congr (settle_phase hc)) rfl fun _ => by simp

/-- The progress channel is open and holds `32` frames at most. -/
structure ChannelInv (l : Leader W) : Prop where
  capacity : l.progress.capacity = 32
  opened : l.progress.closed = false
  fits : l.progress.queue.length ≤ 32

theorem channelInv_init : ChannelInv (init : Leader W) := ⟨rfl, rfl, Nat.zero_le _⟩

theorem step_channelInv (l : Leader W) (e : LeaderEvent W) (l' : Leader W)
    (hstep : l.step e = some l') (h : ChannelInv l) : ChannelInv l' := by
  cases step_room hstep with
  | keeps _ _ _ hp _ => exact ⟨hp ▸ h.capacity, hp ▸ h.opened, hp ▸ h.fits⟩
  | ends _ _ hp _ => exact ⟨hp ▸ h.capacity, hp ▸ h.opened, hp ▸ h.fits⟩
  | takes _ _ _ hp _ _ => exact ⟨hp ▸ h.capacity, hp ▸ h.opened, hp ▸ h.fits⟩
  | drains m _ _ _ hrecv _ =>
      obtain ⟨-, rest, hq, hp⟩ := Channel.recv_eq_some hrecv
      have hlen := h.fits
      rw [hq, List.length_cons] at hlen
      refine ⟨by rw [hp]; exact h.capacity, by rw [hp]; exact h.opened, ?_⟩
      rw [hp]
      exact Nat.le_of_succ_le hlen
  | forwards r m _ _ _ hsend _ =>
      obtain ⟨-, hlt, hp⟩ := Channel.trySend_eq_ok hsend
      rw [h.capacity] at hlt
      refine ⟨by rw [hp]; exact h.capacity, by rw [hp]; exact h.opened, ?_⟩
      rw [hp, List.length_append, List.length_singleton]
      exact hlt

/-- The backlog grows only when a task takes progress. -/
theorem step_backlog {l l' : Leader W} {e : LeaderEvent W} (hstep : l.step e = some l') :
    l'.backlog ≤ l.backlog ∨ ∃ r, e = .takeProgress r ∧ l'.backlog = l.backlog + 1 := by
  cases step_room hstep with
  | keeps _ _ _ hp hf => exact Or.inl (by rw [backlog, backlog, hp, hf])
  | ends _ _ hp hf => exact Or.inl (by rw [backlog, backlog, hp, hf])
  | takes r he _ hp hr hf =>
      refine Or.inr ⟨r, he, ?_⟩
      rw [backlog, backlog, hp, hf, Finset.card_insert_of_notMem hr, Nat.add_assoc]
  | drains m _ _ _ hrecv hf =>
      obtain ⟨-, rest, hq, hp⟩ := Channel.recv_eq_some hrecv
      refine Or.inl ?_
      rw [backlog, backlog, hp, hf, hq, List.length_cons]
      show rest.length + _ ≤ _
      omega
  | forwards r m _ _ hr hsend hf =>
      obtain ⟨-, -, hp⟩ := Channel.trySend_eq_ok hsend
      have hpos : 0 < l.forwarding.card := Finset.card_pos.mpr ⟨r, hr⟩
      refine Or.inl ?_
      rw [backlog, backlog, hp, hf, List.length_append, List.length_singleton,
        Finset.card_erase_of_mem hr]
      omega

/-! ## Enough room -/

/-- After the end the backlog fits the channel. -/
def Roomy (l : Leader W) : Prop := l.isOver = true → l.backlog ≤ 32

theorem step_roomy (l : Leader W) (e : LeaderEvent W) (l' : Leader W)
    (hkeeps : l.keepsRoom e = true) (hstep : l.step e = some l') (h : l.Roomy) : l'.Roomy := by
  intro hover'
  cases step_room hstep with
  | keeps _ htakes hover _ _ =>
      obtain hle | ⟨r, he, -⟩ := step_backlog hstep
      · exact hle.trans (h (hover ▸ hover'))
      · exact absurd he (htakes r)
  | ends hends _ hp hf =>
      have hback : l'.backlog = l.backlog := by rw [backlog, backlog, hp, hf]
      have hne : ∀ r, e ≠ .takeProgress r := by
        rintro r rfl
        exact absurd hends (by simp [Leader.ends])
      rw [hback]
      cases e <;> simp_all [keepsRoom]
  | takes r he hover _ _ _ =>
      subst he
      have hlt : l.backlog < 32 := by
        simpa [keepsRoom, ← hover, hover'] using hkeeps
      obtain hle | ⟨-, -, hb⟩ := step_backlog hstep
      · exact hle.trans hlt.le
      · exact hb ▸ hlt
  | drains _ _ _ hover _ _ => exact absurd (hover ▸ hover') (by simp)
  | forwards r m he hover _ _ _ =>
      obtain hle | ⟨q, hq, -⟩ := step_backlog hstep
      · exact hle.trans (h (hover ▸ hover'))
      · rw [he] at hq
        exact absurd hq (by simp)

/-- An unfinished task that does not wait for room, or has room, can step once its waiter has an
outcome. -/
theorem canStep_of_room {l : Leader W} (hch : ChannelInv l) (hroom : l.backlog ≤ 32)
    {r : W.RpcRequestId} {c : LeaderCall W} (hc : l.calls.lookup r = some c)
    (hunfinished : c.isFinished = false) (houtcome : c.phase = .opening ∨ c.outcome.isSome = true) :
    l.CanStep r := by
  have hcall : ∀ f : LeaderCall W → Option (LeaderCall W), (f c).isSome = true →
      (l.stepCall r f).isSome = true := by
    intro f hf
    rw [stepCall, hc, Option.bind_some, Option.isSome_map, hf]
  obtain ⟨phase, cancelled, frames, outcome⟩ := c
  cases phase with
  | opening => exact ⟨.opened r none, rfl, hcall _ rfl⟩
  | selecting =>
      obtain ⟨result, ho⟩ := Option.isSome_iff_exists.mp (houtcome.resolve_left (by simp))
      dsimp only at ho
      subst ho
      exact ⟨.takeResult r, rfl, hcall _ rfl⟩
  | forwarding f =>
      -- the task itself is part of the backlog, so the channel is not full
      have hr : r ∈ l.forwarding := mem_forwarding.mpr ⟨_, hc, rfl⟩
      have hpos : 0 < l.forwarding.card := Finset.card_pos.mpr ⟨r, hr⟩
      have hlt : ¬ l.progress.capacity ≤ l.progress.queue.length := by
        rw [hch.capacity]
        unfold backlog at hroom
        omega
      refine ⟨.forward r, rfl, ?_⟩
      simp only [step, forward, hc, Channel.trySend, hch.opened, Bool.false_eq_true, if_false, hlt,
        Option.isSome_some]
  | cancelling => exact ⟨.cancelDone r, rfl, hcall _ rfl⟩
  | finished result => exact absurd hunfinished (by simp [LeaderCall.isFinished])

/-! ## Too little room -/

/-- The loop has ended, the channel is full, and the task of `r` waits for room. -/
structure Wedged (l : Leader W) (r : W.RpcRequestId) : Prop where
  isOver : l.isOver = true
  full : l.progress.capacity ≤ l.progress.queue.length
  waits : r ∈ l.forwarding

theorem Wedged.trySend {l : Leader W} {r : W.RpcRequestId} (h : Wedged l r)
    (m : W.RpcRequestId × NormalizedProgress) (ch : Channel (W.RpcRequestId × NormalizedProgress)) :
    l.progress.trySend m ≠ .ok ch := by
  intro hsend
  obtain ⟨-, hlt, -⟩ := Channel.trySend_eq_ok hsend
  exact absurd h.full (not_le.mpr hlt)

/-- Nothing that can still happen makes room. -/
theorem step_wedged {r : W.RpcRequestId} (l : Leader W) (e : LeaderEvent W) (l' : Leader W)
    (hstep : l.step e = some l') (h : Wedged l r) : Wedged l' r := by
  cases step_room hstep with
  | keeps _ _ hover hp hf => exact ⟨hover ▸ h.isOver, hp ▸ h.full, hf ▸ h.waits⟩
  | ends _ hover hp hf => exact ⟨hover, hp ▸ h.full, hf ▸ h.waits⟩
  | takes _ _ hover hp _ hf =>
      exact ⟨hover ▸ h.isOver, hp ▸ h.full, hf ▸ Finset.mem_insert_of_mem h.waits⟩
  | drains _ _ hloop _ _ _ => exact absurd (hloop.symm.trans h.isOver) (by simp)
  | forwards _ m _ _ _ hsend _ => exact absurd hsend (h.trySend m _)

/-- The waiting task has no step, and the wind-down does not finish without it. -/
theorem Wedged.blocked {l : Leader W} {r : W.RpcRequestId} (h : Wedged l r) :
    ¬ l.CanStep r ∧ l.step .finish = none := by
  obtain ⟨⟨phase, cancelled, frames, outcome⟩, hc, hf⟩ := mem_forwarding.mp h.waits
  cases phase with
  | forwarding f =>
      constructor
      · rintro ⟨e, he, hsome⟩
        cases e with
        | forward q =>
            obtain rfl : q = r := Option.some_inj.mp he
            simp only [step, forward, hc] at hsome
            split at hsome
            · rename_i ch hsend
              exact h.trySend _ _ hsend
            · exact absurd hsome (by simp)
        | opened q err =>
            obtain rfl : q = r := Option.some_inj.mp he
            simp [step, stepCall, hc, opened] at hsome
        | takeResult q | takeProgress q | takeCancel q | cancelDone q =>
            obtain rfl : q = r := Option.some_inj.mp he
            simp [step, stepCall, hc, takeResult, takeProgress, takeCancel, cancelDone] at hsome
        | _ => exact absurd he (by simp [LeaderEvent.task?])
      · have hkeys : l.calls.keys ≠ [] := by
          refine List.ne_nil_of_mem (a := r) (AList.mem_keys.mp (AList.lookup_isSome.mp ?_))
          rw [hc]
          rfl
        simp only [step, finish, hkeys, if_false]
        split <;> rfl
  | _ => exact absurd hf (by simp [LeaderCall.isForwarding])

/-- A backlog that does not fit fills the channel up. -/
theorem exists_wedged {l : Leader W} (hch : ChannelInv l) (hover : l.isOver = true)
    (hroom : 32 < l.backlog) :
    ∃ es l' r, Exec.exec step l es = some l' ∧ Wedged l' r := by
  induction hn : 32 - l.progress.queue.length generalizing l with
  | zero =>
      have hfits := hch.fits
      have hcard : 0 < l.forwarding.card := by
        unfold backlog at hroom
        omega
      obtain ⟨r, hr⟩ := Finset.card_pos.mp hcard
      exact ⟨[], l, r, rfl, hover, by rw [hch.capacity]; omega, hr⟩
  | succ n ih =>
      have hlt : ¬ l.progress.capacity ≤ l.progress.queue.length := by
        rw [hch.capacity]
        omega
      have hcard : 0 < l.forwarding.card := by
        unfold backlog at hroom
        omega
      obtain ⟨r, hr⟩ := Finset.card_pos.mp hcard
      obtain ⟨⟨phase, cancelled, frames, outcome⟩, hc, hf⟩ := mem_forwarding.mp hr
      obtain ⟨l', hstep⟩ : ∃ l', l.step (.forward r) = some l' := by
        cases phase with
        | forwarding f =>
            simp only [step, forward, hc, Channel.trySend, hch.opened, Bool.false_eq_true, if_false,
              hlt]
            exact ⟨_, rfl⟩
        | _ => exact absurd hf (by simp [LeaderCall.isForwarding])
      obtain ⟨hover', -, ⟨m, hsend⟩, hset⟩ := forward_eq_some hstep
      obtain ⟨-, -, hp⟩ := Channel.trySend_eq_ok hsend
      have hlen : l'.progress.queue.length = l.progress.queue.length + 1 := by
        rw [hp, List.length_append, List.length_singleton]
      have hroom' : 32 < l'.backlog := by
        rw [backlog, hlen, hset, Finset.card_erase_of_mem hr]
        unfold backlog at hroom
        omega
      obtain ⟨es, m', q, hes, hw⟩ :=
        ih (step_channelInv l _ l' hstep hch) (hover'.trans hover) hroom' (by omega)
      exact ⟨.forward r :: es, m', q, Exec.exec_cons_eq_some.mpr ⟨l', hstep, hes⟩, hw⟩

/-- The waiter of a task that waits for ever can still get its outcome. -/
theorem Wedged.settled {l : Leader W} {r : W.RpcRequestId} (h : Wedged l r) :
    ∃ es l' c, Exec.exec step l es = some l' ∧ Wedged l' r ∧ l'.calls.lookup r = some c ∧
      c.isFinished = false ∧ c.outcome.isSome = true := by
  obtain ⟨⟨phase, cancelled, frames, outcome⟩, hc, hf⟩ := mem_forwarding.mp h.waits
  cases phase with
  | forwarding f =>
      cases outcome with
      | some result => exact ⟨[], l, ⟨.forwarding f, cancelled, frames, some result⟩, rfl, h, hc, rfl, rfl⟩
      | none =>
          have hstep : l.step (.settle r (.error (.new .connectionLost true))) =
              some (l.setCall r ⟨.forwarding f, cancelled, frames,
                some (.error (.new .connectionLost true))⟩) := by
            simp only [step, stepCall, hc, Option.bind_some, settle, Option.map_some]
          refine ⟨[.settle r (.error (.new .connectionLost true))], _,
            ⟨.forwarding f, cancelled, frames, some (.error (.new .connectionLost true))⟩,
            Exec.exec_cons_eq_some.mpr ⟨_, hstep, rfl⟩, step_wedged _ _ _ hstep h, ?_, rfl, rfl⟩
          simp only [setCall, setCalls, Table.lookup_insert_eq, if_true]
  | _ => exact absurd hf (by simp [LeaderCall.isForwarding])

/-- A step that lets the backlog outgrow the channel. -/
theorem backlog_of_not_keepsRoom {l l' : Leader W} {e : LeaderEvent W}
    (hstep : l.step e = some l') (hkeeps : l.keepsRoom e = false) :
    l'.isOver = true ∧ 32 < l'.backlog := by
  cases step_room hstep with
  | keeps hends htakes _ _ _ =>
      cases e with
      | takeProgress r => exact absurd rfl (htakes r)
      | _ => exact absurd hkeeps (by simp [keepsRoom, hends])
  | ends hends hover hp hf =>
      have hback : l'.backlog = l.backlog := by rw [backlog, backlog, hp, hf]
      refine ⟨hover, hback ▸ ?_⟩
      cases e with
      | takeProgress r => exact absurd hends (by simp [Leader.ends])
      | _ => simpa [keepsRoom, hends] using hkeeps
  | takes r he hover hp hr hf =>
      subst he
      have hback : l'.backlog = l.backlog + 1 := by
        rw [backlog, backlog, hp, hf, Finset.card_insert_of_notMem hr, Nat.add_assoc]
      have hk : l.isOver = true ∧ 32 ≤ l.backlog := by simpa [keepsRoom] using hkeeps
      exact ⟨hover.trans hk.1, by omega⟩
  | drains _ he _ _ _ _ => exact absurd hkeeps (by simp [he, keepsRoom, Leader.ends])
  | forwards _ _ he _ _ _ _ => exact absurd hkeeps (by simp [he, keepsRoom, Leader.ends])

/-! ## Main result -/

/-- **Wind-down.** In every run whose steps keep the backlog within the channel, once the loop
has ended every unfinished task can step as soon as its waiter has an outcome. A step that does
not can be continued to a state where a task whose waiter has an outcome waits for room, and
then it never steps and the wind-down never finishes. -/
theorem wind_down {es : List (LeaderEvent W)} {l : Leader W}
    (hrun : Exec.exec step init es = some l) :
    (Exec.Along step (fun l e => l.keepsRoom e = true) init es → l.isOver = true →
      ∀ r c, l.calls.lookup r = some c → c.isFinished = false →
        (c.phase = .opening ∨ c.outcome.isSome = true) → l.CanStep r) ∧
    ∀ e l', l.step e = some l' → l.keepsRoom e = false →
      ∃ fs m r c, Exec.exec step l' fs = some m ∧ m.isOver = true ∧ m.calls.lookup r = some c ∧
        c.isFinished = false ∧ c.outcome.isSome = true ∧
        ∀ gs m', Exec.exec step m gs = some m' → ¬ m'.CanStep r ∧ m'.step .finish = none := by
  have hch : ChannelInv l := Exec.exec_invariant step_channelInv hrun channelInv_init
  refine ⟨fun hkeeps hover r c hc hu ho => ?_, fun e l' hstep hkeeps => ?_⟩
  · have hroomy : l.Roomy :=
      Exec.exec_invariant_along step_roomy hkeeps hrun fun h => absurd h (by simp [Leader.isOver, init])
    exact canStep_of_room hch (hroomy hover) hc hu ho
  · obtain ⟨hover, hback⟩ := backlog_of_not_keepsRoom hstep hkeeps
    obtain ⟨fs, m, r, hfs, hw⟩ := exists_wedged (step_channelInv l e l' hstep hch) hover hback
    obtain ⟨gs, n, c, hgs, hw', hc, hu, ho⟩ := hw.settled
    refine ⟨fs ++ gs, n, r, c, (Exec.exec_append_of_eq hfs _).trans hgs, hw'.isOver, hc, hu, ho, ?_⟩
    intro ks m' hks
    exact (Exec.exec_invariant step_wedged hks hw').blocked

/-- One call with one progress frame; the stream ends while the frame waits in the channel. -/
def calmRun : List (LeaderEvent RpcWorld.numbers) :=
  [.receive (.request 1), .opened 1 none, .emit 1 ⟨1, none, .reading⟩, .takeProgress 1, .forward 1,
    .endStream, .cancelAll, .settle 1 (.ok 7)]

theorem wind_down_calmRun :
    ∃ l, Exec.exec step init calmRun = some l ∧ l.isOver = true ∧ l.CanStep (1 : ℕ) :=
  have hkeeps : Exec.check step keepsRoom init calmRun = true := rfl
  have hrun : Exec.exec step init calmRun = some _ := rfl
  ⟨_, hrun, rfl,
    (wind_down hrun).1 (Exec.along_of_check hkeeps) rfl 1 _ rfl rfl (Or.inr rfl)⟩

/-! ## A wind-down that hangs -/

/-- A task forwards 32 frames that nobody reads and waits with the next one when the stream
ends. -/
def wedgedRun : List (LeaderEvent RpcWorld.numbers) :=
  [.receive (.request 1), .opened 1 none] ++
    ((List.replicate 32 [.emit 1 ⟨1, none, .reading⟩, .takeProgress 1, .forward 1]).flatten ++
      [.emit 1 ⟨1, none, .reading⟩, .takeProgress 1, .endStream, .cancelAll, .settle 1 (.ok 7)])

theorem wind_down_hangs :
    ∃ (l : Leader RpcWorld.numbers) (c : LeaderCall RpcWorld.numbers),
      Exec.exec step init wedgedRun = some l ∧ l.isOver = true ∧
        l.calls.lookup (1 : ℕ) = some c ∧ c.isFinished = false ∧ c.outcome.isSome = true ∧
        ∀ es l', Exec.exec step l es = some l' → ¬ l'.CanStep (1 : ℕ) ∧ l'.step .finish = none := by
  refine ⟨_, _, rfl, rfl, rfl, rfl, rfl, fun es l' hrun => ?_⟩
  refine (Exec.exec_invariant step_wedged hrun ⟨rfl, ?_, ?_⟩).blocked
  · exact le_rfl
  · exact mem_forwarding.mpr ⟨_, rfl, rfl⟩


end Leader

end FigmaDevMcp

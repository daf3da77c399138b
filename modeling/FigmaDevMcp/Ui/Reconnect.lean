import FigmaDevMcp.Ui.Socket

set_option autoImplicit false

/-!
# Connecting again

* `Connected`: a transport that runs has one socket that has not closed, or one timer;
* `connected_run`: every run is connected;
* `Waits`: the delays that an event schedules, and `run_delays`: those of a run;
* **`reconnect_never_stalls`**: a transport never stalls, and never waits less than before until a
  frame is accepted.
-/

namespace FigmaDevMcp.Plugin

variable {Result : Type}

/-! ## Sockets and timers -/

/-- The states of all sockets. -/
def Transport.readyStates (t : Transport Result) : List ReadyState :=
  t.generations.map SocketGeneration.readyState

/-- The socket has not closed. -/
def Transport.live (t : Transport Result) (g : ℕ) : Bool := t.readyStates[g]?.any (· ≠ .closed)

/-- What holds of the sockets and the timers. -/
structure Connected (t : Transport Result) : Prop where
  timers : t.timers = t.reconnectTimer.toList
  one : t.stopped = false → (t.active.isSome ↔ t.reconnectTimer = none)
  live : t.stopped = false → ∀ g, t.live g = true ↔ t.active = some g
  stopped : t.stopped = true → t.active = none ∧ t.reconnectTimer = none

/-- A transport with neither a socket nor a timer. -/
structure Idle (t : Transport Result) : Prop where
  stopped : t.stopped = false
  active : t.active = none
  reconnectTimer : t.reconnectTimer = none
  timers : t.timers = []
  live : ∀ g, t.live g = false

theorem Idle.scheduleReconnect {t : Transport Result} (h : Idle t) : Connected t.scheduleReconnect := by
  have hrun : (t.stopped || t.reconnectTimer.isSome) = false := by
    rw [h.stopped, h.reconnectTimer]
    rfl
  rw [Transport.scheduleReconnect, hrun]
  refine ⟨?_, fun _ => ?_, fun _ g => ?_, fun hstopped => ?_⟩
  · show t.timersMade :: t.timers = _
    rw [h.timers]
    rfl
  · show t.active.isSome ↔ some t.timersMade = none
    simp [h.active]
  · show t.live g = true ↔ t.active = some g
    simp [h.live g, h.active]
  · exact absurd (h.stopped.symm.trans hstopped) Bool.false_ne_true

theorem Idle.connect {t : Transport Result} (h : Idle t) (uuid : JsString) (constructs : Bool) :
    Connected (t.connect uuid constructs) := by
  have hidle : (t.stopped || t.active.isSome) = false := by
    rw [h.stopped, h.active]
    rfl
  rw [Transport.connect, hidle]
  cases constructs with
  | false => exact h.scheduleReconnect
  | true =>
      refine ⟨?_, fun _ => ?_, fun _ g => ?_, fun hstopped => ?_⟩
      · show t.timers = t.reconnectTimer.toList
        rw [h.timers, h.reconnectTimer]
        rfl
      · show (some t.generations.length).isSome ↔ t.reconnectTimer = none
        simp [h.reconnectTimer]
      · have hlive : t.readyStates[g]?.any (· ≠ .closed) = false := h.live g
        show ((t.generations ++ [_]).map SocketGeneration.readyState)[g]?.any _ = true ↔
          some t.generations.length = some g
        rw [List.map_append]
        show (t.readyStates ++ [.connecting])[g]?.any (· ≠ .closed) = true ↔ _
        have hlength : t.readyStates.length = t.generations.length := List.length_map _
        rcases Nat.lt_trichotomy g t.generations.length with hg | rfl | hg
        · rw [List.getElem?_append_left (hlength ▸ hg), hlive]
          simp [hg.ne']
        · rw [← hlength, List.getElem?_concat_length]
          simp
        · have hnone : (t.readyStates ++ [ReadyState.connecting])[g]? = none := by
            refine List.getElem?_eq_none ?_
            rw [List.length_append, List.length_singleton]
            omega
          rw [hnone]
          simp [hg.ne]
      · exact absurd (h.stopped.symm.trans hstopped) Bool.false_ne_true

/-! ## Events of a socket -/

theorem live_modifyGeneration {t : Transport Result} {f : SocketGeneration → SocketGeneration}
    (hf : ∀ x, (f x).readyState = .closed ↔ x.readyState = .closed) (g g' : ℕ) :
    (t.modifyGeneration g f).live g' = t.live g' := by
  unfold Transport.live Transport.readyStates Transport.modifyGeneration
  rw [List.getElem?_map, List.getElem?_map, List.getElem?_modify]
  cases t.generations[g']? with
  | none => rfl
  | some x =>
      by_cases hg : g = g'
      · simp [hg, hf]
      · simp [hg]

theorem Connected.modifyGeneration {t : Transport Result} (h : Connected t)
    {f : SocketGeneration → SocketGeneration}
    (hf : ∀ x, (f x).readyState = .closed ↔ x.readyState = .closed) (g : ℕ) :
    Connected (t.modifyGeneration g f) := by
  refine ⟨h.timers, h.one, fun hstopped g' => ?_, h.stopped⟩
  rw [live_modifyGeneration hf]
  exact h.live hstopped g'

theorem closed_establish (x : SocketGeneration) :
    x.establish.readyState = .closed ↔ x.readyState = .closed := by
  unfold SocketGeneration.establish
  cases hx : x.readyState <;> simp [hx]

theorem closed_close (x : SocketGeneration) :
    x.close.readyState = .closed ↔ x.readyState = .closed := by
  unfold SocketGeneration.close
  cases hx : x.readyState <;> simp [hx]

theorem Connected.closed {t t' : Transport Result} (h : Connected t) {g : ℕ}
    (hclosed : t'.live g = false) (hother : ∀ g', g' ≠ g → t'.live g' = t.live g')
    (hstopped : t'.stopped = t.stopped) (hactive : t'.active = t.active)
    (htimer : t'.reconnectTimer = t.reconnectTimer) (htimers : t'.timers = t.timers) :
    Connected (if t'.active = some g then { t' with active := none }.scheduleReconnect else t') := by
  split_ifs with hg
  · rw [hactive] at hg
    have hrun : t.stopped = false := by
      refine Bool.eq_false_iff.2 fun hstop => ?_
      exact nomatch hg.symm.trans (h.stopped hstop).1
    have hnone : t.reconnectTimer = none := (h.one hrun).1 (by rw [hg]; rfl)
    refine Idle.scheduleReconnect ⟨hstopped.trans hrun, rfl, htimer.trans hnone, ?_, fun g' => ?_⟩
    · show t'.timers = []
      rw [htimers, h.timers, hnone]
      rfl
    · show t'.live g' = false
      by_cases hg' : g' = g
      · rw [hg', hclosed]
      · rw [hother g' hg', ← Bool.not_eq_true, h.live hrun g', hg, Option.some.injEq]
        exact fun heq => hg' heq.symm
  · refine ⟨by rw [htimers, htimer, h.timers], ?_, fun hrun g' => ?_, ?_⟩
    · rw [hstopped, hactive, htimer]
      exact h.one
    · rw [hstopped] at hrun
      rw [hactive] at hg ⊢
      by_cases hg' : g' = g
      · rw [hg', hclosed]
        exact ⟨nofun, fun hsome => absurd hsome hg⟩
      · rw [hother g' hg']
        exact h.live hrun g'
    · rw [hstopped, hactive, htimer]
      exact h.stopped

theorem live_closed (t : Transport Result) (g g' : ℕ) :
    (t.modifyGeneration g fun generation => { generation with readyState := .closed }).live g' =
      if g' = g then false else t.live g' := by
  unfold Transport.live Transport.readyStates Transport.modifyGeneration
  rw [List.getElem?_map, List.getElem?_map, List.getElem?_modify]
  cases t.generations[g']? with
  | none => simp
  | some x =>
      by_cases hg : g = g'
      · simp [hg]
      · simp [hg, Ne.symm hg]

/-! ## What leaves the sockets as they are -/

/-- The delays of what has happened. -/
def delays (history : List (Action Result)) : List ℕ :=
  history.filterMap fun
    | .setTimeout delay => some delay
    | _ => none

/-- Nothing is scheduled. -/
structure Silent (t t' : Transport Result) : Prop where
  reconnectAttempt : t'.reconnectAttempt = t.reconnectAttempt
  history : ∃ later, t'.history = later ++ t.history ∧ delays later = []

/-- The sockets and timers are as they were. -/
structure SameSockets (t t' : Transport Result) : Prop where
  stopped : t'.stopped = t.stopped
  active : t'.active = t.active
  reconnectTimer : t'.reconnectTimer = t.reconnectTimer
  timers : t'.timers = t.timers
  readyStates : t'.readyStates = t.readyStates

theorem Silent.refl (t : Transport Result) : Silent t t := ⟨rfl, [], rfl, rfl⟩

theorem Silent.trans {t u v : Transport Result} (h : Silent t u) (h' : Silent u v) : Silent t v := by
  obtain ⟨later, hlater, hdelays⟩ := h.history
  obtain ⟨later', hlater', hdelays'⟩ := h'.history
  refine ⟨h'.reconnectAttempt.trans h.reconnectAttempt, later' ++ later, ?_, ?_⟩
  · rw [hlater', hlater, List.append_assoc]
  · rw [delays, List.filterMap_append]
    exact List.append_eq_nil_iff.2 ⟨hdelays', hdelays⟩

theorem Connected.same {t t' : Transport Result} (h : Connected t) (hsame : SameSockets t t') :
    Connected t' := by
  obtain ⟨hstopped, hactive, htimer, htimers, hstates⟩ := hsame
  have hlive : ∀ g, t'.live g = t.live g := by
    intro g
    rw [Transport.live, hstates]
    rfl
  refine ⟨by rw [htimers, htimer, h.timers], ?_, ?_, ?_⟩
  · rw [hstopped, hactive, htimer]
    exact h.one
  · intro hrun g
    rw [hlive, hactive]
    exact h.live (hstopped ▸ hrun) g
  · rw [hstopped, hactive, htimer]
    exact h.stopped

/-- Nothing of the connection changes. -/
def Apart (t t' : Transport Result) : Prop := SameSockets t t' ∧ Silent t t'

theorem Apart.refl (t : Transport Result) : Apart t t := ⟨⟨rfl, rfl, rfl, rfl, rfl⟩, Silent.refl t⟩

theorem readyStates_modifyGeneration (t : Transport Result) (g : ℕ)
    {f : SocketGeneration → SocketGeneration} (hf : ∀ x, (f x).readyState = x.readyState) :
    (t.modifyGeneration g f).readyStates = t.readyStates := by
  refine List.ext_getElem? fun g' => ?_
  unfold Transport.readyStates Transport.modifyGeneration
  rw [List.getElem?_map, List.getElem?_map, List.getElem?_modify]
  cases t.generations[g']? with
  | none => rfl
  | some x => by_cases hg : g = g' <;> simp [hg, hf]

theorem silent_cancelGenerationRequests (t : Transport Result) (g : ℕ) :
    Silent t (t.cancelGenerationRequests g) := by
  refine ⟨rfl, _, rfl, List.filterMap_eq_nil_iff.2 fun action haction => ?_⟩
  obtain ⟨e, -, rfl⟩ := List.mem_map.1 (List.mem_reverse.1 haction)
  rfl

theorem apart_receiveReady (t : Transport Result) (ready : ControllerReady) (uuid : JsString) :
    Apart t (t.receiveReady ready uuid) := by
  have hhello : ∀ g, Apart t (t.sendHello g ready uuid) := by
    intro g
    unfold Transport.sendHello
    split
    · exact Apart.refl t
    · refine ⟨⟨rfl, rfl, rfl, rfl, ?_⟩, rfl, [_], rfl, rfl⟩
      exact readyStates_modifyGeneration (t.act _) g fun _ => rfl
  unfold Transport.receiveReady
  split
  · exact Apart.refl t
  · split_ifs
    · exact hhello _
    · exact Apart.refl t

theorem apart_sendToOwner (t : Transport Result) (k : JsString) (terminal : Bool)
    (message : JsString → PluginToBroker Result) : Apart t (t.sendToOwner k terminal message) := by
  unfold Transport.sendToOwner
  split
  · exact Apart.refl t
  · rename_i owner _
    by_cases hopen : t.isActiveOpen owner.generation = true
    · rw [if_pos hopen]
      exact ⟨⟨rfl, rfl, rfl, rfl, rfl⟩, rfl, [_], rfl, rfl⟩
    · rw [if_neg hopen]
      exact Apart.refl t

theorem apart_receiveController (t : Transport Result) (uuid : JsString)
    (message : ControllerOutboundMessage Result) : Apart t (t.receiveController uuid message) := by
  cases message with
  | controllerReady ready => exact apart_receiveReady t ready uuid
  | progress k requestId progress =>
      rw [Transport.receiveController]
      exact apart_sendToOwner t k false _
  | response k requestId result =>
      rw [Transport.receiveController]
      exact apart_sendToOwner t k true _
  | error k requestId error =>
      rw [Transport.receiveController]
      exact apart_sendToOwner t k true _

theorem apart_receiveFrame (t : Transport Result) (g : ℕ) (uuid : JsString) (message : BrokerToPlugin) :
    Apart t (t.receiveFrame g uuid message) := by
  cases message with
  | request request =>
      show Apart t (Transport.receiveRequest _ _ _ _)
      unfold Transport.receiveRequest
      split
      · exact ⟨⟨rfl, rfl, rfl, rfl, rfl⟩, rfl, [_], rfl, rfl⟩
      · exact Apart.refl t
      · exact Apart.refl t
      · exact Apart.refl t
  | cancel requestId =>
      show Apart t (Transport.receiveCancel _ _ _)
      unfold Transport.receiveCancel
      split
      · exact Apart.refl t
      · split
        · exact ⟨⟨rfl, rfl, rfl, rfl, rfl⟩, rfl, [], rfl, rfl⟩
        · exact ⟨⟨rfl, rfl, rfl, rfl, rfl⟩, rfl, [_], rfl, rfl⟩
  | ping nonce => exact ⟨⟨rfl, rfl, rfl, rfl, rfl⟩, rfl, [_], rfl, rfl⟩

theorem sameSockets_accept (t : Transport Result) (g : ℕ) : SameSockets t (t.accept g) := by
  unfold Transport.accept
  split_ifs
  · refine ⟨rfl, rfl, rfl, rfl, ?_⟩
    exact readyStates_modifyGeneration t g fun _ => rfl
  · exact (Apart.refl t).1

/-! ## Runs -/

theorem Connected.step {t : Transport Result} (h : Connected t) (event : Event Result) :
    Connected (t.step event) := by
  cases event with
  | opened g =>
      have hopened : Connected (t.modifyGeneration g .establish) :=
        h.modifyGeneration closed_establish g
      show Connected (Transport.onOpen _ _)
      unfold Transport.onOpen
      split
      · exact hopened.same ⟨rfl, rfl, rfl, rfl, rfl⟩
      · exact hopened
  | message g data uuid =>
      show Connected (Transport.onMessage _ _ _ _)
      unfold Transport.onMessage
      split
      · exact h
      · rename_i message _
        have hact : Connected (t.act (.received g message)) := h.same ⟨rfl, rfl, rfl, rfl, rfl⟩
        exact (hact.same (sameSockets_accept _ g)).same (apart_receiveFrame _ g uuid message).1
  | controller message uuid =>
      rw [Transport.step]
      split_ifs
      · have hact : Connected (t.act (.fromController message)) := h.same ⟨rfl, rfl, rfl, rfl, rfl⟩
        exact hact.same (apart_receiveController _ uuid message).1
      · exact h
  | failed g => exact h.modifyGeneration closed_close g
  | closed g =>
      rw [Transport.step]
      split_ifs
      · refine @Connected.closed _ _ (Transport.cancelGenerationRequests _ g) h _ ?_ (fun g' hne => ?_)
          rfl rfl rfl rfl
        · exact (live_closed (t.act _) g g).trans (if_pos rfl)
        · exact (live_closed (t.act _) g g').trans (if_neg hne)
      · exact h
  | timer timer uuid constructs =>
      show Connected (Transport.onTimer _ _ _ _)
      unfold Transport.onTimer
      split_ifs with hmem
      · have hsome : t.reconnectTimer = some timer := by
          rw [h.timers] at hmem
          simpa using hmem
        have hrun : t.stopped = false := by
          refine Bool.eq_false_iff.2 fun hstop => ?_
          exact nomatch hsome.symm.trans (h.stopped hstop).2
        have hnone : t.active = none := by
          refine Option.not_isSome_iff_eq_none.1 fun hactive => ?_
          exact nomatch hsome.symm.trans ((h.one hrun).1 hactive)
        have hidle : Idle { t with timers := t.timers.erase timer, reconnectTimer := none } := by
          refine ⟨hrun, hnone, rfl, ?_, fun g => ?_⟩
          · show t.timers.erase timer = []
            rw [h.timers, hsome]
            simp
          · show t.live g = false
            rw [← Bool.not_eq_true, h.live hrun g, hnone]
            nofun
        exact hidle.connect uuid constructs
      · exact h
  | stop =>
      show Connected ((t.act .stopped).retire.closeActive t.active)
      have htimers : (t.timers.filter fun timer => t.reconnectTimer ≠ some timer) = [] := by
        rw [h.timers]
        cases t.reconnectTimer <;> simp
      cases t.active with
      | none => exact ⟨htimers, nofun, nofun, fun _ => ⟨rfl, rfl⟩⟩
      | some g => exact ⟨htimers, nofun, nofun, fun _ => ⟨rfl, rfl⟩⟩

/-- **Every run is connected.** -/
theorem connected_run (uuid : JsString) (constructs : Bool) (events : List (Event Result)) :
    Connected ((startSocketTransport uuid constructs).run events) := by
  have hidle : Idle ({} : Transport Result) := ⟨rfl, rfl, rfl, rfl, fun _ => rfl⟩
  have hstart : Connected (startSocketTransport uuid constructs : Transport Result) :=
    hidle.connect uuid constructs
  rw [Transport.run]
  generalize startSocketTransport uuid constructs = t at hstart ⊢
  induction events generalizing t with
  | nil => exact hstart
  | cons event events ih => exact ih _ (hstart.step event)

/-! ## Delays -/

/-- The event is a frame that is taken and parses. -/
def Transport.accepts (t : Transport Result) : Event Result → Bool
  | .message g data _ => (t.frame g data).isSome
  | _ => false

theorem reconnectDelay_mono {a b : ℕ} (h : a ≤ b) : reconnectDelay a ≤ reconnectDelay b := by
  have hsorted : ∀ i j : Fin RECONNECT_DELAYS_MS.length, i ≤ j →
      RECONNECT_DELAYS_MS.get i ≤ RECONNECT_DELAYS_MS.get j := by decide
  refine hsorted _ _ ?_
  show min a _ ≤ min b _
  exact min_le_min_right _ h

theorem reconnectDelay_le (a : ℕ) : reconnectDelay a ≤ 5000 := by
  have hcap : ∀ i : Fin RECONNECT_DELAYS_MS.length, RECONNECT_DELAYS_MS.get i ≤ 5000 := by decide
  exact hcap _

/-- At most one delay is scheduled, the one of the attempts so far. -/
def Waits (t t' : Transport Result) : Prop :=
  ∃ later, t'.history = later ++ t.history ∧
    (delays later = [] ∧ t'.reconnectAttempt = t.reconnectAttempt ∨
      delays later = [reconnectDelay t.reconnectAttempt] ∧
        t'.reconnectAttempt = t.reconnectAttempt + 1)

theorem Silent.waits {t t' : Transport Result} (h : Silent t t') : Waits t t' := by
  obtain ⟨later, hlater, hdelays⟩ := h.history
  exact ⟨later, hlater, Or.inl ⟨hdelays, h.reconnectAttempt⟩⟩

theorem Silent.scheduleReconnect {t u : Transport Result} (h : Silent t u) :
    Waits t u.scheduleReconnect := by
  obtain ⟨later, hlater, hdelays⟩ := h.history
  unfold Transport.scheduleReconnect
  split_ifs
  · exact h.waits
  · refine ⟨.setTimeout (reconnectDelay u.reconnectAttempt) :: later, ?_, Or.inr ⟨?_, ?_⟩⟩
    · exact congrArg (List.cons _) hlater
    · rw [← h.reconnectAttempt]
      exact congrArg (List.cons _) hdelays
    · exact congrArg (· + 1) h.reconnectAttempt

/-- **What an event schedules**, where it is not an accepted frame. -/
theorem waits_step {t : Transport Result} {event : Event Result} (h : t.accepts event = false) :
    Waits t (t.step event) := by
  cases event with
  | opened g =>
      show Waits t (Transport.onOpen _ _)
      unfold Transport.onOpen
      split
      · exact ⟨[_], rfl, Or.inl ⟨rfl, rfl⟩⟩
      · exact ⟨[], rfl, Or.inl ⟨rfl, rfl⟩⟩
  | message g data uuid =>
      have hnone : t.frame g data = none := by simpa [Transport.accepts] using h
      rw [Transport.step, Transport.onMessage, hnone]
      exact (Silent.refl t).waits
  | controller message uuid =>
      rw [Transport.step]
      split_ifs
      · have hact : Silent t (t.act (.fromController message)) := ⟨rfl, [_], rfl, rfl⟩
        exact (hact.trans (apart_receiveController _ uuid message).2).waits
      · exact (Silent.refl t).waits
  | failed g => exact ⟨[], rfl, Or.inl ⟨rfl, rfl⟩⟩
  | closed g =>
      rw [Transport.step]
      split_ifs
      · have hact : Silent t ((t.act (.closed g)).modifyGeneration g
            fun generation => { generation with readyState := .closed }) := ⟨rfl, [_], rfl, rfl⟩
        have hcancelled := hact.trans (silent_cancelGenerationRequests _ g)
        unfold Transport.onClose
        dsimp only
        split_ifs
        · refine Silent.scheduleReconnect (hcancelled.trans ⟨rfl, [], rfl, rfl⟩)
        · exact hcancelled.waits
      · exact (Silent.refl t).waits
  | timer timer uuid constructs =>
      show Waits t (Transport.onTimer _ _ _ _)
      unfold Transport.onTimer
      split_ifs
      · unfold Transport.connect
        split_ifs
        · exact ⟨[], rfl, Or.inl ⟨rfl, rfl⟩⟩
        · exact ⟨[], rfl, Or.inl ⟨rfl, rfl⟩⟩
        · exact Silent.scheduleReconnect ⟨rfl, [], rfl, rfl⟩
      · exact (Silent.refl t).waits
  | stop =>
      show Waits t ((t.act .stopped).retire.closeActive t.active)
      have hretired : Silent t (t.act .stopped).retire := ⟨rfl, [_], rfl, rfl⟩
      cases t.active with
      | none => exact hretired.waits
      | some g =>
          have hcancelled := hretired.trans (silent_cancelGenerationRequests _ g)
          exact (hcancelled.trans ⟨rfl, [], rfl, rfl⟩).waits

/-- **What a run schedules** while no frame is accepted, the newest first. -/
theorem run_delays (t : Transport Result) (events : List (Event Result))
    (h : ∀ before event after, events = before ++ event :: after → (t.run before).accepts event = false) :
    ∃ later, (t.run events).history = later ++ t.history ∧ (delays later).Pairwise (· ≥ ·) ∧
      ∀ delay ∈ delays later, reconnectDelay t.reconnectAttempt ≤ delay ∧ delay ≤ 5000 := by
  induction events generalizing t with
  | nil => exact ⟨[], rfl, List.Pairwise.nil, List.forall_mem_nil _⟩
  | cons event events ih =>
      have hwaits : Waits t (t.step event) := waits_step (h [] event events rfl)
      obtain ⟨first, hfirst, hstep⟩ := hwaits
      obtain ⟨rest, hrest, hsorted, hbound⟩ :=
        ih (t.step event) fun before e after heq => h (event :: before) e after (by rw [heq]; rfl)
      have happend : delays (rest ++ first) = delays rest ++ delays first := List.filterMap_append
      refine ⟨rest ++ first, ?_, ?_⟩
      · rw [List.append_assoc, ← hfirst]
        exact hrest
      · rw [happend]
        rcases hstep with ⟨hnone, hattempt⟩ | ⟨hone, hattempt⟩
        · rw [hnone, List.append_nil, ← hattempt]
          exact ⟨hsorted, hbound⟩
        · have hle : reconnectDelay t.reconnectAttempt ≤ reconnectDelay (t.step event).reconnectAttempt := by
            rw [hattempt]
            exact reconnectDelay_mono (Nat.le_succ _)
          rw [hone]
          constructor
          · refine List.pairwise_append.2 ⟨hsorted, List.pairwise_singleton _ _, fun delay hdelay d hd => ?_⟩
            rw [List.mem_singleton.1 hd]
            exact hle.trans (hbound delay hdelay).1
          · intro delay hdelay
            rcases List.mem_append.1 hdelay with hdelay | hdelay
            · exact ⟨hle.trans (hbound delay hdelay).1, (hbound delay hdelay).2⟩
            · rw [List.mem_singleton.1 hdelay]
              exact ⟨le_refl _, reconnectDelay_le _⟩

/-- **A transport never stalls**: while it runs, either one socket of all that were made has not
closed and no timer is pending, or one timer is and every socket has closed. The delays between two
accepted frames never get shorter and are capped, and only an accepted frame starts them again. -/
theorem reconnect_never_stalls (uuid : JsString) (constructs : Bool) (events : List (Event Result)) :
    let t := (startSocketTransport uuid constructs).run events
    (t.stopped = false →
      (∃ g, t.active = some g ∧ (∀ g', t.live g' = true ↔ g' = g) ∧ t.timers = []) ∨
      (∃ timer, t.active = none ∧ (∀ g, t.live g = false) ∧ t.timers = [timer])) ∧
    (∀ between, (∀ before event after, between = before ++ event :: after →
        (t.run before).accepts event = false) →
      ∃ later, (t.run between).history = later ++ t.history ∧ (delays later).Pairwise (· ≥ ·) ∧
        ∀ delay ∈ delays later, delay ≤ 5000) ∧
    ∀ event, (t.step event).reconnectAttempt < t.reconnectAttempt → t.accepts event = true := by
  intro t
  have h : Connected t := connected_run uuid constructs events
  refine ⟨fun hrun => ?_, fun between hbetween => ?_, fun event hless => ?_⟩
  · have hone := h.one hrun
    have hlive := h.live hrun
    have htimers := h.timers
    cases hactive : t.active with
    | some g =>
        rw [hactive] at hone
        refine Or.inl ⟨g, rfl, fun g' => ?_, ?_⟩
        · rw [hlive g', hactive, Option.some.injEq, eq_comm]
        · rw [htimers, hone.1 rfl]
          rfl
    | none =>
        rw [hactive] at hone
        obtain ⟨timer, htimer⟩ := Option.ne_none_iff_exists'.1 fun hnone => nomatch hone.2 hnone
        refine Or.inr ⟨timer, rfl, fun g => ?_, ?_⟩
        · rw [← Bool.not_eq_true, hlive g, hactive]
          nofun
        · rw [htimers, htimer]
          rfl
  · obtain ⟨later, hlater, hsorted, hbound⟩ := run_delays t between hbetween
    exact ⟨later, hlater, hsorted, fun delay hdelay => (hbound delay hdelay).2⟩
  · by_contra haccepts
    obtain ⟨_, -, ⟨-, hattempt⟩ | ⟨-, hattempt⟩⟩ := waits_step (Bool.not_eq_true _ ▸ haccepts)
    · omega
    · omega

end FigmaDevMcp.Plugin

import FigmaDevMcp.Broker.Election

set_option autoImplicit false

/-!
# Runs of elections

* `Turn`: what an election does in a step of its own; `step_cases`: what a step does;
* `held_run`: the listeners are always those that the elections have bound;
* `Timed`, `rank`: how far the clock is at each attempt, and how much an election has left to do;
* **`one_leader`**: no two processes lead at a time, nor does one follow a process that has not
  bound the frontend address;
* **`election_ends`**: an election is over after at most 88 steps of its own.
-/

namespace FigmaDevMcp.Election

open Supervision (millis)

/-- What an election does in a step of its own. -/
inductive Turn (s : Cluster) (process : ℕ) : Phase → Phase → Prop
  | followed {leader : ℕ} (hleader : s.listeners .frontend = some leader) :
      Turn s process .connecting (.follower leader)
  | followedAgain {leader : ℕ} (deadline attempt : ℕ) (hleader : s.listeners .frontend = some leader) :
      Turn s process (.reconnecting deadline attempt) (.follower leader)
  | refused : Turn s process .connecting (.binding (s.now + electionTimeout) 0)
  | bound (deadline attempt : ℕ) : Turn s process (.binding deadline attempt) .bindingPlugin
  | inUse (deadline attempt : ℕ) :
      Turn s process (.binding deadline attempt) (.reconnecting deadline attempt)
  | slept {deadline : ℕ} (attempt : ℕ) (hnow : s.now < deadline) :
      Turn s process (.reconnecting deadline attempt)
        (.sleeping deadline (wrappingSucc attempt) (s.now + retryDelay process attempt))
  | woke {deadline wake : ℕ} (attempt : ℕ) (hwake : wake ≤ s.now) (hnow : s.now < deadline) :
      Turn s process (.sleeping deadline attempt wake) (.binding deadline attempt)
  | pluginBound : Turn s process .bindingPlugin .bindingV6
  | pluginAlone : Turn s process .bindingPlugin (.leader false)
  | v6Bound (v6 : Bool) : Turn s process .bindingV6 (.leader v6)
  | timedOut {deadline wake : ℕ} (attempt : ℕ) (hwake : wake ≤ s.now) (hnow : deadline ≤ s.now) :
      Turn s process (.sleeping deadline attempt wake) (.failed .timedOut)
  | connectFailed (kind : ErrorKind) : Turn s process .connecting (.failed (.connect kind))
  | reconnectFailed (deadline attempt : ℕ) (kind : ErrorKind) :
      Turn s process (.reconnecting deadline attempt) (.failed (.connect kind))
  | bindFailed (deadline attempt : ℕ) (kind : ErrorKind) :
      Turn s process (.binding deadline attempt) (.failed (.frontendBind kind))
  | pluginFailed (kind : ErrorKind) : Turn s process .bindingPlugin (.failed (.pluginBind kind))

namespace Cluster

/-- A step of one process, which leaves the clock and the others as they are. -/
structure Moves (s s' : Cluster) (process : ℕ) : Prop where
  turn : Turn s process (s.phases process) (s'.phases process)
  now : s'.now = s.now
  others : ∀ other, other ≠ process → s'.phases other = s.phases other
  held : Held s → Held s'

theorem moves_of_enter {s s' t : Cluster} {process : ℕ} {old phase : Phase}
    (hphase : s.phases process = old) (heq : t.enter process phase = s') (hphases : t.phases = s.phases)
    (hnow : t.now = s.now) (hturn : Turn s process old phase)
    (hheld : Held s → Held (t.enter process phase)) : Moves s s' process := by
  subst heq
  refine ⟨?_, hnow, fun other hother => ?_, hheld⟩
  · rw [phases_enter, if_pos rfl, hphase]
    exact hturn
  · rw [phases_enter, if_neg hother, hphases]

theorem moves_enter {s s' : Cluster} {process : ℕ} {old phase : Phase} (hphase : s.phases process = old)
    (heq : s.enter process phase = s') (hturn : Turn s process old phase)
    (hsame : ∀ port, phase.holds port = old.holds port) : Moves s s' process :=
  moves_of_enter hphase heq rfl rfl hturn fun h => held_enter h fun port => by rw [hphase, hsame port]

theorem moves_listen {s s' : Cluster} {process : ℕ} {port : Port} {old phase : Phase}
    (hphase : s.phases process = old) (heq : (s.listen port process).enter process phase = s')
    (hturn : Turn s process old phase) (hfree : s.listeners port = none)
    (hholds : ∀ q, phase.holds q = true ↔ old.holds q = true ∨ q = port) : Moves s s' process :=
  moves_of_enter hphase heq rfl rfl hturn fun h => held_listen h hfree fun q => by rw [hphase, hholds q]

theorem moves_release {s s' : Cluster} {process : ℕ} {old phase : Phase}
    (hphase : s.phases process = old) (heq : (s.release process).enter process phase = s')
    (hturn : Turn s process old phase) (hnone : ∀ q, phase.holds q = false) : Moves s s' process :=
  moves_of_enter hphase heq rfl rfl hturn fun h => held_release h hnone

theorem moves_answer {loopback : Bool} {s s' : Cluster} {process : ℕ} {error : Option ErrorKind}
    (h : s.answer loopback process error = some s') : Moves s s' process := by
  unfold answer at h
  cases hphase : s.phases process with
  | connecting =>
      simp only [hphase] at h
      cases hconnect : s.connect error with
      | ok leader =>
          simp only [hconnect, Option.some.injEq] at h
          exact moves_enter hphase h (.followed (connect_eq_ok hconnect)) fun _ => rfl
      | error kind =>
          cases kind with
          | connectionRefused =>
              simp only [hconnect, Option.some.injEq] at h
              exact moves_enter hphase h .refused fun _ => rfl
          | addrInUse =>
              simp only [hconnect, Option.some.injEq] at h
              exact moves_enter hphase h (.connectFailed _) fun _ => rfl
          | other =>
              simp only [hconnect, Option.some.injEq] at h
              exact moves_enter hphase h (.connectFailed _) fun _ => rfl
  | binding deadline attempt =>
      simp only [hphase] at h
      cases hbind : s.bindError .frontend error with
      | none =>
          simp only [hbind, Option.some.injEq] at h
          exact moves_listen hphase h (.bound _ _) (bindError_eq_none hbind) fun q => by
            cases q <;> simp [Phase.holds]
      | some kind =>
          cases kind with
          | addrInUse =>
              simp only [hbind, Option.some.injEq] at h
              exact moves_enter hphase h (.inUse _ _) fun _ => rfl
          | connectionRefused =>
              simp only [hbind, Option.some.injEq] at h
              exact moves_enter hphase h (.bindFailed _ _ _) fun _ => rfl
          | other =>
              simp only [hbind, Option.some.injEq] at h
              exact moves_enter hphase h (.bindFailed _ _ _) fun _ => rfl
  | reconnecting deadline attempt =>
      simp only [hphase] at h
      cases hconnect : s.connect error with
      | ok leader =>
          simp only [hconnect, Option.some.injEq] at h
          exact moves_enter hphase h (.followedAgain _ _ (connect_eq_ok hconnect)) fun _ => rfl
      | error kind =>
          simp only [hconnect] at h
          split_ifs at h with hretry
          · exact moves_enter hphase (Option.some.inj h) (.slept _ hretry.2) fun _ => rfl
          · exact moves_enter hphase (Option.some.inj h) (.reconnectFailed _ _ _) fun _ => rfl
  | bindingPlugin =>
      simp only [hphase] at h
      cases hbind : s.bindError .plugin error with
      | none =>
          simp only [hbind, Option.some.injEq] at h
          cases loopback with
          | true =>
              exact moves_listen hphase h .pluginBound (bindError_eq_none hbind) fun q => by
                cases q <;> simp [Phase.holds]
          | false =>
              exact moves_listen hphase h .pluginAlone (bindError_eq_none hbind) fun q => by
                cases q <;> simp [Phase.holds]
      | some kind =>
          simp only [hbind, Option.some.injEq] at h
          exact moves_release hphase h (.pluginFailed _) fun _ => rfl
  | bindingV6 =>
      simp only [hphase] at h
      cases hbind : s.bindError .pluginV6 error with
      | none =>
          simp only [hbind, Option.some.injEq] at h
          exact moves_listen hphase h (.v6Bound _) (bindError_eq_none hbind) fun q => by
            cases q <;> simp [Phase.holds]
      | some kind =>
          simp only [hbind, Option.some.injEq] at h
          exact moves_enter hphase h (.v6Bound _) fun port => by cases port <;> rfl
  | idle => simp [hphase] at h
  | sleeping deadline attempt wake => simp [hphase] at h
  | leader v6 => simp [hphase] at h
  | follower leader => simp [hphase] at h
  | failed error => simp [hphase] at h

theorem moves_wake {s s' : Cluster} {process : ℕ} (h : s.wake process = some s') : Moves s s' process := by
  unfold wake at h
  cases hphase : s.phases process with
  | sleeping deadline attempt wake =>
      simp only [hphase] at h
      split_ifs at h with hearly hlate
      · exact moves_enter hphase (Option.some.inj h) (.timedOut _ (Nat.not_lt.1 hearly) hlate) fun _ => rfl
      · exact moves_enter hphase (Option.some.inj h)
          (.woke _ (Nat.not_lt.1 hearly) (Nat.not_le.1 hlate)) fun _ => rfl
  | idle => simp [hphase] at h
  | connecting => simp [hphase] at h
  | binding deadline attempt => simp [hphase] at h
  | reconnecting deadline attempt => simp [hphase] at h
  | bindingPlugin => simp [hphase] at h
  | bindingV6 => simp [hphase] at h
  | leader v6 => simp [hphase] at h
  | follower leader => simp [hphase] at h
  | failed error => simp [hphase] at h

/-- An election that starts holds no listener, and starts where none was under way. -/
theorem start_eq {s s' : Cluster} {process : ℕ} (h : s.start process = some s') :
    s' = s.enter process .connecting ∧ ∀ port, (s.phases process).holds port = false := by
  unfold start at h
  cases hphase : s.phases process with
  | idle => exact ⟨by simpa [hphase, eq_comm] using h, fun _ => rfl⟩
  | follower leader => exact ⟨by simpa [hphase, eq_comm] using h, fun _ => rfl⟩
  | failed error => exact ⟨by simpa [hphase, eq_comm] using h, fun _ => rfl⟩
  | connecting => simp [hphase] at h
  | binding deadline attempt => simp [hphase] at h
  | reconnecting deadline attempt => simp [hphase] at h
  | sleeping deadline attempt wake => simp [hphase] at h
  | bindingPlugin => simp [hphase] at h
  | bindingV6 => simp [hphase] at h
  | leader v6 => simp [hphase] at h

/-! ## The listeners -/

theorem held_step {loopback : Bool} {s s' : Cluster} {event : Event} (h : s.step loopback event = some s')
    (hheld : Held s) : Held s' := by
  cases event with
  | pass d =>
      obtain rfl := Option.some.inj h
      exact hheld
  | start process =>
      obtain ⟨rfl, hnone⟩ := start_eq h
      exact held_enter hheld fun port => (hnone port).symm
  | answer process error => exact (moves_answer h).held hheld
  | wake process => exact (moves_wake h).held hheld
  | quit process =>
      obtain rfl := Option.some.inj h
      exact held_release hheld fun _ => rfl

theorem held_init : Held {} := by
  intro port process
  cases port <;> simp [Phase.holds]

theorem held_run {loopback : Bool} {s : Cluster} {events : List Event}
    (h : Exec.exec (step loopback) {} events = some s) : Held s :=
  Exec.exec_invariant (fun _ _ _ => held_step) h held_init

theorem Held.listens {s : Cluster} (h : Held s) (port : Port) (process : ℕ) :
    s.listeners port = some process ↔ (s.phases process).holds port = true := h port process

/-- Who starts to follow a process has connected to its listener. -/
theorem listener_of_follows {loopback : Bool} {s s' : Cluster} {event : Event}
    (h : s.step loopback event = some s') {process leader : ℕ}
    (hfollows : s'.phases process = .follower leader) (hnew : s.phases process ≠ .follower leader) :
    s.listeners .frontend = some leader := by
  have hmoves : ∀ mover, Moves s s' mover → s.listeners .frontend = some leader := by
    intro mover hmover
    by_cases heq : process = mover
    · subst heq
      have hturn := hmover.turn
      rw [hfollows] at hturn
      generalize s.phases process = old at hturn
      cases hturn with
      | followed hleader => exact hleader
      | followedAgain deadline attempt hleader => exact hleader
    · exact absurd ((hmover.others process heq).symm.trans hfollows) hnew
  cases event with
  | pass d =>
      obtain rfl := Option.some.inj h
      exact absurd hfollows hnew
  | start mover =>
      obtain ⟨rfl, _⟩ := start_eq h
      rw [phases_enter] at hfollows
      split_ifs at hfollows
      exact absurd hfollows hnew
  | answer mover error => exact hmoves mover (moves_answer h)
  | wake mover => exact hmoves mover (moves_wake h)
  | quit mover =>
      obtain rfl := Option.some.inj h
      rw [phases_enter] at hfollows
      split_ifs at hfollows
      exact absurd hfollows hnew

end Cluster

/-! ## Delays -/

theorem retryBase_le (attempt : ℕ) : retryBase attempt ≤ maxRetryDelayMs := Nat.min_le_right _ _

/-- A delay is at least its base, and at most the longest one. -/
theorem retryDelay_bounds (process attempt : ℕ) :
    millis (retryBase attempt) ≤ retryDelay process attempt ∧
      retryDelay process attempt ≤ millis maxRetryDelayMs := by
  have hbase := retryBase_le attempt
  unfold retryDelay millis
  constructor
  · exact Nat.mul_le_mul_right _ (Nat.le_min.2 ⟨Nat.le_add_right _ _, hbase⟩)
  · exact Nat.mul_le_mul_right _ (Nat.min_le_right _ _)

/-- The least time that the sleeps before an attempt take. -/
def sleptBefore : ℕ → ℕ
  | 0 => 0
  | attempt + 1 => sleptBefore attempt + millis (retryBase attempt)

theorem sleptBefore_mono {m n : ℕ} (h : m ≤ n) : sleptBefore m ≤ sleptBefore n := by
  induction h with
  | refl => exact Nat.le_refl _
  | step _ ih => exact ih.trans (Nat.le_add_right _ _)

/-- The sleeps before the thirtieth attempt are longer than the whole election may take. -/
theorem lt_of_sleptBefore_lt {attempt : ℕ} (h : sleptBefore attempt < electionTimeout) : attempt < 29 := by
  by_contra hge
  have hmono : sleptBefore 29 ≤ sleptBefore attempt := sleptBefore_mono (Nat.not_lt.1 hge)
  have hlong : electionTimeout ≤ sleptBefore 29 := by decide
  omega

/-! ## The end of an election -/

/-- How far the clock is at each attempt. -/
def Phase.Timed (now : ℕ) : Phase → Prop
  | .binding deadline attempt | .reconnecting deadline attempt =>
    deadline + sleptBefore attempt ≤ now + electionTimeout ∧ attempt < 29
  | .sleeping deadline attempt wake =>
    deadline + sleptBefore attempt ≤ wake + electionTimeout ∧ attempt ≤ 29 ∧
      wake < deadline + millis maxRetryDelayMs
  | _ => True

theorem Phase.Timed.pass {now : ℕ} {phase : Phase} (h : phase.Timed now) (d : ℕ) : phase.Timed (now + d) := by
  cases phase with
  | binding deadline attempt =>
      refine ⟨?_, h.2⟩
      have := h.1
      omega
  | reconnecting deadline attempt =>
      refine ⟨?_, h.2⟩
      have := h.1
      omega
  | sleeping deadline attempt wake => exact h
  | idle => trivial
  | connecting => trivial
  | bindingPlugin => trivial
  | bindingV6 => trivial
  | leader v6 => trivial
  | follower leader => trivial
  | failed error => trivial

theorem wrappingSucc_eq {attempt : ℕ} (h : attempt < 29) : wrappingSucc attempt = attempt + 1 :=
  Nat.mod_eq_of_lt (by omega)

theorem Turn.timed {s : Cluster} {process : ℕ} {old new : Phase} (h : Turn s process old new)
    (htimed : old.Timed s.now) : new.Timed s.now := by
  cases h with
  | refused => exact ⟨Nat.le_refl _, by decide⟩
  | inUse deadline attempt => exact htimed
  | @slept deadline attempt hnow =>
      obtain ⟨hlow, hhigh⟩ := retryDelay_bounds process attempt
      have hbefore : deadline + sleptBefore attempt ≤ s.now + electionTimeout := htimed.1
      rw [wrappingSucc_eq htimed.2]
      refine ⟨?_, htimed.2, by omega⟩
      rw [sleptBefore]
      omega
  | @woke deadline wake attempt hwake hnow =>
      have hbefore : deadline + sleptBefore attempt ≤ wake + electionTimeout := htimed.1
      exact ⟨by omega, lt_of_sleptBefore_lt (by omega)⟩
  | followed hleader => trivial
  | followedAgain deadline attempt hleader => trivial
  | bound deadline attempt => trivial
  | pluginBound => trivial
  | pluginAlone => trivial
  | v6Bound v6 => trivial
  | timedOut attempt hwake hnow => trivial
  | connectFailed kind => trivial
  | reconnectFailed deadline attempt kind => trivial
  | bindFailed deadline attempt kind => trivial
  | pluginFailed kind => trivial

/-- How many steps an election has left, at most. -/
def Phase.rank : Phase → ℕ
  | .connecting => 88
  | .binding _ attempt => 3 * (29 - attempt)
  | .reconnecting _ attempt => 3 * (29 - attempt) - 1
  | .sleeping _ attempt _ => 3 * (29 - attempt) + 1
  | .bindingPlugin => 2
  | .bindingV6 => 1
  | _ => 0

theorem Turn.rank_lt {s : Cluster} {process : ℕ} {old new : Phase} (h : Turn s process old new)
    (htimed : old.Timed s.now) : new.rank < old.rank := by
  cases h with
  | @slept deadline attempt hnow =>
      have hattempt := htimed.2
      rw [wrappingSucc_eq hattempt]
      simp only [Phase.rank]
      omega
  | bound deadline attempt =>
      have hattempt := htimed.2
      simp only [Phase.rank]
      omega
  | inUse deadline attempt =>
      have hattempt := htimed.2
      simp only [Phase.rank]
      omega
  | followedAgain deadline attempt hleader =>
      have hattempt := htimed.2
      simp only [Phase.rank]
      omega
  | reconnectFailed deadline attempt kind =>
      have hattempt := htimed.2
      simp only [Phase.rank]
      omega
  | bindFailed deadline attempt kind =>
      have hattempt := htimed.2
      simp only [Phase.rank]
      omega
  | woke attempt hwake hnow => exact Nat.lt_succ_self _
  | timedOut attempt hwake hnow => exact Nat.succ_pos _
  | refused => exact Nat.lt_succ_self 87
  | followed hleader => exact Nat.succ_pos 87
  | pluginBound => exact Nat.lt_succ_self 1
  | pluginAlone => exact Nat.succ_pos 1
  | v6Bound v6 => exact Nat.succ_pos 0
  | connectFailed kind => exact Nat.succ_pos 87
  | pluginFailed kind => exact Nat.succ_pos 1

/-- The steps that an election makes itself. -/
def Event.isOwn (process : ℕ) : Event → Bool
  | .answer mover _ | .wake mover => mover = process
  | _ => false

/-- An election that has returned, or none. -/
def Phase.isOver : Phase → Bool
  | .idle | .leader _ | .follower _ | .failed _ => true
  | _ => false

namespace Cluster

/-- A step of anyone keeps the times of a process, and its own step lowers what it has left to do. -/
theorem timed_step {loopback : Bool} {s s' : Cluster} {process : ℕ} {event : Event}
    (h : s.step loopback event = some s') (htimed : (s.phases process).Timed s.now) :
    (s'.phases process).Timed s'.now ∧
      (event ≠ .start process → (s'.phases process).rank +
        (if event.isOwn process then 1 else 0) ≤ (s.phases process).rank) := by
  have hmoves : ∀ mover, Moves s s' mover → event.isOwn process = decide (mover = process) →
      (s'.phases process).Timed s'.now ∧ (s'.phases process).rank +
        (if event.isOwn process then 1 else 0) ≤ (s.phases process).rank := by
    intro mover hmover hown
    rw [hown, hmover.now]
    by_cases heq : mover = process
    · subst heq
      refine ⟨hmover.turn.timed htimed, ?_⟩
      rw [if_pos (decide_eq_true rfl)]
      exact hmover.turn.rank_lt htimed
    · rw [hmover.others process (Ne.symm heq), if_neg (by simpa using heq)]
      exact ⟨htimed, Nat.le_refl _⟩
  cases event with
  | pass d =>
      obtain rfl := Option.some.inj h
      exact ⟨htimed.pass d, fun _ => Nat.le_refl _⟩
  | start mover =>
      obtain ⟨rfl, _⟩ := start_eq h
      rw [phases_enter]
      by_cases heq : process = mover
      · subst heq
        rw [if_pos rfl]
        exact ⟨trivial, fun hne => absurd rfl hne⟩
      · rw [if_neg heq]
        exact ⟨htimed, fun _ => Nat.le_refl _⟩
  | answer mover error =>
      obtain ⟨htimed', hrank⟩ := hmoves mover (moves_answer h) rfl
      exact ⟨htimed', fun _ => hrank⟩
  | wake mover =>
      obtain ⟨htimed', hrank⟩ := hmoves mover (moves_wake h) rfl
      exact ⟨htimed', fun _ => hrank⟩
  | quit mover =>
      obtain rfl := Option.some.inj h
      rw [phases_enter]
      by_cases heq : process = mover
      · rw [if_pos heq]
        exact ⟨trivial, fun _ => Nat.zero_le _⟩
      · rw [if_neg heq]
        exact ⟨htimed, fun _ => Nat.le_refl _⟩

theorem timed_run {loopback : Bool} {s : Cluster} {events : List Event}
    (h : Exec.exec (step loopback) {} events = some s) (process : ℕ) :
    (s.phases process).Timed s.now :=
  Exec.exec_invariant (I := fun s => (s.phases process).Timed s.now)
    (fun _ _ _ hstep htimed => (timed_step hstep htimed).1) h trivial

/-- An election that is not over takes another step, once the time for it has come. -/
theorem exists_own_step (loopback : Bool) {s : Cluster} {process : ℕ}
    (h : (s.phases process).isOver = false) :
    ∃ d event t, event.isOwn process = true ∧
      Exec.exec (step loopback) s [.pass d, event] = some t := by
  have hown : (Event.answer process (some .other)).isOwn process = true := decide_eq_true rfl
  cases hphase : s.phases process with
  | connecting => exact ⟨0, .answer process (some .other), _, hown, by
      simp [Exec.exec, step, answer, hphase, connect]; rfl⟩
  | binding deadline attempt => exact ⟨0, .answer process (some .other), _, hown, by
      simp [Exec.exec, step, answer, hphase, bindError]; rfl⟩
  | reconnecting deadline attempt => exact ⟨0, .answer process (some .other), _, hown, by
      simp [Exec.exec, step, answer, hphase, connect]; rfl⟩
  | bindingPlugin => exact ⟨0, .answer process (some .other), _, hown, by
      simp [Exec.exec, step, answer, hphase, bindError]; rfl⟩
  | bindingV6 => exact ⟨0, .answer process (some .other), _, hown, by
      simp [Exec.exec, step, answer, hphase, bindError]; rfl⟩
  | sleeping deadline attempt wake =>
      have hlate : ¬ s.now + wake < wake := by omega
      by_cases hdeadline : deadline ≤ s.now + wake
      · exact ⟨wake, .wake process, _, decide_eq_true rfl, by
          simp [Exec.exec, step, Cluster.wake, hphase, hdeadline]; rfl⟩
      · exact ⟨wake, .wake process, _, decide_eq_true rfl, by
          simp [Exec.exec, step, Cluster.wake, hphase, hdeadline]; rfl⟩
  | idle => simp [hphase, Phase.isOver] at h
  | leader v6 => simp [hphase, Phase.isOver] at h
  | follower leader => simp [hphase, Phase.isOver] at h
  | failed error => simp [hphase, Phase.isOver] at h

/-! ## Runs -/

variable {loopback : Bool}

/-- **At most one process leads.** In every run of any number of elections, whatever the operating
system answers: no two processes lead; the leader listens on the frontend and the plugin address;
every listener is one that a leader or a process about to lead has bound, so that an election which
has failed leaves none behind; and who starts to follow a process follows one that has bound the
frontend address. -/
theorem one_leader {s : Cluster} {events : List Event} (h : Exec.exec (step loopback) {} events = some s) :
    (∀ p q v w, s.phases p = .leader v → s.phases q = .leader w → p = q) ∧
    (∀ p v, s.phases p = .leader v → s.listeners .frontend = some p ∧ s.listeners .plugin = some p ∧
      (s.listeners .pluginV6 = some p ↔ v = true)) ∧
    (∀ port p, s.listeners port = some p →
      s.phases p = .bindingPlugin ∨ s.phases p = .bindingV6 ∨ ∃ v, s.phases p = .leader v) ∧
    ∀ event s' p l, s.step loopback event = some s' → s'.phases p = .follower l →
      s.phases p ≠ .follower l →
        s.phases l = .bindingPlugin ∨ s.phases l = .bindingV6 ∨ ∃ v, s.phases l = .leader v := by
  have hheld : Held s := held_run h
  have hholder : ∀ port p, s.listeners port = some p →
      s.phases p = .bindingPlugin ∨ s.phases p = .bindingV6 ∨ ∃ v, s.phases p = .leader v := by
    intro port p hlistener
    have hholds := (hheld.listens port p).1 hlistener
    cases hphase : s.phases p with
    | bindingPlugin => exact Or.inl rfl
    | bindingV6 => exact Or.inr (Or.inl rfl)
    | leader v => exact Or.inr (Or.inr ⟨v, rfl⟩)
    | idle => simp [hphase, Phase.holds] at hholds
    | connecting => simp [hphase, Phase.holds] at hholds
    | binding deadline attempt => simp [hphase, Phase.holds] at hholds
    | reconnecting deadline attempt => simp [hphase, Phase.holds] at hholds
    | sleeping deadline attempt wake => simp [hphase, Phase.holds] at hholds
    | follower leader => simp [hphase, Phase.holds] at hholds
    | failed error => simp [hphase, Phase.holds] at hholds
  refine ⟨fun p q v w hp hq => ?_, fun p v hp => ⟨?_, ?_, ?_⟩, hholder, ?_⟩
  · have hpf : (s.phases p).holds .frontend = true := by rw [hp]; rfl
    have hqf : (s.phases q).holds .frontend = true := by rw [hq]; rfl
    exact hheld.unique hpf hqf
  · exact (hheld.listens .frontend p).2 (by rw [hp]; rfl)
  · exact (hheld.listens .plugin p).2 (by rw [hp]; rfl)
  · rw [hheld.listens .pluginV6 p, hp]
    rfl
  · intro event s' p l hstep hfollows hnew
    exact hholder .frontend l (listener_of_follows hstep hfollows hnew)

/-- Two processes that start together: the second finds the frontend address in use, and follows. -/
def race : List Event :=
  [.start 1, .start 2, .answer 1 none, .answer 2 none, .answer 1 none, .answer 2 none, .answer 1 none,
    .answer 1 none, .answer 2 none]

theorem one_leader_race : ∃ s, Exec.exec (step true) {} race = some s ∧ s.phases 1 = .leader true ∧
    s.phases 2 = .follower 1 ∧ s.listeners .frontend = some 1 ∧ s.listeners .plugin = some 1 := by
  have hrun : Exec.exec (step true) {} race = some _ := rfl
  obtain ⟨hfrontend, hplugin, _⟩ := (one_leader hrun).2.1 1 true rfl
  exact ⟨_, hrun, rfl, rfl, hfrontend, hplugin⟩

/-- **Every election ends.** Whatever the operating system answers, and whatever the other processes
do, an election is over after at most 88 steps of its own; while it is not over it has a next step,
once the time for it has come; and no sleep of it lasts until 100 ms after its deadline. -/
theorem election_ends {before during : List Event} {s s' : Cluster} {process : ℕ}
    (hbefore : Exec.exec (step loopback) {} before = some s) (hstart : s.phases process = .connecting)
    (hduring : Exec.exec (step loopback) s during = some s')
    (hnew : ∀ event ∈ during, event ≠ .start process) :
    during.countP (Event.isOwn process) ≤ 88 ∧
    (during.countP (Event.isOwn process) = 88 → (s'.phases process).isOver = true) ∧
    ((s'.phases process).isOver = false → ∃ d event t, event.isOwn process = true ∧
      Exec.exec (step loopback) s' [.pass d, event] = some t) ∧
    ∀ deadline attempt wake, s'.phases process = .sleeping deadline attempt wake →
      wake < deadline + millis maxRetryDelayMs := by
  have htimed := timed_run hbefore process
  have hrank : (s'.phases process).rank + during.countP (Event.isOwn process) ≤ 88 := by
    have hstep : ∀ u event t, event ≠ Event.start process → step loopback u event = some t →
        (u.phases process).Timed u.now → (t.phases process).Timed t.now ∧
          (t.phases process).rank + (if event.isOwn process then 1 else 0) ≤ (u.phases process).rank :=
      fun u event t hne hstep hu => ⟨(timed_step hstep hu).1, (timed_step hstep hu).2 hne⟩
    have hle := Exec.exec_countP_le hstep hnew hduring htimed
    rw [hstart] at hle
    exact hle
  have hend : (s'.phases process).Timed s'.now :=
    Exec.exec_invariant (I := fun s => (s.phases process).Timed s.now)
      (fun _ _ _ hstep hu => (timed_step hstep hu).1) hduring htimed
  refine ⟨by omega, fun hall => ?_, exists_own_step loopback, fun deadline attempt wake hphase => ?_⟩
  · have hzero : (s'.phases process).rank = 0 := by omega
    cases hphase : s'.phases process with
    | binding deadline attempt =>
        rw [hphase] at hzero hend
        have hattempt := hend.2
        simp only [Phase.rank] at hzero
        omega
    | reconnecting deadline attempt =>
        rw [hphase] at hzero hend
        have hattempt := hend.2
        simp only [Phase.rank] at hzero
        omega
    | sleeping deadline attempt wake => simp [hphase, Phase.rank] at hzero
    | connecting => simp [hphase, Phase.rank] at hzero
    | bindingPlugin => simp [hphase, Phase.rank] at hzero
    | bindingV6 => simp [hphase, Phase.rank] at hzero
    | idle => rfl
    | leader v6 => rfl
    | follower leader => rfl
    | failed error => rfl
  · rw [hphase] at hend
    exact hend.2.2

/-- What the two share once both have started. -/
def started : Cluster := (Exec.exec (step true) {} (race.take 2)).getD {}

theorem election_ends_race : ∃ s', Exec.exec (step true) started (race.drop 2) = some s' ∧
    (s'.phases 2).isOver = true ∧ (race.drop 2).countP (Event.isOwn 2) ≤ 88 := by
  have hbefore : Exec.exec (step true) {} (race.take 2) = some started := rfl
  have hduring : Exec.exec (step true) started (race.drop 2) = some _ := rfl
  exact ⟨_, hduring, rfl, (election_ends hbefore rfl hduring (by decide)).1⟩

end Cluster

end FigmaDevMcp.Election

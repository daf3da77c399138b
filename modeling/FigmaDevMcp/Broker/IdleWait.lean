import FigmaDevMcp.Broker.Activity

set_option autoImplicit false

/-!
# Waiting until the broker is idle

The calls of `wait_until_idle` in every run of the leases: each subscribes before it looks at the
counts, so that a lease which is dropped between its look and its wait still wakes it.

* `Ready`: what holds of a call, and that every step keeps it;
* `returns_of_idle`: what a call does once no lease is live;
* **`idle_wait_settles`**: a call that has returned leaves a broker without leases for good, and a
  call that waits returns once the leases are gone.
-/

namespace FigmaDevMcp

namespace Activity

/-- What holds of a call: where it waits for the counts alone, they are not zero or it has a change
to come, and it returns from a broker that closes. -/
def Ready (w : Watch ActivityState) : IdleWait → Prop
  | .looking changes => w.Served ActivityState.idle changes
  | .idle changes => w.Served ActivityState.idle changes
  | .busy changes => w.Served ActivityState.idle changes ∧ changes.waiting = true
  | .returned => w.value.closing = true

/-- What the writers do keeps a call ready. -/
theorem Ready.writer {w w' : Watch ActivityState} {wait : IdleWait} (h : Ready w wait)
    (hserved : ∀ r, w.Served ActivityState.idle r → w'.Served ActivityState.idle r)
    (hclosing : w.value.closing = true → w'.value.closing = true) : Ready w' wait := by
  cases wait with
  | looking changes => exact hserved changes h
  | idle changes => exact hserved changes h
  | busy changes => exact ⟨hserved changes h.1, h.2⟩
  | returned => exact hclosing h

theorem Ready.look {w : Watch ActivityState} {wait : IdleWait} (h : Ready w wait) : Ready w (look w wait) := by
  cases wait with
  | looking changes =>
      rw [Activity.look]
      by_cases hidle : w.value.idle = true
      · rw [if_pos hidle]
        exact Watch.Served.look h
      · rw [if_neg hidle]
        have hbusy : w.value.idle = false := Bool.not_eq_true _ ▸ hidle
        refine ⟨Watch.Served.look h, ?_⟩
        rw [Watch.look, hbusy]
        rfl
  | idle changes => exact h
  | busy changes => exact h
  | returned => exact h

theorem Ready.wake {w : Watch ActivityState} {wait : IdleWait} (h : Ready w wait) : Ready w (wake w wait) := by
  cases wait with
  | looking changes => exact h
  | idle changes =>
      rw [Activity.wake]
      by_cases hchanged : w.changed changes = true
      · rw [if_pos hchanged]
        exact Watch.served_subscribe w
      · rw [if_neg hchanged]
        exact h
  | busy changes =>
      rw [Activity.wake]
      by_cases hchanged : w.changed changes = true
      · rw [if_pos hchanged]
        exact Watch.served_subscribe w
      · rw [if_neg hchanged]
        exact h
  | returned => exact h

/-- Every call is ready. -/
def AllReady (s : Activity) : Prop :=
  ∀ (n : ℕ) (wait : IdleWait), s.waits[n]? = some wait → Ready s.state wait

theorem AllReady.modify {s : Activity} (h : AllReady s) {f : IdleWait → IdleWait}
    (hf : ∀ wait, Ready s.state wait → Ready s.state (f wait)) (n : ℕ) :
    AllReady { s with waits := s.waits.modify n f } := by
  intro m wait hwait
  rw [List.getElem?_modify] at hwait
  obtain ⟨old, hold, rfl⟩ := Option.map_eq_some_iff.1 hwait
  have hready := h m old hold
  by_cases heq : n = m
  · rw [if_pos heq]
    exact hf old hready
  · rw [if_neg heq]
    exact hready

theorem AllReady.lease {s : Activity} (h : AllReady s) (kind : LeaseKind) : AllReady (s.lease kind).2 := by
  unfold Activity.lease
  by_cases hclosing : s.state.value.closing = true
  · rw [if_pos hclosing]
    exact h
  · rw [if_neg hclosing]
    exact fun n wait hwait => (h n wait hwait).writer (fun r hr => hr.write _)
      fun hclosed => absurd hclosed hclosing

theorem AllReady.drop {s : Activity} (h : AllReady s) (lease : ℕ × LeaseKind) : AllReady (s.drop lease) := by
  unfold Activity.drop
  by_cases hlease : lease ∈ s.leases
  · rw [if_pos hlease]
    exact fun n wait hwait => (h n wait hwait).writer (fun r hr => hr.write _)
      fun hclosed => (closing_update _ _ _).trans hclosed
  · rw [if_neg hlease]
    exact h

theorem value_publish (w : Watch ActivityState) : w.publish.value = w.value := by
  unfold Watch.publish
  split_ifs <;> rfl

/-- A broker without a live lease has counts of zero. -/
theorem Counted.idle {s : Activity} (h : Counted s) (hnone : s.leases = []) : s.state.value.idle = true := by
  have hzero : ∀ kind, s.state.value.counts.of kind = 0 := by
    intro kind
    rw [h.counts kind, hnone]
    rfl
  unfold ActivityState.idle
  rw [Bool.and_eq_true, decide_eq_true_eq, decide_eq_true_eq]
  exact ⟨hzero .frontend, hzero .plugin⟩

theorem beginClosingIfIdle_eq (s : Activity) :
    s.beginClosingIfIdle = if s.state.value.idle = true then
      (true, { s with state := s.state.put { s.state.value with closing := true } }) else (false, s) := by
  unfold beginClosingIfIdle ActivityState.idle
  by_cases hidle : s.state.value.counts.frontends = 0 ∧ s.state.value.counts.plugins = 0
  · simp [hidle]
  · rw [if_pos (not_and_or.1 hidle), if_neg (by simpa using hidle)]

/-- The grace period of a call is over: the call returns and closes the broker, or looks again. -/
theorem elapse_idle {s : Activity} {n : ℕ} {changes : Reader} (hwait : s.waits[n]? = some (.idle changes)) :
    s.elapse n = if s.state.value.idle = true then
      { s with
        state := s.state.put { s.state.value with closing := true }
        waits := s.waits.set n .returned }
    else { s with waits := s.waits.set n (.looking changes) } := by
  unfold elapse
  simp only [hwait, beginClosingIfIdle_eq]
  by_cases hidle : s.state.value.idle = true
  · simp only [if_pos hidle]
  · simp only [if_neg hidle]

/-- Only a call in its grace period lets one elapse. -/
theorem elapse_of_ne {s : Activity} {n : ℕ} (hwait : ∀ changes, s.waits[n]? ≠ some (.idle changes)) :
    s.elapse n = s := by
  unfold elapse
  split
  · rename_i changes heq
    exact absurd heq (hwait changes)
  · rfl

theorem AllReady.elapse {s : Activity} (h : AllReady s) (n : ℕ) : AllReady (s.elapse n) := by
  by_cases hgrace : ∃ changes, s.waits[n]? = some (.idle changes)
  · obtain ⟨changes, hwait⟩ := hgrace
    rw [elapse_idle hwait]
    by_cases hidle : s.state.value.idle = true
    · rw [if_pos hidle]
      intro m wait hm
      simp only [List.getElem?_set] at hm
      -- Closing leaves the counts as they are, so that a call which waits has lost nothing by it.
      by_cases heq : n = m
      · rw [if_pos heq] at hm
        split_ifs at hm
        cases hm
        rfl
      · rw [if_neg heq] at hm
        exact (h m wait hm).writer (fun r hr => hr.put fun hready => hready) fun _ => rfl
    · rw [if_neg hidle]
      intro m wait hm
      simp only [List.getElem?_set] at hm
      by_cases heq : n = m
      · rw [if_pos heq] at hm
        split_ifs at hm
        cases hm
        have hserved : s.state.Served ActivityState.idle changes := h n _ hwait
        exact hserved
      · rw [if_neg heq] at hm
        exact h m wait hm
  · rw [elapse_of_ne fun changes heq => hgrace ⟨changes, heq⟩]
    exact h

theorem AllReady.step {s : Activity} (h : AllReady s) (event : Event) : AllReady (s.step event) := by
  cases event with
  | frontendLease => exact h.lease .frontend
  | pluginLease => exact h.lease .plugin
  | drop lease => exact h.drop lease
  | changed =>
      exact fun n wait hwait => (h n wait hwait).writer (fun r hr => hr.publish)
        fun hclosed => (congrArg ActivityState.closing (value_publish s.state)).trans hclosed
  | notified =>
      exact fun n wait hwait => (h n wait hwait).writer (fun r hr => hr.notify) fun hclosed => hclosed
  | waitUntilIdle =>
      intro n wait hwait
      change (s.waits ++ [.looking s.state.subscribe])[n]? = some wait at hwait
      rw [List.getElem?_append] at hwait
      split_ifs at hwait with hlt
      · exact h n wait hwait
      · rw [List.mem_singleton.1 (List.mem_of_getElem? hwait)]
        exact Watch.served_subscribe s.state
  | look n => exact h.modify (fun _ => Ready.look) n
  | wake n => exact h.modify (fun _ => Ready.wake) n
  | elapse n => exact h.elapse n

theorem AllReady.run {s : Activity} (h : AllReady s) (events : List Event) : AllReady (s.run events) := by
  unfold Activity.run
  induction events generalizing s with
  | nil => exact h
  | cons event events ih => exact ih (h.step event)

theorem allReady_run (events : List Event) : AllReady (({} : Activity).run events) := by
  have hempty : AllReady {} := fun n wait hwait => by simp at hwait
  exact hempty.run events

/-! ## What a call does once no lease is live -/

theorem run_append (s : Activity) (first second : List Event) :
    s.run (first ++ second) = (s.run first).run second := List.foldl_append

/-- The changes that are owed, one after the other, leave none. -/
theorem run_changed (s : Activity) : ∀ owed, s.state.owed = owed →
    (s.run (List.replicate owed .changed)).state.owed = 0 ∧
      (s.run (List.replicate owed .changed)).state.value = s.state.value ∧
      (s.run (List.replicate owed .changed)).waits = s.waits := by
  intro owed
  induction owed generalizing s with
  | zero => exact fun h => ⟨h, rfl, rfl⟩
  | succ owed ih =>
      intro h
      have hpublish : (s.step .changed).state.owed = owed := by
        show s.state.publish.owed = owed
        rw [Watch.publish, if_neg (by omega), h]
        rfl
      obtain ⟨howed, hvalue, hwaits⟩ := ih (s.step .changed) hpublish
      exact ⟨howed, hvalue.trans (value_publish s.state), hwaits⟩

/-- The steps of a call that is woken, looks and lets its grace period elapse. -/
def closingSteps (n : ℕ) : List Event := [.wake n, .look n, .elapse n]

theorem looking_or_idle_of_wake {s : Activity} (h : AllReady s) (hidle : s.state.value.idle = true)
    (howed : s.state.owed = 0) {n : ℕ} {wait : IdleWait} (hwait : s.waits[n]? = some wait)
    (hreturned : wait ≠ .returned) : ∃ changes, look s.state (wake s.state wait) = .idle changes := by
  have hready := h n wait hwait
  have hlook : ∀ changes, look s.state (.looking changes) = .idle (s.state.look ActivityState.idle changes) :=
    fun changes => by rw [look, if_pos hidle]
  cases wait with
  | looking changes => exact ⟨_, hlook changes⟩
  | idle changes =>
      rw [wake]
      by_cases hchanged : s.state.changed changes = true
      · rw [if_pos hchanged]
        exact ⟨_, hlook _⟩
      · rw [if_neg hchanged]
        exact ⟨changes, rfl⟩
  | busy changes =>
      -- It was woken by the change that brought the counts to zero.
      have hchanged : s.state.changed changes = true := by
        by_contra hseen
        exact Nat.lt_irrefl 0 (howed ▸ hready.1.owed_pos hready.2 (Bool.not_eq_true _ ▸ hseen) hidle)
      rw [wake, if_pos hchanged]
      exact ⟨_, hlook _⟩
  | returned => exact absurd rfl hreturned

theorem returns_of_idle {s : Activity} (h : AllReady s) (hidle : s.state.value.idle = true)
    (howed : s.state.owed = 0) {n : ℕ} {wait : IdleWait} (hwait : s.waits[n]? = some wait) :
    (s.run (closingSteps n)).waits[n]? = some .returned := by
  have hlooked : ((s.step (.wake n)).step (.look n)).waits[n]? = some (look s.state (wake s.state wait)) := by
    show ((s.waits.modify n (wake s.state)).modify n (look s.state))[n]? = _
    simp [hwait]
  by_cases hreturned : wait = .returned
  · subst hreturned
    have hsame : ((s.step (.wake n)).step (.look n)).elapse n = (s.step (.wake n)).step (.look n) :=
      elapse_of_ne fun changes heq => by
        rw [hlooked] at heq
        cases heq
    show (((s.step (.wake n)).step (.look n)).elapse n).waits[n]? = _
    rw [hsame, hlooked]
    rfl
  · obtain ⟨changes, hgrace⟩ := looking_or_idle_of_wake h hidle howed hwait hreturned
    rw [hgrace] at hlooked
    show (((s.step (.wake n)).step (.look n)).elapse n).waits[n]? = _
    rw [elapse_idle hlooked, if_pos (show ((s.step (.wake n)).step (.look n)).state.value.idle = true from hidle)]
    have hlt : n < ((s.step (.wake n)).step (.look n)).waits.length := by
      rw [List.getElem?_eq_some_iff] at hlooked
      exact hlooked.1
    exact List.getElem?_set_self hlt

/-- **No wake-up of `wait_until_idle` is lost, and its return is final.** In every run of the leases
and of any number of calls: a call that has returned leaves a broker which closes, without a live
lease, and which grants none from then on; a call that waits while no lease is live has a change to
come; and once no lease is live, a call returns as soon as the changes that are owed have been
published and it has taken its steps. -/
theorem idle_wait_settles (events : List Event) (n : ℕ) (wait : IdleWait)
    (hwait : (({} : Activity).run events).waits[n]? = some wait) :
    let s := ({} : Activity).run events
    (wait = .returned → s.leases = [] ∧
      ∀ later kind, (s.run later).leases = [] ∧ ((s.run later).lease kind).1 = none) ∧
    (∀ changes, wait = .busy changes → s.leases = [] → s.state.changed changes = false →
      0 < s.state.owed ∧ (s.step .changed).state.changed changes = true) ∧
    (s.leases = [] →
      (s.run (List.replicate s.state.owed .changed ++ closingSteps n)).waits[n]? = some .returned) := by
  intro s
  have hcounted : Counted s := counted_run events
  have hready : AllReady s := allReady_run events
  refine ⟨fun hreturned => ?_, fun changes hbusy hnone hseen => ?_, fun hnone => ?_⟩
  · subst hreturned
    have hclosing : s.state.value.closing = true := hready n _ hwait
    refine ⟨hcounted.closing hclosing, fun later kind => ?_⟩
    obtain ⟨hlater, _⟩ := closing_run hclosing later
    exact ⟨(hcounted.run later).closing hlater, by rw [lease, if_pos hlater]⟩
  · subst hbusy
    have hserved : s.state.Served ActivityState.idle changes ∧ changes.waiting = true := hready n _ hwait
    have howed := hserved.1.owed_pos hserved.2 hseen (hcounted.idle hnone)
    exact ⟨howed, hserved.1.changed_publish howed⟩
  · obtain ⟨howed, hvalue, hwaits⟩ := run_changed s s.state.owed rfl
    rw [run_append]
    refine returns_of_idle (hready.run _) ?_ howed (hwaits ▸ hwait)
    rw [hvalue]
    exact hcounted.idle hnone

/-- A call that waits while a plugin is connected, and whose lease is dropped without a word yet. -/
def waitingRun : List Event :=
  [.pluginLease, .changed, .notified, .waitUntilIdle, .look 0, .drop (0, .plugin)]

theorem idle_wait_settles_dropped :
    (({} : Activity).run waitingRun).waits[0]? = some (.busy ⟨true, 2⟩) ∧
      ((({} : Activity).run waitingRun).run (.changed :: closingSteps 0)).waits[0]? = some .returned :=
  ⟨by decide, (idle_wait_settles waitingRun 0 (.busy ⟨true, 2⟩) (by decide)).2.2 (by decide)⟩

end Activity

end FigmaDevMcp

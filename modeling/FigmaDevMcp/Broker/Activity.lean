import FigmaDevMcp.Lib.Watch
import Mathlib.Data.List.Count

set_option autoImplicit false

/-!
# Activity of the broker

The leases of `lifecycle.rs` and `wait_until_idle`. What a function does under the lock of the state
is one step, and the `changed` after it another; so is one that only tells of a socket.

* `ActivityState`, `Activity`: the counts, with the live leases and the calls of `wait_until_idle`;
* `lease`, `drop`, `beginClosingIfIdle`: the operations, and `step`, `run`;
* `Counted`: the counts are those of the live leases, none of which is left when the broker closes;
* **`lease_counts`**.
-/

namespace FigmaDevMcp

/-- Who a lease was granted to. -/
inductive LeaseKind
  | frontend
  | plugin
deriving DecidableEq

/-- The leases that are held. -/
structure ActivityCounts where
  frontends : ℕ
  plugins : ℕ
deriving DecidableEq

/-- What the watch channel carries. Once the server is closing it grants no lease. -/
structure ActivityState where
  counts : ActivityCounts := ⟨0, 0⟩
  closing : Bool := false
deriving DecidableEq

/-- The leases of a kind. -/
def ActivityCounts.of (counts : ActivityCounts) : LeaseKind → ℕ
  | .frontend => counts.frontends
  | .plugin => counts.plugins

/-- Change the count of a kind. -/
def ActivityState.update (state : ActivityState) (f : ℕ → ℕ) : LeaseKind → ActivityState
  | .frontend => { state with counts := { state.counts with frontends := f state.counts.frontends } }
  | .plugin => { state with counts := { state.counts with plugins := f state.counts.plugins } }

/-- Nobody holds a lease. -/
def ActivityState.idle (state : ActivityState) : Bool :=
  state.counts.frontends = 0 && state.counts.plugins = 0

/-- A call of `wait_until_idle`: it looks at the counts, waits for a grace period or a change where
they are zero, and for a change alone where they are not. -/
inductive IdleWait
  | looking (changes : Reader)
  | idle (changes : Reader)
  | busy (changes : Reader)
  | returned
deriving DecidableEq

/-- `granted` is how many leases have been granted; each is numbered by how many there were before. -/
structure Activity where
  state : Watch ActivityState := { value := {} }
  leases : List (ℕ × LeaseKind) := []
  granted : ℕ := 0
  waits : List IdleWait := []

namespace Activity

/-- `frontend_lease` and `plugin_lease` -/
def lease (s : Activity) (kind : LeaseKind) : Option (ℕ × LeaseKind) × Activity :=
  if s.state.value.closing then (none, s)
  else
    (some (s.granted, kind),
      { s with
        state := s.state.write (s.state.value.update (· + 1) kind)
        leases := (s.granted, kind) :: s.leases
        granted := s.granted + 1 })

/-- The lease of a frontend that connects. -/
def frontendLease (s : Activity) : Option (ℕ × LeaseKind) × Activity := s.lease .frontend

/-- The lease of a plugin that connects. -/
def pluginLease (s : Activity) : Option (ℕ × LeaseKind) × Activity := s.lease .plugin

/-- The drop of a lease. -/
def drop (s : Activity) (lease : ℕ × LeaseKind) : Activity :=
  if lease ∈ s.leases then
    { s with
      state := s.state.write (s.state.value.update (· - 1) lease.2)
      leases := s.leases.erase lease }
  else s

/-- The server closes if nobody holds a lease; the answer says whether it did. -/
def beginClosingIfIdle (s : Activity) : Bool × Activity :=
  if s.state.value.counts.frontends ≠ 0 ∨ s.state.value.counts.plugins ≠ 0 then (false, s)
  else (true, { s with state := s.state.put { s.state.value with closing := true } })

/-- A call looks at the counts. -/
def look (w : Watch ActivityState) : IdleWait → IdleWait
  | .looking changes =>
    if w.value.idle then .idle (w.look ActivityState.idle changes)
    else .busy (w.look ActivityState.idle changes)
  | wait => wait

/-- A call finds that something has changed. -/
def wake (w : Watch ActivityState) : IdleWait → IdleWait
  | .idle changes => if w.changed changes then .looking w.subscribe else .idle changes
  | .busy changes => if w.changed changes then .looking w.subscribe else .busy changes
  | wait => wait

/-- The grace period of a call is over. -/
def elapse (s : Activity) (n : ℕ) : Activity :=
  match s.waits[n]? with
  | some (.idle changes) =>
    match s.beginClosingIfIdle with
    | (true, s) => { s with waits := s.waits.set n .returned }
    | (false, s) => { s with waits := s.waits.set n (.looking changes) }
  | _ => s

/-- `notified` is the `changed` of a socket that is enrolled or cleaned up. No lease owes it. -/
inductive Event
  | frontendLease
  | pluginLease
  | drop (lease : ℕ × LeaseKind)
  | changed
  | notified
  | waitUntilIdle
  | look (wait : ℕ)
  | wake (wait : ℕ)
  | elapse (wait : ℕ)

/-- What one event does to the counts and to those who watch them. -/
def step (s : Activity) : Event → Activity
  | .frontendLease => s.frontendLease.2
  | .pluginLease => s.pluginLease.2
  | .drop lease => s.drop lease
  | .changed => { s with state := s.state.publish }
  | .notified => { s with state := s.state.notify }
  | .waitUntilIdle => { s with waits := s.waits ++ [.looking s.state.subscribe] }
  | .look n => { s with waits := s.waits.modify n (look s.state) }
  | .wake n => { s with waits := s.waits.modify n (wake s.state) }
  | .elapse n => s.elapse n

/-- The events of a run, one after another. -/
def run (s : Activity) (events : List Event) : Activity := events.foldl step s

/-! ## The counts -/

/-- What holds of the counts. -/
structure Counted (s : Activity) : Prop where
  counts : ∀ kind, s.state.value.counts.of kind = s.leases.countP fun lease => lease.2 = kind
  closing : s.state.value.closing = true → s.leases = []

theorem of_update (state : ActivityState) (f : ℕ → ℕ) (kind kind' : LeaseKind) :
    (state.update f kind).counts.of kind' =
      if kind = kind' then f (state.counts.of kind') else state.counts.of kind' := by
  cases kind <;> cases kind' <;> rfl

theorem closing_update (state : ActivityState) (f : ℕ → ℕ) (kind : LeaseKind) :
    (state.update f kind).closing = state.closing := by
  cases kind <;> rfl

theorem Counted.lease {s : Activity} (h : Counted s) (kind : LeaseKind) : Counted (s.lease kind).2 := by
  unfold Activity.lease
  split_ifs with hclosing
  · exact h
  · refine ⟨fun kind' => ?_, fun hclosed => ?_⟩
    · show (s.state.value.update (· + 1) kind).counts.of kind' = _
      rw [of_update, List.countP_cons, h.counts kind']
      by_cases hkind : kind = kind'
      · simp [hkind]
      · simp [hkind]
    · exact absurd ((closing_update _ _ _).symm.trans hclosed) hclosing

theorem Counted.pos_of_mem {s : Activity} (h : Counted s) {lease : ℕ × LeaseKind} (hlease : lease ∈ s.leases) :
    0 < s.state.value.counts.of lease.2 := by
  rw [h.counts]
  exact List.countP_pos_iff.2 ⟨lease, hlease, by simp⟩

theorem Counted.drop {s : Activity} (h : Counted s) (lease : ℕ × LeaseKind) : Counted (s.drop lease) := by
  unfold Activity.drop
  split_ifs with hlease
  · refine ⟨fun kind => ?_, fun hclosed => ?_⟩
    · show (s.state.value.update (· - 1) lease.2).counts.of kind = (s.leases.erase lease).countP _
      rw [of_update, List.countP_erase, h.counts kind]
      by_cases hkind : lease.2 = kind
      · simp [hkind, hlease]
      · simp [hkind]
    · have hnone : s.leases = [] := h.closing ((closing_update _ _ _).symm.trans hclosed)
      exact absurd (hnone ▸ hlease) List.not_mem_nil
  · exact h

/-- **The broker closes only where no lease is live.** -/
theorem Counted.eq_nil {s : Activity} (h : Counted s) (hidle : s.state.value.idle = true) : s.leases = [] := by
  refine List.eq_nil_iff_forall_not_mem.2 fun lease hlease => ?_
  have hpos := h.pos_of_mem hlease
  unfold ActivityState.idle at hidle
  rw [Bool.and_eq_true, decide_eq_true_eq, decide_eq_true_eq] at hidle
  cases hkind : lease.2 with
  | frontend =>
      rw [hkind] at hpos
      exact Nat.ne_of_gt hpos hidle.1
  | plugin =>
      rw [hkind] at hpos
      exact Nat.ne_of_gt hpos hidle.2

theorem Counted.beginClosingIfIdle {s : Activity} (h : Counted s) : Counted s.beginClosingIfIdle.2 := by
  unfold Activity.beginClosingIfIdle
  split_ifs with hbusy
  · exact h
  · refine ⟨h.counts, fun _ => h.eq_nil ?_⟩
    rw [not_or, not_not, not_not] at hbusy
    simp [ActivityState.idle, hbusy]

/-- What a call that has waited out its grace period does. -/
theorem elapse_eq (s : Activity) (n : ℕ) :
    s.elapse n = s ∨ ∃ waits, s.elapse n = { s.beginClosingIfIdle.2 with waits } := by
  unfold elapse
  split
  · refine Or.inr ?_
    split
    · rename_i hclose
      rw [hclose]
      exact ⟨_, rfl⟩
    · rename_i hbusy
      rw [hbusy]
      exact ⟨_, rfl⟩
  · exact Or.inl rfl

theorem Counted.step {s : Activity} (h : Counted s) (event : Event) : Counted (s.step event) := by
  cases event with
  | frontendLease => exact h.lease .frontend
  | pluginLease => exact h.lease .plugin
  | drop lease => exact h.drop lease
  | changed =>
      have hvalue : s.state.publish.value = s.state.value := by
        unfold Watch.publish
        split_ifs <;> rfl
      refine ⟨fun kind => ?_, fun hclosed => ?_⟩
      · show s.state.publish.value.counts.of kind = _
        rw [hvalue]
        exact h.counts kind
      · exact h.closing (hvalue ▸ hclosed)
  | notified => exact ⟨h.counts, h.closing⟩
  | waitUntilIdle => exact ⟨h.counts, h.closing⟩
  | look n => exact ⟨h.counts, h.closing⟩
  | wake n => exact ⟨h.counts, h.closing⟩
  | elapse n =>
      have hclose := h.beginClosingIfIdle
      rcases s.elapse_eq n with heq | ⟨waits, heq⟩
      · rw [Activity.step, heq]
        exact h
      · rw [Activity.step, heq]
        exact ⟨hclose.counts, hclose.closing⟩

theorem Counted.run {s : Activity} (h : Counted s) (events : List Event) : Counted (s.run events) := by
  unfold Activity.run
  induction events generalizing s with
  | nil => exact h
  | cons event events ih => exact ih (h.step event)

theorem counted_run (events : List Event) : Counted (({} : Activity).run events) := by
  have hempty : Counted {} := ⟨fun kind => by cases kind <;> rfl, nofun⟩
  exact hempty.run events

/-! ## Closing -/

/-- A broker that closes stays so and grants no lease. -/
theorem closing_step {s : Activity} (h : s.state.value.closing = true) (event : Event) :
    (s.step event).state.value.closing = true ∧ (s.step event).granted = s.granted := by
  have hlease : ∀ kind, (s.lease kind).2 = s := fun kind => by rw [lease, if_pos h]
  cases event with
  | frontendLease =>
      show (s.lease .frontend).2.state.value.closing = true ∧ (s.lease .frontend).2.granted = _
      rw [hlease]
      exact ⟨h, rfl⟩
  | pluginLease =>
      show (s.lease .plugin).2.state.value.closing = true ∧ (s.lease .plugin).2.granted = _
      rw [hlease]
      exact ⟨h, rfl⟩
  | drop lease =>
      show (s.drop lease).state.value.closing = true ∧ (s.drop lease).granted = _
      unfold drop
      split_ifs
      · exact ⟨(closing_update _ _ _).trans h, rfl⟩
      · exact ⟨h, rfl⟩
  | changed =>
      refine ⟨?_, rfl⟩
      show s.state.publish.value.closing = true
      unfold Watch.publish
      split_ifs <;> exact h
  | notified => exact ⟨h, rfl⟩
  | waitUntilIdle => exact ⟨h, rfl⟩
  | look n => exact ⟨h, rfl⟩
  | wake n => exact ⟨h, rfl⟩
  | elapse n =>
      have hclose : s.beginClosingIfIdle.2.state.value.closing = true ∧
          s.beginClosingIfIdle.2.granted = s.granted := by
        unfold beginClosingIfIdle
        split_ifs
        · exact ⟨h, rfl⟩
        · exact ⟨rfl, rfl⟩
      rcases s.elapse_eq n with heq | ⟨waits, heq⟩
      · rw [step, heq]
        exact ⟨h, rfl⟩
      · rw [step, heq]
        exact hclose

theorem closing_run {s : Activity} (h : s.state.value.closing = true) (events : List Event) :
    (s.run events).state.value.closing = true ∧ (s.run events).granted = s.granted := by
  induction events generalizing s with
  | nil => exact ⟨h, rfl⟩
  | cons event events ih =>
      obtain ⟨hclosing, hgranted⟩ := closing_step h event
      obtain ⟨hclosing', hgranted'⟩ := ih hclosing
      exact ⟨hclosing', hgranted'.trans hgranted⟩

/-- The step that closes the broker leaves its leases as they are. -/
theorem leases_of_closes {s : Activity} (h : s.state.value.closing = false) {event : Event}
    (hclosed : (s.step event).state.value.closing = true) : (s.step event).leases = s.leases := by
  have hopen : ¬s.state.value.closing = true := Bool.not_eq_true _ ▸ h
  have hlease : ∀ kind, (s.lease kind).2.state.value.closing = s.state.value.closing := by
    intro kind
    rw [lease, if_neg hopen]
    exact closing_update _ _ _
  cases event with
  | frontendLease => exact absurd ((hlease .frontend).symm.trans hclosed) hopen
  | pluginLease => exact absurd ((hlease .plugin).symm.trans hclosed) hopen
  | drop lease =>
      have hsame : (s.drop lease).state.value.closing = s.state.value.closing := by
        unfold drop
        split_ifs
        · exact closing_update _ _ _
        · rfl
      exact absurd (hsame.symm.trans hclosed) hopen
  | changed => rfl
  | notified => rfl
  | waitUntilIdle => rfl
  | look n => rfl
  | wake n => rfl
  | elapse n =>
      have hleases : s.beginClosingIfIdle.2.leases = s.leases := by
        unfold beginClosingIfIdle
        split_ifs <;> rfl
      rcases s.elapse_eq n with heq | ⟨waits, heq⟩
      · rw [step, heq]
      · rw [step, heq]
        exact hleases

/-- **The counts are those of the live leases**, none of which underflows when it is dropped; the
broker begins to close only where no lease is live, and grants none from then on. -/
theorem lease_counts (events : List Event) :
    let s := ({} : Activity).run events
    (∀ kind, s.state.value.counts.of kind = s.leases.countP fun lease => lease.2 = kind) ∧
    (∀ lease ∈ s.leases, 0 < s.state.value.counts.of lease.2) ∧
    (∀ event, s.state.value.closing = false → (s.step event).state.value.closing = true →
      s.leases = [] ∧ (s.step event).leases = []) ∧
    (s.state.value.closing = true → ∀ later,
      (s.run later).leases = [] ∧ (s.run later).granted = s.granted ∧
        ∀ kind, ((s.run later).lease kind).1 = none) := by
  intro s
  have h : Counted s := counted_run events
  refine ⟨h.counts, fun lease hlease => h.pos_of_mem hlease, fun event hopen hclosed => ?_,
    fun hclosing later => ?_⟩
  · have hnone := (h.step event).closing hclosed
    exact ⟨(leases_of_closes hopen hclosed).symm.trans hnone, hnone⟩
  · obtain ⟨hclosing', hgranted⟩ := closing_run hclosing later
    refine ⟨(h.run later).closing hclosing', hgranted, fun kind => ?_⟩
    rw [lease, if_pos hclosing']

end Activity

end FigmaDevMcp

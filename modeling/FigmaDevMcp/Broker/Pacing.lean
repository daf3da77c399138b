import FigmaDevMcp.Broker.Supervisor

set_option autoImplicit false

/-!
# The pace of the supervisor

What the log of a run says about the roles that have ended, and that the elections keep to it.

* `lives`, `immediateDeaths`: how long the roles lived, and how many of the last ones died at once;
* `Paced`: no election comes before the delay of its log is over;
* `Timely`: what holds of the supervisor between two steps, with `Timely.step`;
* **`supervise_paced`**: every run is paced.
-/

namespace FigmaDevMcp.Supervision

/-! ## What a log says -/

/-- What has happened, with its times, the last first. -/
abbrev Log := List (ℕ × Happening)

/-- When the last role was entered. -/
def lastEntered : Log → Option ℕ
  | [] => none
  | (t, .entered) :: _ => some t
  | _ :: rest => lastEntered rest

/-- How long the roles lived that have ended, the latest first: from their entry to their death. -/
def lives : Log → List ℕ
  | [] => []
  | (t, .died) :: rest => ((lastEntered rest).map (t - ·)).toList ++ lives rest
  | _ :: rest => lives rest

/-- How many of the last roles in a row died before they counted as healthy. -/
def immediateDeaths (log : Log) : ℕ :=
  ((lives log).takeWhile fun life => decide (life < healthyRoleLifetime)).length

/-- The counter of `n` deaths, which stays at its maximum. -/
def counted (n : ℕ) : UInt32 := UInt32.ofNat (min n 0xffffffff)

/-- No election starts before the last role's entry and the delay for the roles that died at once. -/
def Paced : Log → Prop
  | [] => True
  | (t, .electing) :: rest =>
    (∀ entry, lastEntered rest = some entry →
      entry + recycleDelay (counted (immediateDeaths rest)) ≤ t) ∧ Paced rest
  | _ :: rest => Paced rest

theorem counted_succ (n : ℕ) : saturatingSucc (counted n) = counted (n + 1) := by
  have htoNat : ∀ m, (counted m).toNat = min m 0xffffffff := by
    intro m
    rw [counted, UInt32.toNat_ofNat']
    omega
  apply UInt32.toNat_inj.1
  rw [saturatingSucc, htoNat]
  by_cases h : counted n = 0xffffffff
  · have hn : min n 0xffffffff = 0xffffffff := by
      rw [← htoNat, h]
      rfl
    rw [if_pos h, htoNat]
    omega
  · have hn : min n 0xffffffff ≠ 0xffffffff := by
      intro hn
      refine h (UInt32.toNat_inj.1 ?_)
      rw [htoNat, hn]
      rfl
    rw [if_neg h, UInt32.toNat_add, htoNat, show (1 : UInt32).toNat = 1 from rfl]
    omega

/-! ## What holds between two steps -/

/-- The counter is that of the log. -/
def Counted (s : Supervisor) (log : Log) : Prop :=
  s.consecutiveImmediateDeaths = counted (immediateDeaths log)

/-- The last death is measured, and not counted yet. -/
def Measured (s : Supervisor) (log : Log) : Prop :=
  ∃ life rest, lives log = life :: rest ∧ s.lastRoleLifetime = some life ∧
    s.consecutiveImmediateDeaths =
      counted (rest.takeWhile fun life => decide (life < healthyRoleLifetime)).length

/-- By then the delay is over. -/
def Over (s : Supervisor) (then_ : ℕ) : Prop :=
  ∀ entry, s.electedAt = some entry → entry + recycleDelay s.consecutiveImmediateDeaths ≤ then_

/-- Where the supervisor is, with what it has counted. -/
def Located (s : Supervisor) (log : Log) (now : ℕ) : Pc → Prop
  | .looking => if s.role = none ∧ s.electedAt.isSome then Measured s log else Counted s log
  | .holding | .draining _ => Counted s log ∧ s.role.isSome
  | .tearingDown => Measured s log ∧ s.role = none ∧ s.electedAt.isSome
  | .delaying deadline => Counted s log ∧ Over s deadline
  | .electing _ | .retrying _ _ => Counted s log ∧ Over s now

/-- The elections were paced, and the supervisor remembers when its last role was entered. -/
structure Stamped (s : Supervisor) (log : Log) (now : ℕ) : Prop where
  paced : Paced log
  stamp : s.electedAt = lastEntered log
  past : ∀ entry, s.electedAt = some entry → entry ≤ now
  entered : s.role.isSome → s.electedAt.isSome

/-- The times of a process agree with its log. -/
structure Timely (p : Process) : Prop where
  stamped : Stamped p.supervisor p.log p.now
  located : Located p.supervisor p.log p.now p.pc

variable {p q : Process}

theorem Timely.pass (h : Timely p) (d : ℕ) : Timely { p with now := p.now + d } := by
  have hlocated := h.located
  refine ⟨⟨h.stamped.paced, h.stamped.stamp, fun entry hentry =>
    (h.stamped.past entry hentry).trans (Nat.le_add_right _ _), h.stamped.entered⟩, ?_⟩
  show Located p.supervisor p.log (p.now + d) p.pc
  cases hpc : p.pc with
  | looking | holding | draining | tearingDown | delaying =>
      rw [hpc] at hlocated
      exact hlocated
  | electing | retrying =>
      rw [hpc] at hlocated
      exact ⟨hlocated.1, fun entry hentry =>
        (hlocated.2 entry hentry).trans (Nat.le_add_right _ _)⟩

/-- An attempt may start where the delay is over. -/
theorem timely_elect (h : Stamped p.supervisor p.log p.now) (hcounted : Counted p.supervisor p.log)
    (hover : Over p.supervisor p.now) (delay : ℕ) : Timely (p.elect delay) := by
  refine ⟨⟨⟨fun entry hentry => ?_, h.paced⟩, h.stamp, h.past, h.entered⟩, hcounted, hover⟩
  rw [← hcounted]
  exact hover entry (h.stamp.trans hentry)

/-- `elect_next` counts the death that was measured, and sleeps until the delay is over. -/
theorem electNext_spec {s : Supervisor} {log : Log} {entry now : ℕ} (h : Measured s log)
    (hentry : s.electedAt = some entry) (hpast : entry ≤ now) :
    ∃ floor, s.electNext now =
        (floor, { s with consecutiveImmediateDeaths := counted (immediateDeaths log) }) ∧
      entry + recycleDelay (counted (immediateDeaths log)) ≤ now + floor := by
  obtain ⟨life, rest, hlives, hlast, hdeaths⟩ := h
  have hcount : (if healthyRoleLifetime ≤ life then 0
      else saturatingSucc s.consecutiveImmediateDeaths) = counted (immediateDeaths log) := by
    rw [immediateDeaths, hlives, List.takeWhile_cons]
    by_cases hlife : healthyRoleLifetime ≤ life
    · rw [if_pos hlife, decide_eq_false (Nat.not_lt.2 hlife)]
      rfl
    · rw [if_neg hlife, decide_eq_true (Nat.not_le.1 hlife), hdeaths, counted_succ]
      rfl
  refine ⟨recycleDelay (counted (immediateDeaths log)) - (now - entry), ?_, by omega⟩
  rw [Supervisor.electNext, hentry]
  dsimp only
  rw [hlast, Option.getD_some, hcount]

theorem Timely.look (h : Timely p) (hpc : p.pc = .looking) : Timely p.look := by
  have ⟨hstamped, hlocated⟩ := h
  rw [hpc] at hlocated
  unfold Process.look
  cases hrole : p.supervisor.role with
  | some role =>
      have hcounted : Counted p.supervisor p.log := by
        rwa [Located, if_neg (by rw [hrole]; exact nofun)] at hlocated
      exact ⟨hstamped, hcounted, by rw [hrole]; rfl⟩
  | none =>
      cases hentry : p.supervisor.electedAt with
      | none =>
          have hcounted : Counted p.supervisor p.log := by
            rwa [Located, if_neg (by rw [hentry]; exact nofun)] at hlocated
          have hnext : p.supervisor.electNext p.now = (0, p.supervisor) := by
            rw [Supervisor.electNext, hentry]
          rw [hnext]
          refine timely_elect hstamped hcounted (fun entry he => ?_) _
          rw [hentry] at he
          cases he
      | some entry =>
          rw [Located, if_pos ⟨hrole, by rw [hentry]; rfl⟩] at hlocated
          obtain ⟨floor, hnext, hfloor⟩ :=
            electNext_spec hlocated hentry (hstamped.past entry hentry)
          have hover : ∀ e, p.supervisor.electedAt = some e →
              e + recycleDelay (counted (immediateDeaths p.log)) ≤ p.now + floor := by
            intro e he
            obtain rfl := Option.some.inj (hentry.symm.trans he)
            exact hfloor
          have hafter : Stamped { p.supervisor with
              consecutiveImmediateDeaths := counted (immediateDeaths p.log) } p.log p.now :=
            ⟨hstamped.paced, hstamped.stamp, hstamped.past, hstamped.entered⟩
          rw [hnext]
          cases floor with
          | zero => exact timely_elect (p := { p with supervisor := _ }) hafter rfl hover _
          | succ floor => exact ⟨hafter, rfl, hover⟩

/-- The life of a role is from its entry to its death. -/
theorem measured_die {s : Supervisor} {log : Log} {entry now : ℕ} (hcounted : Counted s log)
    (hentry : s.electedAt = some entry) (hstamp : s.electedAt = lastEntered log) :
    Measured { s.measure now with role := none } ((now, .died) :: log) := by
  have hlast : lastEntered log = some entry := hstamp.symm.trans hentry
  refine ⟨now - entry, lives log, ?_, ?_, hcounted⟩
  · rw [lives, hlast]
    rfl
  · show s.electedAt.map (now - ·) = some (now - entry)
    rw [hentry]
    rfl

theorem timely_die (h : Stamped p.supervisor p.log p.now) (hcounted : Counted p.supervisor p.log)
    (hrole : p.supervisor.role.isSome) : Timely p.die := by
  obtain ⟨entry, hentry⟩ := Option.isSome_iff_exists.1 (h.entered hrole)
  have hmeasured : Measured { p.supervisor.measure p.now with role := none }
      ((p.now, .died) :: p.log) := measured_die hcounted hentry h.stamp
  have hstamped : Stamped { p.supervisor.measure p.now with role := none }
      ((p.now, .died) :: p.log) p.now := ⟨h.paced, h.stamp, h.past, nofun⟩
  have helected : p.supervisor.electedAt.isSome := h.entered hrole
  unfold Process.die
  rcases hkind : p.supervisor.role with _ | kind
  · rw [hkind] at hrole
    cases hrole
  · have hclear : (p.supervisor.measure p.now).clearRole =
        (some kind, { p.supervisor.measure p.now with role := none }) := by
      rw [Supervisor.clearRole, ← hkind]
      rfl
    rw [hclear]
    cases kind with
    | leader => exact ⟨hstamped, hmeasured, rfl, helected⟩
    | follower => exact ⟨hstamped, by
        show Located _ _ _ .looking
        rw [Located, if_pos ⟨rfl, helected⟩]
        exact hmeasured⟩

/-- A new role has a new entry, and no role has died since. -/
theorem timely_elected (h : Stamped p.supervisor p.log p.now) (hcounted : Counted p.supervisor p.log)
    (role : Role) :
    Timely ({ p with supervisor := p.supervisor.installRole role p.now
                     pc := .looking }.happens .entered) := by
  refine ⟨⟨h.paced, rfl, fun entry hentry => ?_, fun _ => rfl⟩, ?_⟩
  · obtain rfl := Option.some.inj hentry
    exact le_refl _
  · show Located (p.supervisor.installRole role p.now) _ _ .looking
    rw [Located, if_neg fun h => nomatch h.1]
    exact hcounted

/-- **One step** keeps the pace. -/
theorem Timely.step {e : Event} (h : Timely p) (hstep : p.step e = some q) : Timely q := by
  have ⟨hstamped, hlocated⟩ := h
  cases e with
  | pass d =>
      obtain rfl := Option.some.inj hstep
      exact h.pass d
  | look =>
      cases hpc : p.pc <;> simp only [Process.step, hpc, reduceCtorEq, Option.some.injEq] at hstep
      obtain rfl := hstep
      exact h.look hpc
  | stopped =>
      cases hpc : p.pc <;> simp only [Process.step, hpc, reduceCtorEq] at hstep
      rw [hpc] at hlocated
      split at hstep
      · obtain rfl := Option.some.inj hstep
        exact ⟨hstamped, hlocated⟩
      · cases hstep
  | died =>
      cases hpc : p.pc <;> simp only [Process.step, hpc, reduceCtorEq, Option.some.injEq] at hstep
      case holding | draining =>
        rw [hpc] at hlocated
        obtain rfl := hstep
        exact timely_die hstamped hlocated.1 hlocated.2
  | tornDown =>
      cases hpc : p.pc <;> simp only [Process.step, hpc, reduceCtorEq, Option.some.injEq] at hstep
      rw [hpc] at hlocated
      obtain rfl := hstep
      refine ⟨⟨hstamped.paced, hstamped.stamp, hstamped.past, hstamped.entered⟩, ?_⟩
      show Located p.supervisor ((p.now, .tornDown) :: p.log) p.now .looking
      rw [Located, if_pos hlocated.2]
      exact hlocated.1
  | wake =>
      cases hpc : p.pc <;> simp only [Process.step, hpc, reduceCtorEq] at hstep
      case delaying deadline =>
        rw [hpc] at hlocated
        split_ifs at hstep with hdeadline
        obtain rfl := Option.some.inj hstep
        exact timely_elect hstamped hlocated.1
          (fun entry hentry => (hlocated.2 entry hentry).trans hdeadline) _
      case retrying deadline delay =>
        rw [hpc] at hlocated
        split_ifs at hstep with hdeadline
        obtain rfl := Option.some.inj hstep
        exact timely_elect hstamped hlocated.1 hlocated.2 _
  | failed =>
      cases hpc : p.pc <;> simp only [Process.step, hpc, reduceCtorEq, Option.some.injEq] at hstep
      rw [hpc] at hlocated
      obtain rfl := hstep
      exact ⟨hstamped, hlocated⟩
  | elected role =>
      cases hpc : p.pc <;> simp only [Process.step, hpc, reduceCtorEq, Option.some.injEq] at hstep
      rw [hpc] at hlocated
      obtain rfl := hstep
      exact timely_elected hstamped hlocated.1 role

/-! ## Runs -/

/-- What a supervisor starts from: nothing elected yet, or a role entered at some time. -/
inductive Started : Process → Prop
  | new : Started .new
  | start (role : Role) (now : ℕ) : Started (.start role now)

theorem Started.timely (h : Started p) : Timely p := by
  cases h with
  | new => exact ⟨⟨trivial, rfl, nofun, nofun⟩, rfl⟩
  | start role now =>
      refine ⟨⟨trivial, rfl, fun entry hentry => ?_, fun _ => rfl⟩, rfl⟩
      obtain rfl := Option.some.inj hentry
      exact le_refl _

/-- **The pace of the supervisor.** In every run, every attempt to elect comes after the entry of
the last role and the delay for the roles in a row that died at once. What counts is the life of a
role from its entry to its death, which the teardown after it is no part of, and the counter is
this count whenever an election is under way. The delay grows with the count, up to the cap, and
none of its operations overflows. -/
theorem supervise_paced :
    (∀ init, Started init → ∀ p, Exec.Reachable Process.step init p →
      Paced p.log ∧ ∀ delay, p.pc = .electing delay →
        p.supervisor.consecutiveImmediateDeaths = counted (immediateDeaths p.log)) ∧
      (∀ c d : UInt32, c ≤ d → recycleDelay c ≤ recycleDelay d) ∧
      (∀ c, recycleDelay c ≤ retryDelayCap) ∧
      ∀ c : UInt32, c ≠ 0 → 1 ≤ c ∧ (doublings c).toNat < 32 ∧
        ((1 : UInt32) <<< doublings c).toNat = 2 ^ (doublings c).toNat ∧
        minElectionInterval * ((1 : UInt32) <<< doublings c).toNat ≤ durationMax := by
  refine ⟨fun init hinit p hp => ?_, fun c d => recycleDelay_mono, recycleDelay_le, delay_exact⟩
  have htimely : Timely p :=
    Exec.Reachable.rec_inv hinit.timely (fun _ _ _ hstep ht => ht.step hstep) hp
  have hlocated := htimely.located
  refine ⟨htimely.stamped.paced, fun delay hpc => ?_⟩
  rw [hpc] at hlocated
  exact hlocated.1

end FigmaDevMcp.Supervision

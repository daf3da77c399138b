import FigmaDevMcp.Lib.Exec
import Mathlib.Algebra.Ring.Nat
import Mathlib.Order.MinMax
import Mathlib.Tactic.Common

set_option autoImplicit false

/-!
# The supervisor

`supervise` of `supervisor.rs` and what it calls, one step between two awaits. Times are in
nanoseconds; an election, a role and its teardown take as long as they take. What is logged for
the reader of a log is left out.

* `recycleDelay`: the delay after a number of deaths, on machine integers;
* `Supervisor`, `electNext`, `installRole`, `clearRole`: the supervisor and its operations;
* `Process`, `step`: the loop, with the time and what has happened when;
* `recycleDelay_eq`, `recycleDelay_mono`: the delay as a formula.
-/

namespace FigmaDevMcp.Supervision

/-! ## Delays -/

/-- Milliseconds in nanoseconds. -/
def millis (n : ℕ) : ℕ := n * 1000000

/-- `RETRY_DELAY_BASE` -/
def retryDelayBase : ℕ := millis 100

/-- `RETRY_DELAY_CAP` -/
def retryDelayCap : ℕ := millis 5000

/-- `CAUSE_DRAIN_WINDOW` -/
def causeDrainWindow : ℕ := millis 100

/-- `MIN_ELECTION_INTERVAL` -/
def minElectionInterval : ℕ := retryDelayBase

/-- `HEALTHY_ROLE_LIFETIME` -/
def healthyRoleLifetime : ℕ := retryDelayCap

/-- `Duration::MAX` -/
def durationMax : ℕ := 2 ^ 64 * 1000000000 - 1

/-- `Duration::saturating_mul` -/
def saturatingMul (d : ℕ) (n : UInt32) : ℕ := min (d * n.toNat) durationMax

/-- `u32::saturating_add` of one -/
def saturatingSucc (n : UInt32) : UInt32 := if n = 0xffffffff then n else n + 1

/-- How often the delay is doubled: sixteen times at most. -/
def doublings (consecutive : UInt32) : UInt32 := min (consecutive - 1) 16

/-- The delay after so many immediate deaths in a row. -/
def recycleDelay (consecutive : UInt32) : ℕ :=
  if consecutive = 0 then 0
  else min (saturatingMul minElectionInterval (1 <<< doublings consecutive)) retryDelayCap

/-! ## The supervisor -/

/-- What a process is elected to be. -/
inductive Role
  | leader
  | follower
deriving DecidableEq

/-- What the supervisor remembers between elections. -/
structure Supervisor where
  role : Option Role := none
  electedAt : Option ℕ := none
  lastRoleLifetime : Option ℕ := none
  consecutiveImmediateDeaths : UInt32 := 0

namespace Supervisor

/-- A role begins. -/
def installRole (s : Supervisor) (role : Role) (now : ℕ) : Supervisor :=
  { s with role := some role, electedAt := some now }

/-- A role ends. -/
def clearRole (s : Supervisor) : Option Role × Supervisor := (s.role, { s with role := none })

/-- The life of the role is measured when its death is known. -/
def measure (s : Supervisor) (now : ℕ) : Supervisor :=
  { s with lastRoleLifetime := s.electedAt.map (now - ·) }

/-- `elect_next`, up to the election: how long it sleeps before. -/
def electNext (s : Supervisor) (now : ℕ) : ℕ × Supervisor :=
  match s.electedAt with
  | none => (0, s)
  | some electedAt =>
    let aliveFor := now - electedAt
    let lifetime := s.lastRoleLifetime.getD aliveFor
    let deaths := if healthyRoleLifetime ≤ lifetime then 0
      else saturatingSucc s.consecutiveImmediateDeaths
    (recycleDelay deaths - aliveFor, { s with consecutiveImmediateDeaths := deaths })

end Supervisor

/-! ## The loop -/

/-- Where `supervise` is. `retrying` is the delay between two attempts of one election. -/
inductive Pc
  | looking
  | holding
  | draining (deadline : ℕ)
  | tearingDown
  | delaying (deadline : ℕ)
  | electing (delay : ℕ)
  | retrying (deadline delay : ℕ)

/-- What the log tells of. -/
inductive Happening
  | electing
  | entered
  | died
  | tornDown
deriving DecidableEq

/-- `log` has what happened and when, the latest first. -/
structure Process where
  supervisor : Supervisor := {}
  pc : Pc := .looking
  now : ℕ := 0
  log : List (ℕ × Happening) := []

/-- What happens to a process: time passes, it looks at its role, or its role dies and is torn down.
-/
inductive Event
  | pass (d : ℕ)
  | look
  /-- A listener has stopped without a cause. -/
  | stopped
  /-- The death of the role is known. -/
  | died
  | tornDown
  | wake
  /-- The attempt failed, or its outcome could not be entered. -/
  | failed
  | elected (role : Role)

namespace Process

/-- The log gets one more entry, with the time. -/
def happens (p : Process) (what : Happening) : Process := { p with log := (p.now, what) :: p.log }

/-- An attempt of `elect_until_entered`. -/
def elect (p : Process) (delay : ℕ) : Process := { p with pc := .electing delay }.happens .electing

/-- The loop of the supervisor from its head: it holds its role, or waits and elects. -/
def look (p : Process) : Process :=
  match p.supervisor.role with
  | some _ => { p with pc := .holding }
  | none =>
    match p.supervisor.electNext p.now with
    | (0, s) => { p with supervisor := s }.elect retryDelayBase
    | (floor + 1, s) => { p with supervisor := s, pc := .delaying (p.now + (floor + 1)) }

/-- A follower has nothing to tear down. -/
def die (p : Process) : Process :=
  match (p.supervisor.measure p.now).clearRole with
  | (some .leader, s) => { p with supervisor := s, pc := .tearingDown }.happens .died
  | (_, s) => { p with supervisor := s, pc := .looking }.happens .died

/-- What one event does, where it can happen. -/
def step (p : Process) : Event → Option Process
  | .pass d => some { p with now := p.now + d }
  | .look =>
    match p.pc with
    | .looking => some p.look
    | _ => none
  | .stopped =>
    match p.pc, p.supervisor.role with
    | .holding, some .leader => some { p with pc := .draining (p.now + causeDrainWindow) }
    | _, _ => none
  | .died =>
    match p.pc with
    | .holding | .draining _ => some p.die
    | _ => none
  | .tornDown =>
    match p.pc with
    | .tearingDown => some ({ p with pc := .looking }.happens .tornDown)
    | _ => none
  | .wake =>
    match p.pc with
    | .delaying deadline => if deadline ≤ p.now then some (p.elect retryDelayBase) else none
    | .retrying deadline delay => if deadline ≤ p.now then some (p.elect delay) else none
    | _ => none
  | .failed =>
    match p.pc with
    | .electing delay =>
      some { p with pc := .retrying (p.now + delay) (min (delay * 2) retryDelayCap) }
    | _ => none
  | .elected role =>
    match p.pc with
    | .electing _ =>
      some ({ p with supervisor := p.supervisor.installRole role p.now, pc := .looking }.happens
        .entered)
    | _ => none

/-- `Supervisor::new` -/
def new : Process := {}

/-- `Supervisor::start`, which has entered a role. -/
def start (role : Role) (now : ℕ) : Process :=
  { supervisor := { role := some role, electedAt := some now }, now, log := [(now, .entered)] }

end Process

/-! ## The delay as a formula -/

theorem toNat_doublings (c : UInt32) (h : c ≠ 0) : (doublings c).toNat = min (c.toNat - 1) 16 := by
  have hpos : c.toNat ≠ 0 := fun h0 => h (UInt32.toNat_inj.1 h0)
  have hle : (1 : UInt32) ≤ c := UInt32.le_iff_toNat_le.2 (by
    show 1 ≤ c.toNat
    omega)
  have hsub : (c - 1).toNat = c.toNat - 1 := UInt32.toNat_sub_of_le _ _ hle
  have hmin : doublings c = if c - 1 ≤ 16 then c - 1 else 16 := rfl
  rw [hmin]
  by_cases hc : c - 1 ≤ 16
  · have hle16 : (c - 1).toNat ≤ 16 := UInt32.le_iff_toNat_le.1 hc
    rw [if_pos hc, hsub]
    omega
  · have hgt : ¬ (c - 1).toNat ≤ 16 := fun h => hc (UInt32.le_iff_toNat_le.2 h)
    rw [if_neg hc, show (16 : UInt32).toNat = 16 from rfl]
    omega

/-- **No operation of the delay overflows**: nothing is subtracted from zero, the shift is by less
than the width and shifts nothing out, and the product is below the longest duration. -/
theorem delay_exact (c : UInt32) (h : c ≠ 0) :
    1 ≤ c ∧ (doublings c).toNat < 32 ∧
      ((1 : UInt32) <<< doublings c).toNat = 2 ^ (doublings c).toNat ∧
      minElectionInterval * ((1 : UInt32) <<< doublings c).toNat ≤ durationMax := by
  have hpos : c.toNat ≠ 0 := fun h0 => h (UInt32.toNat_inj.1 h0)
  have hle : (doublings c).toNat ≤ 16 := (toNat_doublings c h).trans_le (Nat.min_le_right _ _)
  have hpow : 2 ^ (doublings c).toNat ≤ 2 ^ 16 := Nat.pow_le_pow_right (by decide) hle
  have hshift : ((1 : UInt32) <<< doublings c).toNat = 2 ^ (doublings c).toNat := by
    rw [UInt32.toNat_shiftLeft, Nat.mod_eq_of_lt (by omega : _ < 32), Nat.shiftLeft_eq,
      show (1 : UInt32).toNat = 1 from rfl, Nat.one_mul,
      Nat.mod_eq_of_lt (hpow.trans_lt (by decide : 2 ^ 16 < 2 ^ 32))]
  have hmax : minElectionInterval * 2 ^ 16 ≤ durationMax := by decide
  refine ⟨UInt32.le_iff_toNat_le.2 (Nat.one_le_iff_ne_zero.2 hpos), by omega, hshift, ?_⟩
  rw [hshift]
  exact (Nat.mul_le_mul_left _ hpow).trans hmax

/-- **The delay doubles from the least interval up to the cap**, and no operation overflows. -/
theorem recycleDelay_eq (c : UInt32) :
    recycleDelay c = if c = 0 then 0
      else min (minElectionInterval * 2 ^ min (c.toNat - 1) 16) retryDelayCap := by
  rw [recycleDelay]
  by_cases h : c = 0
  · rw [if_pos h, if_pos h]
  · obtain ⟨_, _, hshift, hmax⟩ := delay_exact c h
    rw [if_neg h, if_neg h, saturatingMul, Nat.min_eq_left hmax, hshift, toNat_doublings c h]

theorem recycleDelay_le (c : UInt32) : recycleDelay c ≤ retryDelayCap := by
  rw [recycleDelay]
  split_ifs
  · exact Nat.zero_le _
  · exact Nat.min_le_right _ _

theorem recycleDelay_mono {c d : UInt32} (h : c ≤ d) : recycleDelay c ≤ recycleDelay d := by
  have hle : c.toNat ≤ d.toNat := UInt32.le_iff_toNat_le.1 h
  rw [recycleDelay_eq, recycleDelay_eq]
  by_cases hc : c = 0
  · rw [if_pos hc]
    exact Nat.zero_le _
  · have hd : d ≠ 0 := by
      rintro rfl
      exact hc (UInt32.toNat_inj.1 (Nat.le_zero.1 hle))
    rw [if_neg hc, if_neg hd]
    have hpow : 2 ^ min (c.toNat - 1) 16 ≤ 2 ^ min (d.toNat - 1) 16 :=
      Nat.pow_le_pow_right (by decide) (by omega)
    exact min_le_min (Nat.mul_le_mul_left _ hpow) (le_refl _)

end FigmaDevMcp.Supervision

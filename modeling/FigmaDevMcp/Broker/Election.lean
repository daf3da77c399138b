import FigmaDevMcp.Broker.Supervisor
import FigmaDevMcp.Lib.Exclusive

set_option autoImplicit false

/-!
# The election

`elect` of `election.rs`, in any number of processes on one machine. Each call of the operating
system is a step of its own, and so is the end of a sleep; a process is named by its id. A call may
fail for any reason at any time, and succeeds only where it can: a connect needs a listener, and a
bind a port that nobody listens on.

* `retryDelay`: the delay between two attempts;
* `Phase`, `Cluster`: where an election stands, and what the processes share;
* `answer`, `wake`, `step`: what a process does once it has its answer, or has slept;
* `Phase.holds`: the listeners that an election has bound.
-/

namespace FigmaDevMcp.Election

open Supervision (millis)

/-! ## Delays -/

/-- `ELECTION_TIMEOUT`, in nanoseconds. -/
def electionTimeout : ℕ := millis 2000

/-- `MIN_RETRY_DELAY_MS` -/
def minRetryDelayMs : ℕ := 5

/-- `MAX_RETRY_DELAY_MS` -/
def maxRetryDelayMs : ℕ := 100

/-- `u64::saturating_mul` -/
def saturatingMul (a b : ℕ) : ℕ := min (a * b) (2 ^ 64 - 1)

/-- `u64::wrapping_mul` -/
def wrappingMul (a b : ℕ) : ℕ := a * b % 2 ^ 64

/-- `u32::wrapping_add` of one -/
def wrappingSucc (n : ℕ) : ℕ := (n + 1) % 2 ^ 32

/-- The delay of an attempt before its jitter: it doubles four times at most. -/
def retryBase (attempt : ℕ) : ℕ :=
  min (saturatingMul minRetryDelayMs (1 <<< min attempt 4)) maxRetryDelayMs

/-- The delay of an attempt. The jitter is taken from the process and the attempt. -/
def retryDelay (process attempt : ℕ) : ℕ :=
  let base := retryBase attempt
  let seed := process ^^^ wrappingMul attempt 0x9e3779b97f4a7c15
  let jitter := seed % (base / 2 + 1)
  millis (min (base + jitter) maxRetryDelayMs)

/-! ## States -/

/-- The addresses that an election binds. -/
inductive Port
  | frontend
  | plugin
  | pluginV6
deriving DecidableEq

/-- The kinds of `io::Error` that an election tells apart. -/
inductive ErrorKind
  | connectionRefused
  | addrInUse
  | other
deriving DecidableEq

/-- Why an election fails. -/
inductive ElectionError
  | connect (kind : ErrorKind)
  | frontendBind (kind : ErrorKind)
  | pluginBind (kind : ErrorKind)
  | timedOut
deriving DecidableEq

/-- Where `elect` stands: before the call that it makes next, or returned. -/
inductive Phase
  | idle
  | connecting
  | binding (deadline attempt : ℕ)
  | reconnecting (deadline attempt : ℕ)
  | sleeping (deadline attempt wake : ℕ)
  | bindingPlugin
  | bindingV6
  | leader (v6 : Bool)
  | follower (leader : ℕ)
  | failed (error : ElectionError)
deriving DecidableEq

/-- `listeners` says which process listens on a port. -/
structure Cluster where
  now : ℕ := 0
  listeners : Port → Option ℕ := fun _ => none
  phases : ℕ → Phase := fun _ => .idle

/-- `answer` is the answer of the operating system to the call of a process, an error or none, and
`quit` drops an election or its outcome with the listeners it has bound. -/
inductive Event
  | pass (d : ℕ)
  | start (process : ℕ)
  | answer (process : ℕ) (error : Option ErrorKind)
  | wake (process : ℕ)
  | quit (process : ℕ)
deriving DecidableEq

/-! ## Steps -/

namespace Cluster

/-- The process goes on to a phase. -/
def enter (s : Cluster) (process : ℕ) (phase : Phase) : Cluster :=
  { s with phases := Function.update s.phases process phase }

/-- The process holds a port. -/
def listen (s : Cluster) (port : Port) (process : ℕ) : Cluster :=
  { s with listeners := Exclusive.take s.listeners port process }

/-- The process gives back the ports that it holds. -/
def release (s : Cluster) (process : ℕ) : Cluster :=
  { s with listeners := Exclusive.free s.listeners process }

/-- `TcpStream::connect` to the frontend address -/
def connect (s : Cluster) (error : Option ErrorKind) : Except ErrorKind ℕ :=
  match error, s.listeners .frontend with
  | some kind, _ => .error kind
  | none, some process => .ok process
  | none, none => .error .connectionRefused

/-- The error of `TcpListener::bind`, if it has one. -/
def bindError (s : Cluster) (port : Port) (error : Option ErrorKind) : Option ErrorKind :=
  match error, s.listeners port with
  | some kind, _ => some kind
  | none, some _ => some .addrInUse
  | none, none => none

/-- What `elect` does with the answer to its call, where the plugin address is that of the IPv4
loopback or not. -/
def answer (loopback : Bool) (s : Cluster) (process : ℕ) (error : Option ErrorKind) : Option Cluster :=
  match s.phases process with
  | .connecting =>
    match s.connect error with
    | .ok leader => some (s.enter process (.follower leader))
    | .error .connectionRefused => some (s.enter process (.binding (s.now + electionTimeout) 0))
    | .error kind => some (s.enter process (.failed (.connect kind)))
  | .binding deadline attempt =>
    match s.bindError .frontend error with
    | none => some ((s.listen .frontend process).enter process .bindingPlugin)
    | some .addrInUse => some (s.enter process (.reconnecting deadline attempt))
    | some kind => some (s.enter process (.failed (.frontendBind kind)))
  | .reconnecting deadline attempt =>
    match s.connect error with
    | .ok leader => some (s.enter process (.follower leader))
    | .error kind =>
      if kind = .connectionRefused ∧ s.now < deadline then
        let delay := retryDelay process attempt
        some (s.enter process (.sleeping deadline (wrappingSucc attempt) (s.now + delay)))
      else some (s.enter process (.failed (.connect kind)))
  | .bindingPlugin =>
    match s.bindError .plugin error with
    | none =>
      some ((s.listen .plugin process).enter process (if loopback then .bindingV6 else .leader false))
    | some kind => some ((s.release process).enter process (.failed (.pluginBind kind)))
  | .bindingV6 =>
    match s.bindError .pluginV6 error with
    | none => some ((s.listen .pluginV6 process).enter process (.leader true))
    | some _ => some (s.enter process (.leader false))
  | _ => none

/-- The end of a sleep, and of a round of the loop. -/
def wake (s : Cluster) (process : ℕ) : Option Cluster :=
  match s.phases process with
  | .sleeping deadline attempt wake =>
    if s.now < wake then none
    else if deadline ≤ s.now then some (s.enter process (.failed .timedOut))
    else some (s.enter process (.binding deadline attempt))
  | _ => none

/-- An election starts in a process that has none, and holds no role that listens. -/
def start (s : Cluster) (process : ℕ) : Option Cluster :=
  match s.phases process with
  | .idle | .follower _ | .failed _ => some (s.enter process .connecting)
  | _ => none

/-- What one event does, where it can happen. -/
def step (loopback : Bool) (s : Cluster) : Event → Option Cluster
  | .pass d => some { s with now := s.now + d }
  | .start process => s.start process
  | .answer process error => s.answer loopback process error
  | .wake process => s.wake process
  | .quit process => some ((s.release process).enter process .idle)

end Cluster

/-! ## Listeners -/

/-- The listeners that an election has bound, and keeps while it leads. -/
def Phase.holds : Phase → Port → Bool
  | .bindingPlugin, .frontend => true
  | .bindingV6, .frontend | .bindingV6, .plugin => true
  | .leader _, .frontend | .leader _, .plugin => true
  | .leader v6, .pluginV6 => v6
  | _, _ => false

/-- The listeners are those that the elections have bound. -/
def Cluster.Held (s : Cluster) : Prop :=
  Exclusive.Agrees s.listeners fun process port => (s.phases process).holds port = true

namespace Cluster

@[simp] theorem phases_enter (s : Cluster) (process other : ℕ) (phase : Phase) :
    (s.enter process phase).phases other = if other = process then phase else s.phases other := by
  by_cases h : other = process
  · subst h
    rw [if_pos rfl]
    exact Function.update_self ..
  · rw [if_neg h]
    exact Function.update_of_ne h ..

theorem held_enter {s : Cluster} (h : Held s) {process : ℕ} {phase : Phase}
    (hsame : ∀ port, phase.holds port = (s.phases process).holds port) : Held (s.enter process phase) := by
  refine h.keep fun other port => ?_
  rw [phases_enter]
  by_cases heq : other = process
  · subst heq
    rw [if_pos rfl, hsame port]
  · rw [if_neg heq]

/-- An election that binds a port nobody listens on. -/
theorem held_listen {s : Cluster} (h : Held s) {process : ℕ} {port : Port} {phase : Phase}
    (hfree : s.listeners port = none)
    (hholds : ∀ q, phase.holds q = true ↔ (s.phases process).holds q = true ∨ q = port) :
    Held ((s.listen port process).enter process phase) := by
  refine h.take hfree fun other q => ?_
  show ((s.enter process phase).phases other).holds q = true ↔ _
  rw [phases_enter]
  by_cases heq : other = process
  · subst heq
    rw [if_pos rfl, hholds q]
    simp
  · rw [if_neg heq]
    simp [heq]

theorem held_release {s : Cluster} (h : Held s) {process : ℕ} {phase : Phase}
    (hnone : ∀ q, phase.holds q = false) : Held ((s.release process).enter process phase) := by
  refine h.free fun other q => ?_
  show ((s.enter process phase).phases other).holds q = true ↔ _
  rw [phases_enter]
  by_cases heq : other = process
  · subst heq
    rw [if_pos rfl, hnone q]
    simp
  · rw [if_neg heq]
    simp [heq]

theorem connect_eq_ok {s : Cluster} {error : Option ErrorKind} {leader : ℕ} (h : s.connect error = .ok leader) :
    s.listeners .frontend = some leader := by
  unfold connect at h
  split at h
  · cases h
  · rename_i heq
    cases h
    exact heq
  · cases h

theorem bindError_eq_none {s : Cluster} {port : Port} {error : Option ErrorKind}
    (h : s.bindError port error = none) : s.listeners port = none := by
  unfold bindError at h
  split at h
  · cases h
  · cases h
  · rename_i heq
    exact heq

end Cluster

end FigmaDevMcp.Election

import FigmaDevMcp.Lib.JsMap
import FigmaDevMcp.Shared.Messages

set_option autoImplicit false

/-!
# Dispatch in the controller

`dispatchControllerMessage` of `dispatch.ts` over the `CancellationRegistry` of `cancellation.ts`.
Each request message has a run of its own, numbered in the order in which they came. A run waits in
`awaitWithSignal` for the first of its operation and its cancellation, and is resumed later.

* `Run`, `Dispatcher`: a run, and what the runs share;
* `start`, `cancel`, `settle`, `resume`: what happens to them;
* `step`, `run`: one event, and a whole run of the dispatcher.
-/

namespace FigmaDevMcp.Plugin

variable {Result : Type}

/-- What a read can throw: its own failure, a cancellation, or anything else. -/
inductive Thrown
  | read (code : ErrorCode) (retryable : Bool)
  | cancellation
  | other
deriving DecidableEq

/-- The failure that is sent for what a read has thrown. -/
def requestBoundaryFailure : Thrown → PluginFailure
  | .read code retryable => { code, retryable }
  | .cancellation => { code := .cancelled, retryable := false }
  | .other => { code := .internalError, retryable := false }

/-- A call of `dispatchControllerMessage` with a request. `registered` is whether `begin` has
returned a controller, `aborted` is that of its signal, and `outcome` is that of the race. -/
structure Run (Result : Type) where
  controllerRequestId : JsString
  requestId : JsString
  registered : Bool
  aborted : Bool := false
  outcome : Option (Except Thrown Result) := none
  answered : Bool := false

/-- What a call returns. -/
def Run.answer (r : Run Result) : Except Thrown Result → ControllerOutboundMessage Result
  | .ok result => .response r.controllerRequestId r.requestId result
  | .error thrown => .error r.controllerRequestId r.requestId (requestBoundaryFailure thrown)

/-- A promise that is settled stays as it is. -/
def Run.settle (r : Run Result) (outcome : Except Thrown Result) : Run Result :=
  { r with outcome := some (r.outcome.getD outcome) }

/-- The signal aborts, and its listener rejects. -/
def Run.abort (r : Run Result) : Run Result :=
  if r.aborted then r else { r with aborted := true }.settle (.error .cancellation)

/-- The entries of the registry are the numbers of the runs whose controllers they hold. -/
structure Dispatcher (Result : Type) where
  active : JsMap JsString ℕ := .empty
  runs : List (Run Result) := []
  answers : List (ℕ × ControllerOutboundMessage Result) := []

namespace Dispatcher

/-- A run is changed where it stands. -/
def modify (s : Dispatcher Result) (n : ℕ) (f : Run Result → Run Result) : Dispatcher Result :=
  { s with runs := s.runs.modify n f }

/-- The call returns, and `finally` removes the entry of a run that has a controller. -/
def finish (s : Dispatcher Result) (n : ℕ) (r : Run Result) (outcome : Except Thrown Result) :
    Dispatcher Result :=
  { s.modify n fun r => { r with answered := true } with
    active := if r.registered then s.active.delete r.controllerRequestId else s.active
    answers := (n, r.answer outcome) :: s.answers }

/-- The run goes on after the race. -/
def resume (s : Dispatcher Result) (n : ℕ) : Dispatcher Result :=
  match s.runs[n]? with
  | none => s
  | some r =>
    match r.answered, r.outcome with
    | false, some outcome => s.finish n r outcome
    | _, _ => s

/-- A run joins the others. -/
def push (s : Dispatcher Result) (r : Run Result) : Dispatcher Result := { s with runs := s.runs ++ [r] }

/-- `begin` throws where the id is active. `prepared` is whether the progress reporter starts: where
it throws, the read does not begin. -/
def start (s : Dispatcher Result) (controllerRequestId requestId : JsString) (prepared : Bool) :
    Dispatcher Result :=
  let n := s.runs.length
  let r : Run Result := { controllerRequestId, requestId, registered := !s.active.has controllerRequestId }
  if s.active.has controllerRequestId then (s.push (r.settle (.error .other))).resume n
  else
    let s := { s with active := s.active.set controllerRequestId n }
    if prepared then s.push r else (s.push (r.settle (.error .other))).resume n

/-- The run of an id is aborted, if one is active. -/
def cancel (s : Dispatcher Result) (controllerRequestId : JsString) : Dispatcher Result :=
  match s.active.get controllerRequestId with
  | none => s
  | some n => s.modify n .abort

/-- What can happen: a request, a cancel, the read of a run settles, a run goes on. -/
inductive Event (Result : Type)
  | request (controllerRequestId requestId : JsString) (prepared : Bool)
  | cancel (controllerRequestId : JsString)
  | settle (run : ℕ) (outcome : Except Thrown Result)
  | resume (run : ℕ)

/-- What one event does. -/
def step (s : Dispatcher Result) : Event Result → Dispatcher Result
  | .request controllerRequestId requestId prepared => s.start controllerRequestId requestId prepared
  | .cancel controllerRequestId => s.cancel controllerRequestId
  | .settle n outcome => s.modify n fun r => r.settle outcome
  | .resume n => s.resume n

/-- The events of a run, one after another. -/
def run (s : Dispatcher Result) (events : List (Event Result)) : Dispatcher Result :=
  events.foldl step s

end Dispatcher

end FigmaDevMcp.Plugin

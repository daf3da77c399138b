import FigmaDevMcp.Lib.JsMap
import FigmaDevMcp.Shared.Validation

set_option autoImplicit false

/-!
# Screenshot validation

The validations that `render.ts` asks of the user interface. The calls of `requestUiValidation` are
numbered in the order in which they came, and so are the timers; the signals of the requests are
numbers. An `abort` listener is known by the validation that it ends.

* `Validations`: what the calls share, with the timers and signals they hold;
* `settlePendingValidation`, `completeScreenshotValidation`, `requestUiValidation`;
* `step`, `run`: one event, and a run.
-/

namespace FigmaDevMcp.Plugin

/-- A validation resolves to the item of a reply, or to an error item. -/
inductive ValidationOutcome
  | failed (code : ErrorCode)
  | asset (value : JsValue)

/-- `call` is the one that `resolve` resolves. -/
structure PendingValidation where
  call : ℕ
  timeout : ℕ
  signal : Option ℕ
deriving DecidableEq

/-- `LocalCancellationSignal` of `cancellation.ts` -/
structure LocalSignal where
  aborted : Bool := false
  listeners : List JsString := []

/-- The validations that wait for a reply. -/
structure Validations where
  pendingValidations : JsMap JsString PendingValidation := .empty
  validationSeq : ℕ := 0
  calls : ℕ := 0
  /-- The timers that have neither fired nor been cleared, each with its validation. -/
  timers : List (ℕ × JsString) := []
  timersMade : ℕ := 0
  signals : ℕ → LocalSignal := fun _ => {}
  /-- What the calls have resolved to. -/
  settled : List (ℕ × ValidationOutcome) := []

namespace Validations

/-- The id of a validation. -/
def validationId (n : ℕ) : JsString := text "screenshot-" ++ NumberText.decimal n

/-- A signal is another one. -/
def setSignal (s : Validations) (signal : ℕ) (value : LocalSignal) : Validations :=
  { s with signals := fun n => if n = signal then value else s.signals n }

/-- A validation listens to its signal. -/
def addListener (s : Validations) (id : JsString) : Option ℕ → Validations
  | none => s
  | some signal =>
    s.setSignal signal { s.signals signal with listeners := (s.signals signal).listeners ++ [id] }

/-- A validation no longer listens to its signal. -/
def removeListener (s : Validations) (id : JsString) : Option ℕ → Validations
  | none => s
  | some signal =>
    s.setSignal signal
      { s.signals signal with listeners := (s.signals signal).listeners.filter fun l => l ≠ id }

/-- A timer is given up. -/
def clearTimeout (s : Validations) (timer : ℕ) : Validations :=
  { s with timers := s.timers.filter fun t => t.1 ≠ timer }

/-- A validation that waits is settled, once. -/
def settlePendingValidation (s : Validations) (id : JsString) (outcome : ValidationOutcome) :
    Validations × Bool :=
  match s.pendingValidations.get id with
  | none => (s, false)
  | some pending =>
    (({ s with
        pendingValidations := s.pendingValidations.delete id
        settled := (pending.call, outcome) :: s.settled }.clearTimeout pending.timeout).removeListener
      id pending.signal, true)

/-- What a reply says of its validation. -/
def replyOutcome (asset : JsValue) : ValidationOutcome :=
  if isWord (asset.field "status") "success" || isWord (asset.field "status") "error" then .asset asset
  else .failed .internalError

/-- The validation that a message answers. -/
def repliesTo (input : JsValue) : Option JsString :=
  match isWord (input.field "type") "screenshotValidated", input.field "validationId" with
  | true, .string id => some id
  | _, _ => none

/-- A reply settles the validation that it names. -/
def completeScreenshotValidation (s : Validations) (input : JsValue) : Validations × Bool :=
  match repliesTo input with
  | none => (s, false)
  | some id => s.settlePendingValidation id (replyOutcome (input.field "asset"))

/-- The executor of the promise: the timer, the listener and the entry of a validation. -/
def register (s : Validations) (call : ℕ) (signal : Option ℕ) : Validations :=
  let id := validationId s.validationSeq
  { s with
    validationSeq := s.validationSeq + 1
    timers := (s.timersMade, id) :: s.timers
    timersMade := s.timersMade + 1
    pendingValidations := s.pendingValidations.set id
      { call, timeout := s.timersMade, signal } }.addListener id signal

/-- `ui` is whether there is a user interface, and `posts` whether `postMessage` returns. -/
def requestUiValidation (s : Validations) (ui : Bool) (signal : Option ℕ) (posts : Bool) : Validations :=
  let call := s.calls
  let s := { s with calls := s.calls + 1 }
  if !ui then { s with settled := (call, .failed .internalError) :: s.settled }
  else if signal.any fun n => (s.signals n).aborted then
    { s with settled := (call, .failed .cancelled) :: s.settled }
  else if posts then s.register call signal
  else
    ((s.register call signal).settlePendingValidation (validationId s.validationSeq)
      (.failed .internalError)).1

/-- The listeners of a signal are settled one after another. -/
def notify (s : Validations) (ids : List JsString) : Validations :=
  ids.foldl (fun s id => (s.settlePendingValidation id (.failed .cancelled)).1) s

/-- `abort` of a signal: its listeners are taken from it and called. -/
def abort (s : Validations) (signal : ℕ) : Validations :=
  if (s.signals signal).aborted then s
  else (s.setSignal signal { aborted := true }).notify (s.signals signal).listeners

/-- A timer fires. -/
def fire (s : Validations) (timer : ℕ) : Validations :=
  match s.timers.find? fun t => t.1 = timer with
  | none => s
  | some t => ((s.clearTimeout timer).settlePendingValidation t.2 (.failed .timeout)).1

/-- What can happen to the validations. -/
inductive Event
  | request (ui : Bool) (signal : Option ℕ) (posts : Bool)
  | reply (input : JsValue)
  | timeout (timer : ℕ)
  | abort (signal : ℕ)

/-- What one event does. -/
def step (s : Validations) : Event → Validations
  | .request ui signal posts => s.requestUiValidation ui signal posts
  | .reply input => (s.completeScreenshotValidation input).1
  | .timeout timer => s.fire timer
  | .abort signal => s.abort signal

/-- The events of a run, one after another. -/
def run (s : Validations) (events : List Event) : Validations := events.foldl step s

end Validations

end FigmaDevMcp.Plugin

import FigmaDevMcp.Main.AnswersOnce
import FigmaDevMcp.Ui.Effects

set_option autoImplicit false

/-!
# The plugin as a whole

The user interface and the controller post messages to each other. `code.ts` is what the controller
does with one, and `onControllerMessage` of `relay.ts` is what the user interface does; either parses
what it takes. The messages arrive in the order in which they were posted.

* `Session`: the transport, the dispatcher, and the messages on the way between them;
* `onmessage`, `onControllerMessage`: what is done with a message that arrives;
* `step`, `run`: one event, and a run;
* `FreshRun`: a run in which no two requests are given one id.
-/

namespace FigmaDevMcp.Plugin

open JsValue

variable {Result : Type}

/-- A message to the main thread, as it is sent. -/
def ControllerMessage.toJs : ControllerMessage → JsValue
  | .bound message => message.toJs
  | .requestControllerReady metadataRequestId =>
    .object (member "type" (FigmaDevMcp.word "requestControllerReady") ++
      member "metadataRequestId" (.string metadataRequestId))

/-- The two threads of the plugin, with the messages between them. -/
structure Session (Result : Type) where
  ui : Transport Result
  toMain : List ControllerMessage := []
  main : Dispatcher Result := {}
  toUi : List (ControllerOutboundMessage Result) := []

namespace Session

/-- The user interface has gone on, and has posted what it has sent. -/
def update (s : Session Result) (ui : Transport Result) : Session Result :=
  { s with
    ui
    toMain := s.toMain ++ messagesOf (ui.history.take (ui.history.length - s.ui.history.length)) }

/-- The dispatcher has gone on, and its answers are posted. -/
def dispatch (s : Session Result) (event : Dispatcher.Event Result) : Session Result :=
  let main := s.main.step event
  { s with
    main
    toUi := s.toUi ++
      ((main.answers.take (main.answers.length - s.main.answers.length)).map Prod.snd).reverse }

/-- The main thread sends a message to the other. -/
def post (s : Session Result) (message : ControllerOutboundMessage Result) : Session Result :=
  { s with toUi := s.toUi ++ [message] }

/-- `figma.ui.onmessage`; `host` is what Figma says of itself, and `prepared` is whether the progress
reporter of a request starts. -/
def onmessage (s : Session Result) (host : ControllerReady) (prepared : Bool) (message : JsValue) :
    Session Result :=
  match parseControllerMetadataRequest message with
  | .ok metadataRequestId => s.post (.controllerReady { host with metadataRequestId })
  | .error _ =>
    match parseControllerBoundMessage message with
    | .ok (.request k r) => s.dispatch (.request k r.requestId prepared)
    | .ok (.cancel k _) => s.dispatch (.cancel k)
    | .error _ => s

section

variable (parseReadResult : JsValue → Parsed Result) (print : Result → JsValue)

/-- The listener of `onControllerMessage`. -/
def onControllerMessage (s : Session Result) (uuid : JsString)
    (message : ControllerOutboundMessage Result) : Session Result :=
  match parseControllerOutboundMessage parseReadResult (message.toJs print) with
  | .error _ => s
  | .ok message => s.update (s.ui.step (.controller message uuid))

/-- What can happen. The messages of the controller come only over the channel. -/
inductive Event (Result : Type)
  | ui (event : Plugin.Event Result)
  | takeMain (host : ControllerReady) (prepared : Bool)
  | settle (run : ℕ) (outcome : Except Thrown Result)
  | resume (run : ℕ)
  | tick (run : ℕ) (progress : Progress)
  | takeUi (uuid : JsString)

/-- What one event does, on one thread or between them. -/
def step (s : Session Result) : Event Result → Session Result
  | .ui (.controller _ _) => s
  | .ui event => s.update (s.ui.step event)
  | .takeMain host prepared =>
    match s.toMain with
    | [] => s
    | message :: rest => { s with toMain := rest }.onmessage host prepared message.toJs
  | .settle n outcome => s.dispatch (.settle n outcome)
  | .resume n => s.dispatch (.resume n)
  | .tick n progress =>
    match s.main.runs[n]? with
    | none => s
    | some r => s.post (.progress r.controllerRequestId r.requestId progress)
  | .takeUi uuid =>
    match s.toUi with
    | [] => s
    | message :: rest =>
      { s with toUi := rest }.onControllerMessage parseReadResult print uuid message

/-- The events of a run, one after another. -/
def run (s : Session Result) (events : List (Event Result)) : Session Result :=
  events.foldl (step parseReadResult print) s

/-- The requests that the controller has been sent. -/
def issuedIds (history : List (Action Result)) : List JsString :=
  history.filterMap fun
    | .toController (.bound (.request k _)) => some k
    | _ => none

/-- The id that a request is given is new. -/
def Fresh (s : Session Result) : Event Result → Prop
  | .ui (.message _ _ uuid) => ∀ k, parseUuid (.string uuid) = .ok k → k ∉ issuedIds s.ui.history
  | _ => True

/-- No id of a request comes twice in a run. -/
def FreshRun (s : Session Result) : List (Event Result) → Prop
  | [] => True
  | event :: events => s.Fresh event ∧ FreshRun (step parseReadResult print s event) events

end

/-- The plugin as it starts. -/
def start (uuid : JsString) (constructs : Bool) : Session Result :=
  { ui := startSocketTransport uuid constructs }

end Session

end FigmaDevMcp.Plugin

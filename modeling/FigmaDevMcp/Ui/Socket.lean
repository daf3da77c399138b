import FigmaDevMcp.Lib.JsMap
import FigmaDevMcp.Lib.JsonText
import FigmaDevMcp.Shared.Messages
import FigmaDevMcp.Shared.Validation

set_option autoImplicit false

/-!
# The socket transport of the user interface

`startSocketTransport` of `socket.ts` as a machine that takes one event at a time: the events of its
sockets, the messages of the controller, the timers and the stop function. The sockets are numbered
in the order of their making, and so are the timers. `history` has what came in and what went out.

* `Transport`: what the closures of the function share, with the sockets and timers they hold;
* `connect`, `scheduleReconnect`, `receiveController`, `receiveFrame`, `stop`: its functions;
* `step`, `run`: one event, and a run.
-/

namespace FigmaDevMcp.Plugin

/-- The delays before a new socket, the last of which stays. -/
def RECONNECT_DELAYS_MS : List ℕ := [250, 500, 1000, 2000, 5000]

/-- The states of a `WebSocket`. -/
inductive ReadyState
  | connecting
  | opened
  | closing
  | closed
deriving DecidableEq

/-- A socket, with what it has done since it was made. -/
structure SocketGeneration where
  readyState : ReadyState := .connecting
  metadataRequestId : JsString
  helloSent : Bool := false
  acceptedSinceOpen : Bool := false
deriving DecidableEq

/-- Whose request an id of the main thread stands for. -/
structure RequestOwner where
  generation : ℕ
  brokerRequestId : JsString
deriving DecidableEq

/-- What `sendToController` is given. -/
inductive ControllerMessage
  | bound (message : ControllerBoundMessage)
  | requestControllerReady (metadataRequestId : JsString)

section

variable (Result : Type)

/-- What came in and what went out. -/
inductive Action
  | received (generation : ℕ) (message : BrokerToPlugin)
  | fromController (message : ControllerOutboundMessage Result)
  | closed (generation : ℕ)
  | stopped
  | toBroker (generation : ℕ) (message : PluginToBroker Result)
  | toController (message : ControllerMessage)
  | setTimeout (delay : ℕ)

/-- `data` is missing where the frame is not text. `uuid` is what `randomUuid` returns and
`constructs` is whether `new WebSocket` returns. -/
inductive Event
  | opened (generation : ℕ)
  | message (generation : ℕ) (data : Option JsString) (uuid : JsString)
  | controller (message : ControllerOutboundMessage Result) (uuid : JsString)
  | failed (generation : ℕ)
  | closed (generation : ℕ)
  | timer (timer : ℕ) (uuid : JsString) (constructs : Bool)
  | stop

/-- The state of the transport, with all its sockets. -/
structure Transport where
  stopped : Bool := false
  listening : Bool := true
  reconnectAttempt : ℕ := 0
  active : Option ℕ := none
  reconnectTimer : Option ℕ := none
  requestOwners : JsMap JsString RequestOwner := .empty
  generations : List SocketGeneration := []
  /-- The timers that have neither fired nor been cleared. -/
  timers : List ℕ := []
  timersMade : ℕ := 0
  history : List (Action Result) := []

end

variable {Result : Type}

/-! ## Sockets -/

/-- A condition on a generation that has been made. -/
def Transport.meets (t : Transport Result) (g : ℕ) (p : SocketGeneration → Bool) : Bool :=
  t.generations[g]?.any p

/-- The socket is the active one, and open. -/
def Transport.isActiveOpen (t : Transport Result) (g : ℕ) : Bool :=
  !t.stopped && t.active = some g && t.meets g fun generation => generation.readyState = .opened

/-- An action is done. -/
def Transport.act (t : Transport Result) (action : Action Result) : Transport Result :=
  { t with history := action :: t.history }

/-- A socket is changed where it stands. -/
def Transport.modifyGeneration (t : Transport Result) (g : ℕ)
    (f : SocketGeneration → SocketGeneration) : Transport Result :=
  { t with generations := t.generations.modify g f }

/-- `socket.close()` -/
def SocketGeneration.close (generation : SocketGeneration) : SocketGeneration :=
  match generation.readyState with
  | .connecting | .opened => { generation with readyState := .closing }
  | .closing | .closed => generation

/-! ## Requests -/

/-- The entry of a request of a socket. -/
def Transport.findGenerationRequest (t : Transport Result) (g : ℕ) (brokerRequestId : JsString) :
    Option (JsString × RequestOwner) :=
  t.requestOwners.entries.find? fun e =>
    e.2.generation = g && e.2.brokerRequestId = brokerRequestId

/-- The action that tells the main thread of a cancellation. -/
def cancelOf (e : JsString × RequestOwner) : Action Result :=
  .toController (.bound (.cancel e.1 e.2.brokerRequestId))

/-- All requests of a socket are cancelled. -/
def Transport.cancelGenerationRequests (t : Transport Result) (g : ℕ) : Transport Result :=
  let cancelled := t.requestOwners.entries.filter fun e => e.2.generation = g
  { t with
    requestOwners := t.requestOwners.deleteWhere fun e => e.2.generation = g
    history := (cancelled.map cancelOf).reverse ++ t.history }

/-- `buildHello` of `hello.ts` -/
def buildHello (ready : ControllerReady) (uuid : JsString) : Parsed Hello := do
  return {
    protocolVersion := text "4"
    connectionId := ← parseUuid (.string uuid)
    displayName := ready.fileName
    fileName := ready.fileName
    currentPage := ready.currentPage
    editorType := ready.editorType
    pluginVersion := ready.pluginVersion
    capabilities := ready.capabilities }

/-- The hello is sent, unless it cannot be built. -/
def Transport.sendHello (t : Transport Result) (g : ℕ) (ready : ControllerReady) (uuid : JsString) :
    Transport Result :=
  match buildHello ready uuid with
  | .error _ => t
  | .ok hello =>
    (t.act (.toBroker g (.hello hello))).modifyGeneration g fun generation =>
      { generation with helloSent := true }

/-- The main thread is ready; the active socket says hello once. -/
def Transport.receiveReady (t : Transport Result) (ready : ControllerReady) (uuid : JsString) :
    Transport Result :=
  match t.active with
  | none => t
  | some g =>
    if t.isActiveOpen g && t.meets g fun generation =>
        !generation.helloSent && ready.metadataRequestId = generation.metadataRequestId then
      t.sendHello g ready uuid
    else t

/-- What the owner of a controller request is sent; a response and an error end its request. -/
def Transport.sendToOwner (t : Transport Result) (controllerRequestId : JsString) (terminal : Bool)
    (message : JsString → PluginToBroker Result) : Transport Result :=
  match t.requestOwners.get controllerRequestId with
  | none => t
  | some owner =>
    if t.isActiveOpen owner.generation then
      let owners := if terminal then t.requestOwners.delete controllerRequestId else t.requestOwners
      { t with requestOwners := owners }.act
        (.toBroker owner.generation (message owner.brokerRequestId))
    else t

/-- What the main thread sends. -/
def Transport.receiveController (t : Transport Result) (uuid : JsString) :
    ControllerOutboundMessage Result → Transport Result
  | .controllerReady ready => t.receiveReady ready uuid
  | .progress controllerRequestId _ progress =>
    t.sendToOwner controllerRequestId false fun requestId => .progress requestId progress
  | .response controllerRequestId _ result =>
    t.sendToOwner controllerRequestId true fun requestId => .response requestId result
  | .error controllerRequestId _ error =>
    t.sendToOwner controllerRequestId true fun requestId => .error requestId error

/-! ## Frames -/

/-- What the controller is sent for a request. -/
def controllerRequest (request : Request) (uuid : JsString) : Parsed (JsString × ControllerBoundMessage) := do
  let controllerRequestId ← parseUuid (.string uuid)
  return (controllerRequestId,
    ← parseControllerBoundMessage (ControllerBoundMessage.request controllerRequestId request).toJs)

/-- A request of the broker is passed on under a new id. -/
def Transport.receiveRequest (t : Transport Result) (g : ℕ) (request : Request) (uuid : JsString) :
    Transport Result :=
  match t.findGenerationRequest g request.requestId, controllerRequest request uuid with
  | none, .ok (controllerRequestId, .request k r) =>
    { t with
      requestOwners := t.requestOwners.set controllerRequestId
        { generation := g, brokerRequestId := request.requestId } }.act
      (.toController (.bound (.request k r)))
  | none, .ok (_, .cancel _ _) => t
  | none, .error _ => t
  | some _, _ => t

/-- A cancellation of the broker is passed on. -/
def Transport.receiveCancel (t : Transport Result) (g : ℕ) (requestId : JsString) : Transport Result :=
  match t.findGenerationRequest g requestId with
  | none => t
  | some (controllerRequestId, owner) =>
    let t := { t with requestOwners := t.requestOwners.delete controllerRequestId }
    match parseControllerBoundMessage
      (ControllerBoundMessage.cancel controllerRequestId owner.brokerRequestId).toJs with
    | .error _ => t
    | .ok message => t.act (.toController (.bound message))

/-- A frame that was read. -/
def Transport.receiveFrame (t : Transport Result) (g : ℕ) (uuid : JsString) :
    BrokerToPlugin → Transport Result
  | .request request => t.receiveRequest g request uuid
  | .cancel requestId => t.receiveCancel g requestId
  | .ping nonce => t.act (.toBroker g (.pong nonce))

/-- The first frame of a generation that parses. -/
def Transport.accept (t : Transport Result) (g : ℕ) : Transport Result :=
  if t.meets g fun generation => !generation.acceptedSinceOpen then
    { t.modifyGeneration g fun generation => { generation with acceptedSinceOpen := true } with
      reconnectAttempt := 0 }
  else t

/-- `parseBrokerToPlugin(JSON.parse(data))` -/
def readFrame (data : JsString) : Option BrokerToPlugin :=
  (JsValue.parse data).bind fun value => (parseBrokerToPlugin value).toOption

/-- The message of a frame that is taken. -/
def Transport.frame (t : Transport Result) (g : ℕ) (data : Option JsString) : Option BrokerToPlugin :=
  if t.isActiveOpen g && t.meets g fun generation => generation.helloSent then data.bind readFrame
  else none

/-- A message of a socket. One that is not read as a frame is dropped. -/
def Transport.onMessage (t : Transport Result) (g : ℕ) (data : Option JsString) (uuid : JsString) :
    Transport Result :=
  match t.frame g data with
  | none => t
  | some message => ((t.act (.received g message)).accept g).receiveFrame g uuid message

/-! ## Connecting -/

/-- The place in the table is always there. -/
def reconnectDelay (reconnectAttempt : ℕ) : ℕ :=
  RECONNECT_DELAYS_MS.get
    ⟨min reconnectAttempt (RECONNECT_DELAYS_MS.length - 1), Nat.lt_of_le_of_lt (Nat.min_le_right _ _) (by decide)⟩

/-- A timer is set, unless there is one. -/
def Transport.scheduleReconnect (t : Transport Result) : Transport Result :=
  if t.stopped || t.reconnectTimer.isSome then t
  else
    { t with
      reconnectAttempt := t.reconnectAttempt + 1
      reconnectTimer := some t.timersMade
      timers := t.timersMade :: t.timers
      timersMade := t.timersMade + 1 }.act (.setTimeout (reconnectDelay t.reconnectAttempt))

/-- A new socket is made, unless there is one. -/
def Transport.connect (t : Transport Result) (uuid : JsString) (constructs : Bool) :
    Transport Result :=
  if t.stopped || t.active.isSome then t
  else if constructs then
    { t with
      generations := t.generations ++ [{ metadataRequestId := uuid }]
      active := some t.generations.length }
  else t.scheduleReconnect

/-- The `open` event: the socket is open, and the controller is asked for what the hello says. -/
def Transport.onOpen (t : Transport Result) (g : ℕ) : Transport Result :=
  match t.isActiveOpen g, t.generations[g]? with
  | true, some generation =>
    t.act (.toController (.requestControllerReady generation.metadataRequestId))
  | _, _ => t

/-- A socket has closed; its requests are cancelled. -/
def Transport.onClose (t : Transport Result) (g : ℕ) : Transport Result :=
  let t := t.cancelGenerationRequests g
  if t.active = some g then { t with active := none }.scheduleReconnect else t

/-- A timer has run out. -/
def Transport.onTimer (t : Transport Result) (timer : ℕ) (uuid : JsString) (constructs : Bool) :
    Transport Result :=
  if timer ∈ t.timers then
    { t with timers := t.timers.erase timer, reconnectTimer := none }.connect uuid constructs
  else t

/-- What the stop function does with the generation that was active. -/
def Transport.closeActive (t : Transport Result) : Option ℕ → Transport Result
  | none => t
  | some g => (t.cancelGenerationRequests g).modifyGeneration g .close

/-- The transport that is stopped, with its timer cleared. -/
def Transport.retire (t : Transport Result) : Transport Result :=
  { t with
    stopped := true
    listening := false
    timers := t.timers.filter fun timer => t.reconnectTimer ≠ some timer
    reconnectTimer := none
    active := none }

/-- The transport gives up its socket and its timer. -/
def Transport.stop (t : Transport Result) : Transport Result := t.retire.closeActive t.active

/-! ## Runs -/

/-- A socket that connects opens. -/
def SocketGeneration.establish (generation : SocketGeneration) : SocketGeneration :=
  match generation.readyState with
  | .connecting => { generation with readyState := .opened }
  | _ => generation

/-- A socket is closed when its `close` event comes, however often, and never again open. -/
def Transport.step (t : Transport Result) : Event Result → Transport Result
  | .opened g => (t.modifyGeneration g .establish).onOpen g
  | .message g data uuid => t.onMessage g data uuid
  | .controller message uuid =>
    if t.listening then (t.act (.fromController message)).receiveController uuid message else t
  | .failed g => t.modifyGeneration g .close
  | .closed g =>
    if g < t.generations.length then
      ((t.act (.closed g)).modifyGeneration g
        fun generation => { generation with readyState := .closed }).onClose g
    else t
  | .timer timer uuid constructs => t.onTimer timer uuid constructs
  | .stop => (t.act .stopped).stop

/-- The transport as `startSocketTransport` leaves it. -/
def startSocketTransport (uuid : JsString) (constructs : Bool) : Transport Result :=
  ({} : Transport Result).connect uuid constructs

/-- The events of a run, one after another. -/
def Transport.run (t : Transport Result) (events : List (Event Result)) : Transport Result :=
  events.foldl Transport.step t

end FigmaDevMcp.Plugin

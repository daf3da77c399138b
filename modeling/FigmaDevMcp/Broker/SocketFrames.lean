import FigmaDevMcp.Protocol.Wire

set_option autoImplicit false

/-!
# The frames of a socket

`handle_socket` of `ws.rs`, as what it makes of the text frames that come in: it ends at the first
one that it does not take. It also ends, whatever the frames are, when it gets no lease, when the
registry refuses the session, when its queue is closed, when a send fails, when no frame has come for
too long, and when the broker shuts down. These ends are left out.

* `receiveText`: a frame is within the limit of the socket, and is a message;
* `firstFrame`, `handleIncoming`: a hello first, and none after it;
* `handleSocket`: the messages that are taken, and the error that it ends with.
-/

namespace FigmaDevMcp.Ws

open Serde Protocol

/-- The version that a plugin has to speak. -/
def PLUGIN_PROTOCOL_VERSION : String := "4"

/-- `Limits::production`, the limits of a frame and of a message. -/
def maxMessageBytes : ℕ := maxEnvelopeBytes

/-- The variants of `BrokerError` that a text frame can lead to. `Registry` and `HeartbeatExpired`
come from elsewhere. -/
inductive BrokerError
  | webSocket | json | firstFrameNotHello | protocolMismatch | secondHello
deriving DecidableEq

/-- The bytes of a text, and what a deserializer is told of it. -/
structure TextFrame (F : Type) where
  bytes : ℕ
  json : Option (Json F)

section

variable {F : Type} {P : Payloads F}

/-- The socket refuses what is too long; the rest is read as a message. -/
def receiveText (frame : TextFrame F) : Except BrokerError (Protocol.PluginToBroker P) :=
  if maxMessageBytes < frame.bytes then .error .webSocket
  else
    match frame.json with
    | none => .error .json
    | some json => (Protocol.PluginToBroker.read json).mapError fun _ => .json

/-- The hello. The lease and the registry are asked for after it. -/
def firstFrame (frame : TextFrame F) : Except BrokerError (Protocol.PluginToBroker P) :=
  match receiveText (P := P) frame with
  | .error e => .error e
  | .ok (.hello hello) =>
    if hello.protocolVersion.value ≠ PLUGIN_PROTOCOL_VERSION.toList then .error .protocolMismatch
    else .ok (.hello hello)
  | .ok _ => .error .firstFrameNotHello

/-- The session is told of every message but a hello. -/
def handleIncoming (frame : TextFrame F) : Except BrokerError (Protocol.PluginToBroker P) :=
  match receiveText (P := P) frame with
  | .error e => .error e
  | .ok (.hello _) => .error .secondHello
  | .ok message => .ok message

/-- The loop, which ends with the first error. -/
def readIncoming : List (TextFrame F) → List (Protocol.PluginToBroker P) × Option BrokerError
  | [] => ([], none)
  | frame :: rest =>
    match handleIncoming frame with
    | .error e => ([], some e)
    | .ok message =>
      let later := readIncoming rest
      (message :: later.1, later.2)

/-- The messages that are taken of the frames, and the error of the frame that is not, for as long as
the loop goes on. -/
def handleSocket : List (TextFrame F) → List (Protocol.PluginToBroker P) × Option BrokerError
  | [] => ([], none)
  | frame :: rest =>
    match firstFrame frame with
    | .error e => ([], some e)
    | .ok message =>
      let later := readIncoming rest
      (message :: later.1, later.2)

/-! ## What is taken -/

variable {frame : TextFrame F} {message : Protocol.PluginToBroker P}

theorem receiveText_eq_ok {json : Json F} (hjson : frame.json = some json)
    (hbytes : frame.bytes ≤ maxMessageBytes) (h : Protocol.PluginToBroker.read json = .ok message) :
    receiveText frame = .ok message := by
  rw [receiveText, if_neg (Nat.not_lt.2 hbytes), hjson]
  show (Protocol.PluginToBroker.read json).mapError _ = _
  rw [h]
  rfl

/-- A frame that is taken is a message within the limit. -/
theorem receiveText_inv (h : receiveText frame = .ok message) : frame.bytes ≤ maxMessageBytes ∧
    ∃ json, frame.json = some json ∧ Protocol.PluginToBroker.read json = .ok message := by
  unfold receiveText at h
  split_ifs at h with hlong
  refine ⟨Nat.le_of_not_lt hlong, ?_⟩
  cases hjson : frame.json with
  | none =>
      rw [hjson] at h
      cases h
  | some json =>
      rw [hjson] at h
      dsimp only at h
      cases hread : (Protocol.PluginToBroker.read json :
          Except DecodeError (Protocol.PluginToBroker P)) with
      | error e =>
          rw [hread] at h
          cases h
      | ok read =>
          rw [hread] at h
          exact ⟨json, rfl, by rw [hread, ← Except.ok.inj h]⟩

/-- A frame is refused by the socket or by the deserializer. -/
theorem receiveText_error {e : BrokerError} (h : receiveText (P := P) frame = .error e) :
    e = .webSocket ∨ e = .json := by
  unfold receiveText at h
  split_ifs at h
  · exact Or.inl (Except.error.inj h).symm
  · right
    cases hjson : frame.json with
    | none =>
        rw [hjson] at h
        exact (Except.error.inj h).symm
    | some json =>
        rw [hjson] at h
        dsimp only at h
        cases hread : (Protocol.PluginToBroker.read json :
            Except DecodeError (Protocol.PluginToBroker P)) with
        | error _ =>
            rw [hread] at h
            exact (Except.error.inj h).symm
        | ok _ =>
            rw [hread] at h
            cases h

end

end FigmaDevMcp.Ws

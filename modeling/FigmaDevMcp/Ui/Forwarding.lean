import FigmaDevMcp.Shared.Reparsing
import FigmaDevMcp.Ui.Ownership

set_option autoImplicit false

/-!
# Requests on their way to the controller

A request is parsed when its frame is read, then under its new id before it is handed on, and a
third time by the controller.

* `parsedRequest_of_frame`: what a frame gives has been parsed;
* `controllerRequest_of_parsed`: what the second parser makes of it;
* `receiveRequest_of_sent`, `receiveRequest_of_dropped`: what the transport does then;
* **`request_forwarded_iff`**: which requests reach the controller.
-/

namespace FigmaDevMcp.Plugin

variable {Result : Type}

/-- **What has been read from a frame** has been parsed. -/
theorem parsedRequest_of_frame {t : Transport Result} {g : ℕ} {data : Option JsString} {r : Request}
    (h : t.frame g data = some (.request r)) : ParsedRequest r := by
  unfold Transport.frame at h
  split_ifs at h
  obtain ⟨s, -, h⟩ := Option.bind_eq_some_iff.1 h
  obtain ⟨value, -, h⟩ := Option.bind_eq_some_iff.1 h
  cases hparsed : parseBrokerToPlugin value with
  | error _ =>
      rw [hparsed] at h
      cases h
  | ok message =>
      rw [hparsed] at h
      rw [Option.some.inj h] at hparsed
      exact parsedRequest_of_broker hparsed

/-- What the parser makes of a request under its new id. -/
theorem controllerRequest_of_parsed {r : Request} (h : ParsedRequest r) {uuid k : JsString}
    (huuid : parseUuid (.string uuid) = .ok k) :
    (¬ BlankCursor r.operation → controllerRequest r uuid = .ok (k, .request k r)) ∧
      (BlankCursor r.operation → ∃ e, controllerRequest r uuid = .error e) := by
  obtain ⟨htaken, hrefused⟩ := parseControllerBoundMessage_eq_ok h (parseUuid_idem huuid)
  have hrequest : controllerRequest r uuid =
      (parseControllerBoundMessage (ControllerBoundMessage.request k r).toJs).map fun m => (k, m) := by
    rw [controllerRequest, huuid, Guard.ok_bind]
    cases parseControllerBoundMessage (ControllerBoundMessage.request k r).toJs <;> rfl
  rw [hrequest]
  constructor
  · intro hblank
    rw [htaken hblank]
    rfl
  · intro hblank
    cases hparsed : parseControllerBoundMessage (ControllerBoundMessage.request k r).toJs with
    | error e => exact ⟨e, rfl⟩
    | ok m =>
        have hfalse := hrefused hblank
        rw [hparsed] at hfalse
        cases hfalse

variable {t : Transport Result} {g : ℕ} {r : Request} {uuid k : JsString}

theorem receiveRequest_of_sent (hnew : t.findGenerationRequest g r.requestId = none)
    (hsent : controllerRequest r uuid = .ok (k, .request k r)) :
    t.receiveRequest g r uuid =
      { t with requestOwners := t.requestOwners.set k ⟨g, r.requestId⟩ }.act
        (.toController (.bound (.request k r))) := by
  rw [Transport.receiveRequest, hnew, hsent]

theorem receiveRequest_of_dropped {e : JsString} (hdropped : controllerRequest r uuid = .error e) :
    t.receiveRequest g r uuid = t := by
  rw [Transport.receiveRequest, hdropped]
  cases t.findGenerationRequest g r.requestId <;> rfl

/-- **Which requests reach the controller.** A request that is not in progress is handed on under its
new id with all that its frame was parsed to, and the controller takes it as it is. The exception is a
search with a blank cursor: its owner is not registered, and nobody is told. -/
theorem request_forwarded_iff {data : Option JsString} (hframe : t.frame g data = some (.request r))
    (hnew : t.findGenerationRequest g r.requestId = none) (huuid : parseUuid (.string uuid) = .ok k) :
    let t' := t.step (.message g data uuid)
    let received := .received g (.request r) :: t.history
    (¬ BlankCursor r.operation →
      t'.history = .toController (.bound (.request k r)) :: received ∧
      t'.requestOwners = t.requestOwners.set k ⟨g, r.requestId⟩ ∧
      parseControllerBoundMessage (ControllerBoundMessage.request k r).toJs = .ok (.request k r)) ∧
    (BlankCursor r.operation →
      t'.history = received ∧ t'.requestOwners = t.requestOwners ∧
      ∀ m, parseControllerBoundMessage (ControllerBoundMessage.request k r).toJs ≠ .ok m) := by
  intro t' received
  have hparsed : ParsedRequest r := parsedRequest_of_frame hframe
  obtain ⟨hsent, hdropped⟩ := controllerRequest_of_parsed hparsed huuid
  obtain ⟨htaken, hrefused⟩ := parseControllerBoundMessage_eq_ok hparsed (parseUuid_idem huuid)
  generalize haccepted : (t.act (.received g (.request r))).accept g = u
  have hstep : t' = u.receiveRequest g r uuid := by
    show t.onMessage g data uuid = _
    rw [Transport.onMessage, hframe, ← haccepted]
    rfl
  have howners : u.requestOwners = t.requestOwners := by
    rw [← haccepted]
    exact accept_requestOwners _ g
  have hhistory : u.history = received := by
    rw [← haccepted]
    exact accept_history _ g
  have hnew' : u.findGenerationRequest g r.requestId = none := by
    rw [← hnew]
    unfold Transport.findGenerationRequest
    rw [howners]
  constructor
  · intro hblank
    rw [hstep, receiveRequest_of_sent hnew' (hsent hblank), ← hhistory, ← howners]
    exact ⟨rfl, rfl, htaken hblank⟩
  · intro hblank
    obtain ⟨e, he⟩ := hdropped hblank
    rw [hstep, receiveRequest_of_dropped he]
    refine ⟨hhistory, howners, fun m hm => ?_⟩
    have hfalse := hrefused hblank
    rw [hm] at hfalse
    cases hfalse

/-- A socket that has said hello. -/
def greeted : Transport Unit where
  active := some 0
  generations := [{ readyState := .opened, metadataRequestId := [], helloSent := true }]

/-- A search that goes on from a cursor. -/
def searchFrom (cursor : JsString) : Request where
  requestId := text "r"
  deadlineMs := 9
  operation := .searchNodes
    { scope := .pageId (text "0:1"), query := some (text "a"), matchMode := .contains, limit := 5,
      cursor := some cursor }

/-- An id. -/
def freshUuid : JsString := text "01234567-89ab-4def-8123-456789abcdef"

/-- The frame of such a search. -/
def searchFrame (cursor : JsString) : Option JsString :=
  JsValue.stringify (BrokerToPlugin.request (searchFrom cursor)).toJs

/-- A search that goes on from `" c "` reaches the controller with the cursor `"c"`, and one that goes
on from `" "` does not. -/
theorem request_forwarded_searches :
    let forwarded := greeted.step (.message 0 (searchFrame (text " c ")) freshUuid)
    let dropped := greeted.step (.message 0 (searchFrame (text " ")) freshUuid)
    (forwarded.history = [.toController (.bound (.request freshUuid (searchFrom (text "c")))),
        .received 0 (.request (searchFrom (text "c")))] ∧
      forwarded.requestOwners = greeted.requestOwners.set freshUuid ⟨0, text "r"⟩) ∧
    dropped.history = [.received 0 (.request (searchFrom []))] ∧
      dropped.requestOwners = greeted.requestOwners := by
  have hframe : greeted.frame 0 (searchFrame (text " c ")) =
      some (.request (searchFrom (text "c"))) := by decide +kernel
  have hblank : greeted.frame 0 (searchFrame (text " ")) = some (.request (searchFrom [])) := by
    decide +kernel
  have huuid : parseUuid (.string freshUuid) = .ok freshUuid := by decide +kernel
  have hkept : ¬ BlankCursor (searchFrom (text "c")).operation := by
    intro hempty
    cases hempty
  have hforwarded := (request_forwarded_iff hframe rfl huuid).1 hkept
  have hdropped := (request_forwarded_iff hblank rfl huuid).2 rfl
  exact ⟨⟨hforwarded.1, hforwarded.2.1⟩, hdropped.1, hdropped.2.1⟩

end FigmaDevMcp.Plugin

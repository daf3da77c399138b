import FigmaDevMcp.Main.Runs
import FigmaDevMcp.Main.Session

set_option autoImplicit false

/-!
# What holds between the two sides

* `Parts`: what holds of either side;
* `Joined`: every request has a run or is on the way to one, each under an id of its own, and no
  cancel overtakes the request it is about;
* `Wired`: the two together, and what keeps them.
-/

namespace FigmaDevMcp.Plugin

open JsValue

variable {Result : Type}

/-! ## Listening -/

/-- The transport listens until it is stopped. -/
def Listens (t : Transport Result) : Prop := t.stopped = false → t.listening = true

theorem Listens.same {t t' : Transport Result} (h : Listens t) (hstopped : t'.stopped = t.stopped)
    (hlistening : t'.listening = t.listening) : Listens t' := by
  intro hrun
  rw [hlistening]
  exact h (hstopped ▸ hrun)

theorem listening_scheduleReconnect (t : Transport Result) :
    t.scheduleReconnect.listening = t.listening ∧ t.scheduleReconnect.stopped = t.stopped := by
  unfold Transport.scheduleReconnect
  split_ifs <;> exact ⟨rfl, rfl⟩

theorem listening_accept (t : Transport Result) (g : ℕ) :
    (t.accept g).listening = t.listening ∧ (t.accept g).stopped = t.stopped := by
  unfold Transport.accept
  split_ifs <;> exact ⟨rfl, rfl⟩

theorem listening_receiveFrame (t : Transport Result) (g : ℕ) (uuid : JsString)
    (message : BrokerToPlugin) : (t.receiveFrame g uuid message).listening = t.listening := by
  cases message with
  | request r =>
      show (t.receiveRequest g r uuid).listening = _
      unfold Transport.receiveRequest
      split <;> rfl
  | cancel requestId =>
      show (t.receiveCancel g requestId).listening = _
      unfold Transport.receiveCancel
      split
      · rfl
      · split <;> rfl
  | ping nonce => rfl

theorem listening_receiveController (t : Transport Result) (uuid : JsString)
    (message : ControllerOutboundMessage Result) :
    (t.receiveController uuid message).listening = t.listening := by
  have howner : ∀ k terminal (f : JsString → PluginToBroker Result),
      (t.sendToOwner k terminal f).listening = t.listening := by
    intro k terminal f
    unfold Transport.sendToOwner
    split
    · rfl
    · split <;> rfl
  cases message with
  | controllerReady ready =>
      show (t.receiveReady ready uuid).listening = _
      unfold Transport.receiveReady Transport.sendHello
      split
      · rfl
      · split_ifs
        · split <;> rfl
        · rfl
  | progress k _ _ | response k _ _ | error k _ _ =>
      rw [Transport.receiveController]
      exact howner _ _ _

theorem Listens.step {t : Transport Result} (h : Listens t) (event : Event Result) :
    Listens (t.step event) := by
  cases event with
  | opened g =>
      show Listens (Transport.onOpen _ _)
      unfold Transport.onOpen
      split
      · exact h.same rfl rfl
      · exact h.same rfl rfl
  | message g data uuid =>
      show Listens (Transport.onMessage _ _ _ _)
      unfold Transport.onMessage
      split
      · exact h
      · rename_i message _
        have haccept := listening_accept (t.act (.received g message)) g
        exact h.same ((apart_receiveFrame _ g uuid message).1.stopped.trans haccept.2)
          ((listening_receiveFrame _ g uuid message).trans haccept.1)
  | controller message uuid =>
      rw [Transport.step]
      split_ifs
      · exact h.same (apart_receiveController (t.act (.fromController message)) uuid message).1.stopped
          (listening_receiveController _ uuid message)
      · exact h
  | failed g => exact h.same rfl rfl
  | closed g =>
      rw [Transport.step]
      split_ifs
      · unfold Transport.onClose
        dsimp only
        split_ifs
        · refine h.same ?_ ?_
          · exact (listening_scheduleReconnect _).2
          · exact (listening_scheduleReconnect _).1
        · exact h.same rfl rfl
      · exact h
  | timer timer uuid constructs =>
      rw [Transport.step, Transport.onTimer]
      split_ifs
      · unfold Transport.connect
        split_ifs
        · exact h.same rfl rfl
        · exact h.same rfl rfl
        · exact h.same (listening_scheduleReconnect _).2 (listening_scheduleReconnect _).1
      · exact h
  | stop =>
      show Listens ((t.act .stopped).retire.closeActive t.active)
      cases t.active with
      | none => exact fun hrun => absurd hrun Bool.noConfusion
      | some g => exact fun hrun => absurd hrun Bool.noConfusion

/-! ## Either side -/

namespace Session

/-- What holds of either side. -/
structure Parts (s : Session Result) : Prop where
  owned : Owned s.ui
  connected : Connected s.ui
  listens : Listens s.ui
  addressed : s.ui.Addressed
  begun : ∀ e ∈ s.ui.requestOwners.entries,
    ∃ x : ReadyState, s.ui.readyStates[e.2.generation]? = some x ∧ 1 ≤ x.rank
  kept : s.main.Kept
  registered : ∀ r ∈ s.main.runs, r.registered = true

theorem readyStates_of_isActiveOpen {t : Transport Result} {g : ℕ} (h : t.isActiveOpen g = true) :
    t.readyStates[g]? = some .opened := by
  simp only [Transport.isActiveOpen, Transport.meets, Bool.and_eq_true] at h
  obtain ⟨generation, hgeneration, hopen⟩ := (Option.any_eq_true _ _).1 h.2
  rw [Transport.readyStates, List.getElem?_map, hgeneration, Option.map_some, of_decide_eq_true hopen]

/-- The owners after an event are those before it, and the one that it registers. -/
theorem mem_owners_effect {event : Plugin.Event Result} {t t' : Transport Result}
    {news : List ControllerMessage} (h : Effect event t t' news) {e : JsString × RequestOwner}
    (he : e ∈ t'.requestOwners.entries) :
    e ∈ t.requestOwners.entries ∨ ∃ r, .bound (.request e.1 r) ∈ news ∧
      e.2.brokerRequestId = r.requestId ∧ Plugin.Addressed e.1 r.requestId ∧
      t.isActiveOpen e.2.generation = true := by
  cases h with
  | idle howners | asks howners => exact Or.inl (howners ▸ he)
  | issues hevent huuid hparsed hblank hopen howners =>
      rw [howners] at he
      rcases JsMap.mem_set.1 he with rfl | ⟨he, -⟩
      · exact Or.inr ⟨_, List.mem_singleton.2 rfl, rfl, ⟨parseUuid_idem huuid, hparsed.requestId⟩, hopen⟩
      · exact Or.inl he
  | cancels p howners =>
      rw [howners] at he
      exact Or.inl (JsMap.mem_deleteWhere.1 he).1

variable {s : Session Result}

theorem Parts.ui (h : s.Parts) {event : Plugin.Event Result} {later : List (Action Result)}
    (houtcome : Outcome event s.ui (s.ui.step event) later) : (s.update (s.ui.step event)).Parts where
  owned := h.owned.step event
  connected := h.connected.step event
  listens := h.listens.step event
  addressed := by
    intro e he
    rcases mem_owners_effect houtcome.effect he with he | ⟨r, -, hid, haddressed, -⟩
    · exact h.addressed e he
    · exact hid ▸ haddressed
  begun := by
    intro e he
    have hbegun : ∃ x : ReadyState, s.ui.readyStates[e.2.generation]? = some x ∧ 1 ≤ x.rank := by
      rcases mem_owners_effect houtcome.effect he with he | ⟨r, -, -, -, hopen⟩
      · exact h.begun e he
      · exact ⟨.opened, readyStates_of_isActiveOpen hopen, le_rfl⟩
    obtain ⟨x, hx, hrank⟩ := hbegun
    obtain ⟨y, hy, hxy⟩ := forward_step s.ui event _ x hx
    exact ⟨y, hy, hrank.trans hxy⟩
  kept := h.kept
  registered := h.registered

theorem Parts.relay (h : s.Parts) {uuid : JsString} {m : ControllerOutboundMessage Result}
    {sent : List (ℕ × PluginToBroker Result)}
    (hrelay : Relay s.ui (s.ui.step (.controller m uuid)) m sent) :
    (s.update (s.ui.step (.controller m uuid))).Parts := by
  have hsub : ∀ e ∈ (s.ui.step (.controller m uuid)).requestOwners.entries,
      e ∈ s.ui.requestOwners.entries := by
    intro e he
    rcases hrelay.owners with ⟨howners, -⟩ | ⟨k, -, howners⟩
    · exact howners ▸ he
    · rw [howners] at he
      exact (JsMap.mem_delete.1 he).1
  refine ⟨h.owned.step (.controller m uuid), h.connected.step (.controller m uuid),
    h.listens.step (.controller m uuid), fun e he => h.addressed e (hsub e he), fun e he => ?_, h.kept,
    h.registered⟩
  obtain ⟨x, hx, hrank⟩ := h.begun e (hsub e he)
  obtain ⟨y, hy, hxy⟩ := forward_step s.ui (.controller m uuid) _ x hx
  exact ⟨y, hy, hrank.trans hxy⟩

theorem Parts.dispatch (h : s.Parts) {event : Dispatcher.Event Result} (rest : List ControllerMessage)
    (hnew : ∀ e ∈ event.born, ∀ r ∈ s.main.runs, r.controllerRequestId ≠ e.1) :
    ({ s with toMain := rest }.dispatch event).Parts where
  owned := h.owned
  connected := h.connected
  listens := h.listens
  addressed := h.addressed
  begun := h.begun
  kept := h.kept.step event
  registered := Dispatcher.registered_step h.kept h.registered hnew

/-- Nothing but what is on the way changes. -/
theorem Parts.carry (h : s.Parts) {s' : Session Result} (hui : s'.ui = s.ui) (hmain : s'.main = s.main) :
    s'.Parts := by
  cases s'
  cases hui
  cases hmain
  exact ⟨h.owned, h.connected, h.listens, h.addressed, h.begun, h.kept, h.registered⟩

/-! ## What is on the way -/

/-- The requests on the way to the controller. -/
def waitingOf (messages : List ControllerMessage) : List (JsString × JsString) :=
  messages.filterMap fun
    | .bound (.request k r) => some (k, r.requestId)
    | _ => none

theorem waitingOf_append (messages messages' : List ControllerMessage) :
    waitingOf (messages ++ messages') = waitingOf messages ++ waitingOf messages' :=
  List.filterMap_append

theorem mem_waitingOf {messages : List ControllerMessage} {k : JsString} {r : Request}
    (h : .bound (.request k r) ∈ messages) : (k, r.requestId) ∈ waitingOf messages :=
  List.mem_filterMap.2 ⟨_, h, rfl⟩

theorem exists_of_mem_waitingOf {messages : List ControllerMessage} {e : JsString × JsString}
    (h : e ∈ waitingOf messages) : ∃ r, .bound (.request e.1 r) ∈ messages := by
  obtain ⟨message, hmessage, he⟩ := List.mem_filterMap.1 h
  cases message with
  | requestControllerReady id => cases he
  | bound m =>
      cases m with
      | cancel k id => cases he
      | request k r =>
          rw [← Option.some.inj he]
          exact ⟨r, hmessage⟩

/-- The requests that the controller has been sent: those that have a run, and those on the way. -/
def ids (s : Session Result) : List (JsString × JsString) :=
  s.main.runs.map Run.ids ++ waitingOf s.toMain

/-- What holds of the requests and the cancels. -/
structure Joined (s : Session Result) : Prop where
  parsed : ∀ m, .bound m ∈ s.toMain → parseControllerBoundMessage m.toJs = .ok m
  addressed : ∀ e ∈ s.ids, Plugin.Addressed e.1 e.2
  distinct : (s.ids.map Prod.fst).Nodup
  issued : ∀ e ∈ s.ids, e.1 ∈ issuedIds s.ui.history
  owners : ∀ e ∈ s.ui.requestOwners.entries, (e.1, e.2.brokerRequestId) ∈ s.ids
  cancels : ∀ i k id, s.toMain[i]? = some (.bound (.cancel k id)) →
    k ∈ (s.main.runs.map Run.ids ++ waitingOf (s.toMain.take i)).map Prod.fst

theorem mem_issuedIds {history : List (Action Result)} {k : JsString} {r : Request}
    (h : .toController (.bound (.request k r)) ∈ history) : k ∈ issuedIds history :=
  List.mem_filterMap.2 ⟨_, h, rfl⟩

theorem issuedIds_append (later history : List (Action Result)) :
    issuedIds (later ++ history) = issuedIds later ++ issuedIds history := List.filterMap_append

theorem mem_of_mem_messagesOf {later : List (Action Result)} {m : ControllerMessage}
    (h : m ∈ messagesOf later) : .toController m ∈ later := by
  obtain ⟨x, hx, hm⟩ := List.mem_filterMap.1 h
  cases x with
  | toController m' => exact Option.some.inj hm ▸ List.mem_reverse.1 hx
  | _ => cases hm

theorem toMain_update {ui : Transport Result} {later : List (Action Result)}
    (h : ui.history = later ++ s.ui.history) : (s.update ui).toMain = s.toMain ++ messagesOf later := by
  have hlength : ui.history.length - s.ui.history.length = later.length := by
    rw [h, List.length_append]
    exact Nat.add_sub_cancel _ _
  show s.toMain ++ messagesOf (ui.history.take _) = _
  rw [hlength, h, List.take_left]

/-- What an event sends: cancels of owners, or a request that is new. -/
theorem mem_news {event : Plugin.Event Result} {t t' : Transport Result} {news : List ControllerMessage}
    (h : Effect event t t' news) {m : ControllerBoundMessage} (hm : .bound m ∈ news) :
    (∃ e ∈ t.requestOwners.entries, m = .cancel e.1 e.2.brokerRequestId) ∨
      ∃ g data uuid k r, event = .message g data uuid ∧ parseUuid (.string uuid) = .ok k ∧
        ParsedRequest r ∧ ¬ BlankCursor r.operation ∧ m = .request k r := by
  cases h with
  | idle => cases hm
  | asks => cases List.mem_singleton.1 hm
  | issues hevent huuid hparsed hblank =>
      obtain rfl := ControllerMessage.bound.inj (List.mem_singleton.1 hm)
      exact Or.inr ⟨_, _, _, _, _, hevent, huuid, hparsed, hblank, rfl⟩
  | cancels p =>
      obtain ⟨e, he, heq⟩ := List.mem_map.1 hm
      exact Or.inl ⟨e, (List.mem_filter.1 he).1, (ControllerMessage.bound.inj heq).symm⟩

/-- At most one request is sent. -/
theorem waitingOf_news {event : Plugin.Event Result} {t t' : Transport Result}
    {news : List ControllerMessage} (h : Effect event t t' news) :
    (waitingOf news).length ≤ 1 := by
  cases h with
  | idle => exact Nat.zero_le 1
  | asks => exact Nat.zero_le 1
  | issues => exact le_rfl
  | cancels p =>
      have hnone : waitingOf ((t.requestOwners.entries.filter p).map cancelMessage) = [] := by
        refine List.filterMap_eq_nil_iff.2 fun m hm => ?_
        obtain ⟨e, -, rfl⟩ := List.mem_map.1 hm
        rfl
      rw [hnone]
      exact Nat.zero_le 1

theorem Joined.ui (h : s.Joined) (hparts : s.Parts) {event : Plugin.Event Result}
    {later : List (Action Result)} (houtcome : Outcome event s.ui (s.ui.step event) later)
    (hfresh : s.Fresh (.ui event)) : (s.update (s.ui.step event)).Joined := by
  have hmain : (s.update (s.ui.step event)).toMain = s.toMain ++ messagesOf later :=
    toMain_update houtcome.history
  have hids : (s.update (s.ui.step event)).ids = s.ids ++ waitingOf (messagesOf later) := by
    show s.main.runs.map Run.ids ++ waitingOf _ = _
    rw [hmain, waitingOf_append, ← List.append_assoc]
    rfl
  have hnews : ∀ e ∈ waitingOf (messagesOf later), Plugin.Addressed e.1 e.2 ∧
      e.1 ∉ issuedIds s.ui.history ∧ e.1 ∈ issuedIds (s.ui.step event).history := by
    intro e he
    obtain ⟨m, hm, heq⟩ := List.mem_filterMap.1 he
    obtain ⟨b, rfl⟩ : ∃ b, m = .bound b := by
      cases m with
      | bound b => exact ⟨b, rfl⟩
      | requestControllerReady id => cases heq
    rcases mem_news houtcome.effect hm with ⟨e', -, rfl⟩ | ⟨g, data, uuid, k, r, rfl, huuid, hparsed, -, rfl⟩
    · cases heq
    · rw [← Option.some.inj heq]
      refine ⟨⟨parseUuid_idem huuid, hparsed.requestId⟩, hfresh k huuid, ?_⟩
      rw [houtcome.history, issuedIds_append]
      exact List.mem_append_left _ (mem_issuedIds (mem_of_mem_messagesOf hm))
  constructor
  · intro m hm
    rw [hmain] at hm
    rcases List.mem_append.1 hm with hm | hm
    · exact h.parsed m hm
    · rcases mem_news houtcome.effect hm with ⟨e, he, rfl⟩ | ⟨_, _, _, k, r, -, huuid, hparsed, hblank, rfl⟩
      · exact parseControllerBoundMessage_cancel (hparts.addressed e he)
      · exact (parseControllerBoundMessage_eq_ok hparsed (parseUuid_idem huuid)).1 hblank
  · intro e he
    rw [hids] at he
    rcases List.mem_append.1 he with he | he
    · exact h.addressed e he
    · exact (hnews e he).1
  · rw [hids, List.map_append, List.nodup_append]
    refine ⟨h.distinct, ?_, ?_⟩
    · have hlength := waitingOf_news houtcome.effect
      cases hwaiting : waitingOf (messagesOf later) with
      | nil => exact List.nodup_nil
      | cons e rest =>
          rw [hwaiting] at hlength
          obtain rfl := List.eq_nil_of_length_eq_zero (Nat.le_zero.1 (Nat.le_of_succ_le_succ hlength))
          exact List.nodup_singleton _
    · rintro k hk k' hk' rfl
      obtain ⟨e, he, rfl⟩ := List.mem_map.1 hk
      obtain ⟨e', he', heq⟩ := List.mem_map.1 hk'
      exact (hnews e' he').2.1 (heq ▸ h.issued e he)
  · intro e he
    rw [hids] at he
    rcases List.mem_append.1 he with he | he
    · show e.1 ∈ issuedIds (s.ui.step event).history
      rw [houtcome.history, issuedIds_append]
      exact List.mem_append_right _ (h.issued e he)
    · exact (hnews e he).2.2
  · intro e he
    rw [hids]
    rcases mem_owners_effect houtcome.effect he with he | ⟨r, hr, hid, -⟩
    · exact List.mem_append_left _ (h.owners e he)
    · rw [hid]
      exact List.mem_append_right _ (mem_waitingOf hr)
  · intro i k id hi
    rw [hmain] at hi ⊢
    show k ∈ (s.main.runs.map Run.ids ++ waitingOf (List.take i (s.toMain ++ _))).map Prod.fst
    rcases Nat.lt_or_ge i s.toMain.length with hlt | hge
    · rw [List.getElem?_append_left hlt] at hi
      rw [List.take_append_of_le_length hlt.le]
      exact h.cancels i k id hi
    · rw [List.getElem?_append_right hge] at hi
      rcases mem_news houtcome.effect (List.mem_of_getElem? hi) with ⟨e, he, heq⟩ | ⟨_, _, _, _, _, _, _, _, _, heq⟩
      · obtain ⟨rfl, rfl⟩ := ControllerBoundMessage.cancel.inj heq
        have hmem := h.owners e he
        rw [List.take_append, List.take_of_length_le hge, waitingOf_append, ← List.append_assoc,
          List.map_append]
        exact List.mem_append_left _ (List.mem_map.2 ⟨_, hmem, rfl⟩)
      · cases heq

/-- Nothing is sent for a message of the controller. -/
theorem messagesOf_relay {t t' : Transport Result} {m : ControllerOutboundMessage Result}
    {sent : List (ℕ × PluginToBroker Result)} (h : Relay t t' m sent) :
    ∃ later, t'.history = later ++ t.history ∧ messagesOf later = [] := by
  refine ⟨sent.map (fun p => .toBroker p.1 p.2) ++ [.fromController m], ?_, ?_⟩
  · rw [h.history, List.append_assoc]
    rfl
  · rw [messagesOf_append, messagesOf, messagesOf, List.append_eq_nil_iff]
    refine ⟨rfl, List.filterMap_eq_nil_iff.2 fun x hx => ?_⟩
    obtain ⟨p, -, rfl⟩ := List.mem_map.1 (List.mem_reverse.1 hx)
    rfl

theorem Joined.relay (h : s.Joined) {uuid : JsString} {m : ControllerOutboundMessage Result}
    {sent : List (ℕ × PluginToBroker Result)}
    (hrelay : Relay s.ui (s.ui.step (.controller m uuid)) m sent) :
    (s.update (s.ui.step (.controller m uuid))).Joined := by
  obtain ⟨later, hlater, hnone⟩ := messagesOf_relay hrelay
  have hmain : (s.update (s.ui.step (.controller m uuid))).toMain = s.toMain := by
    rw [toMain_update hlater, hnone, List.append_nil]
  have hids : (s.update (s.ui.step (.controller m uuid))).ids = s.ids := by
    show s.main.runs.map Run.ids ++ waitingOf _ = _
    rw [hmain]
    rfl
  refine ⟨?_, ?_, ?_, fun e he => ?_, fun e he => ?_, ?_⟩
  · rw [hmain]
    exact h.parsed
  · rw [hids]
    exact h.addressed
  · rw [hids]
    exact h.distinct
  · rw [hids] at he
    show e.1 ∈ issuedIds (s.ui.step (.controller m uuid)).history
    rw [hlater, issuedIds_append]
    exact List.mem_append_right _ (h.issued e he)
  · rw [hids]
    rcases hrelay.owners with ⟨howners, -⟩ | ⟨k, -, howners⟩
    · exact h.owners e (howners ▸ he)
    · have he' : e ∈ (s.ui.step (.controller m uuid)).requestOwners.entries := he
      rw [howners] at he'
      exact h.owners e (JsMap.mem_delete.1 he').1
  · rw [hmain]
    exact h.cancels

/-- **A message that is taken**: a request has a run then. -/
theorem Joined.take (h : s.Joined) {s' : Session Result} (taken : Option ControllerMessage)
    (hui : s'.ui = s.ui) (hmain : s.toMain = taken.toList ++ s'.toMain)
    (hruns : s'.main.runs.map Run.ids = s.main.runs.map Run.ids ++ waitingOf taken.toList) :
    s'.Joined := by
  have hids : s'.ids = s.ids := by
    rw [ids, ids, hmain, hruns, waitingOf_append, List.append_assoc]
  refine ⟨fun m hm => h.parsed m ?_, ?_, ?_, ?_, ?_, fun i k id hi => ?_⟩
  · rw [hmain]
    exact List.mem_append_right _ hm
  · rw [hids]
    exact h.addressed
  · rw [hids]
    exact h.distinct
  · rw [hids, hui]
    exact h.issued
  · rw [hids, hui]
    exact h.owners
  · have hcancel := h.cancels (taken.toList.length + i) k id ?_
    · rw [hmain, List.take_append, List.take_of_length_le (Nat.le_add_right _ _),
        Nat.add_sub_cancel_left, waitingOf_append, ← List.append_assoc, ← hruns] at hcancel
      exact hcancel
    · rw [hmain, List.getElem?_append_right (Nat.le_add_right _ _), Nat.add_sub_cancel_left]
      exact hi

theorem toUi_dispatch {event : Dispatcher.Event Result} (rest : List ControllerMessage)
    {new : List (ℕ × ControllerOutboundMessage Result)}
    (h : (s.main.step event).answers = new ++ s.main.answers) :
    ({ s with toMain := rest }.dispatch event).toUi = s.toUi ++ (new.map Prod.snd).reverse := by
  have hlength : (s.main.step event).answers.length - s.main.answers.length = new.length := by
    rw [h, List.length_append]
    exact Nat.add_sub_cancel _ _
  show s.toUi ++ (((s.main.step event).answers.take _).map Prod.snd).reverse = _
  rw [hlength, h, List.take_left]

end Session

end FigmaDevMcp.Plugin

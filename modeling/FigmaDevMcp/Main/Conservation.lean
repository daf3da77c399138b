import FigmaDevMcp.Main.Accounts

set_option autoImplicit false

/-!
# No request is lost in the plugin

* `Wired`: what holds of the plugin as a whole, and `Wired.step`: whatever happens keeps it;
* `wired_run`: every run does in which ids are new;
* **`requests_conserved`**: where a request is that the broker still waits for;
* **`reads_wanted`**: no read goes on that nobody waits for;
* **`answers_faithful`**: what the broker is told is what the read of its request came to.
-/

namespace FigmaDevMcp.Plugin

open JsValue History

variable {Result : Type}

/-! ## Messages that are told apart -/

theorem parseControllerMetadataRequest_bound (m : ControllerBoundMessage) :
    ∃ e, parseControllerMetadataRequest m.toJs = .error e := by
  have htype : m.toJs.field "type" = FigmaDevMcp.word "request" ∨
      m.toJs.field "type" = FigmaDevMcp.word "cancel" := by
    cases m with
    | request k r => exact Or.inl (field_eq (by simp [lookup_append, lookup_member]))
    | cancel k id => exact Or.inr (field_eq (by simp [lookup_append, lookup_member]))
  rw [parseControllerMetadataRequest]
  cases hexact : exact m.toJs (text "controller metadata request") ["type", "metadataRequestId"] with
  | error e => exact ⟨e, rfl⟩
  | ok object =>
      obtain rfl := exact_eq_ok hexact
      have hword : isWord (m.toJs.field "type") "requestControllerReady" = false := by
        rcases htype with htype | htype <;> rw [htype] <;> decide
      rw [Guard.ok_bind, hword, if_neg Bool.false_ne_true]
      exact ⟨_, rfl⟩

theorem parseControllerBoundMessage_metadata (id : JsString) :
    ∃ e, parseControllerBoundMessage (ControllerMessage.requestControllerReady id).toJs = .error e := by
  rw [ControllerMessage.toJs]
  generalize hmembers : member "type" (FigmaDevMcp.word "requestControllerReady") ++
    member "metadataRequestId" (.string id) = members
  have htype : lookup (text "type") members = some (FigmaDevMcp.word "requestControllerReady") := by
    simp [← hmembers, lookup_append, lookup_member]
  unfold parseControllerBoundMessage
  simp only [record, Guard.ok_bind, field_eq htype, isWord_word]
  rw [if_neg (by decide), if_neg (by decide)]
  exact ⟨_, rfl⟩

/-! ## Steps -/

section

variable (parseReadResult : JsValue → Parsed Result) (print : Result → JsValue)

/-- What holds of the plugin as a whole. -/
structure Wired (s : Session Result) : Prop where
  parts : s.Parts
  joined : s.Joined
  accounts : Accounts parseReadResult print s

end

section

variable {parseReadResult : JsValue → Parsed Result} {print : Result → JsValue} {s : Session Result}

theorem Wired.ui (h : Wired parseReadResult print s) {event : Event Result}
    (hevent : ∀ message uuid, event ≠ .controller message uuid) (hfresh : s.Fresh (.ui event)) :
    Wired parseReadResult print (s.update (s.ui.step event)) := by
  obtain ⟨later, houtcome⟩ := exists_outcome_step h.parts.addressed event hevent
  exact ⟨h.parts.ui houtcome, h.joined.ui h.parts houtcome hfresh, h.accounts.ui houtcome⟩

/-- **A message that the dispatcher is given**, or an event of its own. -/
theorem Wired.dispatch (h : Wired parseReadResult print s) (taken : Option ControllerMessage)
    {rest : List ControllerMessage} (hmain : s.toMain = taken.toList ++ rest)
    {event : Dispatcher.Event Result} (hborn : Session.waitingOf taken.toList = event.born)
    (hcancel : ∀ k id, taken = some (.bound (.cancel k id)) → event = .cancel k) :
    Wired parseReadResult print ({ s with toMain := rest }.dispatch event) := by
  refine ⟨h.parts.dispatch rest fun e he r hr => ?_, h.joined.take taken rfl hmain ?_,
    h.accounts.dispatch h.parts h.joined hmain hborn hcancel⟩
  · rw [← hborn] at he
    obtain ⟨w, hw⟩ := Session.exists_of_mem_waitingOf he
    refine ne_of_waiting h.joined hr (w := w) ?_
    rw [hmain]
    exact List.mem_append_left _ hw
  · rw [hborn]
    exact s.main.ids_step event

/-- A message of the host, and one that is about no request. -/
theorem Wired.carry (h : Wired parseReadResult print s) (taken : Option ControllerMessage)
    {rest : List ControllerMessage} (hmain : s.toMain = taken.toList ++ rest)
    (htaken : ∀ m, taken ≠ some (.bound m)) {posted : List (ControllerOutboundMessage Result)}
    (hposted : ∀ m ∈ posted, m.ends = none) :
    Wired parseReadResult print { s with toMain := rest, toUi := s.toUi ++ posted } := by
  have hwaiting : Session.waitingOf taken.toList = [] := by
    refine List.filterMap_eq_nil_iff.2 fun m hm => ?_
    cases m with
    | requestControllerReady id => rfl
    | bound m => exact absurd (Option.mem_toList.1 hm) (htaken m)
  refine ⟨h.parts.carry rfl rfl, h.joined.take taken rfl hmain ?_, ?_⟩
  · rw [hwaiting]
    exact (List.append_nil _).symm
  · refine h.accounts.carry rfl rfl (fun m hm => ?_) (fun m hm => ?_) (fun m hm => ?_) fun m hm => ?_
    · rw [hmain]
      exact List.mem_append_right _ hm
    · rw [hmain] at hm
      rcases List.mem_append.1 hm with hm | hm
      · exact absurd (Option.mem_toList.1 hm) (htaken m)
      · exact hm
    · exact List.mem_append_left _ hm
    · exact (List.mem_append.1 hm).imp_right (hposted m)

theorem Wired.onmessage (h : Wired parseReadResult print s) {message : ControllerMessage}
    {rest : List ControllerMessage} (hmain : s.toMain = message :: rest) (host : ControllerReady)
    (prepared : Bool) :
    Wired parseReadResult print ({ s with toMain := rest }.onmessage host prepared message.toJs) := by
  cases message with
  | requestControllerReady id =>
      have hcarry : ∀ posted : List (ControllerOutboundMessage Result), (∀ m ∈ posted, m.ends = none) →
          Wired parseReadResult print { s with toMain := rest, toUi := s.toUi ++ posted } := by
        intro posted hposted
        exact h.carry (some (.requestControllerReady id)) hmain (fun m hm => by cases hm) hposted
      unfold Session.onmessage
      split
      · refine hcarry [_] fun m hm => ?_
        rw [List.mem_singleton.1 hm]
        rfl
      · obtain ⟨e, he⟩ := parseControllerBoundMessage_metadata id
        rw [he]
        have hnone := hcarry [] (List.forall_mem_nil _)
        rw [List.append_nil] at hnone
        exact hnone
  | bound m =>
      obtain ⟨e, he⟩ := parseControllerMetadataRequest_bound m
      have hparsed := h.joined.parsed m (hmain ▸ List.mem_cons_self)
      unfold Session.onmessage
      rw [show (ControllerMessage.bound m).toJs = m.toJs from rfl, he, hparsed]
      cases m with
      | request k r =>
          exact h.dispatch (some (.bound (.request k r))) hmain rfl fun k' id heq => by
            cases heq
      | cancel k id =>
          refine h.dispatch (some (.bound (.cancel k id))) hmain rfl fun k' id' heq => ?_
          cases heq
          rfl

theorem Wired.onControllerMessage (h : Wired parseReadResult print s)
    {message : ControllerOutboundMessage Result} {rest : List (ControllerOutboundMessage Result)}
    (htoUi : s.toUi = message :: rest) (uuid : JsString) :
    Wired parseReadResult print
      ({ s with toUi := rest }.onControllerMessage parseReadResult print uuid message) := by
  unfold Session.onControllerMessage
  cases hparse : parseControllerOutboundMessage parseReadResult (message.toJs print) with
  | error e =>
      exact ⟨h.parts.carry rfl rfl, h.joined.take none rfl rfl (List.append_nil _).symm,
        h.accounts.refuse h.joined htoUi hparse⟩
  | ok m =>
      cases hlistening : s.ui.listening with
      | true =>
          obtain ⟨sent, hrelay⟩ := exists_relay_step (m := m) hlistening uuid
          exact ⟨(h.parts.relay hrelay).carry rfl rfl, (h.joined.relay hrelay).take none rfl rfl
            (List.append_nil _).symm, h.accounts.relay h.parts h.joined htoUi hparse hrelay⟩
      | false =>
          -- A transport that does not listen has been stopped, and has no owners.
          have hstep : s.ui.step (.controller m uuid) = s.ui := by
            rw [Transport.step, hlistening, if_neg Bool.false_ne_true]
          have hsame : ({ s with toUi := rest }.update (s.ui.step (.controller m uuid))) =
              { s with toUi := rest } := by
            have hupdate : ({ s with toUi := rest }.update s.ui).toMain = s.toMain :=
              (@Session.toMain_update _ { s with toUi := rest } s.ui [] rfl).trans (List.append_nil _)
            rw [hstep]
            show ({ ui := s.ui, toMain := _, main := s.main, toUi := rest } : Session Result) = _
            exact congrArg (fun toMain => ({ s with toMain, toUi := rest } : Session Result)) hupdate
          have hnone : ∀ e, e ∉ s.ui.requestOwners.entries := by
            intro e he
            have hactive := h.parts.owned.active e he
            cases hstopped : s.ui.stopped with
            | true =>
                rw [(h.parts.connected.stopped hstopped).1] at hactive
                cases hactive
            | false =>
                have htrue := h.parts.listens hstopped
                rw [hlistening] at htrue
                cases htrue
          show Wired parseReadResult print
            ({ s with toUi := rest }.update (s.ui.step (.controller m uuid)))
          rw [hsame]
          refine ⟨h.parts.carry rfl rfl, h.joined.take none rfl rfl (List.append_nil _).symm,
            fun e he => absurd he (hnone e), h.accounts.runs, h.accounts.waiting, fun m' hm' => ?_,
            h.accounts.faithful⟩
          exact h.accounts.replies m' (htoUi ▸ List.mem_cons_of_mem _ hm')

/-- **Whatever happens** keeps it. -/
theorem Wired.step (h : Wired parseReadResult print s) {event : Session.Event Result}
    (hfresh : s.Fresh event) : Wired parseReadResult print (s.step parseReadResult print event) := by
  cases event with
  | ui event =>
      cases event with
      | controller message uuid => exact h
      | _ => exact h.ui (fun message uuid heq => by cases heq) hfresh
  | takeMain host prepared =>
      rw [Session.step]
      cases hmain : s.toMain with
      | nil => exact h
      | cons message rest => exact h.onmessage hmain host prepared
  | settle n outcome => exact h.dispatch none rfl rfl fun k id heq => by cases heq
  | resume n => exact h.dispatch none rfl rfl fun k id heq => by cases heq
  | tick n progress =>
      rw [Session.step]
      cases hr : s.main.runs[n]? with
      | none => exact h
      | some r =>
          refine h.carry none rfl (fun m hm => by cases hm) fun m hm => ?_
          rw [List.mem_singleton.1 hm]
          rfl
  | takeUi uuid =>
      rw [Session.step]
      cases htoUi : s.toUi with
      | nil => exact h
      | cons message rest => exact h.onControllerMessage htoUi uuid

/-! ## Runs -/

theorem start_empty (uuid : JsString) (constructs : Bool) :
    let t := (startSocketTransport uuid constructs : Transport Result)
    t.requestOwners.entries = [] ∧ Listens t ∧ ∀ x ∈ t.history, x.Plain := by
  show ((({} : Transport Result).connect uuid constructs)).requestOwners.entries = [] ∧ _
  cases constructs with
  | true => exact ⟨rfl, fun _ => rfl, List.forall_mem_nil _⟩
  | false => exact ⟨rfl, fun _ => rfl, plain_singleton ⟨rfl, id⟩⟩

theorem wired_start (uuid : JsString) (constructs : Bool) :
    Wired parseReadResult print (Session.start uuid constructs) := by
  obtain ⟨howners, hlistens, hplain⟩ := @start_empty Result uuid constructs
  have hnone : ∀ e, e ∉ (startSocketTransport uuid constructs : Transport Result).requestOwners.entries := by
    intro e he
    rw [howners] at he
    cases he
  refine ⟨⟨owned_run uuid constructs [], connected_run uuid constructs [], hlistens,
    fun e he => absurd he (hnone e), fun e he => absurd he (hnone e), Dispatcher.kept_run [],
    List.forall_mem_nil _⟩, ⟨fun m hm => ?_, List.forall_mem_nil _, List.nodup_nil,
    List.forall_mem_nil _, fun e he => absurd he (hnone e), fun i k id hi => ?_⟩,
    ⟨fun e he => absurd he (hnone e), List.forall_mem_nil _, fun k r hr => ?_, List.forall_mem_nil _, ?_⟩⟩
  · cases hm
  · cases hi
  · cases hr
  · have horderly : Orderly (Faithful parseReadResult print ({} : Dispatcher Result)) [] := trivial
    rw [show (Session.start uuid constructs : Session Result).ui.history =
      (startSocketTransport uuid constructs).history ++ [] from (List.append_nil _).symm]
    refine horderly.append fun x hx earlier => ?_
    cases x with
    | toBroker g message =>
        intro requestId hid
        refine absurd ?_ (hplain _ hx).2
        show message.about ≠ none
        rw [hid]
        exact Option.some_ne_none requestId
    | _ => trivial

/-- **Every run** in which no two requests are given one id. -/
theorem wired_run {uuid : JsString} {constructs : Bool} {events : List (Session.Event Result)}
    (hfresh : Session.FreshRun parseReadResult print (Session.start uuid constructs) events) :
    Wired parseReadResult print
      ((Session.start uuid constructs).run parseReadResult print events) := by
  have hstart : Wired parseReadResult print (Session.start uuid constructs) := wired_start uuid constructs
  rw [Session.run]
  generalize Session.start uuid constructs = s at hstart hfresh ⊢
  induction events generalizing s with
  | nil => exact hstart
  | cons event events ih => exact ih _ (hstart.step hfresh.1) hfresh.2

/-! ## What an answer was -/

theorem parsed_response {r : Run Result} (h : Addressed r.controllerRequestId r.requestId)
    {outcome : Except Thrown Result} {k id : JsString} {result : Result}
    (hparse : parseControllerOutboundMessage parseReadResult ((r.answer outcome).toJs print) =
      .ok (.response k id result)) :
    ∃ result', outcome = .ok result' ∧ parseReadResult (print result') = .ok result := by
  cases outcome with
  | ok result' =>
      rw [Run.answer, parseControllerOutboundMessage_response parseReadResult print h] at hparse
      obtain ⟨parsed, hparsed, heq⟩ := Guard.map_eq_ok.1 hparse
      obtain ⟨-, -, rfl⟩ := ControllerOutboundMessage.response.inj heq
      exact ⟨result', rfl, hparsed⟩
  | error thrown =>
      rw [parse_failure h thrown] at hparse
      cases hparse

theorem parsed_error {r : Run Result} (h : Addressed r.controllerRequestId r.requestId)
    {outcome : Except Thrown Result} {k id : JsString} {failure : PluginFailure}
    (hparse : parseControllerOutboundMessage parseReadResult ((r.answer outcome).toJs print) =
      .ok (.error k id failure)) :
    ∃ thrown, outcome = .error thrown ∧ failure = requestBoundaryFailure thrown := by
  cases outcome with
  | ok result' =>
      rw [Run.answer, parseControllerOutboundMessage_response parseReadResult print h] at hparse
      obtain ⟨parsed, -, heq⟩ := Guard.map_eq_ok.1 hparse
      cases heq
  | error thrown =>
      rw [parse_failure h thrown] at hparse
      obtain ⟨-, -, rfl⟩ := ControllerOutboundMessage.error.inj (Except.ok.inj hparse)
      exact ⟨thrown, rfl, rfl⟩

end

/-! ## The laws -/

section

variable (parseReadResult : JsValue → Parsed Result) (print : Result → JsValue)

/-- The read of a request has returned a result that the user interface refuses. -/
def ResultRefused (s : Session Result) (k : JsString) : Prop :=
  ∃ r ∈ s.main.runs, r.controllerRequestId = k ∧ ∃ result, r.outcome = some (.ok result) ∧
    ∀ parsed, parseReadResult (print result) ≠ .ok parsed

/-- The socket is closing, or has closed. -/
def Ending (s : Session Result) (g : ℕ) : Prop :=
  ∃ x : ReadyState, s.ui.readyStates[g]? = some x ∧ 2 ≤ x.rank

variable {uuid : JsString} {constructs : Bool} {events : List (Session.Event Result)}

/-- **No request is lost in the plugin.** One that the broker has not heard of yet is on its way to
the controller, or is read there, or its answer is on the way back. Otherwise its socket is closing,
or its read has returned a result that the user interface refuses: nobody is told then. -/
theorem requests_conserved
    (hfresh : Session.FreshRun parseReadResult print (Session.start uuid constructs) events) :
    let s := (Session.start uuid constructs).run parseReadResult print events
    (∀ e ∈ s.ui.requestOwners.entries, Accounted parseReadResult print s e) ∧
    (s.toMain = [] → s.toUi = [] → (∀ r ∈ s.main.runs, r.answered = true) →
      ∀ e ∈ s.ui.requestOwners.entries,
        ResultRefused parseReadResult print s e.1 ∨ Ending s e.2.generation) := by
  intro s
  have h : Wired parseReadResult print s := wired_run hfresh
  refine ⟨h.accounts.owners, fun hmain hui hruns e he => ?_⟩
  cases h.accounts.owners e he with
  | waiting r hr =>
      rw [hmain] at hr
      cases hr
  | running r hr hk hopen => exact absurd (hopen.symm.trans (hruns r hr)) Bool.false_ne_true
  | returning m hm hends =>
      rw [hui] at hm
      cases hm
  | refused r hr hk hanswered result houtcome hrefused =>
      exact Or.inl ⟨r, hr, hk, result, houtcome, hrefused⟩
  | ending x hx hrank => exact Or.inr ⟨x, hx, hrank⟩

/-- **No read goes on that nobody waits for**, once the cancels have arrived: a read that is not
decided has an owner, or its cancel is on the way, and so has a request that is on the way. -/
theorem reads_wanted
    (hfresh : Session.FreshRun parseReadResult print (Session.start uuid constructs) events) :
    let s := (Session.start uuid constructs).run parseReadResult print events
    (∀ r ∈ s.main.runs, r.outcome = none → Wanted s r.controllerRequestId) ∧
    (∀ k r, .bound (.request k r) ∈ s.toMain → Wanted s k) ∧
    (s.toMain = [] → s.ui.active = none → ∀ r ∈ s.main.runs, r.outcome ≠ none) := by
  intro s
  have h : Wired parseReadResult print s := wired_run hfresh
  refine ⟨h.accounts.runs, h.accounts.waiting, fun hmain hactive r hr hnone => ?_⟩
  rcases h.accounts.runs r hr hnone with ⟨owner, howner⟩ | ⟨id, hid⟩
  · have hsome := h.parts.owned.active _ howner
    rw [hactive] at hsome
    cases hsome
  · rw [hmain] at hid
    cases hid

/-- **What the broker is told is what the read of its request came to.** A response that is sent on a
socket about a request has the result of the read that was begun for the request which came on that
socket under that id, as the user interface has parsed it, and an error has its failure. The request
has had neither an answer nor a cancel before. -/
theorem answers_faithful
    (hfresh : Session.FreshRun parseReadResult print (Session.start uuid constructs) events) :
    let s := (Session.start uuid constructs).run parseReadResult print events
    ∀ later g message earlier requestId,
      s.ui.history = later ++ .toBroker g message :: earlier → message.about = some requestId →
      ∃ m since k sent request before,
        earlier = .fromController m :: since ++
          .toController (.bound (.request k sent)) :: .received g (.request request) :: before ∧
        request.requestId = requestId ∧ m.about = some k ∧
        (∀ action ∈ since, ¬action.settles ⟨g, requestId⟩) ∧
        (∀ result, message = .response requestId result → ∃ r ∈ s.main.runs, r.ids = (k, requestId) ∧
          ∃ result', r.outcome = some (.ok result') ∧ parseReadResult (print result') = .ok result) ∧
        (∀ failure, message = .error requestId failure → ∃ r ∈ s.main.runs, r.ids = (k, requestId) ∧
          ∃ thrown, r.outcome = some (.error thrown) ∧ failure = requestBoundaryFailure thrown) := by
  intro s later g message earlier requestId hsplit habout
  have h : Wired parseReadResult print s := wired_run hfresh
  have hfits : Fits (.toBroker g message) earlier := (hsplit ▸ h.parts.owned.orderly).entry_fits
  have hfaithful : Faithful parseReadResult print s.main (.toBroker g message) earlier :=
    (hsplit ▸ h.accounts.faithful).entry_fits
  obtain ⟨k, m, rest, rfl, hreply, hlive⟩ := hfits requestId habout
  obtain ⟨since, opening, rfl, hissues, hsince⟩ := hlive.exists_opens
  obtain ⟨sent, request, before, rfl, hid⟩ := issues_iff.1 hissues
  obtain ⟨m', rest', heq, hrelayed, hends⟩ := hfaithful requestId habout
  obtain rfl := Action.fromController.inj (List.cons.inj heq).1
  have haddressed : ∀ r ∈ s.main.runs, Addressed r.controllerRequestId r.requestId := fun r hr =>
    h.joined.addressed r.ids (List.mem_append_left _ (List.mem_map.2 ⟨r, hr, rfl⟩))
  refine ⟨m, since, k, sent, request, before, rfl, hid, hreply, hsince, fun result hresult => ?_,
    fun failure hfailure => ?_⟩
  · subst hresult
    cases m with
    | response k' id result' =>
        obtain rfl := Option.some.inj hreply
        obtain ⟨-, rfl⟩ := PluginToBroker.response.inj (Option.some.inj hrelayed)
        obtain ⟨r, hr, hids, outcome, -, houtcome, hparse⟩ := hends k' rfl
        obtain ⟨result'', rfl, hparsed⟩ := parsed_response (haddressed r hr) hparse
        exact ⟨r, hr, hids, result'', houtcome, hparsed⟩
    | _ => cases hrelayed
  · subst hfailure
    cases m with
    | error k' id failure' =>
        obtain rfl := Option.some.inj hreply
        obtain ⟨-, rfl⟩ := PluginToBroker.error.inj (Option.some.inj hrelayed)
        obtain ⟨r, hr, hids, outcome, -, houtcome, hparse⟩ := hends k' rfl
        obtain ⟨thrown, rfl, hthrown⟩ := parsed_error (haddressed r hr) hparse
        exact ⟨r, hr, hids, thrown, houtcome, hthrown⟩
    | _ => cases hrelayed

end

/-! ## A run -/

/-- An id. -/
def firstUuid : JsString := text "01234567-89ab-4def-8123-456789abcdef"

/-- Another id. -/
def secondUuid : JsString := text "fedcba98-7654-4321-8fed-cba987654321"

/-- A host without capabilities. -/
def quietHost : ControllerReady where
  metadataRequestId := []
  fileName := text "F"
  currentPage := { id := text "0:1", name := text "P" }
  editorType := text "dev"
  pluginVersion := text "1"
  capabilities := ⟨false, false, false, false, false⟩

/-- A socket says hello, and a request comes and is taken. -/
def greeting : List (Session.Event Unit) :=
  [.ui (.opened 0), .takeMain quietHost true, .takeUi firstUuid,
    .ui (.message 0 (stringify (BrokerToPlugin.request
      { requestId := text "r", deadlineMs := 9, operation := .getMetadata {} }).toJs) secondUuid),
    .takeMain quietHost true]

/-- Its read returns a result, and that is posted and taken. -/
def answering : List (Session.Event Unit) := [.settle 0 (.ok ()), .resume 0, .takeUi firstUuid]

/-- A validator that accepts no result. -/
def refuseAll : JsValue → Parsed Unit := fun _ => .error []

/-- A validator that accepts every result. -/
def acceptAll : JsValue → Parsed Unit := fun _ => .ok ()

/-- The only result, as it is sent. -/
def printUnit : Unit → JsValue := fun _ => .null

/-- Nothing but a frame draws an id. -/
theorem freshRun_of_quiet {parser : JsValue → Parsed Unit} {events : List (Session.Event Unit)}
    (h : ∀ event ∈ events, ∀ s : Session Unit, s.Fresh event) (s : Session Unit) :
    Session.FreshRun parser printUnit s events := by
  induction events generalizing s with
  | nil => trivial
  | cons event events ih =>
      obtain ⟨hevent, hevents⟩ := List.forall_mem_cons.1 h
      exact ⟨hevent s, ih hevents _⟩

theorem freshRun_greeting {parser : JsValue → Parsed Unit}
    (hparser : parser = refuseAll ∨ parser = acceptAll) {later : List (Session.Event Unit)}
    (hlater : ∀ event ∈ later, ∀ s : Session Unit, s.Fresh event) :
    Session.FreshRun parser printUnit (Session.start firstUuid true) (greeting ++ later) := by
  refine ⟨trivial, trivial, trivial, fun k _ => ?_, trivial, freshRun_of_quiet hlater _⟩
  rcases hparser with rfl | rfl
  · exact List.eq_nil_iff_forall_not_mem.1 (by decide +kernel) k
  · exact List.eq_nil_iff_forall_not_mem.1 (by decide +kernel) k

theorem fresh_answering : ∀ event ∈ answering, ∀ s : Session Unit, s.Fresh event := by
  simp [answering, Session.Fresh]

theorem requests_conserved_refused :
    let s := (Session.start firstUuid true).run refuseAll printUnit (greeting ++ answering)
    s.ui.requestOwners.entries.length = 1 ∧
      ∀ e ∈ s.ui.requestOwners.entries,
        ResultRefused refuseAll printUnit s e.1 ∨ Ending s e.2.generation := by
  have hfresh := freshRun_greeting (Or.inl rfl) fresh_answering
  refine ⟨by decide +kernel, (requests_conserved refuseAll printUnit hfresh).2 ?_ ?_ ?_⟩
  · exact List.eq_nil_of_length_eq_zero (by decide +kernel)
  · exact List.eq_nil_of_length_eq_zero (by decide +kernel)
  · decide +kernel

theorem reads_wanted_closed :
    let s := (Session.start firstUuid true).run refuseAll printUnit
      (greeting ++ [.ui (.closed 0), .takeMain quietHost true])
    s.main.runs.length = 1 ∧ ∀ r ∈ s.main.runs, r.outcome ≠ none := by
  have hlater : ∀ event ∈ ([.ui (.closed 0), .takeMain quietHost true] : List (Session.Event Unit)),
      ∀ s : Session Unit, s.Fresh event := by
    simp [Session.Fresh]
  have hfresh := freshRun_greeting (Or.inl rfl) hlater
  refine ⟨by decide +kernel, (reads_wanted refuseAll printUnit hfresh).2.2 ?_ ?_⟩
  · exact List.eq_nil_of_length_eq_zero (by decide +kernel)
  · decide +kernel

/-- The response to the request of the greeting. -/
def isResponse : Action Unit → Bool
  | .toBroker 0 (.response requestId ()) => requestId = text "r"
  | _ => false

theorem eq_of_isResponse {x : Action Unit} (h : isResponse x = true) :
    x = .toBroker 0 (.response (text "r") ()) := by
  unfold isResponse at h
  split at h
  · rw [of_decide_eq_true h]
  · cases h

theorem answers_faithful_accepted :
    let s := (Session.start firstUuid true).run acceptAll printUnit (greeting ++ answering)
    ∃ r ∈ s.main.runs, r.requestId = text "r" ∧ r.outcome = some (.ok ()) := by
  have hlaw := answers_faithful acceptAll printUnit (freshRun_greeting (Or.inr rfl) fresh_answering)
  have hhead : ((Session.start firstUuid true).run acceptAll printUnit
      (greeting ++ answering)).ui.history.head?.any isResponse = true := by decide +kernel
  generalize (Session.start firstUuid true).run acceptAll printUnit (greeting ++ answering) = s
    at hlaw hhead ⊢
  obtain ⟨x, hx, hresponse⟩ := (Option.any_eq_true _ _).1 hhead
  obtain ⟨earlier, hhistory⟩ := List.head?_eq_some_iff.1 hx
  rw [eq_of_isResponse hresponse] at hhistory
  obtain ⟨m, since, k, sent, request, before, -, -, -, -, hanswer, -⟩ :=
    hlaw [] 0 (.response (text "r") ()) earlier (text "r") hhistory rfl
  obtain ⟨r, hr, hids, result, houtcome, -⟩ := hanswer () rfl
  exact ⟨r, hr, congrArg Prod.snd hids, houtcome⟩

end FigmaDevMcp.Plugin

import FigmaDevMcp.Main.Wired

set_option autoImplicit false

/-!
# Accounts of the requests

* `Accounted`: where a request is that has an owner;
* `Wanted`: a read that somebody waits for, or whose cancel is on the way;
* `Faithful`: what the broker is sent about a request, and the run it comes from;
* `Accounts`: all of them at once;
* `Accounts.ui`, `Accounts.dispatch`, `Accounts.carry`, `Accounts.relay`, `Accounts.refuse`: what
  each party does keeps them.
-/

namespace FigmaDevMcp.Plugin

open JsValue History

variable {Result : Type}

/-- The runs go on. -/
def Further (main main' : Dispatcher Result) : Prop :=
  ∀ r ∈ main.runs, ∃ r' ∈ main'.runs, r.Grows r'

theorem Further.refl (main : Dispatcher Result) : Further main main :=
  fun r hr => ⟨r, hr, Run.Grows.refl r⟩

theorem further_step (main : Dispatcher Result) (event : Dispatcher.Event Result) :
    Further main (main.step event) := by
  intro r hr
  obtain ⟨n, hn⟩ := List.mem_iff_getElem?.1 hr
  obtain ⟨r', hr', hgrows⟩ := main.grows_step event hn
  exact ⟨r', List.mem_of_getElem? hr', hgrows⟩

/-- The message is the answer of a run that has been answered. -/
def AnswerOf (main : Dispatcher Result) (m : ControllerOutboundMessage Result) : Prop :=
  ∃ r ∈ main.runs, ∃ outcome, r.answered = true ∧ r.outcome = some outcome ∧ m = r.answer outcome

theorem AnswerOf.further {main main' : Dispatcher Result} (hfurther : Further main main')
    {m : ControllerOutboundMessage Result} (h : AnswerOf main m) : AnswerOf main' m := by
  obtain ⟨r, hr, outcome, hanswered, houtcome, rfl⟩ := h
  obtain ⟨r', hr', hgrows⟩ := hfurther r hr
  exact ⟨r', hr', outcome, hgrows.answered hanswered, hgrows.outcome _ houtcome,
    (hgrows.answer outcome).symm⟩

theorem ends_answer (r : Run Result) (outcome : Except Thrown Result) :
    (r.answer outcome).ends = some r.controllerRequestId := by
  cases outcome <;> rfl

section

variable (parseReadResult : JsValue → Parsed Result) (print : Result → JsValue)

/-- Where a request is that has an owner. -/
inductive Accounted (s : Session Result) (e : JsString × RequestOwner) : Prop
  | waiting (r : Request) (hr : .bound (.request e.1 r) ∈ s.toMain) : Accounted s e
  | running (r : Run Result) (hr : r ∈ s.main.runs) (hk : r.controllerRequestId = e.1)
    (hopen : r.answered = false) : Accounted s e
  | returning (m : ControllerOutboundMessage Result) (hm : m ∈ s.toUi) (hends : m.ends = some e.1) :
    Accounted s e
  | refused (r : Run Result) (hr : r ∈ s.main.runs) (hk : r.controllerRequestId = e.1)
    (hanswered : r.answered = true) (result : Result) (houtcome : r.outcome = some (.ok result))
    (hparse : ∀ parsed, parseReadResult (print result) ≠ .ok parsed) : Accounted s e
  | ending (x : ReadyState) (hx : s.ui.readyStates[e.2.generation]? = some x) (hrank : 2 ≤ x.rank) :
    Accounted s e

/-- Somebody waits for a request, or its cancel is on the way. -/
def Wanted (s : Session Result) (k : JsString) : Prop :=
  (∃ owner, (k, owner) ∈ s.ui.requestOwners.entries) ∨ ∃ id, .bound (.cancel k id) ∈ s.toMain

/-- What the broker is sent about a request comes of a message of the controller; where it ends the
request, that is the answer of its run, as it was parsed. -/
def Faithful (main : Dispatcher Result) : Action Result → List (Action Result) → Prop
  | .toBroker _ message, earlier => ∀ requestId, message.about = some requestId →
    ∃ m rest, earlier = .fromController m :: rest ∧ m.relayed requestId = some message ∧
      ∀ k, m.ends = some k → ∃ r ∈ main.runs, r.ids = (k, requestId) ∧ ∃ outcome,
        r.answered = true ∧ r.outcome = some outcome ∧
        parseControllerOutboundMessage parseReadResult ((r.answer outcome).toJs print) = .ok m
  | _, _ => True

/-- What holds of the requests. -/
structure Accounts (s : Session Result) : Prop where
  owners : ∀ e ∈ s.ui.requestOwners.entries, Accounted parseReadResult print s e
  runs : ∀ r ∈ s.main.runs, r.outcome = none → Wanted s r.controllerRequestId
  waiting : ∀ k r, .bound (.request k r) ∈ s.toMain → Wanted s k
  replies : ∀ m ∈ s.toUi, ∀ k, m.ends = some k → AnswerOf s.main m
  faithful : Orderly (Faithful parseReadResult print s.main) s.ui.history

end

section

variable {parseReadResult : JsValue → Parsed Result} {print : Result → JsValue} {s s' : Session Result}

/-- A request stays accounted for while nothing of it is taken. -/
theorem Accounted.mono {e : JsString × RequestOwner} (h : Accounted parseReadResult print s e)
    (hmain : ∀ m ∈ s.toMain, m ∈ s'.toMain) (hruns : s'.main = s.main)
    (hui : ∀ m ∈ s.toUi, m ∈ s'.toUi) (hforward : Forward s.ui s'.ui) :
    Accounted parseReadResult print s' e := by
  cases h with
  | waiting r hr => exact .waiting r (hmain _ hr)
  | running r hr hk hopen => exact .running r (hruns ▸ hr) hk hopen
  | returning m hm hends => exact .returning m (hui m hm) hends
  | refused r hr hk hanswered result houtcome hparse =>
      exact .refused r (hruns ▸ hr) hk hanswered result houtcome hparse
  | ending x hx hrank =>
      obtain ⟨y, hy, hxy⟩ := hforward _ x hx
      exact .ending y hy (hrank.trans hxy)

theorem faithful_further {main main' : Dispatcher Result} (hfurther : Further main main')
    {history : List (Action Result)} (h : Orderly (Faithful parseReadResult print main) history) :
    Orderly (Faithful parseReadResult print main') history := by
  induction history with
  | nil => trivial
  | cons x earlier ih =>
      refine ⟨?_, ih h.2⟩
      cases x with
      | toBroker g message =>
          intro requestId hid
          obtain ⟨m, rest, hearlier, hrelayed, hends⟩ := h.1 requestId hid
          refine ⟨m, rest, hearlier, hrelayed, fun k hk => ?_⟩
          obtain ⟨r, hr, hids, outcome, hanswered, houtcome, hparse⟩ := hends k hk
          obtain ⟨r', hr', hgrows⟩ := hfurther r hr
          refine ⟨r', hr', hgrows.ids.trans hids, outcome, hgrows.answered hanswered,
            hgrows.outcome _ houtcome, ?_⟩
          rw [hgrows.answer]
          exact hparse
      | _ => trivial

/-! ## Events of the user interface -/

/-- An owner stays, or is removed and its request cancelled. -/
theorem owner_stays {event : Event Result} {t t' : Transport Result} {news : List ControllerMessage}
    (h : Effect event t t' news) {e : JsString × RequestOwner} (he : e ∈ t.requestOwners.entries) :
    (∃ owner, (e.1, owner) ∈ t'.requestOwners.entries) ∨ cancelMessage e ∈ news := by
  cases h with
  | idle howners | asks howners =>
      rw [howners]
      exact Or.inl ⟨e.2, he⟩
  | @issues g data uuid k r hevent huuid hparsed hblank hopen howners =>
      rw [howners]
      by_cases hk : e.1 = k
      · rw [hk]
        exact Or.inl ⟨_, JsMap.mem_set.2 (Or.inl rfl)⟩
      · exact Or.inl ⟨e.2, JsMap.mem_set.2 (Or.inr ⟨he, hk⟩)⟩
  | cancels p howners =>
      rw [howners]
      cases hp : p e with
      | true => exact Or.inr (List.mem_map.2 ⟨e, List.mem_filter.2 ⟨he, hp⟩, rfl⟩)
      | false => exact Or.inl ⟨e.2, JsMap.mem_deleteWhere.2 ⟨he, hp⟩⟩

/-- A request that is sent has an owner. -/
theorem owner_of_request {event : Event Result} {t t' : Transport Result}
    {news : List ControllerMessage} (h : Effect event t t' news) {k : JsString} {r : Request}
    (hr : .bound (.request k r) ∈ news) : ∃ owner, (k, owner) ∈ t'.requestOwners.entries := by
  cases h with
  | idle => cases hr
  | asks => cases List.mem_singleton.1 hr
  | issues hevent huuid hparsed hblank hopen howners =>
      obtain ⟨rfl, rfl⟩ := ControllerBoundMessage.request.inj
        (ControllerMessage.bound.inj (List.mem_singleton.1 hr))
      rw [howners]
      exact ⟨_, JsMap.mem_set.2 (Or.inl rfl)⟩
  | cancels p =>
      obtain ⟨e, -, heq⟩ := List.mem_map.1 hr
      cases heq

theorem Accounts.ui (h : Accounts parseReadResult print s) {event : Event Result}
    {later : List (Action Result)} (houtcome : Outcome event s.ui (s.ui.step event) later) :
    Accounts parseReadResult print (s.update (s.ui.step event)) := by
  have hmain : (s.update (s.ui.step event)).toMain = s.toMain ++ messagesOf later :=
    Session.toMain_update houtcome.history
  have hwanted : ∀ k, Wanted s k → Wanted (s.update (s.ui.step event)) k := by
    rintro k (⟨owner, howner⟩ | ⟨id, hid⟩)
    · rcases owner_stays houtcome.effect howner with howner | hcancel
      · exact Or.inl howner
      · refine Or.inr ⟨owner.brokerRequestId, ?_⟩
        rw [hmain]
        exact List.mem_append_right _ hcancel
    · refine Or.inr ⟨id, ?_⟩
      rw [hmain]
      exact List.mem_append_left _ hid
  refine ⟨fun e he => ?_, fun r hr hnone => hwanted _ (h.runs r hr hnone), fun k r hr => ?_,
    h.replies, ?_⟩
  · rcases Session.mem_owners_effect houtcome.effect he with he | ⟨r, hr, -⟩
    · refine (h.owners e he).mono (fun m hm => ?_) rfl (fun _ => id) (forward_step s.ui event)
      rw [hmain]
      exact List.mem_append_left _ hm
    · refine .waiting r ?_
      rw [hmain]
      exact List.mem_append_right _ hr
  · rw [hmain] at hr
    rcases List.mem_append.1 hr with hr | hr
    · exact hwanted k (h.waiting k r hr)
    · exact Or.inl (owner_of_request houtcome.effect hr)
  · show Orderly (Faithful parseReadResult print s.main) (s.ui.step event).history
    rw [houtcome.history]
    refine h.faithful.append fun x hx earlier => ?_
    cases x with
    | toBroker g message =>
        intro requestId hid
        refine absurd ?_ (houtcome.own _ hx)
        show message.about ≠ none
        rw [hid]
        exact Option.some_ne_none requestId
    | _ => trivial

/-! ## Messages that the controller takes -/

theorem ne_of_waiting (h : s.Joined) {r : Run Result} (hr : r ∈ s.main.runs) {k : JsString} {w : Request}
    (hw : .bound (.request k w) ∈ s.toMain) : r.controllerRequestId ≠ k := by
  have hdistinct := h.distinct
  rw [Session.ids, List.map_append, List.nodup_append] at hdistinct
  refine hdistinct.2.2 _ (List.mem_map.2 ⟨r.ids, List.mem_map.2 ⟨r, hr, rfl⟩, rfl⟩) _ ?_
  exact List.mem_map.2 ⟨_, Session.mem_waitingOf hw, rfl⟩

theorem run_unique (h : s.Joined) {r r' : Run Result} (hr : r ∈ s.main.runs) (hr' : r' ∈ s.main.runs)
    (hk : r.controllerRequestId = r'.controllerRequestId) : r = r' := by
  have hdistinct := h.distinct
  rw [Session.ids, List.map_append, List.nodup_append, List.map_map] at hdistinct
  exact List.inj_on_of_nodup_map hdistinct.1 hr hr' hk

/-- A run that the dispatcher has answered in this event has its answer posted. -/
theorem answered_or_posted (hparts : s.Parts) (event : Dispatcher.Event Result)
    (rest : List ControllerMessage) {n : ℕ} {r' : Run Result}
    (hr' : (s.main.step event).runs[n]? = some r') :
    r'.answered = false ∨ (∃ r, s.main.runs[n]? = some r ∧ r.answered = true) ∨
      ∃ m ∈ ({ s with toMain := rest }.dispatch event).toUi, m.ends = some r'.controllerRequestId := by
  cases hanswered : r'.answered with
  | false => exact Or.inl rfl
  | true =>
      by_cases hold : ∃ r, s.main.runs[n]? = some r ∧ r.answered = true
      · exact Or.inr (Or.inl hold)
      · obtain ⟨new, hnew⟩ := s.main.answers_step event
        have hkept := hparts.kept.step event
        obtain ⟨m, hm⟩ := hparts.kept.exists_new_answer hkept hnew hr' hanswered fun r hr =>
          Bool.eq_false_iff.2 fun hdone => hold ⟨r, hr, hdone⟩
        obtain ⟨r, outcome, hr, -, -, rfl⟩ := Dispatcher.Kept.new_answer hkept hnew hm
        obtain rfl := Option.some.inj (hr'.symm.trans hr)
        refine Or.inr (Or.inr ⟨_, ?_, ends_answer r' outcome⟩)
        rw [Session.toUi_dispatch rest hnew]
        exact List.mem_append_right _ (List.mem_reverse.2 (List.mem_map.2 ⟨_, hm, rfl⟩))

theorem Accounts.dispatch (h : Accounts parseReadResult print s) (hparts : s.Parts) (hjoined : s.Joined)
    {taken : Option ControllerMessage} {rest : List ControllerMessage}
    (hmain : s.toMain = taken.toList ++ rest) {event : Dispatcher.Event Result}
    (hborn : Session.waitingOf taken.toList = event.born)
    (hcancel : ∀ k id, taken = some (.bound (.cancel k id)) → event = .cancel k) :
    Accounts parseReadResult print ({ s with toMain := rest }.dispatch event) := by
  obtain ⟨new, hnew⟩ := s.main.answers_step event
  have hfurther := further_step s.main event
  have htoUi := Session.toUi_dispatch rest hnew
  have htaken : ∀ m ∈ s.toMain, taken = some m ∨ m ∈ rest := by
    intro m hm
    rw [hmain] at hm
    exact (List.mem_append.1 hm).imp_left Option.mem_toList.1
  have hrun : ∀ {n : ℕ} {r' : Run Result}, (s.main.step event).runs[n]? = some r' →
      (∃ r, s.main.runs[n]? = some r ∧ r.Grows r') ∨
        ∃ w, taken = some (.bound (.request r'.controllerRequestId w)) := by
    intro n r' hr'
    rcases Nat.lt_or_ge n s.main.runs.length with hlt | hge
    · have hr := List.getElem?_eq_getElem hlt
      obtain ⟨r'', hr'', hgrows⟩ := s.main.grows_step event hr
      obtain rfl := Option.some.inj (hr'.symm.trans hr'')
      exact Or.inl ⟨_, hr, hgrows⟩
    · have hids := congrArg (fun ids => ids[n]?) (s.main.ids_step event)
      rw [List.getElem?_map, hr', List.getElem?_append_right (by rwa [List.length_map]), ← hborn] at hids
      obtain ⟨w, hw⟩ := Session.exists_of_mem_waitingOf (List.mem_of_getElem? hids.symm)
      exact Or.inr ⟨w, Option.mem_toList.1 hw⟩
  -- What is wanted stays so, but for the run whose cancel is taken.
  have hwanted : ∀ k, Wanted s k → (∀ id, taken ≠ some (.bound (.cancel k id))) →
      Wanted ({ s with toMain := rest }.dispatch event) k := by
    rintro k (howner | ⟨id, hid⟩) hnone
    · exact Or.inl howner
    · exact Or.inr ⟨id, (htaken _ hid).resolve_left (hnone id)⟩
  refine ⟨fun e he => ?_, fun r' hr' hnone => ?_, fun k w hw => ?_, fun m hm k hk => ?_,
    faithful_further hfurther h.faithful⟩
  · cases h.owners e he with
    | waiting w hw =>
        rcases htaken _ hw with heq | hw'
        · -- The request has a run now, which either goes on or has been answered at once.
          have hmem : (e.1, w.requestId) ∈ (s.main.step event).runs.map Run.ids := by
            rw [s.main.ids_step, ← hborn, heq]
            exact List.mem_append_right _ (List.mem_singleton.2 rfl)
          obtain ⟨r', hr', hids⟩ := List.mem_map.1 hmem
          have hk : r'.controllerRequestId = e.1 := congrArg Prod.fst hids
          obtain ⟨n, hn⟩ := List.mem_iff_getElem?.1 hr'
          rcases answered_or_posted hparts event rest hn with hopen | ⟨r, hr, -⟩ | ⟨m, hm, hends⟩
          · exact .running r' hr' hk hopen
          · obtain ⟨r'', hr'', hgrows⟩ := s.main.grows_step event hr
            obtain rfl := Option.some.inj (hn.symm.trans hr'')
            exact absurd (hgrows.controllerRequestId.symm.trans hk)
              (ne_of_waiting hjoined (List.mem_of_getElem? hr) hw)
          · exact .returning m hm (hends.trans (congrArg some hk))
        · exact .waiting w hw'
    | running r hr hk hopen =>
        obtain ⟨n, hn⟩ := List.mem_iff_getElem?.1 hr
        obtain ⟨r', hr', hgrows⟩ := s.main.grows_step event hn
        have hk' : r'.controllerRequestId = e.1 := hgrows.controllerRequestId.trans hk
        rcases answered_or_posted hparts event rest hr' with hopen' | ⟨r'', hr'', hdone⟩ | ⟨m, hm, hends⟩
        · exact .running r' (List.mem_of_getElem? hr') hk' hopen'
        · obtain rfl := Option.some.inj (hn.symm.trans hr'')
          exact absurd (hopen.symm.trans hdone) Bool.false_ne_true
        · exact .returning m hm (hends.trans (congrArg some hk'))
    | returning m hm hends =>
        refine .returning m ?_ hends
        rw [htoUi]
        exact List.mem_append_left _ hm
    | refused r hr hk hanswered result houtcome hparse =>
        obtain ⟨r', hr', hgrows⟩ := hfurther r hr
        exact .refused r' hr' (hgrows.controllerRequestId.trans hk) (hgrows.answered hanswered) result
          (hgrows.outcome _ houtcome) hparse
    | ending x hx hrank => exact .ending x hx hrank
  · obtain ⟨n, hn⟩ := List.mem_iff_getElem?.1 hr'
    have hn' : (s.main.step event).runs[n]? = some r' := hn
    refine hwanted _ ?_ fun id heq => ?_
    · rcases hrun hn' with ⟨r, hr, hgrows⟩ | ⟨w, hw⟩
      · rw [hgrows.controllerRequestId]
        refine h.runs r (List.mem_of_getElem? hr) ?_
        by_contra hsome
        obtain ⟨outcome, houtcome⟩ := Option.ne_none_iff_exists'.1 hsome
        rw [hgrows.outcome outcome houtcome] at hnone
        cases hnone
      · refine h.waiting _ w ?_
        rw [hmain, hw]
        exact List.mem_cons_self
    · -- The cancel that is taken has decided the run.
      obtain rfl := hcancel _ id heq
      rcases hrun hn' with ⟨r, hr, hgrows⟩ | ⟨w, hw⟩
      · rw [hgrows.controllerRequestId] at hn'
        exact hparts.kept.outcome_cancel hr (hparts.registered r (List.mem_of_getElem? hr)) hn' hnone
      · rw [hw] at heq
        cases heq
  · have hw' : .bound (.request k w) ∈ s.toMain := by
      rw [hmain]
      exact List.mem_append_right _ hw
    refine hwanted k (h.waiting k w hw') fun id heq => ?_
    -- A cancel that is taken is that of a run.
    have hfirst : s.toMain[0]? = some (.bound (.cancel k id)) := by
      rw [hmain, heq]
      rfl
    have hmem := hjoined.cancels 0 k id hfirst
    rw [List.take_zero] at hmem
    obtain ⟨e, he, hk⟩ := List.mem_map.1 hmem
    rcases List.mem_append.1 he with he | he
    · obtain ⟨r, hr, rfl⟩ := List.mem_map.1 he
      exact ne_of_waiting hjoined hr hw' hk
    · cases he
  · rw [htoUi] at hm
    rcases List.mem_append.1 hm with hm | hm
    · exact (h.replies m hm k hk).further hfurther
    · obtain ⟨a, ha, rfl⟩ := List.mem_map.1 (List.mem_reverse.1 hm)
      obtain ⟨r, outcome, hr, hanswered, houtcome, heq⟩ :=
        Dispatcher.Kept.new_answer (hparts.kept.step event) hnew ha
      exact ⟨r, List.mem_of_getElem? hr, outcome, hanswered, houtcome, heq⟩

/-- Messages that are about no request come and go. -/
theorem Accounts.carry (h : Accounts parseReadResult print s) (hui : s'.ui = s.ui)
    (hmain : s'.main = s.main) (hsub : ∀ m ∈ s'.toMain, m ∈ s.toMain)
    (hbound : ∀ m, .bound m ∈ s.toMain → .bound m ∈ s'.toMain)
    (htoUi : ∀ m ∈ s.toUi, m ∈ s'.toUi) (hnew : ∀ m ∈ s'.toUi, m ∈ s.toUi ∨ m.ends = none) :
    Accounts parseReadResult print s' := by
  have hwanted : ∀ k, Wanted s k → Wanted s' k := by
    rintro k (howner | ⟨id, hid⟩)
    · exact Or.inl (hui ▸ howner)
    · exact Or.inr ⟨id, hbound _ hid⟩
  refine ⟨fun e he => ?_, fun r hr hnone => ?_, fun k r hr => hwanted k (h.waiting k r (hsub _ hr)),
    fun m hm k hk => ?_, ?_⟩
  · cases h.owners e (hui ▸ he) with
    | waiting r hr => exact .waiting r (hbound _ hr)
    | running r hr hk hopen => exact .running r (hmain ▸ hr) hk hopen
    | returning m hm hends => exact .returning m (htoUi m hm) hends
    | refused r hr hk hanswered result houtcome hparse =>
        exact .refused r (hmain ▸ hr) hk hanswered result houtcome hparse
    | ending x hx hrank => exact .ending x (hui ▸ hx) hrank
  · exact hwanted _ (h.runs r (hmain ▸ hr) hnone)
  · rw [hmain]
    rcases hnew m hm with hm | hnone
    · exact h.replies m hm k hk
    · rw [hnone] at hk
      cases hk
  · rw [hui, hmain]
    exact h.faithful

/-! ## Messages that the user interface takes -/

/-- A failure is taken as it is. -/
theorem parse_failure {r : Run Result} (h : Addressed r.controllerRequestId r.requestId)
    (thrown : Thrown) :
    parseControllerOutboundMessage parseReadResult ((r.answer (.error thrown)).toJs print) =
      .ok (.error r.controllerRequestId r.requestId (requestBoundaryFailure thrown)) := by
  have hfailure : requestBoundaryFailure thrown =
      { code := (requestBoundaryFailure thrown).code,
        retryable := (requestBoundaryFailure thrown).retryable } := by
    cases thrown <;> rfl
  rw [Run.answer, hfailure]
  exact parseControllerOutboundMessage_error parseReadResult print h _ _

/-- What becomes of the answer of a run. -/
theorem parse_answer {r : Run Result} (h : Addressed r.controllerRequestId r.requestId)
    (outcome : Except Thrown Result) {m : ControllerOutboundMessage Result}
    (hparse : parseControllerOutboundMessage parseReadResult ((r.answer outcome).toJs print) = .ok m) :
    m.ends = some r.controllerRequestId := by
  cases outcome with
  | ok result =>
      rw [Run.answer, parseControllerOutboundMessage_response parseReadResult print h] at hparse
      obtain ⟨parsed, -, rfl⟩ := Guard.map_eq_ok.1 hparse
      rfl
  | error thrown =>
      rw [parse_failure h thrown] at hparse
      rw [← Except.ok.inj hparse]
      rfl

/-- **An answer that is not taken** is a result that is refused. -/
theorem refused_answer {r : Run Result} (h : Addressed r.controllerRequestId r.requestId)
    {outcome : Except Thrown Result} {e : JsString}
    (hparse : parseControllerOutboundMessage parseReadResult ((r.answer outcome).toJs print) = .error e) :
    ∃ result, outcome = .ok result ∧ ∀ parsed, parseReadResult (print result) ≠ .ok parsed := by
  cases outcome with
  | ok result =>
      rw [Run.answer, parseControllerOutboundMessage_response parseReadResult print h] at hparse
      refine ⟨result, rfl, fun parsed hparsed => ?_⟩
      rw [hparsed] at hparse
      cases hparse
  | error thrown =>
      rw [parse_failure h thrown] at hparse
      cases hparse

/-- What is parsed from a message that ends no request ends none. -/
theorem ends_of_parse {m m' : ControllerOutboundMessage Result} (hnone : m.ends = none)
    (hparse : parseControllerOutboundMessage parseReadResult (m.toJs print) = .ok m') :
    m'.ends = none := by
  cases m with
  | response | error => cases hnone
  | progress k id p =>
      rw [ControllerOutboundMessage.toJs] at hparse
      generalize hmembers : member "type" (FigmaDevMcp.word "progress") ++ idMembers k id ++
        member "completed" (natural p.completed) ++ optional "message" (p.message.map .string) ++
        optional "total" (p.total.map natural) = members at hparse
      have htype : lookup (text "type") members = some (FigmaDevMcp.word "progress") := by
        simp [← hmembers, lookup_append, lookup_member]
      unfold parseControllerOutboundMessage at hparse
      simp only [record, Guard.ok_bind, field_eq htype, isWord_word] at hparse
      rw [if_neg (by decide), if_pos (by decide)] at hparse
      obtain ⟨_, -, hparse⟩ := Guard.bind_eq_ok.1 hparse
      obtain ⟨_, -, hparse⟩ := Guard.bind_eq_ok.1 hparse
      obtain ⟨_, -, hparse⟩ := Guard.bind_eq_ok.1 hparse
      rw [← Except.ok.inj hparse]
      rfl
  | controllerReady ready =>
      rw [ControllerOutboundMessage.toJs] at hparse
      generalize hmembers : member "type" (FigmaDevMcp.word "controllerReady") ++
        member "metadataRequestId" (.string ready.metadataRequestId) ++
        member "fileName" (.string ready.fileName) ++ member "currentPage" ready.currentPage.toJs ++
        member "editorType" (.string ready.editorType) ++
        member "pluginVersion" (.string ready.pluginVersion) ++
        member "capabilities" ready.capabilities.toJs = members at hparse
      have htype : lookup (text "type") members = some (FigmaDevMcp.word "controllerReady") := by
        simp [← hmembers, lookup_append, lookup_member]
      unfold parseControllerOutboundMessage at hparse
      simp only [record, Guard.ok_bind, field_eq htype, isWord_word] at hparse
      rw [if_pos (by decide)] at hparse
      obtain ⟨_, -, hparse⟩ := Guard.bind_eq_ok.1 hparse
      obtain ⟨_, -, hparse⟩ := Guard.bind_eq_ok.1 hparse
      rw [← Except.ok.inj hparse]
      rfl

/-- An owner that does not hear of its answer has a socket that is closing. -/
theorem ending_of_closed (hparts : s.Parts) {e : JsString × RequestOwner}
    (he : e ∈ s.ui.requestOwners.entries) (hclosed : s.ui.isActiveOpen e.2.generation = false) :
    ∃ x : ReadyState, s.ui.readyStates[e.2.generation]? = some x ∧ 2 ≤ x.rank := by
  obtain ⟨x, hx, hrank⟩ := hparts.begun e he
  have hactive : s.ui.active = some e.2.generation := hparts.owned.active e he
  have hrun : s.ui.stopped = false := by
    refine Bool.eq_false_iff.2 fun hstopped => ?_
    rw [(hparts.connected.stopped hstopped).1] at hactive
    cases hactive
  refine ⟨x, hx, ?_⟩
  have hopened : x ≠ .opened := by
    rintro rfl
    obtain ⟨generation, hgeneration, hopen⟩ := Option.map_eq_some_iff.1
      ((List.getElem?_map ..).symm.trans hx)
    simp [Transport.isActiveOpen, Transport.meets, hrun, hactive, hgeneration, hopen] at hclosed
  cases x with
  | connecting => exact absurd hrank (by decide)
  | opened => exact absurd rfl hopened
  | closing | closed => decide

/-- **A message of the controller that is taken.** -/
theorem Accounts.relay (h : Accounts parseReadResult print s) (hparts : s.Parts) (hjoined : s.Joined)
    {m₀ m : ControllerOutboundMessage Result} {rest : List (ControllerOutboundMessage Result)}
    (htoUi : s.toUi = m₀ :: rest)
    (hparse : parseControllerOutboundMessage parseReadResult (m₀.toJs print) = .ok m) {uuid : JsString}
    {sent : List (ℕ × PluginToBroker Result)}
    (hrelay : Relay s.ui (s.ui.step (.controller m uuid)) m sent) :
    Accounts parseReadResult print ({ s with toUi := rest }.update (s.ui.step (.controller m uuid))) := by
  obtain ⟨later, hlater, hnone⟩ := Session.messagesOf_relay hrelay
  have hmain : ({ s with toUi := rest }.update (s.ui.step (.controller m uuid))).toMain = s.toMain := by
    have hupdate := @Session.toMain_update _ { s with toUi := rest } _ _ hlater
    rw [hupdate, hnone]
    exact List.append_nil _
  have hrest : ∀ m ∈ rest, m ∈ s.toUi := by
    intro m hm
    rw [htoUi]
    exact List.mem_cons_of_mem _ hm
  have hsub : ∀ e ∈ (s.ui.step (.controller m uuid)).requestOwners.entries,
      e ∈ s.ui.requestOwners.entries := by
    intro e he
    rcases hrelay.owners with ⟨howners, -⟩ | ⟨k, -, howners⟩
    · exact howners ▸ he
    · rw [howners] at he
      exact (JsMap.mem_delete.1 he).1
  -- The run that a message which ends a request is the answer of.
  have hanswer : ∀ k, m.ends = some k → ∃ r ∈ s.main.runs, r.controllerRequestId = k ∧ ∃ outcome,
      r.answered = true ∧ r.outcome = some outcome ∧ m₀ = r.answer outcome := by
    intro k hk
    cases hends : m₀.ends with
    | none =>
        rw [ends_of_parse hends hparse] at hk
        cases hk
    | some k₀ =>
        obtain ⟨r, hr, outcome, hanswered, houtcome, rfl⟩ :=
          h.replies m₀ (htoUi ▸ List.mem_cons_self) k₀ hends
        have haddressed := hjoined.addressed r.ids
          (List.mem_append_left _ (List.mem_map.2 ⟨r, hr, rfl⟩))
        have hk' := parse_answer haddressed outcome hparse
        exact ⟨r, hr, Option.some.inj (hk'.symm.trans hk), outcome, hanswered, houtcome, rfl⟩
  have hwanted : ∀ k, Wanted s k → m.ends ≠ some k →
      Wanted ({ s with toUi := rest }.update (s.ui.step (.controller m uuid))) k := by
    rintro k (⟨owner, howner⟩ | ⟨id, hid⟩) hne
    · refine Or.inl ⟨owner, ?_⟩
      show (k, owner) ∈ (s.ui.step (.controller m uuid)).requestOwners.entries
      rcases hrelay.owners with ⟨howners, -⟩ | ⟨k', hk', howners⟩
      · rw [howners]
        exact howner
      · rw [howners]
        refine JsMap.mem_delete.2 ⟨howner, ?_⟩
        rintro rfl
        exact hne hk'
    · refine Or.inr ⟨id, ?_⟩
      rw [hmain]
      exact hid
  refine ⟨fun e he => ?_, fun r hr hnone => ?_, fun k r hr => ?_, fun m' hm' => h.replies m' (hrest m' hm'),
    ?_⟩
  · have hforward := forward_step s.ui (.controller m uuid)
    have hending : s.ui.isActiveOpen e.2.generation = false →
        Accounted parseReadResult print
          ({ s with toUi := rest }.update (s.ui.step (.controller m uuid))) e := by
      intro hclosed
      obtain ⟨x, hx, hrank⟩ := ending_of_closed hparts (hsub e he) hclosed
      obtain ⟨y, hy, hxy⟩ := hforward _ x hx
      exact .ending y hy (hrank.trans hxy)
    cases h.owners e (hsub e he) with
    | waiting r hr =>
        refine .waiting r ?_
        rw [hmain]
        exact hr
    | running r hr hk hopen => exact .running r hr hk hopen
    | returning m' hm' hends =>
        rw [htoUi] at hm'
        rcases List.mem_cons.1 hm' with rfl | hm'
        · obtain ⟨r, hr, outcome, -, -, rfl⟩ :=
            h.replies m' (htoUi ▸ List.mem_cons_self) e.1 hends
          have haddressed := hjoined.addressed r.ids
            (List.mem_append_left _ (List.mem_map.2 ⟨r, hr, rfl⟩))
          have hk : m.ends = some e.1 := by
            rw [parse_answer haddressed outcome hparse, ← ends_answer r outcome]
            exact hends
          rcases hrelay.owners with ⟨-, hclosed⟩ | ⟨k', hk', howners⟩
          · exact hending (hclosed e.1 e.2 hk (hsub e he))
          · have he' : e ∈ (s.ui.step (.controller m uuid)).requestOwners.entries := he
            rw [howners] at he'
            exact absurd (Option.some.inj (hk.symm.trans hk')) (JsMap.mem_delete.1 he').2
        · exact .returning m' hm' hends
    | refused r hr hk hanswered result houtcome hrefused =>
        exact .refused r hr hk hanswered result houtcome hrefused
    | ending x hx hrank =>
        obtain ⟨y, hy, hxy⟩ := hforward _ x hx
        exact .ending y hy (hrank.trans hxy)
  · refine hwanted _ (h.runs r hr hnone) fun hk => ?_
    obtain ⟨r', hr', hk', outcome, -, houtcome, -⟩ := hanswer _ hk
    obtain rfl := run_unique hjoined hr hr' hk'.symm
    rw [hnone] at houtcome
    cases houtcome
  · rw [hmain] at hr
    refine hwanted k (h.waiting k r hr) fun hk => ?_
    obtain ⟨r', hr', hk', -⟩ := hanswer k hk
    exact ne_of_waiting hjoined hr' hr hk'
  · show Orderly (Faithful parseReadResult print s.main) (s.ui.step (.controller m uuid)).history
    rw [hrelay.history]
    have hone := hrelay.one
    have hfaithful := hrelay.faithful
    have haddressee := hrelay.addressee
    cases sent with
    | nil => exact ⟨trivial, h.faithful⟩
    | cons p sent =>
        obtain rfl := List.eq_nil_of_length_eq_zero (Nat.le_zero.1 (Nat.le_of_succ_le_succ hone))
        refine ⟨fun requestId hid => ?_, trivial, h.faithful⟩
        refine ⟨m, s.ui.history, rfl, hfaithful p List.mem_cons_self requestId hid, fun k hk => ?_⟩
        obtain ⟨r, hr, hrk, outcome, hanswered, houtcome, rfl⟩ := hanswer k hk
        refine ⟨r, hr, ?_, outcome, hanswered, houtcome, hparse⟩
        -- The owner has the id under which the broker has sent the request, and so has the run.
        have howner := hjoined.owners _ (haddressee p List.mem_cons_self requestId k hid hk)
        have hrun : r.ids ∈ s.ids := List.mem_append_left _ (List.mem_map.2 ⟨r, hr, rfl⟩)
        exact List.inj_on_of_nodup_map hjoined.distinct hrun howner hrk

/-- **A message of the controller that is refused.** -/
theorem Accounts.refuse (h : Accounts parseReadResult print s) (hjoined : s.Joined)
    {m₀ : ControllerOutboundMessage Result} {rest : List (ControllerOutboundMessage Result)}
    (htoUi : s.toUi = m₀ :: rest) {e : JsString}
    (hparse : parseControllerOutboundMessage parseReadResult (m₀.toJs print) = .error e) :
    Accounts parseReadResult print { s with toUi := rest } := by
  refine ⟨fun e he => ?_, h.runs, h.waiting, fun m hm => ?_, h.faithful⟩
  · cases h.owners e he with
    | waiting r hr => exact .waiting r hr
    | running r hr hk hopen => exact .running r hr hk hopen
    | returning m hm hends =>
        rw [htoUi] at hm
        rcases List.mem_cons.1 hm with rfl | hm
        · obtain ⟨r, hr, outcome, hanswered, houtcome, rfl⟩ :=
            h.replies m (htoUi ▸ List.mem_cons_self) e.1 hends
          have haddressed := hjoined.addressed r.ids
            (List.mem_append_left _ (List.mem_map.2 ⟨r, hr, rfl⟩))
          obtain ⟨result, rfl, hrefused⟩ := refused_answer haddressed hparse
          have hk : r.controllerRequestId = e.1 :=
            Option.some.inj ((ends_answer r (.ok result)).symm.trans hends)
          exact .refused r hr hk hanswered result houtcome hrefused
        · exact .returning m hm hends
    | refused r hr hk hanswered result houtcome hrefused =>
        exact .refused r hr hk hanswered result houtcome hrefused
    | ending x hx hrank => exact .ending x hx hrank
  · exact h.replies m (htoUi ▸ List.mem_cons_of_mem _ hm)

end

end FigmaDevMcp.Plugin

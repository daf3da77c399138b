import FigmaDevMcp.Lib.History
import FigmaDevMcp.Shared.Accepting
import FigmaDevMcp.Ui.Socket

set_option autoImplicit false

/-!
# Who owns a request

* `Action.settles`: what ends a request;
* `Owned`: the owners of a transport, and `Owned.keep`, `Owned.register`: what keeps it;
* `owned_run`: every run does;
* **`request_ownership`**: each answer goes where its request came from, once.
-/

namespace FigmaDevMcp.Plugin

open JsValue History

variable {Result : Type}

/-- The request of the broker that a message is about. -/
def PluginToBroker.about : PluginToBroker Result → Option JsString
  | .progress requestId _ | .response requestId _ | .error requestId _ => some requestId
  | .hello _ | .pong _ => none

/-- The request of the controller that a message is about. -/
def ControllerOutboundMessage.about : ControllerOutboundMessage Result → Option JsString
  | .progress controllerRequestId _ _ | .response controllerRequestId _ _
  | .error controllerRequestId _ _ => some controllerRequestId
  | .controllerReady _ => none

/-- What ends a request: its last message, its cancel, and the end of its generation. -/
def Action.settles : Action Result → RequestOwner → Prop
  | .toBroker g (.response requestId _), owner => owner = ⟨g, requestId⟩
  | .toBroker g (.error requestId _), owner => owner = ⟨g, requestId⟩
  | .received g (.cancel requestId), owner => owner = ⟨g, requestId⟩
  | .closed g, owner => owner.generation = g
  | .stopped, _ => True
  | _, _ => False

/-- The request of an owner has come, and the controller has been sent it. -/
def Issues : List (Action Result) → JsString × RequestOwner → Prop
  | .toController (.bound (.request k _)) :: .received g (.request request) :: _, e =>
    e = (k, ⟨g, request.requestId⟩)
  | _, _ => False

/-- The request has not been settled since it was issued. -/
def Live (history : List (Action Result)) (e : JsString × RequestOwner) : Prop :=
  Outstanding Issues (fun action e => action.settles e.2) history e

/-- A message about a request is the controller's about the request that is live. -/
def Fits : Action Result → List (Action Result) → Prop
  | .toBroker g message, earlier => ∀ requestId, message.about = some requestId →
    ∃ k reply rest, earlier = .fromController reply :: rest ∧ reply.about = some k ∧
      Live rest (k, ⟨g, requestId⟩)
  | _, _ => True

/-- What holds of the owners. -/
structure Owned (t : Transport Result) : Prop where
  active : ∀ e ∈ t.requestOwners.entries, t.active = some e.2.generation
  distinct : ∀ e ∈ t.requestOwners.entries, ∀ e' ∈ t.requestOwners.entries, e.2 = e'.2 → e = e'
  live : ∀ e ∈ t.requestOwners.entries, Live t.history e
  orderly : Orderly Fits t.history

/-! ## What keeps it -/

/-- **Owners that stay, and what happens meanwhile.** -/
theorem Owned.keep {t t' : Transport Result} (h : Owned t) (later : List (Action Result))
    (hsub : ∀ e ∈ t'.requestOwners.entries, e ∈ t.requestOwners.entries)
    (hactive : ∀ e ∈ t'.requestOwners.entries, t.active = some e.2.generation →
      t'.active = some e.2.generation)
    (hhistory : t'.history = later ++ t.history) (horderly : Orderly Fits t'.history)
    (hlater : ∀ x ∈ later, ∀ e ∈ t'.requestOwners.entries, ¬x.settles e.2) : Owned t' where
  active e he := hactive e he (h.active e (hsub e he))
  distinct e he e' he' := h.distinct e (hsub e he) e' (hsub e' he')
  live e he := by
    rw [Live, hhistory]
    exact (h.live e (hsub e he)).append fun x hx => hlater x hx e he
  orderly := horderly

/-- An entry that is about no request. -/
def Action.Quiet (action : Action Result) : Prop :=
  (∀ owner, ¬action.settles owner) ∧ ∀ earlier, Fits action earlier

theorem quiet_toController (message : ControllerMessage) :
    (Action.toController message : Action Result).Quiet := ⟨fun _ h => h, fun _ => trivial⟩

theorem Owned.quiet {t t' : Transport Result} (h : Owned t) (later : List (Action Result))
    (howners : t'.requestOwners = t.requestOwners)
    (hactive : ∀ g, t.active = some g → t'.active = some g)
    (hhistory : t'.history = later ++ t.history) (hlater : ∀ x ∈ later, x.Quiet) : Owned t' := by
  refine h.keep later (fun e he => howners ▸ he) (fun e _ => hactive _) hhistory ?_ ?_
  · rw [hhistory]
    exact h.orderly.append fun x hx => (hlater x hx).2
  · exact fun x hx e _ => (hlater x hx).1 e.2

theorem Owned.act {t : Transport Result} (h : Owned t) {action : Action Result}
    (hsettles : ∀ e ∈ t.requestOwners.entries, ¬action.settles e.2) (hfits : Fits action t.history) :
    Owned (t.act action) := by
  refine h.keep [action] (fun e he => he) (fun _ _ => id) rfl ⟨hfits, h.orderly⟩ ?_
  intro x hx e he
  rw [List.mem_singleton.1 hx]
  exact hsettles e he

/-! ## Requests -/

theorem findGenerationRequest_eq_some {t : Transport Result} {g : ℕ} {requestId : JsString}
    {e : JsString × RequestOwner} (h : t.findGenerationRequest g requestId = some e) :
    e ∈ t.requestOwners.entries ∧ e.2 = ⟨g, requestId⟩ := by
  have hp := List.find?_some h
  rw [Bool.and_eq_true, decide_eq_true_eq, decide_eq_true_eq] at hp
  exact ⟨List.mem_of_find?_eq_some h, by rw [← hp.1, ← hp.2]⟩

theorem findGenerationRequest_eq_none {t : Transport Result} {g : ℕ} {requestId : JsString}
    (h : t.findGenerationRequest g requestId = none) :
    ∀ e ∈ t.requestOwners.entries, e.2 ≠ ⟨g, requestId⟩ := by
  intro e he heq
  have hp := List.find?_eq_none.1 h e he
  simp [heq] at hp

theorem record_eq_ok {value object : JsValue} {label : JsString} (h : record value label = .ok object) :
    object = value := by
  unfold record at h
  split at h
  · exact (Except.ok.inj h).symm
  · exact nomatch h

theorem exact_eq_ok {value object : JsValue} {label : JsString} {required optional : List String}
    (h : exact value label required optional = .ok object) : object = value := by
  obtain ⟨found, hfound, h⟩ := Guard.bind_eq_ok.1 h
  unfold exactKeys at h
  split at h
  · exact nomatch h
  · split at h
    · exact nomatch h
    · rw [← Except.ok.inj h, record_eq_ok hfound]

theorem parseControllerBoundMessage_eq_request {value : JsValue} {k : JsString} {sent : Request}
    (h : parseControllerBoundMessage value = .ok (.request k sent)) :
    parseUuid (value.field "controllerRequestId") = .ok k := by
  unfold parseControllerBoundMessage at h
  obtain ⟨object, hobject, h⟩ := Guard.bind_eq_ok.1 h
  dsimp only at h
  split_ifs at h
  · obtain ⟨request, hrequest, h⟩ := Guard.bind_eq_ok.1 h
    obtain ⟨_, -, h⟩ := Guard.bind_eq_ok.1 h
    obtain ⟨found, hfound, h⟩ := Guard.bind_eq_ok.1 h
    obtain ⟨_, -, h⟩ := Guard.bind_eq_ok.1 h
    obtain ⟨rfl, -⟩ := ControllerBoundMessage.request.inj (Except.ok.inj h)
    rwa [exact_eq_ok hrequest, record_eq_ok hobject] at hfound
  · obtain ⟨_, -, h⟩ := Guard.bind_eq_ok.1 h
    obtain ⟨_, -, h⟩ := Guard.bind_eq_ok.1 h
    obtain ⟨_, -, h⟩ := Guard.bind_eq_ok.1 h
    exact nomatch h
  · exact nomatch h

/-- The controller is sent a request under the id that its owner has. -/
theorem controllerRequest_eq {request sent : Request} {uuid controllerRequestId k : JsString}
    (h : controllerRequest request uuid = .ok (controllerRequestId, .request k sent)) :
    k = controllerRequestId := by
  obtain ⟨found, hfound, h⟩ := Guard.bind_eq_ok.1 h
  obtain ⟨message, hmessage, h⟩ := Guard.bind_eq_ok.1 h
  obtain ⟨rfl, rfl⟩ := Prod.mk.inj (Except.ok.inj h)
  have hfield : (ControllerBoundMessage.request found request).toJs.field "controllerRequestId" =
      .string found := by
    refine field_eq ?_
    simp [lookup_append, lookup_member]
  have hk : parseUuid (.string found) = .ok k := hfield ▸ parseControllerBoundMessage_eq_request hmessage
  exact Except.ok.inj (hk.symm.trans (parseUuid_idem hfound))

/-- **A request that is issued** has an owner of its own. -/
theorem Owned.register {t : Transport Result} (h : Owned t) {g : ℕ} (hactive : t.active = some g)
    {request : Request} {earlier : List (Action Result)}
    (hhistory : t.history = .received g (.request request) :: earlier)
    (hnew : ∀ e ∈ t.requestOwners.entries, e.2 ≠ ⟨g, request.requestId⟩) (k : JsString)
    (sent : Request) :
    Owned ({ t with requestOwners := t.requestOwners.set k ⟨g, request.requestId⟩ }.act
      (.toController (.bound (.request k sent)))) where
  active e he := by
    rcases JsMap.mem_set.1 he with rfl | ⟨he, -⟩
    · exact hactive
    · exact h.active e he
  distinct e he e' he' heq := by
    rcases JsMap.mem_set.1 he with rfl | ⟨he, -⟩ <;> rcases JsMap.mem_set.1 he' with rfl | ⟨he', -⟩
    · rfl
    · exact absurd heq.symm (hnew e' he')
    · exact absurd heq (hnew e he)
    · exact h.distinct e he e' he' heq
  live e he := by
    rcases JsMap.mem_set.1 he with rfl | ⟨he, -⟩
    · refine Or.inl ?_
      show Issues (_ :: t.history) _
      rw [hhistory]
      exact rfl
    · exact Or.inr ⟨id, h.live e he⟩
  orderly := ⟨trivial, h.orderly⟩

theorem Owned.receiveRequest {t : Transport Result} (h : Owned t) {g : ℕ} (hactive : t.active = some g)
    {request : Request} {earlier : List (Action Result)}
    (hhistory : t.history = .received g (.request request) :: earlier) (uuid : JsString) :
    Owned (t.receiveRequest g request uuid) := by
  unfold Transport.receiveRequest
  split
  · rename_i hfind hsent
    rw [controllerRequest_eq hsent]
    exact h.register hactive hhistory (findGenerationRequest_eq_none hfind) _ _
  · exact h
  · exact h
  · exact h

/-- **A cancel that has been processed** leaves no owner of its request. -/
theorem Owned.receiveCancel {t : Transport Result} (h : Owned t) (t' : Transport Result) {g : ℕ}
    {requestId : JsString}
    (howners : t'.requestOwners = t.requestOwners) (hactive : t'.active = t.active)
    (hhistory : t'.history = .received g (.cancel requestId) :: t.history) :
    Owned (t'.receiveCancel g requestId) ∧
      ∀ e ∈ (t'.receiveCancel g requestId).requestOwners.entries, e.2 ≠ ⟨g, requestId⟩ := by
  have hquiet : Orderly Fits t'.history := by
    rw [hhistory]
    exact ⟨trivial, h.orderly⟩
  -- The owners that are left, whatever the controller is sent.
  have hkeep : ∀ (u : Transport Result) (sent : List (Action Result)),
      (∀ e ∈ u.requestOwners.entries, e ∈ t.requestOwners.entries ∧ e.2 ≠ ⟨g, requestId⟩) →
      u.active = t.active → u.history = sent ++ t'.history → (∀ x ∈ sent, x.Quiet) →
      Owned u ∧ ∀ e ∈ u.requestOwners.entries, e.2 ≠ ⟨g, requestId⟩ := by
    intro u sent hu hactive hsent hx
    refine ⟨h.keep (sent ++ [.received g (.cancel requestId)]) (fun e he => (hu e he).1)
      (fun e _ hg => hactive.trans hg) ?_ ?_ ?_, fun e he => (hu e he).2⟩
    · rw [hsent, hhistory, List.append_assoc, List.singleton_append]
    · rw [hsent]
      exact hquiet.append fun x hmem => (hx x hmem).2
    · intro x hmem e he
      rcases List.mem_append.1 hmem with hmem | hmem
      · exact (hx x hmem).1 e.2
      · rw [List.mem_singleton.1 hmem]
        exact (hu e he).2
  unfold Transport.receiveCancel
  split
  · rename_i hfind
    have hnone := findGenerationRequest_eq_none hfind
    rw [howners] at hnone
    exact hkeep t' [] (fun e he => ⟨howners ▸ he, hnone e (howners ▸ he)⟩) hactive rfl
      (List.forall_mem_nil _)
  · rename_i k owner hfind
    obtain ⟨hmem, howner⟩ := findGenerationRequest_eq_some hfind
    have hleft : ∀ e ∈ (t'.requestOwners.delete k).entries,
        e ∈ t.requestOwners.entries ∧ e.2 ≠ ⟨g, requestId⟩ := by
      intro e he
      obtain ⟨he, hne⟩ := JsMap.mem_delete.1 he
      rw [howners] at he hmem
      refine ⟨he, fun heq => hne ?_⟩
      rw [h.distinct e he _ hmem (heq.trans howner.symm)]
    split
    · exact hkeep _ [] hleft hactive rfl (List.forall_mem_nil _)
    · rename_i message _
      refine hkeep _ [.toController (.bound message)] hleft hactive rfl fun x hx => ?_
      rw [List.mem_singleton.1 hx]
      exact quiet_toController _

/-! ## Messages of the controller -/

/-- **What an owner is sent** is the controller's about its request. -/
theorem Owned.sendToOwner {t : Transport Result} (h : Owned t)
    {reply : ControllerOutboundMessage Result} {rest : List (Action Result)}
    (hhistory : t.history = .fromController reply :: rest) {k : JsString}
    (hreply : reply.about = some k) {terminal : Bool} {message : JsString → PluginToBroker Result}
    (habout : ∀ requestId, (message requestId).about = some requestId)
    (hsettles : ∀ g requestId owner, (Action.toBroker g (message requestId)).settles owner →
      terminal = true ∧ owner = ⟨g, requestId⟩) :
    Owned (t.sendToOwner k terminal message) := by
  unfold Transport.sendToOwner
  split
  · exact h
  · rename_i owner hget
    by_cases hopen : t.isActiveOpen owner.generation = true
    · rw [if_pos hopen]
      have hmem : (k, owner) ∈ t.requestOwners.entries := JsMap.get_eq_some.1 hget
      have hlive : Live rest (k, owner) := by
        have hlive := h.live _ hmem
        rw [hhistory] at hlive
        rcases hlive with hissues | ⟨-, hlive⟩
        · exact hissues.elim
        · exact hlive
      have hfits : Fits (.toBroker owner.generation (message owner.brokerRequestId)) t.history := by
        intro requestId hid
        obtain rfl := Option.some.inj ((habout _).symm.trans hid)
        exact ⟨k, reply, rest, hhistory, hreply, hlive⟩
      refine h.keep [.toBroker owner.generation (message owner.brokerRequestId)]
        (fun e he => ?_) (fun _ _ => id) rfl ⟨hfits, h.orderly⟩ ?_
      · cases terminal with
        | true => exact (JsMap.mem_delete.1 he).1
        | false => exact he
      · intro x hx e he hx'
        rw [List.mem_singleton.1 hx] at hx'
        obtain ⟨rfl, heq⟩ := hsettles _ _ _ hx'
        obtain ⟨he, hne⟩ := JsMap.mem_delete.1 he
        exact hne (congrArg Prod.fst (h.distinct e he _ hmem heq))
    · rw [if_neg hopen]
      exact h

theorem Owned.receiveReady {t : Transport Result} (h : Owned t) (ready : ControllerReady)
    (uuid : JsString) : Owned (t.receiveReady ready uuid) := by
  have hhello : ∀ g, Owned (t.sendHello g ready uuid) := by
    intro g
    unfold Transport.sendHello
    split
    · exact h
    · rename_i hello _
      have hfits : Fits (.toBroker g (.hello hello)) t.history := fun _ h => nomatch h
      have hact : Owned (t.act (.toBroker g (.hello hello))) := h.act (fun e _ => id) hfits
      exact hact.quiet [] rfl (fun _ => id) rfl (List.forall_mem_nil _)
  unfold Transport.receiveReady
  split
  · exact h
  · split_ifs
    · exact hhello _
    · exact h

theorem Owned.receiveController {t : Transport Result} (h : Owned t) (uuid : JsString)
    (message : ControllerOutboundMessage Result) :
    Owned ((t.act (.fromController message)).receiveController uuid message) := by
  have hact : Owned (t.act (.fromController message)) := h.act (fun e _ => id) trivial
  cases message with
  | controllerReady ready => exact hact.receiveReady ready uuid
  | progress k _ progress =>
      rw [Transport.receiveController]
      apply hact.sendToOwner rfl rfl
      · exact fun _ => rfl
      · exact fun _ _ _ => False.elim
  | response k _ result =>
      rw [Transport.receiveController]
      apply hact.sendToOwner rfl rfl
      · exact fun _ => rfl
      · exact fun _ _ _ hsettles => ⟨rfl, hsettles⟩
  | error k _ error =>
      rw [Transport.receiveController]
      apply hact.sendToOwner rfl rfl
      · exact fun _ => rfl
      · exact fun _ _ _ hsettles => ⟨rfl, hsettles⟩

/-! ## Frames -/

@[simp] theorem accept_requestOwners (t : Transport Result) (g : ℕ) :
    (t.accept g).requestOwners = t.requestOwners := by
  unfold Transport.accept
  split_ifs <;> rfl

@[simp] theorem accept_active (t : Transport Result) (g : ℕ) : (t.accept g).active = t.active := by
  unfold Transport.accept
  split_ifs <;> rfl

@[simp] theorem accept_history (t : Transport Result) (g : ℕ) : (t.accept g).history = t.history := by
  unfold Transport.accept
  split_ifs <;> rfl

theorem Owned.accept {t : Transport Result} (h : Owned t) (g : ℕ) : Owned (t.accept g) :=
  h.quiet [] (accept_requestOwners t g) (fun _ => (accept_active t g).trans)
    (accept_history t g) (List.forall_mem_nil _)

theorem active_of_isActiveOpen {t : Transport Result} {g : ℕ} (h : t.isActiveOpen g = true) :
    t.active = some g := by
  simp only [Transport.isActiveOpen, Bool.and_eq_true, decide_eq_true_eq] at h
  exact h.1.2

theorem Owned.onMessage {t : Transport Result} (h : Owned t) (g : ℕ) (data : Option JsString)
    (uuid : JsString) : Owned (t.onMessage g data uuid) := by
  unfold Transport.onMessage
  split
  · exact h
  · rename_i message hframe
    have hactive : t.active = some g := by
      unfold Transport.frame at hframe
      split_ifs at hframe with hopen
      exact active_of_isActiveOpen (Bool.and_eq_true_iff.1 hopen).1
    cases message with
    | request request =>
        have hact : Owned (t.act (.received g (.request request))) := h.act (fun e _ => id) trivial
        exact (hact.accept g).receiveRequest ((accept_active _ g).trans hactive) (accept_history _ g) uuid
    | cancel requestId =>
        exact (h.receiveCancel ((t.act (.received g (.cancel requestId))).accept g)
          (accept_requestOwners _ g) (accept_active _ g) (accept_history _ g)).1
    | ping nonce =>
        have hact : Owned (t.act (.received g (.ping nonce))) := h.act (fun e _ => id) trivial
        exact (hact.accept g).act (fun e _ => id) fun _ h => nomatch h

/-! ## Connections -/

theorem Owned.scheduleReconnect {t : Transport Result} (h : Owned t) : Owned t.scheduleReconnect := by
  unfold Transport.scheduleReconnect
  split_ifs
  · exact h
  · refine h.quiet [.setTimeout (reconnectDelay t.reconnectAttempt)] rfl (fun _ => id)
      rfl fun x hx => ?_
    rw [List.mem_singleton.1 hx]
    exact ⟨fun _ => id, fun _ => trivial⟩

theorem Owned.connect {t : Transport Result} (h : Owned t) (uuid : JsString) (constructs : Bool) :
    Owned (t.connect uuid constructs) := by
  unfold Transport.connect
  split_ifs with hidle
  · exact h
  · refine h.quiet [] rfl (fun g hg => ?_) rfl (List.forall_mem_nil _)
    rw [hg] at hidle
    simp at hidle
  · exact h.scheduleReconnect

/-- **The end of a generation** cancels each of its owners and leaves none. -/
theorem Owned.cancelGeneration {t t' : Transport Result} (h : Owned t) {g : ℕ}
    {action : Action Result} (howners : t'.requestOwners = t.requestOwners)
    (hactive : ∀ g', g' ≠ g → t.active = some g' → t'.active = some g')
    (hhistory : t'.history = action :: t.history) (haction : Fits action t.history)
    (hsettles : ∀ owner, owner.generation ≠ g → t.active = some owner.generation → ¬action.settles owner) :
    Owned (t'.cancelGenerationRequests g) := by
  have hsub : ∀ e ∈ (t'.cancelGenerationRequests g).requestOwners.entries,
      e ∈ t.requestOwners.entries ∧ e.2.generation ≠ g := by
    intro e he
    obtain ⟨he, hne⟩ := JsMap.mem_deleteWhere.1 he
    exact ⟨howners ▸ he, by simpa using hne⟩
  have hcancel : ∀ x ∈ ((t'.requestOwners.entries.filter fun e => e.2.generation = g).map
      (@cancelOf Result)).reverse, x.Quiet := by
    intro x hx
    obtain ⟨e, -, rfl⟩ := List.mem_map.1 (List.mem_reverse.1 hx)
    exact quiet_toController _
  refine h.keep (((t'.requestOwners.entries.filter fun e => e.2.generation = g).map
      cancelOf).reverse ++ [action]) (fun e he => (hsub e he).1)
    (fun e he => hactive _ (hsub e he).2) ?_ ?_ ?_
  · show _ ++ t'.history = _
    rw [hhistory, List.append_assoc, List.singleton_append]
  · show Orderly Fits (_ ++ t'.history)
    rw [hhistory]
    have haction : Orderly Fits (action :: t.history) := ⟨haction, h.orderly⟩
    exact haction.append fun x hx => (hcancel x hx).2
  · intro x hx e he
    rcases List.mem_append.1 hx with hx | hx
    · exact (hcancel x hx).1 e.2
    · rw [List.mem_singleton.1 hx]
      exact hsettles e.2 (hsub e he).2 (h.active e (hsub e he).1)

theorem Owned.onClose {t : Transport Result} (h : Owned t) (g : ℕ)
    (f : SocketGeneration → SocketGeneration) :
    Owned (((t.act (.closed g)).modifyGeneration g f).onClose g) := by
  have hcancelled : Owned (((t.act (.closed g)).modifyGeneration g f).cancelGenerationRequests g) :=
    h.cancelGeneration rfl (fun _ _ => id) rfl trivial fun owner hne _ heq => hne heq
  have hleft : ∀ e ∈ (((t.act (.closed g)).modifyGeneration g f).cancelGenerationRequests
      g).requestOwners.entries, e.2.generation ≠ g := by
    intro e he
    simpa using (JsMap.mem_deleteWhere.1 he).2
  unfold Transport.onClose
  dsimp only
  split_ifs with hactive
  · refine Owned.scheduleReconnect (hcancelled.keep [] (fun _ => id) (fun e he hg => ?_) rfl
      hcancelled.orderly (List.forall_mem_nil _))
    exact absurd (Option.some.inj (hg.symm.trans hactive)) (hleft e he)
  · exact hcancelled

theorem Owned.stop {t : Transport Result} (h : Owned t) :
    Owned (t.act .stopped).stop ∧ (t.act .stopped).stop.requestOwners.entries = [] := by
  have hnone : ∀ g, ∀ e ∈ t.requestOwners.entries, t.active = some g → e.2.generation = g :=
    fun g e he hg => Option.some.inj ((h.active e he).symm.trans hg)
  generalize hretired : (t.act .stopped).retire = u
  have howners : u.requestOwners = t.requestOwners := by rw [← hretired]; rfl
  have hhistory : u.history = .stopped :: t.history := by rw [← hretired]; rfl
  have hstop : (t.act .stopped).stop = u.closeActive t.active := by rw [← hretired]; rfl
  rw [hstop]
  cases hactive : t.active with
  | none =>
      have hempty : t.requestOwners.entries = [] := by
        refine List.eq_nil_iff_forall_not_mem.2 fun e he => ?_
        exact nomatch hactive.symm.trans (h.active e he)
      have hkept : ∀ e, e ∉ u.requestOwners.entries := by
        intro e he
        rw [howners, hempty] at he
        exact List.not_mem_nil he
      refine ⟨h.keep [.stopped] (fun e he => absurd he (hkept e)) (fun e he => absurd he (hkept e))
        hhistory ?_ (fun _ _ e he => absurd he (hkept e)), List.eq_nil_iff_forall_not_mem.2 hkept⟩
      rw [Transport.closeActive, hhistory]
      exact ⟨trivial, h.orderly⟩
  | some g =>
      have hcancelled : Owned (u.cancelGenerationRequests g) := by
        refine h.cancelGeneration howners (fun g' hne hg' => ?_) hhistory trivial
          fun owner hne howner => ?_
        · exact absurd (Option.some.inj (hg'.symm.trans hactive)) hne
        · exact absurd (Option.some.inj (howner.symm.trans hactive)) hne
      refine ⟨hcancelled.keep [] (fun _ => id) (fun _ _ => id) rfl hcancelled.orderly (List.forall_mem_nil _), ?_⟩
      refine List.eq_nil_iff_forall_not_mem.2 fun e he => ?_
      obtain ⟨he, hne⟩ := JsMap.mem_deleteWhere.1 he
      rw [howners] at he
      simp [hnone g e he hactive] at hne

/-! ## Runs -/

theorem Owned.step {t : Transport Result} (h : Owned t) (event : Event Result) :
    Owned (t.step event) := by
  cases event with
  | opened g =>
      have hopened : Owned (t.modifyGeneration g .establish) :=
        h.quiet [] rfl (fun _ => id) rfl (List.forall_mem_nil _)
      show Owned (Transport.onOpen _ _)
      unfold Transport.onOpen
      split
      · exact hopened.act (fun _ _ => id) trivial
      · exact hopened
  | message g data uuid => exact h.onMessage g data uuid
  | controller message uuid =>
      rw [Transport.step]
      split_ifs
      · exact h.receiveController uuid message
      · exact h
  | failed g => exact h.quiet [] rfl (fun _ => id) rfl (List.forall_mem_nil _)
  | closed g =>
      rw [Transport.step]
      split_ifs
      · exact h.onClose g _
      · exact h
  | timer timer uuid constructs =>
      show Owned (Transport.onTimer _ _ _ _)
      unfold Transport.onTimer
      split_ifs
      · refine Owned.connect ?_ uuid constructs
        exact h.quiet [] rfl (fun _ => id) rfl (List.forall_mem_nil _)
      · exact h
  | stop => exact h.stop.1

theorem owned_run (uuid : JsString) (constructs : Bool) (events : List (Event Result)) :
    Owned ((startSocketTransport uuid constructs).run events) := by
  have hempty : Owned ({} : Transport Result) := by
    refine ⟨fun e he => ?_, fun e he => ?_, fun e he => ?_, trivial⟩ <;> exact absurd he List.not_mem_nil
  have hstart : Owned (startSocketTransport uuid constructs : Transport Result) :=
    hempty.connect uuid constructs
  rw [Transport.run]
  generalize startSocketTransport uuid constructs = t at hstart ⊢
  induction events generalizing t with
  | nil => exact hstart
  | cons event events ih => exact ih _ (hstart.step event)

/-! ## Ends of generations -/

theorem mem_cancelGenerationRequests {t : Transport Result} {g : ℕ} :
    ∃ later, (t.cancelGenerationRequests g).history = later ++ t.history ∧
      ∀ e ∈ t.requestOwners.entries, e.2.generation = g → cancelOf e ∈ later := by
  refine ⟨_, rfl, fun e he hg => ?_⟩
  rw [List.mem_reverse]
  exact List.mem_map.2 ⟨e, List.mem_filter.2 ⟨he, decide_eq_true hg⟩, rfl⟩

theorem exists_history_scheduleReconnect (t : Transport Result) :
    ∃ later, t.scheduleReconnect.history = later ++ t.history := by
  unfold Transport.scheduleReconnect
  split_ifs
  · exact ⟨[], rfl⟩
  · exact ⟨[_], rfl⟩

theorem generation_ne_onClose {t : Transport Result} {g : ℕ} :
    ∀ e ∈ (t.onClose g).requestOwners.entries, e.2.generation ≠ g := by
  have howners : (t.onClose g).requestOwners = (t.cancelGenerationRequests g).requestOwners := by
    unfold Transport.onClose Transport.scheduleReconnect
    dsimp only
    split_ifs <;> rfl
  intro e he
  rw [howners] at he
  simpa using (JsMap.mem_deleteWhere.1 he).2

theorem cancels_closed {t : Transport Result} {g : ℕ} (hg : g < t.generations.length) :
    ∃ later, (t.step (.closed g)).history = later ++ t.history ∧
      ∀ e ∈ t.requestOwners.entries, e.2.generation = g → cancelOf e ∈ later := by
  rw [Transport.step, if_pos hg]
  generalize hclosed : (t.act (.closed g)).modifyGeneration g
    (fun generation => { generation with readyState := .closed }) = u
  have howners : u.requestOwners = t.requestOwners := by rw [← hclosed]; rfl
  have hhistory : u.history = [.closed g] ++ t.history := by rw [← hclosed]; rfl
  obtain ⟨later, hlater, hcancels⟩ := mem_cancelGenerationRequests (t := u) (g := g)
  rw [howners] at hcancels
  unfold Transport.onClose
  dsimp only
  split_ifs
  · obtain ⟨more, hmore⟩ := exists_history_scheduleReconnect
      { u.cancelGenerationRequests g with active := none }
    refine ⟨more ++ later ++ [.closed g], ?_, fun e he heq => ?_⟩
    · rw [hmore, hlater, hhistory]
      simp only [List.append_assoc]
    · simp [hcancels e he heq]
  · refine ⟨later ++ [.closed g], ?_, fun e he heq => List.mem_append_left _ (hcancels e he heq)⟩
    rw [hlater, hhistory, List.append_assoc]

theorem cancels_stop {t : Transport Result} (h : Owned t) :
    ∃ later, (t.step .stop).history = later ++ t.history ∧
      ∀ e ∈ t.requestOwners.entries, cancelOf e ∈ later := by
  show ∃ later, ((t.act .stopped).retire.closeActive t.active).history = _ ∧ _
  cases hactive : t.active with
  | none =>
      refine ⟨[.stopped], rfl, fun e he => ?_⟩
      exact nomatch hactive.symm.trans (h.active e he)
  | some g =>
      obtain ⟨later, hlater, hcancels⟩ :=
        mem_cancelGenerationRequests (t := (t.act .stopped).retire) (g := g)
      refine ⟨later ++ [.stopped], ?_, fun e he => ?_⟩
      · rw [List.append_assoc]
        exact hlater
      · have heq : e.2.generation = g := Option.some.inj ((h.active e he).symm.trans hactive)
        exact List.mem_append_left _ (hcancels e he heq)

/-! ## The law -/

theorem issues_iff {opening : List (Action Result)} {k : JsString} {owner : RequestOwner} :
    Issues opening (k, owner) ↔ ∃ sent request before,
      opening = .toController (.bound (.request k sent)) ::
        .received owner.generation (.request request) :: before ∧
      request.requestId = owner.brokerRequestId := by
  constructor
  · intro h
    unfold Issues at h
    split at h
    · obtain ⟨rfl, rfl⟩ := Prod.mk.inj h
      exact ⟨_, _, _, rfl, rfl⟩
    · exact h.elim
  · rintro ⟨sent, request, before, rfl, hid⟩
    exact Prod.ext rfl (by rw [hid])

/-- **Each answer goes where its request came from, and once**: what the broker is sent about a
request is the controller's about the request that came on the same generation under that id, which
has had neither an answer nor a cancel since. No two owners have one request, a cancel leaves none,
and the end of a generation cancels each of its owners and leaves none. -/
theorem request_ownership (uuid : JsString) (constructs : Bool) (events : List (Event Result)) :
    let t := (startSocketTransport uuid constructs).run events
    (∀ later g message earlier requestId,
      t.history = later ++ .toBroker g message :: earlier → message.about = some requestId →
      ∃ k reply since sent request before,
        earlier = .fromController reply :: since ++
          .toController (.bound (.request k sent)) :: .received g (.request request) :: before ∧
        reply.about = some k ∧ request.requestId = requestId ∧
        ∀ action ∈ since, ¬action.settles ⟨g, requestId⟩) ∧
    (∀ e ∈ t.requestOwners.entries, ∀ e' ∈ t.requestOwners.entries, e.2 = e'.2 → e = e') ∧
    (∀ g data uuid requestId, t.frame g data = some (.cancel requestId) →
      ∀ e ∈ (t.step (.message g data uuid)).requestOwners.entries, e.2 ≠ ⟨g, requestId⟩) ∧
    (∀ g < t.generations.length,
      (∀ e ∈ (t.step (.closed g)).requestOwners.entries, e.2.generation ≠ g) ∧
      ∃ later, (t.step (.closed g)).history = later ++ t.history ∧
        ∀ e ∈ t.requestOwners.entries, e.2.generation = g → cancelOf e ∈ later) ∧
    (t.step .stop).requestOwners.entries = [] ∧
    ∃ later, (t.step .stop).history = later ++ t.history ∧
      ∀ e ∈ t.requestOwners.entries, cancelOf e ∈ later := by
  intro t
  have h : Owned t := owned_run uuid constructs events
  refine ⟨?_, h.distinct, ?_, fun g hg => ⟨?_, cancels_closed hg⟩, h.stop.2, cancels_stop h⟩
  · intro later g message earlier requestId hsplit habout
    have hfits : Fits (.toBroker g message) earlier := (hsplit ▸ h.orderly).entry_fits
    obtain ⟨k, reply, rest, rfl, hreply, hlive⟩ := hfits requestId habout
    obtain ⟨since, opening, rfl, hissues, hsince⟩ := hlive.exists_opens
    obtain ⟨sent, request, before, rfl, hid⟩ := issues_iff.1 hissues
    exact ⟨k, reply, since, sent, request, before, rfl, hreply, hid, hsince⟩
  · intro g data uuid requestId hframe e he
    have hstep : t.step (.message g data uuid) =
        ((t.act (.received g (.cancel requestId))).accept g).receiveCancel g requestId := by
      rw [Transport.step, Transport.onMessage, hframe]
      rfl
    rw [hstep] at he
    exact (h.receiveCancel ((t.act (.received g (.cancel requestId))).accept g)
      (accept_requestOwners _ g) (accept_active _ g) (accept_history _ g)).2 e he
  · rw [Transport.step, if_pos hg]
    exact generation_ne_onClose

end FigmaDevMcp.Plugin

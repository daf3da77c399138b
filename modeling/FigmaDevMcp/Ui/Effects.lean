import FigmaDevMcp.Shared.Outbound
import FigmaDevMcp.Ui.Forwarding
import FigmaDevMcp.Ui.Reconnect

set_option autoImplicit false

/-!
# What an event does to the owners

Every event of the user interface but a message of the controller leaves the owners as they are,
registers one owner and sends its request, or removes owners and sends a cancel for each of them. A
message of the controller removes at most the owner it is about.

* `Effect`, `exists_outcome_step`: the events of the sockets, the timers and the stop function;
* `Relay`, `exists_relay_step`: the messages of the controller;
* `rank_step`: a socket only goes forward.
-/

namespace FigmaDevMcp.Plugin

open JsValue

variable {Result : Type}

/-- What the controller is sent. -/
def Action.message? : Action Result → Option ControllerMessage
  | .toController message => some message
  | _ => none

/-- What comes of a message of the controller. -/
def Action.Relays : Action Result → Prop
  | .fromController _ => True
  | .toBroker _ message => message.about ≠ none
  | _ => False

/-- What the main thread is told of a cancellation. -/
def cancelMessage (e : JsString × RequestOwner) : ControllerMessage :=
  .bound (.cancel e.1 e.2.brokerRequestId)

/-- What the controller has been sent by the entries of a history, in the order of time. -/
def messagesOf (later : List (Action Result)) : List ControllerMessage :=
  later.reverse.filterMap Action.message?

@[simp] theorem messagesOf_cons (action : Action Result) (later : List (Action Result)) :
    messagesOf (action :: later) = messagesOf later ++ action.message?.toList := by
  rw [messagesOf, List.reverse_cons, List.filterMap_append]
  cases h : action.message? <;> simp [messagesOf, h]

@[simp] theorem messagesOf_append (later later' : List (Action Result)) :
    messagesOf (later ++ later') = messagesOf later' ++ messagesOf later := by
  rw [messagesOf, List.reverse_append, List.filterMap_append]
  rfl

theorem messagesOf_cancels (cancelled : List (JsString × RequestOwner)) :
    messagesOf (cancelled.map (@cancelOf Result)).reverse = cancelled.map cancelMessage := by
  rw [messagesOf, List.reverse_reverse]
  induction cancelled with
  | nil => rfl
  | cons e cancelled ih => exact congrArg (cancelMessage e :: ·) ih

/-- **What an event does**, with what the controller is sent for it. -/
inductive Effect (event : Event Result) (t t' : Transport Result) : List ControllerMessage → Prop
  | idle (howners : t'.requestOwners = t.requestOwners) : Effect event t t' []
  | asks (howners : t'.requestOwners = t.requestOwners) (id : JsString) :
    Effect event t t' [.requestControllerReady id]
  | issues {g : ℕ} {data : Option JsString} {uuid k : JsString} {r : Request}
    (hevent : event = .message g data uuid) (huuid : parseUuid (.string uuid) = .ok k)
    (hparsed : ParsedRequest r) (hblank : ¬ BlankCursor r.operation) (hopen : t.isActiveOpen g = true)
    (howners : t'.requestOwners = t.requestOwners.set k ⟨g, r.requestId⟩) :
    Effect event t t' [.bound (.request k r)]
  | cancels (p : JsString × RequestOwner → Bool)
    (howners : t'.requestOwners = t.requestOwners.deleteWhere p) :
    Effect event t t' ((t.requestOwners.entries.filter p).map cancelMessage)

/-- An event and the entries that it adds to the history. -/
structure Outcome (event : Event Result) (t t' : Transport Result) (later : List (Action Result)) :
    Prop where
  history : t'.history = later ++ t.history
  effect : Effect event t t' (messagesOf later)
  own : ∀ x ∈ later, ¬x.Relays

/-- The ids of the owners are those that the parsers take. -/
def Transport.Addressed (t : Transport Result) : Prop :=
  ∀ e ∈ t.requestOwners.entries, Plugin.Addressed e.1 e.2.brokerRequestId

section

variable {event : Event Result} {t t' : Transport Result}

/-- An entry that neither is sent to the controller nor comes of its messages. -/
def Action.Plain (x : Action Result) : Prop := x.message? = none ∧ ¬x.Relays

theorem messagesOf_plain {later : List (Action Result)} (h : ∀ x ∈ later, x.Plain) :
    messagesOf later = [] := by
  rw [messagesOf, List.filterMap_eq_nil_iff]
  exact fun x hx => (h x (List.mem_reverse.1 hx)).1

/-- What leaves the owners and the controller alone. -/
theorem Outcome.idle {later : List (Action Result)} (hlater : ∀ x ∈ later, x.Plain)
    (howners : t'.requestOwners = t.requestOwners) (hhistory : t'.history = later ++ t.history) :
    Outcome event t t' later := by
  refine ⟨hhistory, ?_, fun x hx => (hlater x hx).2⟩
  rw [messagesOf_plain hlater]
  exact .idle howners

/-- What removes owners and cancels them. -/
theorem Outcome.cancels {p : JsString × RequestOwner → Bool} {before after : List (Action Result)}
    (hbefore : ∀ x ∈ before, x.Plain) (hafter : ∀ x ∈ after, x.Plain)
    (howners : t'.requestOwners = t.requestOwners.deleteWhere p)
    (hhistory : t'.history =
      after ++ ((t.requestOwners.entries.filter p).map cancelOf).reverse ++ before ++ t.history) :
    Outcome event t t'
      (after ++ ((t.requestOwners.entries.filter p).map cancelOf).reverse ++ before) := by
  refine ⟨hhistory, ?_, fun x hx => ?_⟩
  · rw [messagesOf_append, messagesOf_append, messagesOf_plain hbefore, messagesOf_plain hafter,
      messagesOf_cancels, List.append_nil, List.nil_append]
    exact .cancels p howners
  · rcases List.mem_append.1 hx with hx | hx
    · rcases List.mem_append.1 hx with hx | hx
      · exact (hafter x hx).2
      · obtain ⟨e, -, rfl⟩ := List.mem_map.1 (List.mem_reverse.1 hx)
        exact id
    · exact (hbefore x hx).2

end

/-! ## The events -/

section

variable {event : Event Result} {t : Transport Result}

theorem plain_singleton {x : Action Result} (h : x.Plain) : ∀ y ∈ [x], y.Plain := by
  intro y hy
  rw [List.mem_singleton.1 hy]
  exact h

theorem plain_scheduleReconnect (t : Transport Result) :
    ∃ later, (∀ x ∈ later, x.Plain) ∧ t.scheduleReconnect.requestOwners = t.requestOwners ∧
      t.scheduleReconnect.history = later ++ t.history := by
  unfold Transport.scheduleReconnect
  split_ifs
  · exact ⟨[], List.forall_mem_nil _, rfl, rfl⟩
  · exact ⟨[_], plain_singleton ⟨rfl, id⟩, rfl, rfl⟩

theorem exists_outcome_onOpen (g : ℕ) (f : SocketGeneration → SocketGeneration) :
    ∃ later, Outcome event t ((t.modifyGeneration g f).onOpen g) later := by
  unfold Transport.onOpen
  split
  · refine ⟨[.toController (.requestControllerReady _)], rfl, ?_, fun x hx => ?_⟩
    · exact .asks (by rfl) _
    · rw [List.mem_singleton.1 hx]
      exact id
  · exact ⟨[], .idle (List.forall_mem_nil _) rfl rfl⟩

theorem exists_outcome_onClose (g : ℕ) (f : SocketGeneration → SocketGeneration) :
    ∃ later, Outcome event t (((t.act (.closed g)).modifyGeneration g f).onClose g) later := by
  have hclosed : ∀ x ∈ [(Action.closed g : Action Result)], x.Plain := plain_singleton ⟨rfl, id⟩
  unfold Transport.onClose
  dsimp only
  split_ifs
  · obtain ⟨later, hlater, howners, hhistory⟩ := plain_scheduleReconnect
      { ((t.act (.closed g)).modifyGeneration g f).cancelGenerationRequests g with active := none }
    refine ⟨_, .cancels (p := fun e => e.2.generation = g) hclosed hlater howners ?_⟩
    rw [hhistory, List.append_assoc, List.append_assoc]
    rfl
  · refine ⟨_, .cancels (p := fun e => e.2.generation = g) hclosed
      (List.forall_mem_nil _) rfl ?_⟩
    rw [List.append_assoc]
    rfl

theorem exists_outcome_stop : ∃ later, Outcome event t (t.act .stopped).stop later := by
  have hstopped : ∀ x ∈ [(Action.stopped : Action Result)], x.Plain := plain_singleton ⟨rfl, id⟩
  show ∃ later, Outcome event t ((t.act .stopped).retire.closeActive t.active) later
  cases t.active with
  | none => exact ⟨_, .idle hstopped rfl rfl⟩
  | some g =>
      refine ⟨_, .cancels (p := fun e => e.2.generation = g) hstopped
        (List.forall_mem_nil _) rfl ?_⟩
      rw [List.append_assoc]
      rfl

theorem exists_outcome_connect {u : Transport Result} (howners : u.requestOwners = t.requestOwners)
    (hhistory : u.history = t.history) (uuid : JsString) (constructs : Bool) :
    ∃ later, Outcome event t (u.connect uuid constructs) later := by
  unfold Transport.connect
  split_ifs
  · exact ⟨[], .idle (List.forall_mem_nil _) howners hhistory⟩
  · exact ⟨[], .idle (List.forall_mem_nil _) howners hhistory⟩
  · obtain ⟨later, hlater, howners', hhistory'⟩ := plain_scheduleReconnect u
    refine ⟨later, .idle hlater (howners'.trans howners) ?_⟩
    rw [hhistory', hhistory]

/-! ## Frames -/

theorem isActiveOpen_of_frame {g : ℕ} {data : Option JsString} {message : BrokerToPlugin}
    (h : t.frame g data = some message) : t.isActiveOpen g = true := by
  unfold Transport.frame at h
  split_ifs at h with hopen
  exact (Bool.and_eq_true_iff.1 hopen).1

variable {u : Transport Result} {g : ℕ} {data : Option JsString} {uuid : JsString}

theorem plain_received (g : ℕ) (message : BrokerToPlugin) :
    ∀ x ∈ [(Action.received g message : Action Result)], x.Plain := plain_singleton ⟨rfl, id⟩

/-- **A request** is issued when it is new and is parsed under its new id. -/
theorem exists_outcome_request {r : Request} (hparsed : ParsedRequest r)
    (hopen : t.isActiveOpen g = true) (howners : u.requestOwners = t.requestOwners)
    (hhistory : u.history = .received g (.request r) :: t.history) :
    ∃ later, Outcome (.message g data uuid) t (u.receiveRequest g r uuid) later := by
  have hidle : Outcome (.message g data uuid) t u [.received g (.request r)] :=
    .idle (plain_received g _) howners hhistory
  cases hfind : u.findGenerationRequest g r.requestId with
  | some e =>
      rw [Transport.receiveRequest, hfind]
      exact ⟨_, hidle⟩
  | none =>
      cases huuid : parseUuid (.string uuid) with
      | error e =>
          have hdropped : controllerRequest r uuid = .error e := by
            rw [controllerRequest, huuid]
            rfl
          rw [receiveRequest_of_dropped hdropped]
          exact ⟨_, hidle⟩
      | ok k =>
          obtain ⟨hsent, hdropped⟩ := controllerRequest_of_parsed hparsed huuid
          by_cases hblank : BlankCursor r.operation
          · obtain ⟨e, he⟩ := hdropped hblank
            rw [receiveRequest_of_dropped he]
            exact ⟨_, hidle⟩
          · rw [receiveRequest_of_sent hfind (hsent hblank)]
            refine ⟨[.toController (.bound (.request k r)), .received g (.request r)], ?_, ?_, ?_⟩
            · show _ :: u.history = _
              rw [hhistory]
              rfl
            · refine .issues rfl huuid hparsed hblank hopen ?_
              show u.requestOwners.set k _ = _
              rw [howners]
            · intro x hx
              rcases List.mem_cons.1 hx with rfl | hx
              · exact id
              · exact (plain_received g _ x hx).2

theorem filter_key {m : JsMap JsString RequestOwner} {e : JsString × RequestOwner}
    (h : e ∈ m.entries) : m.entries.filter (fun e' => decide (e'.1 = e.1)) = [e] := by
  have hmem : e ∈ m.entries.filter fun e' => decide (e'.1 = e.1) :=
    List.mem_filter.2 ⟨h, decide_eq_true rfl⟩
  have hlength : (m.entries.filter fun e' => decide (e'.1 = e.1)).length ≤ 1 :=
    m.length_filter_key fun e' _ => of_decide_eq_true
  obtain ⟨a, ha⟩ := List.length_eq_one_iff.1 (le_antisymm hlength (List.length_pos_of_mem hmem))
  rw [ha] at hmem ⊢
  rw [List.mem_singleton.1 hmem]

/-- **A cancel** removes the owner it is about. -/
theorem exists_outcome_cancel {requestId : JsString} (h : t.Addressed)
    (howners : u.requestOwners = t.requestOwners)
    (hhistory : u.history = .received g (.cancel requestId) :: t.history) :
    ∃ later, Outcome event t (u.receiveCancel g requestId) later := by
  cases hfind : u.findGenerationRequest g requestId with
  | none =>
      rw [Transport.receiveCancel, hfind]
      exact ⟨_, .idle (plain_received g _) howners hhistory⟩
  | some e =>
      obtain ⟨hmem, -⟩ := findGenerationRequest_eq_some hfind
      rw [howners] at hmem
      have hparsed := parseControllerBoundMessage_cancel (h e hmem)
      have hstep : u.receiveCancel g requestId =
          { u with requestOwners := u.requestOwners.delete e.1 }.act (cancelOf e) := by
        rw [Transport.receiveCancel, hfind]
        dsimp only
        rw [hparsed]
        rfl
      rw [hstep]
      have hcancels : ((t.requestOwners.entries.filter fun e' => decide (e'.1 = e.1)).map
          (@cancelOf Result)).reverse = [cancelOf e] := by
        rw [filter_key hmem]
        rfl
      refine ⟨_, .cancels (p := fun e' => decide (e'.1 = e.1)) (plain_received g (.cancel requestId))
        (List.forall_mem_nil _) ?_ ?_⟩
      · show u.requestOwners.delete e.1 = _
        rw [howners]
        rfl
      · show cancelOf e :: u.history = _
        rw [hcancels, hhistory]
        rfl

theorem exists_outcome_message (h : t.Addressed) (g : ℕ) (data : Option JsString) (uuid : JsString) :
    ∃ later, Outcome (.message g data uuid) t (t.onMessage g data uuid) later := by
  unfold Transport.onMessage
  cases hframe : t.frame g data with
  | none => exact ⟨[], .idle (List.forall_mem_nil _) rfl rfl⟩
  | some message =>
      dsimp only
      have howners := accept_requestOwners (t.act (.received g message)) g
      have hhistory := accept_history (t.act (.received g message)) g
      cases message with
      | request r =>
          exact exists_outcome_request (parsedRequest_of_frame hframe) (isActiveOpen_of_frame hframe)
            howners hhistory
      | cancel requestId => exact exists_outcome_cancel h howners hhistory
      | ping nonce =>
          have hpong : (Action.toBroker g (.pong nonce) : Action Result).Plain := ⟨rfl, fun h => h rfl⟩
          refine ⟨[.toBroker g (.pong nonce), .received g (.ping nonce)], .idle (fun x hx => ?_)
            howners ?_⟩
          · rcases List.mem_cons.1 hx with rfl | hx
            · exact hpong
            · exact plain_received g _ x hx
          · exact congrArg (Action.toBroker g (.pong nonce) :: ·) hhistory

/-- **What an event does** that is no message of the controller. -/
theorem exists_outcome_step (h : t.Addressed) (event : Event Result)
    (hevent : ∀ message uuid, event ≠ .controller message uuid) :
    ∃ later, Outcome event t (t.step event) later := by
  cases event with
  | opened g => exact exists_outcome_onOpen g _
  | message g data uuid => exact exists_outcome_message h g data uuid
  | controller message uuid => exact absurd rfl (hevent message uuid)
  | failed g => exact ⟨[], .idle (List.forall_mem_nil _) rfl rfl⟩
  | closed g =>
      rw [Transport.step]
      split_ifs
      · exact exists_outcome_onClose g _
      · exact ⟨[], .idle (List.forall_mem_nil _) rfl rfl⟩
  | timer timer uuid constructs =>
      rw [Transport.step, Transport.onTimer]
      split_ifs
      · exact exists_outcome_connect (by rfl) (by rfl) uuid constructs
      · exact ⟨[], .idle (List.forall_mem_nil _) rfl rfl⟩
  | stop => exact exists_outcome_stop

end

/-! ## Messages of the controller -/

/-- The request that a message ends. -/
def ControllerOutboundMessage.ends : ControllerOutboundMessage Result → Option JsString
  | .response controllerRequestId _ _ | .error controllerRequestId _ _ => some controllerRequestId
  | .controllerReady _ | .progress _ _ _ => none

/-- What the broker is sent for a message about a request. -/
def ControllerOutboundMessage.relayed (requestId : JsString) :
    ControllerOutboundMessage Result → Option (PluginToBroker Result)
  | .controllerReady _ => none
  | .progress _ _ p => some (.progress requestId p)
  | .response _ _ result => some (.response requestId result)
  | .error _ _ failure => some (.error requestId failure)

/-- **What comes of a message of the controller**, with what the broker is sent. -/
structure Relay (t t' : Transport Result) (m : ControllerOutboundMessage Result)
    (sent : List (ℕ × PluginToBroker Result)) : Prop where
  history : t'.history = sent.map (fun p => .toBroker p.1 p.2) ++ .fromController m :: t.history
  one : sent.length ≤ 1
  faithful : ∀ p ∈ sent, ∀ requestId, p.2.about = some requestId → m.relayed requestId = some p.2
  addressee : ∀ p ∈ sent, ∀ requestId k, p.2.about = some requestId → m.ends = some k →
    (k, ⟨p.1, requestId⟩) ∈ t.requestOwners.entries
  owners : (t'.requestOwners = t.requestOwners ∧ ∀ k owner, m.ends = some k →
      (k, owner) ∈ t.requestOwners.entries → t.isActiveOpen owner.generation = false) ∨
    ∃ k, m.ends = some k ∧ t'.requestOwners = t.requestOwners.delete k

section

variable {t u : Transport Result} {m : ControllerOutboundMessage Result}

theorem Relay.quiet (howners : u.requestOwners = t.requestOwners)
    (hhistory : u.history = .fromController m :: t.history)
    (hclosed : ∀ k owner, m.ends = some k → (k, owner) ∈ t.requestOwners.entries →
      t.isActiveOpen owner.generation = false) : Relay t u m [] :=
  ⟨hhistory, Nat.zero_le _, List.forall_mem_nil _, List.forall_mem_nil _, Or.inl ⟨howners, hclosed⟩⟩

/-- What the owner of a request is sent. -/
theorem exists_relay_sendToOwner {k : JsString} {terminal : Bool}
    {message : JsString → PluginToBroker Result}
    (hends : m.ends = if terminal then some k else none)
    (habout : ∀ requestId, (message requestId).about = some requestId ∧
      m.relayed requestId = some (message requestId)) :
    ∃ sent, Relay t ((t.act (.fromController m)).sendToOwner k terminal message) m sent := by
  have hget : (t.act (.fromController m)).requestOwners.get k = t.requestOwners.get k := rfl
  cases howner : t.requestOwners.get k with
  | none =>
      have hstep : (t.act (.fromController m)).sendToOwner k terminal message =
          t.act (.fromController m) := by
        rw [Transport.sendToOwner, hget, howner]
      rw [hstep]
      refine ⟨[], .quiet rfl rfl fun k' owner hk' hmem => ?_⟩
      rw [hends] at hk'
      split_ifs at hk' with hterminal
      obtain rfl := Option.some.inj hk'
      rw [JsMap.get_eq_some.2 hmem] at howner
      cases howner
  | some owner =>
      have hstep : (t.act (.fromController m)).sendToOwner k terminal message =
          if t.isActiveOpen owner.generation then
            { t.act (.fromController m) with
              requestOwners := if terminal then t.requestOwners.delete k else t.requestOwners }.act
              (.toBroker owner.generation (message owner.brokerRequestId))
          else t.act (.fromController m) := by
        rw [Transport.sendToOwner, hget, howner]
        rfl
      rw [hstep]
      by_cases hopen : t.isActiveOpen owner.generation = true
      · rw [if_pos hopen]
        obtain ⟨hid, hrelayed⟩ := habout owner.brokerRequestId
        refine ⟨[(owner.generation, message owner.brokerRequestId)], rfl, le_rfl, ?_, ?_, ?_⟩
        · intro p hp requestId hp'
          rw [List.mem_singleton.1 hp] at hp' ⊢
          obtain rfl := Option.some.inj (hid.symm.trans hp')
          exact hrelayed
        · intro p hp requestId k' hp' hk'
          rw [List.mem_singleton.1 hp] at hp' ⊢
          obtain rfl := Option.some.inj (hid.symm.trans hp')
          rw [hends] at hk'
          split_ifs at hk' with hterminal
          obtain rfl := Option.some.inj hk'
          exact JsMap.get_eq_some.1 howner
        · cases terminal with
          | true => exact Or.inr ⟨k, hends, rfl⟩
          | false =>
              refine Or.inl ⟨rfl, fun k' owner' hk' => ?_⟩
              rw [hends] at hk'
              cases hk'
      · rw [if_neg hopen]
        refine ⟨[], .quiet rfl rfl fun k' owner' hk' hmem => ?_⟩
        rw [hends] at hk'
        split_ifs at hk' with hterminal
        obtain rfl := Option.some.inj hk'
        obtain rfl := Option.some.inj (howner.symm.trans (JsMap.get_eq_some.2 hmem))
        exact Bool.eq_false_iff.2 hopen

/-- **What comes of a message of the controller** that is listened to. -/
theorem exists_relay_step (hlistening : t.listening = true) (uuid : JsString) :
    ∃ sent, Relay t (t.step (.controller m uuid)) m sent := by
  rw [Transport.step, if_pos hlistening]
  cases m with
  | controllerReady ready =>
      have hquiet : Relay t (t.act (.fromController (.controllerReady ready)))
          (.controllerReady ready) [] := .quiet rfl rfl fun _ _ h => by cases h
      show ∃ sent, Relay t (Transport.receiveReady _ ready uuid) _ sent
      unfold Transport.receiveReady
      split
      · exact ⟨[], hquiet⟩
      · rename_i g _
        split_ifs
        · unfold Transport.sendHello
          split
          · exact ⟨[], hquiet⟩
          · rename_i hello _
            refine ⟨[(g, .hello hello)], rfl, le_rfl, fun p hp requestId hid => ?_,
              fun p hp requestId k hid hk => ?_, Or.inl ⟨rfl, fun k owner hk => ?_⟩⟩
            · rw [List.mem_singleton.1 hp] at hid
              cases hid
            · cases hk
            · cases hk
        · exact ⟨[], hquiet⟩
  | progress k _ p =>
      rw [Transport.receiveController]
      exact exists_relay_sendToOwner rfl fun requestId => ⟨rfl, rfl⟩
  | response k _ result =>
      rw [Transport.receiveController]
      exact exists_relay_sendToOwner rfl fun requestId => ⟨rfl, rfl⟩
  | error k _ failure =>
      rw [Transport.receiveController]
      exact exists_relay_sendToOwner rfl fun requestId => ⟨rfl, rfl⟩

end

/-! ## Sockets go forward -/

/-- The states of a socket in the order in which it goes through them. -/
def ReadyState.rank : ReadyState → ℕ
  | .connecting => 0
  | .opened => 1
  | .closing => 2
  | .closed => 3

/-- The sockets that were there are where they were, or further. -/
def Forward (t t' : Transport Result) : Prop :=
  ∀ (g : ℕ) (x : ReadyState), t.readyStates[g]? = some x → ∃ y : ReadyState, t'.readyStates[g]? = some y ∧ x.rank ≤ y.rank

section

variable {t t' : Transport Result}

theorem forward_of_readyStates (h : t'.readyStates = t.readyStates) : Forward t t' := by
  intro g x hx
  exact ⟨x, h ▸ hx, le_rfl⟩

theorem forward_modifyGeneration {f : SocketGeneration → SocketGeneration}
    (hf : ∀ x, x.readyState.rank ≤ (f x).readyState.rank) (g : ℕ)
    (h : t'.readyStates = (t.modifyGeneration g f).readyStates) : Forward t t' := by
  intro g' x hx
  rw [h]
  unfold Transport.readyStates Transport.modifyGeneration at *
  rw [List.getElem?_map] at hx ⊢
  obtain ⟨generation, hgeneration, rfl⟩ := Option.map_eq_some_iff.1 hx
  rw [List.getElem?_modify, hgeneration]
  refine ⟨_, rfl, ?_⟩
  by_cases hg : g = g'
  · simp [hg, hf]
  · simp [hg]

theorem rank_establish (x : SocketGeneration) : x.readyState.rank ≤ x.establish.readyState.rank := by
  unfold SocketGeneration.establish
  cases hx : x.readyState <;> simp [hx, ReadyState.rank]

theorem rank_close (x : SocketGeneration) : x.readyState.rank ≤ x.close.readyState.rank := by
  unfold SocketGeneration.close
  cases hx : x.readyState <;> simp [hx, ReadyState.rank]

theorem readyStates_scheduleReconnect (t : Transport Result) :
    t.scheduleReconnect.readyStates = t.readyStates := by
  unfold Transport.scheduleReconnect
  split_ifs <;> rfl

theorem forward_connect (t : Transport Result) (uuid : JsString) (constructs : Bool) :
    Forward t (t.connect uuid constructs) := by
  unfold Transport.connect
  split_ifs
  · exact forward_of_readyStates rfl
  · intro g x hx
    refine ⟨x, ?_, le_rfl⟩
    show ((t.generations ++ [_]).map SocketGeneration.readyState)[g]? = _
    obtain ⟨hlt, -⟩ := List.getElem?_eq_some_iff.1 hx
    rw [List.map_append]
    exact (List.getElem?_append_left hlt).trans hx
  · exact forward_of_readyStates (readyStates_scheduleReconnect t)

theorem forward_step (t : Transport Result) (event : Event Result) : Forward t (t.step event) := by
  cases event with
  | opened g =>
      refine forward_modifyGeneration rank_establish g ?_
      show (Transport.onOpen _ _).readyStates = _
      unfold Transport.onOpen
      split <;> rfl
  | message g data uuid =>
      refine forward_of_readyStates ?_
      show (Transport.onMessage _ _ _ _).readyStates = _
      unfold Transport.onMessage
      split
      · rfl
      · rename_i message _
        exact (apart_receiveFrame _ g uuid message).1.readyStates.trans
          (sameSockets_accept (t.act (.received g message)) g).readyStates
  | controller message uuid =>
      refine forward_of_readyStates ?_
      rw [Transport.step]
      split_ifs
      · exact (apart_receiveController (t.act (.fromController message)) uuid message).1.readyStates
      · rfl
  | failed g => exact forward_modifyGeneration rank_close g rfl
  | closed g =>
      rw [Transport.step]
      split_ifs
      · refine forward_modifyGeneration (f := fun generation =>
          { generation with readyState := .closed }) (fun x => ?_) g ?_
        · show x.readyState.rank ≤ ReadyState.closed.rank
          cases x.readyState <;> decide
        · unfold Transport.onClose
          dsimp only
          split_ifs
          · exact readyStates_scheduleReconnect _
          · rfl
      · exact forward_of_readyStates rfl
  | timer timer uuid constructs =>
      rw [Transport.step, Transport.onTimer]
      split_ifs
      · exact forward_connect { t with timers := t.timers.erase timer, reconnectTimer := none } uuid
          constructs
      · exact forward_of_readyStates rfl
  | stop =>
      show Forward t ((t.act .stopped).retire.closeActive t.active)
      cases t.active with
      | none => exact forward_of_readyStates rfl
      | some g => exact forward_modifyGeneration rank_close g rfl

end

end FigmaDevMcp.Plugin

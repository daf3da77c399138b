import FigmaDevMcp.Ui.FramesSent

set_option autoImplicit false

/-!
# The frames of a socket

Whatever happens, the first frame of a socket is its hello, and no other hello comes after it. What
is sent after it is about a request that came on the socket, or answers a ping.

* `sentOf`, `framesOn`: what the broker has been sent, and on one socket;
* `Hushed`, `Sends`: an event sends nothing, a hello, or a frame after the hello;
* `Sending`: **what holds of every run**, with `sends_step` and `sending_run`.
-/

namespace FigmaDevMcp.Plugin

open JsValue

variable {Result : Type}

/-- The frame that an action sends, with its generation. -/
def Action.sent? : Action Result → Option (ℕ × PluginToBroker Result)
  | .toBroker g message => some (g, message)
  | _ => none

/-- What the broker has been sent, in the order of time. -/
def sentOf (history : List (Action Result)) : List (ℕ × PluginToBroker Result) :=
  history.reverse.filterMap Action.sent?

/-- The frames of one socket. -/
def framesOn (g : ℕ) (history : List (Action Result)) : List (PluginToBroker Result) :=
  (sentOf history).filterMap fun p => if p.1 = g then some p.2 else none

/-- The frame is a hello. -/
def PluginToBroker.isHello : PluginToBroker Result → Bool
  | .hello _ => true
  | _ => false

/-- The generation has sent its hello. -/
def Transport.saidHello (t : Transport Result) (g : ℕ) : Bool := t.meets g fun x => x.helloSent

theorem sentOf_append (later history : List (Action Result)) :
    sentOf (later ++ history) = sentOf history ++ sentOf later := by
  rw [sentOf, List.reverse_append, List.filterMap_append]
  rfl

theorem sentOf_cons (action : Action Result) (history : List (Action Result)) :
    sentOf (action :: history) = sentOf history ++ action.sent?.toList := by
  rw [sentOf, List.reverse_cons, List.filterMap_append]
  cases h : action.sent? <;> simp [sentOf, h]

theorem framesOn_append_one {g g' : ℕ} {m : PluginToBroker Result} {history history' : List (Action Result)}
    (h : sentOf history' = sentOf history ++ [(g', m)]) :
    framesOn g history' = framesOn g history ++ if g' = g then [m] else [] := by
  rw [framesOn, h, List.filterMap_append]
  split_ifs with hg <;> simp [framesOn, hg]

/-! ## Nothing is sent -/

/-- The broker is sent nothing, and no owner comes. -/
structure Hushed (t t' : Transport Result) : Prop where
  sent : sentOf t'.history = sentOf t.history
  hello : ∀ g, t'.saidHello g = t.saidHello g
  owners : ∀ e ∈ t'.requestOwners.entries, e ∈ t.requestOwners.entries

section

variable {t t' u : Transport Result} {g : ℕ}

theorem Hushed.refl (t : Transport Result) : Hushed t t := ⟨rfl, fun _ => rfl, fun _ => id⟩

theorem Hushed.trans (h : Hushed t u) (h' : Hushed u t') : Hushed t t' :=
  ⟨h'.sent.trans h.sent, fun g => (h'.hello g).trans (h.hello g), fun e he => h.owners e (h'.owners e he)⟩

theorem saidHello_congr (h : t'.generations = t.generations) (g : ℕ) : t'.saidHello g = t.saidHello g := by
  rw [Transport.saidHello, Transport.meets, h]
  rfl

/-- What is no frame may be added. -/
theorem hushed_of_history {action : Action Result} (haction : action.sent? = none)
    (hgenerations : t'.generations = t.generations) (howners : t'.requestOwners = t.requestOwners)
    (h : t'.history = action :: t.history) : Hushed t t' := by
  refine ⟨?_, saidHello_congr hgenerations, fun e he => howners ▸ he⟩
  rw [h, sentOf_cons, haction]
  exact List.append_nil _

theorem hushed_act (t : Transport Result) {action : Action Result} (h : action.sent? = none) :
    Hushed t (t.act action) := hushed_of_history h rfl rfl rfl

theorem saidHello_modifyGeneration {f : SocketGeneration → SocketGeneration}
    (hf : ∀ x, (f x).helloSent = x.helloSent) (t : Transport Result) (g g' : ℕ) :
    (t.modifyGeneration g f).saidHello g' = t.saidHello g' := by
  unfold Transport.saidHello Transport.meets Transport.modifyGeneration
  rw [List.getElem?_modify]
  cases t.generations[g']? with
  | none => rfl
  | some x => by_cases hg : g = g' <;> simp [hg, hf]

theorem hushed_modifyGeneration {f : SocketGeneration → SocketGeneration}
    (hf : ∀ x, (f x).helloSent = x.helloSent) (t : Transport Result) (g : ℕ) :
    Hushed t (t.modifyGeneration g f) :=
  ⟨rfl, saidHello_modifyGeneration hf t g, fun _ => id⟩

theorem helloSent_establish (x : SocketGeneration) : x.establish.helloSent = x.helloSent := by
  unfold SocketGeneration.establish
  split <;> rfl

theorem helloSent_close (x : SocketGeneration) : x.close.helloSent = x.helloSent := by
  unfold SocketGeneration.close
  split <;> rfl

theorem hushed_cancelGenerationRequests (t : Transport Result) (g : ℕ) :
    Hushed t (t.cancelGenerationRequests g) := by
  refine ⟨?_, fun _ => rfl, fun e he => (JsMap.mem_deleteWhere.1 he).1⟩
  have hnone : sentOf ((t.requestOwners.entries.filter fun e => e.2.generation = g).map
      (@cancelOf Result)).reverse = [] := by
    rw [sentOf, List.filterMap_eq_nil_iff]
    intro action haction
    obtain ⟨e, -, rfl⟩ := List.mem_map.1 (List.mem_reverse.1 (List.mem_reverse.1 haction))
    rfl
  show sentOf (_ ++ t.history) = _
  rw [sentOf_append, hnone, List.append_nil]

theorem hushed_scheduleReconnect (t : Transport Result) : Hushed t t.scheduleReconnect := by
  unfold Transport.scheduleReconnect
  split_ifs
  · exact .refl t
  · have htimer : (Action.setTimeout (reconnectDelay t.reconnectAttempt) : Action Result).sent? = none := rfl
    exact hushed_of_history htimer rfl rfl rfl

theorem hushed_connect (t : Transport Result) (uuid : JsString) (constructs : Bool) :
    Hushed t (t.connect uuid constructs) := by
  unfold Transport.connect
  split_ifs
  · exact .refl t
  · refine ⟨rfl, fun g => ?_, fun _ => id⟩
    unfold Transport.saidHello Transport.meets
    rw [List.getElem?_append]
    split_ifs with hg
    · rfl
    · rw [List.getElem?_eq_none (Nat.le_of_not_lt hg)]
      cases hnew : ([{ metadataRequestId := uuid }] : List SocketGeneration)[g - t.generations.length]? with
      | none => rfl
      | some x =>
          obtain rfl := List.mem_singleton.1 (List.mem_of_getElem? hnew)
          rfl
  · exact hushed_scheduleReconnect t

theorem hushed_accept (t : Transport Result) (g : ℕ) : Hushed t (t.accept g) := by
  unfold Transport.accept
  split_ifs
  · have hsaid := saidHello_modifyGeneration
      (f := fun generation => { generation with acceptedSinceOpen := true }) (fun _ => rfl) t g
    exact ⟨rfl, fun g' => (saidHello_congr (by rfl) g').trans (hsaid g'), fun _ => id⟩
  · exact .refl t

theorem hushed_onClose (t : Transport Result) (g : ℕ) : Hushed t (t.onClose g) := by
  unfold Transport.onClose
  dsimp only
  split_ifs
  · have hclosed : Hushed (t.cancelGenerationRequests g)
        { t.cancelGenerationRequests g with active := none } := ⟨rfl, fun _ => rfl, fun _ => id⟩
    exact ((hushed_cancelGenerationRequests t g).trans hclosed).trans (hushed_scheduleReconnect _)
  · exact hushed_cancelGenerationRequests t g

theorem hushed_stop (t : Transport Result) : Hushed t t.stop := by
  have hretire : Hushed t t.retire := ⟨rfl, fun _ => rfl, fun _ => id⟩
  rw [Transport.stop]
  cases t.active with
  | none => exact hretire
  | some g =>
      exact (hretire.trans (hushed_cancelGenerationRequests _ g)).trans
        (hushed_modifyGeneration helloSent_close _ g)

theorem hushed_receiveCancel (t : Transport Result) (g : ℕ) (requestId : JsString) :
    Hushed t (t.receiveCancel g requestId) := by
  unfold Transport.receiveCancel
  split
  · exact .refl t
  · rename_i k owner _
    have hdeleted : Hushed t { t with requestOwners := t.requestOwners.delete k } :=
      ⟨rfl, fun _ => rfl, fun e he => (JsMap.mem_deleteWhere.1 he).1⟩
    dsimp only
    split
    · exact hdeleted
    · exact hdeleted.trans (hushed_act _ rfl)

end

/-! ## What is sent -/

/-- What an event sends, with the owner that it registers. -/
inductive Sends (t t' : Transport Result) : Prop
  | hushed (h : Hushed t t')
  | registers (g : ℕ) (requestId : JsString) (hname : IsName requestId) (hhello : t.saidHello g = true)
    (hsent : sentOf t'.history = sentOf t.history) (hsaid : ∀ g, t'.saidHello g = t.saidHello g)
    (howners : ∀ e ∈ t'.requestOwners.entries, e ∈ t.requestOwners.entries ∨ e.2 = ⟨g, requestId⟩)
  | greets (g : ℕ) (h : Hello) (hnew : t.saidHello g = false) (hsendable : h.Sendable)
    (hsent : sentOf t'.history = sentOf t.history ++ [(g, .hello h)])
    (hsaid : ∀ g', t'.saidHello g' = (t.saidHello g' || decide (g' = g)))
    (howners : ∀ e ∈ t'.requestOwners.entries, e ∈ t.requestOwners.entries)
  | frame (g : ℕ) (m : PluginToBroker Result) (hhello : t.saidHello g = true)
    (hm : m.isHello = false) (hsendable : m.Sendable)
    (hsent : sentOf t'.history = sentOf t.history ++ [(g, m)])
    (hsaid : ∀ g, t'.saidHello g = t.saidHello g)
    (howners : ∀ e ∈ t'.requestOwners.entries, e ∈ t.requestOwners.entries)

theorem Hushed.sends {t u t' : Transport Result} (h : Hushed t u) (h' : Sends u t') : Sends t t' := by
  cases h' with
  | hushed h' => exact .hushed (h.trans h')
  | registers g requestId hname hhello hsent hsaid howners =>
      exact .registers g requestId hname (h.hello g ▸ hhello) (hsent.trans h.sent)
        (fun g => (hsaid g).trans (h.hello g)) fun e he => (howners e he).imp_left (h.owners e)
  | greets g hello hnew hsendable hsent hsaid howners =>
      refine .greets g hello (h.hello g ▸ hnew) hsendable (h.sent ▸ hsent) (fun g' => ?_)
        fun e he => h.owners e (howners e he)
      rw [hsaid, h.hello]
  | frame g m hhello hm hsendable hsent hsaid howners =>
      exact .frame g m (h.hello g ▸ hhello) hm hsendable (h.sent ▸ hsent)
        (fun g => (hsaid g).trans (h.hello g)) fun e he => h.owners e (howners e he)

/-- The owners are named, and their sockets have said hello; and so are the frames of each socket. -/
structure Sending (t : Transport Result) : Prop where
  owners : ∀ e ∈ t.requestOwners.entries, IsName e.2.brokerRequestId ∧ t.saidHello e.2.generation = true
  sendable : ∀ g, ∀ m ∈ framesOn g t.history, m.Sendable
  silent : ∀ g, t.saidHello g = false → framesOn g t.history = []
  greeted : ∀ g, t.saidHello g = true → ∃ h rest, framesOn g t.history = .hello h :: rest ∧
    ∀ m ∈ rest, m.isHello = false

/-- **What is sent keeps the order of every socket.** -/
theorem Sending.sends {t t' : Transport Result} (h : Sending t) (hsends : Sends t t') : Sending t' := by
  cases hsends with
  | hushed h' =>
      have hframes : ∀ g, framesOn g t'.history = framesOn g t.history := fun g => by
        rw [framesOn, h'.sent]
        rfl
      refine ⟨fun e he => ?_, fun g => ?_, fun g => ?_, fun g => ?_⟩
      · rw [h'.hello]
        exact h.owners e (h'.owners e he)
      · rw [hframes]
        exact h.sendable g
      · rw [hframes, h'.hello]
        exact h.silent g
      · rw [hframes, h'.hello]
        exact h.greeted g
  | registers g requestId hname hhello hsent hsaid howners =>
      have hframes : ∀ g, framesOn g t'.history = framesOn g t.history := fun g => by
        rw [framesOn, hsent]
        rfl
      refine ⟨fun e he => ?_, fun g => ?_, fun g => ?_, fun g => ?_⟩
      · rw [hsaid]
        rcases howners e he with he | he
        · exact h.owners e he
        · rw [he]
          exact ⟨hname, hhello⟩
      · rw [hframes]
        exact h.sendable g
      · rw [hframes, hsaid]
        exact h.silent g
      · rw [hframes, hsaid]
        exact h.greeted g
  | greets g hello hnew hsendable hsent hsaid howners =>
      refine ⟨fun e he => ?_, fun g' => ?_, fun g' hg' => ?_, fun g' hg' => ?_⟩
      · obtain ⟨hname, hhello⟩ := h.owners e (howners e he)
        exact ⟨hname, by rw [hsaid, hhello]; rfl⟩
      · rw [framesOn_append_one hsent]
        refine List.forall_mem_append.2 ⟨h.sendable g', ?_⟩
        split_ifs
        · exact List.forall_mem_singleton.2 hsendable
        · exact List.forall_mem_nil _
      · rw [hsaid, Bool.or_eq_false_iff, decide_eq_false_iff_not] at hg'
        rw [framesOn_append_one hsent, if_neg (Ne.symm hg'.2), List.append_nil]
        exact h.silent g' hg'.1
      · rw [framesOn_append_one hsent]
        by_cases heq : g = g'
        · subst heq
          rw [if_pos rfl, h.silent g hnew]
          exact ⟨hello, [], rfl, List.forall_mem_nil _⟩
        · rw [if_neg heq, List.append_nil]
          rw [hsaid, decide_eq_false (Ne.symm heq), Bool.or_false] at hg'
          exact h.greeted g' hg'
  | frame g m hhello hm hsendable hsent hsaid howners =>
      refine ⟨fun e he => ?_, fun g' => ?_, fun g' hg' => ?_, fun g' hg' => ?_⟩
      · rw [hsaid]
        exact h.owners e (howners e he)
      · rw [framesOn_append_one hsent]
        refine List.forall_mem_append.2 ⟨h.sendable g', ?_⟩
        split_ifs
        · exact List.forall_mem_singleton.2 hsendable
        · exact List.forall_mem_nil _
      · rw [hsaid] at hg'
        have hne : g ≠ g' := by
          rintro rfl
          rw [hhello] at hg'
          cases hg'
        rw [framesOn_append_one hsent, if_neg hne, List.append_nil]
        exact h.silent g' hg'
      · rw [hsaid] at hg'
        obtain ⟨hello, rest, hframes, hrest⟩ := h.greeted g' hg'
        rw [framesOn_append_one hsent, hframes]
        refine ⟨hello, rest ++ if g = g' then [m] else [], rfl, List.forall_mem_append.2 ⟨hrest, ?_⟩⟩
        split_ifs
        · exact List.forall_mem_singleton.2 hm
        · exact List.forall_mem_nil _

/-! ## One event -/

/-- What can come in: texts of code units, and messages of the controller that have been parsed. -/
def Event.Real (parseReadResult : JsValue → Parsed Result) : Event Result → Prop
  | .message _ data _ => ∀ s ∈ data, Utf16.Units s
  | .controller m _ => ∃ value, OfUnits value ∧ parseControllerOutboundMessage parseReadResult value = .ok m
  | _ => True

section

variable {t : Transport Result} {g : ℕ}

theorem sends_receiveRequest {u : Transport Result} {r : Request} {uuid : JsString}
    (hname : IsName r.requestId) (hhello : u.saidHello g = true) :
    Sends u (u.receiveRequest g r uuid) := by
  unfold Transport.receiveRequest
  split
  · rename_i k k' r' _ _
    refine .registers g r.requestId hname hhello ?_ (fun _ => rfl) fun e he => ?_
    · show sentOf (Action.toController _ :: u.history) = _
      rw [sentOf_cons]
      exact List.append_nil _
    · rcases JsMap.mem_set.1 he with he | ⟨he, -⟩
      · exact Or.inr (congrArg Prod.snd he)
      · exact Or.inl he
  all_goals exact .hushed (.refl u)

theorem sends_toBroker {u u' : Transport Result} {m : PluginToBroker Result}
    (hhello : u.saidHello g = true) (hm : m.isHello = false) (hsendable : m.Sendable)
    (hhistory : u'.history = .toBroker g m :: u.history) (hgenerations : u'.generations = u.generations)
    (howners : ∀ e ∈ u'.requestOwners.entries, e ∈ u.requestOwners.entries) : Sends u u' := by
  refine .frame g m hhello hm hsendable ?_ (saidHello_congr hgenerations) howners
  rw [hhistory, sentOf_cons]
  rfl

/-- The strings of a frame that is read are made of code units. -/
theorem isName_of_frame {data : JsString} {r : Request} (hdata : Utf16.Units data)
    (h : readFrame data = some (.request r)) : IsName r.requestId := by
  obtain ⟨value, hvalue, h⟩ := Option.bind_eq_some_iff.1 h
  have hunits : OfUnits value := .parse hdata hvalue
  cases hparsed : parseBrokerToPlugin value with
  | error _ =>
      rw [hparsed] at h
      cases h
  | ok message =>
      rw [hparsed] at h
      obtain rfl := Option.some.inj h
      obtain ⟨object, hobject, hparsed⟩ := Guard.bind_eq_ok.1 hparsed
      rw [record_eq_ok hobject] at hparsed
      dsimp only at hparsed
      split_ifs at hparsed
      · obtain ⟨request, hrequest, hparsed⟩ := Guard.bind_eq_ok.1 hparsed
        obtain ⟨fileKey, -, hparsed⟩ := Guard.bind_eq_ok.1 hparsed
        obtain ⟨parsed, hread, hparsed⟩ := Guard.bind_eq_ok.1 hparsed
        obtain rfl := BrokerToPlugin.request.inj (Except.ok.inj hparsed)
        obtain ⟨requestId, hid, hread⟩ := Guard.bind_eq_ok.1 hread
        obtain ⟨deadlineMs, -, hread⟩ := Guard.bind_eq_ok.1 hread
        obtain ⟨operation, -, hread⟩ := Guard.bind_eq_ok.1 hread
        obtain rfl := Except.ok.inj hread
        rw [exact_eq_ok hrequest] at hid
        exact isName_of_identifier (hunits.get _) hid
      · obtain ⟨cancel, -, hparsed⟩ := Guard.bind_eq_ok.1 hparsed
        obtain ⟨requestId, -, hparsed⟩ := Guard.bind_eq_ok.1 hparsed
        cases hparsed
      · obtain ⟨ping, -, hparsed⟩ := Guard.bind_eq_ok.1 hparsed
        obtain ⟨nonce, -, hparsed⟩ := Guard.bind_eq_ok.1 hparsed
        cases hparsed
      · cases hparsed

theorem nonce_of_frame {data : JsString} {nonce : ℕ} (h : readFrame data = some (.ping nonce)) :
    nonce < 2 ^ 53 := by
  obtain ⟨value, -, h⟩ := Option.bind_eq_some_iff.1 h
  cases hparsed : parseBrokerToPlugin value with
  | error _ =>
      rw [hparsed] at h
      cases h
  | ok message =>
      rw [hparsed] at h
      obtain rfl := Option.some.inj h
      obtain ⟨object, -, hparsed⟩ := Guard.bind_eq_ok.1 hparsed
      dsimp only at hparsed
      split_ifs at hparsed
      · obtain ⟨request, -, hparsed⟩ := Guard.bind_eq_ok.1 hparsed
        obtain ⟨fileKey, -, hparsed⟩ := Guard.bind_eq_ok.1 hparsed
        obtain ⟨parsed, -, hparsed⟩ := Guard.bind_eq_ok.1 hparsed
        cases hparsed
      · obtain ⟨cancel, -, hparsed⟩ := Guard.bind_eq_ok.1 hparsed
        obtain ⟨requestId, -, hparsed⟩ := Guard.bind_eq_ok.1 hparsed
        cases hparsed
      · obtain ⟨ping, -, hparsed⟩ := Guard.bind_eq_ok.1 hparsed
        obtain ⟨found, hfound, hparsed⟩ := Guard.bind_eq_ok.1 hparsed
        obtain rfl := BrokerToPlugin.ping.inj (Except.ok.inj hparsed)
        exact unsignedInteger_inv hfound
      · cases hparsed

theorem sends_onMessage {data : Option JsString} {uuid : JsString} (hdata : ∀ s ∈ data, Utf16.Units s) :
    Sends t (t.onMessage g data uuid) := by
  unfold Transport.onMessage
  cases hframe : t.frame g data with
  | none => exact .hushed (.refl t)
  | some message =>
      unfold Transport.frame at hframe
      split_ifs at hframe with htaken
      obtain ⟨s, hs, hread⟩ := Option.bind_eq_some_iff.1 hframe
      have hhello : t.saidHello g = true := (Bool.and_eq_true_iff.1 htaken).2
      have hhushed : Hushed t ((t.act (.received g message)).accept g) :=
        (hushed_act t rfl).trans (hushed_accept _ g)
      have hsaid := (hhushed.hello g).trans hhello
      refine hhushed.sends ?_
      cases message with
      | request r => exact sends_receiveRequest (isName_of_frame (hdata s hs) hread) hsaid
      | cancel requestId => exact .hushed (hushed_receiveCancel _ g requestId)
      | ping nonce =>
          have hsendable : (PluginToBroker.pong nonce : PluginToBroker Result).Sendable :=
            nonce_of_frame hread
          exact sends_toBroker hsaid rfl hsendable rfl rfl fun _ => id

theorem sends_sendToOwner (h : Sending t) {u : Transport Result} (hhushed : Hushed t u) {k : JsString}
    {terminal : Bool} {message : JsString → PluginToBroker Result}
    (hm : ∀ requestId, (message requestId).isHello = false)
    (hsendable : ∀ requestId, IsName requestId → (message requestId).Sendable) :
    Sends u (u.sendToOwner k terminal message) := by
  unfold Transport.sendToOwner
  split
  · exact .hushed (.refl u)
  · rename_i owner howner
    obtain ⟨hname, hhello⟩ := h.owners _ (hhushed.owners _ (JsMap.get_eq_some.1 howner))
    by_cases hopen : u.isActiveOpen owner.generation = true
    · rw [if_pos hopen]
      refine sends_toBroker ((hhushed.hello _).trans hhello) (hm _) (hsendable _ hname) rfl rfl
        fun e he => ?_
      cases terminal with
      | false => exact he
      | true => exact (JsMap.mem_deleteWhere.1 he).1
    · rw [if_neg hopen]
      exact .hushed (.refl u)

theorem sendable_hello {ready : ControllerReady} (h : ready.Sendable) {uuid : JsString} {hello : Hello}
    (hhello : buildHello ready uuid = .ok hello) : hello.Sendable := by
  obtain ⟨connectionId, hid, hhello⟩ := Guard.bind_eq_ok.1 hhello
  obtain rfl := Except.ok.inj hhello
  exact ⟨rfl, parseUuid_idem hid, h.fileName, h.fileName, h.pageId, h.pageName, h.editorType,
    h.pluginVersion⟩

theorem sends_receiveReady {u : Transport Result} {ready : ControllerReady} (h : ready.Sendable)
    (uuid : JsString) : Sends u (u.receiveReady ready uuid) := by
  unfold Transport.receiveReady
  split
  · exact .hushed (.refl u)
  · rename_i g _
    split_ifs with htaken
    · have hmeets := (Bool.and_eq_true_iff.1 htaken).2
      unfold Transport.sendHello
      split
      · exact .hushed (.refl u)
      · rename_i hello hbuilt
        obtain ⟨x, hx, hready⟩ : ∃ x, u.generations[g]? = some x ∧ x.helloSent = false := by
          unfold Transport.meets at hmeets
          cases hx : u.generations[g]? with
          | none =>
              rw [hx] at hmeets
              cases hmeets
          | some x =>
              rw [hx] at hmeets
              have := (Bool.and_eq_true_iff.1 hmeets).1
              exact ⟨x, rfl, by simpa using this⟩
        refine .greets g hello ?_ (sendable_hello h hbuilt) ?_ (fun g' => ?_) fun _ => id
        · rw [Transport.saidHello, Transport.meets, hx]
          exact hready
        · show sentOf (Action.toBroker g _ :: u.history) = _
          rw [sentOf_cons]
          rfl
        · unfold Transport.saidHello Transport.meets Transport.modifyGeneration
          rw [List.getElem?_modify]
          show Option.any _ (Option.map _ u.generations[g']?) = _
          by_cases hg : g = g'
          · subst hg
            rw [hx]
            simp
          · rw [decide_eq_false (Ne.symm hg), Bool.or_false]
            cases u.generations[g']? <;> simp [hg]
    · exact .hushed (.refl u)

variable {parseReadResult : JsValue → Parsed Result}

/-- **What an event sends.** -/
theorem sends_step (h : Sending t) {event : Event Result} (hevent : event.Real parseReadResult) :
    Sends t (t.step event) := by
  cases event with
  | opened g =>
      refine .hushed ((hushed_modifyGeneration helloSent_establish t g).trans ?_)
      rw [Transport.step]
      unfold Transport.onOpen
      split
      · exact hushed_act _ rfl
      · exact .refl _
  | message g data uuid => exact sends_onMessage hevent
  | controller m uuid =>
      obtain ⟨value, hunits, hparsed⟩ := hevent
      have hsendable := parseControllerOutboundMessage_inv hunits hparsed
      have hhushed : Hushed t (t.act (.fromController m)) := hushed_act t rfl
      rw [Transport.step]
      split_ifs
      · refine hhushed.sends ?_
        cases m with
        | controllerReady ready => exact sends_receiveReady hsendable uuid
        | progress k _ p =>
            rw [Transport.receiveController]
            exact sends_sendToOwner h hhushed (fun _ => rfl) fun _ hname => ⟨hname, hsendable⟩
        | response k _ result =>
            rw [Transport.receiveController]
            exact sends_sendToOwner h hhushed (fun _ => rfl) fun _ hname => hname
        | error k _ failure =>
            rw [Transport.receiveController]
            exact sends_sendToOwner h hhushed (fun _ => rfl) fun _ hname => ⟨hname, hsendable⟩
      · exact .hushed (.refl t)
  | failed g => exact .hushed (hushed_modifyGeneration helloSent_close t g)
  | closed g =>
      rw [Transport.step]
      split_ifs
      · have hclosed := hushed_modifyGeneration
          (f := fun generation => { generation with readyState := .closed }) (fun _ => rfl)
          (t.act (.closed g)) g
        exact .hushed (((hushed_act t rfl).trans hclosed).trans (hushed_onClose _ g))
      · exact .hushed (.refl t)
  | timer timer uuid constructs =>
      rw [Transport.step, Transport.onTimer]
      split_ifs
      · have hfired : Hushed t { t with timers := t.timers.erase timer, reconnectTimer := none } :=
          ⟨rfl, fun _ => rfl, fun _ => id⟩
        exact .hushed (hfired.trans (hushed_connect _ uuid constructs))
      · exact .hushed (.refl t)
  | stop => exact .hushed ((hushed_act t rfl).trans (hushed_stop _))

theorem sending_start (uuid : JsString) (constructs : Bool) :
    Sending (startSocketTransport uuid constructs : Transport Result) := by
  have hempty : Sending ({} : Transport Result) :=
    ⟨List.forall_mem_nil _, fun _ => List.forall_mem_nil _, fun _ _ => rfl, fun _ h => by cases h⟩
  exact hempty.sends (.hushed (hushed_connect _ uuid constructs))

/-- **What holds of every run**: the frames of a socket are its hello and what comes after it. -/
theorem sending_run {events : List (Event Result)}
    (hevents : ∀ event ∈ events, event.Real parseReadResult) (h : Sending t) : Sending (t.run events) := by
  induction events generalizing t with
  | nil => exact h
  | cons event events ih =>
      obtain ⟨hevent, hrest⟩ := List.forall_mem_cons.1 hevents
      exact ih hrest (h.sends (sends_step h hevent))

end

end FigmaDevMcp.Plugin

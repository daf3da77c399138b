import FigmaDevMcp.Read.Render

set_option autoImplicit false

/-!
# Each validation settles once

* `Event.concerns`: what an event makes of a validation;
* `Tidy`: each validation that waits has an entry, a timer and a listener, and nothing else has;
* `run_concerns`: the first event that concerns a validation settles it;
* **`validation_settles_once`**.
-/

namespace FigmaDevMcp.Plugin.Validations

/-- What an event makes of a validation that waits. -/
def Event.concerns (id : JsString) (pending : PendingValidation) : Event → Option ValidationOutcome
  | .request _ _ _ => none
  | .reply input => if repliesTo input = some id then some (replyOutcome (input.field "asset")) else none
  | .timeout timer => if timer = pending.timeout then some (.failed .timeout) else none
  | .abort signal => if pending.signal = some signal then some (.failed .cancelled) else none

/-- What holds of the validations. -/
structure Tidy (s : Validations) : Prop where
  ids : ∀ e ∈ s.pendingValidations.entries, ∃ n < s.validationSeq, e.1 = validationId n
  bounds : ∀ e ∈ s.pendingValidations.entries, e.2.call < s.calls ∧ e.2.timeout < s.timersMade
  distinct : ∀ e ∈ s.pendingValidations.entries, ∀ e' ∈ s.pendingValidations.entries,
    e.2.call = e'.2.call ∨ e.2.timeout = e'.2.timeout → e = e'
  timers : ∀ t, t ∈ s.timers ↔ ∃ e ∈ s.pendingValidations.entries, t = (e.2.timeout, e.1)
  listeners : ∀ signal id, id ∈ (s.signals signal).listeners ↔
    ∃ e ∈ s.pendingValidations.entries, e.1 = id ∧ e.2.signal = some signal
  aborted : ∀ e ∈ s.pendingValidations.entries, ∀ signal, e.2.signal = some signal →
    (s.signals signal).aborted = false
  waits : ∀ e ∈ s.pendingValidations.entries, (s.settled.filter fun a => a.1 = e.2.call) = []
  once : ∀ n, (∀ e ∈ s.pendingValidations.entries, e.2.call ≠ n) →
    (s.settled.filter fun a => a.1 = n).length = if n < s.calls then 1 else 0

/-! ## Entries, timers and listeners -/

theorem validationId_injective {m n : ℕ} (h : validationId m = validationId n) : m = n := by
  have hdecimal : NumberText.decimal m = NumberText.decimal n := List.append_cancel_left h
  rw [← NumberText.undecimal_decimal m, hdecimal, NumberText.undecimal_decimal]

theorem eq_of_key_eq {κ υ : Type} [DecidableEq κ] {m : JsMap κ υ} {e e' : κ × υ}
    (he : e ∈ m.entries) (he' : e' ∈ m.entries) (h : e.1 = e'.1) : e = e' := by
  obtain ⟨k, v⟩ := e
  obtain ⟨k', v'⟩ := e'
  obtain rfl : k = k' := h
  rw [Option.some.inj ((JsMap.get_eq_some.2 he).symm.trans (JsMap.get_eq_some.2 he'))]

theorem removeListener_signals (s : Validations) (id : JsString) (signal : Option ℕ) (n : ℕ) :
    (s.removeListener id signal).signals n =
      if signal = some n then
        { s.signals n with listeners := (s.signals n).listeners.filter fun l => l ≠ id }
      else s.signals n := by
  cases signal with
  | none => simp [removeListener]
  | some signal =>
      show (if n = signal then _ else _) = _
      by_cases hn : n = signal
      · simp [hn]
      · simp [hn, Ne.symm hn]

theorem settle_eq {s : Validations} {e : JsString × PendingValidation}
    (he : e ∈ s.pendingValidations.entries) (outcome : ValidationOutcome) :
    (s.settlePendingValidation e.1 outcome).1 =
      ({ s with
          pendingValidations := s.pendingValidations.delete e.1
          settled := (e.2.call, outcome) :: s.settled }.clearTimeout e.2.timeout).removeListener
        e.1 e.2.signal := by
  unfold settlePendingValidation
  rw [JsMap.get_eq_some.2 he]

/-- What settling one validation does. -/
structure Settles (s s' : Validations) (e : JsString × PendingValidation)
    (outcome : ValidationOutcome) : Prop where
  validationSeq : s'.validationSeq = s.validationSeq
  calls : s'.calls = s.calls
  timersMade : s'.timersMade = s.timersMade
  entries : ∀ e', e' ∈ s'.pendingValidations.entries ↔ e' ∈ s.pendingValidations.entries ∧ e'.1 ≠ e.1
  timers : ∀ t, t ∈ s'.timers ↔ t ∈ s.timers ∧ t.1 ≠ e.2.timeout
  settled : s'.settled = (e.2.call, outcome) :: s.settled
  aborted : ∀ signal, (s'.signals signal).aborted = (s.signals signal).aborted
  listeners : ∀ signal id, id ∈ (s'.signals signal).listeners ↔
    id ∈ (s.signals signal).listeners ∧ ¬(e.2.signal = some signal ∧ id = e.1)

theorem settles_settlePendingValidation {s : Validations} {e : JsString × PendingValidation}
    (he : e ∈ s.pendingValidations.entries) (outcome : ValidationOutcome) :
    Settles s (s.settlePendingValidation e.1 outcome).1 e outcome := by
  rw [settle_eq he]
  generalize hu : { s with
    pendingValidations := s.pendingValidations.delete e.1
    settled := (e.2.call, outcome) :: s.settled }.clearTimeout e.2.timeout = u
  have hfields : (u.removeListener e.1 e.2.signal).validationSeq = u.validationSeq ∧
      (u.removeListener e.1 e.2.signal).calls = u.calls ∧
      (u.removeListener e.1 e.2.signal).timersMade = u.timersMade ∧
      (u.removeListener e.1 e.2.signal).pendingValidations = u.pendingValidations ∧
      (u.removeListener e.1 e.2.signal).timers = u.timers ∧
      (u.removeListener e.1 e.2.signal).settled = u.settled := by
    cases e.2.signal <;> exact ⟨rfl, rfl, rfl, rfl, rfl, rfl⟩
  have hsignals : ∀ n, (u.removeListener e.1 e.2.signal).signals n = if e.2.signal = some n then
      { s.signals n with listeners := (s.signals n).listeners.filter fun l => l ≠ e.1 } else s.signals n := by
    intro n
    rw [removeListener_signals, ← hu]
    rfl
  obtain ⟨hseq, hcalls, hmade, hentries, htimers, hsettled⟩ := hfields
  constructor
  · rw [hseq, ← hu]
    rfl
  · rw [hcalls, ← hu]
    rfl
  · rw [hmade, ← hu]
    rfl
  · intro e'
    rw [hentries, ← hu]
    exact JsMap.mem_delete
  · intro t
    rw [htimers, ← hu]
    simp [clearTimeout]
  · rw [hsettled, ← hu]
    rfl
  · intro signal
    rw [hsignals]
    split_ifs <;> rfl
  · intro signal id
    rw [hsignals]
    split_ifs with hsignal
    · simp [hsignal]
    · simp [hsignal]

/-- **Settling a validation** leaves nothing of it. -/
theorem Tidy.settles {s s' : Validations} (h : Tidy s) {e : JsString × PendingValidation}
    (he : e ∈ s.pendingValidations.entries) {outcome : ValidationOutcome}
    (hs : Settles s s' e outcome) : Tidy s' := by
  have hkept : ∀ e' ∈ s'.pendingValidations.entries, e' ∈ s.pendingValidations.entries ∧ e'.1 ≠ e.1 :=
    fun e' he' => (hs.entries e').1 he'
  have hcall : ∀ e' ∈ s'.pendingValidations.entries, e'.2.call ≠ e.2.call := by
    intro e' he' heq
    obtain ⟨he', hne⟩ := hkept e' he'
    exact hne (congrArg Prod.fst (h.distinct e' he' e he (Or.inl heq)))
  constructor
  · intro e' he'
    rw [hs.validationSeq]
    exact h.ids e' (hkept e' he').1
  · intro e' he'
    rw [hs.calls, hs.timersMade]
    exact h.bounds e' (hkept e' he').1
  · intro e' he' e'' he''
    exact h.distinct e' (hkept e' he').1 e'' (hkept e'' he'').1
  · intro t
    rw [hs.timers, h.timers]
    constructor
    · rintro ⟨⟨e', he', rfl⟩, hne⟩
      refine ⟨e', (hs.entries e').2 ⟨he', fun heq => hne ?_⟩, rfl⟩
      rw [eq_of_key_eq he' he heq]
    · rintro ⟨e', he', rfl⟩
      obtain ⟨he', hne⟩ := hkept e' he'
      refine ⟨⟨e', he', rfl⟩, fun heq => hne ?_⟩
      rw [h.distinct e' he' e he (Or.inr heq)]
  · intro signal id
    rw [hs.listeners, h.listeners]
    constructor
    · rintro ⟨⟨e', he', rfl, hsignal⟩, hne⟩
      refine ⟨e', (hs.entries e').2 ⟨he', fun heq => hne ⟨?_, heq⟩⟩, rfl, hsignal⟩
      rw [← eq_of_key_eq he' he heq, hsignal]
    · rintro ⟨e', he', rfl, hsignal⟩
      obtain ⟨he', hne⟩ := hkept e' he'
      exact ⟨⟨e', he', rfl, hsignal⟩, fun heq => hne heq.2⟩
  · intro e' he' signal hsignal
    rw [hs.aborted]
    exact h.aborted e' (hkept e' he').1 signal hsignal
  · intro e' he'
    rw [hs.settled, List.filter_cons_of_neg (by simpa using (hcall e' he').symm)]
    exact h.waits e' (hkept e' he').1
  · intro n hn
    rw [hs.settled, hs.calls]
    by_cases hne : e.2.call = n
    · rw [List.filter_cons_of_pos (by simpa using hne), List.length_cons, ← hne, h.waits e he,
        if_pos (h.bounds e he).1]
      rfl
    · rw [List.filter_cons_of_neg (by simpa using hne)]
      refine h.once n fun e' he' heq => ?_
      by_cases hkey : e'.1 = e.1
      · exact hne (eq_of_key_eq he' he hkey ▸ heq)
      · exact hn e' ((hs.entries e').2 ⟨he', hkey⟩) heq

/-! ## Requests -/

theorem addListener_signals (s : Validations) (id : JsString) (signal : Option ℕ) (n : ℕ) :
    (s.addListener id signal).signals n =
      if signal = some n then { s.signals n with listeners := (s.signals n).listeners ++ [id] }
      else s.signals n := by
  cases signal with
  | none => simp [addListener]
  | some signal =>
      show (if n = signal then _ else _) = _
      by_cases hn : n = signal
      · simp [hn]
      · simp [hn, Ne.symm hn]

/-- What registering a validation does. -/
structure Registers (s s' : Validations) (e : JsString × PendingValidation) : Prop where
  key : e.1 = validationId s.validationSeq
  call : e.2.call = s.calls
  timeout : e.2.timeout = s.timersMade
  signal : ∀ signal, e.2.signal = some signal → (s.signals signal).aborted = false
  validationSeq : s'.validationSeq = s.validationSeq + 1
  calls : s'.calls = s.calls + 1
  timersMade : s'.timersMade = s.timersMade + 1
  entries : ∀ e', e' ∈ s'.pendingValidations.entries ↔
    e' = e ∨ e' ∈ s.pendingValidations.entries ∧ e'.1 ≠ e.1
  timers : s'.timers = (e.2.timeout, e.1) :: s.timers
  settled : s'.settled = s.settled
  aborted : ∀ signal, (s'.signals signal).aborted = (s.signals signal).aborted
  listeners : ∀ signal id, id ∈ (s'.signals signal).listeners ↔
    id ∈ (s.signals signal).listeners ∨ e.2.signal = some signal ∧ id = e.1

theorem registers_register {s : Validations} {signal : Option ℕ}
    (hsignal : (signal.any fun n => (s.signals n).aborted) = false) :
    Registers s ({ s with calls := s.calls + 1 }.register s.calls signal)
      (validationId s.validationSeq, { call := s.calls, timeout := s.timersMade, signal }) := by
  unfold register
  dsimp only
  generalize hu : ({ s with
    validationSeq := s.validationSeq + 1
    calls := s.calls + 1
    timers := (s.timersMade, validationId s.validationSeq) :: s.timers
    timersMade := s.timersMade + 1
    pendingValidations := s.pendingValidations.set (validationId s.validationSeq)
      { call := s.calls, timeout := s.timersMade, signal } } : Validations) = u
  have hfields : (u.addListener (validationId s.validationSeq) signal).validationSeq = u.validationSeq ∧
      (u.addListener (validationId s.validationSeq) signal).calls = u.calls ∧
      (u.addListener (validationId s.validationSeq) signal).timersMade = u.timersMade ∧
      (u.addListener (validationId s.validationSeq) signal).pendingValidations = u.pendingValidations ∧
      (u.addListener (validationId s.validationSeq) signal).timers = u.timers ∧
      (u.addListener (validationId s.validationSeq) signal).settled = u.settled := by
    cases signal <;> exact ⟨rfl, rfl, rfl, rfl, rfl, rfl⟩
  have hsignals : ∀ n, (u.addListener (validationId s.validationSeq) signal).signals n =
      if signal = some n then
        { s.signals n with listeners := (s.signals n).listeners ++ [validationId s.validationSeq] }
      else s.signals n := by
    intro n
    rw [addListener_signals, ← hu]
  obtain ⟨hseq, hcalls, hmade, hentries, htimers, hsettled⟩ := hfields
  refine ⟨rfl, rfl, rfl, fun n hn => ?_, ?_, ?_, ?_, fun e' => ?_, ?_, ?_, fun n => ?_, fun n id => ?_⟩
  · obtain rfl : signal = some n := hn
    exact hsignal
  · rw [hseq, ← hu]
  · rw [hcalls, ← hu]
  · rw [hmade, ← hu]
  · rw [hentries, ← hu]
    exact JsMap.mem_set
  · rw [htimers, ← hu]
  · rw [hsettled, ← hu]
  · rw [hsignals]
    split_ifs <;> rfl
  · rw [hsignals]
    split_ifs with hn
    · simp [hn]
    · simp [hn]

theorem Tidy.key_ne {s : Validations} (h : Tidy s) :
    ∀ e ∈ s.pendingValidations.entries, e.1 ≠ validationId s.validationSeq := by
  intro e he heq
  obtain ⟨n, hn, hid⟩ := h.ids e he
  exact hn.ne (validationId_injective (hid.symm.trans heq))

theorem Tidy.fresh {s : Validations} (h : Tidy s) : (s.settled.filter fun a => a.1 = s.calls) = [] := by
  have hnone : (s.settled.filter fun a => a.1 = s.calls).length = 0 := by
    rw [h.once s.calls fun e he heq => ?_, if_neg (Nat.lt_irrefl _)]
    exact absurd heq (h.bounds e he).1.ne
  exact List.length_eq_zero_iff.1 hnone

theorem Tidy.registers {s s' : Validations} (h : Tidy s) {e : JsString × PendingValidation}
    (hr : Registers s s' e) : Tidy s' := by
  have hentries : ∀ e', e' ∈ s'.pendingValidations.entries ↔ e' = e ∨ e' ∈ s.pendingValidations.entries := by
    intro e'
    rw [hr.entries]
    exact or_congr_right ⟨And.left, fun he' => ⟨he', fun heq => h.key_ne e' he' (heq.trans hr.key)⟩⟩
  constructor
  · intro e' he'
    rw [hr.validationSeq]
    rcases (hentries e').1 he' with rfl | he'
    · exact ⟨s.validationSeq, Nat.lt_succ_self _, hr.key⟩
    · obtain ⟨n, hn, hid⟩ := h.ids e' he'
      exact ⟨n, Nat.lt_succ_of_lt hn, hid⟩
  · intro e' he'
    rw [hr.calls, hr.timersMade]
    rcases (hentries e').1 he' with rfl | he'
    · rw [hr.call, hr.timeout]
      exact ⟨Nat.lt_succ_self _, Nat.lt_succ_self _⟩
    · exact ⟨Nat.lt_succ_of_lt (h.bounds e' he').1, Nat.lt_succ_of_lt (h.bounds e' he').2⟩
  · have hnew : ∀ e' ∈ s.pendingValidations.entries,
        ¬(e'.2.call = e.2.call ∨ e'.2.timeout = e.2.timeout) := by
      intro e' he'
      rw [hr.call, hr.timeout]
      exact not_or.2 ⟨(h.bounds e' he').1.ne, (h.bounds e' he').2.ne⟩
    intro e' he' e'' he'' heq
    rcases (hentries e').1 he' with rfl | he' <;> rcases (hentries e'').1 he'' with rfl | he''
    · rfl
    · exact absurd (heq.imp Eq.symm Eq.symm) (hnew e'' he'')
    · exact absurd heq (hnew e' he')
    · exact h.distinct e' he' e'' he'' heq
  · intro t
    rw [hr.timers, List.mem_cons, h.timers]
    constructor
    · rintro (rfl | ⟨e', he', rfl⟩)
      · exact ⟨e, (hentries e).2 (Or.inl rfl), rfl⟩
      · exact ⟨e', (hentries e').2 (Or.inr he'), rfl⟩
    · rintro ⟨e', he', rfl⟩
      rcases (hentries e').1 he' with rfl | he'
      · exact Or.inl rfl
      · exact Or.inr ⟨e', he', rfl⟩
  · intro signal id
    rw [hr.listeners, h.listeners]
    constructor
    · rintro (⟨e', he', rfl, hsignal⟩ | ⟨hsignal, rfl⟩)
      · exact ⟨e', (hentries e').2 (Or.inr he'), rfl, hsignal⟩
      · exact ⟨e, (hentries e).2 (Or.inl rfl), rfl, hsignal⟩
    · rintro ⟨e', he', rfl, hsignal⟩
      rcases (hentries e').1 he' with rfl | he'
      · exact Or.inr ⟨hsignal, rfl⟩
      · exact Or.inl ⟨e', he', rfl, hsignal⟩
  · intro e' he' signal hsignal
    rw [hr.aborted]
    rcases (hentries e').1 he' with rfl | he'
    · exact hr.signal signal hsignal
    · exact h.aborted e' he' signal hsignal
  · intro e' he'
    rw [hr.settled]
    rcases (hentries e').1 he' with rfl | he'
    · rw [hr.call, h.fresh]
    · exact h.waits e' he'
  · intro n hn
    have hcall : n ≠ s.calls := fun heq => hn e ((hentries e).2 (Or.inl rfl)) (hr.call.trans heq.symm)
    rw [hr.settled, hr.calls, h.once n fun e' he' => hn e' ((hentries e').2 (Or.inr he'))]
    have hlt : n < s.calls ↔ n < s.calls + 1 := by omega
    rw [if_congr hlt rfl rfl]

/-- A call that resolves at once. -/
theorem Tidy.resolve {s : Validations} (h : Tidy s) (outcome : ValidationOutcome) :
    Tidy { s with calls := s.calls + 1, settled := (s.calls, outcome) :: s.settled } := by
  refine ⟨h.ids, fun e he => ⟨Nat.lt_succ_of_lt (h.bounds e he).1, (h.bounds e he).2⟩, h.distinct,
    h.timers, h.listeners, h.aborted, fun e he => ?_, fun n hn => ?_⟩
  · have hne : s.calls ≠ e.2.call := (h.bounds e he).1.ne'
    show (((s.calls, outcome) :: s.settled).filter fun a => a.1 = e.2.call) = []
    rw [List.filter_cons_of_neg (by simpa using hne)]
    exact h.waits e he
  · show (((s.calls, outcome) :: s.settled).filter fun a => a.1 = n).length =
      if n < s.calls + 1 then 1 else 0
    by_cases hne : s.calls = n
    · rw [List.filter_cons_of_pos (by simpa using hne), ← hne, h.fresh, if_pos (Nat.lt_succ_self _)]
      rfl
    · rw [List.filter_cons_of_neg (by simpa using hne), h.once n hn]
      have hlt : n < s.calls ↔ n < s.calls + 1 := by omega
      rw [if_congr hlt rfl rfl]

/-! ## Replies, timers and signals -/

/-- An id has a validation that waits, which is settled, or it has none. -/
theorem settle_cases (s : Validations) (id : JsString) (outcome : ValidationOutcome) :
    ((s.settlePendingValidation id outcome).1 = s ∧ ∀ e ∈ s.pendingValidations.entries, e.1 ≠ id) ∨
      ∃ e ∈ s.pendingValidations.entries, e.1 = id ∧
        Settles s (s.settlePendingValidation id outcome).1 e outcome := by
  cases hget : s.pendingValidations.get id with
  | none =>
      refine Or.inl ⟨by rw [settlePendingValidation, hget], fun e he heq => ?_⟩
      have hsome : s.pendingValidations.get id = some e.2 := by
        rw [← heq]
        exact JsMap.get_eq_some.2 he
      exact nomatch hget.symm.trans hsome
  | some pending =>
      have he := JsMap.get_eq_some.1 hget
      exact Or.inr ⟨(id, pending), he, rfl, settles_settlePendingValidation he outcome⟩

theorem Tidy.settle {s : Validations} (h : Tidy s) (id : JsString) (outcome : ValidationOutcome) :
    Tidy (s.settlePendingValidation id outcome).1 := by
  rcases settle_cases s id outcome with ⟨hsame, -⟩ | ⟨e, he, -, hs⟩
  · rw [hsame]
    exact h
  · exact h.settles he hs

/-- A timer that fires is cleared before. -/
theorem Tidy.fire_cases {s : Validations} (h : Tidy s) (timer : ℕ) :
    (s.fire timer = s ∧ ∀ e ∈ s.pendingValidations.entries, e.2.timeout ≠ timer) ∨
      ∃ e ∈ s.pendingValidations.entries, e.2.timeout = timer ∧
        Settles s (s.fire timer) e (.failed .timeout) := by
  unfold fire
  cases hfind : s.timers.find? fun t => t.1 = timer with
  | none =>
      refine Or.inl ⟨rfl, fun e he heq => ?_⟩
      have hmem : (e.2.timeout, e.1) ∈ s.timers := (h.timers _).2 ⟨e, he, rfl⟩
      have hne := List.find?_eq_none.1 hfind _ hmem
      simp [heq] at hne
  | some t =>
      obtain ⟨e, he, rfl⟩ := (h.timers t).1 (List.mem_of_find?_eq_some hfind)
      have htimer : e.2.timeout = timer := by simpa using List.find?_some hfind
      have hs : Settles (s.clearTimeout timer) _ e (.failed .timeout) :=
        settles_settlePendingValidation (s := s.clearTimeout timer) he _
      refine Or.inr ⟨e, he, htimer, { hs with timers := fun t => ?_ }⟩
      rw [hs.timers, htimer]
      simp [clearTimeout]

/-- A signal without listeners is not in the way of a validation that is settled. -/
theorem settle_setSignal (s : Validations) (signal : ℕ) {value : LocalSignal}
    (hvalue : value.listeners = []) (id : JsString) (outcome : ValidationOutcome) :
    ((s.setSignal signal value).settlePendingValidation id outcome).1 =
      (s.settlePendingValidation id outcome).1.setSignal signal value := by
  obtain ⟨aborted, listeners⟩ := value
  obtain rfl : listeners = [] := hvalue
  have hpending : (s.setSignal signal ⟨aborted, []⟩).pendingValidations.get id =
      s.pendingValidations.get id := rfl
  unfold settlePendingValidation
  rw [hpending]
  cases s.pendingValidations.get id with
  | none => rfl
  | some pending =>
      cases hsignal : pending.signal with
      | none =>
          dsimp only
          rw [hsignal]
          rfl
      | some other =>
          dsimp only
          rw [hsignal]
          unfold removeListener setSignal clearTimeout
          dsimp only
          congr 1
          funext n
          by_cases hn : n = signal <;> by_cases ho : n = other <;> by_cases hs : other = signal <;>
            simp_all

theorem notify_setSignal (s : Validations) (signal : ℕ) {value : LocalSignal}
    (hvalue : value.listeners = []) (ids : List JsString) :
    (s.setSignal signal value).notify ids = (s.notify ids).setSignal signal value := by
  induction ids generalizing s with
  | nil => rfl
  | cons id ids ih =>
      show ((s.setSignal signal value).settlePendingValidation id _).1.notify ids = _
      rw [settle_setSignal s signal hvalue, ih]
      rfl

/-- What the listeners of a signal do. -/
theorem Tidy.notify {s : Validations} (h : Tidy s) (ids : List JsString) :
    Tidy (s.notify ids) ∧
      (∀ e, e ∈ (s.notify ids).pendingValidations.entries ↔
        e ∈ s.pendingValidations.entries ∧ e.1 ∉ ids) ∧
      (∀ e ∈ s.pendingValidations.entries, e.1 ∈ ids →
        (e.2.call, .failed .cancelled) ∈ (s.notify ids).settled) ∧
      ∃ later, (s.notify ids).settled = later ++ s.settled := by
  induction ids generalizing s with
  | nil => exact ⟨h, fun e => by simp [Validations.notify], fun e _ he => absurd he List.not_mem_nil, [], rfl⟩
  | cons id ids ih =>
      obtain ⟨htidy, hentries, hcancelled, later, hlater⟩ := ih (h.settle id (.failed .cancelled))
      refine ⟨htidy, fun e => ?_, fun e he hmem => ?_, ?_⟩
      · refine (hentries e).trans ?_
        rw [List.mem_cons, not_or, ← and_assoc]
        refine and_congr_left fun _ => ?_
        rcases settle_cases s id (.failed .cancelled) with ⟨hsame, hnone⟩ | ⟨e', -, rfl, hs⟩
        · rw [hsame]
          exact ⟨fun he => ⟨he, hnone e he⟩, And.left⟩
        · exact hs.entries e
      · rcases settle_cases s id (.failed .cancelled) with ⟨hsame, hnone⟩ | ⟨e', he', rfl, hs⟩
        · refine hcancelled e (hsame.symm ▸ he) ((List.mem_cons.1 hmem).resolve_left (hnone e he))
        · by_cases hkey : e.1 = e'.1
          · rw [eq_of_key_eq he he' hkey]
            refine hlater.symm ▸ List.mem_append_right _ ?_
            rw [hs.settled]
            exact List.mem_cons_self
          · exact hcancelled e ((hs.entries e).2 ⟨he, hkey⟩) ((List.mem_cons.1 hmem).resolve_left hkey)
      · rcases settle_cases s id (.failed .cancelled) with ⟨hsame, -⟩ | ⟨e', -, -, hs⟩
        · exact ⟨later, hlater.trans (by rw [hsame])⟩
        · exact ⟨later ++ [(e'.2.call, .failed .cancelled)], hlater.trans (by rw [hs.settled]; simp)⟩

/-- The listeners of a signal that has no validation any more. -/
theorem Tidy.setSignal {s : Validations} (h : Tidy s) {signal : ℕ}
    (hnone : ∀ e ∈ s.pendingValidations.entries, e.2.signal ≠ some signal) :
    Tidy (s.setSignal signal { aborted := true }) := by
  refine ⟨h.ids, h.bounds, h.distinct, h.timers, fun n id => ?_, fun e he n hn => ?_, h.waits, h.once⟩
  · show id ∈ (if n = signal then _ else _ : LocalSignal).listeners ↔ _
    split_ifs with hsignal
    · rw [hsignal]
      refine ⟨fun hid => absurd hid List.not_mem_nil, ?_⟩
      rintro ⟨e, he, -, heq⟩
      exact absurd heq (hnone e he)
    · exact h.listeners n id
  · have hne : n ≠ signal := by
      rintro rfl
      exact hnone e he hn
    show (if n = signal then _ else _ : LocalSignal).aborted = false
    rw [if_neg hne]
    exact h.aborted e he n hn

/-- **A signal that aborts** settles the validations that listen to it, and no others. -/
theorem Tidy.abort {s : Validations} (h : Tidy s) (signal : ℕ) :
    Tidy (s.abort signal) ∧
      (∀ e, e ∈ (s.abort signal).pendingValidations.entries ↔
        e ∈ s.pendingValidations.entries ∧ e.2.signal ≠ some signal) ∧
      (∀ e ∈ s.pendingValidations.entries, e.2.signal = some signal →
        (e.2.call, .failed .cancelled) ∈ (s.abort signal).settled) ∧
      ∃ later, (s.abort signal).settled = later ++ s.settled := by
  unfold Validations.abort
  split_ifs with haborted
  · have hnone : ∀ e ∈ s.pendingValidations.entries, e.2.signal ≠ some signal := fun e he heq =>
      Bool.false_ne_true ((h.aborted e he signal heq).symm.trans haborted)
    exact ⟨h, fun e => ⟨fun he => ⟨he, hnone e he⟩, And.left⟩, fun e he heq => absurd heq (hnone e he),
      [], rfl⟩
  · obtain ⟨htidy, hentries, hcancelled, later, hlater⟩ := h.notify (s.signals signal).listeners
    have hlistens : ∀ e ∈ s.pendingValidations.entries,
        e.1 ∈ (s.signals signal).listeners ↔ e.2.signal = some signal := by
      intro e he
      rw [h.listeners]
      constructor
      · rintro ⟨e', he', hkey, hsignal⟩
        rw [eq_of_key_eq he he' hkey.symm, hsignal]
      · exact fun hsignal => ⟨e, he, rfl, hsignal⟩
    have hleft : ∀ e, e ∈ (s.notify (s.signals signal).listeners).pendingValidations.entries ↔
        e ∈ s.pendingValidations.entries ∧ e.2.signal ≠ some signal := by
      intro e
      rw [hentries e]
      exact and_congr_right fun he => not_congr (hlistens e he)
    rw [notify_setSignal s signal rfl]
    refine ⟨htidy.setSignal fun e he => ((hleft e).1 he).2, hleft, fun e he hsignal => ?_, later, hlater⟩
    exact hcancelled e he ((hlistens e he).2 hsignal)

/-! ## Events -/

/-- **What an event makes of a validation that waits**: its outcome, or nothing. -/
structure Answers (s s' : Validations) (event : Event) : Prop where
  tidy : Tidy s'
  settled : ∃ later, s'.settled = later ++ s.settled
  outcome : ∀ e ∈ s.pendingValidations.entries, ∀ outcome, event.concerns e.1 e.2 = some outcome →
    (e.2.call, outcome) ∈ s'.settled ∧ e ∉ s'.pendingValidations.entries
  others : ∀ e ∈ s.pendingValidations.entries, event.concerns e.1 e.2 = none →
    e ∈ s'.pendingValidations.entries

/-- A validation whose message is not posted is settled at once. -/
theorem Tidy.request_throws {s : Validations} (h : Tidy s) {signal : Option ℕ}
    (habort : (signal.any fun n => (s.signals n).aborted) = false) :
    Tidy (s.requestUiValidation true signal false) ∧
      (s.requestUiValidation true signal false).settled =
        (s.calls, .failed .internalError) :: s.settled ∧
      ∀ e, e ∈ (s.requestUiValidation true signal false).pendingValidations.entries ↔
        e ∈ s.pendingValidations.entries := by
  have hr := registers_register habort
  have hmem := (hr.entries _).2 (Or.inl rfl)
  have hs := settles_settlePendingValidation hmem (.failed .internalError)
  have heq : s.requestUiValidation true signal false =
      (({ s with calls := s.calls + 1 }.register s.calls signal).settlePendingValidation
        (validationId s.validationSeq) (.failed .internalError)).1 := by
    unfold requestUiValidation
    rw [if_neg (by decide)]
    dsimp only
    rw [habort, if_neg Bool.false_ne_true, if_neg Bool.false_ne_true]
  rw [heq]
  refine ⟨(h.registers hr).settles hmem hs, ?_, fun e => ?_⟩
  · rw [hs.settled, hr.settled]
  · rw [hs.entries, hr.entries]
    constructor
    · rintro ⟨rfl | ⟨he, -⟩, hne⟩
      · exact absurd rfl hne
      · exact he
    · exact fun he => ⟨Or.inr ⟨he, h.key_ne e he⟩, h.key_ne e he⟩

/-- What a posted request leaves behind: one more validation that waits, with a key and a timer of its
own. -/
structure Posted (s s' : Validations) (signal : Option ℕ) (e : JsString × PendingValidation) : Prop where
  call : e.2.call = s.calls
  signal : e.2.signal = signal
  fresh : ∀ e' ∈ s.pendingValidations.entries, e'.1 ≠ e.1 ∧ e'.2.timeout ≠ e.2.timeout
  entries : ∀ e', e' ∈ s'.pendingValidations.entries ↔ e' = e ∨ e' ∈ s.pendingValidations.entries
  settled : s'.settled = s.settled

theorem Tidy.request_posts {s : Validations} (h : Tidy s) {signal : Option ℕ}
    (habort : (signal.any fun n => (s.signals n).aborted) = false) :
    ∃ e, Posted s (s.requestUiValidation true signal true) signal e := by
  have hr := registers_register habort
  have heq : s.requestUiValidation true signal true =
      { s with calls := s.calls + 1 }.register s.calls signal := by
    unfold requestUiValidation
    rw [if_neg (by decide)]
    dsimp only
    rw [habort, if_neg Bool.false_ne_true, if_pos rfl]
  rw [heq]
  refine ⟨_, hr.call, rfl, fun e' he' => ⟨h.key_ne e' he', (h.bounds e' he').2.ne⟩, fun e' => ?_,
    hr.settled⟩
  rw [hr.entries]
  exact or_congr_right ⟨And.left, fun he' => ⟨he', h.key_ne e' he'⟩⟩

/-- A request without a user interface, or with a signal that has aborted, is settled at once. -/
theorem request_refused (s : Validations) {ui : Bool} {signal : Option ℕ}
    (h : ui = false ∨ (signal.any fun n => (s.signals n).aborted) = true) (posts : Bool) :
    (s.requestUiValidation ui signal posts).pendingValidations = s.pendingValidations ∧
      (s.requestUiValidation ui signal posts).settled =
        (s.calls, .failed (if ui then .cancelled else .internalError)) :: s.settled := by
  unfold requestUiValidation
  dsimp only
  cases ui with
  | false => exact ⟨rfl, rfl⟩
  | true =>
      rcases h with h | h
      · cases h
      · rw [h]
        exact ⟨rfl, rfl⟩

theorem Tidy.request {s : Validations} (h : Tidy s) (ui : Bool) (signal : Option ℕ) (posts : Bool) :
    Answers s (s.requestUiValidation ui signal posts) (.request ui signal posts) := by
  by_cases hthrows : ui = true ∧ (signal.any fun n => (s.signals n).aborted) = false ∧ posts = false
  · obtain ⟨rfl, habort, rfl⟩ := hthrows
    obtain ⟨htidy, hsettled, hentries⟩ := h.request_throws habort
    exact ⟨htidy, ⟨[_], hsettled⟩, fun _ _ _ => nofun, fun e he _ => (hentries e).2 he⟩
  · unfold requestUiValidation
    dsimp only
    split_ifs with hui habort hposts
    · exact ⟨h.resolve _, ⟨[_], rfl⟩, fun _ _ _ => nofun, fun _ he _ => he⟩
    · exact ⟨h.resolve _, ⟨[_], rfl⟩, fun _ _ _ => nofun, fun _ he _ => he⟩
    · have hr := registers_register (Bool.not_eq_true _ ▸ habort)
      exact ⟨h.registers hr, ⟨[], hr.settled⟩, fun _ _ _ => nofun, fun e he _ =>
        (hr.entries e).2 (Or.inr ⟨he, h.key_ne e he⟩)⟩
    · refine absurd ⟨?_, Bool.not_eq_true _ ▸ habort, Bool.not_eq_true _ ▸ hposts⟩ hthrows
      simpa using hui

theorem Settles.answers {s s' : Validations} (h : Tidy s) {e : JsString × PendingValidation}
    (he : e ∈ s.pendingValidations.entries) {outcome : ValidationOutcome} (hs : Settles s s' e outcome)
    {event : Event} (hconcerns : event.concerns e.1 e.2 = some outcome)
    (hothers : ∀ e' ∈ s.pendingValidations.entries, e'.1 ≠ e.1 → event.concerns e'.1 e'.2 = none) :
    Answers s s' event := by
  refine ⟨h.settles he hs, ⟨[_], hs.settled⟩, fun e' he' outcome' houtcome => ?_, fun e' he' hnone => ?_⟩
  · have hkey : e'.1 = e.1 := by
      by_contra hkey
      exact nomatch (hothers e' he' hkey).symm.trans houtcome
    obtain rfl := eq_of_key_eq he' he hkey
    obtain rfl := Option.some.inj (hconcerns.symm.trans houtcome)
    refine ⟨?_, fun hmem => ((hs.entries e').1 hmem).2 rfl⟩
    rw [hs.settled]
    exact List.mem_cons_self
  · refine (hs.entries e').2 ⟨he', fun hkey => ?_⟩
    obtain rfl := eq_of_key_eq he' he hkey
    exact nomatch hnone.symm.trans hconcerns

theorem Answers.refl {s : Validations} (h : Tidy s) {event : Event}
    (hnone : ∀ e ∈ s.pendingValidations.entries, event.concerns e.1 e.2 = none) : Answers s s event :=
  ⟨h, ⟨[], rfl⟩, fun e he _ houtcome => (nomatch (hnone e he).symm.trans houtcome), fun _ he _ => he⟩

theorem Tidy.reply {s : Validations} (h : Tidy s) (input : JsValue) :
    Answers s (s.completeScreenshotValidation input).1 (.reply input) := by
  unfold completeScreenshotValidation
  cases hid : repliesTo input with
  | none => exact Answers.refl h fun e _ => by rw [Event.concerns, hid, if_neg nofun]
  | some id =>
      dsimp only
      rcases settle_cases s id (replyOutcome (input.field "asset")) with ⟨hsame, hnone⟩ | ⟨e, he, rfl, hs⟩
      · rw [hsame]
        refine Answers.refl h fun e he => ?_
        rw [Event.concerns, hid, if_neg fun heq => hnone e he (Option.some.inj heq).symm]
      · refine hs.answers h he ?_ fun e' _ hkey => ?_
        · rw [Event.concerns, hid, if_pos rfl]
        · rw [Event.concerns, hid, if_neg fun heq => hkey (Option.some.inj heq).symm]

theorem Tidy.timeout {s : Validations} (h : Tidy s) (timer : ℕ) :
    Answers s (s.fire timer) (.timeout timer) := by
  rcases h.fire_cases timer with ⟨hsame, hnone⟩ | ⟨e, he, rfl, hs⟩
  · rw [hsame]
    exact Answers.refl h fun e he => if_neg fun heq => hnone e he heq.symm
  · refine hs.answers h he (if_pos rfl) fun e' he' hkey => if_neg fun heq => hkey ?_
    rw [h.distinct e' he' e he (Or.inr heq.symm)]

theorem Tidy.step {s : Validations} (h : Tidy s) (event : Event) : Answers s (s.step event) event := by
  cases event with
  | request ui signal posts => exact h.request ui signal posts
  | reply input => exact h.reply input
  | timeout timer => exact h.timeout timer
  | abort signal =>
      obtain ⟨htidy, hentries, hcancelled, hlater⟩ := h.abort signal
      refine ⟨htidy, hlater, fun e he outcome houtcome => ?_, fun e he hnone => ?_⟩
      · rw [Event.concerns] at houtcome
        split_ifs at houtcome with hsignal
        · obtain rfl := Option.some.inj houtcome
          exact ⟨hcancelled e he hsignal, fun hmem => ((hentries e).1 hmem).2 hsignal⟩
      · refine (hentries e).2 ⟨he, fun hsignal => ?_⟩
        rw [Event.concerns, if_pos hsignal] at hnone
        exact nomatch hnone

/-! ## Runs -/

theorem Tidy.run {s : Validations} (h : Tidy s) (events : List Event) :
    Tidy (s.run events) ∧ ∃ later, (s.run events).settled = later ++ s.settled := by
  induction events generalizing s with
  | nil => exact ⟨h, [], rfl⟩
  | cons event events ih =>
      obtain ⟨later, hlater⟩ := (h.step event).settled
      obtain ⟨htidy, later', hlater'⟩ := ih (h.step event).tidy
      exact ⟨htidy, later' ++ later, hlater'.trans (by rw [hlater, List.append_assoc])⟩

theorem tidy_run (events : List Event) : Tidy (({} : Validations).run events) := by
  have hempty : Tidy {} := by
    refine ⟨?_, ?_, ?_, fun t => ?_, fun signal id => ?_, ?_, ?_, fun n _ => rfl⟩
    · exact fun e he => absurd he List.not_mem_nil
    · exact fun e he => absurd he List.not_mem_nil
    · exact fun e he => absurd he List.not_mem_nil
    · exact ⟨fun ht => absurd ht List.not_mem_nil, fun ⟨_, he, _⟩ => absurd he List.not_mem_nil⟩
    · exact ⟨fun ht => absurd ht List.not_mem_nil, fun ⟨_, he, _⟩ => absurd he List.not_mem_nil⟩
    · exact fun e he => absurd he List.not_mem_nil
    · exact fun e he => absurd he List.not_mem_nil
  exact (hempty.run events).1

/-- **The first event that concerns a validation** settles it. -/
theorem Tidy.run_concerns {s : Validations} (h : Tidy s) {e : JsString × PendingValidation}
    (he : e ∈ s.pendingValidations.entries) (before : List Event)
    (hbefore : ∀ event ∈ before, event.concerns e.1 e.2 = none) {event : Event}
    {outcome : ValidationOutcome} (hevent : event.concerns e.1 e.2 = some outcome) (after : List Event) :
    (e.2.call, outcome) ∈ (s.run (before ++ event :: after)).settled := by
  induction before generalizing s with
  | nil =>
      obtain ⟨later, hlater⟩ := ((h.step event).tidy.run after).2
      have hsettled := ((h.step event).outcome e he outcome hevent).1
      show _ ∈ ((s.step event).run after).settled
      rw [hlater]
      exact List.mem_append_right _ hsettled
  | cons first before ih =>
      have hkept := (h.step first).others e he (hbefore first List.mem_cons_self)
      exact ih (h.step first).tidy hkept fun x hx => hbefore x (List.mem_cons_of_mem _ hx)

/-- The one thing that a call has resolved to. -/
theorem Tidy.settled_eq {s : Validations} (h : Tidy s) {n : ℕ} {outcome outcome' : ValidationOutcome}
    (hmem : (n, outcome) ∈ s.settled) (hmem' : (n, outcome') ∈ s.settled) : outcome = outcome' := by
  have hin : ∀ {o : ValidationOutcome}, (n, o) ∈ s.settled → (n, o) ∈ s.settled.filter fun a => a.1 = n :=
    fun ho => List.mem_filter.2 ⟨ho, by simp⟩
  have hle : (s.settled.filter fun a => a.1 = n).length ≤ 1 := by
    by_cases hwaits : ∃ e ∈ s.pendingValidations.entries, e.2.call = n
    · obtain ⟨e, he, rfl⟩ := hwaits
      rw [h.waits e he]
      exact Nat.zero_le _
    · rw [h.once n fun e he heq => hwaits ⟨e, he, heq⟩]
      split_ifs
      · exact le_refl _
      · exact Nat.zero_le _
  obtain ⟨a, ha⟩ := List.length_eq_one_iff.1 (le_antisymm hle (List.length_pos_of_mem (hin hmem)))
  have h₁ := hin hmem
  have h₂ := hin hmem'
  rw [ha, List.mem_singleton] at h₁ h₂
  exact (Prod.mk.inj (h₁.trans h₂.symm)).2

/-- **Each validation settles once**: a call that has not resolved has an entry, a timer and the
listener of its signal, and one that has resolved did so once and has none of them, nor does anything
else. A request that is posted waits, and one that is not is settled at once. What settles a
validation is the first event that concerns it, and an event leaves alone every validation that it
does not concern: a late or unknown reply changes nothing. -/
theorem validation_settles_once (events : List Event) :
    let s := ({} : Validations).run events
    (∀ n < s.calls,
      (∃ e ∈ s.pendingValidations.entries, e.2.call = n ∧ (e.2.timeout, e.1) ∈ s.timers ∧
        (∀ signal, e.2.signal = some signal → e.1 ∈ (s.signals signal).listeners) ∧
        (s.settled.filter fun a => a.1 = n).length = 0) ∨
      (∀ e ∈ s.pendingValidations.entries, e.2.call ≠ n) ∧
        (s.settled.filter fun a => a.1 = n).length = 1) ∧
    (∀ t ∈ s.timers, ∃ e ∈ s.pendingValidations.entries, t = (e.2.timeout, e.1)) ∧
    (∀ signal, ∀ id ∈ (s.signals signal).listeners,
      ∃ e ∈ s.pendingValidations.entries, e.1 = id ∧ e.2.signal = some signal) ∧
    (∀ e ∈ s.pendingValidations.entries, ∀ before event after outcome,
      (∀ earlier ∈ before, Event.concerns e.1 e.2 earlier = none) → event.concerns e.1 e.2 = some outcome →
      ∀ outcome', (e.2.call, outcome') ∈ (s.run (before ++ event :: after)).settled ↔ outcome' = outcome) ∧
    (∀ event, ∀ e ∈ s.pendingValidations.entries, event.concerns e.1 e.2 = none →
      e ∈ (s.step event).pendingValidations.entries) ∧
    (∀ input, (∀ e ∈ s.pendingValidations.entries, repliesTo input ≠ some e.1) →
      s.step (.reply input) = s) ∧
    (∀ ui signal posts, ui = false ∨ (signal.any fun n => (s.signals n).aborted) = true →
      (s.step (.request ui signal posts)).pendingValidations = s.pendingValidations ∧
        (s.step (.request ui signal posts)).settled =
          (s.calls, .failed (if ui then .cancelled else .internalError)) :: s.settled) ∧
    ∀ signal, (signal.any fun n => (s.signals n).aborted) = false →
      (∃ e, Posted s (s.step (.request true signal true)) signal e) ∧
      (s.step (.request true signal false)).settled = (s.calls, .failed .internalError) :: s.settled ∧
      ∀ e, e ∈ (s.step (.request true signal false)).pendingValidations.entries ↔
        e ∈ s.pendingValidations.entries := by
  intro s
  have h : Tidy s := tidy_run events
  refine ⟨fun n hn => ?_, fun t ht => (h.timers t).1 ht, fun signal id hid => (h.listeners signal id).1 hid,
    fun e he before event after outcome hbefore hevent outcome' => ⟨fun hmem => ?_, ?_⟩,
    fun event e he hnone => (h.step event).others e he hnone, fun input hunknown => ?_,
    fun ui signal posts hrefused => request_refused s hrefused posts,
    fun signal habort => ⟨h.request_posts habort, ?_⟩⟩
  · by_cases hwaits : ∃ e ∈ s.pendingValidations.entries, e.2.call = n
    · obtain ⟨e, he, rfl⟩ := hwaits
      refine Or.inl ⟨e, he, rfl, (h.timers _).2 ⟨e, he, rfl⟩, fun signal hsignal => ?_, ?_⟩
      · exact (h.listeners signal _).2 ⟨e, he, rfl, hsignal⟩
      · rw [h.waits e he]
        rfl
    · have hdone : ∀ e ∈ s.pendingValidations.entries, e.2.call ≠ n := fun e he heq => hwaits ⟨e, he, heq⟩
      exact Or.inr ⟨hdone, (h.once n hdone).trans (if_pos hn)⟩
  · exact (h.run _).1.settled_eq hmem (h.run_concerns he before hbefore hevent after)
  · rintro rfl
    exact h.run_concerns he before hbefore hevent after
  · show (s.completeScreenshotValidation input).1 = s
    unfold completeScreenshotValidation
    cases hid : repliesTo input with
    | none => rfl
    | some id =>
        rcases settle_cases s id (replyOutcome (input.field "asset")) with ⟨hsame, -⟩ | ⟨e, he, rfl, -⟩
        · exact hsame
        · exact absurd hid (hunknown e he)
  · exact (h.request_throws habort).2

end FigmaDevMcp.Plugin.Validations

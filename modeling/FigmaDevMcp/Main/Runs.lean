import FigmaDevMcp.Main.AnswersOnce

set_option autoImplicit false

/-!
# What one event does to the runs

* `ids_step`: the runs keep their ids, and a request adds its own;
* `registered_step`: a request under a new id is registered;
* `answers_step`: the answers that there were are still there;
* `Kept.exists_new_answer`: a run that an event has answered has its answer among the new ones.
-/

namespace FigmaDevMcp.Plugin

variable {Result : Type}

/-- The two ids of a run. -/
def Run.ids (r : Run Result) : JsString × JsString := (r.controllerRequestId, r.requestId)

theorem Run.Grows.ids {r r' : Run Result} (h : r.Grows r') : r'.ids = r.ids :=
  Prod.ext h.controllerRequestId h.requestId

namespace Dispatcher

/-- The ids that an event brings. -/
def Event.born : Event Result → List (JsString × JsString)
  | .request controllerRequestId requestId _ => [(controllerRequestId, requestId)]
  | _ => []

theorem length_born (event : Event Result) :
    event.born.length = ([event].filter Event.isRequest).length := by
  cases event <;> rfl

variable (s : Dispatcher Result)

/-- The run of a request. -/
theorem exists_run_start (k requestId : JsString) (prepared : Bool) :
    ∃ r', (s.start k requestId prepared).runs[s.runs.length]? = some r' ∧
      Run.Grows { controllerRequestId := k, requestId, registered := !s.active.has k } r' := by
  generalize hr : ({ controllerRequestId := k, requestId, registered := !s.active.has k } :
    Run Result) = r
  have hsettled : ∀ t : Dispatcher Result, t.runs = s.runs →
      ∃ r', ((t.push (r.settle (.error .other))).resume s.runs.length).runs[s.runs.length]? = some r' ∧
        r.Grows r' := by
    intro t ht
    have hpush : (t.push (r.settle (.error .other))).runs[s.runs.length]? =
        some (r.settle (.error .other)) := (getElem?_push t _).2 (Or.inr ⟨congrArg List.length ht.symm, rfl⟩)
    obtain ⟨r', hr', hgrows⟩ := grows_resume _ s.runs.length hpush
    exact ⟨r', hr', (r.grows_settle _).trans hgrows⟩
  unfold start
  dsimp only
  rw [hr]
  split_ifs
  · exact hsettled s rfl
  · exact ⟨r, (getElem?_push _ r).2 (Or.inr ⟨rfl, rfl⟩), Run.Grows.refl r⟩
  · exact hsettled { s with active := s.active.set k s.runs.length } rfl

/-- The runs keep their ids. -/
theorem ids_step (event : Event Result) :
    (s.step event).runs.map Run.ids = s.runs.map Run.ids ++ event.born := by
  have hlength : (s.step event).runs.length = s.runs.length + event.born.length := by
    rw [length_step, length_born]
  refine List.ext_getElem? fun i => ?_
  rcases Nat.lt_or_ge i s.runs.length with hi | hi
  · obtain ⟨r, hr⟩ : ∃ r, s.runs[i]? = some r := ⟨_, List.getElem?_eq_getElem hi⟩
    obtain ⟨r', hr', hgrows⟩ := s.grows_step event hr
    have hi' : i < (s.runs.map Run.ids).length := by rwa [List.length_map]
    rw [List.getElem?_append_left hi', List.getElem?_map, List.getElem?_map, hr, hr', Option.map_some,
      Option.map_some, hgrows.ids]
  · rw [List.getElem?_append_right (by rwa [List.length_map]), List.length_map]
    cases event with
    | request k requestId prepared =>
        rcases Nat.eq_or_lt_of_le hi with rfl | hlt
        · obtain ⟨r', hr', hgrows⟩ := s.exists_run_start k requestId prepared
          rw [List.getElem?_map, show (s.step (.request k requestId prepared)).runs[s.runs.length]? =
            some r' from hr', Option.map_some, hgrows.ids, Nat.sub_self]
          rfl
        · rw [List.getElem?_eq_none, List.getElem?_eq_none]
          · show 1 ≤ _
            omega
          · rw [List.length_map, hlength]
            exact hlt
    | cancel _ | settle _ _ | resume _ =>
        rw [List.getElem?_eq_none]
        · rfl
        · rw [List.length_map, hlength]
          exact hi

/-- **A request under a new id** is registered. -/
theorem registered_step {s : Dispatcher Result} (h : Kept s) (hall : ∀ r ∈ s.runs, r.registered = true)
    {event : Event Result} (hnew : ∀ e ∈ event.born, ∀ r ∈ s.runs, r.controllerRequestId ≠ e.1) :
    ∀ r ∈ (s.step event).runs, r.registered = true := by
  intro r' hr'
  obtain ⟨i, hi⟩ := List.mem_iff_getElem?.1 hr'
  rcases Nat.lt_or_ge i s.runs.length with hlt | hge
  · have hr : s.runs[i]? = some s.runs[i] := List.getElem?_eq_getElem hlt
    obtain ⟨r'', hr'', hgrows⟩ := s.grows_step event hr
    obtain rfl := Option.some.inj (hi.symm.trans hr'')
    exact hgrows.registered.trans (hall _ (List.getElem_mem hlt))
  · obtain ⟨hlt', -⟩ := List.getElem?_eq_some_iff.1 hi
    rw [length_step, ← length_born] at hlt'
    cases event with
    | request k requestId prepared =>
        obtain ⟨r'', hr'', hgrows⟩ := s.exists_run_start k requestId prepared
        have hlast : i = s.runs.length := by
          have hone : i < s.runs.length + 1 := hlt'
          omega
        rw [hlast] at hi
        obtain rfl := Option.some.inj (hi.symm.trans hr'')
        have hnone : s.active.has k = false := by
          refine Bool.eq_false_iff.2 fun hhas => ?_
          obtain ⟨n, hn⟩ := Option.isSome_iff_exists.1 hhas
          obtain ⟨r, hr, hk, -⟩ := (h.entries k n).1 (JsMap.get_eq_some.1 hn)
          exact hnew _ (List.mem_singleton.2 rfl) r (List.mem_of_getElem? hr) hk
        rw [hgrows.registered, hnone]
        rfl
    | cancel _ | settle _ _ | resume _ => exact absurd hlt' (Nat.not_lt.2 hge)

theorem answers_resume (n : ℕ) : ∃ new, (s.resume n).answers = new ++ s.answers := by
  unfold resume
  split
  · exact ⟨[], rfl⟩
  · split
    · exact ⟨[_], rfl⟩
    · exact ⟨[], rfl⟩

/-- Answers stay. -/
theorem answers_step (event : Event Result) : ∃ new, (s.step event).answers = new ++ s.answers := by
  cases event with
  | request k requestId prepared =>
      show ∃ new, (s.start k requestId prepared).answers = _
      unfold start
      dsimp only
      split_ifs
      · exact answers_resume (s.push _) _
      · exact ⟨[], rfl⟩
      · exact answers_resume (Dispatcher.push { s with active := _ } _) _
  | cancel k =>
      show ∃ new, (s.cancel k).answers = _
      unfold cancel
      split
      · exact ⟨[], rfl⟩
      · exact ⟨[], rfl⟩
  | settle n outcome => exact ⟨[], rfl⟩
  | resume n => exact s.answers_resume n

variable {s} {s' : Dispatcher Result} {new : List (ℕ × ControllerOutboundMessage Result)}

/-- **A run that has been answered** has its answer among the new ones. -/
theorem Kept.exists_new_answer (h : Kept s) (h' : Kept s') (hnew : s'.answers = new ++ s.answers) {n : ℕ}
    {r' : Run Result} (hr' : s'.runs[n]? = some r') (hanswered : r'.answered = true)
    (hopen : ∀ r, s.runs[n]? = some r → r.answered = false) : ∃ m, (n, m) ∈ new := by
  have hnone : (s.answers.filter fun a => a.1 = n).length = 0 := by
    rw [h.once n]
    cases hr : s.runs[n]? with
    | none => rfl
    | some r => simp [hopen r hr]
  have hone : (s'.answers.filter fun a => a.1 = n).length = 1 := by
    rw [h'.once n, hr', Option.any_some, hanswered]
    rfl
  rw [hnew, List.filter_append, List.length_append, hnone, Nat.add_zero] at hone
  obtain ⟨a, ha⟩ := List.exists_mem_of_length_pos (hone ▸ Nat.one_pos)
  obtain ⟨hmem, hn⟩ := List.mem_filter.1 ha
  exact ⟨a.2, (of_decide_eq_true hn) ▸ hmem⟩

/-- A new answer is that of a run. -/
theorem Kept.new_answer (h' : Kept s') (hnew : s'.answers = new ++ s.answers) {n : ℕ}
    {m : ControllerOutboundMessage Result} (hm : (n, m) ∈ new) :
    ∃ r outcome, s'.runs[n]? = some r ∧ r.answered = true ∧ r.outcome = some outcome ∧
      m = r.answer outcome :=
  h'.answers n m (hnew ▸ List.mem_append_left _ hm)

/-- **A run that has been answered** has an outcome. -/
theorem Kept.outcome_of_answered (h : Kept s) {n : ℕ} {r : Run Result} (hr : s.runs[n]? = some r)
    (hanswered : r.answered = true) : r.outcome ≠ none := by
  have hone : (s.answers.filter fun a => a.1 = n).length = 1 := by
    rw [h.once n, hr, Option.any_some, hanswered]
    rfl
  obtain ⟨a, ha⟩ := List.exists_mem_of_length_pos (hone ▸ Nat.one_pos)
  obtain ⟨hmem, hn⟩ := List.mem_filter.1 ha
  obtain ⟨r', outcome, hr', -, houtcome, -⟩ := h.answers a.1 a.2 hmem
  rw [of_decide_eq_true hn] at hr'
  obtain rfl := Option.some.inj (hr.symm.trans hr')
  rw [houtcome]
  exact Option.some_ne_none outcome

/-- **A cancel** decides the run of its id. -/
theorem Kept.outcome_cancel (h : Kept s) {n : ℕ} {r r' : Run Result} (hr : s.runs[n]? = some r)
    (hregistered : r.registered = true)
    (hr' : (s.step (.cancel r.controllerRequestId)).runs[n]? = some r') : r'.outcome ≠ none := by
  cases hanswered : r.answered with
  | true =>
      obtain ⟨r'', hr'', hgrows⟩ := s.grows_step (.cancel r.controllerRequestId) hr
      obtain rfl := Option.some.inj (hr'.symm.trans hr'')
      obtain ⟨outcome, houtcome⟩ := Option.ne_none_iff_exists'.1 (h.outcome_of_answered hr hanswered)
      rw [hgrows.outcome outcome houtcome]
      exact Option.some_ne_none outcome
  | false =>
      have hentry : (r.controllerRequestId, n) ∈ s.active.entries :=
        (h.entries _ n).2 ⟨r, hr, rfl, hregistered, hanswered⟩
      have hcancel : s.step (.cancel r.controllerRequestId) = s.modify n .abort := by
        show s.cancel _ = _
        rw [cancel, JsMap.get_eq_some.2 hentry]
      rw [hcancel, getElem?_modify, hr] at hr'
      obtain rfl := Option.some.inj hr'
      show (if n = n then r.abort else r).outcome ≠ none
      rw [if_pos rfl, Run.abort]
      split_ifs with haborted
      · exact h.aborted n r hr haborted
      · exact Option.some_ne_none _

end Dispatcher

end FigmaDevMcp.Plugin

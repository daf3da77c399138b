import FigmaDevMcp.Main.Dispatch

set_option autoImplicit false

/-!
# Each request is answered once

* `Run.Grows`: what a run keeps, and `grows_run`: every run of the dispatcher keeps it;
* `Kept`: the entries are those of the runs that go on, and the answers those of the others;
* `alike_run`: a cancel that finds the race decided changes nothing;
* **`dispatch_answers_once`**.
-/

namespace FigmaDevMcp.Plugin

variable {Result : Type}

/-! ## What a run keeps -/

/-- The ids stay, and so do the outcome and the answer once they are there. -/
structure Run.Grows (r r' : Run Result) : Prop where
  controllerRequestId : r'.controllerRequestId = r.controllerRequestId
  requestId : r'.requestId = r.requestId
  registered : r'.registered = r.registered
  outcome : ∀ outcome, r.outcome = some outcome → r'.outcome = some outcome
  answered : r.answered = true → r'.answered = true

theorem Run.Grows.refl (r : Run Result) : r.Grows r := ⟨rfl, rfl, rfl, fun _ => id, id⟩

theorem Run.Grows.trans {r r' r'' : Run Result} (h : r.Grows r') (h' : r'.Grows r'') : r.Grows r'' where
  controllerRequestId := h'.controllerRequestId.trans h.controllerRequestId
  requestId := h'.requestId.trans h.requestId
  registered := h'.registered.trans h.registered
  outcome o ho := h'.outcome o (h.outcome o ho)
  answered ha := h'.answered (h.answered ha)

theorem Run.Grows.answer {r r' : Run Result} (h : r.Grows r') (outcome : Except Thrown Result) :
    r'.answer outcome = r.answer outcome := by
  unfold Run.answer
  rw [h.controllerRequestId, h.requestId]

theorem Run.grows_settle (r : Run Result) (outcome : Except Thrown Result) :
    r.Grows (r.settle outcome) := by
  refine ⟨rfl, rfl, rfl, fun o ho => ?_, id⟩
  rw [Run.settle, ho, Option.getD_some]

theorem Run.grows_abort (r : Run Result) : r.Grows r.abort := by
  unfold Run.abort
  split_ifs
  · exact Run.Grows.refl r
  · exact ⟨rfl, rfl, rfl, ({ r with aborted := true }.grows_settle _).outcome, id⟩

theorem Run.grows_answered (r : Run Result) : r.Grows { r with answered := true } :=
  ⟨rfl, rfl, rfl, fun _ => id, fun _ => rfl⟩

namespace Dispatcher

@[simp] theorem getElem?_modify (s : Dispatcher Result) (n : ℕ) (f : Run Result → Run Result) (i : ℕ) :
    (s.modify n f).runs[i]? = s.runs[i]?.map fun r => if n = i then f r else r :=
  List.getElem?_modify f n s.runs i

theorem grows_modify {s : Dispatcher Result} {f : Run Result → Run Result} (hf : ∀ r : Run Result, r.Grows (f r))
    (n : ℕ) {i : ℕ} {r : Run Result} (hr : s.runs[i]? = some r) :
    ∃ r' : Run Result, (s.modify n f).runs[i]? = some r' ∧ r.Grows r' := by
  rw [getElem?_modify, hr]
  refine ⟨_, rfl, ?_⟩
  split_ifs
  · exact hf r
  · exact Run.Grows.refl r

theorem grows_resume (s : Dispatcher Result) (n : ℕ) {i : ℕ} {r : Run Result}
    (hr : s.runs[i]? = some r) : ∃ r', (s.resume n).runs[i]? = some r' ∧ r.Grows r' := by
  unfold resume
  split
  · exact ⟨r, hr, Run.Grows.refl r⟩
  · split
    · exact grows_modify Run.grows_answered n hr
    · exact ⟨r, hr, Run.Grows.refl r⟩

theorem getElem?_push (s : Dispatcher Result) (r : Run Result) {i : ℕ} {r' : Run Result} :
    (s.push r).runs[i]? = some r' ↔ s.runs[i]? = some r' ∨ i = s.runs.length ∧ r = r' := by
  show (s.runs ++ [r])[i]? = some r' ↔ _
  rw [List.getElem?_append]
  split_ifs with hi
  · exact ⟨Or.inl, fun h => h.resolve_right fun h => hi.ne h.1⟩
  · rw [List.getElem?_singleton, List.getElem?_eq_none (Nat.le_of_not_lt hi)]
    split_ifs with hzero
    · have hlength : i = s.runs.length := by omega
      simp [hlength]
    · have hlength : i ≠ s.runs.length := by omega
      simp [hlength]

theorem grows_step (s : Dispatcher Result) (event : Event Result) {i : ℕ} {r : Run Result}
    (hr : s.runs[i]? = some r) : ∃ r', (s.step event).runs[i]? = some r' ∧ r.Grows r' := by
  cases event with
  | request k requestId prepared =>
      show ∃ r', (s.start k requestId prepared).runs[i]? = some r' ∧ _
      unfold start
      dsimp only
      split_ifs
      · exact grows_resume _ _ ((getElem?_push s _).2 (Or.inl hr))
      · exact ⟨r, (getElem?_push _ _).2 (Or.inl hr), Run.Grows.refl r⟩
      · exact grows_resume _ _ ((getElem?_push _ _).2 (Or.inl hr))
  | cancel k =>
      show ∃ r', (s.cancel k).runs[i]? = some r' ∧ _
      unfold cancel
      split
      · exact ⟨r, hr, Run.Grows.refl r⟩
      · exact grows_modify Run.grows_abort _ hr
  | settle n outcome => exact grows_modify (fun r => r.grows_settle outcome) n hr
  | resume n => exact grows_resume s n hr

/-- What holds of the entries and the answers. -/
structure Kept (s : Dispatcher Result) : Prop where
  entries : ∀ k n, (k, n) ∈ s.active.entries ↔ ∃ r, s.runs[n]? = some r ∧
    r.controllerRequestId = k ∧ r.registered = true ∧ r.answered = false
  answers : ∀ n m, (n, m) ∈ s.answers → ∃ r outcome, s.runs[n]? = some r ∧ r.answered = true ∧
    r.outcome = some outcome ∧ m = r.answer outcome
  once : ∀ n, (s.answers.filter fun a => a.1 = n).length =
    if s.runs[n]?.any fun r => r.answered then 1 else 0
  aborted : ∀ (n : ℕ) (r : Run Result), s.runs[n]? = some r → r.aborted = true → r.outcome ≠ none

theorem Kept.modify {s : Dispatcher Result} (h : Kept s) {f : Run Result → Run Result}
    (hf : ∀ r : Run Result, r.Grows (f r)) (hanswered : ∀ r : Run Result, (f r).answered = r.answered)
    (haborted : ∀ r : Run Result, (f r).aborted = true → r.aborted = true ∨ (f r).outcome ≠ none) (n : ℕ) :
    Kept (s.modify n f) := by
  have hsame : ∀ (i : ℕ) (r' : Run Result), (s.modify n f).runs[i]? = some r' →
      ∃ r : Run Result, s.runs[i]? = some r ∧ r.Grows r' ∧ r'.answered = r.answered ∧
        (r'.aborted = true → r.aborted = true ∨ r'.outcome ≠ none) := by
    intro i r' hr'
    rw [getElem?_modify] at hr'
    obtain ⟨r, hr, rfl⟩ := Option.map_eq_some_iff.1 hr'
    refine ⟨r, hr, ?_⟩
    split_ifs
    · exact ⟨hf r, hanswered r, haborted r⟩
    · exact ⟨Run.Grows.refl r, rfl, Or.inl⟩
  constructor
  · intro k i
    rw [show (s.modify n f).active = s.active from rfl, h.entries k i]
    constructor
    · rintro ⟨r, hr, hk, hregistered, hdone⟩
      obtain ⟨r', hr', hgrows⟩ := grows_modify hf n hr
      obtain ⟨r₀, hr₀, -, hsame, -⟩ := hsame i r' hr'
      obtain rfl := Option.some.inj (hr.symm.trans hr₀)
      exact ⟨r', hr', hgrows.controllerRequestId.trans hk, hgrows.registered.trans hregistered,
        hsame.trans hdone⟩
    · rintro ⟨r', hr', hk, hregistered, hdone⟩
      obtain ⟨r, hr, hgrows, hsame, -⟩ := hsame i r' hr'
      exact ⟨r, hr, hgrows.controllerRequestId.symm.trans hk, hgrows.registered.symm.trans hregistered,
        hsame.symm.trans hdone⟩
  · intro i m hm
    obtain ⟨r, outcome, hr, hdone, houtcome, rfl⟩ := h.answers i m hm
    obtain ⟨r', hr', hgrows⟩ := grows_modify hf n hr
    exact ⟨r', outcome, hr', hgrows.answered hdone, hgrows.outcome _ houtcome,
      (hgrows.answer outcome).symm⟩
  · intro i
    have hany : ((s.modify n f).runs[i]?.any fun r => r.answered) = s.runs[i]?.any fun r => r.answered := by
      rw [getElem?_modify]
      cases s.runs[i]? with
      | none => rfl
      | some r => by_cases hi : n = i <;> simp [hi, hanswered]
    rw [hany]
    exact h.once i
  · intro i r' hr' hset
    obtain ⟨r, hr, hgrows, -, hset'⟩ := hsame i r' hr'
    rcases hset' hset with hset | hsome
    · obtain ⟨outcome, houtcome⟩ := Option.ne_none_iff_exists'.1 (h.aborted i r hr hset)
      rw [hgrows.outcome outcome houtcome]
      exact Option.some_ne_none outcome
    · exact hsome

theorem Kept.finish {s : Dispatcher Result} (h : Kept s) {n : ℕ} {r : Run Result}
    (hr : s.runs[n]? = some r) (hopen : r.answered = false) {outcome : Except Thrown Result}
    (houtcome : r.outcome = some outcome) : Kept (s.finish n r outcome) := by
  have hruns : ∀ i : ℕ, (s.finish n r outcome).runs[i]? =
      s.runs[i]?.map fun r => if n = i then { r with answered := true } else r := getElem?_modify s n _
  have hself : (s.finish n r outcome).runs[n]? = some { r with answered := true } := by
    rw [hruns, hr]
    simp
  have hother : ∀ i : ℕ, i ≠ n → (s.finish n r outcome).runs[i]? = s.runs[i]? := by
    intro i hi
    rw [hruns]
    simp [Ne.symm hi]
  -- The only entry that goes is this run's, even though it goes by its id.
  have hentries : ∀ k i, (k, i) ∈ (s.finish n r outcome).active.entries ↔
      (k, i) ∈ s.active.entries ∧ i ≠ n := by
    intro k i
    have hmine : (k, n) ∈ s.active.entries → r.registered = true ∧ k = r.controllerRequestId := by
      intro hk
      obtain ⟨r', hr', rfl, hregistered, -⟩ := (h.entries k n).1 hk
      obtain rfl := Option.some.inj (hr.symm.trans hr')
      exact ⟨hregistered, rfl⟩
    show (k, i) ∈ (if r.registered then s.active.delete r.controllerRequestId else s.active).entries ↔ _
    split_ifs with hregistered
    · have hn : (r.controllerRequestId, n) ∈ s.active.entries :=
        (h.entries _ n).2 ⟨r, hr, rfl, hregistered, hopen⟩
      rw [JsMap.mem_delete]
      refine and_congr_right fun hk => not_congr ⟨?_, ?_⟩
      · rintro rfl
        exact Option.some.inj ((JsMap.get_eq_some.2 hk).symm.trans (JsMap.get_eq_some.2 hn))
      · rintro rfl
        exact (hmine hk).2
    · refine ⟨fun hk => ⟨hk, ?_⟩, And.left⟩
      rintro rfl
      exact hregistered (hmine hk).1
  constructor
  · intro k i
    rw [hentries, h.entries k i]
    by_cases hi : i = n
    · rw [hi, hself]
      refine ⟨fun hk => absurd rfl hk.2, ?_⟩
      rintro ⟨r', hr', -, -, hdone⟩
      obtain rfl := Option.some.inj hr'
      exact Bool.noConfusion hdone
    · rw [hother i hi]
      exact ⟨And.left, fun hk => ⟨hk, hi⟩⟩
  · intro i m hm
    rcases List.mem_cons.1 hm with heq | hm
    · obtain ⟨rfl, rfl⟩ := Prod.mk.inj heq
      exact ⟨_, outcome, hself, rfl, houtcome, rfl⟩
    · obtain ⟨r', outcome', hr', hdone, houtcome', rfl⟩ := h.answers i m hm
      have hi : i ≠ n := by
        rintro rfl
        obtain rfl := Option.some.inj (hr.symm.trans hr')
        exact Bool.false_ne_true (hopen.symm.trans hdone)
      exact ⟨r', outcome', (hother i hi).trans hr', hdone, houtcome', rfl⟩
  · intro i
    show (((n, r.answer outcome) :: s.answers).filter fun a => a.1 = i).length = _
    by_cases hi : i = n
    · have hnone := h.once n
      rw [hr, Option.any_some, hopen] at hnone
      rw [hi, hself, List.filter_cons_of_pos (by simp), List.length_cons, hnone]
      rfl
    · rw [hother i hi, List.filter_cons_of_neg (by simp [Ne.symm hi])]
      exact h.once i
  · intro i r' hr' haborted
    by_cases hi : i = n
    · rw [hi, hself] at hr'
      rw [← Option.some.inj hr', houtcome]
      exact Option.some_ne_none outcome
    · exact h.aborted i r' ((hother i hi).symm.trans hr') haborted

theorem Kept.resume {s : Dispatcher Result} (h : Kept s) (n : ℕ) : Kept (s.resume n) := by
  unfold Dispatcher.resume
  split
  · exact h
  · rename_i r hr
    split
    · rename_i outcome hopen houtcome
      exact h.finish hr hopen houtcome
    · exact h

/-- A run that has just come, with an entry if it is registered. -/
theorem Kept.push {s s' : Dispatcher Result} (h : Kept s) {r : Run Result}
    (hruns : s'.runs = s.runs ++ [r]) (hanswers : s'.answers = s.answers)
    (hentries : ∀ k i, (k, i) ∈ s'.active.entries ↔ (k, i) ∈ s.active.entries ∨
      r.registered = true ∧ k = r.controllerRequestId ∧ i = s.runs.length)
    (hopen : r.answered = false) (haborted : r.aborted = false) : Kept s' := by
  have hget : ∀ {i : ℕ} {r' : Run Result},
      s'.runs[i]? = some r' ↔ s.runs[i]? = some r' ∨ i = s.runs.length ∧ r = r' := by
    intro i r'
    rw [hruns]
    exact getElem?_push s r
  constructor
  · intro k i
    rw [hentries, h.entries k i]
    constructor
    · rintro (⟨r', hr', hk, hregistered, hdone⟩ | ⟨hregistered, rfl, rfl⟩)
      · exact ⟨r', hget.2 (Or.inl hr'), hk, hregistered, hdone⟩
      · exact ⟨r, hget.2 (Or.inr ⟨rfl, rfl⟩), rfl, hregistered, hopen⟩
    · rintro ⟨r', hr', hk, hregistered, hdone⟩
      rcases hget.1 hr' with hr' | ⟨hi, rfl⟩
      · exact Or.inl ⟨r', hr', hk, hregistered, hdone⟩
      · exact Or.inr ⟨hregistered, hk.symm, hi⟩
  · intro i m hm
    rw [hanswers] at hm
    obtain ⟨r', outcome, hr', hrest⟩ := h.answers i m hm
    exact ⟨r', outcome, hget.2 (Or.inl hr'), hrest⟩
  · intro i
    have hany : (s'.runs[i]?.any fun r => r.answered) = s.runs[i]?.any fun r => r.answered := by
      rw [hruns, List.getElem?_append]
      split_ifs with hi
      · rfl
      · rw [List.getElem?_eq_none (Nat.le_of_not_lt hi), List.getElem?_singleton]
        split_ifs
        · exact hopen
        · rfl
    rw [hanswers, hany]
    exact h.once i
  · intro i r' hr' hset
    rcases hget.1 hr' with hr' | ⟨-, rfl⟩
    · exact h.aborted i r' hr' hset
    · exact absurd (haborted.symm.trans hset) Bool.false_ne_true

theorem Kept.start {s : Dispatcher Result} (h : Kept s) (k requestId : JsString) (prepared : Bool) :
    Kept (s.start k requestId prepared) := by
  unfold Dispatcher.start
  dsimp only
  by_cases hactive : s.active.has k = true
  · rw [if_pos hactive, hactive]
    refine Kept.resume ?_ _
    refine h.push rfl rfl (fun k' i => ?_) rfl rfl
    simp [Dispatcher.push, Run.settle]
  · have hnew : ∀ k' i, (k', i) ∈ s.active.entries → k' ≠ k := by
      rintro k' i hk rfl
      exact hactive (by rw [JsMap.has, JsMap.get_eq_some.2 hk]; rfl)
    have hset : ∀ k' i, (k', i) ∈ (s.active.set k s.runs.length).entries ↔
        (k', i) ∈ s.active.entries ∨ (!s.active.has k) = true ∧ k' = k ∧ i = s.runs.length := by
      intro k' i
      rw [JsMap.mem_set, Prod.mk.injEq, or_comm]
      refine or_congr ⟨And.left, fun hk => ⟨hk, hnew k' i hk⟩⟩ ?_
      simp [hactive]
    rw [if_neg hactive]
    split_ifs
    · exact h.push rfl rfl hset rfl rfl
    · refine Kept.resume ?_ _
      exact h.push rfl rfl hset rfl rfl

theorem Kept.step {s : Dispatcher Result} (h : Kept s) (event : Event Result) : Kept (s.step event) := by
  cases event with
  | request k requestId prepared => exact h.start k requestId prepared
  | cancel k =>
      show Kept (s.cancel k)
      unfold Dispatcher.cancel
      split
      · exact h
      · refine h.modify Run.grows_abort (fun r => ?_) (fun r haborted => ?_) _
        · unfold Run.abort
          split_ifs <;> rfl
        · unfold Run.abort at haborted ⊢
          split_ifs at haborted ⊢ with hset
          · exact Or.inl hset
          · exact Or.inr (Option.some_ne_none _)
  | settle n outcome => exact h.modify (fun r => r.grows_settle outcome) (fun _ => rfl) (fun _ => Or.inl) n
  | resume n => exact h.resume n

theorem Kept.run {s : Dispatcher Result} (h : Kept s) (events : List (Event Result)) :
    Kept (s.run events) := by
  unfold Dispatcher.run
  induction events generalizing s with
  | nil => exact h
  | cons event events ih => exact ih (h.step event)

theorem kept_run (events : List (Event Result)) : Kept (({} : Dispatcher Result).run events) := by
  have hempty : Kept ({} : Dispatcher Result) := by
    refine ⟨fun k n => ⟨fun hk => absurd hk List.not_mem_nil, ?_⟩, nofun, fun _ => rfl, nofun⟩
    rintro ⟨r, hr, -⟩
    exact nomatch hr
  exact hempty.run events

/-! ## A cancel that comes too late -/

/-- A run, without whether it was cancelled after its race was decided. -/
def forget (r : Run Result) : Run Result := if r.outcome.isSome then { r with aborted := true } else r

/-- Two dispatchers that differ only there. -/
structure Alike (s s' : Dispatcher Result) : Prop where
  active : s.active = s'.active
  runs : s.runs.map forget = s'.runs.map forget
  answers : s.answers = s'.answers

theorem forget_modify {s s' : Dispatcher Result} (h : s.runs.map forget = s'.runs.map forget)
    {f : Run Result → Run Result} (hf : ∀ r r', forget r = forget r' → forget (f r) = forget (f r'))
    (n : ℕ) : (s.modify n f).runs.map forget = (s'.modify n f).runs.map forget := by
  refine List.ext_getElem? fun i => ?_
  have hi : s.runs[i]?.map forget = s'.runs[i]?.map forget := by
    rw [← List.getElem?_map, h, List.getElem?_map]
  rw [List.getElem?_map, List.getElem?_map, getElem?_modify, getElem?_modify]
  cases hr : s.runs[i]? with
  | none =>
      rw [hr] at hi
      rw [Option.map_eq_none_iff.1 hi.symm]
  | some r =>
      rw [hr] at hi
      obtain ⟨r', hr', heq⟩ := Option.map_eq_some_iff.1 hi.symm
      rw [hr']
      refine congrArg some ?_
      dsimp only
      split_ifs
      · exact hf r r' heq.symm
      · exact heq.symm

/-- What the two have in common. -/
theorem eq_of_forget_eq {r r' : Run Result} (h : forget r = forget r') :
    r.controllerRequestId = r'.controllerRequestId ∧ r.requestId = r'.requestId ∧
      r.registered = r'.registered ∧ r.outcome = r'.outcome ∧ r.answered = r'.answered ∧
      (r.outcome = none → r.aborted = r'.aborted) := by
  cases r with
  | mk k id reg ab out ans =>
  cases r' with
  | mk k' id' reg' ab' out' ans' =>
  unfold forget at h
  cases out <;> cases out' <;> simp_all

theorem forget_eq_of {r r' : Run Result} (hk : r.controllerRequestId = r'.controllerRequestId)
    (hid : r.requestId = r'.requestId) (hregistered : r.registered = r'.registered)
    (houtcome : r.outcome = r'.outcome) (hanswered : r.answered = r'.answered)
    (haborted : r.outcome = none → r.aborted = r'.aborted) : forget r = forget r' := by
  cases r with
  | mk k id reg ab out ans =>
  cases r' with
  | mk k' id' reg' ab' out' ans' =>
  unfold forget
  cases out <;> cases out' <;> simp_all

theorem forget_settle {r r' : Run Result} (outcome : Except Thrown Result)
    (h : forget r = forget r') : forget (r.settle outcome) = forget (r'.settle outcome) := by
  obtain ⟨hk, hid, hregistered, houtcome, hanswered, -⟩ := eq_of_forget_eq h
  refine forget_eq_of hk hid hregistered ?_ hanswered nofun
  rw [Run.settle, Run.settle, houtcome]

/-- A signal that aborts after the race is decided. -/
theorem forget_abort_of_decided {r : Run Result} (hr : r.outcome ≠ none) :
    forget r.abort = forget r := by
  obtain ⟨outcome, houtcome⟩ := Option.ne_none_iff_exists'.1 hr
  unfold Run.abort
  split_ifs
  · rfl
  · refine forget_eq_of rfl rfl rfl ?_ rfl nofun
    rw [Run.settle, houtcome, Option.getD_some]

theorem forget_abort {r r' : Run Result} (h : forget r = forget r') :
    forget r.abort = forget r'.abort := by
  obtain ⟨hk, hid, hregistered, houtcome, hanswered, haborted⟩ := eq_of_forget_eq h
  by_cases hr : r.outcome = none
  · have heq : r = r' := by
      cases r
      cases r'
      simp_all
    rw [heq]
  · rw [forget_abort_of_decided hr, forget_abort_of_decided (houtcome ▸ hr), h]

theorem Alike.modify {s s' : Dispatcher Result} (h : Alike s s') {f : Run Result → Run Result}
    (hf : ∀ r r', forget r = forget r' → forget (f r) = forget (f r')) (n : ℕ) :
    Alike (s.modify n f) (s'.modify n f) :=
  ⟨h.active, forget_modify h.runs hf n, h.answers⟩

theorem Alike.resume {s s' : Dispatcher Result} (h : Alike s s') (n : ℕ) :
    Alike (s.resume n) (s'.resume n) := by
  have hn : s.runs[n]?.map forget = s'.runs[n]?.map forget := by
    rw [← List.getElem?_map, h.runs, List.getElem?_map]
  unfold Dispatcher.resume
  cases hr : s.runs[n]? with
  | none =>
      rw [hr] at hn
      rw [Option.map_eq_none_iff.1 hn.symm]
      exact h
  | some r =>
      rw [hr] at hn
      obtain ⟨r', hr', heq⟩ := Option.map_eq_some_iff.1 hn.symm
      obtain ⟨hk, hid, hregistered, houtcome, hanswered, -⟩ := eq_of_forget_eq heq
      rw [hr']
      dsimp only
      rw [houtcome, hanswered]
      split
      · rename_i outcome _ _
        refine ⟨?_, ?_, ?_⟩
        · show (if r.registered then _ else _) = if r'.registered then _ else _
          rw [hregistered, hk, h.active]
        · refine forget_modify h.runs (fun q q' hq => ?_) n
          obtain ⟨hk, hid, hregistered, houtcome, -, haborted⟩ := eq_of_forget_eq hq
          exact forget_eq_of hk hid hregistered houtcome rfl haborted
        · show (n, r.answer outcome) :: s.answers = (n, r'.answer outcome) :: s'.answers
          rw [h.answers]
          unfold Run.answer
          rw [hk, hid]
      · exact h

theorem Alike.push {s s' : Dispatcher Result} (h : Alike s s') (r : Run Result) :
    Alike (s.push r) (s'.push r) := by
  refine ⟨h.active, ?_, h.answers⟩
  show (s.runs ++ [r]).map forget = (s'.runs ++ [r]).map forget
  rw [List.map_append, List.map_append, h.runs]

theorem Alike.step {s s' : Dispatcher Result} (h : Alike s s') (event : Event Result) :
    Alike (s.step event) (s'.step event) := by
  cases event with
  | request k requestId prepared =>
      have hlength : s.runs.length = s'.runs.length := by
        rw [← List.length_map forget, h.runs, List.length_map]
      have hset : Alike { s with active := s.active.set k s.runs.length }
          { s' with active := s'.active.set k s'.runs.length } := by
        refine ⟨?_, h.runs, h.answers⟩
        show s.active.set k s.runs.length = s'.active.set k s'.runs.length
        rw [h.active, hlength]
      show Alike (s.start k requestId prepared) (s'.start k requestId prepared)
      unfold Dispatcher.start
      dsimp only
      rw [h.active] at hset ⊢
      rw [hlength] at hset ⊢
      split_ifs
      · exact (h.push _).resume _
      · exact hset.push _
      · exact (hset.push _).resume _
  | cancel k =>
      show Alike (s.cancel k) (s'.cancel k)
      unfold Dispatcher.cancel
      rw [h.active]
      split
      · exact h
      · exact h.modify (fun _ _ => forget_abort) _
  | settle n outcome => exact h.modify (fun _ _ => forget_settle outcome) n
  | resume n => exact h.resume n

theorem Alike.run {s s' : Dispatcher Result} (h : Alike s s') (events : List (Event Result)) :
    Alike (s.run events) (s'.run events) := by
  unfold Dispatcher.run
  induction events generalizing s s' with
  | nil => exact h
  | cons event events ih => exact ih (h.step event)

/-- The event brings a request. -/
def Event.isRequest : Event Result → Bool
  | .request _ _ _ => true
  | _ => false

theorem length_resume (s : Dispatcher Result) (n : ℕ) : (s.resume n).runs.length = s.runs.length := by
  unfold resume
  split
  · rfl
  · split
    · exact List.length_modify ..
    · rfl

theorem length_step (s : Dispatcher Result) (event : Event Result) :
    (s.step event).runs.length = s.runs.length + ([event].filter Event.isRequest).length := by
  cases event with
  | request k requestId prepared =>
      show (s.start k requestId prepared).runs.length = s.runs.length + 1
      unfold start
      dsimp only
      split_ifs
      · rw [length_resume]
        exact List.length_append
      · exact List.length_append
      · rw [length_resume]
        exact List.length_append
  | cancel k =>
      show (s.cancel k).runs.length = s.runs.length
      unfold cancel
      split
      · rfl
      · exact List.length_modify ..
  | settle n outcome => exact List.length_modify ..
  | resume n => exact length_resume s n

end Dispatcher

end FigmaDevMcp.Plugin

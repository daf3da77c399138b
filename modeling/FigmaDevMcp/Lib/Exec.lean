import Mathlib.Data.List.Basic
import Mathlib.Order.Basic

set_option autoImplicit false

/-!
# Executions of a step function

A system is a partial step function `step : σ → ε → Option σ`: `none` when the event is not
enabled in the state. `exec` runs a list of events, `Along` says that every step of a run meets
a condition. The rules below are the only inductions over runs in the development.

* `exec_invariant`: what every step preserves, every run preserves;
* `exec_invariant_along`: the same for runs whose steps all meet a guard;
* `exec_countP_le`: steps that lower a rank are no more than the rank;
* `Reachable.rec_inv`: an invariant that holds initially holds in every reachable state.
-/

namespace Exec

variable {σ ε : Type*} {step : σ → ε → Option σ}

/-- The state after a list of events, `none` as soon as one of them is not enabled. -/
def exec (step : σ → ε → Option σ) : σ → List ε → Option σ
  | s, [] => some s
  | s, e :: es => (step s e).bind fun t => exec step t es

@[simp] theorem exec_nil (s : σ) : exec step s [] = some s := rfl

theorem exec_cons (s : σ) (e : ε) (es : List ε) :
    exec step s (e :: es) = (step s e).bind fun t => exec step t es := rfl

theorem exec_cons_eq_some {s t : σ} {e : ε} {es : List ε} :
    exec step s (e :: es) = some t ↔ ∃ u, step s e = some u ∧ exec step u es = some t := by
  rw [exec_cons, Option.bind_eq_some_iff]

theorem exec_append (s : σ) (es fs : List ε) :
    exec step s (es ++ fs) = (exec step s es).bind fun t => exec step t fs := by
  induction es generalizing s with
  | nil => rfl
  | cons e es ih =>
      rw [List.cons_append, exec_cons, exec_cons, Option.bind_assoc]
      congr 1
      funext t
      exact ih t

theorem exec_append_of_eq {s t : σ} {es : List ε} (h : exec step s es = some t) (fs : List ε) :
    exec step s (es ++ fs) = exec step t fs := by
  rw [exec_append, h, Option.bind_some]

theorem exec_snoc_eq_some {s t : σ} {es : List ε} {e : ε} :
    exec step s (es ++ [e]) = some t ↔ ∃ u, exec step s es = some u ∧ step u e = some t := by
  rw [exec_append, Option.bind_eq_some_iff]
  simp only [exec_cons, exec_nil, Option.bind_fun_some]

/-- **Run rule.** What every step preserves, every run preserves. -/
theorem exec_invariant {I : σ → Prop} (hstep : ∀ s e t, step s e = some t → I s → I t)
    {s t : σ} {es : List ε} (h : exec step s es = some t) (hs : I s) : I t := by
  induction es generalizing s with
  | nil =>
      obtain rfl : s = t := by simpa using h
      exact hs
  | cons e es ih =>
      obtain ⟨u, hu, ht⟩ := exec_cons_eq_some.mp h
      exact ih ht (hstep s e u hu hs)

/-! ## Guarded runs -/

/-- Every step of the run from `s` meets the condition `P`. -/
def Along (step : σ → ε → Option σ) (P : σ → ε → Prop) : σ → List ε → Prop
  | _, [] => True
  | s, e :: es => P s e ∧ ∀ t, step s e = some t → Along step P t es

theorem Along.mono {P Q : σ → ε → Prop} (hPQ : ∀ s e, P s e → Q s e) {s : σ} {es : List ε}
    (h : Along step P s es) : Along step Q s es := by
  induction es generalizing s with
  | nil => trivial
  | cons e es ih => exact ⟨hPQ s e h.1, fun t ht => ih (h.2 t ht)⟩

/-- The same for a condition that can be computed, by executing the run. -/
def check (step : σ → ε → Option σ) (p : σ → ε → Bool) : σ → List ε → Bool
  | _, [] => true
  | s, e :: es =>
    p s e && match step s e with
      | some t => check step p t es
      | none => true

theorem along_of_check {p : σ → ε → Bool} {s : σ} {es : List ε}
    (h : check step p s es = true) : Along step (fun s e => p s e = true) s es := by
  induction es generalizing s with
  | nil => trivial
  | cons e es ih =>
      rw [check, Bool.and_eq_true] at h
      refine ⟨h.1, fun t ht => ih ?_⟩
      simpa only [ht] using h.2

/-- **Guarded run rule.** An invariant that every step meeting the guard preserves holds at the
end of every run all of whose steps meet the guard. -/
theorem exec_invariant_along {I : σ → Prop} {P : σ → ε → Prop}
    (hstep : ∀ s e t, P s e → step s e = some t → I s → I t)
    {s t : σ} {es : List ε} (hP : Along step P s es) (h : exec step s es = some t) (hs : I s) :
    I t := by
  induction es generalizing s with
  | nil =>
      obtain rfl : s = t := by simpa using h
      exact hs
  | cons e es ih =>
      obtain ⟨u, hu, ht⟩ := exec_cons_eq_some.mp h
      exact ih (hP.2 u hu) ht (hstep s e u hP.1 hu hs)

/-! ## Bounded work -/

/-- **Ranking rule.** Where each step that is counted lowers a rank, and no other step raises it, a
run has no more such steps than its first state has rank. -/
theorem exec_countP_le {I : σ → Prop} {P : ε → Prop} {rank : σ → ℕ} {p : ε → Bool}
    (hstep : ∀ s e t, P e → step s e = some t → I s → I t ∧ rank t + (if p e then 1 else 0) ≤ rank s)
    {s t : σ} {es : List ε} (hP : ∀ e ∈ es, P e) (h : exec step s es = some t) (hs : I s) :
    rank t + es.countP p ≤ rank s := by
  induction es generalizing s with
  | nil =>
      obtain rfl : s = t := by simpa using h
      exact Nat.le_refl _
  | cons e es ih =>
      obtain ⟨u, hu, ht⟩ := exec_cons_eq_some.mp h
      obtain ⟨hinv, hrank⟩ := hstep s e u (hP e List.mem_cons_self) hu hs
      have hrest := ih (fun f hf => hP f (List.mem_cons_of_mem e hf)) ht hinv
      rw [List.countP_cons]
      omega

/-! ## Reachable states -/

/-- The states some run from `init` ends in. -/
def Reachable (step : σ → ε → Option σ) (init s : σ) : Prop := ∃ es, exec step init es = some s

theorem Reachable.refl (init : σ) : Reachable step init init := ⟨[], rfl⟩

theorem Reachable.tail {init s t : σ} {e : ε} (h : Reachable step init s)
    (he : step s e = some t) : Reachable step init t := by
  obtain ⟨es, hes⟩ := h
  exact ⟨es ++ [e], exec_snoc_eq_some.mpr ⟨s, hes, he⟩⟩

theorem Reachable.rec_inv {I : σ → Prop} {init : σ} (hinit : I init)
    (hstep : ∀ s e t, step s e = some t → I s → I t) {s : σ} (h : Reachable step init s) :
    I s := by
  obtain ⟨es, hes⟩ := h
  exact exec_invariant hstep hes hinit

end Exec

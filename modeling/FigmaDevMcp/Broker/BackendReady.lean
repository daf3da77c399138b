import FigmaDevMcp.Lib.Watch
import Mathlib.Data.List.Basic

set_option autoImplicit false

/-!
# Waiting for a backend

`install`, `detach` and `backend_ready` of `client.rs`, with each access of the backend cell and of
the generation channel a step of its own. The calls of `backend_ready` are numbered in their order.

* `Caller`, `BrokerClient`: where a call stands, and what the calls share;
* `step`, `run`: one step of anyone, and a run;
* **`backend_not_missed`**: a call that waits for a backend which is there is about to be woken.
-/

namespace FigmaDevMcp

variable {Backend : Type}

/-- `reading` is a call that is about to read the cell, for the first time or after a change. -/
inductive Caller (Backend : Type)
  | reading (changed : Reader)
  | waiting (changed : Reader)
  | returned (backend : Option Backend)

/-- The backend, which is watched, and the calls that wait for it. -/
structure BrokerClient (Backend : Type) where
  backend : Watch (Option Backend)
  callers : List (Caller Backend) := []

namespace BrokerClient

/-- A client with a backend, as `new` makes it, or without one, as `unattached` does. -/
def new (backend : Option Backend) : BrokerClient Backend := { backend := { value := backend } }

/-- The step of a call that reads the cell. -/
def read (w : Watch (Option Backend)) : Caller Backend → Caller Backend
  | .reading changed =>
    match w.value with
    | some backend => .returned (some backend)
    | none => .waiting (w.look Option.isSome changed)
  | caller => caller

/-- The step of a call that finds that the channel has changed, which counts as seen then. -/
def wake (w : Watch (Option Backend)) : Caller Backend → Caller Backend
  | .waiting changed => if w.changed changed then .reading w.subscribe else .waiting changed
  | caller => caller

/-- The deadline of the loop. -/
def expire : Caller Backend → Caller Backend
  | .waiting _ => .returned none
  | caller => caller

/-- `install` is the write of the cell and `send` the `send_modify` after it. -/
inductive Event (Backend : Type)
  | install (backend : Backend)
  | send
  | detach
  | call
  | read (caller : ℕ)
  | wake (caller : ℕ)
  | expire (caller : ℕ)

/-- What one event does; a caller takes one step of its own at a time. -/
def step (s : BrokerClient Backend) : Event Backend → BrokerClient Backend
  | .install backend => { s with backend := s.backend.write (some backend) }
  | .send => { s with backend := s.backend.publish }
  | .detach => { s with backend := s.backend.put none }
  | .call => { s with callers := s.callers ++ [.reading s.backend.subscribe] }
  | .read n => { s with callers := s.callers.modify n (read s.backend) }
  | .wake n => { s with callers := s.callers.modify n (wake s.backend) }
  | .expire n => { s with callers := s.callers.modify n expire }

/-- The events of a run, one after another. -/
def run (s : BrokerClient Backend) (events : List (Event Backend)) : BrokerClient Backend :=
  events.foldl step s

/-! ## No wake-up is lost -/

/-- What holds of a call. -/
def Sound (w : Watch (Option Backend)) : Caller Backend → Prop
  | .reading changed => w.Served Option.isSome changed
  | .waiting changed => w.Served Option.isSome changed ∧ changed.waiting = true
  | .returned _ => True

/-- What the writers do keeps a call sound. -/
theorem Sound.writer {w w' : Watch (Option Backend)} {caller : Caller Backend} (h : Sound w caller)
    (hserved : ∀ r, w.Served Option.isSome r → w'.Served Option.isSome r) : Sound w' caller := by
  cases caller with
  | reading changed => exact hserved changed h
  | waiting changed => exact ⟨hserved changed h.1, h.2⟩
  | returned backend => exact h

theorem Sound.read {w : Watch (Option Backend)} {caller : Caller Backend} (h : Sound w caller) :
    Sound w (read w caller) := by
  cases caller with
  | reading changed =>
      rw [BrokerClient.read]
      cases hvalue : w.value with
      | some backend => exact trivial
      | none => exact ⟨Watch.Served.look h, by rw [Watch.look, hvalue]; rfl⟩
  | waiting changed => exact h
  | returned backend => exact h

theorem Sound.wake {w : Watch (Option Backend)} {caller : Caller Backend} (h : Sound w caller) :
    Sound w (wake w caller) := by
  cases caller with
  | reading changed => exact h
  | waiting changed =>
      rw [BrokerClient.wake]
      split_ifs
      · exact Watch.served_subscribe w
      · exact h
  | returned backend => exact h

theorem Sound.expire {w : Watch (Option Backend)} {caller : Caller Backend} (h : Sound w caller) :
    Sound w (expire caller) := by
  cases caller with
  | reading changed => exact h
  | waiting changed => exact trivial
  | returned backend => exact h

theorem sound_modify {w : Watch (Option Backend)} {callers : List (Caller Backend)}
    (h : ∀ caller ∈ callers, Sound w caller) {f : Caller Backend → Caller Backend}
    (hf : ∀ caller, Sound w caller → Sound w (f caller)) (n : ℕ) :
    ∀ caller ∈ callers.modify n f, Sound w caller := by
  intro caller hcaller
  obtain ⟨i, hi⟩ := List.mem_iff_getElem?.1 hcaller
  rw [List.getElem?_modify] at hi
  obtain ⟨old, hold, rfl⟩ := Option.map_eq_some_iff.1 hi
  have hsound := h old (List.mem_of_getElem? hold)
  split_ifs
  · exact hf old hsound
  · exact hsound

theorem sound_step {s : BrokerClient Backend} (h : ∀ caller ∈ s.callers, Sound s.backend caller)
    (event : Event Backend) : ∀ caller ∈ (s.step event).callers, Sound (s.step event).backend caller := by
  cases event with
  | install backend => exact fun caller hcaller => (h caller hcaller).writer fun r hr => hr.write _
  | send => exact fun caller hcaller => (h caller hcaller).writer fun r hr => hr.publish
  | detach => exact fun caller hcaller => (h caller hcaller).writer fun r hr => hr.put nofun
  | call =>
      intro caller hcaller
      rcases List.mem_append.1 hcaller with hcaller | hcaller
      · exact h caller hcaller
      · rw [List.mem_singleton.1 hcaller]
        exact Watch.served_subscribe s.backend
  | read n => exact sound_modify h (fun _ => Sound.read) n
  | wake n => exact sound_modify h (fun _ => Sound.wake) n
  | expire n => exact sound_modify h (fun _ => Sound.expire) n

theorem sound_run (backend : Option Backend) (events : List (Event Backend)) :
    ∀ caller ∈ ((new backend).run events).callers, Sound ((new backend).run events).backend caller := by
  have hstart : ∀ caller ∈ (new backend).callers, Sound (new backend).backend caller :=
    List.forall_mem_nil _
  unfold run
  generalize new backend = s at hstart ⊢
  induction events generalizing s with
  | nil => exact hstart
  | cons event events ih => exact ih _ (sound_step hstart event)

/-- **No wake-up is lost**: where a call waits, has seen every version that has been published and
the cell holds a backend, an install has written the cell and has not sent yet, and what it sends
wakes the call. -/
theorem backend_not_missed (backend : Option Backend) (events : List (Event Backend)) (changed : Reader)
    (hcaller : .waiting changed ∈ ((new backend).run events).callers)
    (hseen : ((new backend).run events).backend.changed changed = false)
    (hready : ((new backend).run events).backend.value.isSome = true) :
    0 < ((new backend).run events).backend.owed ∧
      (((new backend).run events).step .send).backend.changed changed = true := by
  obtain ⟨hserved, hwaiting⟩ : Sound ((new backend).run events).backend (.waiting changed) :=
    sound_run backend events _ hcaller
  have howed := hserved.owed_pos hwaiting hseen hready
  exact ⟨howed, hserved.changed_publish howed⟩

/-- A call that has seen every version, while an install has written the cell and not yet sent. -/
theorem waits_before_send :
    ∃ events changed, .waiting changed ∈ ((new (none : Option Unit)).run events).callers ∧
      ((new none).run events).backend.changed changed = false ∧
      ((new none).run events).backend.value = some () :=
  ⟨[.call, .read 0, .install ()], ⟨true, 0⟩, List.mem_cons_self, rfl, rfl⟩

theorem backend_not_missed_install :
    0 < ((new (none : Option Unit)).run [.call, .read 0, .install ()]).backend.owed ∧
      (((new none).run [.call, .read 0, .install ()]).step .send).backend.changed ⟨true, 0⟩ = true :=
  backend_not_missed none [.call, .read 0, .install ()] ⟨true, 0⟩ List.mem_cons_self rfl rfl

end BrokerClient

end FigmaDevMcp

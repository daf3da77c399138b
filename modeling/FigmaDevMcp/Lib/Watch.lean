import Mathlib.Data.Nat.Notation
import Mathlib.Tactic.SplitIfs

set_option autoImplicit false

/-!
# A value behind a watch channel

Writers replace a value and then publish a new version; readers subscribe, look at the value and
wait for a version that they have not seen.

* `Watch`, `Reader`: the value with its channel, and one reader;
* `Served`: a reader that waits for a value that is there has a version to come;
* `Served.write`, `Served.publish`, `Served.notify`, `Served.put`: what writers do keeps it;
* `served_subscribe`, `Served.look`, `Served.wake`: what the reader does establishes it.
-/

/-- `owed` is how many writers have replaced the value and not yet published. -/
structure Watch (α : Type) where
  value : α
  version : ℕ := 0
  owed : ℕ := 0

/-- `seen` is the version that the reader has seen last. -/
structure Reader where
  waiting : Bool
  seen : ℕ
deriving DecidableEq

namespace Watch

variable {α : Type}

/-- The value is replaced, and a notification is owed. -/
def write (w : Watch α) (a : α) : Watch α := { w with value := a, owed := w.owed + 1 }

/-- A notification that is owed is given. -/
def publish (w : Watch α) : Watch α :=
  if w.owed = 0 then w else { w with version := w.version + 1, owed := w.owed - 1 }

/-- A version is published for no writer. -/
def notify (w : Watch α) : Watch α := { w with version := w.version + 1 }

/-- The value is replaced and nothing is published. -/
def put (w : Watch α) (a : α) : Watch α := { w with value := a }

/-- A version that is there already counts as seen. -/
def subscribe (w : Watch α) : Reader := ⟨false, w.version⟩

/-- There is a version that the reader has not seen. -/
def changed (w : Watch α) (r : Reader) : Bool := r.seen ≠ w.version

variable (ready : α → Bool)

/-- The reader waits where the value is not what it is for. -/
def look (w : Watch α) (r : Reader) : Reader := { r with waiting := !ready w.value }

/-- **A reader that waits for a value that is there has a version to come**, published or owed. -/
structure Served (w : Watch α) (r : Reader) : Prop where
  seen_le : r.seen ≤ w.version
  served : r.waiting = true → ready w.value = true → r.seen < w.version ∨ 0 < w.owed

variable {ready}

theorem Served.write {w : Watch α} {r : Reader} (h : Served ready w r) (a : α) :
    Served ready (w.write a) r :=
  ⟨h.seen_le, fun _ _ => Or.inr (Nat.succ_pos _)⟩

theorem Served.publish {w : Watch α} {r : Reader} (h : Served ready w r) : Served ready w.publish r := by
  unfold Watch.publish
  split_ifs
  · exact h
  · have hlt : r.seen < w.version + 1 := Nat.lt_succ_of_le h.seen_le
    exact ⟨Nat.le_of_lt hlt, fun _ _ => Or.inl hlt⟩

theorem Served.notify {w : Watch α} {r : Reader} (h : Served ready w r) : Served ready w.notify r := by
  have hlt : r.seen < w.version + 1 := Nat.lt_succ_of_le h.seen_le
  exact ⟨Nat.le_of_lt hlt, fun _ _ => Or.inl hlt⟩

/-- A value may be replaced without a word where it does not become ready. -/
theorem Served.put {w : Watch α} {r : Reader} (h : Served ready w r) {a : α}
    (ha : ready a = true → ready w.value = true) : Served ready (w.put a) r :=
  ⟨h.seen_le, fun hwaiting hready => h.served hwaiting (ha hready)⟩

theorem served_subscribe (w : Watch α) : Served ready w w.subscribe := ⟨Nat.le_refl _, nofun⟩

theorem Served.look {w : Watch α} {r : Reader} (h : Served ready w r) :
    Served ready w (w.look ready r) := by
  refine ⟨h.seen_le, fun hwaiting hready => ?_⟩
  rw [Watch.look, hready] at hwaiting
  exact absurd hwaiting Bool.false_ne_true

/-- **No wake-up is lost**: a reader that waits and has seen every version waits for a value that is
not there, or for a writer that has yet to publish. -/
theorem Served.owed_pos {w : Watch α} {r : Reader} (h : Served ready w r) (hwaiting : r.waiting = true)
    (hseen : w.changed r = false) (hready : ready w.value = true) : 0 < w.owed := by
  have heq : r.seen = w.version := by simpa [changed] using hseen
  exact (h.served hwaiting hready).resolve_left fun hlt => Nat.ne_of_lt hlt heq

/-- The version that is owed wakes the reader. -/
theorem Served.changed_publish {w : Watch α} {r : Reader} (h : Served ready w r) (howed : 0 < w.owed) :
    w.publish.changed r = true := by
  have hlt : r.seen < w.version + 1 := Nat.lt_succ_of_le h.seen_le
  rw [Watch.publish, if_neg (Nat.ne_of_gt howed)]
  exact decide_eq_true (Nat.ne_of_lt hlt)

end Watch

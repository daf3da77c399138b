import FigmaDevMcp.Lib.Table
import FigmaDevMcp.Broker.Queue
import FigmaDevMcp.Broker.Wire

set_option autoImplicit false

/-!
# The pending map

Requests that wait for their plugin, by socket and request identifier. An operation that takes
entries out returns them with the value it sends to each waiter (`Settled`); the ticket of an
entry is dropped with it.

* `lookup_admitEntry`, `noteProgress_eq_some`: the map after an admission and after progress;
* `Settling`: distinct entries were taken out and the rest stays, which is what `complete` and
  `removeMatching` do.
-/

namespace FigmaDevMcp

variable {W : World}

/-- What a pending request is settled with. -/
abbrev PendingResult (W : World) := Except ToolError W.ReadResult

/-- The key of a pending request. -/
abbrev PendingKey (W : World) := W.SocketId × W.RequestId

/-- A pending request. `progress` names the channel its progress goes to. -/
structure PendingRequest (W : World) where
  socketId : W.SocketId
  requestId : W.RequestId
  totalDeadline : ℕ
  inactivityDeadline : ℕ
  progress : Option W.RequestId
  ticket : Option QueueTicket

/-- A deadline has passed. -/
def PendingRequest.expired (p : PendingRequest W) (now : ℕ) : Bool :=
  p.totalDeadline ≤ now ∨ p.inactivityDeadline ≤ now

/-- An entry taken out of the map and the value sent to its waiter. -/
structure Settled (W : World) where
  key : PendingKey W
  entry : PendingRequest W
  result : PendingResult W

/-- The requests that wait for an answer, by socket and id. -/
abbrev PendingMap (W : World) := Table (PendingKey W) (PendingRequest W)

/-- Why a request is not admitted. -/
inductive PendingError where
  | duplicateRequest
  deriving DecidableEq, Repr

namespace PendingMap

/-- A request is admitted unless its key is taken. -/
def admitEntry (m : PendingMap W) (p : PendingRequest W) : Except PendingError (PendingMap W) :=
  let key := (p.socketId, p.requestId)
  if (m.lookup key).isSome then .error .duplicateRequest else .ok (m.insert key p)

/-- A request is pending. -/
def contains (m : PendingMap W) (s : W.SocketId) (r : W.RequestId) : Bool :=
  (m.lookup (s, r)).isSome

/-- Progress moves the inactivity deadline; the normalized progress is for the entry's channel. -/
def noteProgress (m : PendingMap W) (s : W.SocketId) (r : W.RequestId) (p : Progress) (now : ℕ) :
    Option (PendingMap W × Option (W.RequestId × NormalizedProgress)) :=
  match m.lookup (s, r) with
  | none => none
  | some pending =>
    some (m.modify (s, r) fun e =>
        { e with inactivityDeadline := now + inactivityTimeoutSecs * 1000 },
      pending.progress.map fun c => (c, normalizeProgress p))

/-- An entry is taken out and settled, if it is there. -/
def complete (m : PendingMap W) (s : W.SocketId) (r : W.RequestId) (result : PendingResult W) :
    Option (Settled W × PendingMap W) :=
  match m.lookup (s, r) with
  | none => none
  | some pending => some (⟨(s, r), pending, result⟩, m.erase (s, r))

/-- An entry is settled as cancelled. -/
def cancel (m : PendingMap W) (s : W.SocketId) (r : W.RequestId) :
    Option (Settled W × PendingMap W) :=
  m.complete s r (.error (.new .cancelled false))

/-- Collect the matching keys, then remove them one by one. -/
def removeMatching (m : PendingMap W) (p : PendingRequest W → Bool) (code : ErrorCode) :
    List (Settled W) × PendingMap W :=
  let (out, m') := Table.drain (m.keysWhere fun _ e => p e) m
  (out.map fun ke => ⟨ke.1, ke.2, .error (.new code true)⟩, m')

/-- All entries of a socket are settled, as its connection is lost. -/
def removeSocket (m : PendingMap W) (s : W.SocketId) : List (Settled W) × PendingMap W :=
  m.removeMatching (fun p => p.socketId = s) .connectionLost

/-- All entries past a deadline are settled. -/
def takeExpired (m : PendingMap W) (now : ℕ) : List (Settled W) × PendingMap W :=
  m.removeMatching (fun p => p.expired now) .timeout

/-- All entries are settled, as the broker goes. -/
def shutdown (m : PendingMap W) : List (Settled W) × PendingMap W :=
  m.removeMatching (fun _ => true) .connectionLost

/-! ## The map after each operation -/

theorem admitEntry_eq_ok {m m' : PendingMap W} {p : PendingRequest W}
    (h : m.admitEntry p = .ok m') :
    m.lookup (p.socketId, p.requestId) = none ∧ m' = m.insert (p.socketId, p.requestId) p := by
  unfold admitEntry at h
  dsimp only at h
  split_ifs at h with hk
  cases h
  exact ⟨Option.not_isSome_iff_eq_none.mp hk, rfl⟩

theorem lookup_admitEntry {m m' : PendingMap W} {p : PendingRequest W}
    (h : m.admitEntry p = .ok m') (k : PendingKey W) :
    m'.lookup k = if k = (p.socketId, p.requestId) then some p else m.lookup k := by
  obtain ⟨-, rfl⟩ := admitEntry_eq_ok h
  exact Table.lookup_insert_eq _ _ _ _

theorem noteProgress_eq_some {m m' : PendingMap W} {s : W.SocketId} {r : W.RequestId}
    {p : Progress} {now : ℕ} {out : Option (W.RequestId × NormalizedProgress)}
    (h : m.noteProgress s r p now = some (m', out)) :
    ∃ e, m.lookup (s, r) = some e ∧ out = e.progress.map (fun c => (c, normalizeProgress p)) ∧
      ∀ k, m'.lookup k = if k = (s, r) then
        some { e with inactivityDeadline := now + inactivityTimeoutSecs * 1000 }
        else m.lookup k := by
  unfold noteProgress at h
  cases he : m.lookup (s, r) with
  | none => simp only [he, reduceCtorEq] at h
  | some e =>
      simp only [he, Option.some.injEq, Prod.mk.injEq] at h
      obtain ⟨rfl, rfl⟩ := h
      refine ⟨e, rfl, rfl, fun k => ?_⟩
      rw [Table.lookup_modify, he]
      rfl

theorem complete_eq_some {m m' : PendingMap W} {s : W.SocketId} {r : W.RequestId}
    {result : PendingResult W} {x : Settled W} (h : m.complete s r result = some (x, m')) :
    ∃ e, m.lookup (s, r) = some e ∧ x = ⟨(s, r), e, result⟩ ∧
      ∀ k, m'.lookup k = if k = (s, r) then none else m.lookup k := by
  unfold complete at h
  cases he : m.lookup (s, r) with
  | none => simp only [he, reduceCtorEq] at h
  | some e =>
      simp only [he, Option.some.injEq, Prod.mk.injEq] at h
      obtain ⟨rfl, rfl⟩ := h
      exact ⟨e, rfl, rfl, Table.lookup_erase_eq _ _⟩

theorem complete_eq_none {m : PendingMap W} {s : W.SocketId} {r : W.RequestId}
    {result : PendingResult W} (h : m.lookup (s, r) = none) : m.complete s r result = none := by
  simp only [complete, h]

/-- The entries taken out are the matching ones, each with the same error. -/
theorem mem_removeMatching {m : PendingMap W} {p : PendingRequest W → Bool} {c : ErrorCode}
    {x : Settled W} :
    x ∈ (m.removeMatching p c).1 ↔
      m.lookup x.key = some x.entry ∧ p x.entry = true ∧ x.result = .error (.new c true) := by
  obtain ⟨k, e, res⟩ := x
  simp only [removeMatching, List.mem_map, Prod.exists, Table.mem_drain, Table.mem_keysWhere,
    Settled.mk.injEq]
  constructor
  · rintro ⟨s, r, e', ⟨⟨v, hv, hp⟩, hl⟩, rfl, rfl, rfl⟩
    obtain rfl : v = e' := Option.some_inj.mp (hv.symm.trans hl)
    exact ⟨hl, hp, rfl⟩
  · rintro ⟨hl, hp, rfl⟩
    exact ⟨k.1, k.2, e, ⟨⟨e, hl, hp⟩, hl⟩, rfl, rfl, rfl⟩

theorem removeMatching_nodup (m : PendingMap W) (p : PendingRequest W → Bool)
    (code : ErrorCode) : ((m.removeMatching p code).1.map Settled.key).Nodup := by
  simp only [removeMatching, List.map_map]
  exact Table.drain_nodup _ _

/-! ## Taking entries out -/

/-- `out` are distinct entries of `m`, and `m'` is what is left without them. -/
structure Settling (m : PendingMap W) (out : List (Settled W)) (m' : PendingMap W) : Prop where
  nodup : (out.map Settled.key).Nodup
  entry : ∀ x ∈ out, m.lookup x.key = some x.entry
  rest : ∀ k, m'.lookup k = if k ∈ out.map Settled.key then none else m.lookup k

theorem settling_complete {m m' : PendingMap W} {s : W.SocketId} {r : W.RequestId}
    {result : PendingResult W} {x : Settled W} (h : m.complete s r result = some (x, m')) :
    Settling m [x] m' := by
  obtain ⟨e, he, rfl, hrest⟩ := complete_eq_some h
  refine ⟨List.nodup_singleton _, ?_, ?_⟩
  · intro x hx
    rw [List.mem_singleton.mp hx]
    exact he
  · intro k
    rw [hrest, List.map_singleton]
    simp only [List.mem_singleton]

theorem settling_removeMatching (m : PendingMap W) (p : PendingRequest W → Bool)
    (code : ErrorCode) :
    Settling m (m.removeMatching p code).1 (m.removeMatching p code).2 := by
  refine ⟨removeMatching_nodup m p code, fun x hx => (mem_removeMatching.mp hx).1, fun k => ?_⟩
  have hmem : k ∈ (m.removeMatching p code).1.map Settled.key ↔ k ∈ m.keysWhere fun _ e => p e := by
    rw [Table.mem_keysWhere, List.mem_map]
    constructor
    · rintro ⟨x, hx, rfl⟩
      obtain ⟨hl, hp, -⟩ := mem_removeMatching.mp hx
      exact ⟨_, hl, hp⟩
    · rintro ⟨e, he, hp⟩
      exact ⟨⟨k, e, .error (.new code true)⟩, mem_removeMatching.mpr ⟨he, hp, rfl⟩, rfl⟩
  have hlook := Table.lookup_drain (m.keysWhere fun _ e => p e) m k
  by_cases hk : k ∈ m.keysWhere fun _ e => p e
  · rw [if_pos (hmem.mpr hk)]
    exact hlook.trans (if_pos hk)
  · rw [if_neg (mt hmem.mp hk)]
    exact hlook.trans (if_neg hk)

/-- No matching entry is left behind. -/
theorem lookup_removeMatching_none {m : PendingMap W} {p : PendingRequest W → Bool}
    {k : PendingKey W} (code : ErrorCode) (h : ∀ e, m.lookup k = some e → p e = true) :
    (m.removeMatching p code).2.lookup k = none := by
  rw [(settling_removeMatching m p code).rest]
  split_ifs with hk
  · rfl
  · cases hl : m.lookup k with
    | none => rfl
    | some e =>
        have hx := mem_removeMatching (m := m) (p := p) (c := code)
          (x := ⟨k, e, .error (.new code true)⟩)
        exact (hk (List.mem_map_of_mem (hx.mpr ⟨hl, h e hl, rfl⟩))).elim

end PendingMap

end FigmaDevMcp

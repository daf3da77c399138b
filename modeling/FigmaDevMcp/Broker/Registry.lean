import FigmaDevMcp.Lib.Table
import FigmaDevMcp.Broker.Wire

set_option autoImplicit false

/-!
# The session registry

Live sessions by connection and by socket. A session's outbound channel is the one made with its
socket, so `outboundForSocket` and `routeFor` name it by that socket.

* `Paired`: the two maps are inverse to each other, which every operation preserves;
* `outboundForSocket_eq`: a socket's outbound channel is its own.
-/

namespace FigmaDevMcp

variable {W : World}

/-- A session: its connection, its socket and when it was last heard. -/
structure Session (W : World) where
  connectionId : W.ConnectionId
  socketId : W.SocketId
  lastSeen : ℕ

/-- Why a session is not inserted. -/
inductive RegistryError where
  | duplicateConnectionId
  | duplicateSocketId
  deriving DecidableEq, Repr

/-- The sessions by connection, and their connections by socket. -/
structure SessionRegistry (W : World) where
  sessions : Table W.ConnectionId (Session W)
  sockets : Table W.SocketId W.ConnectionId
  insertionTime : ℕ

namespace SessionRegistry

/-- A registry without sessions. -/
def new (now : ℕ) : SessionRegistry W := ⟨∅, ∅, now⟩

/-- A session joins unless its connection or its socket is taken. -/
def insert (g : SessionRegistry W) (session : Session W) (now : ℕ) :
    Except RegistryError (SessionRegistry W) :=
  if (g.sessions.lookup session.connectionId).isSome then .error .duplicateConnectionId
  else if (g.sockets.lookup session.socketId).isSome then .error .duplicateSocketId
  else
    .ok { g with
      sockets := g.sockets.insert session.socketId session.connectionId
      sessions := g.sessions.insert session.connectionId
        { session with lastSeen := max g.insertionTime now } }

/-- The session of a socket has been heard. -/
def touchSocket (g : SessionRegistry W) (s : W.SocketId) (now : ℕ) : Bool × SessionRegistry W :=
  match g.sockets.lookup s with
  | none => (false, g)
  | some c =>
    match g.sessions.lookup c with
    | none => (false, g)
    | some _ =>
      (true, { g with sessions := g.sessions.modify c fun x => { x with lastSeen := now } })

/-- The session of a socket leaves; the answer says whether there was one. -/
def removeSocket (g : SessionRegistry W) (s : W.SocketId) : Bool × SessionRegistry W :=
  match g.sockets.lookup s with
  | none => (false, g)
  | some c =>
    ((g.sessions.lookup c).isSome,
      { g with sockets := g.sockets.erase s, sessions := g.sessions.erase c })

/-- Where messages for a socket go while it has a session. -/
def outboundForSocket (g : SessionRegistry W) (s : W.SocketId) : Option W.SocketId :=
  (g.sockets.lookup s).bind fun c => (g.sessions.lookup c).map Session.socketId

/-- The socket of a connection. -/
def routeFor (g : SessionRegistry W) (c : W.ConnectionId) : Option W.SocketId :=
  (g.sessions.lookup c).map Session.socketId

/-! ## The two maps are inverse -/

/-- The two tables are each other's inverse. -/
structure Paired (g : SessionRegistry W) : Prop where
  session : ∀ c x, g.sessions.lookup c = some x →
    x.connectionId = c ∧ g.sockets.lookup x.socketId = some c
  socket : ∀ s c, g.sockets.lookup s = some c → ∃ x, g.sessions.lookup c = some x ∧ x.socketId = s

theorem paired_new (now : ℕ) : (new now : SessionRegistry W).Paired :=
  ⟨fun _ _ h => absurd h (by simp [new]), fun _ _ h => absurd h (by simp [new])⟩

theorem insert_eq_ok {g g' : SessionRegistry W} {x : Session W} {now : ℕ}
    (h : g.insert x now = .ok g') :
    g.sessions.lookup x.connectionId = none ∧ g.sockets.lookup x.socketId = none ∧
      g' = { g with
        sockets := g.sockets.insert x.socketId x.connectionId
        sessions := g.sessions.insert x.connectionId
          { x with lastSeen := max g.insertionTime now } } := by
  unfold insert at h
  split_ifs at h with hc hs
  cases h
  exact ⟨Option.not_isSome_iff_eq_none.mp hc, Option.not_isSome_iff_eq_none.mp hs, rfl⟩

theorem Paired.insert {g g' : SessionRegistry W} (hg : g.Paired) {x : Session W} {now : ℕ}
    (h : g.insert x now = .ok g') : g'.Paired := by
  obtain ⟨hc, hs, rfl⟩ := insert_eq_ok h
  constructor
  · intro c y hy
    rw [Table.lookup_insert_eq] at hy
    split_ifs at hy with he
    · obtain rfl := Option.some_inj.mp hy
      exact ⟨he.symm, by rw [Table.lookup_insert_eq, if_pos rfl, he]⟩
    · obtain ⟨hid, hsock⟩ := hg.session c y hy
      refine ⟨hid, ?_⟩
      rw [Table.lookup_insert_eq, if_neg, hsock]
      rintro heq
      rw [heq, hs] at hsock
      exact absurd hsock (by simp)
  · intro s c hsc
    rw [Table.lookup_insert_eq] at hsc
    split_ifs at hsc with he
    · obtain rfl := Option.some_inj.mp hsc
      exact ⟨_, AList.lookup_insert _, he.symm⟩
    · obtain ⟨y, hy, hys⟩ := hg.socket s c hsc
      refine ⟨y, ?_, hys⟩
      rw [Table.lookup_insert_eq, if_neg, hy]
      rintro heq
      rw [heq, hc] at hy
      exact absurd hy (by simp)

theorem Paired.touchSocket {g : SessionRegistry W} (hg : g.Paired) (s : W.SocketId) (now : ℕ) :
    (g.touchSocket s now).2.Paired := by
  unfold SessionRegistry.touchSocket
  cases hs : g.sockets.lookup s with
  | none => exact hg
  | some c =>
      dsimp only
      cases hc : g.sessions.lookup c with
      | none => exact hg
      | some x =>
          refine ⟨fun d y hy => ?_, fun t d ht => ?_⟩
          · rw [Table.lookup_modify] at hy
            split_ifs at hy with he
            · subst he
              rw [hc, Option.map_some, Option.some_inj] at hy
              subst hy
              exact hg.session d x hc
            · exact hg.session d y hy
          · obtain ⟨y, hy, hys⟩ := hg.socket t d ht
            dsimp only
            rw [Table.lookup_modify]
            split_ifs with he
            · subst he
              rw [hy]
              exact ⟨_, rfl, hys⟩
            · exact ⟨y, hy, hys⟩

theorem Paired.removeSocket {g : SessionRegistry W} (hg : g.Paired) (s : W.SocketId) :
    (g.removeSocket s).2.Paired := by
  unfold SessionRegistry.removeSocket
  cases hs : g.sockets.lookup s with
  | none => exact hg
  | some c =>
      refine ⟨fun d y hy => ?_, fun t d ht => ?_⟩
      · rw [Table.lookup_erase_eq] at hy
        split_ifs at hy with he
        obtain ⟨hid, hsock⟩ := hg.session d y hy
        refine ⟨hid, ?_⟩
        rw [Table.lookup_erase_eq, if_neg, hsock]
        rintro heq
        rw [heq, hs] at hsock
        exact he (Option.some_inj.mp hsock).symm
      · rw [Table.lookup_erase_eq] at ht
        split_ifs at ht with he
        obtain ⟨y, hy, hys⟩ := hg.socket t d ht
        refine ⟨y, ?_, hys⟩
        rw [Table.lookup_erase_eq, if_neg, hy]
        rintro rfl
        obtain ⟨z, hz, hzs⟩ := hg.socket s d hs
        rw [hy, Option.some_inj] at hz
        exact he (by rw [← hys, hz, hzs])

/-- The outbound channel found for a socket is that socket's. -/
theorem Paired.outboundForSocket_eq {g : SessionRegistry W} (hg : g.Paired) {s o : W.SocketId}
    (h : g.outboundForSocket s = some o) : o = s := by
  unfold outboundForSocket at h
  obtain ⟨c, hc, ho⟩ := Option.bind_eq_some_iff.mp h
  obtain ⟨x, hx, hxs⟩ := hg.socket s c hc
  rw [hx, Option.map_some, Option.some_inj] at ho
  rw [← ho, hxs]

end SessionRegistry

end FigmaDevMcp

import FigmaDevMcp.Broker.Registry
import Mathlib.Data.List.Induction

set_option autoImplicit false

/-!
# Runs of the session registry

* `expireStale`, `select`: the operations that look at every session;
* `step`, `run`: one operation, and a run, and `paired_run`: every run keeps the maps inverse;
* `routeFor_run`: what a route goes back to;
* **`registry_bijective`**.
-/

namespace FigmaDevMcp

variable {W : World}

/-- What a request finds. -/
inductive Selection (W : World) where
  | one (session : Session W)
  | none
  | ambiguous
  | missing

namespace SessionRegistry

/-- The sessions, in the order of the map. -/
def values (g : SessionRegistry W) : List (Session W) := g.sessions.entries.map Sigma.snd

/-- The session that a call is for. Without a connection it must be the only one. -/
def select (g : SessionRegistry W) : Option W.ConnectionId → Selection W
  | some c => (g.sessions.lookup c).elim .missing .one
  | none =>
    match g.values with
    | [] => .none
    | [x] => .one x
    | _ :: _ :: _ => .ambiguous

/-- The sessions of several sockets leave. -/
def removeSockets (g : SessionRegistry W) (stale : List W.SocketId) : SessionRegistry W :=
  stale.foldl (fun g s => (g.removeSocket s).2) g

/-- The sessions that were not heard since a time leave; the answer names their sockets. -/
def expireStale (g : SessionRegistry W) (cutoff : ℕ) : List W.SocketId × SessionRegistry W :=
  let stale := (g.values.filter fun x => x.lastSeen ≤ cutoff).map Session.socketId
  (stale, g.removeSockets stale)

/-- What is done to a registry. -/
inductive Op (W : World) where
  | insert (session : Session W) (now : ℕ)
  | touchSocket (s : W.SocketId) (now : ℕ)
  | expireStale (cutoff : ℕ)
  | removeSocket (s : W.SocketId)

/-- What one operation does. -/
def step (g : SessionRegistry W) : Op W → SessionRegistry W
  | .insert x now => (g.insert x now).toOption.getD g
  | .touchSocket s now => (g.touchSocket s now).2
  | .expireStale cutoff => (g.expireStale cutoff).2
  | .removeSocket s => (g.removeSocket s).2

/-- The operations of a run, one after another. -/
def run (g : SessionRegistry W) (ops : List (Op W)) : SessionRegistry W := ops.foldl step g

/-! ## The two maps stay inverse -/

theorem Paired.removeSockets {g : SessionRegistry W} (hg : g.Paired) (stale : List W.SocketId) :
    (g.removeSockets stale).Paired := by
  induction stale generalizing g with
  | nil => exact hg
  | cons s stale ih => exact ih (hg.removeSocket s)

theorem Paired.step {g : SessionRegistry W} (hg : g.Paired) (op : Op W) : (g.step op).Paired := by
  cases op with
  | insert x now =>
      rw [SessionRegistry.step]
      cases h : g.insert x now with
      | error e => exact hg
      | ok g' => exact hg.insert h
  | touchSocket s now => exact hg.touchSocket s now
  | expireStale cutoff => exact hg.removeSockets _
  | removeSocket s => exact hg.removeSocket s

theorem Paired.run {g : SessionRegistry W} (hg : g.Paired) (ops : List (Op W)) : (g.run ops).Paired := by
  unfold SessionRegistry.run
  induction ops generalizing g with
  | nil => exact hg
  | cons op ops ih => exact ih (hg.step op)

theorem paired_run (now : ℕ) (ops : List (Op W)) : ((new now : SessionRegistry W).run ops).Paired :=
  (paired_new now).run ops

theorem Paired.routeFor_eq_some {g : SessionRegistry W} (hg : g.Paired) {c : W.ConnectionId}
    {s : W.SocketId} : g.routeFor c = some s ↔ g.sockets.lookup s = some c := by
  unfold routeFor
  constructor
  · intro h
    obtain ⟨x, hx, rfl⟩ := Option.map_eq_some_iff.1 h
    exact (hg.session c x hx).2
  · intro h
    obtain ⟨x, hx, rfl⟩ := hg.socket s c h
    rw [hx, Option.map_some]

theorem mem_values {g : SessionRegistry W} {x : Session W} :
    x ∈ g.values ↔ ∃ c, g.sessions.lookup c = some x := by
  rw [values, List.mem_map]
  constructor
  · rintro ⟨⟨c, y⟩, hy, rfl⟩
    exact ⟨c, AList.mem_lookup_iff.2 hy⟩
  · rintro ⟨c, hc⟩
    exact ⟨⟨c, x⟩, AList.mem_lookup_iff.1 hc, rfl⟩

/-! ## Where a route comes from -/

theorem insert_eq_error {g : SessionRegistry W} {x : Session W} {now : ℕ} :
    (∃ e, g.insert x now = .error e) ↔
      (g.routeFor x.connectionId).isSome ∨ (g.sockets.lookup x.socketId).isSome := by
  unfold insert routeFor
  rw [Option.isSome_map]
  split_ifs with hc hs
  · simp [hc]
  · simp [hs]
  · simp [hc, hs]

theorem routeFor_insert {g g' : SessionRegistry W} {x : Session W} {now : ℕ}
    (h : g.insert x now = .ok g') (c : W.ConnectionId) :
    g'.routeFor c = if c = x.connectionId then some x.socketId else g.routeFor c := by
  obtain ⟨-, -, rfl⟩ := insert_eq_ok h
  unfold routeFor
  rw [Table.lookup_insert_eq]
  split_ifs <;> rfl

theorem routeFor_touchSocket (g : SessionRegistry W) (s : W.SocketId) (now : ℕ) (c : W.ConnectionId) :
    (g.touchSocket s now).2.routeFor c = g.routeFor c := by
  unfold touchSocket
  cases g.sockets.lookup s with
  | none => rfl
  | some d =>
      dsimp only
      cases hd : g.sessions.lookup d with
      | none => rfl
      | some x =>
          unfold routeFor
          dsimp only
          rw [Table.lookup_modify]
          split_ifs with heq
          · rw [heq, hd]
            rfl
          · rfl

/-- A removal takes away the route to its socket, and no other. -/
theorem Paired.routeFor_removeSocket {g : SessionRegistry W} (hg : g.Paired) (s : W.SocketId)
    (c : W.ConnectionId) :
    (g.removeSocket s).2.routeFor c = (g.routeFor c).filter (· ≠ s) := by
  have hroute : g.routeFor c = some s ↔ g.sockets.lookup s = some c := hg.routeFor_eq_some
  have hkept : g.routeFor c ≠ some s → (g.routeFor c).filter (· ≠ s) = g.routeFor c := by
    intro hne
    cases hc : g.routeFor c with
    | none => rfl
    | some t =>
        have ht : t ≠ s := fun h => hne (by rw [hc, h])
        simp [Option.filter, ht]
  unfold SessionRegistry.removeSocket
  cases hs : g.sockets.lookup s with
  | none =>
      refine (hkept fun h => ?_).symm
      rw [hroute, hs] at h
      cases h
  | some d =>
      show ((g.sessions.erase d).lookup c).map Session.socketId = _
      rw [Table.lookup_erase_eq]
      by_cases hc : c = d
      · subst hc
        rw [if_pos rfl, hroute.2 hs]
        exact (if_neg (by simp)).symm
      · rw [if_neg hc, hkept fun h => hc (Option.some.inj ((hroute.1 h).symm.trans hs))]
        rfl

theorem Paired.routeFor_removeSockets {g : SessionRegistry W} (hg : g.Paired)
    (stale : List W.SocketId) (c : W.ConnectionId) :
    (g.removeSockets stale).routeFor c = (g.routeFor c).filter (· ∉ stale) := by
  induction stale generalizing g with
  | nil =>
      show g.routeFor c = _
      cases g.routeFor c <;> simp [Option.filter]
  | cons s stale ih =>
      show ((g.removeSocket s).2.removeSockets stale).routeFor c = _
      rw [ih (hg.removeSocket s), hg.routeFor_removeSocket]
      cases g.routeFor c with
      | none => rfl
      | some t => by_cases ht : t = s <;> simp [Option.filter, ht]

/-- The sockets that expire are those of the sessions not seen since. -/
theorem mem_expireStale {g : SessionRegistry W} {cutoff : ℕ} {s : W.SocketId} :
    s ∈ (g.expireStale cutoff).1 ↔
      ∃ c x, g.sessions.lookup c = some x ∧ x.socketId = s ∧ x.lastSeen ≤ cutoff := by
  simp only [expireStale, List.mem_map, List.mem_filter, mem_values, decide_eq_true_eq]
  constructor
  · rintro ⟨x, ⟨⟨c, hc⟩, hseen⟩, rfl⟩
    exact ⟨c, x, hc, rfl, hseen⟩
  · rintro ⟨c, x, hc, rfl, hseen⟩
    exact ⟨x, ⟨⟨c, hc⟩, hseen⟩, rfl⟩

/-- A removal takes routes away and changes none. -/
theorem routeFor_removeSocket {g : SessionRegistry W} {s t : W.SocketId} {c : W.ConnectionId}
    (h : (g.removeSocket s).2.routeFor c = some t) : g.routeFor c = some t := by
  unfold removeSocket at h
  cases hs : g.sockets.lookup s with
  | none =>
      rw [hs] at h
      exact h
  | some d =>
      rw [hs] at h
      unfold routeFor at h ⊢
      dsimp only at h
      rw [Table.lookup_erase_eq] at h
      split_ifs at h with heq
      · exact nomatch h
      · exact h

theorem routeFor_removeSockets {g : SessionRegistry W} {stale : List W.SocketId} {t : W.SocketId}
    {c : W.ConnectionId} (h : (g.removeSockets stale).routeFor c = some t) : g.routeFor c = some t := by
  induction stale generalizing g with
  | nil => exact h
  | cons s stale ih => exact routeFor_removeSocket (ih h)

/-- **A route is new only where its session has just been inserted.** -/
theorem routeFor_step {g : SessionRegistry W} {op : Op W} {c : W.ConnectionId} {s : W.SocketId}
    (h : (g.step op).routeFor c = some s) :
    g.routeFor c = some s ∨
      ∃ x now, op = .insert x now ∧ x.connectionId = c ∧ x.socketId = s ∧ g.routeFor c = none := by
  cases op with
  | insert x now =>
      rw [step] at h
      cases hinsert : g.insert x now with
      | error e =>
          rw [hinsert] at h
          exact Or.inl h
      | ok g' =>
          rw [hinsert] at h
          have hroute := routeFor_insert hinsert c
          have hnone := (insert_eq_ok hinsert).1
          rw [show g'.routeFor c = some s from h] at hroute
          split_ifs at hroute with heq
          · refine Or.inr ⟨x, now, rfl, heq.symm, (Option.some.inj hroute).symm, ?_⟩
            rw [heq, routeFor, hnone, Option.map_none]
          · exact Or.inl hroute.symm
  | touchSocket t now => exact Or.inl ((routeFor_touchSocket g t now c).symm.trans h)
  | expireStale cutoff => exact Or.inl (routeFor_removeSockets h)
  | removeSocket t => exact Or.inl (routeFor_removeSocket h)

theorem run_append (g : SessionRegistry W) (before after : List (Op W)) :
    g.run (before ++ after) = (g.run before).run after := List.foldl_append

/-- **What a route goes back to**: the insertion of its session, since which it has been there. -/
theorem routeFor_run {now : ℕ} {ops : List (Op W)} {c : W.ConnectionId} {s : W.SocketId}
    (h : ((new now).run ops).routeFor c = some s) :
    ∃ before x at' after, ops = before ++ .insert x at' :: after ∧ x.connectionId = c ∧ x.socketId = s ∧
      ((new now).run before).routeFor c = none ∧
      ∀ since rest, after = since ++ rest →
        ((new now).run (before ++ .insert x at' :: since)).routeFor c = some s := by
  induction ops using List.reverseRecOn with
  | nil => exact nomatch h
  | append_singleton ops op ih =>
      have hstep : (((new now).run ops).step op).routeFor c = some s := by
        rw [run_append] at h
        exact h
      rcases routeFor_step hstep with hbefore | ⟨x, at', rfl, hc, hs, hnone⟩
      · obtain ⟨before, x, at', after, rfl, hc, hs, hnone, hsince⟩ := ih hbefore
        refine ⟨before, x, at', after ++ [op], by simp, hc, hs, hnone, fun since rest hsplit => ?_⟩
        rcases List.eq_nil_or_concat rest with rfl | ⟨rest, last, rfl⟩
        · rw [List.append_nil] at hsplit
          rw [← hsplit, ← List.cons_append, ← List.append_assoc]
          exact h
        · rw [List.concat_eq_append, ← List.append_assoc] at hsplit
          exact hsince since rest (List.append_inj' hsplit rfl).1
      · refine ⟨ops, x, at', [], rfl, hc, hs, hnone, fun since rest hsplit => ?_⟩
        obtain ⟨rfl, -⟩ := List.append_eq_nil_iff.1 hsplit.symm
        exact h

/-! ## Selection -/

/-- **Without a session in the request** one is found where exactly one is live. -/
theorem Paired.select_none {g : SessionRegistry W} (hg : g.Paired) (x : Session W) :
    g.select none = .one x ↔ ∀ c y, g.sessions.lookup c = some y ↔ c = x.connectionId ∧ y = x := by
  have hid : ∀ {c y}, g.sessions.lookup c = some y → c = y.connectionId := fun h => (hg.session _ _ h).1.symm
  rw [select]
  cases hvalues : g.sessions.entries with
  | nil =>
      rw [values, hvalues]
      refine ⟨nofun, fun h => ?_⟩
      have hx : x ∈ g.values := mem_values.2 ⟨_, (h _ x).2 ⟨rfl, rfl⟩⟩
      rw [values, hvalues] at hx
      exact absurd hx List.not_mem_nil
  | cons e rest =>
      have he : g.sessions.lookup e.1 = some e.2 :=
        AList.mem_lookup_iff.2 (hvalues ▸ List.mem_cons_self)
      cases rest with
      | nil =>
          have hone : ∀ y, y ∈ g.values ↔ y = e.2 := by
            intro y
            rw [values, hvalues]
            exact List.mem_singleton
          rw [values, hvalues]
          show Selection.one e.2 = .one x ↔ _
          rw [Selection.one.injEq]
          constructor
          · rintro rfl c y
            constructor
            · intro hc
              obtain rfl := (hone y).1 (mem_values.2 ⟨c, hc⟩)
              exact ⟨hid hc, rfl⟩
            · rintro ⟨rfl, rfl⟩
              rw [← hid he]
              exact he
          · intro h
            exact ((h _ _).1 he).2
      | cons e' rest =>
          rw [values, hvalues]
          refine ⟨nofun, fun h => ?_⟩
          have he' : g.sessions.lookup e'.1 = some e'.2 :=
            AList.mem_lookup_iff.2 (hvalues ▸ List.mem_cons_of_mem e List.mem_cons_self)
          have hkeys : g.sessions.entries.NodupKeys := g.sessions.nodupKeys
          rw [hvalues, List.nodupKeys_cons] at hkeys
          have heq : e.1 = e'.1 := ((h _ _).1 he).1.trans ((h _ _).1 he').1.symm
          refine absurd ?_ hkeys.1
          rw [heq, List.keys_cons]
          exact List.mem_cons_self

/-- **The registry stays a bijection** under every operation: the socket of a session is the one it
was last registered on and the session of that socket is it; an insertion fails where the session or
the socket is there already, and then changes nothing, and otherwise makes the route of its session
and no other; a touch changes no route, and a removal or an expiry takes away the routes of its
sockets and no other; and a request without a session finds one where exactly one is live. -/
theorem registry_bijective (now : ℕ) (ops : List (Op W)) :
    let g := (new now : SessionRegistry W).run ops
    (∀ c s, g.routeFor c = some s ↔ g.sockets.lookup s = some c) ∧
    (∀ c x, g.sessions.lookup c = some x → x.connectionId = c) ∧
    (∀ x at', ((∃ e, g.insert x at' = .error e) ↔
        (g.routeFor x.connectionId).isSome ∨ (g.sockets.lookup x.socketId).isSome) ∧
      (∀ e, g.insert x at' = .error e → g.step (.insert x at') = g) ∧
      ∀ g', g.insert x at' = .ok g' → g.step (.insert x at') = g' ∧
        ∀ c, g'.routeFor c = if c = x.connectionId then some x.socketId else g.routeFor c) ∧
    (∀ s at' c, (g.step (.touchSocket s at')).routeFor c = g.routeFor c) ∧
    (∀ s c, (g.step (.removeSocket s)).routeFor c = (g.routeFor c).filter (· ≠ s)) ∧
    (∀ cutoff, ∃ stale : List W.SocketId,
      (∀ s, s ∈ stale ↔
        ∃ c x, g.sessions.lookup c = some x ∧ x.socketId = s ∧ x.lastSeen ≤ cutoff) ∧
      ∀ c, (g.step (.expireStale cutoff)).routeFor c = (g.routeFor c).filter (· ∉ stale)) ∧
    (∀ c s, g.routeFor c = some s →
      ∃ before x at' after, ops = before ++ .insert x at' :: after ∧ x.connectionId = c ∧
        x.socketId = s ∧ ((new now).run before).routeFor c = none ∧
        ∀ since rest, after = since ++ rest →
          ((new now).run (before ++ .insert x at' :: since)).routeFor c = some s) ∧
    ∀ x, g.select none = .one x ↔ ∀ c y, g.sessions.lookup c = some y ↔ c = x.connectionId ∧ y = x := by
  intro g
  have hg : g.Paired := paired_run now ops
  have hinsert : ∀ x at', (∀ e, g.insert x at' = .error e → g.step (.insert x at') = g) ∧
      ∀ g', g.insert x at' = .ok g' → g.step (.insert x at') = g' ∧
        ∀ c, g'.routeFor c = if c = x.connectionId then some x.socketId else g.routeFor c := by
    refine fun x at' => ⟨fun e he => ?_, fun g' hg' => ⟨?_, routeFor_insert hg'⟩⟩
    · rw [step, he]
      rfl
    · rw [step, hg']
      rfl
  refine ⟨fun c s => hg.routeFor_eq_some, fun c x h => (hg.session c x h).1,
    fun x at' => ⟨insert_eq_error, hinsert x at'⟩, fun s at' => routeFor_touchSocket g s at',
    hg.routeFor_removeSocket, fun cutoff => ?_, fun c s h => routeFor_run h, hg.select_none⟩
  exact ⟨(g.expireStale cutoff).1, fun s => mem_expireStale, hg.routeFor_removeSockets _⟩

end SessionRegistry

end FigmaDevMcp

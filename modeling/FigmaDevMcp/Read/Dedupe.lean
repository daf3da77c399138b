import FigmaDevMcp.Lib.SharedPlaces
import FigmaDevMcp.Read.ByteBudget

set_option autoImplicit false

/-!
# Components kept once

With `dedupeComponents` a component is serialized where the walk first comes to it, and is a stub
wherever it comes again. What is below a stub is in the forest only if some other place shows it.

* `occurrences`: where a read with no limit comes to which node;
* `forestIds_serializeNodeForest`: the ids of a forest are those at the open places;
* `dedupe_keeps_ids_iff`: when stubs lose no id.
-/

namespace FigmaDevMcp

/-- The ids of the nodes of a forest, in preorder. -/
def forestIds (forest : List DesignNode) : List JsString :=
  (forestLevels 0 forest).map fun r => r.2.summary.id

namespace Host

variable {ρ : Type} [DecidableEq ρ] (host : Host ρ) (options : SerializeNodeForestOptions)

mutual

theorem ids_levels_decorate (level : ℕ) : ∀ k : Walk.Kept ρ,
    k.Forall (fun _ k => StubsBare k) level →
      ((host.decorate options k).levels level).map (fun r => r.2.summary.id) =
        k.items.map host.id
  | .mk node true cut children, h => by
    obtain rfl : children = [] := h.1 rfl
    rfl
  | .mk node false cut children, h => by
    have hrest := ids_forestLevels_decorate (level + 1) children h.2
    show host.id node :: (forestLevels (level + 1) (host.decorateAll options children)).map _ =
      host.id node :: (Walk.Kept.itemsAll children).map host.id
    rw [hrest]

theorem ids_forestLevels_decorate (level : ℕ) : ∀ ks : List (Walk.Kept ρ),
    Walk.Kept.ForallAll (fun _ k => StubsBare k) level ks →
      (forestLevels level (host.decorateAll options ks)).map (fun r => r.2.summary.id) =
        (Walk.Kept.itemsAll ks).map host.id
  | [], _ => rfl
  | k :: ks, h => by
    rw [decorateAll, forestLevels, List.map_append, ids_levels_decorate level k h.1,
      ids_forestLevels_decorate level ks h.2, Walk.Kept.itemsAll, List.map_append]

end

/-- The places of the visible nodes under the roots, in preorder, down to the depth. A node has one
for each path that leads to it, except below a node that is its own ancestor. -/
def occurrences (dedupe : Bool) (roots : List ρ) : List (Walk.Place ρ JsString) :=
  roots.flatMap (Walk.places (host.scene options) dedupe options.appliedDepth [])

theorem items_occurrences (dedupe d : Bool) (roots : List ρ) :
    (host.occurrences options dedupe roots).map Walk.Place.item =
      (host.occurrences options d roots).map Walk.Place.item := by
  rw [occurrences, occurrences, List.map_flatMap, List.map_flatMap]
  exact List.flatMap_congr fun node _ => Walk.items_places options.appliedDepth [] node d

/-- The roots have no more places than the limits have room for. -/
def RoomFor (roots : List ρ) : Prop :=
  let room := (host.scene options).room (host.occurrences options true roots)
  room ≤ options.limits.visitedNodes ∧ room ≤ options.limits.returnedNodes ∧
    room ≤ options.limits.encodedBytes

theorem room_occurrences (dedupe : Bool) (roots : List ρ) :
    (host.scene options).room (host.occurrences options dedupe roots) =
      (host.scene options).room (host.occurrences options true roots) := by
  have hitems := host.items_occurrences options dedupe true roots
  have hroom : ∀ ps, (host.scene options).room ps =
      ((ps.map Walk.Place.item).map (host.scene options).cost).sum := by
    intro ps
    rw [List.map_map]
    rfl
  rw [hroom, hroom, hitems]

/-- The ids of a forest that no limit cuts are those at the open places. -/
theorem forestIds_serializeNodeForest {roots : List ρ} (hroom : host.RoomFor options roots)
    (id : JsString) :
    id ∈ forestIds (host.serializeNodeForest options roots).nodes ↔
      Walk.AtOpen ∅ (host.occurrences options options.dedupeComponents roots)
        fun p => host.id p.item = id := by
  obtain ⟨hvisits, hreturns, hbytes⟩ := hroom
  have hample : Walk.Ample options.limits.budget ({} : Walk.State JsString)
      ((host.scene options).room (host.occurrences options options.dedupeComponents roots) + 0) := by
    rw [host.room_occurrences]
    refine ⟨?_, ?_, ?_⟩
    · exact le_of_eq_of_le (by simp) hvisits
    · exact le_of_eq_of_le (by simp) hreturns
    · exact le_of_eq_of_le (by simp) hbytes
  have ⟨hitems, _, _⟩ := Walk.walkAll_places
    (fun node => Walk.nested_places options.appliedDepth [] node)
    (fun node s m h => Walk.walk_places options.appliedDepth [] node h) roots hample
  have hempty : {l | l ∈ ({} : Walk.State JsString).emitted} = (∅ : Set JsString) := by
    ext l
    exact iff_of_false List.not_mem_nil (Set.notMem_empty l)
  rw [nodes_serializeNodeForest, forestIds,
    host.ids_forestLevels_decorate options 0 _ (host.stubsBare_forestRow options roots),
    List.mem_map]
  constructor
  · rintro ⟨node, hnode, rfl⟩
    obtain ⟨i, p, hp, hopen, rfl⟩ := (hitems node).1 hnode
    exact ⟨i, p, hp, hempty ▸ hopen, rfl⟩
  · rintro ⟨i, p, hp, hopen, hid⟩
    exact ⟨p.item, (hitems p.item).2 ⟨i, p, hp, hempty.symm ▸ hopen, rfl⟩, hid⟩

/-- Every id that occurs at all occurs at an open place: one that is not below a component which
has occurred at an earlier open place. -/
def EachSurfaces (roots : List ρ) : Prop :=
  ∀ p ∈ host.occurrences options true roots,
    Walk.AtOpen ∅ (host.occurrences options true roots) fun q => host.id q.item = host.id p.item

/-- Components that occur once hide nothing. -/
theorem eachSurfaces_of_once {roots : List ρ}
    (h : ∀ (j k : ℕ) (p q : Walk.Place ρ JsString), j < k → (host.occurrences options true roots)[j]? = some q →
      (host.occurrences options true roots)[k]? = some p → ∀ l ∈ p.asks, l ∉ q.gives) :
    host.EachSurfaces options roots := by
  intro p hp
  obtain ⟨i, hi⟩ := List.getElem?_of_mem hp
  refine ⟨i, p, hi, ?_, rfl⟩
  rw [Walk.OpenFrom]
  intro k _ r hr _ l hl
  refine ⟨Set.notMem_empty l, fun j hj q hq hgives _ => ?_⟩
  exact h j k r q hj hq hr l hl hgives

/-- Without stubs, every place is open. -/
theorem atOpen_occurrences_false (roots : List ρ) (Q : ρ → Prop) :
    Walk.AtOpen ∅ (host.occurrences options false roots) (fun p => Q p.item) ↔
      ∃ p ∈ host.occurrences options true roots, Q p.item := by
  have hasks : ∀ p ∈ host.occurrences options false roots, p.asks = none := by
    intro p hp
    obtain ⟨node, _, hp⟩ := List.mem_flatMap.1 hp
    exact Walk.asks_of_mem_places hp
  have hmem : ∀ node, (∃ p ∈ host.occurrences options false roots, p.item = node) ↔
      ∃ p ∈ host.occurrences options true roots, p.item = node := by
    intro node
    rw [← List.mem_map, ← List.mem_map, host.items_occurrences options false true]
  constructor
  · rintro ⟨i, p, hp, _, hQ⟩
    obtain ⟨q, hq, hitem⟩ := (hmem p.item).1 ⟨p, List.mem_of_getElem? hp, rfl⟩
    exact ⟨q, hq, hitem.symm ▸ hQ⟩
  · rintro ⟨p, hp, hQ⟩
    obtain ⟨q, hq, hitem⟩ := (hmem p.item).2 ⟨p, hp, rfl⟩
    obtain ⟨i, hi⟩ := List.getElem?_of_mem hq
    refine ⟨i, q, hi, Walk.openFrom_of_asks hasks i, ?_⟩
    show Q q.item
    rwa [hitem]

/-- With room for all places, the stubs lose no id just where every id surfaces. -/
theorem keeps_ids_iff {roots : List ρ} (hroom : host.RoomFor options roots) :
    (∀ id ∈ forestIds (host.serializeNodeForest { options with dedupeComponents := false } roots).nodes,
      id ∈ forestIds (host.serializeNodeForest { options with dedupeComponents := true } roots).nodes) ↔
      host.EachSurfaces options roots := by
  have hwhole := host.forestIds_serializeNodeForest { options with dedupeComponents := false }
    hroom
  have hstubs := host.forestIds_serializeNodeForest { options with dedupeComponents := true }
    hroom
  constructor
  · intro h p hp
    refine (hstubs (host.id p.item)).1 (h _ ((hwhole (host.id p.item)).2 ?_))
    exact (host.atOpen_occurrences_false options roots (host.id · = host.id p.item)).2 ⟨p, hp, rfl⟩
  · intro h id hid
    obtain ⟨p, hp, rfl⟩ := (host.atOpen_occurrences_false options roots (host.id · = id)).1
      ((hwhole id).1 hid)
    exact (hstubs (host.id p.item)).2 (h p hp)

/-- **When stubs lose no id.** Without limits, every id that a forest has without stubs is there
with stubs just where every id surfaces. -/
theorem dedupe_keeps_ids_iff (roots : List ρ) :
    ∃ enough, ∀ limits : SerializerLimits, enough ≤ limits.visitedNodes →
      enough ≤ limits.returnedNodes → enough ≤ limits.encodedBytes →
        ((∀ id ∈ forestIds
            (host.serializeNodeForest { options with limits, dedupeComponents := false } roots).nodes,
          id ∈ forestIds
            (host.serializeNodeForest { options with limits, dedupeComponents := true } roots).nodes) ↔
          host.EachSurfaces options roots) := by
  refine ⟨(host.scene options).room (host.occurrences options true roots), ?_⟩
  intro limits hvisits hreturns hbytes
  exact host.keeps_ids_iff { options with limits } ⟨hvisits, hreturns, hbytes⟩

/-! ## A component that is first met at the depth -/

/-- A frame with a component, which has a label. -/
def button : Host ℕ where
  get node key :=
    if key = "id" then .string [0x30 + node]
    else if key = "type" then
      .string (text (if node = 0 then "FRAME" else if node = 1 then "COMPONENT" else "TEXT"))
    else .undefined
  parent node := if node = 0 then none else some (node - 1)
  children node := if node < 2 then [node + 1] else []
  children_length node := by split_ifs <;> simp

/-- The frame and the component, each with its children. -/
def buttonOptions : SerializeNodeForestOptions :=
  { detail := .minimal, depth := 1, dedupeComponents := true }

theorem occurrences_button : button.occurrences buttonOptions true [0, 1] =
    [⟨0, none, none, 1⟩, ⟨1, some [0x31], some [0x31], 0⟩, ⟨1, some [0x31], some [0x31], 1⟩,
      ⟨2, none, none, 0⟩] := by
  decide +kernel

theorem not_eachSurfaces_button : ¬ button.EachSurfaces buttonOptions [0, 1] := by
  intro h
  unfold EachSurfaces at h
  rw [occurrences_button] at h
  obtain ⟨i, q, hq, hopen, hid⟩ := h ⟨2, none, none, 0⟩ (by simp)
  -- the label occurs below the second occurrence of the component, and nowhere else
  match i, hq with
  | 0, hq => exact absurd hid (Option.some.inj hq ▸ by decide)
  | 1, hq => exact absurd hid (Option.some.inj hq ▸ by decide)
  | 2, hq => exact absurd hid (Option.some.inj hq ▸ by decide)
  | 3, hq =>
      rw [Walk.OpenFrom] at hopen
      refine (hopen 2 (by omega) _ rfl (by simp) [0x31] rfl).2 1 (by omega) _ rfl rfl ?_
      rw [Walk.OpenFrom]
      intro k hk p hp _ l hl
      obtain rfl : k = 0 := by omega
      rw [← Option.some.inj hp] at hl
      cases hl

/-- However wide the limits are, the label is lost: the first occurrence of its component is cut
for depth, and the second is a stub. -/
theorem dedupe_loses_label : ¬ ∃ enough, ∀ limits : SerializerLimits, enough ≤ limits.visitedNodes →
    enough ≤ limits.returnedNodes → enough ≤ limits.encodedBytes →
      ∀ id ∈ forestIds (button.serializeNodeForest
          { buttonOptions with limits, dedupeComponents := false } [0, 1]).nodes,
        id ∈ forestIds (button.serializeNodeForest
          { buttonOptions with limits, dedupeComponents := true } [0, 1]).nodes := by
  rintro ⟨enough, h⟩
  let room := (button.scene buttonOptions).room (button.occurrences buttonOptions true [0, 1])
  let wide : SerializerLimits := ⟨max enough room, max enough room, max enough room⟩
  have hroom : button.RoomFor { buttonOptions with limits := wide } [0, 1] :=
    ⟨le_max_right _ _, le_max_right _ _, le_max_right _ _⟩
  have hkept := h wide (le_max_left _ _) (le_max_left _ _) (le_max_left _ _)
  exact not_eachSurfaces_button ((button.keeps_ids_iff _ hroom).1 hkept)

end Host

end FigmaDevMcp

import FigmaDevMcp.Read.Motion
import FigmaDevMcp.Read.SearchPages

set_option autoImplicit false

/-!
# The accounts of the reads of items

`getReactions`, `getDevModeData` and `getMotion` share their loop, so each of them keeps the
accounts of the loop for its own records.

* `content_reactions`, `content_devMode`, `content_motion`: a record has the id of its node;
* `itemReads_account`: **the reads keep their accounts**.
-/

namespace FigmaDevMcp

open JsValue

variable {ρ : Type}

theorem withContent_eq_some {β : Type} {hasContent : β → Bool} {value : Option β} {v : β}
    (h : withContent hasContent value = some v) : value = some v :=
  (Option.filter_eq_some_iff.1 h).1

/-! ## The id of a record -/

theorem content_reactions {figma : Figma ρ} {node : ρ} {value : NodeReactions}
    (h : content figma.reactionsRecord node = some value) :
    value.nodeId = figma.id node ∧ value.nodeId ≠ [] := by
  rw [content, Figma.reactionsRecord, Figma.serializeReactionsOf] at h
  by_cases hid : figma.id node = []
  · rw [if_pos hid] at h
    cases h
  · rw [if_neg hid] at h
    cases hreactions : figma.serializeReactions (figma.get node "reactions") with
    | error e =>
        rw [hreactions] at h
        cases h
    | ok reactions =>
        rw [hreactions] at h
        obtain rfl := Option.some.inj (withContent_eq_some h)
        exact ⟨rfl, hid⟩

theorem content_devMode {figma : DevFigma ρ} {node : ρ} {value : DevModeNodeData}
    (h : content figma.devModeRecord node = some value) :
    value.nodeId = figma.id node ∧ value.nodeId ≠ [] := by
  have hvalue := withContent_eq_some h
  rw [DevFigma.serializeDevMode] at hvalue
  by_cases hid : figma.id node = []
  · rw [if_pos hid] at hvalue
    cases hvalue
  · rw [if_neg hid] at hvalue
    obtain rfl := Option.some.inj hvalue
    exact ⟨rfl, hid⟩

/-- The id in an item, if it is no error. -/
def itemNodeId : ItemResult NodeMotion → Option JsString
  | .success value => some value.nodeId
  | .error _ => none

theorem content_motion {figma : MotionFigma ρ} {node : ρ} {item : ItemResult NodeMotion}
    {id : JsString} (h : content figma.motionRecord node = some item)
    (hid : itemNodeId item = some id) : id = figma.id node ∧ id ≠ [] := by
  obtain rfl := Option.some.inj (withContent_eq_some h)
  rw [MotionFigma.serializeMotion] at hid
  by_cases hunsupported : figma.id node = [] ∨ figma.supportsMotion node = false
  · rw [if_pos hunsupported] at hid
    cases hid
  · rw [if_neg hunsupported] at hid
    obtain rfl := Option.some.inj hid
    exact ⟨rfl, fun hempty => hunsupported (.inl hempty)⟩

/-! ## The reads -/

section Reads

variable [DecidableEq ρ] {figma : Figma ρ} {height : ρ → ℕ} {selector : Option Selector} {found : DesignRoots ρ}
  {limits : SerializerLimits}

/-- What a read with successful items only gives. -/
theorem map_successes_eq_ok {β : Type} {read : Except ReadError (Inspection β)}
    {r : Inspection (ItemResult β)} (h : read.map Inspection.successes = .ok r) :
    ∃ i, read = .ok i ∧ r = i.successes := by
  cases read with
  | error e => cases h
  | ok i => exact ⟨i, rfl, (Except.ok.inj h).symm⟩

theorem getMotion_eq_ok {motion : MotionFigma ρ} {includeAvailableStyles : Bool}
    {r : GetMotionResult} (h : motion.getMotion includeAvailableStyles selector limits = .ok r) :
    readItems limits (fun item => byteLength (motionItemToJs item)) motion.motionRecord
      motion.toFigma selector = .ok r.toInspection := by
  obtain ⟨catalog, -, h⟩ := Guard.bind_eq_ok.1 h
  obtain ⟨inspection, hinspection, h⟩ := Guard.bind_eq_ok.1 h
  obtain rfl := Except.ok.inj h
  exact hinspection

variable (limits selector) in
/-- The reactions. The read fails only where those of a node cannot be read. -/
theorem getReactions_account (htree : figma.IsTree height)
    (hfound : figma.resolveDesignRoots selector = .ok found)
    (hdistinct : figma.Distinct (figma.visibleNodes height found.roots)) :
    (∀ r, figma.getReactions selector limits = .ok r → ∃ i, r = i.successes ∧
        Accounts limits (fun value => byteLength value.toJs) figma.reactionsRecord
          (figma.visibleNodes height found.roots) i ∧
        (i.items.map (·.nodeId)).Nodup) ∧
      ((∀ node ∈ figma.visibleNodes height found.roots,
          ∃ value, figma.reactionsRecord node = .ok value) →
        ∃ r, figma.getReactions selector limits = .ok r) := by
  refine ⟨fun r hr => ?_, fun hread => ?_⟩
  · have ⟨i, hi, hsuccesses⟩ := map_successes_eq_ok hr
    have haccounts := readItems_accounts htree hfound hdistinct hi
    refine ⟨i, hsuccesses, haccounts, ?_⟩
    rw [← List.filterMap_eq_map]
    refine haccounts.nodup hdistinct fun node value id hvalue hid => ?_
    obtain rfl := Option.some.inj hid
    exact content_reactions hvalue
  · have ⟨i, hi⟩ := @readItems_returns _ _ limits (fun value => byteLength value.toJs)
      figma.reactionsRecord _ _ _ htree _ _ hfound hdistinct hread
    refine ⟨i.successes, ?_⟩
    rw [Figma.getReactions, hi]
    rfl

variable (limits selector) in
/-- The Dev Mode data, whose records can all be read. -/
theorem getDevModeData_account {devFigma : DevFigma ρ} (htree : devFigma.IsTree height)
    (hfound : devFigma.resolveDesignRoots selector = .ok found)
    (hdistinct : devFigma.Distinct (devFigma.visibleNodes height found.roots)) :
    ∃ i, devFigma.getDevModeData selector limits = .ok i.successes ∧
      Accounts limits (fun value => byteLength value.toJs) devFigma.devModeRecord
        (devFigma.visibleNodes height found.roots) i ∧
      (i.items.map (·.nodeId)).Nodup := by
  have ⟨i, hi⟩ := @readItems_returns _ _ limits (fun value => byteLength value.toJs)
    devFigma.devModeRecord _ _ _ htree _ _ hfound hdistinct fun node _ => ⟨_, rfl⟩
  have haccounts := readItems_accounts htree hfound hdistinct hi
  refine ⟨i, ?_, haccounts, ?_⟩
  · rw [DevFigma.getDevModeData, hi]
    rfl
  · rw [← List.filterMap_eq_map]
    refine haccounts.nodup hdistinct fun node value id hvalue hid => ?_
    obtain rfl := Option.some.inj hid
    exact content_devMode hvalue

variable (limits selector) in
/-- The motion. The read fails only where there are no styles to be had. -/
theorem getMotion_account {motion : MotionFigma ρ} (htree : motion.IsTree height)
    (hfound : motion.resolveDesignRoots selector = .ok found)
    (hdistinct : motion.Distinct (motion.visibleNodes height found.roots))
    (includeAvailableStyles : Bool) :
    (∀ r, motion.getMotion includeAvailableStyles selector limits = .ok r →
        Accounts limits (fun item => byteLength (motionItemToJs item)) motion.motionRecord
            (motion.visibleNodes height found.roots) r.toInspection ∧
          (r.items.filterMap itemNodeId).Nodup) ∧
      ((∃ styles, motion.catalog includeAvailableStyles = .ok styles) →
        ∃ r, motion.getMotion includeAvailableStyles selector limits = .ok r) := by
  refine ⟨fun r hr => ?_, fun ⟨styles, hstyles⟩ => ?_⟩
  · have haccounts := readItems_accounts htree hfound hdistinct (getMotion_eq_ok hr)
    exact ⟨haccounts, haccounts.nodup hdistinct fun node item id => content_motion⟩
  · have ⟨i, hi⟩ := @readItems_returns _ _ limits (fun item => byteLength (motionItemToJs item))
      motion.motionRecord _ _ _ htree _ _ hfound hdistinct fun node _ => ⟨_, rfl⟩
    rw [MotionFigma.getMotion, hstyles, Guard.ok_bind, hi]
    exact ⟨_, rfl⟩

/-- **The reads of items keep their accounts.** Over visible nodes that are all different, the items
are the records with content of the nodes visited, without the last one where it trips the limit of
the emission; no node comes twice; and a read that is not truncated has visited every node and gives
every record with content. -/
theorem itemReads_account (htree : figma.IsTree height)
    (hfound : figma.resolveDesignRoots selector = .ok found)
    (hdistinct : figma.Distinct (figma.visibleNodes height found.roots)) :
    let nodes := figma.visibleNodes height found.roots
    nodes.Nodup ∧
      ((∀ r, figma.getReactions selector limits = .ok r → ∃ i, r = i.successes ∧
          Accounts limits (fun value => byteLength value.toJs) figma.reactionsRecord nodes i ∧
          (i.items.map (·.nodeId)).Nodup) ∧
        ((∀ node ∈ nodes, ∃ value, figma.reactionsRecord node = .ok value) →
          ∃ r, figma.getReactions selector limits = .ok r)) ∧
      (∀ devFigma : DevFigma ρ, devFigma.toFigma = figma →
        ∃ i, devFigma.getDevModeData selector limits = .ok i.successes ∧
          Accounts limits (fun value => byteLength value.toJs) devFigma.devModeRecord nodes i ∧
          (i.items.map (·.nodeId)).Nodup) ∧
      ∀ motion : MotionFigma ρ, motion.toFigma = figma → ∀ includeAvailableStyles,
        (∀ r, motion.getMotion includeAvailableStyles selector limits = .ok r →
          Accounts limits (fun item => byteLength (motionItemToJs item)) motion.motionRecord nodes
              r.toInspection ∧
            (r.items.filterMap itemNodeId).Nodup) ∧
          ((∃ styles, motion.catalog includeAvailableStyles = .ok styles) →
            ∃ r, motion.getMotion includeAvailableStyles selector limits = .ok r) := by
  intro nodes
  refine ⟨hdistinct.imp fun h => h.1, getReactions_account selector limits htree hfound hdistinct,
    fun devFigma hdev => ?_, fun motion hmotion includeAvailableStyles => ?_⟩
  · subst hdev
    exact getDevModeData_account selector limits htree hfound hdistinct
  · subst hmotion
    exact getMotion_account selector limits htree hfound hdistinct includeAvailableStyles

end Reads

/-! ## A document with something to read -/

/-- What both layers of the framed document have: a click that goes back, and a note. -/
def interactiveField (key : String) : Option JsValue :=
  if key = "reactions" then
    some (.array [.object (member "trigger" (.object (member "type" (word "ON_CLICK"))) ++
      member "actions" (.array [.object (member "type" (word "BACK"))]))])
  else if key = "annotations" then
    some (.array [.object (member "label" (word "note"))])
  else none

/-- The framed document, with something in both layers for every read. -/
def interactive : Figma ℕ :=
  { Figma.framed with
    get := fun node key => (interactiveField key).getD (Figma.framed.get node key)
    get_units := fun node key s h => by
      unfold interactiveField at h
      split_ifs at h
      · cases h
      · cases h
      · exact Figma.framed.get_units node key s h
    currentPage_isPage := by decide
    children_length := Figma.framed_children_length }

/-- The same document for developers. -/
def interactiveDev : DevFigma ℕ := { interactive with getAnnotationCategoriesAsync := none }

/-- The same document with animations. -/
def interactiveMotion : MotionFigma ℕ :=
  { interactive with
    hasHostField := fun _ _ => false
    figmaAnimationStyles := some (some (.array [])) }

theorem isTree_interactive : interactive.IsTree fun node => 1 - node := by
  intro node child hchild
  have hchildren := (interactive.mem_visibleChildren.1 hchild).1
  simp only [interactive, Figma.framed] at hchildren
  split_ifs at hchildren with hnode
  · rw [List.mem_singleton.1 hchildren, hnode]
    decide
  · cases hchildren

/-- Both layers, by the id of the frame. -/
def interactiveScope : Option Selector := some (.nodeId (text "1:2"))

theorem visibleNodes_interactive :
    interactive.visibleNodes (fun node => 1 - node) [(0 : ℕ)] = [0, 1] := by
  decide +kernel

/-- Where one item is let in and both layers have one, that of the second is left out. -/
theorem items_of_one {β : Type} {size : β → ℕ} {record : ℕ → Except ReadError (Option β)}
    {r : Inspection β} (h : Accounts { returnedNodes := 1 } size record [0, 1] r)
    (hvisited : r.visitedNodes = 2) (hfirst : (content record 0).isSome = true)
    (hsecond : (content record 1).isSome = true) : r.items = [0].filterMap (content record) := by
  obtain ⟨value, hvalue⟩ := Option.isSome_iff_exists.1 hfirst
  obtain ⟨next, hnext⟩ := Option.isSome_iff_exists.1 hsecond
  have htrips : LastTrips { returnedNodes := 1 } size record [0, 1] r.visitedNodes := by
    refine ⟨1, 1, next, hvisited, rfl, hnext, Or.inl ?_⟩
    simp [hvalue]
  rw [h.tripped htrips, hvisited]
  rfl

/-- Where one item is let in, the reactions and the motion of the second layer are left out and the
read says so; the notes of both are given where nothing cuts. -/
theorem itemReads_account_interactive :
    (∃ i : Inspection NodeReactions,
      interactive.getReactions interactiveScope { returnedNodes := 1 } = .ok i.successes ∧
        i.truncated = true ∧ i.items = [0].filterMap (content interactive.reactionsRecord)) ∧
    (∃ i : Inspection DevModeNodeData,
      interactiveDev.getDevModeData interactiveScope {} = .ok i.successes ∧
        i.truncated = false ∧ i.items = [0, 1].filterMap (content interactiveDev.devModeRecord)) ∧
    ∃ r, interactiveMotion.getMotion true interactiveScope { returnedNodes := 1 } = .ok r ∧
      r.truncated = true ∧ r.items = [0].filterMap (content interactiveMotion.motionRecord) := by
  have hdistinct : interactive.Distinct
      (interactive.visibleNodes (fun node => 1 - node) [(0 : ℕ)]) := by
    rw [visibleNodes_interactive]
    unfold Host.Distinct
    decide +kernel
  have hreads := fun limits => @itemReads_account _ _ interactive (fun node => 1 - node)
    interactiveScope { roots := [0] } limits isTree_interactive rfl hdistinct
  simp only [visibleNodes_interactive] at hreads
  obtain ⟨-, ⟨hreactions, hreturns⟩, -, hmotion⟩ := hreads { returnedNodes := 1 }
  obtain ⟨-, -, hdev, -⟩ := hreads {}
  refine ⟨?_, ?_, ?_⟩
  · have ⟨r, hr⟩ := hreturns
      (List.forall_mem_cons.2 ⟨⟨_, rfl⟩, List.forall_mem_singleton.2 ⟨_, rfl⟩⟩)
    obtain ⟨i, rfl, haccounts, -⟩ := hreactions r hr
    have hrun : ((interactive.getReactions interactiveScope { returnedNodes := 1 }).toOption.map
        fun r => (r.visitedNodes, r.truncated)) = some (2, true) := by
      decide +kernel
    rw [hr] at hrun
    obtain ⟨hvisited, htruncated⟩ := Prod.mk.inj (Option.some.inj hrun)
    exact ⟨i, hr, htruncated, items_of_one haccounts hvisited rfl rfl⟩
  · obtain ⟨i, hi, haccounts, -⟩ := hdev interactiveDev rfl
    have hrun : ((interactiveDev.getDevModeData interactiveScope {}).toOption.map
        (·.truncated)) = some false := by
      decide +kernel
    rw [hi] at hrun
    have hwhole := Option.some.inj hrun
    exact ⟨i, hi, hwhole, (haccounts.complete hwhole).2⟩
  · obtain ⟨haccounts, hreturns⟩ := hmotion interactiveMotion rfl true
    have ⟨r, hr⟩ := hreturns ⟨_, rfl⟩
    have hrun : ((interactiveMotion.getMotion true interactiveScope
        { returnedNodes := 1 }).toOption.map fun r => (r.visitedNodes, r.truncated)) =
          some (2, true) := by
      decide +kernel
    rw [hr] at hrun
    obtain ⟨hvisited, htruncated⟩ := Prod.mk.inj (Option.some.inj hrun)
    exact ⟨r, hr, htruncated, items_of_one (haccounts r hr).1 hvisited rfl rfl⟩

end FigmaDevMcp

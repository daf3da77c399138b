import FigmaDevMcp.Lib.Guard
import FigmaDevMcp.Read.ForestWalk
import FigmaDevMcp.Read.Navigation

set_option autoImplicit false

/-!
# Getters that throw

Some reads take a property of a node as it is, so that they fail with its getter; others take it by
`hostGet`, which gives `undefined` then.

* `ThrowingFigma`, `read`: a property that is taken as it is;
* `scope`: the visible nodes that a read is about;
* `readForest`: a walk whose visitor reads each node and keeps what it finds;
* `readForest_eq_ok`: **such a walk reads the visible nodes in order**.
-/

namespace FigmaDevMcp

/-- The plugin API with getters that throw, of which `get` is `hostGet`. -/
structure ThrowingFigma (ρ : Type) extends Figma ρ where
  throws : ρ → String → Bool

/-- The visible nodes in scope, none where the scope cannot be resolved. -/
def Figma.scope {ρ : Type} [DecidableEq ρ] (figma : Figma ρ) (height : ρ → ℕ)
    (selector : Option Selector) : List ρ :=
  match figma.resolveDesignRoots selector with
  | .ok found => figma.visibleNodes height found.roots
  | .error _ => []

theorem Figma.scope_eq {ρ : Type} [DecidableEq ρ] {figma : Figma ρ} {height : ρ → ℕ}
    {selector : Option Selector} {found : DesignRoots ρ}
    (h : figma.resolveDesignRoots selector = .ok found) :
    figma.scope height selector = figma.visibleNodes height found.roots := by
  rw [scope, h]

namespace ThrowingFigma

variable {ρ : Type} (figma : ThrowingFigma ρ)

/-- A field of a node, whose getter may throw. -/
def read (node : ρ) (key : String) : Except ReadError JsValue :=
  if figma.throws node key then .error .other else .ok (figma.get node key)

/-- No getter throws. -/
def Readable : Prop := ∀ node key, figma.throws node key = false

variable {figma}

theorem read_eq_ok {node : ρ} {key : String} {value : JsValue} (h : figma.read node key = .ok value) :
    value = figma.get node key := by
  rw [read] at h
  split_ifs at h
  exact (Except.ok.inj h).symm

theorem Readable.read_eq (h : figma.Readable) (node : ρ) (key : String) :
    figma.read node key = .ok (figma.get node key) := by
  rw [read, h node key]
  rfl

section Forest

variable {β σ : Type} (look : ρ → Except ReadError β) (collect : σ → β → σ)

/-- The visitor of such a walk. What comes after a node that cannot be read is of no account. -/
def visitor (node : ρ) (seen : Except ReadError σ) : Except ReadError σ := do
  let collected ← seen
  return collect collected (← look node)

variable [DecidableEq ρ] (figma) (limits : SerializerLimits)

/-- What a read collects below the roots, until something throws. -/
def readForest (roots : List ρ) (start : σ) : Except ReadError (σ × Option Truncation) := do
  let walked := figma.walkNodeForest limits (visitor look collect) roots (.ok start)
  return (← walked.seen, walked.context.truncation)

variable {figma look collect limits} {height : ρ → ℕ}

omit [DecidableEq ρ] in
theorem foldl_visitor_eq_ok {nodes : List ρ} {start : Except ReadError σ} {collected : σ} :
    nodes.foldl (fun seen node => visitor look collect node seen) start = .ok collected ↔
      ∃ s found, start = .ok s ∧ nodes.mapM look = .ok found ∧ collected = found.foldl collect s := by
  induction nodes generalizing start with
  | nil =>
      rw [List.foldl_nil, List.mapM_nil]
      constructor
      · exact fun h => ⟨collected, [], h, rfl, rfl⟩
      · rintro ⟨s, found, h, hfound, rfl⟩
        obtain rfl := Except.ok.inj hfound
        exact h
  | cons node nodes ih =>
      rw [List.foldl_cons, ih, List.mapM_cons]
      simp only [visitor, Guard.bind_eq_ok, Guard.pure_eq_ok]
      constructor
      · rintro ⟨_, found, ⟨s, hs, first, hfirst, rfl⟩, hfound, rfl⟩
        exact ⟨s, first :: found, hs, ⟨first, hfirst, found, hfound, rfl⟩, rfl⟩
      · rintro ⟨s, _, hs, ⟨first, hfirst, found, hfound, rfl⟩, rfl⟩
        exact ⟨_, found, ⟨s, hs, first, hfirst, rfl⟩, hfound, rfl⟩

/-- **A walk that reads the visible nodes of a tree**, up to its limit. -/
theorem readForest_eq_ok (htree : figma.IsTree height) {roots : List ρ}
    (hids : figma.OwnIds (figma.visibleNodes height roots)) {start collected : σ}
    {truncation : Option Truncation} :
    figma.readForest look collect limits roots start = .ok (collected, truncation) ↔
      (∃ found, ((figma.visibleNodes height roots).take limits.visitedNodes).mapM look = .ok found ∧
        collected = found.foldl collect start) ∧
      truncation = if (figma.visibleNodes height roots).length ≤ limits.visitedNodes then none
        else some (.nodeLimit limits.visitedNodes) := by
  have hover := @Host.walkNodeForest_over ρ (Except ReadError σ) _ _ limits (visitor look collect)
    height htree roots hids (.ok start)
  have hseen := hover.seen
  have htruncation := hover.truncation
  simp only [Nat.zero_add, Nat.sub_zero] at hseen htruncation
  simp only [readForest, Guard.bind_eq_ok, Guard.pure_eq_ok, hseen, htruncation,
    foldl_visitor_eq_ok, Prod.mk.injEq]
  constructor
  · rintro ⟨_, ⟨_, found, hstart, hfound, rfl⟩, rfl, rfl⟩
    obtain rfl := Except.ok.inj hstart
    exact ⟨⟨found, hfound, rfl⟩, rfl⟩
  · rintro ⟨⟨found, hfound, rfl⟩, rfl⟩
    exact ⟨_, ⟨start, found, rfl, hfound, rfl⟩, rfl, rfl⟩

/-- Such a walk ends with a result if every node can be read. -/
theorem readForest_returns (htree : figma.IsTree height) {roots : List ρ}
    (hids : figma.OwnIds (figma.visibleNodes height roots))
    (hlook : ∀ node ∈ figma.visibleNodes height roots, ∃ b, look node = .ok b) (start : σ) :
    ∃ r, figma.readForest look collect limits roots start = .ok r := by
  obtain ⟨found, hfound⟩ := Guard.exists_mapM fun node hnode =>
    hlook node (List.mem_of_mem_take hnode)
  exact ⟨(_, _), (readForest_eq_ok htree hids).2 ⟨⟨found, hfound, rfl⟩, rfl⟩⟩

end Forest

end ThrowingFigma

end FigmaDevMcp

import FigmaDevMcp.Shared.Results

set_option autoImplicit false

/-!
# The host's scene graph

What the plugin reads of a Figma document, for a read during which the document stands still.
Nothing says that the graph is a tree: a node may have any parent, and be its own descendant.

* `Host`: the properties of nodes, their parents and children;
* `record`, `string`, `finite`, …: how `serialize.ts` and `search.ts` read a value they do not
  trust;
* `visibilityOf`: the bounded walk over the ancestors.
-/

namespace FigmaDevMcp

open JsValue

/-- The scene graph, over a type of references to nodes. A property that is no node is
`undefined` where it is missing and where its getter throws. -/
structure Host (ρ : Type) where
  get : ρ → String → JsValue
  parent : ρ → Option ρ
  children : ρ → List ρ
  children_length : ∀ r, (children r).length < 2 ^ 32

/-! ## Reading values -/

/-- An object as it is, anything else as one without members. -/
def record : JsValue → JsValue
  | .object members => .object members
  | .array items => .array items
  | _ => .object []

/-- A string as it is, anything else as an empty one. -/
def string : JsValue → JsString
  | .string s => s
  | _ => []

/-- A finite number. -/
def optionalFinite : JsValue → Option ℚ
  | .number (.finite q) => some q
  | _ => none

/-- A finite number as it is, anything else as the fallback. -/
def finite (value : JsValue) (fallback : ℚ := 0) : ℚ := (optionalFinite value).getD fallback

/-- A boolean as it is, anything else as the fallback. -/
def boolean (value : JsValue) (fallback : Bool := false) : Bool :=
  match value with
  | .bool b => b
  | _ => fallback

/-- The items of an array. -/
def array : JsValue → List JsValue
  | .array items => items
  | _ => []

/-- `value === word` -/
def isWord (value : JsValue) (w : String) : Bool :=
  match value with
  | .string s => s == text w
  | _ => false

/-- The value stands for several. -/
def isMixed : JsValue → Bool
  | .symbol => true
  | value => isWord value "mixed"

namespace Host

variable {ρ : Type} (host : Host ρ)

/-- The id of a node. -/
def id (node : ρ) : JsString := string (host.get node "id")

/-- The type of a node is a word. -/
def isType (node : ρ) (w : String) : Bool := isWord (host.get node "type") w

/-! ## Visibility -/

/-- Whether a node renders, as far as its ancestors tell. -/
inductive VisibilityVerdict
  | renders | hidden | undetermined
deriving DecidableEq

/-- The ancestors that are looked at. -/
def maxAncestorWalk : ℕ := 1024

/-- The ancestors after which those that follow are remembered. -/
def cycleWatchAfter : ℕ := 64

/-- A node that is not visible itself. -/
def switchedOff (node : ρ) : Bool :=
  match host.get node "visible" with
  | .bool false => true
  | _ => false

/-- The walk from `current` at `step`, with `fuel` steps left and the nodes watched so far. -/
def visibilityFrom [DecidableEq ρ] : ℕ → ℕ → List ρ → Option ρ → VisibilityVerdict
  | 0, _, _, _ => .undetermined
  | _ + 1, _, _, none => .renders
  | fuel + 1, step, seen, some current =>
    if host.switchedOff current then .hidden
    else if cycleWatchAfter ≤ step then
      if current ∈ seen then .undetermined
      else visibilityFrom fuel (step + 1) (current :: seen) (host.parent current)
    else visibilityFrom fuel (step + 1) seen (host.parent current)

/-- The verdict on a node and its ancestors. -/
def visibilityOf [DecidableEq ρ] (node : ρ) : VisibilityVerdict :=
  host.visibilityFrom maxAncestorWalk 0 [] (some node)

/-- The node and all its ancestors are visible. -/
def rendersVisibly [DecidableEq ρ] (node : ρ) : Bool := host.visibilityOf node = .renders

/-- `visibleChildren` of `serialize.ts`, `childrenOf` of `search.ts`. -/
def visibleChildren [DecidableEq ρ] (node : ρ) : List ρ :=
  (host.children node).filter host.rendersVisibly

/-- The visible graph is a tree: every visible child is lower than its parent. -/
def IsTree [DecidableEq ρ] (height : ρ → ℕ) : Prop :=
  ∀ node, ∀ child ∈ host.visibleChildren node, height child < height node

/-- A node that a read may show: it renders, or is a page. -/
def Showable [DecidableEq ρ] (node : ρ) : Prop :=
  host.visibilityOf node = .renders ∨ host.isType node "PAGE" = true

theorem mem_visibleChildren [DecidableEq ρ] {node child : ρ} :
    child ∈ host.visibleChildren node ↔
      child ∈ host.children node ∧ host.visibilityOf child = .renders := by
  simp [visibleChildren, rendersVisibly]

end Host

end FigmaDevMcp

import FigmaDevMcp.Lib.Utf8
import FigmaDevMcp.Protocol.Error
import FigmaDevMcp.Read.Host

set_option autoImplicit false

/-!
# The plugin API of the host

What the reads use of `figma` beside the scene graph, and what they throw. A read that is aborted
gives no result; it is not followed here.

* `Figma`: the scene graph with the current page, its selection and the lookup of nodes;
* `loadPageIfNeeded`, `ReadError`: loading pages, which the host may fail to do.
-/

namespace FigmaDevMcp

/-- What `getNodeByIdAsync` settles with. -/
inductive Lookup (ρ : Type)
  | found (node : ρ)
  | absent
  | failed

/-- A host with the pages and the selection of a file, and the calls that find nodes. -/
structure Figma (ρ : Type) extends Host ρ where
  get_units : ∀ node key s, get node key = .string s → Utf16.Units s
  currentPage : ρ
  currentPage_isPage : toHost.isType currentPage "PAGE" = true
  /-- The ids of `currentPage.selection`. -/
  selection : List JsString
  getNodeByIdAsync : Option (JsString → Lookup ρ)
  /-- Whether `loadAsync` of a page resolves. -/
  loadAsync : ρ → Bool

/-- What a read throws: a `PluginReadError`, or any other error. -/
inductive ReadError
  | read (code : ErrorCode) (retryable : Bool)
  | other
deriving DecidableEq

namespace Figma

variable {ρ : Type} (figma : Figma ρ)

theorem units_id (node : ρ) : Utf16.Units (figma.id node) := by
  unfold Host.id
  cases hget : figma.get node "id" with
  | string s => exact figma.get_units _ _ _ hget
  | _ => exact nofun

/-- A node that is a page is loaded, which may fail. -/
def loadPageIfNeeded (node : ρ) : Except ReadError ρ :=
  if figma.isType node "PAGE" && !figma.loadAsync node then .error .other else .ok node

theorem loadPageIfNeeded_eq {node loaded : ρ} (h : figma.loadPageIfNeeded node = .ok loaded) :
    loaded = node := by
  unfold loadPageIfNeeded at h
  split_ifs at h
  exact (Except.ok.inj h).symm

/-- A document whose ids all find one frame with one layer in it. -/
def framed : Figma ℕ where
  get node key :=
    if key = "id" then .string (text (if node = 0 then "1:2" else "1:3"))
    else if key = "type" then .string (text (if node = 2 then "PAGE" else "FRAME"))
    else .undefined
  parent node := if node = 1 then some 0 else none
  children node := if node = 0 then [1] else []
  children_length node := by split_ifs <;> simp
  get_units node key s h := by
    split_ifs at h <;> exact JsValue.string.inj h ▸ Utf16.units_ofString _
  currentPage := 2
  currentPage_isPage := by decide
  selection := []
  getNodeByIdAsync := some fun _ => .found 0
  loadAsync _ := true

theorem framed_children_length (node : ℕ) : (framed.children node).length < 2 ^ 32 :=
  framed.children_length node

end Figma

end FigmaDevMcp

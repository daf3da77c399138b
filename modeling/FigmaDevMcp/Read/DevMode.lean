import FigmaDevMcp.Lib.NumberText
import FigmaDevMcp.Read.NodeReactions

set_option autoImplicit false

/-!
# Reading Dev Mode data

`getDevModeData` of `dev-mode.ts`: the annotations, documentation links and resources of every
visible node that has some.

* `annotations`, `documentation`, `devResources`: the parts of a record;
* `serializeDevMode`: the record of a node;
* `getDevModeData`: the read.
-/

namespace FigmaDevMcp

open JsValue

/-! ## The values -/

/-- A category of annotations. -/
structure AnnotationCategory where
  id : JsString
  label : JsString

/-- A category, as it is sent. -/
def AnnotationCategory.toJs (c : AnnotationCategory) : JsValue :=
  .object (member "id" (.string c.id) ++ member "label" (.string c.label))

/-- An annotation of a node. -/
structure AnnotationValue where
  id : JsString
  text : JsString
  categoryId : Option JsString

/-- An annotation, as it is sent. -/
def AnnotationValue.toJs (a : AnnotationValue) : JsValue :=
  .object (member "id" (.string a.id) ++ member "text" (.string a.text) ++
    optional "categoryId" (a.categoryId.map .string))

/-- A link with a name. -/
structure DevResource where
  name : JsString
  uri : JsString

/-- A link, as it is sent. -/
def DevResource.toJs (r : DevResource) : JsValue :=
  .object (member "name" (.string r.name) ++ member "uri" (.string r.uri))

/-- What developers are told of a node. -/
structure DevModeNodeData where
  nodeId : JsString
  annotations : List AnnotationValue
  annotationCategories : List AnnotationCategory
  documentation : List DevResource
  devResources : List DevResource
  description : Option JsString
  descriptionMarkdown : Option JsString
  ownerNodeId : Option JsString
  inheritedFromNodeId : Option JsString

/-- What developers are told of a node, as it is sent. -/
def DevModeNodeData.toJs (d : DevModeNodeData) : JsValue :=
  .object (member "nodeId" (.string d.nodeId) ++
    member "annotations" (.array (d.annotations.map AnnotationValue.toJs)) ++
    member "annotationCategories" (.array (d.annotationCategories.map AnnotationCategory.toJs)) ++
    member "documentation" (.array (d.documentation.map DevResource.toJs)) ++
    member "devResources" (.array (d.devResources.map DevResource.toJs)) ++
    optional "description" (d.description.map .string) ++
    optional "descriptionMarkdown" (d.descriptionMarkdown.map .string) ++
    optional "ownerNodeId" (d.ownerNodeId.map .string) ++
    optional "inheritedFromNodeId" (d.inheritedFromNodeId.map .string))

/-! ## The parts of a record -/

/-- A value that is a string. -/
def stringOf : JsValue → Option JsString
  | .string s => some s
  | _ => none

/-- An annotation. One without an id gets one from its place. -/
def annotation (nodeId : JsString) (index : ℕ) (item : JsValue) : AnnotationValue :=
  let value := record item
  { id := (nonEmpty (value.field "id")).getD
      (nodeId ++ text ":annotation:" ++ NumberText.decimal index)
    text := (stringOf (value.field "label") <|> stringOf (value.field "labelMarkdown")).getD []
    categoryId := stringOf (value.field "categoryId") }

/-- The annotations of a node. -/
def annotations (nodeId : JsString) (raw : JsValue) : List AnnotationValue :=
  (array raw).mapIdx fun index item => annotation nodeId index item

/-- The links that have a uri. -/
def documentation (raw : JsValue) : List DevResource :=
  (array raw).filterMap fun item =>
    (nonEmpty ((record item).field "uri")).map fun uri =>
      { name := string ((record item).field "label"), uri }

/-- What `getDevResourcesAsync` of a node comes to, nothing where it fails: the resources with a
URL, and the first node that one of them is inherited from. -/
def devResources (raw : JsValue) : List DevResource × Option JsString :=
  match raw with
  | .method result =>
    let resources := (array result).filter fun item => string ((record item).field "url") ≠ []
    (resources.map fun item =>
        { name := string ((record item).field "name"), uri := string ((record item).field "url") },
      resources.findSome? fun item => nonEmpty ((record item).field "inheritedNodeId"))
  | _ => ([], none)

/-- The categories that the annotations name. -/
def referencedCategories (catalog : List AnnotationCategory) (categoryIds : List JsString) :
    List AnnotationCategory :=
  catalog.filter fun category => category.id ∈ categoryIds

/-- The plugin API with the categories of annotations. Of `getAnnotationCategoriesAsync` it has what
it resolves with, `undefined` where it rejects; calling a method of a node that rejects gives
`undefined`, too. -/
structure DevFigma (ρ : Type) extends Figma ρ where
  getAnnotationCategoriesAsync : Option JsValue

namespace DevFigma

variable {ρ : Type} [DecidableEq ρ] (figma : DevFigma ρ)

/-- The categories of the file that have an id. -/
def loadCategories : List AnnotationCategory :=
  (array (figma.getAnnotationCategoriesAsync.getD .undefined)).filterMap fun raw =>
    (nonEmpty ((record raw).field "id")).map fun id =>
      { id, label := string ((record raw).field "label") }

/-- The record of a node with an id. A node without the fields has nothing in them. -/
def serializeDevMode (node : ρ) (catalog : List AnnotationCategory) : Option DevModeNodeData :=
  let nodeId := figma.id node
  if nodeId = [] then none
  else
    let annotated := annotations nodeId (figma.get node "annotations")
    let (resources, inherited) := devResources (figma.get node "getDevResourcesAsync")
    some {
      nodeId
      annotations := annotated
      annotationCategories := referencedCategories catalog (annotated.filterMap (·.categoryId))
      documentation := documentation (figma.get node "documentationLinks")
      devResources := resources
      description := stringOf (figma.get node "description")
      descriptionMarkdown := stringOf (figma.get node "descriptionMarkdown")
      ownerNodeId := nonEmpty (figma.get node "ownerNodeId")
      inheritedFromNodeId := nonEmpty (figma.get node "inheritedFromNodeId") <|> inherited }

end DevFigma

/-- There is something to tell of the node. -/
def DevModeNodeData.hasContent (value : DevModeNodeData) : Bool :=
  !value.annotations.isEmpty || !value.annotationCategories.isEmpty ||
    !value.devResources.isEmpty || !value.documentation.isEmpty ||
    !(value.description.getD []).isEmpty || !(value.descriptionMarkdown.getD []).isEmpty ||
    value.ownerNodeId.isSome || value.inheritedFromNodeId.isSome

namespace DevFigma

variable {ρ : Type} [DecidableEq ρ] (figma : DevFigma ρ)

/-- The record of a node that has one. -/
def devModeRecord (node : ρ) : Except ReadError (Option DevModeNodeData) :=
  .ok (withContent DevModeNodeData.hasContent (figma.serializeDevMode node figma.loadCategories))

/-- The records below the roots. -/
def getDevModeData (selector : Option Selector) (limits : SerializerLimits) :
    Except ReadError (Inspection (ItemResult DevModeNodeData)) :=
  (readItems limits (fun value => byteLength value.toJs) figma.devModeRecord figma.toFigma
    selector).map Inspection.successes

end DevFigma

end FigmaDevMcp

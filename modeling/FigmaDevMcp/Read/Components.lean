import FigmaDevMcp.Lib.Firsts
import FigmaDevMcp.Read.Getters
import FigmaDevMcp.Read.ItemEmission
import FigmaDevMcp.Read.Motion

set_option autoImplicit false

/-!
# The components of a scope

`getComponents` of `components.ts`: the visible components in scope, what each visible instance is
an instance of, and the components that are found so outside the scope. The lookups are made in
batches, against one clock.

* `serializeComponent`: a component as it is reported;
* `ComponentEmission`: what has been emitted, under limits that both lists share;
* `emitComponents`, `lookupBatches`, `getComponents`: the loop, the batches of the other two
  passes, and the read.
-/

namespace FigmaDevMcp

open JsValue

/-! ## The values -/

/-- A link in the documentation of a component. -/
structure DocumentationReference where
  uri : JsString
  label : Option JsString

/-- A link, as it is sent. -/
def DocumentationReference.toJs (d : DocumentationReference) : JsValue :=
  .object (member "uri" (.string d.uri) ++ optional "label" (d.label.map .string))

/-- A property of a variant. -/
structure NamedVariantProperty where
  name : JsString
  value : JsString

/-- A property of a variant, as it is sent. -/
def NamedVariantProperty.toJs (p : NamedVariantProperty) : JsValue :=
  .object (member "name" (.string p.name) ++ member "value" (.string p.value))

/-- The definition of a property, with its default. -/
structure ComponentPropertyDefinition where
  name : JsString
  defaultValue : ComponentPropertyValue
  preferredValues : Option (List ComponentPropertyValue)

/-- The definition of a property, as it is sent. -/
def ComponentPropertyDefinition.toJs (d : ComponentPropertyDefinition) : JsValue :=
  .object (member "name" (.string d.name) ++ member "defaultValue" d.defaultValue.toJs ++
    optional "preferredValues"
      (d.preferredValues.map fun values => .array (values.map ComponentPropertyValue.toJs)))

/-- A component or a set of them. -/
structure ComponentDefinition where
  id : JsString
  name : JsString
  documentation : List DocumentationReference
  variantProperties : List NamedVariantProperty
  propertyDefinitions : List ComponentPropertyDefinition
  componentSetId : Option JsString
  description : Option JsString

/-- A component, as it is sent. -/
def ComponentDefinition.toJs (c : ComponentDefinition) : JsValue :=
  .object (member "id" (.string c.id) ++ member "name" (.string c.name) ++
    member "documentation" (.array (c.documentation.map DocumentationReference.toJs)) ++
    member "variantProperties" (.array (c.variantProperties.map NamedVariantProperty.toJs)) ++
    member "propertyDefinitions"
      (.array (c.propertyDefinitions.map ComponentPropertyDefinition.toJs)) ++
    optional "componentSetId" (c.componentSetId.map .string) ++
    optional "description" (c.description.map .string))

/-- An instance with its component. -/
structure InstanceRelationship where
  instanceId : JsString
  componentId : JsString

/-- An instance with its component, as it is sent. -/
def InstanceRelationship.toJs (r : InstanceRelationship) : JsValue :=
  .object (member "instanceId" (.string r.instanceId) ++
    member "componentId" (.string r.componentId))

/-! ## A component of the host -/

/-- The links that have a uri. -/
def documentationReferences (raw : JsValue) : List DocumentationReference :=
  (array raw).filterMap fun item =>
    let link := record item
    if string (link.field "uri") = [] then none
    else
      some
        { uri := string (link.field "uri")
          label :=
            match link.field "label" with
            | .string s => some s
            | _ => none }

/-- The properties whose value is a string. -/
def variantProperties (raw : JsValue) : List NamedVariantProperty :=
  (ownMembers raw).filterMap fun entry =>
    match entry.2 with
    | .string value => some { name := entry.1, value }
    | _ => none

/-- The values that a property prefers, none where there are none. -/
def preferredValues (type : JsString) (definition : JsValue) : Option (List ComponentPropertyValue) :=
  let values : List ComponentPropertyValue :=
    if type = text "VARIANT" then
      (array (definition.field "variantOptions")).filterMap fun option =>
        match option with
        | .string value => some (.variant value)
        | _ => none
    else if type = text "INSTANCE_SWAP" then
      (array (definition.field "preferredValues")).filterMap fun item =>
        let key := string ((record item).field "key")
        if key = [] then none else some (.instanceSwap key)
    else []
  if values = [] then none else some values

/-- A definition whose default has the type that it names. -/
def propertyDefinition (entry : Member) : Option ComponentPropertyDefinition :=
  let definition := record entry.2
  let type := string (definition.field "type")
  (componentPropertyValue type (definition.field "defaultValue")).map fun defaultValue =>
    { name := entry.1, defaultValue, preferredValues := preferredValues type definition }

/-- The definitions of the own members of an object. -/
def propertyDefinitions (raw : JsValue) : List ComponentPropertyDefinition :=
  (ownMembers raw).filterMap propertyDefinition

/-- `settleOrSkip` of a lookup, which may settle after its timeout. -/
def settleOrSkip {ρ : Type} (inTime : Bool) : Lookup ρ → Option ρ
  | .found node => if inTime then some node else none
  | .absent | .failed => none

/-- The plugin API with the lookups of main components. -/
structure ComponentFigma (ρ : Type) extends ThrowingFigma ρ where
  /-- `getMainComponentAsync` of a node, if it has one. -/
  getMainComponentAsync : ρ → Option (Lookup ρ)
  mainInTime : ρ → Bool
  nodeInTime : JsString → Bool

/-- What a node is to the walk. -/
inductive FoundComponent (ρ : Type)
  | component (id : JsString) (node : ρ)
  | instance_ (id : JsString) (node : ρ)
  | other

/-- The components and instances of the walk, under their ids. -/
structure ComponentWalk (ρ : Type) where
  components : List (JsString × ρ) := []
  instances : List (JsString × ρ) := []

/-- A component is added under its id, an instance to the list. -/
def ComponentWalk.collect {ρ : Type} (walk : ComponentWalk ρ) : FoundComponent ρ → ComponentWalk ρ
  | .component id node =>
    { walk with components := Firsts.add Prod.fst walk.components (id, node) }
  | .instance_ id node =>
    { walk with instances := Firsts.add Prod.fst walk.instances (id, node) }
  | .other => walk

namespace ComponentFigma

variable {ρ : Type} (figma : ComponentFigma ρ)

/-- What a node of the forest is collected as. -/
def findComponent (node : ρ) : Except ReadError (FoundComponent ρ) := do
  let id := string (← figma.read node "id")
  if id = [] then return .other
  let type ← figma.read node "type"
  if isWord type "COMPONENT" || isWord type "COMPONENT_SET" then return .component id node
  if isWord type "INSTANCE" then return .instance_ id node
  return .other

/-- The id of the set that the component is in. -/
def componentSetId (node : ρ) : Except ReadError (Option JsString) :=
  match figma.parent node with
  | none => return none
  | some parent => do
    if !isWord (← figma.read parent "type") "COMPONENT_SET" then return none
    let id := string (← figma.read parent "id")
    return if id = [] then none else some id

/-- A component, with its fields as the host gives them. -/
def serializeComponent (node : ρ) : Except ReadError (Option ComponentDefinition) := do
  let id := string (← figma.read node "id")
  if id = [] then return none
  let type ← figma.read node "type"
  if !isWord type "COMPONENT" && !isWord type "COMPONENT_SET" then return none
  let name := string (← figma.read node "name")
  let componentSetId ← figma.componentSetId node
  return some
    { id
      name
      documentation := documentationReferences (figma.get node "documentationLinks")
      variantProperties := variantProperties (figma.get node "variantProperties")
      propertyDefinitions := propertyDefinitions (figma.get node "componentPropertyDefinitions")
      componentSetId
      description := nonEmpty (figma.get node "description") }

/-- What an instance of the walk is an instance of. -/
def relationship (instance_ : JsString × ρ) : Except ReadError (Option InstanceRelationship) := do
  let _ ← figma.read instance_.2 "getMainComponentAsync"
  match figma.getMainComponentAsync instance_.2 with
  | none => return none
  | some lookup =>
    match settleOrSkip (figma.mainInTime instance_.2) lookup with
    | none => return none
    | some main =>
      match figma.read main "id" with
      | .error _ => return none
      | .ok id =>
        return if string id = [] then none
          else some { instanceId := instance_.1, componentId := string id }

/-- The node of an id, unless its lookup fails or takes too long. -/
def resolveNode (id : JsString) : Except ReadError (Option ρ) :=
  .ok (figma.getNodeByIdAsync.bind fun lookup => settleOrSkip (figma.nodeInTime id) (lookup id))

end ComponentFigma

/-! ## The emission -/

/-- What has been put into the result, and what it comes to. -/
structure ComponentEmission where
  components : List ComponentDefinition := []
  instances : List InstanceRelationship := []
  encoded : ℕ := 0
  considered : ℕ := 0
  walkTruncation : Option Truncation := none
  emitTruncation : Option Truncation := none

namespace ComponentEmission

/-- A cut of the walk goes before one of the emission. -/
def truncation (e : ComponentEmission) : Option Truncation := e.walkTruncation <|> e.emitTruncation

/-- The first cut stays. -/
def mark (e : ComponentEmission) (truncation : Truncation) : ComponentEmission :=
  if e.walkTruncation.isNone then { e with walkTruncation := some truncation } else e

variable (limits : SerializerLimits)

/-- A payload is counted, if the limits allow it. -/
def accept (payload : JsValue) (e : ComponentEmission) : Bool × ComponentEmission :=
  let e := { e with considered := e.considered + 1 }
  if e.emitTruncation.isSome then (false, e)
  else if limits.returnedNodes ≤ e.components.length + e.instances.length then
    (false, { e with emitTruncation := some (.nodeLimit e.considered) })
  else
    let encoded := e.encoded + byteLength payload
    if limits.encodedBytes < encoded then
      (false, { e with emitTruncation := some (.byteLimit encoded) })
    else (true, { e with encoded })

/-- A component goes into the result. -/
def pushComponent (component : ComponentDefinition) (e : ComponentEmission) :
    Bool × ComponentEmission :=
  match e.accept limits component.toJs with
  | (true, e) => (true, { e with components := e.components ++ [component] })
  | (false, e) => (false, e)

/-- An instance goes into the result. -/
def pushInstance (relationship : InstanceRelationship) (e : ComponentEmission) :
    Bool × ComponentEmission :=
  match e.accept limits relationship.toJs with
  | (true, e) => (true, { e with instances := e.instances ++ [relationship] })
  | (false, e) => (false, e)

end ComponentEmission

/-! ## The batches -/

/-- The readings of the clock that a read of components makes, and the time it may take. The first
reading is the start. -/
structure LookupClock where
  now : ℕ → ℤ
  budgetMs : ℤ := 8000

/-- Whether the time is over at a reading after the first. -/
def LookupClock.expired (clock : LookupClock) (reading : ℕ) : Bool :=
  decide (clock.budgetMs ≤ clock.now (reading + 1) - clock.now 0)

/-- The lookups that are under way at once. -/
def lookupBatch : ℕ := 16

section Batches

variable {α β : Type} (clock : LookupClock) (settle : α → Except ReadError (Option β))
  (push : β → ComponentEmission → Except ReadError (Bool × ComponentEmission))

/-- What a batch has settled with, up to the item that is not emitted. -/
def pushAll : List (Option β) → ComponentEmission → Except ReadError ComponentEmission
  | [], e => .ok e
  | none :: rest, e => pushAll rest e
  | some item :: rest, e => do
    match ← push item e with
    | (true, e) => pushAll rest e
    | (false, e) => return e

/-- The batches of a pass, with the number of the next reading of the clock. No pass has more
batches than `fuel` allows. -/
def lookupBatches : ℕ → List α → ℕ → ComponentEmission →
    Except ReadError (ComponentEmission × ℕ)
  | 0, _, reading, e => .ok (e, reading)
  | fuel + 1, rest, reading, e =>
    if rest = [] ∨ e.emitTruncation.isSome then .ok (e, reading)
    else if clock.expired reading then .ok (e.mark (.nodeLimit e.considered), reading + 1)
    else do
      let resolved ← (rest.take lookupBatch).mapM settle
      let e ← pushAll push resolved e
      (if clock.expired (reading + 1) then .ok (e.mark (.nodeLimit e.considered), reading + 2)
        else lookupBatches fuel (rest.drop lookupBatch) (reading + 2) e)

end Batches

/-! ## The read -/

/-- The components and instances of a read. -/
structure GetComponentsResult where
  components : List ComponentDefinition
  instances : List InstanceRelationship
  truncated : Bool
  truncation : Option Truncation

namespace ComponentFigma

variable {ρ : Type} (figma : ComponentFigma ρ) (limits : SerializerLimits)

/-- The components of the walk. One that cannot be read is passed over. -/
def emitComponents : List ρ → ComponentEmission → Except ReadError ComponentEmission
  | [], e => .ok e
  | node :: rest, e =>
    match figma.serializeComponent node with
    | .error .other => emitComponents rest e
    | .error error => .error error
    | .ok none => emitComponents rest e
    | .ok (some component) =>
      match e.pushComponent limits component with
      | (true, e) => emitComponents rest e
      | (false, e) => .ok e

/-- An instance whose component is known. -/
def pushRelationship (relationship : InstanceRelationship) (e : ComponentEmission) :
    Except ReadError (Bool × ComponentEmission) :=
  .ok (e.pushInstance limits relationship)

/-- The component that an instance was resolved to. -/
def pushResolved (node : ρ) (e : ComponentEmission) :
    Except ReadError (Bool × ComponentEmission) := do
  match ← figma.serializeComponent node with
  | none => return (true, e)
  | some component => return e.pushComponent limits component

/-- The ids of main components that are not in scope, each once. -/
def unresolvedIds (componentOrder : List JsString) (instances : List InstanceRelationship) :
    List JsString :=
  Firsts.firsts (fun id => id)
    ((instances.map (·.componentId)).filter fun id => id ≠ [] ∧ id ∉ componentOrder)

/-- The components and instances below the roots. -/
def getComponents [DecidableEq ρ] (clock : LookupClock) (selector : Option Selector) :
    Except ReadError GetComponentsResult := do
  let found ← figma.resolveDesignRoots selector
  let (walk, truncation) ←
    figma.readForest figma.findComponent ComponentWalk.collect limits found.roots {}
  let start : ComponentEmission := {}
  let emission ← figma.emitComponents limits (walk.components.map Prod.snd)
    ((truncation.map start.mark).getD start)
  let (emission, reading) ← lookupBatches clock figma.relationship (pushRelationship limits)
    walk.instances.length walk.instances 0 emission
  let unresolved := unresolvedIds (walk.components.map Prod.fst) emission.instances
  let (emission, _) ← lookupBatches clock figma.resolveNode (figma.pushResolved limits)
    unresolved.length unresolved reading emission
  return {
    components := emission.components
    instances := emission.instances
    truncated := emission.truncation.isSome
    truncation := emission.truncation }

end ComponentFigma

end FigmaDevMcp

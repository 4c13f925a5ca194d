import DesignSync.Json.Record
import DesignSync.Json.Reader
import DesignSync.Document.Patch
import DesignSync.Document.Snapshot

/-!
The JSON form of documents. What is absent is not written; all other fields always are, in the
order of the structures. Decoding takes every field in any order, and leaves out what it does not
know.
-/

namespace DesignSync

open Json

namespace Binding

def toJson (b : Binding) : Json :=
  object <|
    [("refKind", string b.kind.name), ("refId", string b.refId)]
      ++ member? "path" string b.path ++ member? "fallback" string b.fallback

def ofJson? (j : Json) : Option Binding := do
  let r ← record? ["refKind", "refId", "path", "fallback"] j
  return {
    kind := ← r.required "refKind" fun j => name? j >>= RefKind.ofName?
    refId := ← r.required "refId" string?
    path := ← r.optional "path" string?
    fallback := ← r.optional "fallback" string? }

end Binding

namespace Literal

def toJson : Literal → Json
  | number x => float x
  | text s => string s

def ofJson? (j : Json) : Option Literal :=
  match number? j with
  | some x => some (number x)
  | none => (string? j).map text

end Literal

namespace Style

def toJson (s : Style) : Json :=
  object <|
    member? "binding" (ofDict Binding.toJson) s.bindings
      ++ s.literals.entries.map fun (k, v) => (k, v.toJson)

/-- The member `binding` holds the bindings, every other member is a literal. -/
def ofJson? : Json → Option Style
  | object members => do
    let r ← ofMembers? ["binding"] members
    return {
      bindings := ← r.optional "binding" (dict? Binding.ofJson?)
      literals := ← dict? Literal.ofJson? (object (members.filter (·.1 != "binding"))) }
  | _ => none

end Style

namespace Content

def toJson (c : Content) : Json :=
  object <|
    member? "text" string c.text ++ member? "binding" Binding.toJson c.binding
      ++ member? "expression" string c.expression

def ofJson? (j : Json) : Option Content := do
  let r ← record? ["text", "binding", "expression"] j
  return {
    text := ← r.optional "text" string?
    binding := ← r.optional "binding" Binding.ofJson?
    expression := ← r.optional "expression" string? }

end Content

namespace StateFlag

def toJson : StateFlag → Json
  | bool b => .bool b
  | text s => string s

def ofJson? : Json → Option StateFlag
  | .bool b => some (bool b)
  | string s => some (text s)
  | _ => none

end StateFlag

namespace Ownership

def toJson (o : Ownership) : Json :=
  object [("type", string o.kind.name), ("ownerId", string o.ownerId)]

def ofJson? (j : Json) : Option Ownership := do
  let r ← record? ["type", "ownerId"] j
  return {
    kind := ← r.required "type" fun j => name? j >>= OwnerKind.ofName?
    ownerId := ← r.required "ownerId" string? }

end Ownership

namespace Properties

def toJson (p : Properties) : Json :=
  object
    [("style", p.style.toJson), ("content", p.content.toJson),
      ("attributes", ofDict string p.attributes), ("events", ofDict string p.events),
      ("state", ofDict StateFlag.toJson p.state), ("children", array (p.children.map string))]

def fieldNames : List String :=
  ["style", "content", "attributes", "events", "state", "children"]

def ofJson? (j : Json) : Option Properties := do
  let r ← record? fieldNames j
  return {
    style := ← r.withDefault "style" Style.empty Style.ofJson?
    content := ← r.withDefault "content" Content.empty Content.ofJson?
    attributes := ← r.withDefault "attributes" Dict.empty (dict? string?)
    events := ← r.withDefault "events" Dict.empty (dict? string?)
    state := ← r.withDefault "state" Dict.empty (dict? StateFlag.ofJson?)
    children := ← r.withDefault "children" [] (list? string?) }

end Properties

namespace Element

def toJson (e : Element) : Json :=
  object <|
    [("id", string e.id), ("tag", string e.tag), ("kind", string e.kind.name)]
      ++ member? "name" string e.name
      ++ [("ownership", e.ownership.toJson), ("properties", e.properties.toJson)]
      ++ member? "instanceRef" string e.instanceRef

def ofJson? (j : Json) : Option Element := do
  let r ← record? ["id", "tag", "kind", "name", "ownership", "properties", "instanceRef"] j
  return {
    id := ← r.required "id" string?
    tag := ← r.required "tag" string?
    kind := ← r.withDefault "kind" .element fun j => name? j >>= ElementKind.ofName?
    name := ← r.optional "name" string?
    ownership := ← r.required "ownership" Ownership.ofJson?
    properties := ← r.withDefault "properties" Properties.empty Properties.ofJson?
    instanceRef := ← r.optional "instanceRef" string? }

end Element

namespace PropertiesPatch

def toJson (p : PropertiesPatch) : Json :=
  object <|
    member? "style" Style.toJson p.style ++ member? "content" Content.toJson p.content
      ++ member? "attributes" (ofDict string) p.attributes
      ++ member? "events" (ofDict string) p.events
      ++ member? "state" (ofDict StateFlag.toJson) p.state
      ++ member? "children" (fun ids => array (ids.map string)) p.children

def ofJson? (j : Json) : Option PropertiesPatch := do
  let r ← record? Properties.fieldNames j
  return {
    style := ← r.optional "style" Style.ofJson?
    content := ← r.optional "content" Content.ofJson?
    attributes := ← r.optional "attributes" (dict? string?)
    events := ← r.optional "events" (dict? string?)
    state := ← r.optional "state" (dict? StateFlag.ofJson?)
    children := ← r.optional "children" (list? string?) }

end PropertiesPatch

namespace ElementPatch

def toJson (p : ElementPatch) : Json :=
  object <|
    member? "tag" string p.tag ++ member? "kind" (fun k => string k.name) p.kind
      ++ member? "name" string p.name ++ member? "ownership" Ownership.toJson p.ownership
      ++ member? "instanceRef" string p.instanceRef
      ++ member? "properties" PropertiesPatch.toJson p.properties

def ofJson? (j : Json) : Option ElementPatch := do
  let r ← record? ["tag", "kind", "name", "ownership", "instanceRef", "properties"] j
  return {
    tag := ← r.optional "tag" string?
    kind := ← r.optional "kind" fun j => name? j >>= ElementKind.ofName?
    name := ← r.optional "name" string?
    ownership := ← r.optional "ownership" Ownership.ofJson?
    instanceRef := ← r.optional "instanceRef" string?
    properties := ← r.optional "properties" PropertiesPatch.ofJson? }

end ElementPatch

namespace ElementBindings

def toJson (b : ElementBindings) : Json :=
  object <| ("style", ofDict Binding.toJson b.style) :: member? "content" Binding.toJson b.content

def ofJson? (j : Json) : Option ElementBindings := do
  let r ← record? ["style", "content"] j
  return {
    style := ← r.withDefault "style" Dict.empty (dict? Binding.ofJson?)
    content := ← r.optional "content" Binding.ofJson? }

end ElementBindings

namespace PropValue

def toJson (v : PropValue) : Json :=
  object <|
    ("id", string v.id) :: member? "name" string v.name
      ++ [("value", v.value), ("isDefault", .bool v.isDefault)]

def ofJson? (j : Json) : Option PropValue := do
  let r ← record? ["id", "name", "value", "isDefault"] j
  return {
    id := ← r.required "id" string?
    name := ← r.optional "name" string?
    value := ← r.required "value" canonical?
    isDefault := ← r.withDefault "isDefault" false bool? }

end PropValue

namespace ComponentProp

def toJson (p : ComponentProp) : Json :=
  object
    [("id", string p.id), ("name", string p.name), ("type", string p.type),
      ("defaultValue", p.defaultValue), ("values", array (p.values.map PropValue.toJson))]

def ofJson? (j : Json) : Option ComponentProp := do
  let r ← record? ["id", "name", "type", "defaultValue", "values"] j
  return {
    id := ← r.required "id" string?
    name := ← r.required "name" string?
    type := ← r.required "type" string?
    defaultValue := ← r.withDefault "defaultValue" .null canonical?
    values := ← r.withDefault "values" [] (list? PropValue.ofJson?) }

end ComponentProp

namespace Component

def toJson (c : Component) : Json :=
  object
    [("id", string c.id), ("name", string c.name),
      ("props", array (c.props.map ComponentProp.toJson))]

def ofJson? (j : Json) : Option Component := do
  let r ← record? ["id", "name", "props"] j
  return {
    id := ← r.required "id" string?
    name := ← r.required "name" string?
    props := ← r.withDefault "props" [] (list? ComponentProp.ofJson?) }

end Component

namespace Override

def member : Override → String × Json
  | direct value => ("value", value)
  | named valueId => ("propValueId", string valueId)

def toJson (o : Override) : Json := object [o.member]

/-- A single member `value` makes a direct override whatever else is there; without one the member
    `propValueId` names a value. The other members have to be fit too. -/
def ofMembers? (members : List (String × Json)) : Option Override := do
  let members ← canonicalMembers? members
  let direct? := do
    let r ← Json.ofMembers? ["value"] members
    r.get? "value"
  let named? := do
    let r ← Json.ofMembers? ["propValueId"] members
    r.required "propValueId" string?
  (direct?.map direct).or (named?.map named)

def ofJson? : Json → Option Override
  | object members => ofMembers? members
  | _ => none

end Override

namespace InstanceOverride

def toJson (o : InstanceOverride) : Json :=
  object [("instanceId", string o.instanceId), ("propId", string o.propId), o.value.member]

def ofJson? : Json → Option InstanceOverride
  | object members => do
    let r ← Json.ofMembers? ["instanceId", "propId"] members
    return {
      instanceId := ← r.required "instanceId" string?
      propId := ← r.required "propId" string?
      value := ← Override.ofMembers? members }
  | _ => none

end InstanceOverride

namespace Snapshot

def toJson (x : Snapshot) : Json :=
  object
    [("elements", array (x.elements.map Element.toJson)),
      ("components", array (x.components.map Component.toJson)),
      ("overrides", array (x.overrides.map InstanceOverride.toJson))]

def ofJson? (j : Json) : Option Snapshot := do
  let r ← record? ["elements", "components", "overrides"] j
  return {
    elements := ← r.withDefault "elements" [] (list? Element.ofJson?)
    components := ← r.withDefault "components" [] (list? Component.ofJson?)
    overrides := ← r.withDefault "overrides" [] (list? InstanceOverride.ofJson?) }

/-- A snapshot from the text of a file. -/
def ofText? (text : String) : Option Snapshot := Json.read text >>= ofJson?

/-- The text of a file that holds a snapshot. -/
def text (x : Snapshot) : String := x.toJson.pretty

end Snapshot

end DesignSync

import DesignSync.Json.Printer

/-!
Components, the values their props can take, and what an instance puts in their place.
-/

namespace DesignSync

/-- A named value that a prop can take. -/
structure PropValue where
  id : String
  name : Option String
  value : Json
  isDefault : Bool
deriving BEq

structure ComponentProp where
  id : String
  name : String
  type : String
  defaultValue : Json
  values : List PropValue
deriving BEq

structure Component where
  id : String
  name : String
  props : List ComponentProp
deriving BEq

/-- What an instance sets a prop to: a value of its own, or one of the prop's values by id. -/
inductive Override where
  | direct (value : Json)
  | named (valueId : String)
deriving BEq

/-- An override as a document lists it. -/
structure InstanceOverride where
  instanceId : String
  propId : String
  value : Override
deriving BEq

/-- A value as text to show; null has none. -/
def Json.display? : Json → Option String
  | .null => none
  | .string s => some s
  | j => some j.compact

/-- Keeps the mark of the first default and takes it from all others; `seen` tells whether a
    default came before. -/
def PropValue.oneDefault (seen : Bool) : List PropValue → List PropValue
  | [] => []
  | v :: vs => { v with isDefault := v.isDefault && !seen } :: oneDefault (seen || v.isDefault) vs

namespace ComponentProp

def value? (p : ComponentProp) (valueId : String) : Option PropValue :=
  p.values.find? fun v => v.id == valueId

def designatedDefault? (p : ComponentProp) : Option PropValue := p.values.find? (·.isDefault)

/-- The value without any override: the designated default, else the first value, else
    `defaultValue`. -/
def currentDefault (p : ComponentProp) : Json :=
  match p.designatedDefault?.or p.values.head? with
  | some v => v.value
  | none => p.defaultValue

def normalize (p : ComponentProp) : ComponentProp :=
  { p with values := PropValue.oneDefault false p.values }

/-- How many values are marked as default behind the first one that is. -/
def extraDefaults (p : ComponentProp) : Nat := (p.values.filter (·.isDefault)).length - 1

end ComponentProp

namespace Component

/-- Leaves each prop with at most one default. -/
def normalize (c : Component) : Component := { c with props := c.props.map (·.normalize) }

def extraDefaults (c : Component) : Nat := c.props.foldr (fun p n => p.extraDefaults + n) 0

/-- Changes the first prop with an id, if there is one. -/
def alterProp? (c : Component) (propId : String) (f : ComponentProp → ComponentProp) :
    Option Component :=
  if c.props.any (·.id == propId) then
    let (before, after) := c.props.span (·.id != propId)
    some { c with props := before ++ (after.take 1).map f ++ after.drop 1 }
  else none

end Component

end DesignSync

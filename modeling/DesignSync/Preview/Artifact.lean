import DesignSync.Document.Encoding
import DesignSync.Document.Store

/-!
The props that a live preview runs with: the value of every prop of a component or of one of its
instances, and the module that holds them.
-/

namespace DesignSync

/-- What props are taken from: nothing, a component, or an instance with its overrides. -/
inductive Scope where
  | none
  | component (id : String)
  | inst (id : String)
deriving DecidableEq, Repr

/-- Why there are no props to show. -/
inductive ScopeError where
  | unknownElement (id : String)
  | notAnInstance (id : String)
  | unknownComponent (id : String)
deriving DecidableEq, Repr

def ScopeError.message : ScopeError → String
  | unknownElement id => "Unknown element: " ++ id
  | notAnInstance id => "Element " ++ id ++ " is not a component instance"
  | unknownComponent id => "Unknown component: " ++ id

/-- The value of a prop under an override. One that names no value of the prop counts for
    nothing. -/
def ComponentProp.resolve (p : ComponentProp) : Option Override → Json
  | some (.direct value) => value
  | some (.named valueId) =>
    match p.value? valueId with
    | some v => v.value
    | none => p.currentDefault
  | none => p.currentDefault

/-- The value of every prop by its name; of several props with one name the last counts. -/
def Component.project (c : Component) (overrides : Dict Override) : Dict Json :=
  Dict.ofList (c.props.map fun p => (p.name, p.resolve (overrides.get? p.id)))

structure Artifact where
  definitions : List ComponentProp
  values : Dict Json
deriving BEq

namespace Artifact

def empty : Artifact := ⟨[], Dict.empty⟩

/-- The module that the preview imports. -/
def render (a : Artifact) : String :=
  "export const propDefinitions = "
    ++ (Json.array (a.definitions.map ComponentProp.toJson)).pretty
    ++ ";\n\nexport const props = " ++ (Json.ofDict id a.values).pretty ++ ";\n"

end Artifact

/-- The props of a scope as the store has them. -/
def Store.project (s : Store) : Scope → Except ScopeError Artifact
  | .none => .ok Artifact.empty
  | .component id =>
    match s.component? id with
    | some c => .ok ⟨c.props, c.project Dict.empty⟩
    | none => .error (.unknownComponent id)
  | .inst id =>
    match s.element? id with
    | none => .error (.unknownElement id)
    | some e =>
      match e.kind, e.instanceRef with
      | .inst, some componentId =>
        match s.component? componentId with
        | some c => .ok ⟨c.props, c.project ((s.instanceOverrides? id).getD Dict.empty)⟩
        | none => .error (.unknownComponent componentId)
      | _, _ => .error (.notAnInstance id)

/-- The text of an artifact, unless it is the one that was written last. -/
def Artifact.pending? (lastWritten : Option String) (a : Artifact) : Option String :=
  if lastWritten = some a.render then none else some a.render

end DesignSync

import DesignSync.Document.Binding
import DesignSync.Document.Component

/-!
Binding contexts: what member expressions can refer to, looked up by name when markup is read and
by id when it is written.
-/

namespace DesignSync

/-- Something a member expression can refer to. -/
structure BindingTarget where
  kind : RefKind
  id : String
  name : String
  display : Option String
deriving DecidableEq, Repr

structure BindingContext where
  targets : List BindingTarget
deriving DecidableEq, Repr

namespace BindingContext

def empty : BindingContext := ⟨[]⟩

/-- Every prop of a component, shown by its default. -/
def ofComponent (c : Component) : BindingContext :=
  ⟨c.props.map fun p => ⟨.prop, p.id, p.name, p.currentDefault.display?⟩⟩

def add (ctx : BindingContext) (targets : List BindingTarget) : BindingContext :=
  ⟨ctx.targets ++ targets⟩

def byName? (ctx : BindingContext) (kind : RefKind) (name : String) : Option BindingTarget :=
  ctx.targets.find? fun t => t.kind == kind && t.name == name

def byId? (ctx : BindingContext) (kind : RefKind) (id : String) : Option BindingTarget :=
  ctx.targets.find? fun t => t.kind == kind && t.id == id

/-- The member expression for a binding whose target is there. -/
def reference? (ctx : BindingContext) (b : Binding) : Option String :=
  (ctx.byId? b.kind b.refId).map fun t => memberExpression b.kind.space t.name

/-- What the path of a member expression refers to: a space and a name. -/
def resolve? (ctx : BindingContext) (path : List String) : Option BindingTarget :=
  match path with
  | [space, name] => RefKind.ofSpace? space >>= fun kind => ctx.byName? kind name
  | _ => none

def isEmpty (ctx : BindingContext) : Bool := ctx.targets.isEmpty

end BindingContext

end DesignSync

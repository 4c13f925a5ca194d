import DesignSync.Document.Context
import DesignSync.Preview.Artifact

/-!
What is synced: one tree of a document, and what its bindings can refer to.
-/

namespace DesignSync

structure SyncTarget where
  root : String
  moduleName : String
  scope : Scope
  /-- What bindings can refer to besides props. -/
  targets : List BindingTarget
deriving DecidableEq, Repr

namespace SyncTarget

/-- The component whose props are in scope. -/
def component? (t : SyncTarget) (s : Store) : Option Component :=
  match t.scope with
  | .none => none
  | .component id => s.component? id
  | .inst id => (s.element? id).bind (·.instanceRef) >>= s.component?

def bindingContext (t : SyncTarget) (s : Store) : BindingContext :=
  ((t.component? s).elim BindingContext.empty BindingContext.ofComponent).add t.targets

end SyncTarget

end DesignSync

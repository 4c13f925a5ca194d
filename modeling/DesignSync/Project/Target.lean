import DesignSync.Document.Store
import DesignSync.Markup.Name
import DesignSync.Project.Config
import DesignSync.Sync.Target

/-!
Choosing the tree of a document that a command works on.
-/

namespace DesignSync

/-- The elements that are no child of any, in the order of the document. -/
def Store.topLevelIds (s : Store) : List String :=
  let children := s.elements.flatMap (·.children)
  s.ids.filter fun id => !children.contains id

/-- What the caller asks for; the rest follows from the document. -/
structure TargetChoice where
  root : Option String
  moduleName : Option String
  component : Option String
  instanceId : Option String
deriving DecidableEq, Repr

def TargetChoice.any : TargetChoice := ⟨none, none, none, none⟩

inductive TargetError where
  | noElements
  | unknownRoot (id : String)
deriving DecidableEq, Repr

def TargetError.message : TargetError → String
  | noElements => "Snapshot has no elements"
  | unknownRoot id => "Unknown root element: " ++ id

/-- The target of a choice. The root is the first element that is no child; one that is the root of
    a component has the props of that component in scope. -/
def Store.target (s : Store) (choice : TargetChoice) (config : ProjectConfig) :
    Except TargetError SyncTarget :=
  match choice.root.or s.topLevelIds.head? with
  | none => .error .noElements
  | some rootId =>
    match s.element? rootId with
    | none => .error (.unknownRoot rootId)
    | some root =>
      let scope := match choice.component, choice.instanceId with
        | some id, _ => Scope.component id
        | none, some id => .inst id
        | none, none =>
          if root.kind = .component then .component root.ownership.ownerId else .none
      let name := (choice.moduleName.or root.name).getD rootId
      .ok ⟨rootId, Markup.moduleName name, scope, config.targets⟩

end DesignSync

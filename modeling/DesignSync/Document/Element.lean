import DesignSync.Document.Style
import DesignSync.Document.Content

/-!
Design elements. They are kept flat: an element lists the ids of its children, and each has one
owner.
-/

namespace DesignSync

/-- What an element renders as. -/
inductive ElementKind where
  | element
  | inst
  | component
deriving DecidableEq, Repr

namespace ElementKind

def name : ElementKind → String
  | element => "element"
  | inst => "instance"
  | component => "component"

def ofName? : String → Option ElementKind
  | "element" => some element
  | "instance" => some inst
  | "component" => some component
  | _ => none

@[simp] theorem ofName?_name (k : ElementKind) : ofName? k.name = some k := by cases k <;> rfl

end ElementKind

/-- The kind of thing that owns an element. -/
inductive OwnerKind where
  | screen
  | component
  | element
deriving DecidableEq, Repr

namespace OwnerKind

def name : OwnerKind → String
  | screen => "screen"
  | component => "component"
  | element => "element"

def ofName? : String → Option OwnerKind
  | "screen" => some screen
  | "component" => some component
  | "element" => some element
  | _ => none

@[simp] theorem ofName?_name (k : OwnerKind) : ofName? k.name = some k := by cases k <;> rfl

end OwnerKind

/-- The owner of an element. -/
structure Ownership where
  kind : OwnerKind
  ownerId : String
deriving DecidableEq, Repr

/-- The value of a state flag. -/
inductive StateFlag where
  | bool (b : Bool)
  | text (s : String)
deriving DecidableEq, Repr

structure Properties where
  style : Style
  content : Content
  attributes : Dict String
  events : Dict String
  state : Dict StateFlag
  children : List String
deriving BEq

namespace Properties

def empty : Properties :=
  ⟨Style.empty, Content.empty, Dict.empty, Dict.empty, Dict.empty, []⟩

def hasBindings (p : Properties) : Bool := p.style.hasBindings || p.content.binding.isSome

def reconcile (p : Properties) : Properties :=
  { p with style := p.style.reconcile, content := p.content.reconcile }

end Properties

structure Element where
  id : String
  tag : String
  kind : ElementKind
  name : Option String
  ownership : Ownership
  properties : Properties
  /-- The component that an instance renders. -/
  instanceRef : Option String
deriving BEq

namespace Element

def children (e : Element) : List String := e.properties.children

def reconcile (e : Element) : Element := { e with properties := e.properties.reconcile }

/-- The first element of a list with an id. -/
def find? (es : List Element) (id : String) : Option Element := es.find? fun e => e.id == id

/-- A list of elements as a look-up: of a repeated id the last stays. -/
def lastOfEachId (es : List Element) : List Element :=
  (Dict.ofList (es.map fun e => (e.id, e))).values

end Element

/-- Whether a tag never has children or content. -/
def isVoidTag (tag : String) : Bool := tag == "img" || tag == "input"

end DesignSync

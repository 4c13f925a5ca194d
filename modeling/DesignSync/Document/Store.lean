import DesignSync.Document.OwnerIndex
import DesignSync.Document.Patch
import DesignSync.Document.Snapshot
import DesignSync.Document.Subtree

/-!
The document store: elements by their ids, the ids in the order in which they came, the owner index,
components, the overrides of instances, and a revision that moves with every change. An operation on
an id that is not there changes nothing, and so does one that leaves its element equal to what it
was.
-/

namespace DesignSync

structure Store where
  table : Dict Element
  /-- The ids of the elements, in the order in which they came. -/
  ids : List String
  owners : OwnerIndex
  components : Dict Component
  overrides : Dict (Dict Override)
  revision : Nat

namespace Store

def empty : Store := ⟨Dict.empty, [], OwnerIndex.empty, Dict.empty, Dict.empty, 0⟩

instance : Inhabited Store := ⟨empty⟩

/-! ### Queries -/

def element? (s : Store) (id : String) : Option Element := s.table.get? id

/-- The elements in the order in which they came. -/
def elements (s : Store) : List Element := s.ids.filterMap s.element?

def contains (s : Store) (id : String) : Bool := (s.element? id).isSome

def component? (s : Store) (id : String) : Option Component := s.components.get? id

def instanceOverrides? (s : Store) (id : String) : Option (Dict Override) := s.overrides.get? id

def subtree (s : Store) (root : String) : List String := Element.subtree s.elements root

/-! ### Elements -/

/-- Puts an element in the place of the one with its id, or at the end, and keeps the owner index
    in step. -/
def commit (s : Store) (e : Element) : Store :=
  match s.element? e.id with
  | some old =>
    { s with
      table := s.table.insert e.id e
      owners := s.owners.relocate old.ownership e.ownership e.id
      revision := s.revision + 1 }
  | none =>
    { s with
      table := s.table.insert e.id e
      ids := s.ids ++ [e.id]
      owners := s.owners.add e.ownership e.id
      revision := s.revision + 1 }

/-- Changes one element and reconciles it. Tells whether it is another one now. -/
def transact (s : Store) (id : String) (f : Element → Element) : Store × Bool :=
  match s.element? id with
  | none => (s, false)
  | some old =>
    let new := Element.reconcile { f old with id := old.id }
    if new == old then (s, false) else (s.commit new, true)

def transactProperties (s : Store) (id : String) (f : Properties → Properties) : Store × Bool :=
  s.transact id fun e => { e with properties := f e.properties }

/-- Adds an element, or merges it into the one with its id. -/
def addElement (s : Store) (e : Element) : Store × Bool :=
  if s.contains e.id then s.transact e.id (ElementPatch.ofElement e).apply
  else (s.commit e.reconcile, true)

/-- Adds elements one after the other and counts those that changed something. -/
def addElements (s : Store) (es : List Element) : Store × Nat :=
  es.foldl (fun (s, n) e =>
    let (s, changed) := s.addElement e
    (s, if changed then n + 1 else n)) (s, 0)

def updateElement (s : Store) (id : String) (patch : ElementPatch) : Store × Bool :=
  s.transact id patch.apply

/-- Puts an element in the place of the one with its id, or adds it. -/
def replaceElement (s : Store) (e : Element) : Store × Bool :=
  let new := e.reconcile
  if s.element? new.id == some new then (s, false) else (s.commit new, true)

def mergeStyle (s : Store) (id : String) (delta : Style) : Store × Bool :=
  s.transactProperties id fun p => { p with style := p.style.merge delta }

def eraseStyle (s : Store) (id : String) (keys : List String) : Store × Bool :=
  s.transactProperties id fun p => { p with style := p.style.eraseKeys keys }

def setAttributes (s : Store) (id : String) (attributes : Dict String) : Store × Bool :=
  s.transactProperties id fun p => { p with attributes := p.attributes.extend attributes }

def eraseAttributes (s : Store) (id : String) (names : List String) : Store × Bool :=
  s.transactProperties id fun p =>
    { p with attributes := p.attributes.filter fun k _ => !names.contains k }

def mergeContent (s : Store) (id : String) (content : Content) : Store × Bool :=
  s.transactProperties id fun p => { p with content := p.content.merge content }

def eraseContent (s : Store) (id : String) : Store × Bool :=
  s.transactProperties id fun p => { p with content := Content.empty }

/-- Puts bindings in the place of all that the element has. -/
def setBindings (s : Store) (id : String) (bindings : ElementBindings) : Store × Bool :=
  s.transactProperties id bindings.apply

def eraseBindings (s : Store) (id : String) : Store × Bool :=
  s.transactProperties id fun p =>
    { p with
      style := { p.style with bindings := none }
      content := { p.content with binding := none } }

/-- The element without a child. -/
def withoutChild (id : String) (e : Element) : Element :=
  { e with properties := { e.properties with children := e.children.filter (· != id) } }

/-- Removes an element, its overrides, and its id from all lists of children. -/
def removeElement (s : Store) (id : String) : Store × Bool :=
  match s.element? id with
  | none => (s, false)
  | some old =>
    ({ s with
        table := (s.table.erase id).map (withoutChild id)
        ids := s.ids.filter (· != id)
        owners := s.owners.remove old.ownership id
        overrides := s.overrides.erase id
        revision := s.revision + 1 }, true)

/-- Removes all elements, then adds others. Components and overrides stay. -/
def setElements (s : Store) (es : List Element) : Store :=
  (addElements
    { s with
      table := Dict.empty
      ids := []
      owners := OwnerIndex.empty
      revision := s.revision + 1 } es).1

/-! ### Paths of bindings -/

/-- The binding at a place of an element. -/
def binding? (p : Properties) : BindingSlot → Option Binding
  | .style key => p.style.binding? key
  | .content => p.content.binding

/-- Puts another binding at a place that has one. -/
def setBinding (p : Properties) (slot : BindingSlot) (b : Binding) : Properties :=
  match slot with
  | .style key =>
    { p with style := { p.style with bindings := p.style.bindings.map (·.insert key b) } }
  | .content => { p with content := { p.content with binding := some b } }

/-- Writes a traced path, and for content the fallback, into the binding that it belongs to. -/
def recordPath (s : Store) (t : TracedPath) : Store × Bool :=
  match s.element? t.element with
  | none => (s, false)
  | some e =>
    match binding? e.properties t.slot with
    | none => (s, false)
    | some b =>
      let fallback := match t.slot with
        | .content => t.fallback
        | .style _ => b.fallback
      if b.path = some t.path ∧ b.fallback = fallback then (s, false)
      else
        let b' := { b with path := some t.path, fallback := fallback }
        let e' := { e with properties := setBinding e.properties t.slot b' }
        ({ s with table := s.table.insert t.element e' }, true)

/-- Writes traced paths into bindings and counts those that were new. The revision stays: paths
    follow from what the document says. -/
def recordPaths (s : Store) (ts : List TracedPath) : Store × Nat :=
  ts.foldl (fun (s, n) t =>
    let (s, changed) := s.recordPath t
    (s, if changed then n + 1 else n)) (s, 0)

/-! ### Components and overrides -/

/-- Adds a component or puts it in the place of the one with its id. -/
def addComponent (s : Store) (c : Component) : Store × Bool :=
  let new := c.normalize
  if s.component? new.id == some new then (s, false)
  else
    ({ s with components := s.components.insert new.id new, revision := s.revision + 1 }, true)

def removeComponent (s : Store) (id : String) : Store × Bool :=
  if s.components.contains id then
    ({ s with components := s.components.erase id, revision := s.revision + 1 }, true)
  else (s, false)

/-- Replaces the values of one prop. -/
def setPropValues (s : Store) (componentId propId : String) (values : List PropValue) :
    Store × Bool :=
  match s.component? componentId with
  | none => (s, false)
  | some c =>
    match c.alterProp? propId fun p => { p with values := values } with
    | none => (s, false)
    | some c => s.addComponent c

def setOverride (s : Store) (instanceId propId : String) (value : Override) : Store × Bool :=
  let slot := (s.instanceOverrides? instanceId).getD Dict.empty
  if slot.get? propId == some value then (s, false)
  else
    ({ s with
        overrides := s.overrides.insert instanceId (slot.insert propId value)
        revision := s.revision + 1 }, true)

/-- Takes an override away. The entry of the instance stays, also when it becomes empty. -/
def clearOverride (s : Store) (instanceId propId : String) : Store × Bool :=
  match s.instanceOverrides? instanceId with
  | none => (s, false)
  | some slot =>
    if slot.contains propId then
      ({ s with
          overrides := s.overrides.insert instanceId (slot.erase propId)
          revision := s.revision + 1 }, true)
    else (s, false)

/-! ### Snapshots -/

def ofSnapshot (x : Snapshot) : Store :=
  let s := x.components.foldl (fun s c => (s.addComponent c).1) empty
  let s := (s.addElements x.elements).1
  x.overrides.foldl (fun s o => (s.setOverride o.instanceId o.propId o.value).1) s

def snapshot (s : Store) : Snapshot where
  elements := s.elements
  components := s.components.values
  overrides := s.overrides.entries.flatMap fun (instanceId, props) =>
    props.entries.map fun (propId, value) => ⟨instanceId, propId, value⟩

end Store

end DesignSync

import DesignSync.Document.Element

/-!
Partial updates of an element. A field that is absent stays as it is; maps are extended key by
key, and a list of children is replaced as a whole.
-/

namespace DesignSync

structure PropertiesPatch where
  style : Option Style
  content : Option Content
  attributes : Option (Dict String)
  events : Option (Dict String)
  state : Option (Dict StateFlag)
  children : Option (List String)
deriving BEq

structure ElementPatch where
  tag : Option String
  kind : Option ElementKind
  name : Option String
  ownership : Option Ownership
  instanceRef : Option String
  properties : Option PropertiesPatch
deriving BEq

private def extended {α : Type} (d : Dict α) : Option (Dict α) → Dict α
  | some e => d.extend e
  | none => d

/-- Puts a patch over properties, which need not be reconciled afterwards. -/
def PropertiesPatch.apply (patch : PropertiesPatch) (p : Properties) : Properties where
  style := patch.style.elim p.style p.style.merge
  content := patch.content.elim p.content p.content.merge
  attributes := extended p.attributes patch.attributes
  events := extended p.events patch.events
  state := extended p.state patch.state
  children := patch.children.getD p.children

/-- Puts a patch over an element and reconciles the result. -/
def ElementPatch.apply (patch : ElementPatch) (e : Element) : Element :=
  Element.reconcile
    { id := e.id
      tag := patch.tag.getD e.tag
      kind := patch.kind.getD e.kind
      name := patch.name.or e.name
      ownership := patch.ownership.getD e.ownership
      properties := patch.properties.elim e.properties (·.apply e.properties)
      instanceRef := patch.instanceRef.or e.instanceRef }

/-- The patch that merges all of an element. Empty content is left out. -/
def ElementPatch.ofElement (e : Element) : ElementPatch where
  tag := some e.tag
  kind := some e.kind
  name := e.name
  ownership := some e.ownership
  instanceRef := e.instanceRef
  properties := some
    { style := some e.properties.style
      content := if e.properties.content.isEmpty then none else some e.properties.content
      attributes := some e.properties.attributes
      events := some e.properties.events
      state := some e.properties.state
      children := some e.properties.children }

/-- All bindings of an element, to replace the ones it has. -/
structure ElementBindings where
  style : Dict Binding
  content : Option Binding
deriving BEq

/-- Puts bindings in the place of the ones there are. What becomes bound loses its literal. -/
def ElementBindings.apply (b : ElementBindings) (p : Properties) : Properties :=
  { p with
    style :=
      { bindings := some b.style
        literals := p.style.literals.filter fun k _ => !b.style.contains k }
    content := if b.content.isSome then ⟨none, b.content, none⟩
      else { p.content with binding := none } }

end DesignSync

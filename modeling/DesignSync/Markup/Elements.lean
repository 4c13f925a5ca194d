import DesignSync.Document.Context
import DesignSync.Markup.Diagnostic
import DesignSync.Markup.Name
import DesignSync.Markup.Reader

/-!
The elements that a markup tree stands for, each before its children. Member expressions become
bindings to what a context knows under their names.
-/

namespace DesignSync.Markup

open Text

/-- What reading a source gives. -/
structure ReadTree where
  rootId : String
  elements : List Element
  diagnostics : List Diagnostic

def ReadTree.ids (t : ReadTree) : List String := t.elements.map (·.id)

/-- The place of each element by its id. -/
def ReadTree.index (t : ReadTree) : Dict Nat :=
  Dict.ofList (t.elements.zipIdx.map fun x => (x.1.id, x.2))

def ReadTree.element? (t : ReadTree) (id : String) : Option Element :=
  (t.index.get? id).bind fun i => t.elements[i]?

/-- What is carried from one element to the next: how many ids were generated, all ids so far, and
    the findings. -/
structure Progress where
  generated : Nat
  seen : List String
  diagnostics : List Diagnostic

def Progress.start : Progress := ⟨0, [], []⟩

def Progress.report (st : Progress) (d : Diagnostic) : Progress :=
  { st with diagnostics := st.diagnostics ++ [d] }

/-! ### Attributes that say which element this is -/

/-- The value of an attribute that has to be a text. -/
def textOf (a : Attribute) : Except ReadError String :=
  match a.value.text? with
  | some s => .ok s
  | none => .error (.invalid a.span (.attributeNotText a.name))

/-- The value of an attribute if there is one with that name. -/
def attributeText? (h : Head) (name : String) : Except ReadError (Option String) :=
  match h.attribute? name with
  | some a => (textOf a).map some
  | none => .ok none

/-- The id of an element: the one it has, or else a generated one. No id may come twice. -/
def readId (seed : String) (h : Head) (st : Progress) : Except ReadError (String × Progress) := do
  let (id, st) ← match ← attributeText? h idAttribute with
    | some id => pure (id, st)
    | none =>
      let id := freshId seed (st.generated + 1)
      let found := (Finding.generatedId h.tag id).diagnostic (some h.span) (some id)
      pure (id, { st.report found with generated := st.generated + 1 })
  if st.seen.contains id then .error (.invalid h.span (.duplicateId id))
  else .ok (id, { st with seen := id :: st.seen })

def readKind (h : Head) : Except ReadError ElementKind :=
  match h.attribute? kindAttribute with
  | none => .ok .element
  | some a => do
    let value ← textOf a
    match ElementKind.ofName? value with
    | some kind => .ok kind
    | none => .error (.invalid a.span (.unknownKind value))

def readOwnerKind (h : Head) : Except ReadError (Option OwnerKind) :=
  match h.attribute? ownershipAttribute with
  | none => .ok none
  | some a => do
    let value ← textOf a
    match OwnerKind.ofName? value with
    | some kind => .ok (some kind)
    | none => .error (.invalid a.span (.unknownOwner value))

/-- The owner of an element: what its attributes say, or else its parent. -/
def readOwnership (h : Head) (parent : Option String) : Except ReadError Ownership := do
  let kind ← readOwnerKind h
  let componentId ← attributeText? h componentAttribute
  let ownerId ← attributeText? h ownerAttribute
  match kind with
  | some .component =>
    match componentId.or ownerId with
    | some id => .ok ⟨.component, id⟩
    | none => .error (.invalid h.span .componentMissing)
  | some kind =>
    match ownerId.or parent with
    | some id => .ok ⟨kind, id⟩
    | none => .error (.invalid h.span (.ownerMissing kind))
  | none =>
    match parent with
    | some id => .ok ⟨.element, id⟩
    | none => .error (.invalid h.span .ownershipMissing)

/-! ### Properties -/

/-- The source of a member path, in the form in which bindings are written. -/
def pathText (path : List String) : String :=
  match path with
  | [space, name] => memberExpression space name
  | _ => String.intercalate "." path

/-- The finding about a path that a context has no target for. -/
def unresolved (path : List String) (span : Span) (id : String) : Diagnostic :=
  (Finding.unresolvedPath (pathText path)).diagnostic (some span) (some id)

/-- Takes one entry into a style. -/
def readStyleEntry (ctx : BindingContext) (id : String) (span : Span) :
    Style × Progress → String × Expression → Except ReadError (Style × Progress)
  | (style, st), (key, value) =>
    match value with
    | .text s => .ok ({ style with literals := style.literals.insert key (.text s) }, st)
    | .number x => .ok ({ style with literals := style.literals.insert key (.number x) }, st)
    | .member path =>
      match ctx.resolve? path with
      | some t =>
        let b : Binding := ⟨t.kind, t.id, some (pathText path), none⟩
        .ok ({ style with bindings := some (style.bound.insert key b) }, st)
      | none => .ok (style, st.report (unresolved path span id))
    | _ => .error (.invalid span (.styleValue key))

def readStyle (ctx : BindingContext) (id : String) (a : Attribute) (st : Progress) :
    Except ReadError (Style × Progress) :=
  match a.value with
  | .braced ⟨_, .object entries, _⟩ =>
    entries.foldlM (readStyleEntry ctx id a.span) (Style.empty, st)
  | _ => .error (.invalid a.span .styleNotObject)

/-- The value of a state flag. -/
def stateFlagOf? : AttributeValue → Option StateFlag
  | .implicit => some (.bool true)
  | .text s => some (.text s)
  | .braced b =>
    match b.expression with
    | .bool v => some (.bool v)
    | .text s => some (.text s)
    | _ => none

/-- Takes one attribute into the properties. -/
def readProperty (ctx : BindingContext) (id : String) :
    Properties × Progress → Attribute → Except ReadError (Properties × Progress)
  | (p, st), a =>
    if isMetadata a.name then .ok (p, st)
    else if a.name = styleAttribute then
      (readStyle ctx id a st).map fun (style, st) => ({ p with style := style }, st)
    else
      match stateFlag? a.name with
      | some flag =>
        match stateFlagOf? a.value with
        | some value => .ok ({ p with state := p.state.insert flag value }, st)
        | none =>
          .ok (p, st.report ((Finding.stateNotFlag flag).diagnostic (some a.span) (some id)))
      | none =>
        .ok <| match a.value with
          | .implicit => ({ p with attributes := p.attributes.insert a.name "true" }, st)
          | .text s => ({ p with attributes := p.attributes.insert a.name s }, st)
          | .braced b => ({ p with events := p.events.insert a.name (trimmed b.raw) }, st)

/-- An element without its children and its content. -/
def readOpening (ctx : BindingContext) (seed : String) (h : Head) (parent : Option String)
    (st : Progress) : Except ReadError (Element × Progress) := do
  let (id, st) ← readId seed h st
  let kind ← readKind h
  let ownership ← readOwnership h parent
  let name ← attributeText? h nameAttribute
  let instanceRef ← attributeText? h instanceAttribute
  let (properties, st) ← h.attributes.foldlM (readProperty ctx id) (Properties.empty, st)
  return (⟨id, h.tag, kind, name, ownership, properties, instanceRef⟩, st)

/-! ### Children and content -/

/-- What the children of an element say: the ids of its child elements, its content in parts, and
    all elements below it. -/
structure Inside where
  childIds : List String
  texts : List String
  binding : Option Binding
  expression : Option String
  elements : List Element

namespace Inside

def nothing : Inside := ⟨[], [], none, none, []⟩

def content (x : Inside) : Content where
  text := if x.texts.isEmpty then none else some (String.intercalate " " x.texts)
  binding := x.binding
  expression := x.expression

/-- An element with what is inside it, reconciled. -/
def complete (x : Inside) (e : Element) : Element :=
  { e with
    properties :=
      Properties.reconcile { e.properties with children := x.childIds, content := x.content } }

end Inside

/-- What one braced expression among the children adds in front of the rest. -/
def readPart (ctx : BindingContext) (id : String) (b : Braced) (st : Progress) :
    (Inside → Inside) × Progress :=
  if trimmed b.raw = bindingsMark then (fun x => x, st)
  else
    match b.expression with
    | .empty => (fun x => x, st)
    | .text s => (fun x => { x with texts := s :: x.texts }, st)
    | .member path =>
      match ctx.resolve? path with
      | some t =>
        let found : Binding := ⟨t.kind, t.id, some (pathText path), t.display⟩
        (fun x => { x with binding := x.binding.or (some found) }, st)
      | none => (fun x => x, st.report (unresolved path b.span id))
    | _ => (fun x => { x with expression := x.expression.or (some (trimmed b.raw)) }, st)

/-- What is inside an element with an id. Of several bindings, and of several expressions, the last
    one stays. -/
def readInside (ctx : BindingContext) (seed id : String) :
    List Node → Progress → Except ReadError (Inside × Progress)
  | [], st => .ok (Inside.nothing, st)
  | .element head children :: nodes, st => do
    let (opening, st) ← readOpening ctx seed head (some id) st
    let (inner, st) ← readInside ctx seed opening.id children st
    let (x, st) ← readInside ctx seed id nodes st
    return ({ x with
      childIds := opening.id :: x.childIds
      elements := inner.complete opening :: (inner.elements ++ x.elements) }, st)
  | .text s _ :: nodes, st => do
    let (x, st) ← readInside ctx seed id nodes st
    return ({ x with texts := s :: x.texts }, st)
  | .braced b :: nodes, st => do
    let (add, st) := readPart ctx id b st
    let (x, st) ← readInside ctx seed id nodes st
    return (add x, st)

/-- The elements of a tree. The path of its source is the seed of generated ids. -/
def elementsOf (ctx : BindingContext) (path : String) (t : Tree) : Except ReadError ReadTree := do
  let seed := documentId path
  let (root, st) ← readOpening ctx seed t.head none Progress.start
  let (inner, st) ← readInside ctx seed root.id t.children st
  return ⟨root.id, inner.complete root :: inner.elements, st.diagnostics⟩

/-- Reads the source at a path into elements. -/
def read (source path : String) (ctx : BindingContext) : Except ReadError ReadTree :=
  readTree source >>= elementsOf ctx path

/-- The path of a source that has none of its own. -/
def inlinePath : String := "inline.jsx"

end DesignSync.Markup

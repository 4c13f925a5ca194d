import DesignSync.Document.Context
import DesignSync.Document.Subtree
import DesignSync.Markup.Diagnostic
import DesignSync.Markup.Entity
import DesignSync.Markup.Name
import DesignSync.Number.Numeral

/-!
Writing the tree under an element as markup. Everything but children comes in order of its key, so
that equal trees have equal texts. The writer traces the member expressions that it writes and
reports what it has to leave out.
-/

namespace DesignSync.Markup

open Text

/-- Text that was written, with the traces and findings that belong to it. -/
structure Written where
  text : String
  traced : List TracedPath
  diagnostics : List Diagnostic

namespace Written

def nothing : Written := ⟨"", [], []⟩

def ofText (s : String) : Written := ⟨s, [], []⟩

def finding (f : Finding) (element : Option String) : Written :=
  ⟨"", [], [f.diagnostic none element]⟩

instance : Append Written where
  append a b := ⟨a.text ++ b.text, a.traced ++ b.traced, a.diagnostics ++ b.diagnostics⟩

def concat (ws : List Written) : Written := ws.foldr (· ++ ·) nothing

end Written

def indent (depth : Nat) : String := String.ofList (List.replicate (2 * depth) ' ')

def braced (s : String) : String := "\x7b" ++ s ++ "\x7d"

/-- A line at some depth. -/
def line (depth : Nat) (s : String) : String := indent depth ++ s ++ "\n"

/-- An attribute with a string as value, and a space in front. -/
def attributeText (name value : String) : String :=
  " " ++ name ++ "=\"" ++ String.ofList (escape value.toList) ++ "\""

/-! ### Tag headers -/

def metadataText (e : Element) : String :=
  let optional (name : String) (value : Option String) := value.elim "" (attributeText name)
  let owner := match e.ownership.kind with
    | .component => componentAttribute
    | _ => ownerAttribute
  attributeText idAttribute e.id ++ attributeText kindAttribute e.kind.name
    ++ optional instanceAttribute e.instanceRef ++ optional nameAttribute e.name
    ++ attributeText ownershipAttribute e.ownership.kind.name
    ++ attributeText owner e.ownership.ownerId

/-- A state flag, unless its name cannot be written. -/
def writeFlag (id flag : String) (value : StateFlag) : Written :=
  let name := stateMark ++ flag
  if isAttributeName name then
    .ofText <| match value with
      | .bool b => " " ++ name ++ "=" ++ braced (if b then "true" else "false")
      | .text s => attributeText name s
  else .finding (.stateName flag) (some id)

/-- The text for an attribute or event, unless its name cannot be written. -/
def writeNamed (id name text : String) : Written :=
  if !isReserved name && isAttributeName name then .ofText text
  else .finding (.attributeName name) (some id)

/-- An event, unless there is an attribute with its name. -/
def writeEvent (id : String) (attributes : Dict String) (name handler : String) : Written :=
  if attributes.contains name then .finding (.eventClash name) (some id)
  else writeNamed id name (" " ++ name ++ "=" ++ braced handler)

/-- The member expression for a binding. When its target is gone, this is the last one that was
    written for it, if there is any. -/
def reference (ctx : BindingContext) (id : String) (b : Binding) (slot : BindingSlot) :
    Option String × Written :=
  match ctx.reference? b with
  | some path =>
    let fallback := match slot with
      | .content => (ctx.byId? b.kind b.refId).bind (·.display)
      | .style _ => none
    (some path, ⟨"", [⟨id, slot, path, fallback⟩], []⟩)
  | none => (b.path, .finding (.unresolvedBinding b.kind b.refId) (some id))

/-- A style value as it is written. Sizes that are bare numbers get a unit. -/
def literalText (key : String) : Literal → String
  | .number x =>
    if !x.isFinite then Quoted.quoted x.positionalText
    else if isSizeKey key then Quoted.quoted (x.plainText ++ "px")
    else x.plainText
  | .text s =>
    if isSizeKey key && Numeral.isNumeral (trim s.toList) then Quoted.quoted (trimmed s ++ "px")
    else Quoted.quoted s

/-- An entry of a style map, if there is anything to write. -/
def writeEntry (ctx : BindingContext) (id : String) (style : Style) (key : String) :
    Option String × Written :=
  let (value, written) := match style.binding? key with
    | some b => reference ctx id b (.style key)
    | none => ((style.literal? key).map (literalText key), .nothing)
  let name := if isPlainName key.toList then key else Quoted.quoted key
  (value.map fun v => name ++ ": " ++ v, written)

def writeStyle (ctx : BindingContext) (id : String) (style : Style) : Written :=
  let parts := style.keys.map (writeEntry ctx id style)
  let entries := parts.filterMap (·.1)
  let text :=
    if entries.isEmpty then ""
    else
      let body := " " ++ String.intercalate ", " entries ++ " "
      " " ++ styleAttribute ++ "=" ++ braced (braced body)
  .concat (parts.map (·.2)) ++ .ofText text

/-- The header of an element up to, and not with, the sign that ends it. -/
def writeHeader (ctx : BindingContext) (e : Element) : Written :=
  let p := e.properties
  .ofText ("<" ++ e.tag ++ metadataText e)
    ++ .concat (p.state.entries.map fun (flag, value) => writeFlag e.id flag value)
    ++ .concat (p.attributes.entries.map fun (name, value) =>
        writeNamed e.id name (attributeText name value))
    ++ .concat (p.events.entries.map fun (name, handler) =>
        writeEvent e.id p.attributes name handler)
    ++ writeStyle ctx e.id p.style

/-! ### Content and children -/

def writeContent (ctx : BindingContext) (depth : Nat) (e : Element) : Written :=
  let c := e.properties.content
  let bound := match c.binding with
    | some b =>
      let (path, written) := reference ctx e.id b .content
      written ++ .ofText (path.elim "" fun p => line depth (braced p))
    | none => .nothing
  let text := c.text.elim "" fun s =>
    line depth (if needsQuotes s then braced (Quoted.quoted s) else s)
  let expression := c.expression.elim "" fun s => line depth (braced s)
  bound ++ .ofText (text ++ expression)

/-- Whether an element has nothing between an opening and a closing tag. -/
def isBare (e : Element) : Bool :=
  !e.properties.hasBindings && e.properties.content.isEmpty && e.children.isEmpty

/-- An element up to its children; and whether these and a closing tag follow. -/
def writeOpening (ctx : BindingContext) (depth : Nat) (e : Element) : Written × Bool :=
  let header := .ofText (indent depth) ++ writeHeader ctx e
  if isVoidTag e.tag then
    let note := if e.properties.content.isEmpty && e.children.isEmpty then .nothing
      else .finding (.voidContent e.tag) (some e.id)
    (header ++ note ++ .ofText " />\n", false)
  else if isBare e then (header ++ .ofText " />\n", false)
  else
    let mark := if e.properties.hasBindings then line (depth + 1) (braced bindingsMark) else ""
    (header ++ .ofText (">\n" ++ mark) ++ writeContent ctx (depth + 1) e, true)

/-- The ids that were written by some later time. -/
abbrev SeenSince (es : List Element) (seen : List String) :=
  { seen' : List String // Element.unseen es seen' ≤ Element.unseen es seen }

mutual

/-- Writes an element with all below it, given the ids that were written before. One that does not
    exist, or that has been written already, is only reported. -/
def writeElement (ctx : BindingContext) (es : List Element) (seen : List String) (id : String)
    (depth : Nat) : Written × SeenSince es seen :=
  match _hfind : Element.find? es id with
  | none => (.finding (.missingElement id) none, ⟨seen, Nat.le_refl _⟩)
  | some e =>
    if _hseen : seen.contains id then
      (.finding (.cycle id) (some id), ⟨seen, Nat.le_refl _⟩)
    else
      have hless := Element.unseen_cons_lt _hfind (by simpa using _hseen)
      let (opening, isOpen) := writeOpening ctx depth e
      if isOpen then
        let (inner, seen') := writeElements ctx es (id :: seen) e.children (depth + 1)
        (opening ++ inner ++ .ofText (line depth ("</" ++ e.tag ++ ">")),
          ⟨seen', Nat.le_trans seen'.2 (Nat.le_of_lt hless)⟩)
      else (opening, ⟨id :: seen, Nat.le_of_lt hless⟩)
termination_by (Element.unseen es seen, 0)
decreasing_by exact Prod.Lex.left _ _ hless

/-- Writes one element after the other. -/
def writeElements (ctx : BindingContext) (es : List Element) (seen : List String)
    (ids : List String) (depth : Nat) : Written × SeenSince es seen :=
  match ids with
  | [] => (.nothing, ⟨seen, Nat.le_refl _⟩)
  | id :: ids =>
    let (first, seen₁) := writeElement ctx es seen id depth
    let (others, seen₂) := writeElements ctx es seen₁ ids depth
    (first ++ others, ⟨seen₂, Nat.le_trans seen₂.2 seen₁.2⟩)
termination_by (Element.unseen es seen, ids.length + 1)
decreasing_by
  · exact Prod.Lex.right _ (Nat.succ_pos _)
  · exact Prod.Lex.right' _ seen₁.2 (Nat.lt_succ_self _)

end

/-- The tree under an element by itself. -/
def write (ctx : BindingContext) (es : List Element) (root : String) : Written :=
  (writeElement ctx es [] root 0).1

/-- The tree under an element as what a module's function returns. -/
def writeModule (ctx : BindingContext) (es : List Element) (root name : String) : Written :=
  .ofText ("import \x7b props \x7d from \"./props\";\n\nexport default function "
      ++ moduleName name ++ "() \x7b\n" ++ line 1 "return (")
    ++ (writeElement ctx es [] root 2).1
    ++ .ofText (line 1 ");" ++ "\x7d\n")

end DesignSync.Markup

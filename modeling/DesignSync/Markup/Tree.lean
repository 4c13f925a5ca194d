import DesignSync.Markup.Expression

/-!
Markup trees as they are read, with the span of each part in the source.
-/

namespace DesignSync.Markup

open Text

/-- An expression between braces, as it is written and by its shape. -/
structure Braced where
  raw : String
  expression : Expression
  span : Span

inductive AttributeValue where
  /-- No value at all, as in `disabled`. -/
  | implicit
  | text (s : String)
  | braced (b : Braced)

/-- The value as a text, if it is one, also within braces. -/
def AttributeValue.text? : AttributeValue → Option String
  | implicit => none
  | text s => some s
  | braced b =>
    match b.expression with
    | .text s => some s
    | _ => none

structure Attribute where
  name : String
  value : AttributeValue
  span : Span

/-- An element apart from its children. -/
structure Head where
  tag : String
  attributes : List Attribute
  selfClosing : Bool
  span : Span

/-- The first attribute with a name. -/
def Head.attribute? (h : Head) (name : String) : Option Attribute :=
  h.attributes.find? fun a => a.name == name

inductive Node where
  | element (head : Head) (children : List Node)
  | text (value : String) (span : Span)
  | braced (b : Braced)

/-- A whole tree: its root element. -/
structure Tree where
  head : Head
  children : List Node

end DesignSync.Markup

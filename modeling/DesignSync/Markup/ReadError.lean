import DesignSync.Document.Element
import DesignSync.Markup.Token
import DesignSync.Text.Span

/-!
Why a markup source is refused. Each cause has one message.
-/

namespace DesignSync.Markup

open Text

/-- What a reader was looking for. -/
inductive Wanted where
  | element
  | tagName
  | attributeName
  | attributeOrEnd
  | attributeValue
  | textOrExpression
  | symbol (s : Symbol)
  | closingQuote (quote : Char)
  | closingTag (tag : String)
deriving DecidableEq, Repr

def Wanted.text : Wanted → String
  | element => "JSX element"
  | tagName => "tag name"
  | attributeName => "attribute name"
  | attributeOrEnd => "attribute, '/>' or '>'"
  | attributeValue => "attribute value"
  | textOrExpression => "string or \x7bexpression\x7d"
  | symbol s => s.text
  | closingQuote quote => "closing " ++ String.singleton quote
  | closingTag tag => "</" ++ tag ++ ">"

/-- What is wrong with a part of the source whose tokens are right. -/
inductive Fault where
  | spreadAttributes
  | mismatchedTag (opened closed : String)
  | attributeNotText (name : String)
  | duplicateId (id : String)
  | unknownKind (kind : String)
  | unknownOwner (kind : String)
  | componentMissing
  | ownerMissing (kind : OwnerKind)
  | ownershipMissing
  | styleNotObject
  | styleValue (key : String)
deriving DecidableEq, Repr

def Fault.message : Fault → String
  | spreadAttributes => "spread attributes are not supported"
  | mismatchedTag opened closed =>
    "mismatched closing tag: expected </" ++ opened ++ ">, found </" ++ closed ++ ">"
  | attributeNotText name => "attribute '" ++ name ++ "' must be a string"
  | duplicateId id => "duplicate element id '" ++ id ++ "'"
  | unknownKind kind => "unknown kind '" ++ kind ++ "'"
  | unknownOwner kind => "unknown ownership type '" ++ kind ++ "'"
  | componentMissing => "component-owned element requires component-id"
  | ownerMissing kind => kind.name ++ "-owned element requires owner-id"
  | ownershipMissing => "root element requires ownership-type"
  | styleNotObject => "style must be an object literal"
  | styleValue key => "unsupported value for style property '" ++ key ++ "'"

inductive ReadError where
  /-- A token other than the wanted one; none where the source ends. -/
  | unexpected (span : Span) (wanted : Wanted) (found : Option Token)
  | endOfInput (wanted : Wanted)
  | invalid (span : Span) (fault : Fault)
  /-- A part of the source that is no token. -/
  | noToken (span : Span)
  | missingRoot
deriving DecidableEq, Repr

namespace ReadError

private def foundText : Option Token → String
  | some t => t.describe
  | none => "end of input"

def message : ReadError → String
  | unexpected span wanted found =>
    "Unexpected token at " ++ span.text ++ ": expected " ++ wanted.text ++ ", found "
      ++ foundText found
  | endOfInput wanted => "Unexpected end of input: expected " ++ wanted.text
  | invalid span fault => "Invalid syntax at " ++ span.text ++ ": " ++ fault.message
  | noToken span => "Lexer error at " ++ span.text
  | missingRoot => "No returned root element found"

def span? : ReadError → Option Span
  | unexpected span _ _ => some span
  | invalid span _ => some span
  | noToken span => some span
  | endOfInput _ => none
  | missingRoot => none

/-- The note that a report puts under the place of the error. -/
def label : ReadError → String
  | unexpected _ wanted _ => "expected " ++ wanted.text
  | endOfInput wanted => "expected " ++ wanted.text
  | invalid _ fault => fault.message
  | noToken _ => "unrecognized input"
  | missingRoot => "expected `return (<element ...>)`"

end ReadError

end DesignSync.Markup

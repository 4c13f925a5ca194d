import DesignSync.Number.Decimal
import DesignSync.Text.Shown
import DesignSync.Text.Span

/-!
What is wrong with a JSON text, and where. A fault is noticed at a byte of the text and is told with
the line of that byte and how many bytes of the line are in front of it.
-/

namespace DesignSync.Json

open Text

/-- What a text has where something else is wanted. -/
inductive Found where
  | null
  | bool (b : Bool)
  | integer (n : Int)
  | float (x : Binary64)
  | string (s : String)
  | array
  | object
deriving DecidableEq

namespace Found

def text : Found → String
  | null => "null"
  | bool b => "boolean \x60" ++ (if b then "true" else "false") ++ "\x60"
  | integer n => "integer \x60" ++ toString n ++ "\x60"
  | float x => "floating point \x60" ++ x.jsonText ++ "\x60"
  | string s => "string " ++ shown s
  | array => "sequence"
  | object => "map"

end Found

inductive Flaw where
  | endInArray
  | endInObject
  | endInString
  | endInValue
  | noColon
  | noCommaInArray
  | noCommaInObject
  | noValue
  | brokenWord
  | brokenNumber
  | brokenEscape
  | controlCharacter
  /-- A surrogate that is not followed by another. -/
  | unpaired
  /-- A second surrogate, or a first one that is followed by none of the second kind. -/
  | mispaired
  | tooGreat
  | keyNoString
  | commaAtEnd
  | moreBehind
  | wrongKind (found : Found) (wanted : String)
  | outOfRange (n : Int) (wanted : String)
  | unknownName (name : String) (names : List String)
  | repeatedField (name : String)
  | missingField (name : String)
  | tooShort (size : Nat) (wanted : String)
deriving DecidableEq

namespace Flaw

def text : Flaw → String
  | endInArray => "EOF while parsing a list"
  | endInObject => "EOF while parsing an object"
  | endInString => "EOF while parsing a string"
  | endInValue => "EOF while parsing a value"
  | noColon => "expected \x60:\x60"
  | noCommaInArray => "expected \x60,\x60 or \x60]\x60"
  | noCommaInObject => "expected \x60,\x60 or \x60\x7d\x60"
  | noValue => "expected value"
  | brokenWord => "expected ident"
  | brokenNumber => "invalid number"
  | brokenEscape => "invalid escape"
  | controlCharacter =>
    "control character (\\u0000-\\u001F) found while parsing a string"
  | unpaired => "unexpected end of hex escape"
  | mispaired => "lone leading surrogate in hex escape"
  | tooGreat => "number out of range"
  | keyNoString => "key must be a string"
  | commaAtEnd => "trailing comma"
  | moreBehind => "trailing characters"
  | wrongKind found wanted => "invalid type: " ++ found.text ++ ", expected " ++ wanted
  | outOfRange n wanted => "invalid value: " ++ (Found.integer n).text ++ ", expected " ++ wanted
  | unknownName name names =>
    "unknown variant \x60" ++ name ++ "\x60, expected one of "
      ++ ", ".intercalate (names.map fun name => "\x60" ++ name ++ "\x60")
  | repeatedField name => "duplicate field \x60" ++ name ++ "\x60"
  | missingField name => "missing field \x60" ++ name ++ "\x60"
  | tooShort size wanted => "invalid length " ++ toString size ++ ", expected " ++ wanted

end Flaw

/-- A flaw, and how many bytes are in front of the place where it is noticed. -/
structure Fault where
  flaw : Flaw
  offset : Nat
deriving DecidableEq

namespace Fault

/-- The number of the line that the byte behind some others is in, and how many of these others are
    in that line. -/
def lineAndColumn (source : String) (offset : Nat) : Nat × Nat :=
  let front := takeBytes offset source.toList
  let line := front.reverse.takeWhile (· != '\n')
  (1 + front.count '\n', offset - width (front.take (front.length - line.length)))

def message (source : String) (f : Fault) : String :=
  let (line, column) := lineAndColumn source f.offset
  f.flaw.text ++ " at line " ++ toString line ++ " column " ++ toString column

end Fault

end DesignSync.Json

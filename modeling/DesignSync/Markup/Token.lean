import DesignSync.Document.Binding

/-!
Tokens of markup: those of tag headers, of braced expressions and of the module around them.
-/

namespace DesignSync.Markup

inductive Keyword where
  | importWord
  | fromWord
  | exportWord
  | defaultWord
  | functionWord
  | returnWord
  | trueWord
  | falseWord
deriving DecidableEq, Repr

namespace Keyword

def text : Keyword → String
  | importWord => "import"
  | fromWord => "from"
  | exportWord => "export"
  | defaultWord => "default"
  | functionWord => "function"
  | returnWord => "return"
  | trueWord => "true"
  | falseWord => "false"

def ofText? : String → Option Keyword
  | "import" => some importWord
  | "from" => some fromWord
  | "export" => some exportWord
  | "default" => some defaultWord
  | "function" => some functionWord
  | "return" => some returnWord
  | "true" => some trueWord
  | "false" => some falseWord
  | _ => none

end Keyword

inductive Symbol where
  | leftBrace
  | rightBrace
  | leftParen
  | rightParen
  | leftBracket
  | rightBracket
  | leftAngle
  | rightAngle
  | slash
  | equals
  | colon
  | semicolon
  | comma
  | dot
  | minus
deriving DecidableEq, Repr

namespace Symbol

def char : Symbol → Char
  | leftBrace => '{'
  | rightBrace => '}'
  | leftParen => '('
  | rightParen => ')'
  | leftBracket => '['
  | rightBracket => ']'
  | leftAngle => '<'
  | rightAngle => '>'
  | slash => '/'
  | equals => '='
  | colon => ':'
  | semicolon => ';'
  | comma => ','
  | dot => '.'
  | minus => '-'

def ofChar? : Char → Option Symbol
  | '{' => some leftBrace
  | '}' => some rightBrace
  | '(' => some leftParen
  | ')' => some rightParen
  | '[' => some leftBracket
  | ']' => some rightBracket
  | '<' => some leftAngle
  | '>' => some rightAngle
  | '/' => some slash
  | '=' => some equals
  | ':' => some colon
  | ';' => some semicolon
  | ',' => some comma
  | '.' => some dot
  | '-' => some minus
  | _ => none

def text (s : Symbol) : String := String.singleton s.char

end Symbol

inductive Token where
  | keyword (k : Keyword)
  | identifier (name : String)
  /-- A string with its quotes as it is written. -/
  | doubleQuoted (literal : String)
  | singleQuoted (literal : String)
  | number (digits : String)
  | symbol (s : Symbol)
  /-- A character that markup itself has no use for but expressions may. -/
  | operator (c : Char)
deriving DecidableEq, Repr

namespace Token

/-- The text of a token that can stand as a name. -/
def name? : Token → Option String
  | keyword k => some k.text
  | identifier name => some name
  | _ => none

/-- A token as messages describe it. -/
def describe : Token → String
  | keyword k => k.text
  | identifier name => "identifier '" ++ name ++ "'"
  | doubleQuoted literal => "string " ++ literal
  | singleQuoted literal => "string " ++ literal
  | number digits => "number " ++ digits
  | symbol s => s.text
  | operator c => String.singleton c

end Token

def isOperator (c : Char) : Bool :=
  ['+', '*', '%', '!', '?', '&', '|', '^', '~', '@', '#', '\x60'].contains c

end DesignSync.Markup

import DesignSync.Markup.Lexer
import DesignSync.Text.Blank
import DesignSync.Text.Quoted

/-!
Braced expressions by their shape. Literals, names, member chains and object literals are
understood; everything else is kept as it is written, so that classifying never fails.
-/

namespace DesignSync.Markup

open Text

inductive Expression where
  /-- Nothing, or only comments. -/
  | empty
  | bool (b : Bool)
  | text (s : String)
  | number (x : Binary64)
  | identifier (name : String)
  /-- A chain such as `props.label` or `props["Button label"]`. -/
  | member (path : List String)
  /-- An object literal with its entries in order. -/
  | object (entries : List (String × Expression))
  | verbatim (source : String)

/-- The characters of a string without its quotes: one byte at each end is dropped, and nothing is
    left of a text where that would cut a character. -/
def withoutQuotes : List Char → List Char
  | [] => []
  | c :: cs => if c.utf8Size = 1 ∧ cs.getLast?.any (·.utf8Size == 1) then cs.dropLast else []

/-- Takes the backslashes out: `n`, `t` and `r` behind one stand for control characters, any other
    character for itself, and a backslash at the end for nothing. -/
def dropBackslashes : List Char → List Char
  | [] => []
  | ['\\'] => []
  | '\\' :: c :: cs =>
    (if c = 'n' then '\n' else if c = 't' then '\t' else if c = 'r' then '\r' else c)
      :: dropBackslashes cs
  | c :: cs => c :: dropBackslashes cs

/-- The value of a string token: what its JSON form says, if it is one, and else what is left
    without quotes and backslashes. -/
def unquote (literal : String) : String :=
  let cs := literal.toList
  let asJson := match cs with
    | '"' :: rest =>
      (Quoted.decode? rest).bind fun (s, rest) =>
        if (rest.all fun c => c == ' ' || c == '\n' || c == '\t' || c == '\r') then some s else none
    | _ => none
  String.ofList (asJson.getD (dropBackslashes (withoutQuotes cs)))

namespace Expression

/-- The value of a token that is a string. -/
def string? : Token → Option String
  | .doubleQuoted s => some (unquote s)
  | .singleQuoted s => some (unquote s)
  | _ => none

/-- Reads what follows the head of a member chain: names behind points and strings in brackets. -/
def readPath : List (Lexed Token) → Option (List String × List (Lexed Token))
  | ⟨.symbol .dot, _, _⟩ :: ts =>
    match ts with
    | t :: ts => do
      let name ← t.token.name?
      let (path, rest) ← readPath ts
      return (name :: path, rest)
    | [] => none
  | ⟨.symbol .leftBracket, _, _⟩ :: ts =>
    match ts with
    | t :: ⟨.symbol .rightBracket, _, _⟩ :: ts => do
      let name ← string? t.token
      let (path, rest) ← readPath ts
      return (name :: path, rest)
    | _ => none
  | ts => some ([], ts)

/-- A name, or a member chain that starts with it. A name with a dash is neither. -/
def readChain (head : String) (ts : List (Lexed Token)) :
    Option (Expression × List (Lexed Token)) := do
  let (path, rest) ← readPath ts
  if path.isEmpty then
    if head.toList.contains '-' then none else return (identifier head, rest)
  else return (member (head :: path), rest)

/-- How many tokens an entry takes, brackets and all, up to the comma or brace behind it. -/
def entrySize (depth : Nat) : List (Lexed Token) → Nat
  | [] => 0
  | t :: ts =>
    match t.token with
    | .symbol .leftBrace | .symbol .leftParen | .symbol .leftBracket => entrySize (depth + 1) ts + 1
    | .symbol .rightParen | .symbol .rightBracket => entrySize (depth - 1) ts + 1
    | .symbol .rightBrace => if depth = 0 then 0 else entrySize (depth - 1) ts + 1
    | .symbol .comma => if depth = 0 then 0 else entrySize depth ts + 1
    | _ => entrySize depth ts + 1

/-- The tokens of an entry that has no simple shape, as they are written. There has to be one. -/
def readVerbatim (ts : List (Lexed Token)) : Option (Expression × List (Lexed Token)) :=
  let size := entrySize 0 ts
  match ts.head?, (ts.take size).getLast? with
  | some first, some last => some (verbatim (first.start.textTo last.stop), ts.drop size)
  | _, _ => none

/-- Whether an entry of an object literal ends here. -/
def atEntryEnd : List (Lexed Token) → Bool
  | ⟨.symbol .comma, _, _⟩ :: _ => true
  | ⟨.symbol .rightBrace, _, _⟩ :: _ => true
  | _ => false

mutual

/-- Reads one value. A value and its parts have fewer tokens each than what they are read from, so
    that as many steps as there are tokens are always enough. -/
def readValue : Nat → List (Lexed Token) → Option (Expression × List (Lexed Token))
  | steps + 1, t :: ts =>
    match t.token with
    | .doubleQuoted s => some (text (unquote s), ts)
    | .singleQuoted s => some (text (unquote s), ts)
    | .number n => some (number (Numeral.read n.toList), ts)
    | .symbol .minus =>
      match ts with
      | ⟨.number n, _, _⟩ :: ts => some (number (Numeral.read n.toList).neg, ts)
      | _ => none
    | .keyword .trueWord => some (bool true, ts)
    | .keyword .falseWord => some (bool false, ts)
    | .symbol .leftBrace =>
      (readEntries steps ts).map fun (entries, rest) => (object entries, rest)
    | .identifier head => readChain head ts
    | _ => none
  | _, _ => none

/-- Reads entries of an object literal up to its closing brace. A comma may stand before that. -/
def readEntries :
    Nat → List (Lexed Token) → Option (List (String × Expression) × List (Lexed Token))
  | _, ⟨.symbol .rightBrace, _, _⟩ :: rest => some ([], rest)
  | steps + 1, k :: ⟨.symbol .colon, _, _⟩ :: body =>
    let simple := (readValue steps body).filter fun (_, rest) => atEntryEnd rest
    match (string? k.token).or k.token.name?, simple.or (readVerbatim body) with
    | some key, some (value, ⟨.symbol .comma, _, _⟩ :: rest) =>
      (readEntries steps rest).map fun (entries, rest) => ((key, value) :: entries, rest)
    | some key, some (value, ⟨.symbol .rightBrace, _, _⟩ :: rest) => some ([(key, value)], rest)
    | _, _ => none
  | _, _ => none

end

/-- The shape of what stands between two braces. -/
def classify (raw : String) : Expression :=
  let source := trim raw.toList
  match tokens? source with
  | none => verbatim (String.ofList source)
  | some [] => empty
  | some ts =>
    match readValue ts.length ts with
    | some (e, []) => e
    | _ => verbatim (String.ofList source)

def path? : Expression → Option (List String)
  | member path => some path
  | _ => none

end Expression

end DesignSync.Markup

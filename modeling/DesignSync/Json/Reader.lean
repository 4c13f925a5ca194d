import DesignSync.Json.Grammar

/-!
Reading JSON text. A reader takes the characters from a place on and gives a value and the
characters behind it.
-/

namespace DesignSync.Json

open Text

def skipSpace (cs : List Char) : List Char := cs.dropWhile isSpace

/-- One or more items with commas between them, up to a closing character; no more than `limit`. -/
def readList {α : Type} (item : List Char → Option (α × List Char)) (close : Char) :
    Nat → List Char → Option (List α × List Char)
  | 0, _ => none
  | limit + 1, cs =>
    match item cs with
    | none => none
    | some (x, rest) =>
      match skipSpace rest with
      | c :: rest =>
        if c = close then some ([x], rest)
        else if c = ',' then
          (readList item close limit rest).map fun (xs, rest) => (x :: xs, rest)
        else none
      | [] => none

/-- Items with commas between them up to a closing character, or none at all. -/
def readSequence {α : Type} (item : List Char → Option (α × List Char)) (close : Char)
    (limit : Nat) (cs : List Char) : Option (List α × List Char) :=
  match skipSpace cs with
  | c :: rest => if c = close then some ([], rest) else readList item close limit (c :: rest)
  | [] => none

/-- A string from behind its quote on, and nothing in its place if it has half of a surrogate
    pair. -/
def readText (cs : List Char) : Option (Option String × List Char) :=
  match Quoted.decode? cs with
  | some (s, rest) => some (some (String.ofList s), rest)
  | none => (passString false (Place.start cs)).toOption.map fun p => (none, p.rest)

def readMember (value : List Char → Option (Json × List Char)) (cs : List Char) :
    Option ((Option String × Json) × List Char) := do
  match skipSpace cs with
  | '"' :: rest =>
    let (key, rest) ← readText rest
    match skipSpace rest with
    | ':' :: rest =>
      let (j, rest) ← value rest
      return ((key, j), rest)
    | _ => none
  | _ => none

/-- The object with some members, which is unfit if one of its keys is. -/
def ofRead (members : List (Option String × Json)) : Json :=
  match members.mapM fun m => m.1.map fun key => (key, m.2) with
  | some ms => object ms
  | none => unfit

/-- A value that is not taken in. -/
def passedOver (cs : List Char) : Option (Json × List Char) :=
  (passValue (Place.start cs)).toOption.map fun p => (unfit, p.rest)

/-- A value in which arrays and objects have at most `limit` items. Where they are nested more than
    `depth` deep they are unfit. -/
def readValue (limit depth : Nat) (cs : List Char) : Option (Json × List Char) :=
  match skipSpace cs with
  | 'n' :: 'u' :: 'l' :: 'l' :: rest => some (null, rest)
  | 't' :: 'r' :: 'u' :: 'e' :: rest => some (bool true, rest)
  | 'f' :: 'a' :: 'l' :: 's' :: 'e' :: rest => some (bool false, rest)
  | '"' :: rest => (readText rest).map fun (s, rest) => (s.elim unfit string, rest)
  | '[' :: rest =>
    match depth with
    | 0 => passedOver ('[' :: rest)
    | depth + 1 =>
      (readSequence (readValue limit depth) ']' limit rest).map fun (js, rest) => (array js, rest)
  | '{' :: rest =>
    match depth with
    | 0 => passedOver ('{' :: rest)
    | depth + 1 =>
      (readSequence (readMember (readValue limit depth)) '}' limit rest).map fun (ms, rest) =>
        (ofRead ms, rest)
  | rest => readNumber rest

/-- How deep arrays and objects may be nested in a text. -/
def maxDepth : Nat := 127

/-- A whole text as one value, every member of its objects kept. A text has more characters than any
    of its arrays and objects has items. -/
def read (text : String) : Option Json :=
  let cs := text.toList
  match readValue cs.length maxDepth cs with
  | some (j, rest) => if (skipSpace rest).isEmpty then some j else none
  | none => none

end DesignSync.Json

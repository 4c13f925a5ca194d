import DesignSync.Json.Value
import DesignSync.Number.Decimal
import DesignSync.Text.Quoted

/-!
Writing JSON text, without any space or with one member or item a line. Every function writes in
front of the text that comes after, so that a character is written once however deep it stands.
-/

namespace DesignSync.Json

open Text

/-- The text of a value that is no array and no object. What is unfit is written like null. -/
def scalarText : Json → List Char
  | null => "null".toList
  | bool b => (if b then "true" else "false").toList
  | integer n => (toString n).toList
  | float x => x.jsonText.toList
  | string s => Quoted.encode s.toList
  | array _ => []
  | object _ => []
  | unfit => "null".toList

mutual

/-- The text of a value without any space, in front of the text `after`. -/
def compactBefore (after : List Char) : Json → List Char
  | array items => '[' :: compactItems (']' :: after) items
  | object members => '{' :: compactMembers ('}' :: after) members
  | j => scalarText j ++ after

def compactItems (after : List Char) : List Json → List Char
  | [] => after
  | [j] => compactBefore after j
  | j :: js => compactBefore (',' :: compactItems after js) j

def compactMembers (after : List Char) : List (String × Json) → List Char
  | [] => after
  | [(k, j)] => Quoted.encode k.toList ++ ':' :: compactBefore after j
  | (k, j) :: ms =>
    Quoted.encode k.toList ++ ':' :: compactBefore (',' :: compactMembers after ms) j

end

/-- A line feed and two spaces for each level, in front of the text `after`. -/
def newLine (level : Nat) (after : List Char) : List Char :=
  '\n' :: (List.replicate (2 * level) ' ' ++ after)

mutual

/-- The text of a value that stands `level` levels deep, in front of the text `after`. Empty
    arrays and objects stay on one line. -/
def prettyBefore (level : Nat) (after : List Char) : Json → List Char
  | array [] => '[' :: ']' :: after
  | array items =>
    '[' :: newLine (level + 1) (prettyItems (level + 1) (newLine level (']' :: after)) items)
  | object [] => '{' :: '}' :: after
  | object members =>
    '{' :: newLine (level + 1) (prettyMembers (level + 1) (newLine level ('}' :: after)) members)
  | j => scalarText j ++ after

def prettyItems (level : Nat) (after : List Char) : List Json → List Char
  | [] => after
  | [j] => prettyBefore level after j
  | j :: js => prettyBefore level (',' :: newLine level (prettyItems level after js)) j

def prettyMembers (level : Nat) (after : List Char) : List (String × Json) → List Char
  | [] => after
  | [(k, j)] => Quoted.encode k.toList ++ ':' :: ' ' :: prettyBefore level after j
  | (k, j) :: ms =>
    Quoted.encode k.toList ++ ':' :: ' ' ::
      prettyBefore level (',' :: newLine level (prettyMembers level after ms)) j

end

def compact (j : Json) : String := String.ofList (compactBefore [] j)

def pretty (j : Json) : String := String.ofList (prettyBefore 0 [] j)

end DesignSync.Json

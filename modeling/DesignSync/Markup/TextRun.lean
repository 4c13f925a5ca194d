import DesignSync.Text.Blank

/-!
Text between tags. Lines lose the blanks where they meet, empty ones are dropped, and single spaces
join the rest.
-/

namespace DesignSync.Markup

open Text

def isLineBlank (c : Char) : Bool := c == ' ' || c == '\t' || c == '\r'

/-- The lines behind the first one: each loses its blanks in front, and all but the last one those
    at its end. -/
def innerLines : List (List Char) → List (List Char)
  | [] => []
  | [line] => [line.dropWhile isLineBlank]
  | line :: lines => dropEndWhile isLineBlank (line.dropWhile isLineBlank) :: innerLines lines

/-- The lines of a text run without blanks where they meet. -/
def runLines : List (List Char) → List (List Char)
  | [] => []
  | [line] => [line]
  | line :: lines => dropEndWhile isLineBlank line :: innerLines lines

/-- The text that a run between two tags stands for. -/
def runText (cs : List Char) : List Char :=
  let lines := (runLines (splitWhere (· == '\n') cs)).filter fun line => !line.isEmpty
  List.intercalate [' '] lines

end DesignSync.Markup

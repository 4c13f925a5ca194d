/-!
Blank characters (the Unicode property White_Space) and the three things done with them: trimming,
splitting a text into words, and joining the words again by single spaces.
-/

namespace DesignSync.Text

/-- The characters of the property White_Space. -/
def isBlank (c : Char) : Bool :=
  let n := c.toNat
  (0x09 ≤ n && n ≤ 0x0D) || n == 0x20 || n == 0x85 || n == 0xA0 || n == 0x1680
    || (0x2000 ≤ n && n ≤ 0x200A) || n == 0x2028 || n == 0x2029 || n == 0x202F || n == 0x205F
    || n == 0x3000

/-- Drops the longest run of characters with `p` at the end of a list. -/
def dropEndWhile (p : Char → Bool) (cs : List Char) : List Char :=
  (cs.reverse.dropWhile p).reverse

def trimStart (cs : List Char) : List Char := cs.dropWhile isBlank

def trimEnd (cs : List Char) : List Char := dropEndWhile isBlank cs

def trim (cs : List Char) : List Char := trimEnd (trimStart cs)

/-- A text without the blanks at its two ends. -/
def trimmed (s : String) : String := String.ofList (trim s.toList)

/-- Splits at every character with `p`; the pieces may be empty. -/
def splitWhere (p : Char → Bool) : List Char → List (List Char)
  | [] => [[]]
  | c :: cs =>
    match splitWhere p cs with
    | [] => [[c]]
    | piece :: pieces => if p c then [] :: piece :: pieces else (c :: piece) :: pieces

/-- The maximal runs of characters that are not blank. -/
def words (cs : List Char) : List (List Char) :=
  (splitWhere isBlank cs).filter (fun w => !w.isEmpty)

/-- The words of a text with one space between neighbours. Two texts that differ only in how long
    their runs of blanks are have the same collapsed text. -/
def collapsed (s : String) : String :=
  String.ofList (List.intercalate [' '] (words s.toList))

/-- Drops one carriage return at the end of a line. -/
def withoutReturn (line : List Char) : List Char :=
  if line.getLast? = some '\r' then line.dropLast else line

/-- The lines of a text: each ends at a line feed, which is dropped together with a carriage return
    before it; an empty rest behind the last line feed is no line. -/
def lines (s : String) : List String :=
  match (splitWhere (· == '\n') s.toList).reverse with
  | [] => []
  | last :: ended =>
    ((ended.map withoutReturn).reverse ++ if last.isEmpty then [] else [last]).map String.ofList

end DesignSync.Text

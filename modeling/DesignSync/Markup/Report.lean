import DesignSync.Markup.ReadError
import DesignSync.Text.Blank
import DesignSync.Text.Span

/-!
Reports of read errors: the line of the source with a mark under the place, and a note below it.
-/

namespace DesignSync.Markup.Report

open Text

/-- The characters that end a line. -/
def isLineEnd (c : Char) : Bool :=
  let n := c.toNat
  (0x0A ≤ n && n ≤ 0x0D) || n == 0x85 || n == 0x2028 || n == 0x2029

/-- How many lines end in a text; a line feed belongs to the carriage return before it. -/
def lineEnds : List Char → Nat
  | [] => 0
  | '\r' :: '\n' :: cs => lineEnds cs + 1
  | c :: cs => lineEnds cs + if isLineEnd c then 1 else 0

/-- The line around a byte offset: its number, its text without the blanks at its end, and the
    column of the offset in it, which may lie behind that text. -/
def lineAt (source : String) (offset : Nat) : Nat × List Char × Nat :=
  let cs := source.toList
  let front := takeBytes offset cs
  let column := (front.reverse.takeWhile fun c => !isLineEnd c).length
  let start := cs.drop (front.length - column)
  (lineEnds front + 1, trimEnd (start.takeWhile fun c => !isLineEnd c), column)

/-- Tabs end at multiples of this width. -/
def tabWidth : Nat := 4

/-- How wide the character in a column is shown. -/
def cellWidth (line : List Char) (column : Nat) : Nat :=
  if line.getD column ' ' = '\t' then tabWidth - column % tabWidth else 1

/-- A character for each of some columns, and the one that fills a wide column up behind it. -/
def cells (line : List Char) (columns : Nat) (cell : Nat → Char × Char) : String :=
  String.ofList <| (List.range columns).flatMap fun column =>
    let (c, fill) := cell column
    c :: List.replicate (cellWidth line column - 1) fill

/-- The line itself, with a space for every blank. -/
def lineText (line : List Char) : String :=
  cells line line.length fun column =>
    let c := line.getD column ' '
    if isBlank c then (' ', ' ') else (c, c)

/-- The mark under `length` columns from `column` on, with a foot in the middle. -/
def markText (line : List Char) (column length : Nat) : String :=
  let middle := column + length / 2
  cells line (column + length + 2) fun i =>
    if i = middle then if length = 0 then ('│', ' ') else ('┬', '─')
    else if column ≤ i ∧ i < column + length then ('─', '─')
    else (' ', ' ')

/-- The line from the foot of the mark to the note. -/
def noteText (line : List Char) (column length : Nat) (note : String) : String :=
  let middle := column + length / 2
  let arm := cells line (column + length + 2) fun i =>
    if i < middle then (' ', ' ') else if i = middle then ('╰', '─') else ('─', '─')
  arm ++ " " ++ note

/-- The lines that show a place of the source at a path, with a note. -/
def frame (source path : String) (span : Span) (note : String) : List String :=
  let (number, line, column) := lineAt source span.start
  let length := span.stop - span.start
  let label := toString number
  let margin := String.ofList (List.replicate (label.length + 2) ' ')
  [ margin ++ "╭─[" ++ path ++ ":" ++ label ++ ":" ++ toString (column + 1) ++ "]",
    margin ++ "│",
    " " ++ label ++ " │ " ++ lineText line,
    margin ++ "│ " ++ markText line column length,
    margin ++ "│ " ++ noteText line column length note,
    String.ofList (List.replicate (label.length + 2) '─') ++ "╯" ]

/-- The report of an error in the source at a path. An error without a place of its own is shown
    at the last byte; an empty source has nothing to show. -/
def render (source path : String) (error : ReadError) : String :=
  let size := source.utf8ByteSize
  let rows :=
    if source.isEmpty then []
    else frame source path (error.span?.getD ⟨size - 1, size⟩) error.label
  String.join ((("Error: " ++ error.message) :: rows).map (· ++ "\n"))

end DesignSync.Markup.Report

import DesignSync.Markup.Token
import DesignSync.Number.Numeral
import DesignSync.Text.Span

/-!
Finding the next token of a text. Blanks and comments before it are skipped. Each kind of token has
a function that says how many characters it takes. Of a text that starts with no token the lexer
gives the part at which it gave up.
-/

namespace DesignSync.Markup

open Text

/-- How many characters a run of characters with `p` takes. -/
def runSize (p : Char → Bool) (cs : List Char) : Nat := (cs.takeWhile p).length

/-- How many characters a block comment takes behind its start. Behind a star any character but a
    slash is passed over together with it. -/
def commentSize? : List Char → Option Nat
  | [] => none
  | '*' :: '/' :: _ => some 2
  | ['*'] => none
  | '*' :: _ :: cs => (commentSize? cs).map (· + 2)
  | _ :: cs => (commentSize? cs).map (· + 1)

/-- How many characters a block comment without an end takes behind its start: all of them, but not
    a star that is the last one. -/
def openCommentSize : List Char → Nat
  | [] => 0
  | ['*'] => 0
  | '*' :: _ :: cs => openCommentSize cs + 2
  | _ :: cs => openCommentSize cs + 1

def isLexerBlank (c : Char) : Bool := c == ' ' || c == '\t' || c == '\n' || c == '\r'

/-- How many characters are blanks, comments up to the end of a line, and block comments that are
    closed. -/
def triviaSize (cs : List Char) : Nat :=
  match cs with
  | [] => 0
  | '/' :: '/' :: rest =>
    let size := runSize (· != '\n') rest
    2 + size + triviaSize (rest.drop size)
  | '/' :: '*' :: rest =>
    match commentSize? rest with
    | some size => 2 + size + triviaSize (rest.drop size)
    | none => 0
  | c :: rest => if isLexerBlank c then 1 + triviaSize rest else 0
termination_by cs.length
decreasing_by
  all_goals simp
  all_goals omega

/-- How many characters the dashed parts of an identifier take: each is a dash and some name
    characters. -/
def dashedSize (cs : List Char) : Nat :=
  match cs with
  | '-' :: c :: rest =>
    if isNameChar c then
      let size := runSize isNameChar rest
      2 + size + dashedSize (rest.drop size)
    else 0
  | _ => 0
termination_by cs.length
decreasing_by
  simp
  omega

/-- Whether a string is closed, and how many characters it takes behind its first quote: up to its
    last quote, or to the place where reading stops, which is a line feed or a backslash that
    escapes nothing. -/
def stringSize (quote : Char) : List Char → Bool × Nat
  | [] => (false, 0)
  | ['\\'] => (false, 0)
  | '\\' :: c :: cs =>
    if c = '\n' then (false, 0)
    else
      let (closed, size) := stringSize quote cs
      (closed, size + 2)
  | c :: cs =>
    if c = quote then (true, 1)
    else if c = '\n' then (false, 0)
    else
      let (closed, size) := stringSize quote cs
      (closed, size + 1)

/-- How many characters the digits of a number take and those behind its point, if it has any. -/
def numberSize (cs : List Char) : Nat :=
  let whole := runSize Numeral.isDigit cs
  match cs.drop whole with
  | '.' :: c :: rest =>
    if Numeral.isDigit c then whole + 2 + runSize Numeral.isDigit rest else whole
  | _ => whole

/-- A word: a keyword, unless a dash follows, or else an identifier. -/
def wordToken (word : String) (next : Option Char) : Token :=
  match Keyword.ofText? word with
  | some k => if next = some '-' then .identifier word else .keyword k
  | none => .identifier word

/-- The token that a text without blanks and comments in front starts with, and how many characters
    it takes behind the first one; without a token, how many the part takes that is none. -/
def lexeme (c : Char) (cs : List Char) : Option Token × Nat :=
  let front (size : Nat) : String := String.ofList (c :: cs.take size)
  if isNameStart c then
    let word := runSize isNameChar cs
    let size := word + dashedSize (cs.drop word)
    (some (wordToken (front size) (cs.drop size).head?), size)
  else if c = '"' ∨ c = '\'' then
    let (closed, size) := stringSize c cs
    let literal := if c = '"' then Token.doubleQuoted else Token.singleQuoted
    (if closed then some (literal (front size)) else none, size)
  else if Numeral.isDigit c ∨ c = '-' ∧ (cs.head?.any Numeral.isDigit) then
    let size := numberSize cs
    (some (.number (front size)), size)
  else if c = '/' ∧ cs.head? = some '*' then (none, 1 + openCommentSize cs.tail)
  else if isOperator c then (some (.operator c), 0)
  else ((Symbol.ofChar? c).map .symbol, 0)

/-- What the lexer found, with the places where it starts and where it ends. -/
structure Lexed (α : Type) where
  token : α
  start : Place
  stop : Place
deriving Repr

def Lexed.span {α : Type} (x : Lexed α) : Span := x.start.spanTo x.stop

/-- The next token from a place on, or the lack of one; nothing when only blanks and comments are
    left. -/
def lexFrom (p : Place) : Option (Lexed (Option Token)) :=
  let start := p.skip (triviaSize p.rest)
  match start.rest with
  | [] => none
  | c :: cs =>
    let (token, size) := lexeme c cs
    some ⟨token, start, start.skip (size + 1)⟩

/-- Blanks and comments before a token take nothing away that is not there. -/
theorem length_start_lexFrom {p : Place} {x : Lexed (Option Token)} (h : lexFrom p = some x) :
    x.start.rest.length ≤ p.rest.length ∧ x.start.rest ≠ [] := by
  simp only [lexFrom] at h
  split at h
  · simp at h
  · next c cs hs =>
    simp only [Option.some.injEq] at h
    subst h
    exact ⟨by simp [Place.skip], by simp [hs]⟩

/-- A token takes something away from the text. -/
theorem length_lexFrom {p : Place} {x : Lexed (Option Token)} (h : lexFrom p = some x) :
    x.stop.rest.length < p.rest.length := by
  simp only [lexFrom] at h
  split at h
  · simp at h
  · next c cs hs =>
    simp only [Option.some.injEq] at h
    subst h
    have hl := congrArg List.length hs
    simp only [Place.skip, List.length_drop, List.length_cons] at hl ⊢
    omega

/-- All tokens from a place on, unless some part is no token. -/
def tokensFrom? (p : Place) : Option (List (Lexed Token)) :=
  match _h : lexFrom p with
  | none => some []
  | some x =>
    match x.token with
    | none => none
    | some t => (tokensFrom? x.stop).map fun ts => ⟨t, x.start, x.stop⟩ :: ts
termination_by p.rest.length
decreasing_by exact length_lexFrom _h

/-- All tokens of a text. -/
def tokens? (source : List Char) : Option (List (Lexed Token)) := tokensFrom? (Place.start source)

end DesignSync.Markup

import DesignSync.Json.Fault
import DesignSync.Json.Number
import DesignSync.Text.Quoted

/-!
Going over a JSON text by its grammar alone, without taking anything in. Where the text breaks the
grammar the fault is told. What goes over a value goes on at any depth: the arrays and objects that
are open are kept in a list, the innermost first.

Strings and numbers are gone over in two ways. The strict one refuses what has no value: surrogates
that are no pair, and numbers that are too great.
-/

namespace DesignSync.Json

open Text

def isSpace (c : Char) : Bool := c == ' ' || c == '\n' || c == '\t' || c == '\r'

/-- How many characters of white space a text begins with. -/
def spaceSize (cs : List Char) : Nat := (cs.takeWhile isSpace).length

/-- A reader that gives nothing but the place that it comes to. -/
abbrev Passing := Except Fault Place

/-- The place behind white space. -/
def passSpace (p : Place) : Place := p.skip (spaceSize p.rest)

/-- A flaw that is noticed when a place is reached. -/
def Flaw.here {α : Type} (flaw : Flaw) (p : Place) : Except Fault α := .error ⟨flaw, p.offset⟩

/-- A flaw that is noticed one byte further, or at the end of the text. -/
def Flaw.ahead {α : Type} (flaw : Flaw) (p : Place) : Except Fault α :=
  .error ⟨flaw, if p.rest.isEmpty then p.offset else p.offset + 1⟩

/-! ### Strings -/

/-- The number that four hexadecimal digits write. -/
def readUnit (p : Place) : Except Fault Nat :=
  let unit? := match p.rest with
    | a :: b :: c :: d :: _ => Quoted.hexUnit? a b c d
    | _ => none
  match unit? with
  | some unit => .ok unit
  | none =>
    let left := width p.rest
    if left < 4 then .error ⟨.endInString, p.offset + left⟩
    else .error ⟨.brokenEscape, p.offset + 4⟩

/-- Refuses what is not the second half of a surrogate pair. -/
def wantPartner (p : Place) : Except Fault Unit :=
  match p.rest with
  | [] => Flaw.endInString.here p
  | ['\\'] => Flaw.endInString.here (p.skip 1)
  | '\\' :: 'u' :: _ => do
    let unit ← readUnit (p.skip 2)
    if 0xDC00 ≤ unit ∧ unit < 0xE000 then .ok () else Flaw.mispaired.here (p.skip 6)
  | '\\' :: _ => Flaw.unpaired.ahead (p.skip 1)
  | _ => Flaw.unpaired.ahead p

/-- How many characters an escape takes behind its backslash. -/
def escapeSize (strict : Bool) (p : Place) : Except Fault Nat :=
  match p.rest with
  | [] => Flaw.endInString.here p
  | 'u' :: _ => do
    let unit ← readUnit (p.skip 1)
    if !strict then .ok 5
    else if 0xDC00 ≤ unit ∧ unit < 0xE000 then Flaw.mispaired.here (p.skip 5)
    else if 0xD800 ≤ unit ∧ unit < 0xDC00 then
      wantPartner (p.skip 5)
      .ok 11
    else .ok 5
  | c :: _ => if (Quoted.escaped? c).isSome then .ok 1 else Flaw.brokenEscape.ahead p

/-- Whether a character stands for itself in a string. -/
def isPlain (c : Char) : Bool := c != '"' && c != '\\' && 0x20 ≤ c.toNat

/-- The place behind a string, from behind its first quote on. -/
def passString (strict : Bool) (p : Place) : Passing :=
  let size := (p.rest.takeWhile isPlain).length
  match _h : p.rest.drop size with
  | [] => Flaw.endInString.here (p.skip size)
  | '"' :: _ => .ok (p.skip (size + 1))
  | '\\' :: _ =>
    match escapeSize strict (p.skip (size + 1)) with
    | .error e => .error e
    | .ok more => passString strict (p.skip (size + 1 + more))
  | _ =>
    if strict then Flaw.controlCharacter.ahead (p.skip size)
    else Flaw.controlCharacter.here (p.skip size)
termination_by p.rest.length
decreasing_by
  have := congrArg List.length _h
  simp only [Place.skip, List.length_drop, List.length_cons] at this ⊢
  omega

/-! ### Numbers and words -/

/-- The flaw of a number that ends too early. -/
def numberEnd (strict : Bool) : Flaw := if strict then .endInValue else .brokenNumber

/-- How many digits an exponent has up to the first one that takes it beyond the 32-bit integers, or
    all of them. -/
def exponentDigits (n : Nat) : List Char → Nat
  | [] => 0
  | c :: cs =>
    let next := 10 * n + Numeral.digit c
    if Nat.pow 2 31 ≤ next then 1 else 1 + exponentDigits next cs

/-- The place behind the exponent of a number if it has one, and where it is known to be too
    great. -/
def passExponent (strict : Bool) (p : Place) : Except Fault (Place × Place) :=
  match p.rest with
  | c :: rest =>
    if c = 'e' ∨ c = 'E' then
      let q := match rest with
        | '+' :: _ | '-' :: _ => p.skip 2
        | _ => p.skip 1
      let digits := q.rest.takeWhile Numeral.isDigit
      if !digits.isEmpty then .ok (q.skip digits.length, q.skip (exponentDigits 0 digits))
      else if q.rest.isEmpty then (numberEnd strict).here q
      else Flaw.brokenNumber.ahead q
    else .ok (p, p)
  | [] => .ok (p, p)

/-- The place behind the fraction and the exponent of a number if it has them. -/
def passFraction (strict : Bool) (p : Place) : Except Fault (Place × Place) :=
  match p.rest with
  | '.' :: rest =>
    let digits := rest.takeWhile Numeral.isDigit
    if !digits.isEmpty then passExponent strict (p.skip (1 + digits.length))
    else if rest.isEmpty then (numberEnd strict).here (p.skip 1)
    else Flaw.brokenNumber.ahead (p.skip 1)
  | _ => passExponent strict p

/-- The place behind a number, from its sign or first digit on. -/
def passNumber (strict : Bool) (p : Place) : Passing := do
  let body := if p.rest.head? = some '-' then p.skip 1 else p
  let digits := body.rest.takeWhile Numeral.isDigit
  let (q, known) ← match digits with
    | '0' :: _ :: _ => Flaw.brokenNumber.ahead (body.skip 1)
    | _ :: _ => passFraction strict (body.skip digits.length)
    | [] =>
      if body.rest.isEmpty then (numberEnd strict).here body else Flaw.brokenNumber.ahead body
  if strict && (readFigures p.rest).any (·.1.value?.isNone) then Flaw.tooGreat.here known
  else .ok q

/-- The place behind the letters of a word. -/
def passLetters : List Char → Place → Passing
  | [], p => .ok p
  | letter :: letters, p =>
    match p.rest with
    | [] => Flaw.endInValue.here p
    | c :: _ => if c = letter then passLetters letters (p.skip 1) else Flaw.brokenWord.ahead p

/-- The place behind a value that is no array and no object. -/
def passScalar (strict : Bool) (p : Place) : Passing :=
  match p.rest with
  | [] => Flaw.endInValue.here p
  | 'n' :: _ => passLetters "null".toList p
  | 't' :: _ => passLetters "true".toList p
  | 'f' :: _ => passLetters "false".toList p
  | '"' :: _ => passString strict (p.skip 1)
  | c :: _ =>
    if c = '-' ∨ Numeral.isDigit c then passNumber strict p else Flaw.noValue.ahead p

/-! ### Values of any depth -/

/-- The place behind the colon of a member. -/
def passColon (p : Place) : Passing :=
  let p := passSpace p
  match p.rest with
  | [] => Flaw.endInObject.here p
  | ':' :: _ => .ok (p.skip 1)
  | _ => Flaw.noColon.ahead p

/-- An array or object that is open. -/
inductive Nest where
  | array
  | object

namespace Nest

def close : Nest → Char
  | array => ']'
  | object => '}'

/-- The flaw of a text that ends inside. -/
def endInside : Nest → Flaw
  | array => .endInArray
  | object => .endInObject

/-- The flaw of a text where neither the next item nor the end follows. -/
def noComma : Nest → Flaw
  | array => .noCommaInArray
  | object => .noCommaInObject

end Nest

/-- What has to come next: a value, a member of an object, or a comma or the end of what is open. -/
inductive Due where
  | value
  | member
  | more

/-- What follows a comma. -/
def Nest.due : Nest → Due
  | .array => .value
  | .object => .member

/-- What is due, what is open and what place is reached when an array or object has just begun. -/
def Nest.enter (nest : Nest) (nests : List Nest) (p : Place) :
    Except Fault (Due × List Nest × Place) :=
  let p := passSpace p
  match p.rest with
  | [] => nest.endInside.here p
  | c :: _ =>
    if c = nest.close then .ok (.more, nests, p.skip 1) else .ok (nest.due, nest :: nests, p)

/-- The place behind all that is open. Every step but the last takes a character at least, so one
    more step than there are characters is always enough. -/
def passNested : Nat → Due → List Nest → Place → Passing
  | 0, _, _, p => .ok p
  | _ + 1, .more, [], p => .ok p
  | steps + 1, .more, nest :: nests, p =>
    let p := passSpace p
    match p.rest with
    | [] => nest.endInside.here p
    | c :: _ =>
      if c = nest.close then passNested steps .more nests (p.skip 1)
      else if c = ',' then passNested steps nest.due (nest :: nests) (p.skip 1)
      else nest.noComma.ahead p
  | steps + 1, .member, nests, p =>
    let p := passSpace p
    match p.rest with
    | [] => Flaw.endInObject.here p
    | '"' :: _ =>
      match passString false (p.skip 1) >>= passColon with
      | .ok p => passNested steps .value nests p
      | .error e => .error e
    | _ => Flaw.keyNoString.ahead p
  | steps + 1, .value, nests, p =>
    let p := passSpace p
    let entered (nest : Nest) := nest.enter nests (p.skip 1)
    match p.rest with
    | '[' :: _ =>
      match entered .array with
      | .ok (due, nests, p) => passNested steps due nests p
      | .error e => .error e
    | '{' :: _ =>
      match entered .object with
      | .ok (due, nests, p) => passNested steps due nests p
      | .error e => .error e
    | _ =>
      match passScalar false p with
      | .ok p => passNested steps .more nests p
      | .error e => .error e

/-- The place behind a value, whatever is in it. -/
def passValue (p : Place) : Passing := passNested (p.rest.length + 1) .value [] p

end DesignSync.Json

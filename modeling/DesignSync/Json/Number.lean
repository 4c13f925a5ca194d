import DesignSync.Json.Value
import DesignSync.Number.Numeral

/-!
Numbers of JSON texts. A whole number of the 64-bit ranges stays one. Every other number is rounded
twice: its first digits as a whole number below `2 ^ 64`, and then the product or quotient of that
and a power of ten. While the digits stay below `2 ^ 53` and the power is at most `10 ^ 22`, only
the last step rounds and the result is the nearest number; else it may be a neighbour of that.
-/

namespace DesignSync.Json

/-- The number `10 ^ places`, rounded. -/
def powerOfTen (places : Nat) : Binary64 := Binary64.nearest false (Nat.pow 10 places) 1

/-- The exponent of the greatest power of ten that is finite. -/
def maxPlaces : Nat := 308

/-- A number over `10 ^ places`, by quotients of finite numbers. -/
def shiftedDown (x : Binary64) (places : Nat) : Binary64 :=
  if x.isZero then x
  else if places ≤ maxPlaces then x.dividedBy (powerOfTen places)
  else shiftedDown (x.dividedBy (powerOfTen maxPlaces)) (places - maxPlaces)
termination_by places
decreasing_by
  have : 0 < maxPlaces := by decide
  omega

/-- The number `digits * 10 ^ exponent` in two roundings, unless it is too great. -/
def scaled? (digits : Nat) (exponent : Int) : Option Binary64 :=
  let x := Binary64.nearest false digits 1
  if exponent < 0 then some (shiftedDown x exponent.natAbs)
  else if x.isZero then some x
  else if exponent ≤ maxPlaces then
    let y := x.times (powerOfTen exponent.natAbs)
    if y.isFinite then some y else none
  else none

/-- Appends digits to a whole number, up to the first one that would take it to `2 ^ 64`. Gives the
    number and how many digits are left. -/
def append (n : Nat) : List Char → Nat × Nat
  | [] => (n, 0)
  | c :: cs =>
    let next := 10 * n + Numeral.digit c
    if next < UInt64.size then append next cs else (n, cs.length + 1)

/-- A number as it is written. -/
structure Figures where
  negative : Bool
  whole : List Char
  fraction : Option (List Char)
  exponent : Option Int

/-- What is written as a whole number below `2 ^ 64` stays one, unless it is minus zero or below
    the least signed integer. -/
def ofWhole (negative : Bool) (n : Nat) : Json :=
  if negative then
    if n = 0 ∨ Nat.pow 2 63 < n then float (Binary64.nearest true n 1) else integer (-n)
  else integer n

/-- The value of a number, unless it is too great. -/
def Figures.value? (f : Figures) : Option Json :=
  let (n, left) := append 0 f.whole
  if left = 0 ∧ f.fraction.isNone ∧ f.exponent.isNone then some (ofWhole f.negative n)
  else
    let fraction := f.fraction.getD []
    let (n, ignored) := append n fraction
    let exponent := f.exponent.getD 0 + left - (fraction.length - ignored : Nat)
    (scaled? n exponent).map fun x => float (if f.negative then x.neg else x)

/-- The part behind a mark: a point and some digits. -/
def readFraction (cs : List Char) : Option (Option (List Char) × List Char) :=
  match cs with
  | '.' :: rest =>
    let digits := rest.takeWhile Numeral.isDigit
    if digits.isEmpty then none else some (some digits, rest.dropWhile Numeral.isDigit)
  | _ => some (none, cs)

/-- An exponent: its mark, a sign if there is one, and some digits. -/
def readExponent (cs : List Char) : Option (Option Int × List Char) :=
  match cs with
  | e :: rest =>
    if e = 'e' ∨ e = 'E' then
      let (negative, rest) := match rest with
        | '-' :: rest => (true, rest)
        | '+' :: rest => (false, rest)
        | rest => (false, rest)
      let digits := rest.takeWhile Numeral.isDigit
      if digits.isEmpty then none
      else
        let n : Int := Numeral.value digits
        some (some (if negative then -n else n), rest.dropWhile Numeral.isDigit)
    else some (none, cs)
  | [] => some (none, [])

/-- The figures of a number: an optional sign, digits without a leading zero, and optionally a
    fraction and an exponent. -/
def readFigures (cs : List Char) : Option (Figures × List Char) :=
  let (negative, body) := match cs with
    | '-' :: rest => (true, rest)
    | _ => (false, cs)
  let whole := body.takeWhile Numeral.isDigit
  if whole.isEmpty || (whole.length > 1 && whole.head? == some '0') then none
  else do
    let (fraction, rest) ← readFraction (body.dropWhile Numeral.isDigit)
    let (exponent, rest) ← readExponent rest
    return (⟨negative, whole, fraction, exponent⟩, rest)

/-- A number; one that is too great is unfit. -/
def readNumber (cs : List Char) : Option (Json × List Char) :=
  (readFigures cs).map fun (figures, rest) => (figures.value?.getD unfit, rest)

end DesignSync.Json

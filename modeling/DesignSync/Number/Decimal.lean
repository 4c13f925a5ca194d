import DesignSync.Number.Binary64

/-!
Decimal notation of binary64 numbers: the fewest digits that read back, and the three layouts in
which they are written. Where two numbers with the fewest digits are equally near, positional
notation takes the greater one and the notation of JSON the even one.
-/

namespace DesignSync

/-- The number `digits * 10 ^ exponent`. -/
structure Decimal where
  digits : Nat
  exponent : Int
deriving DecidableEq, Repr

namespace Decimal

/-- Moves the zeros at the end of the digits into the exponent. -/
def stripped (digits : Nat) (exponent : Int) : Decimal :=
  if digits ≠ 0 ∧ digits % 10 = 0 then stripped (digits / 10) (exponent + 1)
  else ⟨digits, exponent⟩
termination_by digits
decreasing_by omega

/-- The digits as text, none of them a leading zero. -/
def text (d : Decimal) : List Char := Nat.toDigits 10 d.digits

/-- The decimal exponent of the first digit. -/
def leading (d : Decimal) : Int := d.exponent + d.text.length - 1

/-- Positional notation without a mark when nothing stands behind it. -/
def positional (d : Decimal) : List Char :=
  let t := d.text
  let places := d.exponent.natAbs
  if 0 ≤ d.exponent then t ++ List.replicate places '0'
  else if places < t.length then
    t.take (t.length - places) ++ '.' :: t.drop (t.length - places)
  else '0' :: '.' :: (List.replicate (places - t.length) '0' ++ t)

/-- One digit, the mark and the other digits if there are any, and the exponent with its sign. -/
def scientific (d : Decimal) : List Char :=
  let e := d.leading
  let mantissa := match d.text with
    | [] => []
    | [c] => [c]
    | c :: cs => c :: '.' :: cs
  mantissa ++ 'e' :: (if e < 0 then '-' else '+') :: Nat.toDigits 10 e.natAbs

end Decimal

namespace Binary64

/-- A number of units over a multiple of a power of ten, as a fraction. -/
def gridRatio (count : Nat) (exponent : Int) : Nat × Nat :=
  if exponent < 0 then (count * Nat.pow 10 exponent.natAbs, unitsPerOne)
  else (count, unitsPerOne * Nat.pow 10 exponent.natAbs)

/-- Whether a decimal lies so near to the magnitude at a place that it is read as that one. -/
def readsAs (rank digits : Nat) (exponent : Int) : Bool :=
  (ofDecimal false digits exponent).rank == rank

/-- Which of two decimals is written when a magnitude lies in the middle between them. -/
inductive Tie where
  | up
  | even
deriving DecidableEq, Repr

/-- Of the two multiples of `10 ^ exponent` around the magnitude, the nearer one that reads back. -/
def onGrid (tie : Tie) (rank : Nat) (exponent : Int) : Option Nat :=
  let (num, den) := gridRatio (units rank) exponent
  let low := num / den
  let middle := (2 * low + 1) * den
  match readsAs rank low exponent, readsAs rank (low + 1) exponent with
  | false, false => none
  | true, false => some low
  | false, true => some (low + 1)
  | true, true =>
    if 2 * num < middle ∨ (2 * num = middle ∧ tie = .even ∧ low % 2 = 0) then some low
    else some (low + 1)

/-- The decimal exponent of the first digit of the magnitude at a place. -/
def leadingExponent (rank : Nat) : Int :=
  (Nat.toDigits 10 (units rank * Nat.pow 10 400 / unitsPerOne)).length - 401

/-- The decimal with the fewest digits that reads back as the magnitude at a place, and of those
    the nearest. Grids of one up to seventeen digits are tried in turn; behind them stands the exact
    value, which every magnitude has. -/
def shortest (tie : Tie) (rank : Nat) : Decimal :=
  if rank = 0 then ⟨0, 0⟩
  else
    let top := leadingExponent rank
    let hit := (List.range 17).findSome? fun (n : Nat) =>
      (onGrid tie rank (top - n)).map (Decimal.stripped · (top - n))
    hit.getD (Decimal.stripped (units rank * Nat.pow 5 unitExponent) (-unitExponent))

private def signed (x : Binary64) (magnitude : List Char) : String :=
  String.ofList (if x.negative then '-' :: magnitude else magnitude)

/-- Positional notation of any length; infinity is `inf`. -/
def positionalText (x : Binary64) : String :=
  x.signed (if x.isFinite then (shortest .up x.rank).positional else ['i', 'n', 'f'])

/-- Positional notation in which both zeros are `0`. -/
def plainText (x : Binary64) : String :=
  if x.isZero then "0" else x.positionalText

/-- Notation of JSON texts: positional from `1e-5` up to below `1e16` with at least one digit
    behind the mark, else scientific. -/
def jsonText (x : Binary64) : String :=
  if x.isFinite then
    let d := shortest .even x.rank
    x.signed <|
      if x.isZero then ['0', '.', '0']
      else if -5 ≤ d.leading ∧ d.leading < 16 then
        if 0 ≤ d.exponent then d.positional ++ ['.', '0'] else d.positional
      else d.scientific
  else "null"

end Binary64

end DesignSync

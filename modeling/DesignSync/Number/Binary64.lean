/-!
Binary64 numbers without the NaNs, in exact arithmetic. A magnitude is given by its place in the
increasing list of all of them: 0 is zero, 1 the least positive number, and the last one infinity.
Main definition: the magnitude nearest to a fraction.
-/

namespace DesignSync

/-- The place of infinity; the magnitudes before it are the finite ones. -/
def Binary64.infinityRank : Nat := 2047 * Nat.pow 2 52

/-- A binary64 number other than a NaN. -/
structure Binary64 where
  negative : Bool
  rank : Nat
  rank_le : rank ≤ Binary64.infinityRank
deriving DecidableEq

namespace Binary64

/-- The least positive number is `2 ^ -unitExponent`. -/
def unitExponent : Nat := 1074

/-- How often the least positive number goes into one. -/
def unitsPerOne : Nat := Nat.pow 2 unitExponent

/-- The magnitude at a place, counted in units of the least positive number. -/
def units (rank : Nat) : Nat :=
  let shift := rank / Nat.pow 2 52 - 1
  (rank - shift * Nat.pow 2 52) * Nat.pow 2 shift

/-- The place of the greatest magnitude that is not above a number of units. -/
def rankBelow (count : Nat) : Nat :=
  let shift := count.log2 - 52
  shift * Nat.pow 2 52 + count / Nat.pow 2 shift

/-- The place of the magnitude nearest to `num / den`; a tie goes to the even place. What is not
    below the middle between the greatest finite magnitude and `2 ^ 1024` is infinite. -/
def nearestRank (num den : Nat) : Nat :=
  let scaled := num * unitsPerOne
  let low := min (rankBelow (scaled / den)) infinityRank
  let middle := (units low + units (low + 1)) * den
  if low = infinityRank ∨ 2 * scaled < middle then low
  else if middle < 2 * scaled ∨ low % 2 = 1 then low + 1
  else low

theorem nearestRank_le (num den : Nat) : nearestRank num den ≤ infinityRank := by
  unfold nearestRank
  dsimp only
  have h := Nat.min_le_right (rankBelow (num * unitsPerOne / den)) infinityRank
  split
  · omega
  · split <;> omega

/-- The number nearest to a signed fraction. -/
def nearest (negative : Bool) (num den : Nat) : Binary64 :=
  ⟨negative, nearestRank num den, nearestRank_le num den⟩

def zero : Binary64 := ⟨false, 0, Nat.zero_le _⟩

instance : Inhabited Binary64 := ⟨zero⟩

def infinite (negative : Bool) : Binary64 := ⟨negative, infinityRank, Nat.le_refl _⟩

def isZero (x : Binary64) : Bool := x.rank == 0

def isFinite (x : Binary64) : Bool := x.rank != infinityRank

def neg (x : Binary64) : Binary64 := ⟨!x.negative, x.rank, x.rank_le⟩

/-- Equality as numbers: the two zeros are equal. -/
def same (x y : Binary64) : Bool :=
  x.rank == y.rank && (x.negative == y.negative || x.rank == 0)

instance : BEq Binary64 := ⟨same⟩

theorem same_self (x : Binary64) : same x x = true := by simp [same]

/-- The number nearest to `digits * 10 ^ exponent`. The two outer cases answer at once where the
    value is above every finite number or below half the least positive one. -/
def ofDecimal (negative : Bool) (digits : Nat) (exponent : Int) : Binary64 :=
  if digits = 0 ∨ exponent + digits.log2 + 1 < -400 then { zero with negative := negative }
  else if exponent > 400 then infinite negative
  else if exponent < 0 then nearest negative digits (Nat.pow 10 exponent.natAbs)
  else nearest negative (digits * Nat.pow 10 exponent.natAbs) 1

/-- The number nearest to the product of two finite numbers. -/
def times (x y : Binary64) : Binary64 :=
  nearest (x.negative != y.negative) (units x.rank * units y.rank)
    (unitsPerOne * unitsPerOne)

/-- The number nearest to the quotient of two finite numbers, the second one not zero. -/
def dividedBy (x y : Binary64) : Binary64 :=
  nearest (x.negative != y.negative) (units x.rank) (units y.rank)

/-- The number nearest to an integer. -/
def ofInt (n : Int) : Binary64 := nearest (decide (n < 0)) n.natAbs 1

end Binary64

end DesignSync

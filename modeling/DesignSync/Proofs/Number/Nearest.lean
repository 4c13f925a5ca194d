import Mathlib.Algebra.Group.Nat.Defs
import DesignSync.Number.Binary64

/-!
The magnitude nearest to a fraction: every magnitude is the one nearest to itself, only the value of
the fraction matters, and the shortcuts for decimals that are out of range agree with it.
-/

namespace DesignSync

namespace Binary64

/-! ### Magnitudes in units -/

theorem units_eq (rank : Nat) : units rank =
    (rank - (rank / 2 ^ 52 - 1) * 2 ^ 52) * 2 ^ (rank / 2 ^ 52 - 1) := rfl

theorem rankBelow_eq (count : Nat) : rankBelow count =
    (count.log2 - 52) * 2 ^ 52 + count / 2 ^ (count.log2 - 52) := rfl

theorem units_of_lt {rank : Nat} (h : rank < 2 ^ 53) : units rank = rank := by
  have hshift : rank / 2 ^ 52 - 1 = 0 := by omega
  simp only [units_eq, hshift, Nat.zero_mul, Nat.sub_zero, Nat.pow_zero, Nat.mul_one]

/-- Behind the first two runs of `2 ^ 52` places, the distance doubles from run to run. -/
theorem units_run (shift : Nat) {m : Nat} (hlow : 2 ^ 52 ≤ m) (hhigh : m < 2 ^ 53) :
    units (shift * 2 ^ 52 + m) = m * 2 ^ shift := by
  have hshift : (shift * 2 ^ 52 + m) / 2 ^ 52 - 1 = shift := by omega
  simp only [units_eq, hshift, Nat.add_sub_cancel_left]

/-- A place lies in the first run, or in a later one. -/
theorem rank_cases (rank : Nat) :
    rank < 2 ^ 52 ∨ ∃ shift m, 2 ^ 52 ≤ m ∧ m < 2 ^ 53 ∧ rank = shift * 2 ^ 52 + m := by
  by_cases h : rank < 2 ^ 52
  · exact .inl h
  · exact .inr ⟨rank / 2 ^ 52 - 1, rank - (rank / 2 ^ 52 - 1) * 2 ^ 52, by omega, by omega, by omega⟩

theorem units_lt_succ (rank : Nat) : units rank < units (rank + 1) := by
  rcases rank_cases rank with h | ⟨shift, m, hlow, hhigh, rfl⟩
  · rw [units_of_lt (by omega), units_of_lt (by omega)]
    omega
  · rw [units_run shift hlow hhigh]
    by_cases hm : m + 1 < 2 ^ 53
    · rw [Nat.add_assoc, units_run shift (by omega) hm]
      exact Nat.mul_lt_mul_of_pos_right (Nat.lt_succ_self m) (Nat.two_pow_pos shift)
    · have hnext : shift * 2 ^ 52 + m + 1 = (shift + 1) * 2 ^ 52 + 2 ^ 52 := by omega
      rw [hnext, units_run (shift + 1) (by omega) (by omega), Nat.pow_succ]
      calc m * 2 ^ shift < 2 ^ 53 * 2 ^ shift :=
            Nat.mul_lt_mul_of_pos_right hhigh (Nat.two_pow_pos shift)
        _ = 2 ^ 52 * (2 ^ shift * 2) := by omega

theorem units_strictMono {r s : Nat} (h : r < s) : units r < units s := by
  induction h with
  | refl => exact units_lt_succ r
  | step _ ih => exact Nat.lt_trans ih (units_lt_succ _)

theorem units_mono {r s : Nat} (h : r ≤ s) : units r ≤ units s := by
  rcases Nat.lt_or_eq_of_le h with h | rfl
  · exact Nat.le_of_lt (units_strictMono h)
  · exact Nat.le_refl _

theorem rankBelow_units (rank : Nat) : rankBelow (units rank) = rank := by
  rcases rank_cases rank with h | ⟨shift, m, hlow, hhigh, rfl⟩
  · rw [units_of_lt (by omega)]
    have hlog : rank.log2 - 52 = 0 := by
      rcases Nat.eq_zero_or_pos rank with rfl | hpos
      · simp
      · have := (Nat.log2_lt (by omega)).2 h
        omega
    simp [rankBelow_eq, hlog]
  · rw [units_run shift hlow hhigh]
    have hpos := Nat.two_pow_pos shift
    have hlog : (m * 2 ^ shift).log2 = 52 + shift := by
      have hne : m * 2 ^ shift ≠ 0 := Nat.mul_ne_zero (by omega) (by omega)
      refine (Nat.log2_eq_iff hne).2 ⟨?_, ?_⟩
      · rw [Nat.pow_add]
        exact Nat.mul_le_mul_right _ hlow
      · rw [show 52 + shift + 1 = 53 + shift by omega, Nat.pow_add]
        exact Nat.mul_lt_mul_of_pos_right hhigh hpos
    rw [rankBelow_eq, hlog, Nat.add_sub_cancel_left, Nat.mul_div_cancel _ hpos]

/-- A number of units is below the magnitude at the next place. -/
theorem lt_units_rankBelow_succ (count : Nat) : count < units (rankBelow count + 1) := by
  rw [rankBelow_eq]
  have hlog : count < 2 ^ (count.log2 + 1) := Nat.lt_log2_self
  by_cases hsmall : count.log2 < 52
  · have hshift : count.log2 - 52 = 0 := by omega
    have hcount : count < 2 ^ 52 :=
      Nat.lt_of_lt_of_le hlog (Nat.pow_le_pow_right (by decide) (by omega))
    rw [hshift]
    simp only [Nat.zero_mul, Nat.zero_add, Nat.pow_zero, Nat.div_one]
    rw [units_of_lt (by omega)]
    omega
  · generalize hs : count.log2 - 52 = shift
    have hlog2 : count.log2 = shift + 52 := by omega
    have hne : count ≠ 0 := by
      rintro rfl
      simp at hlog2
    have hpos := Nat.two_pow_pos shift
    have hlow : 2 ^ 52 ≤ count / 2 ^ shift := by
      refine (Nat.le_div_iff_mul_le hpos).2 ?_
      rw [← Nat.pow_add, show 52 + shift = count.log2 by omega]
      exact Nat.log2_self_le hne
    have hhigh : count / 2 ^ shift < 2 ^ 53 := by
      refine (Nat.div_lt_iff_lt_mul hpos).2 ?_
      rwa [← Nat.pow_add, show 53 + shift = count.log2 + 1 by omega]
    have hfloor : count < (count / 2 ^ shift + 1) * 2 ^ shift :=
      Nat.lt_mul_of_div_lt (Nat.lt_succ_self _) hpos
    calc count < (count / 2 ^ shift + 1) * 2 ^ shift := hfloor
      _ = units (shift * 2 ^ 52 + count / 2 ^ shift) + 2 ^ shift := by
        rw [units_run shift hlow hhigh, Nat.succ_mul]
      _ ≤ units (shift * 2 ^ 52 + count / 2 ^ shift + 1) := by
        by_cases hm : count / 2 ^ shift + 1 < 2 ^ 53
        · refine Nat.le_of_eq ?_
          rw [Nat.add_assoc, units_run shift hlow hhigh, units_run shift (by omega) hm,
            Nat.succ_mul]
        · have hnext : shift * 2 ^ 52 + count / 2 ^ shift + 1 = (shift + 1) * 2 ^ 52 + 2 ^ 52 := by
            omega
          have hlast : count / 2 ^ shift = 2 ^ 53 - 1 := by omega
          rw [hnext, units_run (shift + 1) (by omega) (by omega), units_run shift hlow hhigh,
            hlast, Nat.pow_succ]
          omega

/-! ### Rounding -/

theorem unitsPerOne_pos : 0 < unitsPerOne := by decide +kernel

theorem nearestRank_eq (num den : Nat) : nearestRank num den =
    let low := min (rankBelow (num * unitsPerOne / den)) infinityRank
    let middle := (units low + units (low + 1)) * den
    if low = infinityRank ∨ 2 * (num * unitsPerOne) < middle then low
    else if middle < 2 * (num * unitsPerOne) ∨ low % 2 = 1 then low + 1
    else low := rfl

/-- Every magnitude is nearest to itself. -/
theorem nearestRank_units {rank : Nat} (h : rank ≤ infinityRank) :
    nearestRank (units rank) unitsPerOne = rank := by
  rw [nearestRank_eq]
  simp only [Nat.mul_div_cancel _ unitsPerOne_pos, rankBelow_units, Nat.min_eq_left h]
  by_cases hinf : rank = infinityRank
  · rw [if_pos (.inl hinf)]
  · have hlt : 2 * (units rank * unitsPerOne) <
        (units rank + units (rank + 1)) * unitsPerOne := by
      rw [← Nat.mul_assoc]
      refine Nat.mul_lt_mul_of_pos_right ?_ unitsPerOne_pos
      have := units_lt_succ rank
      omega
    rw [if_pos (.inr hlt)]

/-- Only the value of a fraction matters. -/
theorem nearestRank_mul (num den : Nat) {k : Nat} (hk : 0 < k) :
    nearestRank (num * k) (den * k) = nearestRank num den := by
  rw [nearestRank_eq, nearestRank_eq num]
  generalize unitsPerOne = unit
  have hscaled : num * k * unit = num * unit * k := by ac_rfl
  have hdiv : num * k * unit / (den * k) = num * unit / den := by
    rw [hscaled, Nat.mul_div_mul_right _ _ hk]
  simp only [hdiv]
  generalize min (rankBelow (num * unit / den)) infinityRank = low
  have hmiddle : (units low + units (low + 1)) * (den * k)
      = (units low + units (low + 1)) * den * k := by ac_rfl
  have hdouble : 2 * (num * k * unit) = 2 * (num * unit) * k := by ac_rfl
  simp only [hmiddle, hdouble, Nat.mul_lt_mul_right hk]

/-- A fraction that is not below `2 ^ 1024` is infinite. -/
theorem nearestRank_eq_infinityRank {num den : Nat} (hden : 0 < den)
    (h : Nat.pow 2 1024 * den ≤ num) : nearestRank num den = infinityRank := by
  have hunits : units infinityRank = Nat.pow 2 1024 * unitsPerOne := by decide +kernel
  rw [nearestRank_eq]
  generalize unitsPerOne = unit at hunits ⊢
  generalize Nat.pow 2 1024 = bound at h hunits
  have hcount : units infinityRank ≤ num * unit / den := by
    rw [hunits]
    refine (Nat.le_div_iff_mul_le hden).2 ?_
    calc bound * unit * den = bound * den * unit := by ac_rfl
      _ ≤ num * unit := Nat.mul_le_mul_right _ h
  have hrank : infinityRank ≤ rankBelow (num * unit / den) := by
    refine Nat.le_of_not_lt fun hlt => ?_
    have hnext : units (rankBelow (num * unit / den) + 1) ≤ units infinityRank :=
      units_mono (by omega)
    have := lt_units_rankBelow_succ (num * unit / den)
    omega
  simp only [Nat.min_eq_right hrank]
  rw [if_pos (.inl trivial)]

/-- A fraction below half the least positive magnitude is zero. -/
theorem nearestRank_eq_zero {num den : Nat} (h : 2 * (num * unitsPerOne) < den) :
    nearestRank num den = 0 := by
  rw [nearestRank_eq]
  generalize unitsPerOne = unit at h ⊢
  have hdiv : num * unit / den = 0 := Nat.div_eq_of_lt (by omega)
  have hbelow : rankBelow 0 = 0 := by decide
  have hunit : units 0 + units (0 + 1) = 1 := by decide
  simp only [hdiv, hbelow, Nat.zero_min, hunit, Nat.one_mul]
  rw [if_pos (.inr h)]

/-! ### Decimals -/

/-- The place of the magnitude nearest to `digits * 10 ^ exponent`. -/
def decimalRank (digits : Nat) (exponent : Int) : Nat :=
  nearestRank (digits * 10 ^ exponent.toNat) (10 ^ (-exponent).toNat)

theorem decimalRank_natCast (digits n : Nat) :
    decimalRank digits n = nearestRank (digits * 10 ^ n) 1 := by
  rw [decimalRank, Int.toNat_natCast, Int.toNat_of_nonpos (by omega), Nat.pow_zero]

theorem decimalRank_neg_natCast (digits n : Nat) :
    decimalRank digits (-n) = nearestRank digits (10 ^ n) := by
  rw [decimalRank, Int.toNat_of_nonpos (by omega), Int.neg_neg, Int.toNat_natCast, Nat.pow_zero,
    Nat.mul_one]

theorem decimalRank_zero (exponent : Int) : decimalRank 0 exponent = 0 := by
  refine nearestRank_eq_zero ?_
  rw [Nat.zero_mul, Nat.zero_mul, Nat.mul_zero]
  exact Nat.pow_pos (by decide)

/-- A zero at the end of the digits counts like one more in the exponent. -/
theorem decimalRank_mul_ten (digits : Nat) (exponent : Int) :
    decimalRank (digits * 10) exponent = decimalRank digits (exponent + 1) := by
  rcases Int.eq_nat_or_neg exponent with ⟨n, rfl | rfl⟩
  · rw [decimalRank_natCast, show (n : Int) + 1 = (n + 1 : Nat) by simp, decimalRank_natCast,
      Nat.pow_succ']
    congr 1
    ac_rfl
  · cases n with
    | zero => simp [decimalRank]
    | succ n =>
      rw [decimalRank_neg_natCast, show -((n + 1 : Nat) : Int) + 1 = -(n : Int) by omega,
        decimalRank_neg_natCast, Nat.pow_succ, nearestRank_mul _ _ (by decide)]

theorem decimalRank_mul_ten_pow (digits n : Nat) (exponent : Int) :
    decimalRank (digits * 10 ^ n) exponent = decimalRank digits (exponent + n) := by
  induction n generalizing exponent with
  | zero => simp
  | succ n ih =>
    rw [Nat.pow_succ, ← Nat.mul_assoc, decimalRank_mul_ten, ih]
    congr 1
    omega

/-- Reading a decimal is rounding it; its shortcuts answer as rounding does. -/
theorem rank_ofDecimal (negative : Bool) (digits : Nat) (exponent : Int) :
    (ofDecimal negative digits exponent).rank = decimalRank digits exponent := by
  unfold ofDecimal
  split
  · next hzero =>
    by_cases hd : digits = 0
    · rw [hd, decimalRank_zero]
      rfl
    · obtain ⟨n, rfl⟩ : ∃ n : Nat, exponent = -(n : Int) := ⟨exponent.natAbs, by omega⟩
      have hlog : digits.log2 + 1 + 401 ≤ n := by omega
      have hlt : digits < 10 ^ (digits.log2 + 1) :=
        Nat.lt_of_lt_of_le Nat.lt_log2_self (Nat.pow_le_pow_left (by decide) _)
      rw [decimalRank_neg_natCast]
      refine (nearestRank_eq_zero ?_).symm
      obtain ⟨k, hk, hhalf⟩ : ∃ k ≤ 401, 2 * unitsPerOne ≤ 10 ^ k := ⟨401, by decide +kernel⟩
      calc 2 * (digits * unitsPerOne) = digits * (2 * unitsPerOne) := Nat.mul_left_comm ..
        _ < 10 ^ (digits.log2 + 1) * (2 * unitsPerOne) :=
          Nat.mul_lt_mul_of_pos_right hlt (Nat.mul_pos (by decide) unitsPerOne_pos)
        _ ≤ 10 ^ (digits.log2 + 1) * 10 ^ k := Nat.mul_le_mul_left _ hhalf
        _ = 10 ^ (digits.log2 + 1 + k) := (Nat.pow_add ..).symm
        _ ≤ 10 ^ n := Nat.pow_le_pow_right (by decide) (by omega)
  · next hnonzero =>
    split
    · next hlarge =>
      symm
      obtain ⟨n, rfl⟩ : ∃ n : Nat, exponent = n := ⟨exponent.natAbs, by omega⟩
      have hpos : 0 < digits := by omega
      have hexp : 401 ≤ n := by omega
      rw [decimalRank_natCast]
      refine nearestRank_eq_infinityRank (by decide) ?_
      obtain ⟨k, hk, hbound⟩ : ∃ k ≤ 401, Nat.pow 2 1024 ≤ 10 ^ k := ⟨401, by decide +kernel⟩
      generalize Nat.pow 2 1024 = bound at hbound ⊢
      calc bound * 1 ≤ 10 ^ k := by rwa [Nat.mul_one]
        _ ≤ 10 ^ n := Nat.pow_le_pow_right (by decide) (Nat.le_trans hk hexp)
        _ ≤ digits * 10 ^ n := Nat.le_mul_of_pos_left _ hpos
    · split
      · next hneg =>
        obtain ⟨n, rfl⟩ : ∃ n : Nat, exponent = -(n : Int) := ⟨exponent.natAbs, by omega⟩
        rw [decimalRank_neg_natCast, Int.natAbs_neg, Int.natAbs_natCast]
        rfl
      · obtain ⟨n, rfl⟩ : ∃ n : Nat, exponent = n := ⟨exponent.natAbs, by omega⟩
        rw [decimalRank_natCast, Int.natAbs_natCast]
        rfl

end Binary64

end DesignSync

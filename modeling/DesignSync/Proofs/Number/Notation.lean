import DesignSync.Number.Decimal
import DesignSync.Number.Numeral
import DesignSync.Proofs.Number.Nearest

/-!
What is written for a number reads back as that number: the shortest decimal of a magnitude rounds
to it, and positional notation says which decimal it is.
-/

namespace DesignSync

namespace Binary64

/-! ### The shortest decimal -/

theorem decimalRank_stripped (digits : Nat) (exponent : Int) :
    decimalRank (Decimal.stripped digits exponent).digits
      (Decimal.stripped digits exponent).exponent = decimalRank digits exponent := by
  induction digits, exponent using Decimal.stripped.induct with
  | case1 digits exponent h ih =>
    rw [Decimal.stripped, if_pos h, ih, ← decimalRank_mul_ten]
    congr 1
    omega
  | case2 digits exponent h => rw [Decimal.stripped, if_neg h]

theorem readsAs_iff {rank digits : Nat} {exponent : Int} :
    readsAs rank digits exponent = true ↔ decimalRank digits exponent = rank := by
  simp [readsAs, rank_ofDecimal]

theorem decimalRank_onGrid {tie : Tie} {rank digits : Nat} {exponent : Int}
    (h : onGrid tie rank exponent = some digits) : decimalRank digits exponent = rank := by
  rw [← readsAs_iff]
  unfold onGrid at h
  dsimp only at h
  split at h
  · cases h
  · next hlow _ => cases h; exact hlow
  · next _ hhigh => cases h; exact hhigh
  · next hlow hhigh =>
    split at h
    · cases h; exact hlow
    · cases h; exact hhigh

private theorem decimalRank_mul_five_pow (count n : Nat) :
    decimalRank (count * Nat.pow 5 n) (-n) = nearestRank count (Nat.pow 2 n) := by
  rw [decimalRank_neg_natCast, show (10 : Nat) = 2 * 5 by decide, Nat.mul_pow]
  exact nearestRank_mul count _ (Nat.pow_pos (by decide))

/-- The exact value of a magnitude as a decimal. -/
theorem decimalRank_exact {rank : Nat} (h : rank ≤ infinityRank) :
    decimalRank (units rank * Nat.pow 5 unitExponent) (-unitExponent) = rank := by
  have hnearest := nearestRank_units h
  unfold unitsPerOne at hnearest
  exact (decimalRank_mul_five_pow (units rank) unitExponent).trans hnearest

/-- A magnitude other than zero is written as a decimal found on some grid, or else exactly. -/
private theorem shortest_cases (tie : Tie) {rank : Nat} (hpos : rank ≠ 0) :
    ∃ hit : Option Decimal, (∀ d, hit = some d → decimalRank d.digits d.exponent = rank) ∧
      shortest tie rank =
        hit.getD (Decimal.stripped (units rank * Nat.pow 5 unitExponent) (-unitExponent)) := by
  unfold shortest
  rw [if_neg hpos]
  refine ⟨_, fun d hd => ?_, rfl⟩
  obtain ⟨n, -, hn⟩ := List.exists_of_findSome?_eq_some hd
  obtain ⟨digits, hdigits, rfl⟩ := Option.map_eq_some_iff.1 hn
  rw [decimalRank_stripped, decimalRank_onGrid hdigits]

/-- The shortest decimal of a magnitude rounds to it. -/
theorem decimalRank_shortest (tie : Tie) {rank : Nat} (h : rank ≤ infinityRank) :
    decimalRank (shortest tie rank).digits (shortest tie rank).exponent = rank := by
  by_cases hzero : rank = 0
  · rw [hzero, shortest, if_pos rfl]
    exact decimalRank_zero 0
  · obtain ⟨hit, hhit, heq⟩ := shortest_cases tie hzero
    rw [heq]
    cases hit with
    | none => rw [Option.getD_none, decimalRank_stripped, decimalRank_exact h]
    | some d => exact hhit d rfl

end Binary64

/-! ### Positional notation -/

namespace Numeral

theorem isDigit_iff {c : Char} : isDigit c = true ↔ c.isDigit = true := by
  simp only [isDigit, Char.isDigit, Bool.and_eq_true, decide_eq_true_eq]
  exact Iff.rfl

theorem value_eq (ds : List Char) : value ds = Nat.ofDigitChars 10 ds 0 := rfl

theorem value_toDigits (n : Nat) : value (Nat.toDigits 10 n) = n := by
  rw [value_eq, Nat.ofDigitChars_ten_toDigits]

theorem value_append_zeros (ds : List Char) (n : Nat) :
    value (ds ++ List.replicate n '0') = value ds * 10 ^ n := by
  rw [value_eq, Nat.ofDigitChars_append, Nat.ofDigitChars_replicate_zero, Nat.mul_comm]
  rfl

theorem value_zeros_append (n : Nat) (ds : List Char) :
    value (List.replicate n '0' ++ ds) = value ds := by
  rw [value_eq, Nat.ofDigitChars_append, Nat.ofDigitChars_replicate_zero, Nat.mul_zero]
  rfl

theorem head?_append_of_ne_nil {ds : List Char} (h : ds ≠ []) (es : List Char) :
    (ds ++ es).head? = ds.head? := by
  obtain ⟨c, cs, rfl⟩ := List.exists_cons_of_ne_nil h
  rfl

/-- Whether digits begin with a zero only if that is all of them. -/
def Unpadded (ds : List Char) : Prop := ds.head? = some '0' → ds.length = 1

theorem head?_toDigits_ne {n : Nat} (h : n ≠ 0) : (Nat.toDigits 10 n).head? ≠ some '0' := by
  induction n using Nat.strongRecOn with
  | ind n ih =>
    by_cases hsmall : n < 10
    · rw [Nat.toDigits_of_lt_base hsmall]
      have hdigit : ∀ d : Fin 10, d.val ≠ 0 → [Nat.digitChar d].head? ≠ some '0' := by decide
      exact hdigit ⟨n, hsmall⟩ h
    · rw [Nat.toDigits_of_base_le (by decide) (by omega),
        head?_append_of_ne_nil Nat.toDigits_ne_nil]
      exact ih (n / 10) (by omega) (by omega)

theorem unpadded_toDigits (n : Nat) : Unpadded (Nat.toDigits 10 n) := by
  intro hzero
  by_cases hn : n = 0
  · rw [hn, Nat.toDigits_zero]
    rfl
  · exact absurd hzero (head?_toDigits_ne hn)

/-- Digits, and behind a mark some more of them unless there are none. -/
def marked (whole fraction : List Char) : List Char :=
  whole ++ if fraction.isEmpty then [] else '.' :: fraction

/-- A text that is an unsigned decimal, by its two parts. -/
structure IsDecimal (text whole fraction : List Char) : Prop where
  eq : text = marked whole fraction
  ne_nil : whole ≠ []
  whole : ∀ c ∈ whole, isDigit c = true
  fraction : ∀ c ∈ fraction, isDigit c = true

namespace IsDecimal

variable {text whole fraction : List Char}

private theorem takeWhile_digits (h : ∀ c ∈ whole, isDigit c = true) (fraction : List Char) :
    (marked whole fraction).takeWhile isDigit = whole := by
  unfold marked
  rw [List.takeWhile_append_of_pos h]
  split <;> simp [isDigit]

private theorem dropWhile_digits (h : ∀ c ∈ whole, isDigit c = true) (fraction : List Char) :
    ((marked whole fraction).dropWhile isDigit).drop 1 = fraction := by
  unfold marked
  rw [List.dropWhile_append_of_pos h]
  split
  · next hempty => simp [List.isEmpty_iff.1 hempty]
  · simp [isDigit]

theorem read_eq (h : IsDecimal text whole fraction) (negative : Bool) :
    read (if negative then '-' :: text else text) = decimal whole fraction 0 negative := by
  obtain ⟨rfl, hne, hwhole, -⟩ := h
  unfold read
  cases negative with
  | true => simp [takeWhile_digits hwhole, dropWhile_digits hwhole]
  | false =>
    obtain ⟨c, cs, rfl⟩ := List.exists_cons_of_ne_nil hne
    have hc : c ≠ '-' := by
      rintro rfl
      exact absurd (hwhole '-' List.mem_cons_self) (by decide)
    simp only [Bool.false_eq_true, if_false]
    rw [show marked (c :: cs) fraction = c :: marked cs fraction from rfl]
    split
    · next rest heq => exact absurd (List.cons.inj heq).1 hc
    · rw [show c :: marked cs fraction = marked (c :: cs) fraction from rfl]
      simp only [takeWhile_digits hwhole, dropWhile_digits hwhole]

end IsDecimal

end Numeral

namespace Decimal

theorem isDigit_of_mem_text {d : Decimal} {c : Char} (h : c ∈ d.text) :
    Numeral.isDigit c = true :=
  Numeral.isDigit_iff.2 (Nat.isDigit_of_mem_toDigits (by decide) (by decide) h)

theorem text_ne_nil (d : Decimal) : d.text ≠ [] := Nat.toDigits_ne_nil

theorem value_text (d : Decimal) : Numeral.value d.text = d.digits := Numeral.value_toDigits _

private theorem isDigit_of_mem_zeros {n : Nat} {c : Char} (h : c ∈ List.replicate n '0') :
    Numeral.isDigit c = true := by
  rw [(List.mem_replicate.1 h).2]
  rfl

/-- Positional notation says which decimal it is. A mark is there just when the exponent is
negative, and no zero is in front that need not be. -/
theorem positional_isDecimal (d : Decimal) :
    ∃ whole fraction, Numeral.IsDecimal d.positional whole fraction ∧
      (d.digits ≠ 0 → Numeral.Unpadded whole) ∧ (fraction = [] ↔ 0 ≤ d.exponent) ∧
      Binary64.decimalRank (Numeral.value (whole ++ fraction)) (0 - fraction.length)
        = Binary64.decimalRank d.digits d.exponent := by
  have hzeros (n : Nat) : ∀ c ∈ List.replicate n '0', Numeral.isDigit c = true :=
    fun _ => isDigit_of_mem_zeros
  have htext : ∀ c ∈ d.text, Numeral.isDigit c = true := fun _ => isDigit_of_mem_text
  have hhead (hpos : d.digits ≠ 0) : d.text.head? ≠ some '0' := Numeral.head?_toDigits_ne hpos
  unfold positional
  dsimp only
  split
  · next hexp =>
    refine ⟨d.text ++ List.replicate d.exponent.natAbs '0', [],
      ⟨by simp [Numeral.marked], by simp [d.text_ne_nil], ?_, by simp⟩, fun hpos hzero => ?_,
      by simp [hexp], ?_⟩
    · exact fun c hc => (List.mem_append.1 hc).elim (htext c) (hzeros _ c)
    · rw [Numeral.head?_append_of_ne_nil d.text_ne_nil] at hzero
      exact absurd hzero (hhead hpos)
    · rw [List.append_nil, Numeral.value_append_zeros, value_text, Binary64.decimalRank_mul_ten_pow]
      congr 1
      simp only [List.length_nil]
      omega
  · next hexp =>
    split
    · next hplaces =>
      have hlength : (d.text.drop (d.text.length - d.exponent.natAbs)).length = d.exponent.natAbs := by
        rw [List.length_drop]
        omega
      have hne : d.text.drop (d.text.length - d.exponent.natAbs) ≠ [] := by
        rw [← List.length_pos_iff]
        omega
      refine ⟨d.text.take (d.text.length - d.exponent.natAbs),
        d.text.drop (d.text.length - d.exponent.natAbs), ⟨?_, ?_, ?_, ?_⟩, fun hpos hzero => ?_,
        by simp [hexp, hne], ?_⟩
      · simp [Numeral.marked, hne]
      · rw [← List.length_pos_iff, List.length_take]
        omega
      · exact fun c hc => htext c (List.mem_of_mem_take hc)
      · exact fun c hc => htext c (List.mem_of_mem_drop hc)
      · rw [List.head?_take, if_neg (by omega)] at hzero
        exact absurd hzero (hhead hpos)
      · rw [List.take_append_drop, value_text, hlength]
        congr 1
        omega
    · next hplaces =>
      refine ⟨['0'], List.replicate (d.exponent.natAbs - d.text.length) '0' ++ d.text,
        ⟨?_, by simp, ?_, ?_⟩, fun _ _ => rfl, by simp [hexp, d.text_ne_nil], ?_⟩
      · simp [Numeral.marked, d.text_ne_nil]
      · exact hzeros 1
      · exact fun c hc => (List.mem_append.1 hc).elim (hzeros _ c) (htext c)
      · have hvalue : Numeral.value (['0'] ++ (List.replicate (d.exponent.natAbs - d.text.length) '0'
            ++ d.text)) = d.digits := by
          rw [← List.append_assoc, ← value_text d]
          exact Numeral.value_zeros_append (d.exponent.natAbs - d.text.length + 1) d.text
        rw [hvalue]
        congr 1
        simp only [List.length_append, List.length_replicate]
        omega

end Decimal

namespace Binary64

/-- The number that plain notation says: the negative zero has no notation of its own. -/
def plain (x : Binary64) : Binary64 := if x.isZero then zero else x

theorem decimal_eq {whole fraction : List Char} {rank : Nat} (negative : Bool)
    (h : decimalRank (Numeral.value (whole ++ fraction)) (0 - fraction.length) = rank)
    (hrank : rank ≤ infinityRank) (hpos : rank ≠ 0) :
    Numeral.decimal whole fraction 0 negative = ⟨negative, rank, hrank⟩ := by
  have hsign : (Numeral.decimal whole fraction 0 negative).negative = negative := by
    unfold Numeral.decimal ofDecimal
    split
    · rfl
    · split
      · rfl
      · split <;> rfl
  have hread : (Numeral.decimal whole fraction 0 negative).rank = rank := by
    unfold Numeral.decimal
    rw [rank_ofDecimal, h]
  generalize Numeral.decimal whole fraction 0 negative = x at hsign hread
  obtain ⟨n, r, hr⟩ := x
  simp only at hsign hread
  subst hsign hread
  rfl

/-- Plain notation of a finite number: a sign, if there is any, and an unsigned decimal; and reading
it gives the number. -/
theorem plainText_decimal {x : Binary64} (h : x.isFinite = true) :
    ∃ (negative : Bool) (text whole fraction : List Char),
      x.plainText.toList = (if negative then '-' :: text else text) ∧
        Numeral.IsDecimal text whole fraction ∧ Numeral.read x.plainText.toList = x.plain := by
  unfold plainText plain
  split
  · refine ⟨false, ['0'], ['0'], [], rfl, ⟨rfl, by simp, ?_, by simp⟩, by decide⟩
    intro c hc
    rw [List.mem_singleton.1 hc]
    rfl
  · next hzero =>
    have hpos : x.rank ≠ 0 := by simpa [isZero] using hzero
    obtain ⟨whole, fraction, hdecimal, -, -, hrank⟩ := (shortest .up x.rank).positional_isDecimal
    rw [decimalRank_shortest .up x.rank_le] at hrank
    have htext : x.positionalText.toList
        = if x.negative then '-' :: (shortest .up x.rank).positional
          else (shortest .up x.rank).positional := by
      unfold positionalText
      rw [if_pos h]
      exact String.toList_ofList
    refine ⟨x.negative, _, whole, fraction, htext, hdecimal, ?_⟩
    rw [htext, hdecimal.read_eq, decimal_eq x.negative hrank x.rank_le hpos]

end Binary64

end DesignSync

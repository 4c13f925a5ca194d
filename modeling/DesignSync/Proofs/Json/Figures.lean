import DesignSync.Proofs.Json.Printed
import DesignSync.Proofs.Number.Notation

/-!
The figures of printed numbers. The text of an integer has neither a fraction nor an exponent and
that of a finite float has one of them, so that what is written says which number it is. The integers
of the 64-bit ranges are read back.
-/

namespace DesignSync.Json

open Binary64

/-- The place of the magnitude that figures say. -/
def Figures.rank (f : Figures) : Nat :=
  decimalRank (Numeral.value (f.whole ++ f.fraction.getD []))
    (f.exponent.getD 0 - (f.fraction.getD []).length)

/-- Whether there is a fraction or an exponent. -/
def Figures.IsFloat (f : Figures) : Prop := f.fraction.isSome = true ∨ f.exponent.isSome = true

/-- Whether a number is written with some figures. -/
def Figures.Says (f : Figures) : Json → Prop
  | integer n => f.fraction = none ∧ f.exponent = none ∧ f.negative = decide (n < 0) ∧
      Numeral.value f.whole = n.natAbs
  | float x => f.IsFloat ∧ f.negative = x.negative ∧ f.rank = x.rank
  | _ => False

/-- Figures say one number only. -/
theorem Figures.Says.unique {f : Figures} {j k : Json} (hj : f.Says j) (hk : f.Says k) : j = k := by
  have hplain : ∀ {n : Int} {x : Binary64}, f.Says (integer n) → ¬ f.Says (float x) := by
    rintro n x ⟨hfraction, hexponent, -⟩ ⟨hfloat, -⟩
    rw [Figures.IsFloat, hfraction, hexponent] at hfloat
    rcases hfloat with h | h <;> cases h
  cases j with
  | integer m =>
    cases k with
    | integer n =>
      obtain ⟨-, -, hm, hmabs⟩ := hj
      obtain ⟨-, -, hn, hnabs⟩ := hk
      have hsign : m < 0 ↔ n < 0 := decide_eq_decide.1 (hm.symm.trans hn)
      have habs : m.natAbs = n.natAbs := hmabs.symm.trans hnabs
      congr 1
      omega
    | float x => exact absurd hk (hplain hj)
    | _ => exact hk.elim
  | float x =>
    cases k with
    | integer n => exact absurd hj (hplain hk)
    | float y =>
      obtain ⟨-, hx, hxrank⟩ := hj
      obtain ⟨-, hy, hyrank⟩ := hk
      obtain ⟨negative, rank, hrank⟩ := x
      obtain ⟨negative', rank', hrank'⟩ := y
      obtain rfl : negative = negative' := hx.symm.trans hy
      obtain rfl : rank = rank' := hxrank.symm.trans hyrank
      rfl
    | _ => exact hk.elim
  | _ => exact hj.elim

/-! ### Reading what is written -/

variable {digits rest : List Char}

/-- Digits are taken up to what is none. -/
private theorem span_digits (hdigits : ∀ c ∈ digits, Numeral.isDigit c = true)
    (hrest : ∀ c ∈ rest.head?, Numeral.isDigit c = false) :
    (digits ++ rest).takeWhile Numeral.isDigit = digits ∧
      (digits ++ rest).dropWhile Numeral.isDigit = rest := by
  rw [List.takeWhile_append_of_pos hdigits, List.dropWhile_append_of_pos hdigits]
  cases rest with
  | nil => exact ⟨List.append_nil digits, rfl⟩
  | cons c rest => simp [hrest c rfl]

private theorem not_isEmpty (hne : digits ≠ []) : ¬ digits.isEmpty = true :=
  fun h => hne (List.isEmpty_iff.1 h)

private theorem isDigit_of_mem_toDigits {n : Nat} {c : Char} (h : c ∈ Nat.toDigits 10 n) :
    Numeral.isDigit c = true :=
  Numeral.isDigit_iff.2 (Nat.isDigit_of_mem_toDigits (by decide) (by decide) h)

private theorem minusSign_signed (negative : Bool) {cs : List Char} (h : cs.head? ≠ some '-') :
    minusSign (if negative then '-' :: cs else cs) = (negative, cs) := by
  cases negative with
  | true => rfl
  | false =>
    change minusSign cs = _
    unfold minusSign
    split
    · exact absurd rfl h
    · rfl

private theorem head?_ne_minus (hne : digits ≠ []) (hdigits : ∀ c ∈ digits, Numeral.isDigit c = true)
    (rest : List Char) : (digits ++ rest).head? ≠ some '-' := by
  obtain ⟨c, tail, rfl⟩ := List.exists_cons_of_ne_nil hne
  intro h
  have hminus : c = '-' := Option.some.inj h
  have hc := hdigits c List.mem_cons_self
  rw [hminus] at hc
  cases hc

/-- The sign and the whole digits of a number are read, and then its other parts. -/
theorem readFigures_signed (negative : Bool) (hne : digits ≠ [])
    (hdigits : ∀ c ∈ digits, Numeral.isDigit c = true) (hunpadded : Numeral.Unpadded digits)
    (hrest : ∀ c ∈ rest.head?, Numeral.isDigit c = false)
    {fraction : Option (List Char)} {behind : List Char}
    (hfraction : readFraction rest = some (fraction, behind)) {exponent : Option Int}
    (hexponent : readExponent behind = some (exponent, [])) :
    readFigures (if negative then '-' :: (digits ++ rest) else digits ++ rest) =
      some (⟨negative, digits, fraction, exponent⟩, []) := by
  have hkept : ¬ (digits.isEmpty || (digits.length > 1 && digits.head? == some '0')) = true := by
    simp only [Bool.or_eq_true, List.isEmpty_iff, Bool.and_eq_true, decide_eq_true_eq, beq_iff_eq]
    rintro (hempty | ⟨hlength, hzero⟩)
    · exact hne hempty
    · have := hunpadded hzero
      omega
  obtain ⟨htake, hdrop⟩ := span_digits hdigits hrest
  rw [readFigures_eq, minusSign_signed negative (head?_ne_minus hne hdigits rest)]
  simp only [htake, hdrop, if_neg hkept]
  rw [hfraction, Option.bind_some, hexponent, Option.map_some]

theorem readFraction_mark (hne : digits ≠ []) (hdigits : ∀ c ∈ digits, Numeral.isDigit c = true)
    (hrest : ∀ c ∈ rest.head?, Numeral.isDigit c = false) :
    readFraction ('.' :: (digits ++ rest)) = some (some digits, rest) := by
  obtain ⟨htake, hdrop⟩ := span_digits hdigits hrest
  simp only [readFraction, htake, hdrop, if_neg (not_isEmpty hne)]

/-- The text of an exponent, its sign always there. -/
def exponentText (e : Int) : List Char :=
  'e' :: (if e < 0 then '-' else '+') :: Nat.toDigits 10 e.natAbs

theorem readExponent_exponentText (e : Int) : readExponent (exponentText e) = some (some e, []) := by
  have hsign (ds : List Char) : exponentSign ((if e < 0 then '-' else '+') :: ds) =
      (decide (e < 0), ds) := by
    by_cases he : e < 0 <;> simp [exponentSign, he]
  have hdigits : ∀ c ∈ Nat.toDigits 10 e.natAbs, Numeral.isDigit c = true :=
    fun _ => isDigit_of_mem_toDigits
  have hend : ∀ c ∈ ([] : List Char).head?, Numeral.isDigit c = false := by simp
  obtain ⟨htake, hdrop⟩ := span_digits hdigits hend
  rw [List.append_nil] at htake hdrop
  have hvalue : (if decide (e < 0) = true then -(e.natAbs : Int) else (e.natAbs : Int)) = e := by
    by_cases he : e < 0
    · rw [if_pos (decide_eq_true he)]
      omega
    · rw [if_neg (by simpa using he)]
      omega
  rw [exponentText, readExponent_cons, if_pos (.inl rfl), hsign]
  simp only [htake, hdrop, if_neg (not_isEmpty Nat.toDigits_ne_nil), Numeral.value_toDigits, hvalue]

/-! ### Integers -/

/-- The integers of the 64-bit ranges, signed and unsigned. -/
def InRange (n : Int) : Prop := -(Nat.pow 2 63 : Int) ≤ n ∧ n < UInt64.size

theorem toList_toString (n : Int) : (toString n).toList =
    if decide (n < 0) then '-' :: Nat.toDigits 10 n.natAbs else Nat.toDigits 10 n.natAbs := by
  cases n with
  | ofNat m => exact Nat.toList_repr
  | negSucc m =>
    have htext : toString (Int.negSucc m) = "-" ++ (m + 1).repr := rfl
    rw [htext, String.toList_append, Nat.toList_repr, if_pos (decide_eq_true (Int.negSucc_lt_zero m))]
    rfl

theorem readFigures_integer (n : Int) : readFigures (scalarText (integer n)) =
    some (⟨decide (n < 0), Nat.toDigits 10 n.natAbs, none, none⟩, []) := by
  have hend : ∀ c ∈ ([] : List Char).head?, Numeral.isDigit c = false := nofun
  have hread := readFigures_signed (decide (n < 0)) Nat.toDigits_ne_nil
    (fun _ => isDigit_of_mem_toDigits) (Numeral.unpadded_toDigits n.natAbs) hend rfl rfl
  rw [List.append_nil] at hread
  rw [scalarText, toList_toString]
  exact hread

/-- What an integer is written with says that integer. -/
theorem says_integer (n : Int) :
    Figures.Says ⟨decide (n < 0), Nat.toDigits 10 n.natAbs, none, none⟩ (integer n) :=
  ⟨rfl, rfl, rfl, Numeral.value_toDigits _⟩

/-- All digits are taken where they give a number below `2 ^ 64`. -/
theorem append_eq {n : Nat} {ds : List Char} (h : Nat.ofDigitChars 10 ds n < UInt64.size) :
    append n ds = (Nat.ofDigitChars 10 ds n, 0) := by
  induction ds generalizing n with
  | nil => rfl
  | cons d ds ih =>
    have hnext : Nat.ofDigitChars 10 (d :: ds) n =
        Nat.ofDigitChars 10 ds (10 * n + Numeral.digit d) := Nat.ofDigitChars_cons
    rw [hnext] at h ⊢
    -- more digits only make a number greater
    have hle : 10 * n + Numeral.digit d ≤ Nat.ofDigitChars 10 ds (10 * n + Numeral.digit d) := by
      rw [Nat.ofDigitChars_eq_ofDigitChars_zero]
      have hpos : 0 < 10 ^ ds.length := Nat.pow_pos (by decide)
      have := Nat.le_mul_of_pos_left (10 * n + Numeral.digit d) hpos
      omega
    rw [append]
    simp only [if_pos (Nat.lt_of_le_of_lt hle h)]
    exact ih h

/-- An integer of the 64-bit ranges is what its text is read as. -/
theorem readsBack_integer {n : Int} (h : InRange n) : ReadsBack (integer n) := by
  obtain ⟨hlow, hhigh⟩ := h
  have hbelow : Nat.pow 2 63 < UInt64.size := by decide
  have hvalue : Nat.ofDigitChars 10 (Nat.toDigits 10 n.natAbs) 0 = n.natAbs :=
    Nat.ofDigitChars_ten_toDigits
  have happend : append 0 (Nat.toDigits 10 n.natAbs) = (n.natAbs, 0) := by
    rw [append_eq (by omega), hvalue]
  have hwhole : ofWhole (decide (n < 0)) n.natAbs = integer n := by
    unfold ofWhole
    by_cases hn : n < 0
    · rw [if_pos (decide_eq_true hn), if_neg (by omega)]
      congr 1
      omega
    · rw [if_neg (by simpa using hn)]
      congr 1
      omega
  have hfigures : Figures.value? ⟨decide (n < 0), Nat.toDigits 10 n.natAbs, none, none⟩ =
      some (integer n) := by
    rw [Figures.value?]
    simp [happend, hwhole]
  rw [ReadsBack, readNumber, readFigures_integer, Option.map_some]
  simp only [hfigures, Option.getD_some]

/-! ### Floats -/

theorem digits_shortest_ne (tie : Tie) {rank : Nat} (hrank : rank ≤ infinityRank) (hpos : rank ≠ 0) :
    (shortest tie rank).digits ≠ 0 := by
  intro hzero
  have hread := decimalRank_shortest tie hrank
  rw [hzero, decimalRank_zero] at hread
  exact hpos hread.symm

private theorem toList_jsonText {x : Binary64} (h : x.isFinite = true) :
    x.jsonText.toList =
      let d := shortest .even x.rank
      let magnitude := if x.isZero then ['0', '.', '0']
        else if -5 ≤ d.leading ∧ d.leading < 16 then
          if 0 ≤ d.exponent then d.positional ++ ['.', '0'] else d.positional
        else d.scientific
      if x.negative then '-' :: magnitude else magnitude := by
  unfold jsonText
  rw [if_pos h]
  exact String.toList_ofList

/-- Whether a text, with a sign if there has to be one, is that of the float at a place. -/
def WritesFloat (text : List Char) (rank : Nat) : Prop :=
  ∀ negative : Bool, ∃ f : Figures,
    readFigures (if negative then '-' :: text else text) = some (f, []) ∧
      f.IsFloat ∧ f.negative = negative ∧ f.rank = rank

/-- Whole digits, a mark and a fraction. -/
theorem writesFloat_fraction {whole fraction : List Char} (hne : whole ≠ [])
    (hwhole : ∀ c ∈ whole, Numeral.isDigit c = true) (hunpadded : Numeral.Unpadded whole)
    (hfraction : fraction ≠ []) (hdigits : ∀ c ∈ fraction, Numeral.isDigit c = true) :
    WritesFloat (whole ++ '.' :: fraction)
      (decimalRank (Numeral.value (whole ++ fraction)) (0 - fraction.length)) := by
  intro negative
  have hend : ∀ c ∈ ([] : List Char).head?, Numeral.isDigit c = false := nofun
  have hmark := readFraction_mark hfraction hdigits hend
  rw [List.append_nil] at hmark
  have hrest : ∀ c ∈ ('.' :: fraction).head?, Numeral.isDigit c = false := by
    intro c hc
    cases hc
    rfl
  exact ⟨_, readFigures_signed negative hne hwhole hunpadded hrest hmark rfl, .inl rfl, rfl, rfl⟩

/-- Positional notation with a fraction, which is a zero where there would be none. -/
theorem writesFloat_positional {d : Decimal} (h : d.digits ≠ 0) :
    WritesFloat (if 0 ≤ d.exponent then d.positional ++ ['.', '0'] else d.positional)
      (decimalRank d.digits d.exponent) := by
  obtain ⟨whole, fraction, ⟨htext, hne, hwhole, hdigits⟩, hunpadded, hfraction, hrank⟩ :=
    d.positional_isDecimal
  rw [htext, ← hrank]
  by_cases hexp : 0 ≤ d.exponent
  · rw [if_pos hexp, hfraction.2 hexp]
    have hfloat := writesFloat_fraction hne hwhole (hunpadded h) (List.cons_ne_nil '0' [])
      (by simp [Numeral.isDigit])
    have hzero : Numeral.value (whole ++ ['0']) = Numeral.value whole * 10 := by
      have := Numeral.value_append_zeros whole 1
      rwa [Nat.pow_one] at this
    rw [hzero, decimalRank_mul_ten] at hfloat
    simpa [Numeral.marked] using hfloat
  · have hsome : fraction ≠ [] := fun hnone => hexp (hfraction.1 hnone)
    have hmarked : Numeral.marked whole fraction = whole ++ '.' :: fraction := by
      simp [Numeral.marked, hsome]
    rw [if_neg hexp, hmarked]
    exact writesFloat_fraction hne hwhole (hunpadded h) hsome hdigits

private theorem unpadded_singleton (c : Char) : Numeral.Unpadded [c] := fun _ => rfl

theorem writesFloat_scientific (d : Decimal) :
    WritesFloat d.scientific (decimalRank d.digits d.exponent) := by
  intro negative
  obtain ⟨c, cs, htext⟩ := List.exists_cons_of_ne_nil d.text_ne_nil
  have hdigits : ∀ b ∈ c :: cs, Numeral.isDigit b = true :=
    fun b hb => d.isDigit_of_mem_text (htext ▸ hb)
  obtain ⟨hc, hcs⟩ := List.forall_mem_cons.1 hdigits
  have hfirst : ∀ b ∈ [c], Numeral.isDigit b = true := by simpa using hc
  have hexponent := readExponent_exponentText d.leading
  have hmark : ∀ b ∈ (exponentText d.leading).head?, Numeral.isDigit b = false := by
    intro b hb
    cases hb
    rfl
  have hrank : decimalRank d.digits d.exponent =
      decimalRank (Numeral.value (c :: cs)) (d.leading - cs.length) := by
    rw [← d.value_text, htext, Decimal.leading, htext, List.length_cons]
    congr 1
    omega
  rw [hrank]
  cases cs with
  | nil =>
    have hscientific : d.scientific = [c] ++ exponentText d.leading := by
      unfold Decimal.scientific
      rw [htext]
      rfl
    have hnone : readFraction (exponentText d.leading) = some (none, exponentText d.leading) := rfl
    rw [hscientific]
    exact ⟨_, readFigures_signed negative (List.cons_ne_nil c []) hfirst (unpadded_singleton c) hmark
      hnone hexponent, .inr rfl, rfl, rfl⟩
  | cons b bs =>
    have hscientific : d.scientific = [c] ++ '.' :: ((b :: bs) ++ exponentText d.leading) := by
      unfold Decimal.scientific
      rw [htext]
      rfl
    have hpoint : ∀ x ∈ ('.' :: ((b :: bs) ++ exponentText d.leading)).head?,
        Numeral.isDigit x = false := by
      intro x hx
      cases hx
      rfl
    rw [hscientific]
    exact ⟨_, readFigures_signed negative (List.cons_ne_nil c []) hfirst (unpadded_singleton c) hpoint
      (readFraction_mark (List.cons_ne_nil b bs) hcs hmark) hexponent, .inr rfl, rfl, rfl⟩

/-- The text of a finite float has figures that say it. -/
theorem exists_figures_float {x : Binary64} (h : x.isFinite = true) :
    ∃ f : Figures, readFigures (scalarText (float x)) = some (f, []) ∧ f.Says (float x) := by
  have hrank := decimalRank_shortest .even x.rank_le
  rw [scalarText, toList_jsonText h]
  dsimp only
  by_cases hzero : x.isZero = true
  · have hplace : x.rank = 0 := by simpa [isZero] using hzero
    have htext : WritesFloat (['0'] ++ ['.', '0']) x.rank := by
      have hzeros : ∀ c ∈ ['0'], Numeral.isDigit c = true := by simp [Numeral.isDigit]
      have hfloat := writesFloat_fraction (List.cons_ne_nil '0' []) hzeros (unpadded_singleton '0')
        (List.cons_ne_nil '0' []) hzeros
      have hvalue : Numeral.value (['0'] ++ ['0']) = 0 := rfl
      rwa [hvalue, decimalRank_zero, ← hplace] at hfloat
    simp only [if_pos hzero]
    exact htext x.negative
  · have hdigits : (shortest .even x.rank).digits ≠ 0 :=
      digits_shortest_ne .even x.rank_le (by simpa [isZero] using hzero)
    simp only [if_neg hzero]
    generalize shortest .even x.rank = d at hrank hdigits
    by_cases hplain : -5 ≤ d.leading ∧ d.leading < 16
    · have htext := writesFloat_positional hdigits x.negative
      rw [hrank] at htext
      simp only [if_pos hplain]
      exact htext
    · have htext := writesFloat_scientific d x.negative
      rw [hrank] at htext
      simp only [if_neg hplain]
      exact htext

end DesignSync.Json

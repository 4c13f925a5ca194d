import DesignSync.Json.Printer
import DesignSync.Json.Reader
import DesignSync.Proofs.Json.Parts
import DesignSync.Proofs.Text.Quoted

/-!
Printed values are read back. A value is read from its text if each scalar in it is, and if it is not
nested too deep: arrays and objects add nothing that a reader could take in another way.
-/

namespace DesignSync.Json

open Text

/-- Whether a scalar is what its text is read as. For a number that is up to how it is rounded. -/
def ReadsBack : Json → Prop
  | integer n => readNumber (scalarText (integer n)) = some (integer n, [])
  | float x => readNumber (scalarText (float x)) = some (float x, [])
  | unfit => False
  | _ => True

/-- Whether a float is what its text is read as, by evaluation. -/
def readsBackFloat (x : Binary64) : Bool :=
  match readNumber (scalarText (float x)) with
  | some (float y, []) => decide (y = x)
  | _ => false

theorem readsBack_of_readsBackFloat {x : Binary64} (h : readsBackFloat x = true) :
    ReadsBack (float x) := by
  unfold readsBackFloat at h
  split at h
  · next y heq =>
    obtain rfl : y = x := of_decide_eq_true h
    exact heq
  · cases h

/-! ### White space -/

theorem skipSpace_append {gap : List Char} (hgap : ∀ c ∈ gap, isSpace c = true) (cs : List Char) :
    skipSpace (gap ++ cs) = skipSpace cs := by
  rw [skipSpace, List.dropWhile_append_of_pos hgap]
  rfl

theorem skipSpace_cons {c : Char} (hc : isSpace c = false) (cs : List Char) :
    skipSpace (c :: cs) = c :: cs := by
  simp [skipSpace, hc]

/-! ### Numbers -/

/-- What can stand behind a number: nothing that goes on with it. -/
def EndsNumber (after : List Char) : Prop :=
  ∀ c ∈ after.head?, Numeral.isDigit c = false ∧ c ≠ '.' ∧ c ≠ 'e' ∧ c ≠ 'E'

theorem takeWhile_append_of_ends {p : Char → Bool} {after : List Char}
    (hafter : ∀ c ∈ after.head?, p c = false) (cs : List Char) :
    (cs ++ after).takeWhile p = cs.takeWhile p ∧
      (cs ++ after).dropWhile p = cs.dropWhile p ++ after := by
  induction cs with
  | nil =>
    cases after with
    | nil => exact ⟨rfl, rfl⟩
    | cons c after => simp [hafter c rfl]
  | cons c cs ih => cases hc : p c <;> simp [hc, ih.1, ih.2]

theorem EndsNumber.digits {after : List Char} (h : EndsNumber after) (cs : List Char) :
    (cs ++ after).takeWhile Numeral.isDigit = cs.takeWhile Numeral.isDigit ∧
      (cs ++ after).dropWhile Numeral.isDigit = cs.dropWhile Numeral.isDigit ++ after :=
  takeWhile_append_of_ends (fun c hc => (h c hc).1) cs

variable {cs after rest : List Char}

/-- The sign of a number, and what is behind it. -/
def minusSign (cs : List Char) : Bool × List Char :=
  match cs with
  | '-' :: rest => (true, rest)
  | _ => (false, cs)

/-- The sign of an exponent, and what is behind it. -/
def exponentSign (cs : List Char) : Bool × List Char :=
  match cs with
  | '-' :: rest => (true, rest)
  | '+' :: rest => (false, rest)
  | rest => (false, rest)

theorem minusSign_append (hne : cs ≠ []) (after : List Char) :
    minusSign (cs ++ after) = ((minusSign cs).1, (minusSign cs).2 ++ after) := by
  cases cs with
  | nil => exact absurd rfl hne
  | cons c cs =>
    by_cases hminus : c = '-'
    · rw [hminus]
      rfl
    · simp [minusSign, hminus]

theorem exponentSign_append (hne : cs ≠ []) (after : List Char) :
    exponentSign (cs ++ after) = ((exponentSign cs).1, (exponentSign cs).2 ++ after) := by
  cases cs with
  | nil => exact absurd rfl hne
  | cons c cs =>
    by_cases hminus : c = '-'
    · rw [hminus]
      rfl
    · by_cases hplus : c = '+'
      · rw [hplus]
        rfl
      · simp [exponentSign, hminus, hplus]

theorem readExponent_cons (c : Char) (cs : List Char) : readExponent (c :: cs) =
    if c = 'e' ∨ c = 'E' then
      if ((exponentSign cs).2.takeWhile Numeral.isDigit).isEmpty then none
      else
        let n : Int := Numeral.value ((exponentSign cs).2.takeWhile Numeral.isDigit)
        some (some (if (exponentSign cs).1 then -n else n),
          (exponentSign cs).2.dropWhile Numeral.isDigit)
    else some (none, c :: cs) := rfl

theorem readExponent_append (hafter : EndsNumber after) {e : Option Int}
    (h : readExponent cs = some (e, [])) : readExponent (cs ++ after) = some (e, after) := by
  cases cs with
  | nil =>
    cases h
    cases after with
    | nil => rfl
    | cons c after =>
      have hc := hafter c rfl
      simp [readExponent, hc.2.2.1, hc.2.2.2]
  | cons c cs =>
    rw [readExponent_cons] at h
    split at h
    · next hmark =>
      have hne : cs ≠ [] := by
        rintro rfl
        cases h
      split at h
      · cases h
      · next hdigits =>
        obtain ⟨heq, hrest⟩ := Prod.mk.inj (Option.some.inj h)
        simp only [List.cons_append, readExponent_cons, if_pos hmark, exponentSign_append hne,
          (hafter.digits _).1, (hafter.digits _).2, if_neg hdigits, hrest, List.nil_append, heq]
    · cases h

theorem readFraction_append (hafter : EndsNumber after) {f : Option (List Char)}
    (h : readFraction cs = some (f, rest)) : readFraction (cs ++ after) = some (f, rest ++ after) := by
  cases cs with
  | nil =>
    cases h
    cases after with
    | nil => rfl
    | cons c after =>
      have hc := hafter c rfl
      unfold readFraction
      split
      · next heq => exact absurd (List.cons.inj heq).1 hc.2.1
      · rfl
  | cons c cs =>
    by_cases hmark : c = '.'
    · subst hmark
      simp only [readFraction, List.cons_append, (hafter.digits cs).1, (hafter.digits cs).2] at h ⊢
      split at h
      · cases h
      · next hdigits =>
        cases h
        rw [if_neg hdigits]
    · have hnone : ∀ tail, readFraction (c :: tail) = some (none, c :: tail) := by
        intro tail
        unfold readFraction
        split
        · next heq => exact absurd (List.cons.inj heq).1 hmark
        · rfl
      rw [hnone] at h
      cases h
      rw [List.cons_append, hnone]

/-- The figures of a number by the parts that are read one behind the other. -/
theorem readFigures_eq (cs : List Char) : readFigures cs =
    let whole := (minusSign cs).2.takeWhile Numeral.isDigit
    if whole.isEmpty || (whole.length > 1 && whole.head? == some '0') then none
    else (readFraction ((minusSign cs).2.dropWhile Numeral.isDigit)).bind fun x =>
      (readExponent x.2).map fun y => (⟨(minusSign cs).1, whole, x.1, y.1⟩, y.2) := by
  unfold readFigures
  split
  next negative body heq =>
  have hsign : minusSign cs = (negative, body) := heq
  rw [hsign]
  simp only [Option.bind_eq_bind, Option.map_eq_bind]
  rfl

theorem readFigures_append (hafter : EndsNumber after) {f : Figures}
    (h : readFigures cs = some (f, [])) : readFigures (cs ++ after) = some (f, after) := by
  have hne : cs ≠ [] := by
    rintro rfl
    cases h
  rw [readFigures_eq] at h
  rw [readFigures_eq]
  simp only [minusSign_append hne, (hafter.digits _).1, (hafter.digits _).2]
  dsimp only at h
  split at h
  · cases h
  · next hwhole =>
    rw [if_neg hwhole]
    obtain ⟨⟨fraction, rest⟩, hfraction, h⟩ := Option.bind_eq_some_iff.1 h
    obtain ⟨⟨exponent, rest'⟩, hexponent, h⟩ := Option.map_eq_some_iff.1 h
    obtain ⟨hf, rfl⟩ := Prod.mk.inj h
    rw [readFraction_append hafter hfraction, Option.bind_some,
      readExponent_append hafter hexponent, Option.map_some, hf]

theorem readNumber_append (hafter : EndsNumber after) {j : Json}
    (h : readNumber cs = some (j, [])) : readNumber (cs ++ after) = some (j, after) := by
  obtain ⟨⟨figures, rest⟩, hfigures, heq⟩ := Option.map_eq_some_iff.1 h
  obtain ⟨rfl, rfl⟩ := Prod.mk.inj heq
  rw [readNumber, readFigures_append hafter hfigures]
  rfl

/-! ### Scalars -/

theorem head?_of_readNumber {x : Json × List Char} (h : readNumber cs = some x) :
    ∃ c tail, cs = c :: tail ∧ (c = '-' ∨ Numeral.isDigit c = true) := by
  obtain ⟨figures, hfigures, -⟩ := Option.map_eq_some_iff.1 h
  cases cs with
  | nil => cases hfigures
  | cons c tail =>
    refine ⟨c, tail, rfl, ?_⟩
    by_cases hminus : c = '-'
    · exact .inl hminus
    · cases hdigit : Numeral.isDigit c with
      | true => exact .inr rfl
      | false => simp [readFigures, hminus, hdigit] at hfigures

theorem isNumberStart_of_readNumber {c d : Char} (hc : c = '-' ∨ Numeral.isDigit c = true)
    (hd : d ≠ '-' ∧ Numeral.isDigit d = false) : c ≠ d := by
  rintro rfl
  rcases hc with hc | hc
  · exact hd.1 hc
  · rw [hd.2] at hc
    cases hc

section

variable {gap : List Char} (hgap : ∀ c ∈ gap, isSpace c = true) (limit depth : Nat)

include hgap

theorem readValue_number {j : Json} (h : readNumber cs = some (j, [])) (hafter : EndsNumber after) :
    readValue limit depth (gap ++ (cs ++ after)) = some (j, after) := by
  have hnumber := readNumber_append hafter h
  obtain ⟨c, tail, rfl, hc⟩ := head?_of_readNumber h
  have hne (d : Char) (hd : d ≠ '-' ∧ Numeral.isDigit d = false) := isNumberStart_of_readNumber hc hd
  have hspace : isSpace c = false := by
    simp [isSpace, hne ' ' (by decide), hne '\n' (by decide), hne '\t' (by decide),
      hne '\r' (by decide)]
  rw [List.cons_append] at hnumber ⊢
  unfold readValue
  rw [skipSpace_append hgap, skipSpace_cons hspace]
  split
  · next heq => exact absurd (List.cons.inj heq).1 (hne 'n' (by decide))
  · next heq => exact absurd (List.cons.inj heq).1 (hne 't' (by decide))
  · next heq => exact absurd (List.cons.inj heq).1 (hne 'f' (by decide))
  · next heq => exact absurd (List.cons.inj heq).1 (hne '"' (by decide))
  · next heq => exact absurd (List.cons.inj heq).1 (hne '[' (by decide))
  · next heq => exact absurd (List.cons.inj heq).1 (hne '\x7b' (by decide))
  · exact hnumber

/-- A scalar is read from its text, whatever white space is in front of it. -/
theorem readValue_scalarText {j : Json} (hscalar : IsScalar j) (h : ReadsBack j)
    (hafter : EndsNumber after) :
    readValue limit depth (gap ++ (scalarText j ++ after)) = some (j, after) := by
  have hpass (c : Char) (tail : List Char) (hc : isSpace c = false) :
      skipSpace (gap ++ c :: tail) = c :: tail := by
    rw [skipSpace_append hgap, skipSpace_cons hc]
  cases j with
  | null =>
    change readValue limit depth (gap ++ 'n' :: 'u' :: 'l' :: 'l' :: after) = _
    unfold readValue
    rw [hpass 'n' _ (by decide)]
    rfl
  | bool b =>
    cases b with
    | true =>
      change readValue limit depth (gap ++ 't' :: 'r' :: 'u' :: 'e' :: after) = _
      unfold readValue
      rw [hpass 't' _ (by decide)]
      rfl
    | false =>
      change readValue limit depth (gap ++ 'f' :: 'a' :: 'l' :: 's' :: 'e' :: after) = _
      unfold readValue
      rw [hpass 'f' _ (by decide)]
      rfl
  | integer n => exact readValue_number hgap limit depth h hafter
  | float x => exact readValue_number hgap limit depth h hafter
  | string s =>
    have hdecode := Quoted.decode?_encode s.toList after
    have hread : readText (s.toList.flatMap Quoted.encodeChar ++ '"' :: after) =
        some (some s, after) := by
      rw [readText, hdecode]
      simp
    have htext : scalarText (string s) ++ after =
        '"' :: (s.toList.flatMap Quoted.encodeChar ++ '"' :: after) := by
      simp [scalarText, Quoted.encode]
    rw [htext]
    unfold readValue
    rw [hpass '"' _ (by decide)]
    change (readText _).map _ = _
    rw [hread]
    rfl
  | array items => exact absurd rfl (hscalar.1 items)
  | object members => exact absurd rfl (hscalar.2 members)
  | unfit => exact h.elim

end

/-! ### Sequences -/

section

variable {α β : Type}

/-- Texts one behind the other, with a comma and white space between two of them. -/
def joined (gap : List Char) (print : List Char → α → List Char) (after : List Char) :
    List α → List Char
  | [] => after
  | [x] => print after x
  | x :: xs => print (',' :: (gap ++ joined gap print after xs)) x

variable {print : List Char → α → List Char} {xs : List α}

theorem length_joined (gap after : List Char)
    (hgrow : ∀ x ∈ xs, ∀ after, after.length < (print after x).length) :
    after.length + xs.length ≤ (joined gap print after xs).length := by
  induction xs with
  | nil => simp [joined]
  | cons x xs ih =>
    obtain ⟨hx, hxs⟩ := List.forall_mem_cons.1 hgrow
    cases xs with
    | nil =>
      have := hx after
      simp only [joined, List.length_cons, List.length_nil]
      omega
    | cons y ys =>
      have hrest := ih hxs
      have := hx (',' :: (gap ++ joined gap print after (y :: ys)))
      simp only [List.length_cons, List.length_append] at this hrest
      simp only [joined, List.length_cons]
      omega

theorem endsNumber_cons {c : Char} (hc : Numeral.isDigit c = false ∧ c ≠ '.' ∧ c ≠ 'e' ∧ c ≠ 'E')
    (tail : List Char) : EndsNumber (c :: tail) := by
  intro d hd
  cases hd
  exact hc

theorem endsNumber_gap {gap tail : List Char} (hgap : ∀ c ∈ gap, isSpace c = true)
    (htail : EndsNumber tail) : EndsNumber (gap ++ tail) := by
  cases gap with
  | nil => exact htail
  | cons c gap =>
    refine endsNumber_cons ?_ _
    have hc := hgap c List.mem_cons_self
    simp only [isSpace, Bool.or_eq_true, beq_iff_eq] at hc
    rcases hc with ((rfl | rfl) | rfl) | rfl <;> decide

/-- Whether an item is read from its text, if this is not too long. -/
def ReadsPrinted (limit : Nat) (item : List Char → Option (β × List Char))
    (print : List Char → α → List Char) (said : α → β) (x : α) : Prop :=
  ∀ gap after : List Char, (∀ c ∈ gap, isSpace c = true) → EndsNumber after →
    (print after x).length ≤ limit → item (gap ++ print after x) = some (said x, after)

variable {item : List Char → Option (β × List Char)} {said : α → β} {close : Char}
  (hclose : (isSpace close = false ∧ close ≠ ',') ∧
    Numeral.isDigit close = false ∧ close ≠ '.' ∧ close ≠ 'e' ∧ close ≠ 'E')
  {gap inner : List Char} (hgap : ∀ c ∈ gap, isSpace c = true)
  (hinner : ∀ c ∈ inner, isSpace c = true) {limit : Nat}
  (hread : ∀ x ∈ xs, ReadsPrinted limit item print said x)
  (hgrow : ∀ x ∈ xs, ∀ after, after.length < (print after x).length)

include hclose hgap hinner hread hgrow

theorem readList_joined (hne : xs ≠ []) (after : List Char)
    (hlimit : (joined gap print (inner ++ close :: after) xs).length ≤ limit) {front : List Char}
    (hfront : ∀ c ∈ front, isSpace c = true) {steps : Nat} (hsteps : xs.length ≤ steps) :
    readList item close steps (front ++ joined gap print (inner ++ close :: after) xs) =
      some (xs.map said, after) := by
  induction xs generalizing front steps with
  | nil => exact absurd rfl hne
  | cons x xs ih =>
    obtain ⟨hx, hxs⟩ := List.forall_mem_cons.1 hread
    obtain ⟨steps, rfl⟩ : ∃ n, steps = n + 1 := ⟨steps - 1, by simp at hsteps; omega⟩
    cases xs with
    | nil =>
      have hend : skipSpace (inner ++ close :: after) = close :: after := by
        rw [skipSpace_append hinner, skipSpace_cons hclose.1.1]
      have hitem : item (front ++ joined gap print (inner ++ close :: after) [x]) = _ :=
        hx front _ hfront (endsNumber_gap hinner (endsNumber_cons hclose.2 after)) hlimit
      simp only [readList, hitem, hend, if_true, List.map_cons, List.map_nil]
    | cons y ys =>
      have hitem : item (front ++ joined gap print (inner ++ close :: after) (x :: y :: ys)) = _ :=
        hx front (',' :: (gap ++ joined gap print (inner ++ close :: after) (y :: ys))) hfront
          (endsNumber_cons (by decide) _) hlimit
      have hcomma : isSpace ',' = false := by decide
      have hlength := hgrow x List.mem_cons_self
        (',' :: (gap ++ joined gap print (inner ++ close :: after) (y :: ys)))
      have hshorter : (joined gap print (inner ++ close :: after) (y :: ys)).length ≤ limit := by
        simp only [joined, List.length_cons, List.length_append] at hlength hlimit ⊢
        omega
      have hrest := ih hxs (fun z hz => hgrow z (List.mem_cons_of_mem _ hz)) (by simp) hshorter hgap
        (Nat.le_of_succ_le_succ hsteps)
      simp only [readList, hitem, skipSpace_cons hcomma, if_neg hclose.1.2.symm, if_true, hrest,
        Option.map_some, List.map_cons]

theorem readSequence_joined
    (hstart : ∀ x ∈ xs, ∀ after, ∃ c tail, print after x = c :: tail ∧ isSpace c = false ∧ c ≠ close)
    (hne : xs ≠ []) (after : List Char)
    (hlimit : (joined gap print (inner ++ close :: after) xs).length ≤ limit) {front : List Char}
    (hfront : ∀ c ∈ front, isSpace c = true) :
    readSequence item close limit (front ++ joined gap print (inner ++ close :: after) xs) =
      some (xs.map said, after) := by
  have hsize := length_joined gap (inner ++ close :: after) hgrow
  obtain ⟨c, tail, heq, hspace, hother⟩ : ∃ c tail,
      joined gap print (inner ++ close :: after) xs = c :: tail ∧ isSpace c = false ∧ c ≠ close := by
    cases xs with
    | nil => exact absurd rfl hne
    | cons x xs =>
      cases xs with
      | nil => exact hstart x List.mem_cons_self _
      | cons y ys => exact hstart x List.mem_cons_self _
  have hlist : readList item close limit ([] ++ joined gap print (inner ++ close :: after) xs) = _ :=
    readList_joined hclose hgap hinner hread hgrow hne after hlimit (by simp) (by omega)
  rw [List.nil_append, heq] at hlist
  rw [readSequence, skipSpace_append hfront, heq, skipSpace_cons hspace]
  simp only [if_neg hother, hlist]

end

/-! ### Layouts -/

/-- The white space in front of an item or closing sign so many levels deep, and behind a colon. -/
structure Layout where
  gap : Nat → List Char
  colon : List Char
  isSpace_gap : ∀ level, ∀ c ∈ gap level, isSpace c = true
  isSpace_colon : ∀ c ∈ colon, isSpace c = true

/-- A line feed and the indentation of a level. -/
def lineGap (level : Nat) : List Char := '\n' :: List.replicate (2 * level) ' '

theorem isSpace_lineGap (level : Nat) : ∀ c ∈ lineGap level, isSpace c = true := by
  intro c hc
  rcases List.mem_cons.1 hc with rfl | hc
  · decide
  · rw [List.eq_of_mem_replicate hc]
    decide

namespace Layout

/-- One item a line. -/
def lines : Layout := ⟨lineGap, [' '], isSpace_lineGap, by simp [isSpace]⟩

/-- No white space at all. -/
def tight : Layout := ⟨fun _ => [], [], nofun, nofun⟩

end Layout

section

variable {α β : Type}

/-- What stands in an array or object behind its opening sign. -/
def enclosed (layout : Layout) (close : Char) (level : Nat) (print : List Char → α → List Char)
    (after : List Char) : List α → List Char
  | [] => close :: after
  | x :: xs => layout.gap (level + 1) ++
      joined (layout.gap (level + 1)) print (layout.gap level ++ close :: after) (x :: xs)

variable {print : List Char → α → List Char} {xs : List α}

theorem length_enclosed (layout : Layout) (close : Char) (level : Nat) (after : List Char)
    (hgrow : ∀ x ∈ xs, ∀ after, after.length < (print after x).length) :
    after.length < (enclosed layout close level print after xs).length := by
  cases xs with
  | nil => exact Nat.lt_succ_self _
  | cons x xs =>
    have hsize := length_joined (layout.gap (level + 1)) (layout.gap level ++ close :: after) hgrow
    simp only [enclosed, List.length_append, List.length_cons] at hsize ⊢
    omega

theorem readSequence_enclosed {item : List Char → Option (β × List Char)} {said : α → β}
    {close : Char} (hclose : (isSpace close = false ∧ close ≠ ',') ∧
      Numeral.isDigit close = false ∧ close ≠ '.' ∧ close ≠ 'e' ∧ close ≠ 'E')
    (layout : Layout) (level : Nat) {limit : Nat}
    (hread : ∀ x ∈ xs, ReadsPrinted limit item print said x)
    (hgrow : ∀ x ∈ xs, ∀ after, after.length < (print after x).length)
    (hstart : ∀ x ∈ xs, ∀ after, ∃ c tail, print after x = c :: tail ∧ isSpace c = false ∧ c ≠ close)
    (after : List Char) (hlimit : (enclosed layout close level print after xs).length ≤ limit) :
    readSequence item close limit (enclosed layout close level print after xs) =
      some (xs.map said, after) := by
  cases xs with
  | nil =>
    rw [enclosed, readSequence, skipSpace_cons hclose.1.1]
    exact if_pos rfl
  | cons x xs =>
    simp only [enclosed, List.length_append] at hlimit
    exact readSequence_joined hclose (layout.isSpace_gap (level + 1)) (layout.isSpace_gap level) hread
      hgrow hstart (List.cons_ne_nil x xs) after (by omega) (layout.isSpace_gap (level + 1))

end

/-- A member of an object as it is printed. -/
def Layout.member (layout : Layout) (print : List Char → Json → List Char) (after : List Char)
    (m : String × Json) : List Char :=
  Quoted.encode m.1.toList ++ ':' :: (layout.colon ++ print after m.2)

/-- Whether values are printed in some layout. -/
structure Layout.Prints (layout : Layout) (print : Nat → List Char → Json → List Char) : Prop where
  scalar : ∀ {j : Json}, IsScalar j → ∀ level after, print level after j = scalarText j ++ after
  array : ∀ items level after,
    print level after (array items) = '[' :: enclosed layout ']' level (print (level + 1)) after items
  object : ∀ members level after, print level after (object members) =
    '\x7b' :: enclosed layout '\x7d' level (layout.member (print (level + 1))) after members

theorem prettyItems_eq (level : Nat) (after : List Char) (js : List Json) :
    prettyItems level after js = joined (lineGap level) (prettyBefore level) after js := by
  induction js with
  | nil => rfl
  | cons j js ih =>
    cases js with
    | nil => rfl
    | cons k ks =>
      have hstep : prettyItems level after (j :: k :: ks) =
          prettyBefore level (',' :: (lineGap level ++ prettyItems level after (k :: ks))) j := rfl
      rw [hstep, ih]
      rfl

theorem prettyMembers_eq (level : Nat) (after : List Char) (ms : List (String × Json)) :
    prettyMembers level after ms =
      joined (lineGap level) (Layout.lines.member (prettyBefore level)) after ms := by
  induction ms with
  | nil => rfl
  | cons m ms ih =>
    cases ms with
    | nil => rfl
    | cons n ns =>
      have hstep : prettyMembers level after (m :: n :: ns) = Layout.lines.member (prettyBefore level)
          (',' :: (lineGap level ++ prettyMembers level after (n :: ns))) m := rfl
      rw [hstep, ih]
      rfl

theorem prints_prettyBefore : Layout.lines.Prints prettyBefore where
  scalar {j} h level after := by
    cases j with
    | array items => exact absurd rfl (h.1 items)
    | object members => exact absurd rfl (h.2 members)
    | _ => rfl
  array items level after := by
    cases items with
    | nil => rfl
    | cons j js =>
      have hitems := prettyItems_eq (level + 1) (lineGap level ++ ']' :: after) (j :: js)
      exact congrArg (fun cs => '[' :: (lineGap (level + 1) ++ cs)) hitems
  object members level after := by
    cases members with
    | nil => rfl
    | cons m ms =>
      have hmembers := prettyMembers_eq (level + 1) (lineGap level ++ '\x7d' :: after) (m :: ms)
      exact congrArg (fun cs => '\x7b' :: (lineGap (level + 1) ++ cs)) hmembers

theorem compactItems_eq (after : List Char) (js : List Json) :
    compactItems after js = joined [] compactBefore after js := by
  induction js with
  | nil => rfl
  | cons j js ih =>
    cases js with
    | nil => rfl
    | cons k ks =>
      have hstep : compactItems after (j :: k :: ks) =
          compactBefore (',' :: compactItems after (k :: ks)) j := rfl
      rw [hstep, ih]
      rfl

theorem compactMembers_eq (after : List Char) (ms : List (String × Json)) :
    compactMembers after ms = joined [] (Layout.tight.member compactBefore) after ms := by
  induction ms with
  | nil => rfl
  | cons m ms ih =>
    cases ms with
    | nil => rfl
    | cons n ns =>
      have hstep : compactMembers after (m :: n :: ns) = Layout.tight.member compactBefore
          (',' :: compactMembers after (n :: ns)) m := rfl
      rw [hstep, ih]
      rfl

theorem prints_compactBefore : Layout.tight.Prints fun _ => compactBefore where
  scalar {j} h level after := by
    cases j with
    | array items => exact absurd rfl (h.1 items)
    | object members => exact absurd rfl (h.2 members)
    | _ => rfl
  array items level after := by
    have hitems : compactBefore after (array items) = '[' :: compactItems (']' :: after) items := rfl
    rw [hitems, compactItems_eq]
    cases items <;> rfl
  object members level after := by
    have hmembers : compactBefore after (object members) =
        '\x7b' :: compactMembers ('\x7d' :: after) members := rfl
    rw [hmembers, compactMembers_eq]
    cases members <;> rfl

/-! ### Values -/

/-- What a value can begin with. -/
def StartsValue (cs : List Char) : Prop :=
  ∃ c tail, cs = c :: tail ∧ isSpace c = false ∧ c ≠ ']' ∧ c ≠ '\x7d'

theorem startsValue_scalarText {j : Json} (hscalar : IsScalar j) (h : ReadsBack j) :
    StartsValue (scalarText j) := by
  have hnumber : ∀ {x : Json × List Char}, readNumber (scalarText j) = some x →
      StartsValue (scalarText j) := by
    intro x hx
    obtain ⟨c, tail, heq, hc⟩ := head?_of_readNumber hx
    have hne (d : Char) (hd : d ≠ '-' ∧ Numeral.isDigit d = false) :=
      isNumberStart_of_readNumber hc hd
    refine ⟨c, tail, heq, ?_, hne ']' (by decide), hne '\x7d' (by decide)⟩
    simp [isSpace, hne ' ' (by decide), hne '\n' (by decide), hne '\t' (by decide),
      hne '\r' (by decide)]
  cases j with
  | null => exact ⟨'n', _, rfl, by decide⟩
  | bool b =>
    cases b
    · exact ⟨'f', _, rfl, by decide⟩
    · exact ⟨'t', _, rfl, by decide⟩
  | integer n => exact hnumber h
  | float x => exact hnumber h
  | string s => exact ⟨'"', _, rfl, by decide⟩
  | array items => exact absurd rfl (hscalar.1 items)
  | object members => exact absurd rfl (hscalar.2 members)
  | unfit => exact h.elim

theorem ofRead_some (members : List (String × Json)) :
    ofRead (members.map fun m => (some m.1, m.2)) = object members := by
  have hall : (members.map fun m => ((some m.1, m.2) : Option String × Json)).mapM
      (fun m => m.1.map fun key => (key, m.2)) = some members := by
    induction members with
    | nil => rfl
    | cons m ms ih => simp [ih]
  rw [ofRead, hall]

namespace Layout

variable {layout : Layout} {print : Nat → List Char → Json → List Char}

theorem length_member {print : List Char → Json → List Char} {m : String × Json}
    (h : ∀ after : List Char, after.length < (print after m.2).length) (after : List Char) :
    after.length < (layout.member print after m).length := by
  have := h after
  simp only [member, List.length_append, List.length_cons]
  omega

theorem readsPrinted_member {limit depth : Nat} {print : List Char → Json → List Char}
    {m : String × Json} (h : ReadsPrinted limit (readValue limit depth) print id m.2) :
    ReadsPrinted limit (readMember (readValue limit depth)) (layout.member print)
      (fun m => (some m.1, m.2)) m := by
  intro gap after hgap hafter hlimit
  have hvalue := h layout.colon after layout.isSpace_colon hafter (by
    simp only [member, List.length_append, List.length_cons] at hlimit
    omega)
  have hkey : readText (m.1.toList.flatMap Quoted.encodeChar ++
      '"' :: ':' :: (layout.colon ++ print after m.2)) =
        some (some m.1, ':' :: (layout.colon ++ print after m.2)) := by
    rw [readText, Quoted.decode?_encode]
    simp
  have htext : layout.member print after m = '"' :: (m.1.toList.flatMap Quoted.encodeChar ++
      '"' :: ':' :: (layout.colon ++ print after m.2)) := by
    simp [member, Quoted.encode]
  have hquote : isSpace '"' = false := by decide
  have hcolon : isSpace ':' = false := by decide
  unfold readMember
  rw [htext, skipSpace_append hgap, skipSpace_cons hquote]
  simp only [hkey, Option.bind_eq_bind, Option.bind_some, skipSpace_cons hcolon]
  rw [hvalue]
  rfl

namespace Prints

variable {j : Json} (hprints : layout.Prints print)

include hprints

theorem startsValue (h : ∀ l ∈ j.scalars, ReadsBack l) (level : Nat) (after : List Char) :
    StartsValue (print level after j) := by
  have hscalar : IsScalar j → StartsValue (print level after j) := by
    intro hj
    obtain ⟨c, tail, heq, hc⟩ :=
      startsValue_scalarText hj (h j (by rw [hj.scalars_eq]; exact List.mem_singleton_self j))
    rw [hprints.scalar hj, heq]
    exact ⟨c, tail ++ after, rfl, hc⟩
  cases j with
  | array items => exact ⟨'[', _, hprints.array items level after, by decide⟩
  | object members => exact ⟨'\x7b', _, hprints.object members level after, by decide⟩
  | _ => exact hscalar ⟨nofun, nofun⟩

theorem length_lt (h : ∀ l ∈ j.scalars, ReadsBack l) (level : Nat) (after : List Char) :
    after.length < (print level after j).length := by
  induction j using Json.induct generalizing level after with
  | scalar j hj =>
    obtain ⟨c, tail, heq, -⟩ :=
      startsValue_scalarText hj (h j (by rw [hj.scalars_eq]; exact List.mem_singleton_self j))
    rw [hprints.scalar hj, heq, List.length_append, List.length_cons]
    omega
  | array items ih =>
    rw [scalars_array] at h
    rw [hprints.array]
    refine Nat.lt_succ_of_lt (length_enclosed _ _ _ _ fun k hk => ?_)
    exact ih k hk (fun l hl => h l (List.mem_flatMap.2 ⟨k, hk, hl⟩)) (level + 1)
  | object members ih =>
    rw [scalars_object] at h
    rw [hprints.object]
    refine Nat.lt_succ_of_lt (length_enclosed _ _ _ _ fun m hm => length_member ?_)
    exact ih m hm (fun l hl => h l (List.mem_flatMap.2 ⟨m, hm, hl⟩)) (level + 1)

/-- A printed value is read, whatever white space is in front of it. -/
theorem readsPrinted (h : ∀ l ∈ j.scalars, ReadsBack l) {depth : Nat} (hdepth : j.nesting ≤ depth)
    (limit level : Nat) : ReadsPrinted limit (readValue limit depth) (print level) id j := by
  induction j using Json.induct generalizing depth level with
  | scalar j hj =>
    intro gap after hgap hafter _
    rw [hprints.scalar hj]
    exact readValue_scalarText hgap limit depth hj
      (h j (by rw [hj.scalars_eq]; exact List.mem_singleton_self j)) hafter
  | array items ih =>
    intro gap after hgap hafter hlimit
    obtain ⟨depth, rfl⟩ : ∃ n, depth = n + 1 := ⟨depth - 1, by rw [nesting] at hdepth; omega⟩
    rw [scalars_array] at h
    have hscalars : ∀ k ∈ items, ∀ l ∈ k.scalars, ReadsBack l :=
      fun k hk l hl => h l (List.mem_flatMap.2 ⟨k, hk, hl⟩)
    have hnesting := itemNesting_le.1 (Nat.le_of_succ_le_succ hdepth)
    rw [hprints.array] at hlimit ⊢
    have hsequence : readSequence (readValue limit depth) ']' limit
        (enclosed layout ']' level (print (level + 1)) after items) = some (items.map id, after) :=
      readSequence_enclosed (by decide) layout level
        (fun k hk => ih k hk (hscalars k hk) (hnesting k hk) (level + 1))
        (fun k hk => hprints.length_lt (hscalars k hk) (level + 1))
        (fun k hk after => by
          obtain ⟨c, tail, heq, hspace, hclose, -⟩ :=
            hprints.startsValue (hscalars k hk) (level + 1) after
          exact ⟨c, tail, heq, hspace, hclose⟩)
        after (Nat.le_of_succ_le hlimit)
    have hspace : isSpace '[' = false := by decide
    unfold readValue
    rw [skipSpace_append hgap, skipSpace_cons hspace]
    change (readSequence (readValue limit depth) ']' limit _).map _ = _
    rw [hsequence, List.map_id]
    rfl
  | object members ih =>
    intro gap after hgap hafter hlimit
    obtain ⟨depth, rfl⟩ : ∃ n, depth = n + 1 := ⟨depth - 1, by rw [nesting] at hdepth; omega⟩
    rw [scalars_object] at h
    have hscalars : ∀ m ∈ members, ∀ l ∈ m.2.scalars, ReadsBack l :=
      fun m hm l hl => h l (List.mem_flatMap.2 ⟨m, hm, hl⟩)
    have hnesting := memberNesting_le.1 (Nat.le_of_succ_le_succ hdepth)
    rw [hprints.object] at hlimit ⊢
    have hsequence : readSequence (readMember (readValue limit depth)) '\x7d' limit
        (enclosed layout '\x7d' level (layout.member (print (level + 1))) after members) =
        some (members.map fun m => (some m.1, m.2), after) :=
      readSequence_enclosed (by decide) layout level
        (fun m hm => readsPrinted_member (ih m hm (hscalars m hm) (hnesting m hm) (level + 1)))
        (fun m hm => length_member (hprints.length_lt (hscalars m hm) (level + 1)))
        (fun m hm after => ⟨'"', _, rfl, by decide, by decide⟩)
        after (Nat.le_of_succ_le hlimit)
    have hspace : isSpace '\x7b' = false := by decide
    unfold readValue
    rw [skipSpace_append hgap, skipSpace_cons hspace]
    change (readSequence (readMember (readValue limit depth)) '\x7d' limit _).map _ = _
    rw [hsequence]
    exact congrArg (fun j => some (j, after)) (ofRead_some members)

/-- The text of a value is read back. -/
theorem read_text (h : ∀ l ∈ j.scalars, ReadsBack l) (hdepth : j.nesting ≤ maxDepth) :
    read (String.ofList (print 0 [] j)) = some j := by
  have hread : readValue (print 0 [] j).length maxDepth ([] ++ print 0 [] j) = _ :=
    hprints.readsPrinted h hdepth _ 0 [] [] nofun nofun (Nat.le_refl _)
  rw [List.nil_append] at hread
  rw [read, String.toList_ofList]
  simp only [hread]
  rfl

end Prints

end Layout

/-- A value that is printed with one item a line is read back. -/
theorem read_pretty {j : Json} (h : ∀ l ∈ j.scalars, ReadsBack l) (hdepth : j.nesting ≤ maxDepth) :
    read j.pretty = some j :=
  prints_prettyBefore.read_text h hdepth

/-- A value that is printed without white space is read back. -/
theorem read_compact {j : Json} (h : ∀ l ∈ j.scalars, ReadsBack l) (hdepth : j.nesting ≤ maxDepth) :
    read j.compact = some j :=
  prints_compactBefore.read_text h hdepth

end DesignSync.Json

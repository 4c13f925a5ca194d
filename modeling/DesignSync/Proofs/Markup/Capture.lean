import DesignSync.Proofs.Markup.Counts
import DesignSync.Proofs.Markup.Header
import DesignSync.Proofs.Markup.Places
import DesignSync.Proofs.Text.Blank

/-!
What braces hold. A text that was read between braces is read again between braces of its own,
whatever stands behind them. Blanks at its ends may go, unless the brace that closes it would then
stand in a comment up to the end of a line.
-/

namespace DesignSync.Markup

open Text

/-- Whether a text inside braces ends in a comment that goes on up to the end of the line. -/
def endsInLineComment (cs : List Char) : Bool :=
  match cs with
  | [] => false
  | '/' :: '/' :: rest =>
    let size := runSize (· != '\n') rest
    if size < rest.length then endsInLineComment (rest.drop (size + 1)) else true
  | '/' :: '*' :: rest =>
    match blockSize? rest with
    | some size => endsInLineComment (rest.drop size)
    | none => false
  | c :: rest => endsInLineComment (rest.drop (passedOver c rest))
termination_by cs.length
decreasing_by
  all_goals simp only [List.length_drop, List.length_cons]
  all_goals omega

/-- Braces around a text are read as holding just that text, and reading stops behind the closing
one, whatever comes then. -/
def HeldExactly (s : String) : Prop :=
  ∀ p rest, p.rest = (braced s).toList ++ rest → ∃ q,
    readBraced p = .ok (⟨s, Expression.classify s, p.spanTo q⟩, q) ∧ q.rest = rest ∧
      p.Over (braced s).toList q

/-! ### In front of a tail that closes nothing -/

/-- A quoted part that is not closed goes to the end. -/
theorem quotedSize_of_not_mem {quote : Char} {cs : List Char} (h : quote ∉ cs) :
    quotedSize quote cs = cs.length := by
  fun_induction quotedSize quote cs with
  | case1 => rfl
  | case2 => rfl
  | case3 c cs ih =>
    rw [List.mem_cons, List.mem_cons, not_or, not_or] at h
    rw [ih h.2.2]
    rfl
  | case4 => simp at h
  | case5 c cs _ _ _ ih =>
    rw [List.mem_cons, not_or] at h
    rw [ih h.2]
    rfl

/-- A quoted part that is closed, in front of a tail without the quote, is closed there whatever
comes behind. -/
theorem quotedSize_append_of_closed {quote : Char} {cs tail : List Char} (htail : quote ∉ tail)
    (h : quotedSize quote (cs ++ tail) < (cs ++ tail).length) (more : List Char) :
    quotedSize quote (cs ++ more) = quotedSize quote cs := by
  fun_induction quotedSize quote cs with
  | case1 =>
    rw [List.nil_append, quotedSize_of_not_mem htail] at h
    exact absurd h (Nat.lt_irrefl _)
  | case2 =>
    cases tail with
    | nil => simp [quotedSize] at h
    | cons c tail =>
      rw [List.singleton_append, quotedSize,
        quotedSize_of_not_mem fun hmem => htail (List.mem_cons_of_mem _ hmem)] at h
      exact absurd h (Nat.lt_irrefl _)
  | case3 c cs ih =>
    rw [List.cons_append, List.cons_append, quotedSize] at h
    rw [List.cons_append, List.cons_append, quotedSize, ih (by simpa using h)]
  | case4 cs hlast hpair =>
    rw [List.cons_append, quotedSize_cons_of_ne (ne_of_behind hlast hpair), if_pos rfl]
  | case5 c cs hlast hpair hc ih =>
    have hne := ne_of_behind hlast hpair
    rw [List.cons_append, quotedSize_cons_of_ne hne, if_neg hc] at h
    rw [List.cons_append, quotedSize_cons_of_ne hne, if_neg hc, ih (by simpa using h)]

theorem blockSize?_of_not_mem {cs : List Char} (h : '/' ∉ cs) : blockSize? cs = none := by
  fun_induction blockSize? cs with
  | case1 => rfl
  | case2 => simp at h
  | case3 c cs _ ih =>
    rw [List.mem_cons, not_or] at h
    rw [ih h.2]
    rfl

/-- A tail without a slash closes no comment. -/
theorem blockSize?_of_append {cs tail : List Char} (htail : '/' ∉ tail) {n : Nat}
    (h : blockSize? (cs ++ tail) = some n) : blockSize? cs = some n := by
  fun_induction blockSize? cs generalizing n with
  | case1 =>
    rw [List.nil_append, blockSize?_of_not_mem htail] at h
    cases h
  | case2 cs => exact h
  | case3 c cs hne ih =>
    rw [List.cons_append, blockSize?] at h
    · obtain ⟨m, hm, rfl⟩ := Option.map_eq_some_iff.1 h
      rw [ih hm, Option.map_some]
    · intro rest hc hrest
      cases cs with
      | nil =>
        rw [List.nil_append] at hrest
        exact htail (hrest ▸ List.mem_cons_self)
      | cons d cs => exact hne cs hc (by rw [(List.cons.inj hrest).1])

theorem passedOver_append_of_closed {c : Char} {cs tail : List Char}
    (htail : isInert c = false → c ∉ tail)
    (h : passedOver c (cs ++ tail) < (cs ++ tail).length) (more : List Char) :
    passedOver c (cs ++ more) = passedOver c cs := by
  unfold passedOver at h ⊢
  split
  · next hquote =>
    have hactive : isInert c = false := by
      rcases hquote with rfl | rfl | rfl <;> rfl
    rw [if_pos hquote] at h
    exact quotedSize_append_of_closed (htail hactive) h more
  · rfl

theorem passedOver_le (c : Char) (cs : List Char) : passedOver c cs ≤ cs.length := by
  unfold passedOver
  split
  · exact quotedSize_le c cs
  · exact Nat.zero_le _

/-! ### Blanks in front of a closing brace -/

theorem map_add_eq_some_iff {x : Option Nat} {k m n : Nat} (h : m = k + n) :
    x.map (k + ·) = some m ↔ x = some n := by
  cases x with
  | none => simp
  | some y =>
    rw [Option.map_some, Option.some.injEq, Option.some.injEq]
    omega

theorem isInert_of_isBlank {c : Char} (h : isBlank c = true) : isInert c = true := by
  have hne {d : Char} (hd : isBlank d = false) : c ≠ d := by
    rintro rfl
    rw [h] at hd
    cases hd
  simp only [isInert, Bool.and_eq_true, bne_iff_ne]
  exact ⟨⟨⟨⟨⟨hne rfl, hne rfl⟩, hne rfl⟩, hne rfl⟩, hne rfl⟩, hne rfl⟩

/-- Blanks and the brace that closes a text, which is all that is put behind a text here. -/
def IsClosing (tail : List Char) : Prop := ∀ c ∈ tail, isBlank c = true ∨ c = '\x7d'

theorem IsClosing.not_mem {tail : List Char} (h : IsClosing tail) {c : Char}
    (hblank : isBlank c = false) (hclose : c ≠ '\x7d') : c ∉ tail := by
  intro hmem
  obtain hc | hc := h c hmem
  · rw [hc] at hblank
    cases hblank
  · exact hclose hc

/-- What closes a text does not make a comment of its last character. -/
theorem braceSize?_cons_closing {tail : List Char} (htail : IsClosing tail) (depth : Nat) {c : Char}
    {rest : List Char} (hopen : c ≠ '\x7b') (hclose : c ≠ '\x7d')
    (hline : ∀ more, c = '/' → rest = '/' :: more → False)
    (hblock : ∀ more, c = '/' → rest = '*' :: more → False) :
    braceSize? depth (c :: rest ++ tail) =
      (braceSize? depth ((rest ++ tail).drop (passedOver c (rest ++ tail)))).map
        (1 + passedOver c (rest ++ tail) + ·) := by
  have hhead {d : Char} (hd : d ∉ tail) (hrest : ∀ more, c = '/' → rest = d :: more → False)
      (more : List Char) (hc : c = '/') (heq : rest ++ tail = d :: more) : False := by
    cases rest with
    | nil =>
      rw [List.nil_append] at heq
      exact hd (heq ▸ List.mem_cons_self)
    | cons e rest => exact hrest rest hc (by rw [(List.cons.inj heq).1])
  exact braceSize?_cons depth hopen hclose (hhead (htail.not_mem rfl (by decide)) hline)
    (hhead (htail.not_mem rfl (by decide)) hblock)

/-- The last character of a tail is the brace that closes a text at some depth. -/
def ClosedBy (tail : List Char) (depth : Nat) (cs : List Char) : Prop :=
  braceSize? depth (cs ++ tail) = some (cs.length + tail.length)

section ClosedBy

variable {tail cs rest : List Char} {depth inner : Nat}

theorem closedBy_iff_of_step (size : Nat) (hsize : cs.length = size + rest.length)
    (hstep : braceSize? depth (cs ++ tail) = (braceSize? inner (rest ++ tail)).map (size + ·)) :
    ClosedBy tail depth cs ↔ ClosedBy tail inner rest := by
  rw [ClosedBy, hstep, map_add_eq_some_iff (by rw [hsize, Nat.add_assoc]), ClosedBy]

theorem closedBy_line (h : runSize (· != '\n') rest < rest.length) :
    ClosedBy tail depth ('/' :: '/' :: rest) ↔
      ClosedBy tail depth (rest.drop (runSize (· != '\n') rest + 1)) := by
  refine closedBy_iff_of_step (2 + (runSize (· != '\n') rest + 1)) ?_ ?_
  · simp only [List.length_cons, List.length_drop]
    omega
  · have hsize : runSize (· != '\n') (rest ++ tail) = runSize (· != '\n') rest := by
      simpa using (runSize_front _).take_append h (Nat.le_refl _) tail
    rw [List.cons_append, List.cons_append, braceSize?, hsize, List.drop_append_of_le_length h]

theorem closedBy_block {size : Nat} (h : blockSize? rest = some size) :
    ClosedBy tail depth ('/' :: '*' :: rest) ↔ ClosedBy tail depth (rest.drop size) := by
  have hle := blockSize?_front.le_length h
  refine closedBy_iff_of_step (2 + size) ?_ ?_
  · simp only [List.length_cons, List.length_drop]
    omega
  · rw [List.cons_append, List.cons_append, braceSize?, blockSize?_front.append h]
    dsimp only
    rw [List.drop_append_of_le_length hle]

theorem closedBy_open : ClosedBy tail depth ('\x7b' :: rest) ↔ ClosedBy tail (depth + 1) rest := by
  refine closedBy_iff_of_step 1 (Nat.add_comm ..) ?_
  rw [List.cons_append, braceSize?]

theorem closedBy_close : ClosedBy tail (depth + 1) ('\x7d' :: rest) ↔ ClosedBy tail depth rest := by
  refine closedBy_iff_of_step 1 (Nat.add_comm ..) ?_
  rw [List.cons_append, braceSize?]

/-- A text goes on behind the brace that closes it only if that is not the last one. -/
theorem not_closedBy_zero (hne : tail ≠ []) : ¬ ClosedBy tail 0 ('\x7d' :: rest) := by
  have hpos := List.length_pos_iff.2 hne
  rw [ClosedBy, List.cons_append, braceSize?, Option.some.injEq, List.length_cons]
  omega

theorem closedBy_cons (htail : IsClosing tail) {c : Char} (hopen : c ≠ '\x7b')
    (hclose : c ≠ '\x7d') (hline : ∀ more, c = '/' → rest = '/' :: more → False)
    (hblock : ∀ more, c = '/' → rest = '*' :: more → False)
    (hpassed : passedOver c (rest ++ tail) = passedOver c rest) :
    ClosedBy tail depth (c :: rest) ↔ ClosedBy tail depth (rest.drop (passedOver c rest)) := by
  have hle := passedOver_le c rest
  refine closedBy_iff_of_step (1 + passedOver c rest) ?_ ?_
  · simp only [List.length_cons, List.length_drop]
    omega
  · rw [braceSize?_cons_closing htail depth hopen hclose hline hblock, hpassed,
      List.drop_append_of_le_length hle]

end ClosedBy

/-- A brace that closes a text behind some blanks closes it without them too, unless it then stands
in a comment. -/
theorem closedBy_blanks_iff {kept blanks : List Char} {depth : Nat}
    (hblanks : ∀ c ∈ blanks, isBlank c = true) (h : ClosedBy (blanks ++ ['\x7d']) depth kept) :
    ClosedBy ['\x7d'] depth kept ↔ endsInLineComment kept = false := by
  have hbehind : IsClosing (blanks ++ ['\x7d']) := fun c hc =>
    (List.mem_append.1 hc).imp (hblanks c) List.mem_singleton.1
  have hbrace : IsClosing ['\x7d'] := fun c hc => .inr (List.mem_singleton.1 hc)
  fun_induction endsInLineComment kept generalizing depth with
  | case1 =>
    have hinert : Inert blanks :=
      .of_all (List.all_eq_true.2 fun c hc => isInert_of_isBlank (hblanks c hc))
    rw [ClosedBy, List.nil_append, hinert, map_add_eq_some_iff (n := 1) (by simp)] at h
    simpa [ClosedBy] using h
  | case2 rest size =>
    rename_i hline ih
    rw [closedBy_line hline] at h ⊢
    exact ih h
  | case3 rest size =>
    rename_i hline
    -- the comment takes the brace too
    have hall : ∀ c ∈ rest, (c != '\n') = true :=
      List.takeWhile_eq_self_iff.1
        ((List.takeWhile_prefix _).eq_of_length_le (Nat.le_of_not_lt hline))
    have hend : (rest ++ ['\x7d']).length ≤ runSize (· != '\n') (rest ++ ['\x7d']) + 1 := by
      rw [runSize_append hall, List.length_append]
      simp
    rw [ClosedBy, List.cons_append, List.cons_append, braceSize?, List.drop_eq_nil_of_le hend,
      braceSize?]
    simp
  | case4 rest size hsize ih =>
    rw [closedBy_block hsize] at h ⊢
    exact ih h
  | case5 rest hopen =>
    rw [ClosedBy, List.cons_append, List.cons_append, braceSize?] at h
    cases hsize : blockSize? (rest ++ (blanks ++ ['\x7d'])) with
    | none =>
      rw [hsize] at h
      cases h
    | some size =>
      rw [blockSize?_of_append (hbehind.not_mem rfl (by decide)) hsize] at hopen
      cases hopen
  | case6 c rest hline hblock ih =>
    by_cases hopen : c = '\x7b'
    · subst hopen
      rw [closedBy_open] at h ⊢
      exact ih h
    by_cases hclose : c = '\x7d'
    · subst hclose
      cases depth with
      | zero => exact absurd h (not_closedBy_zero (by simp))
      | succ depth =>
        rw [closedBy_close] at h ⊢
        exact ih h
    have hstep := h
    rw [ClosedBy, braceSize?_cons_closing hbehind depth hopen hclose hline hblock] at hstep
    obtain ⟨n, hn, -⟩ := Option.map_eq_some_iff.1 hstep
    have hpassed (more : List Char) : passedOver c (rest ++ more) = passedOver c rest := by
      refine passedOver_append_of_closed (fun hactive => hbehind.not_mem ?_ hclose)
        (lt_length_of_braceSize?_drop hn) more
      exact Bool.eq_false_iff.2 fun hblank => by simp [isInert_of_isBlank hblank] at hactive
    rw [closedBy_cons hbehind hopen hclose hline hblock (hpassed _)] at h
    rw [closedBy_cons hbrace hopen hclose hline hblock (hpassed _)]
    exact ih h

/-- A text that braces hold stays held when the blanks at its ends go, unless the brace that closes
it then stands in a comment. -/
theorem captured_trimmed_iff {s : String} (h : Captured s) :
    Captured (trimmed s) ↔ endsInLineComment (trimEnd s.toList) = false := by
  obtain ⟨behind, hbehind, hblanks⟩ := exists_dropEndWhile_append isBlank s.toList
  obtain ⟨front, hfront, hinert⟩ := exists_append_trim s.toList
  have hkept : ClosedBy (behind ++ ['\x7d']) 0 (trimEnd s.toList) := by
    rw [ClosedBy, ← List.append_assoc, List.length_append, ← Nat.add_assoc, ← List.length_append,
      trimEnd, hbehind]
    exact h
  have hcut : Inert front :=
    .of_all (List.all_eq_true.2 fun c hc => isInert_of_isBlank (hinert c hc))
  rw [← closedBy_blanks_iff hblanks hkept, ClosedBy, ← hfront, List.append_assoc, hcut,
    map_add_eq_some_iff (n := (trim s.toList).length + 1)
      (by rw [List.length_append, Nat.add_assoc, List.length_singleton]), Captured, trimmed,
    String.toList_ofList]

/-! ### Read and read again -/

theorem captured_of_readBraced {p q : Place} {b : Braced} {cs : List Char}
    (hp : p.rest = '\x7b' :: cs) (h : readBraced p = .ok (b, q)) : Captured b.raw := by
  unfold readBraced at h
  rw [hp, List.drop_succ_cons, List.drop_zero] at h
  split at h
  · cases h
  · next size hsize =>
    cases h
    obtain ⟨raw, htake, rfl⟩ := take_braceSize? hsize
    have hraw : cs.take raw.length = raw := by
      have hcut := congrArg (List.take raw.length) htake
      rwa [List.take_take, Nat.min_eq_left (Nat.le_succ _), List.take_left] at hcut
    have hclosed := (braceSize?_front 0).take hsize (Nat.le_refl _)
    rw [htake] at hclosed
    simpa only [Captured, Nat.add_sub_cancel, hraw, String.toList_ofList] using hclosed

/-- What braces hold exactly is what they hold if the text ends with them. -/
theorem heldExactly_iff {s : String} : HeldExactly s ↔ Captured s := by
  constructor
  · intro h
    obtain ⟨q, hread, -⟩ := h (Place.start (braced s).toList) [] (List.append_nil _).symm
    exact captured_of_readBraced (toList_braced s) hread
  · intro h p rest hp
    obtain ⟨span, q, hread, hq⟩ := readBraced_of_captured h hp
    rw [toList_braced, List.cons_append] at hp
    have hat := (readBraced_at hp).of_ok hread
    have hspan : span = p.spanTo q := hat.span
    refine ⟨q, hspan ▸ hread, hq, ?_⟩
    rw [toList_braced]
    exact hat.text

/-- What is read at an opening brace is the text up to the brace that closes it. Braces around that
text alone hold just it, whatever stands behind them; and they hold it without the blanks at its two
ends if and only if it does not end in a comment up to the end of the line once the blanks behind it
are gone. -/
theorem readBraced_again {p q : Place} {b : Braced} (hopen : p.rest.head? = some '\x7b')
    (h : readBraced p = .ok (b, q)) :
    p.Over (braced b.raw).toList q ∧ HeldExactly b.raw ∧
      (HeldExactly (trimmed b.raw) ↔ endsInLineComment (trimEnd b.raw.toList) = false) := by
  obtain ⟨cs, hp⟩ : ∃ cs, p.rest = '\x7b' :: cs := List.head?_eq_some_iff.1 hopen
  have hcaptured := captured_of_readBraced hp h
  refine ⟨?_, heldExactly_iff.2 hcaptured, ?_⟩
  · rw [toList_braced]
    exact ((readBraced_at hp).of_ok h).text
  · rw [heldExactly_iff]
    exact captured_trimmed_iff hcaptured

/-- A closing brace in a string, in a template and in a comment; the blanks behind the comment have
to stay, since they end it. -/
theorem readBraced_again_commented :
    let raw := " go(\"\x7d\", \x60\x7d\x60) // \x7d\n "
    let p := Place.start "\x7b go(\"\x7d\", \x60\x7d\x60) // \x7d\n \x7d />".toList
    (∃ b q, p.rest.head? = some '\x7b' ∧ readBraced p = .ok (b, q) ∧ b.raw = raw ∧
      p.Over (braced b.raw).toList q) ∧ HeldExactly raw ∧ ¬ HeldExactly (trimmed raw) := by
  intro raw p
  have hsize : braceSize? 0 (p.rest.drop 1) = some 21 := by decide +kernel
  obtain ⟨b, q, hread, hraw⟩ : ∃ b q, readBraced p = .ok (b, q) ∧ b.raw = raw := by
    unfold readBraced
    rw [hsize]
    exact ⟨_, _, rfl, by decide +kernel⟩
  obtain ⟨hover, hheld, htrimmed⟩ := readBraced_again (by decide +kernel) hread
  rw [hraw] at hheld htrimmed
  have hcomment : endsInLineComment (trimEnd raw.toList) = true := by decide +kernel
  refine ⟨⟨b, q, by decide +kernel, hread, hraw, hover⟩, hheld, fun h => ?_⟩
  rw [htrimmed.1 h] at hcomment
  cases hcomment

end DesignSync.Markup

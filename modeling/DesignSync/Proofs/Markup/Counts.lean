import DesignSync.Proofs.Markup.Braces

/-!
How many characters the scanners take: never more than there are, so that what is cut out by such a
count lies within the text. The walk over a braced expression closes no brace that it did not open.
-/

namespace DesignSync.Markup

open Text

/-! ### Counts within the text -/

theorem runSize_le (p : Char → Bool) (cs : List Char) : runSize p cs ≤ cs.length :=
  (List.takeWhile_prefix p).length_le

theorem openCommentSize_le (cs : List Char) : openCommentSize cs ≤ cs.length := by
  fun_induction openCommentSize cs with
  | case1 => exact Nat.le_refl _
  | case2 => exact Nat.zero_le _
  | case3 c cs ih => simpa using ih
  | case4 c cs _ _ ih => simpa using ih

theorem triviaSize_le (cs : List Char) : triviaSize cs ≤ cs.length := by
  fun_induction triviaSize cs with
  | case1 => exact Nat.le_refl _
  | case2 rest size ih =>
    have hsize : size ≤ rest.length := runSize_le _ _
    simp only [List.length_drop, List.length_cons] at ih ⊢
    omega
  | case3 rest size hsize ih =>
    have hle := commentSize?_front.le_length hsize
    simp only [List.length_drop, List.length_cons] at ih ⊢
    omega
  | case4 => exact Nat.zero_le _
  | case5 c rest _ _ _ ih =>
    simp only [List.length_cons]
    omega
  | case6 => exact Nat.zero_le _

theorem dashedSize_le (cs : List Char) : dashedSize cs ≤ cs.length := by
  fun_induction dashedSize cs with
  | case1 c rest _ size ih =>
    have hsize : size ≤ rest.length := runSize_le _ _
    simp only [List.length_drop, List.length_cons] at ih ⊢
    omega
  | case2 => exact Nat.zero_le _
  | case3 => exact Nat.zero_le _

theorem stringSize_le (quote : Char) (cs : List Char) : (stringSize quote cs).2 ≤ cs.length := by
  fun_induction stringSize quote cs <;> simp_all

theorem numberSize_le (cs : List Char) : numberSize cs ≤ cs.length := by
  have hwhole := runSize_le Numeral.isDigit cs
  unfold numberSize
  dsimp only
  split
  · next c rest hrest =>
    have hlength := congrArg List.length hrest
    have hfraction := runSize_le Numeral.isDigit rest
    simp only [List.length_drop, List.length_cons] at hlength
    split <;> omega
  · exact hwhole

theorem lexeme_le (c : Char) (cs : List Char) : (lexeme c cs).2 ≤ cs.length := by
  unfold lexeme
  dsimp only
  split
  · have hword := runSize_le isNameChar cs
    have hdashed := dashedSize_le (cs.drop (runSize isNameChar cs))
    rw [List.length_drop] at hdashed
    dsimp only
    omega
  split
  · exact stringSize_le c cs
  split
  · exact numberSize_le cs
  split
  · next hcomment =>
    obtain ⟨tail, rfl⟩ := List.head?_eq_some_iff.1 hcomment.2
    have hopen := openCommentSize_le tail
    simp only [List.tail_cons, List.length_cons]
    omega
  split <;> exact Nat.zero_le _

theorem gapSize_le (cs : List Char) : gapSize cs ≤ cs.length := by
  fun_induction gapSize cs with
  | case1 => exact Nat.le_refl _
  | case2 rest size ih =>
    have hsize : size ≤ rest.length := runSize_le _ _
    simp only [List.length_drop, List.length_cons] at ih ⊢
    omega
  | case3 rest size hsize ih =>
    have hle := blockSize?_front.le_length hsize
    simp only [List.length_drop, List.length_cons] at ih ⊢
    omega
  | case4 rest =>
    simp only [List.length_cons]
    omega
  | case5 c rest _ _ _ ih =>
    simp only [List.length_cons]
    omega
  | case6 => exact Nat.zero_le _

theorem quotedSize_le (quote : Char) (cs : List Char) : quotedSize quote cs ≤ cs.length := by
  fun_induction quotedSize quote cs <;> simp_all

/-- The functions that tell how many of the characters next to come belong together. -/
inductive Scanner where
  | run (p : Char → Bool)
  | comment
  | openComment
  | trivia
  | dashed
  | string (quote : Char)
  | number
  | lexeme (first : Char)
  | block
  | gap
  | quoted (quote : Char)
  | brace (depth : Nat)

def Scanner.count? (cs : List Char) : Scanner → Option Nat
  | run p => some (runSize p cs)
  | comment => commentSize? cs
  | openComment => some (openCommentSize cs)
  | trivia => some (triviaSize cs)
  | dashed => some (dashedSize cs)
  | string quote => some (stringSize quote cs).2
  | number => some (numberSize cs)
  | lexeme first => some (Markup.lexeme first cs).2
  | block => blockSize? cs
  | gap => some (gapSize cs)
  | quoted quote => some (quotedSize quote cs)
  | brace depth => braceSize? depth cs

theorem Scanner.le_length {cs : List Char} {n : Nat} (s : Scanner) (h : s.count? cs = some n) :
    n ≤ cs.length := by
  cases s with
  | run p => exact Option.some.inj h ▸ runSize_le p cs
  | comment => exact commentSize?_front.le_length h
  | openComment => exact Option.some.inj h ▸ openCommentSize_le cs
  | trivia => exact Option.some.inj h ▸ triviaSize_le cs
  | dashed => exact Option.some.inj h ▸ dashedSize_le cs
  | string quote => exact Option.some.inj h ▸ stringSize_le quote cs
  | number => exact Option.some.inj h ▸ numberSize_le cs
  | lexeme first => exact Option.some.inj h ▸ lexeme_le first cs
  | block => exact blockSize?_front.le_length h
  | gap => exact Option.some.inj h ▸ gapSize_le cs
  | quoted quote => exact Option.some.inj h ▸ quotedSize_le quote cs
  | brace depth => exact (braceSize?_front depth).le_length h

/-! ### The depth of braces -/

/-- The walk of `braceSize?` with its depth written down behind each brace, as a number that may as
well be negative, and what it comes to. -/
def braceWalk (depth : Int) (cs : List Char) : List Int × Option Nat :=
  match cs with
  | [] => ([], none)
  | '\x7b' :: rest =>
    let (depths, size) := braceWalk (depth + 1) rest
    ((depth + 1) :: depths, size.map (1 + ·))
  | '\x7d' :: rest =>
    if depth - 1 = 0 then ([0], some 1)
    else
      let (depths, size) := braceWalk (depth - 1) rest
      ((depth - 1) :: depths, size.map (1 + ·))
  | '/' :: '/' :: rest =>
    let line := runSize (· != '\n') rest + 1
    let (depths, size) := braceWalk depth (rest.drop line)
    (depths, size.map (2 + line + ·))
  | '/' :: '*' :: rest =>
    match blockSize? rest with
    | some block =>
      let (depths, size) := braceWalk depth (rest.drop block)
      (depths, size.map (2 + block + ·))
    | none => ([], none)
  | c :: rest =>
    let (depths, size) := braceWalk depth (rest.drop (passedOver c rest))
    (depths, size.map (1 + passedOver c rest + ·))
termination_by cs.length
decreasing_by
  all_goals simp
  all_goals omega

/-- From one open brace on the depth is never negative, and the walk is that of `braceSize?`. -/
theorem braceWalk_eq (depth : Nat) (cs : List Char) :
    (braceWalk (depth + 1) cs).2 = braceSize? depth cs ∧
      ∀ d ∈ (braceWalk (depth + 1) cs).1, 0 ≤ d := by
  fun_induction braceSize? depth cs with
  | case1 depth => simp [braceWalk]
  | case2 depth rest ih =>
    push_cast at ih
    rw [braceWalk]
    exact ⟨by simp [ih.1], List.forall_mem_cons.2 ⟨by omega, ih.2⟩⟩
  | case3 rest => simp [braceWalk]
  | case4 rest depth ih =>
    have hdepth : ((depth + 1 : Nat) : Int) + 1 - 1 = (depth : Int) + 1 := by omega
    rw [braceWalk, hdepth, if_neg (by omega)]
    exact ⟨by simp [ih.1], List.forall_mem_cons.2 ⟨by omega, ih.2⟩⟩
  | case5 depth rest size =>
    rename_i ih
    rw [braceWalk]
    exact ⟨by simp [ih.1, size], ih.2⟩
  | case6 depth rest size hblock ih =>
    rw [braceWalk]
    simp only [hblock]
    exact ⟨by simp [ih.1], ih.2⟩
  | case7 depth rest hblock =>
    rw [braceWalk]
    simp [hblock]
  | case8 depth c rest hopen hclose hline hblock size =>
    rename_i ih
    have hpassed : size = passedOver c rest := dite_eq_ite
    rw [hpassed] at ih ⊢
    rw [braceWalk]
    · exact ⟨by simp [ih.1], ih.2⟩
    · exact hopen
    · exact hclose
    · exact hline
    · exact hblock

end DesignSync.Markup

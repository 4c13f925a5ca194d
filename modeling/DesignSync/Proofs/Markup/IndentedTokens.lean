import DesignSync.Proofs.Markup.Indentation
import DesignSync.Proofs.Markup.Alike

/-!
Tokens of texts that differ in how some lines are indented. Comments and blanks may stand in front
of a token and be longer or shorter, but the token is the same and so is the way on.
-/

namespace DesignSync.Markup

open Text

variable {T : Nat → Prop} {x y : List Char} {p : Char → Bool} {c : Char}

/-! ### Parts of a line -/

/-- Two texts of which the first characters are the same, and the rest differs in how some lines are
indented. -/
structure Cut (T : Nat → Prop) (n : Nat) (x y : List Char) : Prop where
  front : x.take n = y.take n
  behind : Reindented T (x.drop n) (y.drop n)

theorem Cut.zero (h : Reindented T x y) : Cut T 0 x y := ⟨rfl, h⟩

theorem Cut.cons {n : Nat} (h : Cut T n x y) (c : Char) : Cut T (n + 1) (c :: x) (c :: y) :=
  ⟨congrArg (c :: ·) h.front, h.behind⟩

theorem Cut.add {m n : Nat} (h : Cut T m x y) (h' : Cut T n (x.drop m) (y.drop m)) :
    Cut T (m + n) x y :=
  ⟨by rw [List.take_add, List.take_add, h.front, h'.front],
    by rw [← List.drop_drop, ← List.drop_drop]; exact h'.behind⟩

theorem Cut.tail {n : Nat} (h : Cut T (n + 1) x y) : Cut T n (x.drop 1) (y.drop 1) := by
  obtain ⟨hfront, hbehind⟩ := h
  refine ⟨?_, by rwa [List.drop_drop, List.drop_drop, Nat.add_comm 1]⟩
  have htail := congrArg (List.drop 1) hfront
  rwa [List.drop_take, List.drop_take, Nat.add_sub_cancel] at htail

theorem Cut.take_eq {m n : Nat} (h : Cut T n x y) (hm : m ≤ n) : x.take m = y.take m := by
  have htake := congrArg (List.take m) h.front
  rwa [List.take_take, List.take_take, Nat.min_eq_left hm] at htake

theorem take_runSize (p : Char → Bool) (cs : List Char) :
    cs.take (runSize p cs) = cs.takeWhile p :=
  (congrArg (List.take (runSize p cs)) List.takeWhile_append_dropWhile.symm).trans List.take_left

theorem drop_runSize (p : Char → Bool) (cs : List Char) :
    cs.drop (runSize p cs) = cs.dropWhile p :=
  (congrArg (List.drop (runSize p cs)) List.takeWhile_append_dropWhile.symm).trans List.drop_left

/-- How many characters a point and the digits behind it take, if there are any. -/
def pointSize : List Char → Nat
  | '.' :: c :: rest => if Numeral.isDigit c then 2 + runSize Numeral.isDigit rest else 0
  | _ => 0

theorem numberSize_eq (cs : List Char) : numberSize cs =
    runSize Numeral.isDigit cs + pointSize (cs.drop (runSize Numeral.isDigit cs)) := by
  unfold numberSize
  dsimp only
  generalize cs.drop _ = behind
  split
  · rw [pointSize]
    split <;> omega
  · next hpoint =>
    rw [pointSize, Nat.add_zero]
    exact hpoint

namespace Reindented

theorem runSize_cut (h : Reindented T x y) (hp : p '\n' = false) :
    runSize p x = runSize p y ∧ Cut T (runSize p x) x y := by
  have hsize : runSize p x = runSize p y := congrArg List.length (h.takeWhile_eq hp)
  refine ⟨hsize, ?_, ?_⟩
  · rw [take_runSize, hsize, take_runSize, h.takeWhile_eq hp]
  · rw [drop_runSize, hsize, drop_runSize]
    exact h.dropWhile fun hline => absurd (hp.symm.trans hline) Bool.false_ne_true

/-- Two characters of one line stand in front of both texts or of neither. -/
theorem exists_pair {d : Char} {b : List Char} (h : Reindented T x (c :: d :: b)) (hc : c ≠ '\n') :
    ∃ a, x = c :: d :: a := by
  obtain ⟨a, rfl⟩ := h.exists_cons
  obtain ⟨_, heq, h'⟩ := h.tail hc
  cases heq
  obtain ⟨a', rfl⟩ := h'.exists_cons
  exact ⟨a', rfl⟩

theorem dashedSize_cut (h : Reindented T x y) :
    dashedSize x = dashedSize y ∧ Cut T (dashedSize x) x y := by
  induction x using dashedSize.induct generalizing y with
  | case1 c rest hc =>
    rename_i ih
    have hline : c ≠ '\n' := by rintro rfl; cases hc
    obtain ⟨_, rfl, h₁⟩ := h.tail (by decide)
    obtain ⟨b, rfl, h₂⟩ := h₁.tail hline
    obtain ⟨hsize, hrun⟩ := h₂.runSize_cut (p := isNameChar) rfl
    obtain ⟨hmore, hcut⟩ := ih hrun.behind
    rw [dashedSize, dashedSize, if_pos hc, if_pos hc]
    dsimp only
    rw [← hsize, ← hmore, Nat.add_assoc, Nat.add_comm 2]
    exact ⟨rfl, ((hrun.add hcut).cons c).cons '-'⟩
  | case2 c rest hc =>
    obtain ⟨_, rfl, h₁⟩ := h.tail (by decide)
    obtain ⟨b, _, rfl, -⟩ := h₁.uncons
    rw [dashedSize, dashedSize, if_neg hc, if_neg hc]
    exact ⟨rfl, .zero h⟩
  | case3 x hx =>
    have hy : ∀ c b, y = '-' :: c :: b → False := by
      rintro c b rfl
      obtain ⟨a, rfl⟩ := h.exists_pair (by decide)
      exact hx c a rfl
    rw [dashedSize, dashedSize]
    · exact ⟨rfl, .zero h⟩
    · exact hy
    · exact hx

theorem pointSize_cut (h : Reindented T x y) :
    pointSize x = pointSize y ∧ Cut T (pointSize x) x y := by
  unfold pointSize
  split
  · next c rest =>
    obtain ⟨_, rfl, h₁⟩ := h.tail (by decide)
    by_cases hc : Numeral.isDigit c = true
    · have hline : c ≠ '\n' := by rintro rfl; cases hc
      obtain ⟨b, rfl, h₂⟩ := h₁.tail hline
      obtain ⟨hsize, hrun⟩ := h₂.runSize_cut (p := Numeral.isDigit) rfl
      simp only [if_pos hc]
      rw [← hsize, Nat.add_comm 2]
      exact ⟨rfl, (hrun.cons c).cons '.'⟩
    · obtain ⟨b, _, rfl, -⟩ := h₁.uncons
      simp only [if_neg hc]
      exact ⟨trivial, .zero h⟩
  · next hx =>
    split
    · next c b =>
      obtain ⟨a, rfl⟩ := h.exists_pair (by decide)
      exact (hx c a rfl).elim
    · exact ⟨rfl, .zero h⟩

theorem numberSize_cut (h : Reindented T x y) :
    numberSize x = numberSize y ∧ Cut T (numberSize x) x y := by
  obtain ⟨hsize, hrun⟩ := h.runSize_cut (p := Numeral.isDigit) rfl
  obtain ⟨hmore, hcut⟩ := hrun.behind.pointSize_cut
  rw [numberSize_eq, numberSize_eq, ← hsize, ← hmore]
  exact ⟨rfl, hrun.add hcut⟩

theorem stringSize_cut {quote : Char} (hquote : quote ≠ '\n') (h : Reindented T x y) :
    stringSize quote x = stringSize quote y ∧ Cut T (stringSize quote x).2 x y := by
  induction x using stringSize.induct quote generalizing y with
  | case1 =>
    cases h.eq_nil
    exact ⟨rfl, .zero h⟩
  | case2 =>
    obtain ⟨_, rfl, h₁⟩ := h.tail (by decide)
    cases h₁.eq_nil
    exact ⟨rfl, .zero h⟩
  | case3 cs =>
    obtain ⟨_, rfl, h₁⟩ := h.tail (by decide)
    obtain ⟨b, _, rfl, -⟩ := h₁.uncons
    exact ⟨rfl, .zero h⟩
  | case4 c cs hc closed size heq ih =>
    obtain ⟨_, rfl, h₁⟩ := h.tail (by decide)
    obtain ⟨b, rfl, h₂⟩ := h₁.tail hc
    obtain ⟨hsize, hcut⟩ := ih h₂
    rw [stringSize, stringSize, if_neg hc, if_neg hc, ← hsize]
    exact ⟨rfl, (hcut.cons c).cons '\\'⟩
  | case5 cs hlast hpair =>
    obtain ⟨b, rfl, h₁⟩ := h.tail hquote
    have hne : quote ≠ '\\' := ne_of_behind hlast hpair
    rw [stringSize_cons_of_ne hne, stringSize_cons_of_ne hne, if_pos rfl, if_pos rfl]
    exact ⟨rfl, (Cut.zero h₁).cons quote⟩
  | case6 cs hlast hpair hne =>
    obtain ⟨b, _, rfl, -⟩ := h.uncons
    rw [stringSize_cons_of_ne (by decide), stringSize_cons_of_ne (by decide), if_neg hne,
      if_neg hne, if_pos rfl, if_pos rfl]
    exact ⟨rfl, .zero h⟩
  | case7 c cs hlast hpair hc hline closed size heq ih =>
    obtain ⟨b, rfl, h₁⟩ := h.tail hline
    have hne : c ≠ '\\' := ne_of_behind hlast hpair
    obtain ⟨hsize, hcut⟩ := ih h₁
    rw [stringSize_cons_of_ne hne, stringSize_cons_of_ne hne, if_neg hc, if_neg hc, if_neg hline,
      if_neg hline, ← hsize]
    exact ⟨rfl, hcut.cons c⟩

/-- The token in front is the same, and what is behind it goes on alike. -/
theorem lexeme_cut (h : Reindented T x y) (c : Char) :
    (lexeme c x).1 = (lexeme c y).1 ∧ ((lexeme c x).1.isSome = true →
      (lexeme c x).2 = (lexeme c y).2 ∧ Cut T (lexeme c x).2 x y) := by
  unfold lexeme
  dsimp only
  by_cases hname : isNameStart c = true
  · obtain ⟨hword, hrun⟩ := h.runSize_cut (p := isNameChar) rfl
    obtain ⟨hdashed, hcut⟩ := hrun.behind.dashedSize_cut
    have hwhole := hrun.add hcut
    rw [if_pos hname, if_pos hname, ← hword, ← hdashed, hwhole.front, hwhole.behind.head?_eq]
    exact ⟨rfl, fun _ => ⟨rfl, hwhole⟩⟩
  rw [if_neg hname, if_neg hname]
  by_cases hquote : c = '"' ∨ c = '\''
  · have hline : c ≠ '\n' := by rcases hquote with rfl | rfl <;> decide
    obtain ⟨hsize, hcut⟩ := h.stringSize_cut hline
    rw [if_pos hquote, if_pos hquote, ← hsize, hcut.front]
    exact ⟨rfl, fun _ => ⟨rfl, hcut⟩⟩
  rw [if_neg hquote, if_neg hquote, h.head?_eq]
  split
  · obtain ⟨hsize, hcut⟩ := h.numberSize_cut
    rw [← hsize, hcut.front]
    exact ⟨rfl, fun _ => ⟨rfl, hcut⟩⟩
  split
  · exact ⟨rfl, fun htoken => absurd htoken Bool.false_ne_true⟩
  split
  · exact ⟨rfl, fun _ => ⟨rfl, .zero h⟩⟩
  · exact ⟨rfl, fun _ => ⟨rfl, .zero h⟩⟩

end Reindented

/-! ### Comments and blanks -/

theorem length_le_of_map_drop {cs rest : List Char} {size : Option Nat}
    (h : size.map (cs.drop ·) = some rest) : rest.length ≤ cs.length := by
  obtain ⟨n, -, rfl⟩ := Option.map_eq_some_iff.1 h
  rw [List.length_drop]
  exact Nat.sub_le _ _

/-- What is behind a block comment, by the rule of the lexer. -/
def afterComment? (cs : List Char) : Option (List Char) := (commentSize? cs).map (cs.drop ·)

/-- What is behind a block comment that ends at the first `*/`. -/
def afterBlock? (cs : List Char) : Option (List Char) := (blockSize? cs).map (cs.drop ·)

theorem afterComment?_of_ne (hc : c ≠ '*') (cs : List Char) :
    afterComment? (c :: cs) = afterComment? cs := by
  unfold afterComment?
  rw [commentSize?, Option.map_map]
  · rfl
  all_goals
    intros
    contradiction

theorem afterComment?_pair (hc : c ≠ '/') (cs : List Char) :
    afterComment? ('*' :: c :: cs) = afterComment? cs := by
  unfold afterComment?
  rw [commentSize?, Option.map_map]
  · rfl
  · exact fun h => absurd h hc

theorem afterBlock?_cons {cs : List Char} (h : ∀ rest, c = '*' → cs = '/' :: rest → False) :
    afterBlock? (c :: cs) = afterBlock? cs := by
  unfold afterBlock?
  rw [blockSize?, Option.map_map]
  · rfl
  · exact h

theorem ignoresIndent_afterComment? : IgnoresIndent afterComment? := fun c cs hc =>
  afterComment?_of_ne (by rintro rfl; cases hc) cs

theorem ignoresIndent_afterBlock? : IgnoresIndent afterBlock? := fun c cs hc =>
  afterBlock?_cons fun _ h => by cases h; cases hc

namespace Reindented

theorem afterComment?_rel (h : Reindented T x y) :
    Option.Rel (Reindented T) (afterComment? x) (afterComment? y) := by
  induction x using commentSize?.induct generalizing y with
  | case1 =>
    cases h.eq_nil
    exact .none
  | case2 rest =>
    obtain ⟨_, rfl, h₁⟩ := h.tail (by decide)
    obtain ⟨b, rfl, h₂⟩ := h₁.tail (by decide)
    exact .some h₂
  | case3 =>
    obtain ⟨_, rfl, h₁⟩ := h.tail (by decide)
    cases h₁.eq_nil
    exact .none
  | case4 c rest hc ih =>
    obtain ⟨_, rfl, h₁⟩ := h.tail (by decide)
    obtain ⟨b, d, rfl, hd, heq⟩ := h₁.uncons_of_ignoresIndent ignoresIndent_afterComment?
    rw [afterComment?_pair hc, afterComment?_pair hc, ← heq]
    exact ih hd
  | case5 c rest hclosed hlast hpair ih =>
    have hstar : c ≠ '*' := ne_of_behind hlast hpair
    obtain ⟨b, d, rfl, hd, heq⟩ := h.uncons_of_ignoresIndent ignoresIndent_afterComment?
    rw [afterComment?_of_ne hstar, afterComment?_of_ne hstar, ← heq]
    exact ih hd

theorem afterBlock?_rel (h : Reindented T x y) :
    Option.Rel (Reindented T) (afterBlock? x) (afterBlock? y) := by
  induction x using blockSize?.induct generalizing y with
  | case1 =>
    cases h.eq_nil
    exact .none
  | case2 rest =>
    obtain ⟨_, rfl, h₁⟩ := h.tail (by decide)
    obtain ⟨b, rfl, h₂⟩ := h₁.tail (by decide)
    exact .some h₂
  | case3 c rest hopen ih =>
    obtain ⟨b, d, rfl, hd, heq⟩ := h.uncons_of_ignoresIndent ignoresIndent_afterBlock?
    rw [afterBlock?_cons hopen, afterBlock?_cons, ← heq]
    · exact ih hd
    · rintro b hc rfl
      subst hc
      obtain ⟨a, heq⟩ := h.exists_pair (by decide)
      exact hopen a rfl (List.cons.inj heq).2

end Reindented

/-- A way to pass over blanks, line comments and block comments. What is behind a block comment is
told by `closed?`; one without an end is kept, or else all is passed over. -/
structure Skips (blank : Char → Bool) (closed? : List Char → Option (List Char)) (kept : Bool)
    (f : List Char → List Char) : Prop where
  indent (c : Char) (h : isIndent c = true) : blank c = true
  shorter {cs rest : List Char} (h : closed? cs = some rest) : rest.length ≤ cs.length
  nil : f [] = []
  line (cs : List Char) : f ('/' :: '/' :: cs) = f (cs.dropWhile (· != '\n'))
  block (cs : List Char) : f ('/' :: '*' :: cs) =
    match closed? cs with
    | some rest => f rest
    | none => if kept then '/' :: '*' :: cs else []
  other {c : Char} {cs : List Char} (hline : ∀ rest, c = '/' → cs = '/' :: rest → False)
    (hblock : ∀ rest, c = '/' → cs = '*' :: rest → False) :
    f (c :: cs) = if blank c then f cs else c :: cs

namespace Skips

variable {blank : Char → Bool} {closed? : List Char → Option (List Char)} {kept : Bool}
  {f : List Char → List Char}

theorem ignoresIndent (hf : Skips blank closed? kept f) : IgnoresIndent f := fun c cs hc => by
  have hslash : c ≠ '/' := by rintro rfl; cases hc
  rw [hf.other (fun _ h => absurd h hslash) fun _ h => absurd h hslash, if_pos (hf.indent c hc)]

/-- What holds of all that may be left behind a comment or another character holds of a text. -/
theorem induction (hf : Skips blank closed? kept f) {motive : List Char → Prop} (nil : motive [])
    (line : ∀ cs, motive (cs.dropWhile (· != '\n')) → motive ('/' :: '/' :: cs))
    (block : ∀ cs, (∀ rest, closed? cs = some rest → motive rest) → motive ('/' :: '*' :: cs))
    (other : ∀ c cs, (∀ rest, c = '/' → cs = '/' :: rest → False) →
      (∀ rest, c = '/' → cs = '*' :: rest → False) → motive cs → motive (c :: cs))
    (cs : List Char) : motive cs := by
  -- A comment may take any part of what is left, so the induction is on how much that is.
  induction hn : cs.length using Nat.strongRecOn generalizing cs with
  | ind n ih =>
    subst hn
    cases cs with
    | nil => exact nil
    | cons c cs =>
      by_cases hline : ∃ rest, c = '/' ∧ cs = '/' :: rest
      · obtain ⟨cs, rfl, rfl⟩ := hline
        have hshort := (List.dropWhile_suffix (· != '\n') (l := cs)).length_le
        exact line cs (ih _ (by simp only [List.length_cons]; omega) _ rfl)
      by_cases hblock : ∃ rest, c = '/' ∧ cs = '*' :: rest
      · obtain ⟨cs, rfl, rfl⟩ := hblock
        refine block cs fun rest hrest => ?_
        have hshort := hf.shorter hrest
        exact ih _ (by simp only [List.length_cons]; omega) _ rfl
      exact other c cs (fun rest hc hcs => hline ⟨rest, hc, hcs⟩)
        (fun rest hc hcs => hblock ⟨rest, hc, hcs⟩) (ih _ (by simp) cs rfl)

/-- What is behind blanks and comments goes on alike if what is behind a block comment does. -/
theorem reindented (hf : Skips blank closed? kept f)
    (hclosed : ∀ {x y}, Reindented T x y → Option.Rel (Reindented T) (closed? x) (closed? y))
    (h : Reindented T x y) : Reindented T (f x) (f y) := by
  induction x using hf.induction generalizing y with
  | nil =>
    rw [h.eq_nil, hf.nil]
    exact .nil
  | line cs ih =>
    obtain ⟨_, rfl, h₁⟩ := h.tail (by decide)
    obtain ⟨b, rfl, h₂⟩ := h₁.tail (by decide)
    rw [hf.line, hf.line]
    exact ih (h₂.dropWhile fun h => absurd h Bool.false_ne_true)
  | block cs ih =>
    obtain ⟨_, rfl, h₁⟩ := h.tail (by decide)
    obtain ⟨b, rfl, h₂⟩ := h₁.tail (by decide)
    have hrel := hclosed h₂
    rw [hf.block, hf.block]
    generalize closed? b = closed at hrel
    cases hx : closed? cs with
    | none =>
      rw [hx] at hrel
      cases hrel
      cases kept
      · exact .nil
      · exact h
    | some rest =>
      rw [hx] at hrel
      cases hrel with
      | some hrest => exact ih rest hx hrest
  | other c cs hline hblock ih =>
    obtain ⟨b, d, rfl, hd, heq⟩ := h.uncons_of_ignoresIndent hf.ignoresIndent
    have hother {d : Char} (hnone : ∀ rest, c = '/' → cs = d :: rest → False) (rest : List Char)
        (hc : c = '/') (hb : b = d :: rest) : False := by
      subst hc hb
      obtain ⟨a, ha⟩ := h.exists_pair (by decide)
      exact hnone a rfl (List.cons.inj ha).2
    rw [hf.other hline hblock, hf.other (hother hline) (hother hblock)]
    split
    · rw [← heq]
      exact ih hd
    · exact h

/-- No blank is left in front. -/
theorem head?_ne (hf : Skips blank closed? kept f) (hc : blank c = true) (hslash : c ≠ '/')
    (cs : List Char) : (f cs).head? ≠ some c := by
  induction cs using hf.induction with
  | nil => simp [hf.nil]
  | line cs ih =>
    rw [hf.line]
    exact ih
  | block cs ih =>
    rw [hf.block]
    cases hx : closed? cs with
    | none => cases kept <;> simp [Ne.symm hslash]
    | some rest => exact ih rest hx
  | other d cs hline hblock ih =>
    rw [hf.other hline hblock]
    split
    · exact ih
    · next hd =>
      rintro heq
      cases heq
      exact hd hc

end Skips

/-- What is behind blanks and comments in front of a token. -/
def afterTrivia (cs : List Char) : List Char := cs.drop (triviaSize cs)

/-- What is behind blanks and comments between a name and its value, or in front of a document. -/
def afterGap (cs : List Char) : List Char := cs.drop (gapSize cs)

theorem triviaSize_line (cs : List Char) : triviaSize ('/' :: '/' :: cs) =
    2 + runSize (· != '\n') cs + triviaSize (cs.drop (runSize (· != '\n') cs)) :=
  triviaSize.eq_def _

theorem triviaSize_block (cs : List Char) : triviaSize ('/' :: '*' :: cs) =
    match commentSize? cs with
    | some size => 2 + size + triviaSize (cs.drop size)
    | none => 0 :=
  triviaSize.eq_def _

theorem gapSize_line (cs : List Char) : gapSize ('/' :: '/' :: cs) =
    2 + runSize (· != '\n') cs + gapSize (cs.drop (runSize (· != '\n') cs)) :=
  gapSize.eq_def _

theorem gapSize_block (cs : List Char) : gapSize ('/' :: '*' :: cs) =
    match blockSize? cs with
    | some size => 2 + size + gapSize (cs.drop size)
    | none => 2 + cs.length :=
  gapSize.eq_def _

theorem skips_trivia : Skips isLexerBlank afterComment? true afterTrivia where
  indent := of_isIndent rfl rfl
  shorter := length_le_of_map_drop
  nil := List.drop_nil
  line cs := by
    unfold afterTrivia
    rw [triviaSize_line, ← drop_runSize, List.drop_drop, Nat.add_assoc, Nat.add_comm 2]
    rfl
  block cs := by
    unfold afterTrivia
    rw [triviaSize_block]
    unfold afterComment?
    cases commentSize? cs with
    | none => rfl
    | some size =>
      dsimp only [Option.map_some]
      rw [List.drop_drop, Nat.add_assoc, Nat.add_comm 2]
      rfl
  other hline hblock := by
    rw [afterTrivia, triviaSize.eq_def]
    split
    · next heq => cases heq
    · next heq =>
      cases heq
      exact (hline _ rfl rfl).elim
    · next heq =>
      cases heq
      exact (hblock _ rfl rfl).elim
    · next heq =>
      cases heq
      split
      · rw [Nat.add_comm]
        rfl
      · rfl

theorem skips_gap : Skips isBlank afterBlock? false afterGap where
  indent := of_isIndent rfl rfl
  shorter := length_le_of_map_drop
  nil := List.drop_nil
  line cs := by
    unfold afterGap
    rw [gapSize_line, ← drop_runSize, List.drop_drop, Nat.add_assoc, Nat.add_comm 2]
    rfl
  block cs := by
    unfold afterGap
    rw [gapSize_block]
    unfold afterBlock?
    cases blockSize? cs with
    | none =>
      dsimp only [Option.map_none]
      rw [Nat.add_comm]
      exact List.drop_length
    | some size =>
      dsimp only [Option.map_some]
      rw [List.drop_drop, Nat.add_assoc, Nat.add_comm 2]
      rfl
  other hline hblock := by
    rw [afterGap, gapSize.eq_def]
    split
    · next heq => cases heq
    · next heq =>
      cases heq
      exact (hline _ rfl rfl).elim
    · next heq =>
      cases heq
      exact (hblock _ rfl rfl).elim
    · next heq =>
      cases heq
      split
      · rw [Nat.add_comm]
        rfl
      · rfl

/-! ### Tokens -/

/-- The places are at the same point of two texts that differ in how some lines are indented. -/
def Matching (T : Nat → Prop) (p q : Place) : Prop := Reindented T p.rest q.rest

variable {p q : Place}

theorem Matching.skipGap (h : Matching T p q) : Matching T (skipGap p) (skipGap q) :=
  skips_gap.reindented (fun h => h.afterBlock?_rel) h

/-- The same token at matching places. -/
structure Lexed.Matching {α : Type} (T : Nat → Prop) (x y : Lexed α) : Prop where
  token : x.token = y.token
  start : Markup.Matching T x.start y.start
  stop : Markup.Matching T x.stop y.stop

/-- The next part is the same for the lexer; if it is a token, what is behind it goes on alike. -/
theorem Matching.lexFrom_rel (h : Matching T p q) :
    Option.Rel (fun x y => x.token = y.token ∧ Matching T x.start y.start ∧
      (x.token.isSome = true → Matching T x.stop y.stop)) (lexFrom p) (lexFrom q) := by
  have hstart : Matching T (p.skip (triviaSize p.rest)) (q.skip (triviaSize q.rest)) :=
    skips_trivia.reindented (fun h => h.afterComment?_rel) h
  unfold lexFrom
  dsimp only
  generalize p.skip (triviaSize p.rest) = start, q.skip (triviaSize q.rest) = start' at hstart
  obtain ⟨offset, cs⟩ := start
  obtain ⟨offset', cs'⟩ := start'
  cases cs with
  | nil =>
    cases Reindented.eq_nil hstart
    exact .none
  | cons c cs =>
    obtain ⟨b, d, heq, hd, -, hsame⟩ := Reindented.uncons hstart
    cases heq
    by_cases hc : c = '\n'
    · subst hc
      exact .some ⟨rfl, hstart, fun h => absurd h Bool.false_ne_true⟩
    · obtain rfl := hsame hc
      obtain ⟨htoken, hmore⟩ := hd.lexeme_cut c
      refine .some ⟨htoken, hstart, fun hsome => ?_⟩
      obtain ⟨hsize, hcut⟩ := hmore hsome
      unfold Matching
      dsimp only [Place.skip]
      rw [← hsize]
      exact hcut.behind

theorem Matching.skip_one (h : Matching T p q) (hline : p.rest.head? ≠ some '\n') :
    Matching T (p.skip 1) (q.skip 1) := by
  unfold Matching at h ⊢
  dsimp only [Place.skip]
  cases hp : p.rest with
  | nil =>
    rw [hp] at h
    rw [h.eq_nil]
    exact .nil
  | cons c cs =>
    rw [hp] at h hline
    obtain ⟨b, hq, hb⟩ := h.tail fun hc => hline (congrArg some hc)
    rw [hq]
    exact hb

theorem head?_start_ne_line {x : Lexed (Option Token)} (h : lexFrom p = some x) :
    x.start.rest.head? ≠ some '\n' := by
  simp only [lexFrom] at h
  split at h
  · cases h
  · cases h
    exact skips_trivia.head?_ne rfl (by decide) p.rest

end DesignSync.Markup

import Mathlib.Data.List.Forall2
import DesignSync.Proofs.Markup.Inside

/-!
Texts that differ in how some of their lines are indented. A run of text between two tags says the
same in both.
-/

namespace DesignSync.Markup

open Text

/-- A blank by which a line is indented. -/
def isIndent (c : Char) : Bool := c == ' ' || c == '\t'

/-- Two texts that differ in how some lines are indented: behind a line feed at a place in `T`, one
run of spaces and tabs stands for another. A place of the first text is told by how many characters
stand from it on. -/
inductive Reindented (T : Nat → Prop) : List Char → List Char → Prop
  | nil : Reindented T [] []
  | char (c : Char) {a b : List Char} (h : Reindented T a b) : Reindented T (c :: a) (c :: b)
  | line {u v a b : List Char} (hplace : T ((u ++ a).length + 1)) (hu : ∀ c ∈ u, isIndent c = true)
      (hv : ∀ c ∈ v, isIndent c = true) (h : Reindented T a b) :
      Reindented T ('\n' :: (u ++ a)) ('\n' :: (v ++ b))

variable {T : Nat → Prop} {x y : List Char} {p : Char → Bool}

theorem of_isIndent (hspace : p ' ' = true) (htab : p '\t' = true) (c : Char)
    (h : isIndent c = true) : p c = true := by
  simp only [isIndent, Bool.or_eq_true, beq_iff_eq] at h
  obtain rfl | rfl := h
  · exact hspace
  · exact htab

theorem dropWhile_indent_append {u : List Char} (hu : ∀ c ∈ u, isIndent c = true)
    (hp : ∀ c, isIndent c = true → p c = true) (a : List Char) :
    (u ++ a).dropWhile p = a.dropWhile p :=
  List.dropWhile_append_of_pos fun c hc => hp c (hu c hc)

/-- A function to which it is all one how the first line is indented. -/
def IgnoresIndent {α : Type} (f : List Char → α) : Prop :=
  ∀ c cs, isIndent c = true → f (c :: cs) = f cs

theorem IgnoresIndent.dropWhile {α : Type} {f : List Char → α} (hf : IgnoresIndent f)
    (cs : List Char) : f (cs.dropWhile isIndent) = f cs := by
  induction cs with
  | nil => rfl
  | cons c cs ih =>
    rw [List.dropWhile_cons]
    split
    · next hc => rw [ih, hf c cs hc]
    · rfl

namespace Reindented

theorem append_left (l : List Char) (h : Reindented T x y) : Reindented T (l ++ x) (l ++ y) := by
  induction l with
  | nil => exact h
  | cons c l ih => exact .char c ih

theorem refl (x : List Char) : Reindented T x x := by
  have h := (nil (T := T)).append_left x
  rwa [List.append_nil] at h

/-- The first characters are the same. What is behind them differs at most in how the line is
indented that starts there, if one does, and in later lines. -/
theorem uncons {c : Char} {a : List Char} (h : Reindented T (c :: a) y) :
    ∃ b d, y = c :: b ∧ Reindented T a d ∧ d.dropWhile isIndent = b.dropWhile isIndent ∧
      (c ≠ '\n' → d = b) := by
  cases h with
  | char _ h => exact ⟨_, _, rfl, h, rfl, fun _ => rfl⟩
  | @line u v a b _ hu hv h =>
    refine ⟨v ++ b, u ++ b, rfl, h.append_left u, ?_, fun hc => absurd rfl hc⟩
    rw [dropWhile_indent_append hu fun _ => id, dropWhile_indent_append hv fun _ => id]

theorem uncons_of_ignoresIndent {α : Type} {f : List Char → α} (hf : IgnoresIndent f) {c : Char}
    {a : List Char} (h : Reindented T (c :: a) y) :
    ∃ b d, y = c :: b ∧ Reindented T a d ∧ f d = f b := by
  obtain ⟨b, d, rfl, hd, heq, -⟩ := h.uncons
  refine ⟨b, d, rfl, hd, ?_⟩
  rw [← hf.dropWhile, heq, hf.dropWhile]

/-- Behind a character that ends no line the texts go on alike. -/
theorem tail {c : Char} {a : List Char} (h : Reindented T (c :: a) y) (hc : c ≠ '\n') :
    ∃ b, y = c :: b ∧ Reindented T a b := by
  obtain ⟨b, d, rfl, hd, -, heq⟩ := h.uncons
  exact ⟨b, rfl, heq hc ▸ hd⟩

theorem eq_nil (h : Reindented T [] y) : y = [] := by
  cases h
  rfl

theorem head?_eq (h : Reindented T x y) : x.head? = y.head? := by
  cases h <;> rfl

theorem exists_cons {c : Char} {b : List Char} (h : Reindented T x (c :: b)) :
    ∃ a, x = c :: a :=
  List.head?_eq_some_iff.1 h.head?_eq

/-- Where the lines are not indented anew the texts are the same. -/
theorem split (h : Reindented T x y) {n : Nat} (hn : n ≤ x.length)
    (hT : ∀ m, x.length - n < m → m ≤ x.length → ¬ T m) :
    ∃ b, y = x.take n ++ b ∧ Reindented T (x.drop n) b := by
  induction n generalizing x y with
  | zero => exact ⟨y, rfl, h⟩
  | succ n ih =>
    cases h with
    | nil => simp at hn
    | @char c a b h =>
      simp only [List.length_cons] at hn hT
      obtain ⟨b', rfl, hb'⟩ := ih h (by omega) fun m hm hle => hT m (by omega) (by omega)
      exact ⟨b', rfl, hb'⟩
    | line hplace =>
      simp only [List.length_cons] at hn hT
      exact absurd hplace (hT _ (by omega) (by omega))

/-! ### Runs -/

/-- What is behind a run: the run stops at the end of a line, or else it takes in what indents
one. -/
theorem dropWhile (h : Reindented T x y)
    (hp : p '\n' = true → ∀ c, isIndent c = true → p c = true) :
    Reindented T (x.dropWhile p) (y.dropWhile p) := by
  induction h with
  | nil => exact .nil
  | char c h ih =>
    rw [List.dropWhile_cons, List.dropWhile_cons]
    split
    · exact ih
    · exact .char c h
  | line hplace hu hv h ih =>
    rw [List.dropWhile_cons, List.dropWhile_cons]
    split
    · next hline =>
      rw [dropWhile_indent_append hu (hp hline), dropWhile_indent_append hv (hp hline)]
      exact ih
    · exact .line hplace hu hv h

/-- A run within a line. -/
theorem takeWhile_eq (h : Reindented T x y) (hp : p '\n' = false) :
    x.takeWhile p = y.takeWhile p := by
  induction h with
  | nil => rfl
  | char c _ ih => rw [List.takeWhile_cons, List.takeWhile_cons, ih]
  | line => rw [List.takeWhile_cons, List.takeWhile_cons, hp]; rfl

/-- A run over whole lines. -/
theorem takeWhile (h : Reindented T x y) (hp : ∀ c, isIndent c = true → p c = true) :
    Reindented (fun _ => True) (x.takeWhile p) (y.takeWhile p) := by
  induction h with
  | nil => exact .nil
  | char c _ ih =>
    rw [List.takeWhile_cons, List.takeWhile_cons]
    split
    · exact .char c ih
    · exact .nil
  | line _ hu hv _ ih =>
    rw [List.takeWhile_cons, List.takeWhile_cons]
    split
    · rw [List.takeWhile_append_of_pos fun c hc => hp c (hu c hc),
        List.takeWhile_append_of_pos fun c hc => hp c (hv c hc)]
      exact .line trivial hu hv ih
    · exact .nil

/-! ### Text between tags -/

/-- The first line is the same, and the others are but for the blanks in front. -/
theorem splitWhere_lines (h : Reindented T x y) : ∃ l ls ls',
    splitWhere (· == '\n') x = l :: ls ∧ splitWhere (· == '\n') y = l :: ls' ∧
      List.Forall₂ (fun a b => a.dropWhile isLineBlank = b.dropWhile isLineBlank) ls ls' := by
  induction h with
  | nil => exact ⟨[], [], [], rfl, rfl, .nil⟩
  | char c _ ih =>
    obtain ⟨l, ls, ls', hx, hy, hls⟩ := ih
    rw [splitWhere, splitWhere, hx, hy]
    by_cases hc : (c == '\n') = true
    · exact ⟨[], l :: ls, l :: ls', by simp [hc], by simp [hc], .cons rfl hls⟩
    · exact ⟨c :: l, ls, ls', by simp [hc], by simp [hc], hls⟩
  | @line u v a b _ hu hv _ ih =>
    obtain ⟨l, ls, ls', hx, hy, hls⟩ := ih
    have hbehind {w cs : List Char} {rest : List (List Char)} (hw : ∀ c ∈ w, isIndent c = true)
        (hcs : splitWhere (· == '\n') cs = l :: rest) :
        splitWhere (· == '\n') (w ++ cs) = (w ++ l) :: rest := by
      induction w with
      | nil => exact hcs
      | cons c w ih =>
        have hc : (c != '\n') = true :=
          of_isIndent (p := (· != '\n')) rfl rfl c (hw c List.mem_cons_self)
        rw [List.cons_append, splitWhere, ih fun d hd => hw d (List.mem_cons_of_mem _ hd)]
        simp [bne_iff_ne.1 hc]
    have hblank : ∀ c, isIndent c = true → isLineBlank c = true := of_isIndent rfl rfl
    refine ⟨[], (u ++ l) :: ls, (v ++ l) :: ls', ?_, ?_, .cons ?_ hls⟩
    · rw [splitWhere, hbehind hu hx]
      rfl
    · rw [splitWhere, hbehind hv hy]
      rfl
    · rw [dropWhile_indent_append hu hblank, dropWhile_indent_append hv hblank]

theorem innerLines_eq {ls ls' : List (List Char)}
    (h : List.Forall₂ (fun a b => a.dropWhile isLineBlank = b.dropWhile isLineBlank) ls ls') :
    innerLines ls = innerLines ls' := by
  induction h with
  | nil => rfl
  | cons hline hrest ih =>
    cases hrest with
    | nil => rw [innerLines, innerLines, hline]
    | cons =>
      change dropEndWhile isLineBlank _ :: innerLines _ = dropEndWhile isLineBlank _ :: innerLines _
      rw [hline, ih]

/-- A run of text says the same however its lines are indented. -/
theorem runText_eq (h : Reindented T x y) : runText x = runText y := by
  obtain ⟨l, ls, ls', hx, hy, hls⟩ := h.splitWhere_lines
  have hlines : runLines (l :: ls) = runLines (l :: ls') := by
    have hinner := innerLines_eq hls
    cases hls with
    | nil => rfl
    | cons =>
      change dropEndWhile isLineBlank l :: innerLines _ = dropEndWhile isLineBlank l :: innerLines _
      rw [hinner]
  rw [runText, runText, hx, hy, hlines]

end Reindented

end DesignSync.Markup

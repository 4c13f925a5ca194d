import DesignSync.Proofs.Markup.Counts
import DesignSync.Proofs.Markup.IndentedTokens

/-!
Blanks and comments in front of a text. A front that is passed over is passed over whatever stands
behind it, as long as something did, and such fronts have a grammar of their own.
-/

namespace DesignSync.Markup

open Text

/-! ### Block comments -/

/-- What is behind a comment that ends within a front of a text: it ends there as well in front of
another text. -/
def EndsWithin (closed? : List Char → Option (List Char)) : Prop :=
  ∀ {u y rest : List Char}, closed? (u ++ y) = some rest → y.length ≤ rest.length →
    ∃ v, v.length ≤ u.length ∧ rest = v ++ y ∧ ∀ x, closed? (u ++ x) = some (v ++ x)

private theorem LooksNoFurther.endsWithin {size? : List Char → Option Nat}
    (hsize : LooksNoFurther size?) : EndsWithin fun cs => (size? cs).map (cs.drop ·) := by
  intro u y rest h hy
  obtain ⟨n, hn, rfl⟩ := Option.map_eq_some_iff.1 h
  have hlength := hsize.le_length hn
  rw [List.length_drop] at hy
  rw [List.length_append] at hlength hy
  have hin : n ≤ u.length := by omega
  have hfront (x : List Char) : size? (u ++ x) = some n := by
    simpa using hsize.take_append hn hin x
  refine ⟨u.drop n, ?_, List.drop_append_of_le_length hin, fun x => ?_⟩
  · rw [List.length_drop]
    exact Nat.sub_le _ _
  · dsimp only
    rw [hfront x, Option.map_some, List.drop_append_of_le_length hin]

theorem endsWithin_afterComment? : EndsWithin afterComment? := commentSize?_front.endsWithin

theorem endsWithin_afterBlock? : EndsWithin afterBlock? := blockSize?_front.endsWithin

/-! ### Passing over -/

namespace Skips

variable {blank : Char → Bool} {closed? : List Char → Option (List Char)} {kept : Bool}
  {f : List Char → List Char}

theorem length_le (hf : Skips blank closed? kept f) (cs : List Char) :
    (f cs).length ≤ cs.length := by
  induction cs using hf.induction with
  | nil => exact Nat.le_of_eq (congrArg List.length hf.nil)
  | line cs ih =>
    have hshort := (List.dropWhile_suffix (· != '\n') (l := cs)).length_le
    rw [hf.line]
    simp only [List.length_cons]
    omega
  | block cs ih =>
    rw [hf.block]
    cases hx : closed? cs with
    | none => cases kept <;> simp
    | some rest =>
      have hshort := hf.shorter hx
      have hle := ih rest hx
      simp only [List.length_cons]
      omega
  | other c cs hline hblock ih =>
    rw [hf.other hline hblock]
    split
    · exact Nat.le_succ_of_le ih
    · exact Nat.le_refl _

/-- A text that stays when blanks are passed over starts with no line feed. -/
private theorem dropWhile_line (hf : Skips blank closed? kept f) (hfeed : blank '\n' = true)
    {s : List Char} (hs : s ≠ []) : f (s.dropWhile (· != '\n')) ≠ s := by
  intro h
  have hsuffix := List.dropWhile_suffix (· != '\n') (l := s)
  have hle := hf.length_le (s.dropWhile (· != '\n'))
  rw [h] at hle
  have hsame : s.dropWhile (· != '\n') = s :=
    hsuffix.eq_of_length (Nat.le_antisymm hsuffix.length_le hle)
  rw [hsame] at h
  cases s with
  | nil => exact hs rfl
  | cons c s =>
    have hc := of_dropWhile_eq_cons hsame
    obtain rfl : c = '\n' := by simpa using hc
    have hne : '\n' ≠ '/' := by decide
    rw [hf.other (fun _ h => absurd h hne) fun _ h => absurd h hne, if_pos hfeed] at h
    have hshort := hf.length_le s
    rw [h, List.length_cons] at hshort
    omega

/-- A front that is passed over up to the text behind it is passed over in front of any text. -/
theorem append (hf : Skips blank closed? kept f) (hfeed : blank '\n' = true)
    (hslash : blank '/' = false) (hends : EndsWithin closed?) {g s : List Char} (hs : s ≠ [])
    (h : f (g ++ s) = s) (cs : List Char) : f (g ++ cs) = f cs := by
  -- what is passed over is no longer than what it leaves
  have htoo {a b : List Char} (hab : f a = b) (hlt : a.length < b.length) : False := by
    have hle := hf.length_le a
    rw [hab] at hle
    omega
  generalize htext : g ++ s = text at h
  induction text using hf.induction generalizing g with
  | nil => exact absurd (List.append_eq_nil_iff.1 htext).2 hs
  | line rest ih =>
    rw [hf.line] at h
    have hshort := (List.dropWhile_suffix (· != '\n') (l := rest)).length_le
    obtain _ | ⟨c, _ | ⟨d, g⟩⟩ := g
    · rfl
    · obtain rfl : s = '/' :: rest := (List.cons.inj htext).2
      exact (htoo h (by simp only [List.length_cons]; omega)).elim
    · simp only [List.cons_append, List.cons.injEq] at htext
      obtain ⟨rfl, rfl, rfl⟩ := htext
      rw [List.cons_append, List.cons_append, hf.line]
      rw [List.dropWhile_append] at h ih ⊢
      split at h
      · exact (dropWhile_line hf hfeed hs h).elim
      · next hwithin =>
        rw [if_neg hwithin] at ih ⊢
        exact ih rfl h
  | block rest ih =>
    rw [hf.block] at h
    cases hx : closed? rest with
    | none =>
      rw [hx] at h
      cases kept
      · exact (hs h.symm).elim
      · rw [if_pos rfl, ← htext, List.append_left_eq_self] at h
        rw [h, List.nil_append]
    | some inner =>
      rw [hx] at h
      dsimp only at h
      have hshort := hf.shorter hx
      obtain _ | ⟨c, _ | ⟨d, g⟩⟩ := g
      · rfl
      · obtain rfl : s = '*' :: rest := (List.cons.inj htext).2
        exact (htoo h (by simp only [List.length_cons]; omega)).elim
      · simp only [List.cons_append, List.cons.injEq] at htext
        obtain ⟨rfl, rfl, rfl⟩ := htext
        have hlength := hf.length_le inner
        rw [h] at hlength
        obtain ⟨v, hv, rfl, hclosed⟩ := hends hx hlength
        rw [List.cons_append, List.cons_append, hf.block, hclosed cs]
        exact ih _ hx rfl h
  | other c rest hline hblock ih =>
    obtain _ | ⟨c, g⟩ := g
    · rfl
    simp only [List.cons_append, List.cons.injEq] at htext
    obtain ⟨rfl, rfl⟩ := htext
    rw [hf.other hline hblock] at h
    split at h
    · next hblank =>
      have hne : c ≠ '/' := by
        rintro rfl
        rw [hslash] at hblank
        cases hblank
      rw [List.cons_append, hf.other (fun _ hc => absurd hc hne) fun _ hc => absurd hc hne,
        if_pos hblank]
      exact ih rfl h
    · have hlength := congrArg List.length h
      simp only [List.length_cons, List.length_append] at hlength
      omega

end Skips

/-! ### In front of tokens -/

/-- Blanks and closed comments, which are passed over in front of a token whatever it is. -/
def IsTrivia (g : List Char) : Prop := ∀ cs, triviaSize (g ++ cs) = g.length + triviaSize cs

/-- The same for what is passed over in front of a value. -/
def IsPassed (g : List Char) : Prop := ∀ cs, gapSize (g ++ cs) = g.length + gapSize cs

private theorem eq_add_of_drop_eq {g cs : List Char} {m n : Nat} (hm : m ≤ (g ++ cs).length)
    (hn : n ≤ cs.length) (h : (g ++ cs).drop m = cs.drop n) : m = g.length + n := by
  have hlength := congrArg List.length h
  simp only [List.length_drop, List.length_append] at hlength hm
  omega

theorem isTrivia_of_eq {g s : List Char} (hs : s ≠ []) (h : triviaSize (g ++ s) = g.length) :
    IsTrivia g := fun cs => by
  have hfront : afterTrivia (g ++ s) = s := by rw [afterTrivia, h, List.drop_left]
  exact eq_add_of_drop_eq (triviaSize_le _) (triviaSize_le _)
    (skips_trivia.append rfl rfl endsWithin_afterComment? hs hfront cs)

theorem isPassed_of_eq {g s : List Char} (hs : s ≠ []) (h : gapSize (g ++ s) = g.length) :
    IsPassed g := fun cs => by
  have hfront : afterGap (g ++ s) = s := by rw [afterGap, h, List.drop_left]
  exact eq_add_of_drop_eq (gapSize_le _) (gapSize_le _)
    (skips_gap.append rfl rfl endsWithin_afterBlock? hs hfront cs)

theorem isTrivia_nil : IsTrivia [] := fun _ => by simp

/-- Blanks and comments start with a blank or a slash. -/
theorem IsTrivia.head {c : Char} {g : List Char} (h : IsTrivia (c :: g)) : isSolid c = false := by
  cases hc : isSolid c with
  | false => rfl
  | true =>
    have hsize := h []
    rw [List.cons_append, triviaSize_solid hc, List.length_cons] at hsize
    omega

/-- No token is kept from sight by blanks or comments behind what was passed over. -/
theorem triviaSize_afterTrivia (cs : List Char) : triviaSize (afterTrivia cs) = 0 := by
  unfold afterTrivia
  cases hrest : cs.drop (triviaSize cs) with
  | nil => rw [triviaSize]
  | cons c tail =>
    have hcs : cs = cs.take (triviaSize cs) ++ c :: tail := by
      rw [← hrest, List.take_append_drop]
    have hlength : (cs.take (triviaSize cs)).length = triviaSize cs :=
      List.length_take_of_le (triviaSize_le cs)
    have htrivia : IsTrivia (cs.take (triviaSize cs)) :=
      isTrivia_of_eq (s := c :: tail) (List.cons_ne_nil _ _) (by rw [← hcs, hlength])
    have hsize := htrivia (c :: tail)
    rw [← hcs, hlength] at hsize
    omega

/-! ### How they are written -/

/-- What stands between the two ends of a block comment. A star goes with the character behind it, so
that the third star of `/***/` is no end. -/
inductive CommentBody : List Char → Prop
  | nil : CommentBody []
  | char {c : Char} {cs : List Char} (hc : c ≠ '*') (h : CommentBody cs) : CommentBody (c :: cs)
  | pair {c : Char} {cs : List Char} (hc : c ≠ '/') (h : CommentBody cs) :
      CommentBody ('*' :: c :: cs)

/-- Blanks and comments. A line comment has the end of its line with it. -/
inductive Trivia : List Char → Prop
  | nil : Trivia []
  | blank {c : Char} {cs : List Char} (hc : isLexerBlank c = true) (h : Trivia cs) :
      Trivia (c :: cs)
  | line {body cs : List Char} (hbody : '\n' ∉ body) (h : Trivia cs) :
      Trivia ('/' :: '/' :: (body ++ '\n' :: cs))
  | block {body cs : List Char} (hbody : CommentBody body) (h : Trivia cs) :
      Trivia ('/' :: '*' :: (body ++ '*' :: '/' :: cs))

theorem commentSize?_of_body {body : List Char} (h : CommentBody body) (cs : List Char) :
    commentSize? (body ++ '*' :: '/' :: cs) = some (body.length + 2) := by
  induction h with
  | nil => rfl
  | char hc _ ih =>
    rw [List.cons_append, commentSize?, ih]
    · rfl
    all_goals simp [hc]
  | pair hc _ ih =>
    rw [List.cons_append, List.cons_append, commentSize?, ih]
    · rfl
    all_goals simp [hc]

theorem exists_body_of_commentSize? {cs : List Char} {n : Nat} (h : commentSize? cs = some n) :
    ∃ body, CommentBody body ∧ cs.take n = body ++ ['*', '/'] := by
  fun_induction commentSize? cs generalizing n with
  | case1 => cases h
  | case2 cs =>
    cases h
    exact ⟨[], .nil, rfl⟩
  | case3 => cases h
  | case4 c cs hc ih =>
    obtain ⟨m, hm, rfl⟩ := Option.map_eq_some_iff.1 h
    obtain ⟨body, hbody, htake⟩ := ih hm
    refine ⟨'*' :: c :: body, .pair (fun heq => hc heq) hbody, ?_⟩
    rw [List.take_succ_cons, List.take_succ_cons, htake]
    rfl
  | case5 c cs hstar _ hpair ih =>
    obtain ⟨m, hm, rfl⟩ := Option.map_eq_some_iff.1 h
    obtain ⟨body, hbody, htake⟩ := ih hm
    have hne : c ≠ '*' := by
      rintro rfl
      cases cs with
      | nil => cases hm
      | cons d cs => exact hpair d cs rfl rfl
    exact ⟨c :: body, .char hne hbody, by rw [List.take_succ_cons, htake]; rfl⟩

theorem triviaSize_blank {c : Char} (h : isLexerBlank c = true) (cs : List Char) :
    triviaSize (c :: cs) = triviaSize cs + 1 := by
  have hne : c ≠ '/' := by
    rintro rfl
    cases h
  rw [triviaSize, if_pos h, Nat.add_comm]
  all_goals exact fun _ h => absurd h hne

/-- Behind the rest of a line there is nothing, or its line feed. -/
private theorem drop_runSize_line (cs : List Char) :
    cs.drop (runSize (· != '\n') cs) = [] ∨
      ∃ rest, cs.drop (runSize (· != '\n') cs) = '\n' :: rest := by
  rw [drop_runSize]
  cases hrest : cs.dropWhile (· != '\n') with
  | nil => exact .inl rfl
  | cons c rest =>
    obtain rfl : c = '\n' := by simpa using of_dropWhile_eq_cons hrest
    exact .inr ⟨rest, rfl⟩

/-- Blanks and comments are passed over whatever stands behind them. -/
theorem Trivia.isTrivia {g : List Char} (h : Trivia g) : IsTrivia g := fun cs => by
  induction h with
  | nil => exact isTrivia_nil cs
  | blank hc _ ih =>
    rw [List.cons_append, triviaSize_blank hc, ih, List.length_cons]
    omega
  | @line body g hbody _ ih =>
    have hsize : runSize (· != '\n') (body ++ '\n' :: g ++ cs) = body.length := by
      rw [List.append_assoc, List.cons_append, runSize_append, runSize_eq_zero rfl, Nat.add_zero]
      exact fun c hc => bne_iff_ne.2 fun heq => hbody (heq ▸ hc)
    rw [List.cons_append, List.cons_append, triviaSize_line, hsize, List.append_assoc,
      List.drop_left, List.cons_append, triviaSize_blank rfl, ih]
    simp only [List.length_cons, List.length_append]
    omega
  | @block body g hbody _ ih =>
    rw [List.cons_append, List.cons_append, triviaSize_block, List.append_assoc, List.cons_append,
      List.cons_append, commentSize?_of_body hbody]
    change 2 + (body.length + 2) + triviaSize ((body ++ _).drop (body.length + 2)) = _
    rw [← List.drop_drop, List.drop_left, List.drop_succ_cons, List.drop_succ_cons, List.drop_zero, ih]
    simp only [List.length_cons, List.length_append]
    omega

/-- What is passed over in front of something else is blanks and comments. -/
theorem trivia_take_triviaSize {cs : List Char} (h : triviaSize cs < cs.length) :
    Trivia (cs.take (triviaSize cs)) := by
  fun_induction triviaSize cs with
  | case1 => exact .nil
  | case2 rest size ih =>
    have hlt : triviaSize (rest.drop size) < (rest.drop size).length := by
      rw [List.length_cons, List.length_cons] at h
      rw [List.length_drop]
      omega
    have htake : rest.take size = rest.takeWhile (· != '\n') := take_runSize _ rest
    obtain hnil | ⟨tail, htail⟩ : rest.drop size = [] ∨ ∃ tail, rest.drop size = '\n' :: tail :=
      drop_runSize_line rest
    · rw [hnil] at hlt
      cases hlt
    · have htrivia := ih hlt
      rw [htail, triviaSize_blank rfl, List.take_succ_cons] at htrivia
      rw [Nat.add_assoc, Nat.add_comm 2, List.take_succ_cons, List.take_succ_cons, List.take_add,
        htake, htail, triviaSize_blank rfl, List.take_succ_cons]
      refine .line (fun hmem => ?_) ?_
      · simpa using List.mem_takeWhile_imp hmem
      · cases htrivia with
        | blank _ htrivia => exact htrivia
  | case3 rest size hsize ih =>
    obtain ⟨body, hbody, htake⟩ := exists_body_of_commentSize? hsize
    rw [Nat.add_assoc, Nat.add_comm 2, List.take_succ_cons, List.take_succ_cons, List.take_add, htake,
      List.append_assoc]
    rw [List.length_cons, List.length_cons] at h
    exact .block hbody (ih (by rw [List.length_drop]; omega))
  | case4 rest => exact .nil
  | case5 c rest _ _ hblank ih =>
    rw [List.length_cons] at h
    rw [Nat.add_comm, List.take_succ_cons]
    exact .blank hblank (ih (by omega))
  | case6 => exact .nil

theorem isTrivia_iff {g : List Char} : IsTrivia g ↔ Trivia g := by
  refine ⟨fun h => ?_, Trivia.isTrivia⟩
  have hsize : triviaSize (g ++ ['>']) = g.length := by rw [h, triviaSize_solid rfl, Nat.add_zero]
  have hlt : triviaSize (g ++ ['>']) < (g ++ ['>']).length := by
    rw [hsize]
    simp
  simpa [hsize] using trivia_take_triviaSize hlt

end DesignSync.Markup

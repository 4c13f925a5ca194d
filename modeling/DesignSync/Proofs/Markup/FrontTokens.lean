import DesignSync.Proofs.Markup.Places
import DesignSync.Proofs.Markup.Trivia

/-!
Readers of tokens look no further than they go: what they have read they read as well in front of
another text, as long as that does not prolong the last word.
-/

namespace DesignSync.Text.Place

variable {p q r : Place} {u v w x : List Char}

/-- The same place in front of another text. -/
def facing (p : Place) (cs : List Char) : Place := ⟨p.offset, cs⟩

theorem Over.facing (h : p.Over u q) (x : List Char) :
    (p.facing (u ++ x)).Over u (q.facing x) := ⟨rfl, h.offset⟩

theorem Over.skip_eq (h : p.Over u q) : p.skip u.length = q := by
  obtain ⟨offset, rest⟩ := q
  obtain ⟨hrest, hoffset⟩ := h
  dsimp only at hrest hoffset
  rw [skip, hrest, List.take_left, List.drop_left, hoffset]

theorem Over.skip_facing (h : p.Over u q) (x : List Char) :
    (p.facing (u ++ x)).skip u.length = q.facing x := (h.facing x).skip_eq

/-- The text on a way is that on its parts. -/
theorem Over.eq_append (h : p.Over u r) (hv : p.Over v q) (hw : q.Over w r) : u = v ++ w := by
  have hrest := (hv.trans hw).rest
  rw [h.rest] at hrest
  exact List.append_cancel_right hrest

theorem Over.ne_nil (h : p.Over u q) (hlt : q.rest.length < p.rest.length) : u ≠ [] := by
  rintro rfl
  rw [h.rest] at hlt
  exact Nat.lt_irrefl _ hlt

theorem Over.eq (h : p.Over u q) (h' : p.Over v q) : u = v := by
  simpa using h.eq_append h' (.refl q)

end DesignSync.Text.Place

namespace DesignSync.Markup

open Text

variable {p q : Place} {u x : List Char}

/-! ### Tokens -/

theorem peek_eq_ok_some_iff {t : Token} {a b : Place} :
    peek p = .ok (some ⟨t, a, b⟩) ↔ lexFrom p = some ⟨some t, a, b⟩ := by
  unfold peek
  cases lexFrom p with
  | none => simp
  | some x =>
    obtain ⟨token, start, stop⟩ := x
    cases token <;> simp

/-- A token that was found, by the text in front of it and its own text. -/
theorem exists_of_lexFrom {t : Token} {a b : Place} (h : lexFrom p = some ⟨some t, a, b⟩) :
    ∃ g w, p.Over g a ∧ a.Over w b ∧ IsTrivia g ∧ Lexes (w ++ b.rest) t b.rest := by
  have hover := p.over_skip (triviaSize p.rest)
  have hlength := List.length_take_of_le (triviaSize_le p.rest)
  unfold lexFrom at h
  dsimp only at h
  split at h
  · cases h
  · next c cs hrest =>
    obtain ⟨htoken, rfl, rfl⟩ := Lexed.mk.inj (Option.some.inj h)
    have htrivia : IsTrivia (p.rest.take (triviaSize p.rest)) :=
      isTrivia_of_eq (s := c :: cs) (List.cons_ne_nil _ _) (by
        rw [← hrest, ← hover.rest, hlength])
    have hnone : triviaSize (c :: cs) = 0 := hrest ▸ triviaSize_afterTrivia p.rest
    have hword := (p.skip (triviaSize p.rest)).over_skip ((lexeme c cs).2 + 1)
    refine ⟨_, _, hover, hword, htrivia, c, cs, _, ?_, ?_, Prod.ext htoken rfl, ?_⟩
    · rw [← hword.rest, hrest]
    · rw [← hword.rest, hrest, hnone]
    · rw [Place.skip, hrest, List.drop_succ_cons]

/-- A token is found behind blanks and comments. -/
theorem lexFrom_of_trivia {g w rest : List Char} {t : Token} (hp : p.rest = g ++ (w ++ rest))
    (hg : IsTrivia g) (h : Lexes (w ++ rest) t rest) :
    lexFrom p = some ⟨some t, p.skip g.length, (p.skip g.length).skip w.length⟩ := by
  obtain ⟨c, tail, size, hcs, htrivia, hlexeme, hrest⟩ := h
  have hsize : triviaSize p.rest = g.length := by rw [hp, hg, htrivia, Nat.add_zero]
  have hstart : (p.skip g.length).rest = c :: tail := by rw [Place.skip, hp, List.drop_left, hcs]
  have hle := lexeme_le c tail
  rw [hlexeme] at hle
  have hw : w.length = size + 1 := by
    have hlength := congrArg List.length hcs
    rw [← hrest] at hlength
    simp only [List.length_append, List.length_drop, List.length_cons] at hlength hle
    omega
  unfold lexFrom
  dsimp only
  rw [hsize]
  split
  · next hnil =>
    rw [hstart] at hnil
    cases hnil
  · next d ds heq =>
    rw [hstart] at heq
    obtain ⟨rfl, rfl⟩ := List.cons.inj heq
    rw [hlexeme, hw]

/-- A token whose text is one as well in front of another text. -/
theorem lexFrom_front {t s : Token} {a b : Place} (h : lexFrom p = some ⟨some t, a, b⟩)
    (hover : p.Over u b) (ht : ∀ w, Lexes (w ++ b.rest) t b.rest → Lexes (w ++ x) s x) :
    ∃ w, a.Over w b ∧
      lexFrom (p.facing (u ++ x)) = some ⟨some s, a.facing (w ++ x), b.facing x⟩ := by
  obtain ⟨g, w, hg, hw, htrivia, hlexes⟩ := exists_of_lexFrom h
  refine ⟨w, hw, ?_⟩
  have hu : u = g ++ w := hover.eq_append hg hw
  rw [hu, List.append_assoc, lexFrom_of_trivia rfl htrivia (ht w hlexes), hg.skip_facing,
    hw.skip_facing]

theorem lexes_symbol {w rest : List Char} {s : Symbol} (h : Lexes (w ++ rest) (.symbol s) rest) :
    w = [s.char] := by
  obtain ⟨c, tail, size, hcs, -, hlexeme, hrest⟩ := h
  obtain ⟨rfl, rfl⟩ := symbol_of_lexeme hlexeme
  have hcons : w ++ rest = [s.char] ++ rest := by
    rw [hcs, ← hrest]
    rfl
  exact List.append_cancel_right hcons

theorem peek_symbol_front {s : Symbol} {a b : Place} (hs : isFirmSymbol s.char = true)
    (h : peek p = .ok (some ⟨.symbol s, a, b⟩)) (hover : p.Over u b) :
    peek (p.facing (u ++ x)) =
      .ok (some ⟨.symbol s, a.facing ([s.char] ++ x), b.facing x⟩) := by
  obtain ⟨w, hw, hlex⟩ := lexFrom_front (x := x) (peek_eq_ok_some_iff.1 h) hover fun w hw => by
    rw [lexes_symbol hw]
    exact .symbol hs x
  obtain ⟨g, w', -, hw', -, hlexes⟩ := exists_of_lexFrom (peek_eq_ok_some_iff.1 h)
  rw [hw.eq hw', lexes_symbol hlexes] at hlex
  exact peek_eq_ok_some_iff.2 hlex

/-! ### Words -/

/-- A word goes on as far as it can. -/
theorem head?_drop_wordSize (cs : List Char) :
    ∀ c ∈ (cs.drop (wordSize cs)).head?, isNameChar c = false := by
  induction cs using isWordTail.induct with
  | case1 =>
    rw [List.drop_nil]
    intro _ hc
    cases hc
  | case2 d cs ih =>
    cases hd : isNameChar d with
    | true =>
      rw [wordSize_dash hd, List.drop_succ_cons, List.drop_succ_cons]
      exact ih
    | false =>
      have hzero : wordSize ('-' :: d :: cs) = 0 :=
        wordSize_eq_zero (by decide) fun _ e he => Option.some.inj he ▸ hd
      rw [hzero]
      rintro _ ⟨⟩
      rfl
  | case3 d cs hdash ih =>
    cases hd : isNameChar d with
    | true =>
      rw [wordSize_name hd, List.drop_succ_cons]
      exact ih
    | false =>
      have hzero : wordSize (d :: cs) = 0 := wordSize_eq_zero hd fun hd' e he => by
        obtain ⟨tail, rfl⟩ := List.head?_eq_some_iff.1 he
        exact (hdash e tail hd' rfl).elim
      rw [hzero]
      rintro _ ⟨⟩
      exact hd

private theorem lexeme_name {c : Char} {cs : List Char} {t : Token} {size : Nat} {name : String}
    (h : lexeme c cs = (some t, size)) (hname : t.name? = some name) :
    isNameStart c = true ∧ size = wordSize cs ∧ name = String.ofList (c :: cs.take size) := by
  unfold lexeme at h
  dsimp only at h
  split at h
  · next hstart =>
    obtain ⟨htoken, rfl⟩ := Prod.mk.inj h
    obtain rfl := Option.some.inj htoken
    rw [name?_wordToken] at hname
    exact ⟨hstart, rfl, (Option.some.inj hname).symm⟩
  split at h
  · obtain ⟨htoken, -⟩ := Prod.mk.inj h
    split at htoken
    · obtain rfl := Option.some.inj htoken
      split at hname <;> cases hname
    · cases htoken
  split at h
  · cases h
    cases hname
  split at h
  · cases h
  split at h
  · cases h
    cases hname
  · obtain ⟨htoken, -⟩ := Prod.mk.inj h
    obtain ⟨s, -, rfl⟩ := Option.map_eq_some_iff.1 htoken
    cases hname

/-- A token that can stand as a name is an identifier that goes on as far as it can. -/
theorem lexes_name {w rest : List Char} {t : Token} {name : String} (h : Lexes (w ++ rest) t rest)
    (hname : t.name? = some name) :
    w = name.toList ∧ isIdentifier w = true ∧ ∀ c ∈ rest.head?, isNameChar c = false := by
  obtain ⟨c, tail, size, hcs, -, hlexeme, hrest⟩ := h
  obtain ⟨hstart, rfl, rfl⟩ := lexeme_name hlexeme hname
  have hw : w = c :: tail.take (wordSize tail) := by
    refine List.append_cancel_right (hcs.trans ?_ : w ++ rest = _ ++ rest)
    rw [← hrest, List.cons_append, List.take_append_drop]
  refine ⟨by rw [hw, String.toList_ofList], ?_, hrest ▸ head?_drop_wordSize tail⟩
  rw [hw, isIdentifier, hstart, isWordTail_take_wordSize]
  rfl

/-- The text behind a word does not start with a name character. -/
def EndsName (p : Place) : Prop := ∀ c ∈ p.rest.head?, isNameChar c = false

theorem exists_of_readName {wanted : Wanted} {name : String}
    (h : readName wanted p = .ok (name, q)) :
    ∃ t a, lexFrom p = some ⟨some t, a, q⟩ ∧ t.name? = some name := by
  unfold readName at h
  split at h
  · cases h
  · next y hy =>
    split at h <;> cases h
    next hname =>
      refine ⟨y.token, y.start, ?_, hname⟩
      unfold peekWanted at hy
      split at hy <;> cases hy
      exact peek_eq_ok_some_iff.1 ‹_›

theorem endsName_of_readName {wanted : Wanted} {name : String}
    (h : readName wanted p = .ok (name, q)) : EndsName q := by
  obtain ⟨t, a, hlex, hname⟩ := exists_of_readName h
  obtain ⟨g, w, -, -, -, hlexes⟩ := exists_of_lexFrom hlex
  exact (lexes_name hlexes hname).2.2

theorem readName_front {wanted : Wanted} {name : String} (h : readName wanted p = .ok (name, q))
    (hover : p.Over u q) (hx : EndsWord x) :
    readName wanted (p.facing (u ++ x)) = .ok (name, q.facing x) := by
  obtain ⟨t, a, hlex, hname⟩ := exists_of_readName h
  obtain ⟨w, -, hfront⟩ := lexFrom_front (x := x) (s := wordToken name x.head?) hlex hover
    fun w hw => by
      obtain ⟨rfl, hword, -⟩ := lexes_name hw hname
      have hlexes := Lexes.word hword hx
      rwa [String.ofList_toList] at hlexes
  rw [readName, peekWanted, peek_eq_ok_some_iff.2 hfront]
  simp only [name?_wordToken]

/-! ### What comes behind a word -/

theorem endsWord_of_not_isSolid {c : Char} (h : isSolid c = false) :
    isNameChar c = false ∧ c ≠ '-' := by
  simp only [isSolid, isLexerBlank, Bool.and_eq_false_iff, Bool.not_eq_false', Bool.or_eq_true,
    beq_iff_eq, bne_eq_false_iff_eq] at h
  obtain (((rfl | rfl) | rfl) | rfl) | rfl := h <;> exact ⟨rfl, by decide⟩

theorem EndsWord.append {u y : List Char} (h : EndsWord (u ++ y)) (hu : u ≠ []) (x : List Char) :
    EndsWord (u ++ x) := by
  cases u with
  | nil => exact absurd rfl hu
  | cons c u => exact h

/-- A symbol that is one wherever it stands ends a word, also behind blanks and comments. -/
theorem endsWord_of_peek {s : Symbol} {a b : Place} (hs : isFirmSymbol s.char = true)
    (h : peek p = .ok (some ⟨.symbol s, a, b⟩)) : EndsWord p.rest := by
  obtain ⟨g, w, hg, hw, htrivia, hlexes⟩ := exists_of_lexFrom (peek_eq_ok_some_iff.1 h)
  rw [lexes_symbol hlexes] at hw
  rw [hg.rest, hw.rest]
  cases g with
  | nil =>
    rintro _ ⟨⟩
    cases s <;> first | exact ⟨rfl, by decide⟩ | cases hs
  | cons c g =>
    rintro _ ⟨⟩
    exact endsWord_of_not_isSolid htrivia.head

/-- A symbol does not stand next, and neither does a part that is no token. -/
def NextNot (s : Symbol) (p : Place) : Prop :=
  ∃ r, peek p = .ok r ∧ ∀ y, r = some y → y.token ≠ .symbol s

theorem nextNot_of_peek {s s' : Symbol} {a b : Place}
    (h : peek p = .ok (some ⟨.symbol s', a, b⟩)) (hne : s' ≠ s) : NextNot s p :=
  ⟨_, h, by
    rintro _ ⟨⟩ heq
    exact hne (Token.symbol.inj heq)⟩

/-! ### Tag names -/

/-- Points go on with a point, if they go on at all. -/
theorem readDotted_cases {s : String} (h : readDotted p = .ok (s, q)) :
    (q = p ∧ s = "") ∨ ∃ a b name r more,
      peek p = .ok (some ⟨.symbol .dot, a, b⟩) ∧ readName .tagName b = .ok (name, r) ∧
        readDotted r = .ok (more, q) ∧ s = "." ++ name ++ more := by
  rw [readDotted_eq] at h
  split at h
  · cases h
  · next a b hx =>
    split at h
    · cases h
    · next name r hn =>
      obtain ⟨⟨more, _⟩, hmore, heq⟩ := map_eq_ok_iff.1 h
      cases heq
      exact .inr ⟨a, b, name, r, more, hx, hn, hmore, rfl⟩
  · cases h
    exact .inl ⟨rfl, rfl⟩

theorem endsName_of_readDotted {s : String} (h : readDotted p = .ok (s, q)) (hp : EndsName p) :
    EndsName q := by
  fun_induction readDotted p generalizing s with
  | case1 => cases h
  | case2 => cases h
  | case3 p _ b hx name r hn ih =>
    obtain ⟨⟨more, _⟩, hmore, heq⟩ := map_eq_ok_iff.1 h
    cases heq
    exact ih hmore (endsName_of_readName hn)
  | case4 =>
    cases h
    exact hp

theorem readDotted_front {s : String} (h : readDotted p = .ok (s, q)) (hover : p.Over u q)
    (hx : EndsWord x) (hnext : NextNot .dot (q.facing x)) :
    readDotted (p.facing (u ++ x)) = .ok (s, q.facing x) ∧ EndsWord (u ++ x) := by
  induction hn : p.rest.length using Nat.strongRecOn generalizing p u s with
  | ind n ih =>
    subst hn
    obtain ⟨rfl, rfl⟩ | ⟨a, b, name, r, more, hpeek, hname, hmore, rfl⟩ := readDotted_cases h
    · obtain rfl : u = [] := hover.eq (.refl _)
      refine ⟨?_, hx⟩
      obtain ⟨o, ho, hdot⟩ := hnext
      rw [readDotted_eq, List.nil_append, ho]
      split
      · next heq => cases heq
      · next heq =>
        cases heq
        exact (hdot _ rfl rfl).elim
      · rfl
    · obtain ⟨u₁, hu₁⟩ := leads_of_peek hpeek
      obtain ⟨u₂, hu₂⟩ := leads_of_readName hname
      obtain ⟨u₃, hu₃⟩ : r.Leads q := (readDotted_ahead r).of_ok hmore
      obtain rfl : u = u₁ ++ (u₂ ++ u₃) := hover.eq_append hu₁ (hu₂.trans hu₃)
      have hb := length_peek hpeek
      have hr := length_readName hname
      obtain ⟨hrest, hends⟩ := ih _ (by simp only at hb; omega) hmore hu₃ rfl
      have hdot : peek (p.facing (u₁ ++ (u₂ ++ (u₃ ++ x)))) = _ :=
        peek_symbol_front rfl hpeek hu₁
      refine ⟨?_, ?_⟩
      · rw [readDotted_eq, List.append_assoc, List.append_assoc, hdot]
        dsimp only
        rw [readName_front hname hu₂ hends]
        dsimp only
        rw [hrest]
        rfl
      · have hword := endsWord_of_peek rfl hpeek
        rw [hover.rest] at hword
        have hne : u₁ ≠ [] := hu₁.ne_nil hb
        exact hword.append (by simp [hne]) x

theorem readTagName_front {tag : String} (h : readTagName p = .ok (tag, q)) (hover : p.Over u q)
    (hx : EndsWord x) (hnext : NextNot .dot (q.facing x)) :
    readTagName (p.facing (u ++ x)) = .ok (tag, q.facing x) := by
  unfold readTagName at h ⊢
  split at h
  · cases h
  · next name r hname =>
    obtain ⟨⟨more, _⟩, hmore, heq⟩ := map_eq_ok_iff.1 h
    cases heq
    obtain ⟨v, hv⟩ := leads_of_readName hname
    obtain ⟨w, hw⟩ : r.Leads q := (readDotted_ahead r).of_ok hmore
    obtain rfl : u = v ++ w := hover.eq_append hv hw
    obtain ⟨hrest, hends⟩ := readDotted_front hmore hw hx hnext
    rw [List.append_assoc, readName_front hname hv hends]
    dsimp only
    rw [hrest]
    rfl

theorem endsName_of_readTagName {tag : String} (h : readTagName p = .ok (tag, q)) :
    EndsName q := by
  unfold readTagName at h
  split at h
  · cases h
  · next name r hname =>
    obtain ⟨⟨more, _⟩, hmore, heq⟩ := map_eq_ok_iff.1 h
    cases heq
    exact endsName_of_readDotted hmore (endsName_of_readName hname)

end DesignSync.Markup

import DesignSync.Proofs.Markup.FrontTokens
import DesignSync.Proofs.Markup.IndentedTags

/-!
Readers of tag headers and of tags look no further than they go. An attribute without a value and
the name of a tag end where something stands that does not belong to them; with all others it makes
no difference what comes next.
-/

namespace DesignSync.Markup

open Text

variable {p q : Place} {u x : List Char}

/-! ### Values -/

/-- A part of a text behind its first character, which is told by how much of it is taken. -/
private theorem exists_cons_of_over {count : Nat} (hover : p.Over u (p.skip (count + 1)))
    (hlt : count < p.rest.length) : ∃ c v, u = c :: v ∧ v.length = count ∧
      p.rest = c :: (v ++ (p.skip (count + 1)).rest) := by
  have hu : u = p.rest.take (count + 1) := hover.eq (p.over_skip _)
  have hlength : u.length = count + 1 := hu ▸ List.length_take_of_le hlt
  cases u with
  | nil => cases hlength
  | cons c v => exact ⟨c, v, rfl, Nat.succ.inj hlength, hover.rest⟩

theorem readQuotedValue_front {quote : Char} {v : AttributeValue}
    (h : readQuotedValue quote p = .ok (v, q)) (hover : p.Over u q) :
    readQuotedValue quote (p.facing (u ++ x)) = .ok (v, q.facing x) := by
  unfold readQuotedValue at h
  dsimp only at h
  generalize hsize : runSize (· != quote) (p.rest.drop 1) = size at h
  split at h
  · cases h
  · next hclosed =>
    rw [List.isEmpty_iff, List.drop_eq_nil_iff, List.length_drop, Nat.not_le] at hclosed
    cases h
    obtain ⟨c, w, rfl, hw, hrest⟩ := exists_cons_of_over hover (by omega)
    rw [hrest, List.drop_succ_cons, List.drop_zero] at hsize
    have hin : runSize (· != quote) (w ++ (p.skip (size + 2)).rest) < w.length := by
      rw [hsize]
      omega
    have hsize' : runSize (· != quote) (w ++ x) = size := (runSize_front _ hin x).trans hsize
    have hbody : (p.facing (c :: w ++ x)).rest.drop 1 = w ++ x := rfl
    have hopen : ¬((w ++ x).drop size).isEmpty = true := by
      rw [List.isEmpty_iff, List.drop_eq_nil_iff, List.length_append]
      omega
    have hskip := hover.skip_facing x
    rw [List.length_cons, hw] at hskip
    have htake {y : List Char} : (w ++ y).take size = w.take size :=
      List.take_append_of_le_length (by omega)
    unfold readQuotedValue
    dsimp only
    rw [hbody, hsize', if_neg hopen, hskip, hrest, List.drop_succ_cons, List.drop_zero, htake,
      htake]

theorem readBraced_front {b : Braced} (h : readBraced p = .ok (b, q)) (hover : p.Over u q) :
    readBraced (p.facing (u ++ x)) = .ok (b, q.facing x) := by
  unfold readBraced at h
  split at h
  · cases h
  · next size hsize =>
    cases h
    have hle := (braceSize?_front 0).le_length hsize
    have hpos := List.length_pos_iff.2 (braceSize?_ne_nil hsize)
    rw [List.length_drop] at hle hpos
    obtain ⟨c, w, rfl, hw, hrest⟩ := exists_cons_of_over hover (by omega)
    rw [hrest, List.drop_succ_cons, List.drop_zero] at hsize
    have hin : braceSize? 0 (w ++ x) = some size := by
      simpa [hw] using (braceSize?_front 0).take_append hsize (Nat.le_refl _) x
    have hbody : (p.facing (c :: w ++ x)).rest.drop 1 = w ++ x := rfl
    have hskip := hover.skip_facing x
    rw [List.length_cons, hw] at hskip
    have htake {y : List Char} : (w ++ y).take (size - 1) = w.take (size - 1) :=
      List.take_append_of_le_length (by omega)
    unfold readBraced
    rw [hbody, hin]
    dsimp only
    rw [hskip, hrest, List.drop_succ_cons, List.drop_zero, htake, htake]
    rfl

/-- Behind what is passed over in front of a value there is nothing to pass over in front of a
token. -/
theorem triviaSize_afterGap (cs : List Char) : triviaSize (afterGap cs) = 0 := by
  unfold afterGap
  fun_induction gapSize cs with
  | case1 => rw [List.drop_nil, triviaSize]
  | case2 rest size ih =>
    rw [List.drop_drop] at ih
    rw [Nat.add_assoc, Nat.add_comm 2]
    exact ih
  | case3 rest size hsize ih =>
    rw [List.drop_drop] at ih
    rw [Nat.add_assoc, Nat.add_comm 2]
    exact ih
  | case4 rest =>
    rw [Nat.add_comm, List.drop_succ_cons, List.drop_succ_cons, List.drop_length, triviaSize]
  | case5 c rest _ _ hblank ih =>
    rw [Nat.add_comm]
    exact ih
  | case6 c rest hline hblock hblank =>
    have hkept : isLexerBlank c = false := by
      by_contra hc
      refine hblank ?_
      simp only [isLexerBlank, Bool.not_eq_false, Bool.or_eq_true, beq_iff_eq] at hc
      obtain ((rfl | rfl) | rfl) | rfl := hc <;> rfl
    rw [List.drop_zero, triviaSize]
    · rw [hkept]
      rfl
    · exact hline
    · exact hblock

theorem nextToken_skipGap (p : Place) : nextToken (skipGap p) = skipGap p := by
  have hsize : triviaSize (skipGap p).rest = 0 := triviaSize_afterGap p.rest
  rw [nextToken, hsize]
  exact (Place.Over.refl _).skip_eq

/-- A value is a text in quotes or a braced expression. -/
theorem readAttributeValue_cases {v : AttributeValue} (h : readAttributeValue p = .ok (v, q)) :
    (∃ quote cs, (quote = '"' ∨ quote = '\'') ∧ (skipGap p).rest = quote :: cs ∧
      readQuotedValue quote (skipGap p) = .ok (v, q)) ∨
    ∃ cs b, (skipGap p).rest = '\x7b' :: cs ∧ readBraced (skipGap p) = .ok (b, q) ∧
      v = .braced b := by
  unfold readAttributeValue at h
  dsimp only at h
  split at h
  · next cs hcs => exact .inl ⟨_, cs, .inl rfl, hcs, h⟩
  · next cs hcs => exact .inl ⟨_, cs, .inr rfl, hcs, h⟩
  split at h
  · cases h
  · next a b hx =>
    have hstands := (peekWanted_ahead _ _).of_ok hx
    have hstart : a = skipGap p := hstands.start.trans (nextToken_skipGap p)
    obtain ⟨⟨b, _⟩, hread, heq⟩ := map_eq_ok_iff.1 h
    cases heq
    have hbrace := (hstands.symbol .leftBrace rfl).rest
    dsimp only at hbrace
    rw [hstart] at hbrace hread
    exact .inr ⟨_, b, hbrace, hread, rfl⟩
  · cases h

theorem skipGap_front {c : Char} {w : List Char} (hblank : isBlank c = false) (hslash : c ≠ '/')
    (hover : p.Over u (skipGap p)) (hrest : (skipGap p).rest = c :: w) (y : List Char) :
    skipGap (p.facing (u ++ c :: y)) = (skipGap p).facing (c :: y) := by
  have hu : u.length = gapSize p.rest := by
    rw [hover.eq (p.over_skip _)]
    exact List.length_take_of_le (gapSize_le _)
  have hpassed : IsPassed u := isPassed_of_eq (s := c :: w) (List.cons_ne_nil _ _) (by
    rw [← hrest, ← hover.rest, hu])
  have hsolid : skipGap ((skipGap p).facing (c :: y)) = (skipGap p).facing (c :: y) :=
    skipGap_of_solid hblank hslash rfl
  have hskip := hover.skip_facing (c :: y)
  calc skipGap (p.facing (u ++ c :: y))
      = (p.facing (u ++ c :: y)).skip (u.length + gapSize (c :: y)) :=
        congrArg _ (hpassed (c :: y))
    _ = skipGap ((p.facing (u ++ c :: y)).skip u.length) := by
        rw [← Place.skip_skip, hskip]
        rfl
    _ = (skipGap p).facing (c :: y) := by rw [hskip, hsolid]

theorem readAttributeValue_front {v : AttributeValue} (h : readAttributeValue p = .ok (v, q))
    (hover : p.Over u q) :
    readAttributeValue (p.facing (u ++ x)) = .ok (v, q.facing x) := by
  obtain ⟨g, hg⟩ := leads_skipGap p
  -- what is read behind the gap starts with its first character
  have hcut {c : Char} {cs : List Char} (hcs : (skipGap p).rest = c :: cs)
      (hlt : q.rest.length < (skipGap p).rest.length) (hleads : (skipGap p).Leads q) :
      ∃ w, (skipGap p).Over (c :: w) q ∧ u = g ++ c :: w := by
    obtain ⟨w, hw⟩ := hleads
    have hne := hw.ne_nil hlt
    cases w with
    | nil => exact absurd rfl hne
    | cons d w =>
      obtain ⟨rfl, -⟩ := List.cons.inj (hcs.symm.trans hw.rest)
      exact ⟨w, hw, hover.eq_append hg hw⟩
  obtain ⟨quote, cs, hquote, hcs, hread⟩ | ⟨cs, b, hcs, hread, rfl⟩ := readAttributeValue_cases h
  · obtain ⟨w, hw, rfl⟩ := hcut hcs (length_readQuotedValue hread)
      ((readQuotedValue_ahead _ _).of_ok hread)
    have hblank : isBlank quote = false := by obtain rfl | rfl := hquote <;> decide
    have hslash : quote ≠ '/' := by obtain rfl | rfl := hquote <;> decide
    have hgap := skipGap_front hblank hslash hg hcs (w ++ x)
    have hvalue := readQuotedValue_front (x := x) hread hw
    rw [List.append_assoc, List.cons_append, readAttributeValue_eq, hgap]
    obtain rfl | rfl := hquote
    · exact (if_pos rfl).trans hvalue
    · exact (if_neg (by simp [Place.facing])).trans ((if_pos rfl).trans hvalue)
  · have hne : (skipGap p).rest ≠ [] := by rw [hcs]; exact List.cons_ne_nil _ _
    obtain ⟨w, hw, rfl⟩ := hcut hcs (length_readBraced hne hread)
      ((readBraced_ahead _).of_ok hread)
    have hgap := skipGap_front (by decide) (by decide) hg hcs (w ++ x)
    have hvalue := readBraced_front (x := x) hread hw
    have hpeek : peek ((skipGap p).facing ('\x7b' :: (w ++ x))) =
        .ok (some ⟨.symbol .leftBrace, _, _⟩) :=
      peek_eq_ok_some_iff.2 (lexFrom_of_trivia (w := ['\x7b']) rfl isTrivia_nil
        (Lexes.symbol (s := .leftBrace) rfl (w ++ x)))
    rw [List.append_assoc, List.cons_append, readAttributeValue_eq, hgap,
      if_neg (by simp [Place.facing]), if_neg (by simp [Place.facing]), peekWanted, hpeek]
    dsimp only
    have hstart : ((skipGap p).facing ('\x7b' :: (w ++ x))).skip ([] : List Char).length =
        (skipGap p).facing ('\x7b' :: w ++ x) := (Place.Over.refl _).skip_eq
    rw [hstart, hvalue]
    rfl

/-! ### Attributes -/

/-- What stands behind the name of a tag or of an attribute without belonging to it. -/
structure Detached (p : Place) : Prop where
  word : EndsWord p.rest
  dot : NextNot .dot p
  colon : NextNot .colon p
  equals : NextNot .equals p

/-- A token that an attribute or the end of a tag header starts with. -/
def IsPart (t : Token) : Prop :=
  t = .symbol .slash ∨ t = .symbol .rightAngle ∨ t.name?.isSome = true

theorem IsPart.ne_symbol {t : Token} (h : IsPart t) {s : Symbol} (hslash : s ≠ .slash)
    (hangle : s ≠ .rightAngle) : t ≠ .symbol s := by
  rintro rfl
  obtain heq | heq | hname := h
  · exact hslash (Token.symbol.inj heq)
  · exact hangle (Token.symbol.inj heq)
  · cases hname

theorem detached_of_peek {y : Lexed Token} (h : peek p = .ok (some y)) (hpart : IsPart y.token)
    (hword : EndsWord p.rest) : Detached p := by
  have hnot {s : Symbol} (hslash : s ≠ .slash) (hangle : s ≠ .rightAngle) : NextNot s p :=
    ⟨_, h, fun z hz => Option.some.inj hz ▸ hpart.ne_symbol hslash hangle⟩
  exact ⟨hword, hnot nofun nofun, hnot nofun nofun, hnot nofun nofun⟩

/-- Behind a name an attribute or the end of a header starts with something else than a dash. -/
theorem EndsName.endsWord {y : Lexed Token} (h : EndsName p) (hpeek : peek p = .ok (some y))
    (hpart : IsPart y.token) : EndsWord p.rest := by
  intro c hc
  refine ⟨h c hc, ?_⟩
  rintro rfl
  obtain ⟨t, a, b⟩ := y
  obtain ⟨g, w, hg, hw, htrivia, hlexes⟩ := exists_of_lexFrom (peek_eq_ok_some_iff.1 hpeek)
  rw [hg.rest] at hc
  cases g with
  | cons d g =>
    obtain rfl := Option.some.inj hc
    exact absurd htrivia.head (by decide)
  | nil =>
    rw [List.nil_append, hw.rest] at hc
    obtain rfl | rfl | hname := hpart
    · obtain ⟨d, tail, size, hcs, -, hlexeme, -⟩ := hlexes
      obtain ⟨rfl, -⟩ := symbol_of_lexeme hlexeme
      rw [hcs] at hc
      cases hc
    · rw [lexes_symbol hlexes] at hc
      cases hc
    · obtain ⟨name, hname⟩ := Option.isSome_iff_exists.1 hname
      obtain ⟨-, hidentifier, -⟩ := lexes_name hlexes hname
      cases w with
      | nil => cases hidentifier
      | cons d w =>
        obtain rfl := Option.some.inj hc
        cases hidentifier

theorem readAttributeName_front {name : String} (h : readAttributeName p = .ok (name, q))
    (hover : p.Over u q) (hx : EndsWord x) (hnext : NextNot .colon (q.facing x)) :
    readAttributeName (p.facing (u ++ x)) = .ok (name, q.facing x) := by
  unfold readAttributeName at h ⊢
  split at h
  · cases h
  · next first r hname =>
    split at h
    · cases h
    · next a b hpeek =>
      obtain ⟨⟨more, _⟩, hmore, heq⟩ := map_eq_ok_iff.1 h
      cases heq
      obtain ⟨v, hv⟩ := leads_of_readName hname
      obtain ⟨w₁, hw₁⟩ := leads_of_peek hpeek
      obtain ⟨w₂, hw₂⟩ := leads_of_readName hmore
      obtain rfl : u = v ++ (w₁ ++ w₂) := hover.eq_append hv (hw₁.trans hw₂)
      have hword := endsWord_of_peek rfl hpeek
      rw [hw₁.rest] at hword
      have hends : EndsWord (w₁ ++ (w₂ ++ x)) :=
        hword.append (hw₁.ne_nil (length_peek hpeek)) _
      rw [List.append_assoc, List.append_assoc, readName_front hname hv hends]
      dsimp only
      rw [peek_symbol_front rfl hpeek hw₁]
      dsimp only
      rw [readName_front hmore hw₂ hx]
      rfl
    · next o hcolon hpeek =>
      cases h
      rw [readName_front hname hover hx]
      dsimp only
      obtain ⟨o', ho', hnot⟩ := hnext
      rw [ho']
      split
      · next heq => cases heq
      · next heq =>
        cases heq
        exact (hnot _ rfl rfl).elim
      · rfl

theorem readAttribute_front {start : Place} {a : Attribute}
    (h : readAttribute start p = .ok (a, q)) (hover : p.Over u q)
    (hend : a.value = .implicit → Detached (q.facing x)) (y : List Char) :
    readAttribute (start.facing y) (p.facing (u ++ x)) = .ok (a, q.facing x) := by
  unfold readAttribute at h ⊢
  split at h
  · cases h
  · next name r hname =>
    split at h
    · cases h
    · next b c hpeek =>
      obtain ⟨⟨v, _⟩, hvalue, heq⟩ := map_eq_ok_iff.1 h
      cases heq
      obtain ⟨w, hw⟩ := leads_of_readAttributeName hname
      obtain ⟨w₁, hw₁⟩ := leads_of_peek hpeek
      obtain ⟨w₂, hw₂⟩ : c.Leads q := (readAttributeValue_ahead c).of_ok hvalue
      obtain rfl : u = w ++ (w₁ ++ w₂) := hover.eq_append hw (hw₁.trans hw₂)
      have hword := endsWord_of_peek rfl hpeek
      rw [hw₁.rest] at hword
      have hends : EndsWord (w₁ ++ (w₂ ++ x)) :=
        hword.append (hw₁.ne_nil (length_peek hpeek)) _
      have hequals : peek (r.facing (w₁ ++ (w₂ ++ x))) = _ := peek_symbol_front rfl hpeek hw₁
      rw [List.append_assoc, List.append_assoc,
        readAttributeName_front hname hw hends (nextNot_of_peek hequals (by decide))]
      dsimp only
      rw [hequals]
      dsimp only
      rw [readAttributeValue_front hvalue hw₂]
      rfl
    · next o hequals hpeek =>
      cases h
      obtain ⟨hends, -, hcolon, o', ho', hnot⟩ := hend rfl
      rw [readAttributeName_front (x := x) hname hover hends hcolon]
      dsimp only
      rw [ho']
      split
      · next heq => cases heq
      · next heq =>
        cases heq
        exact (hnot _ rfl rfl).elim
      · rfl

/-! ### Headers -/

theorem expect_eq_ok_iff {s : Symbol} :
    expect s p = .ok q ↔ ∃ a, peek p = .ok (some ⟨.symbol s, a, q⟩) := by
  unfold expect
  constructor
  · intro h
    split at h
    · cases h
    · next y hy =>
      split at h <;> cases h
      next htoken =>
        obtain ⟨t, a, b⟩ := y
        cases htoken
        exact ⟨a, peekWanted_eq_ok_iff.1 hy⟩
  · rintro ⟨a, h⟩
    rw [peekWanted_eq_ok_iff.2 h]
    exact if_pos rfl

/-- The next part of a header: its end, or an attribute with others behind it. -/
theorem readAttributes_cases {e : HeaderEnd} (h : readAttributes p = .ok (e, q)) :
    (∃ a b, peek p = .ok (some ⟨.symbol .slash, a, b⟩) ∧ expect .rightAngle b = .ok q ∧
      e = ⟨[], true⟩) ∨
    (∃ a, peek p = .ok (some ⟨.symbol .rightAngle, a, q⟩) ∧ e = ⟨[], false⟩) ∨
    ∃ y a r e', peek p = .ok (some y) ∧ y.token.name?.isSome = true ∧
      readAttribute y.start p = .ok (a, r) ∧ readAttributes r = .ok (e', q) ∧
      e = { e' with attributes := a :: e'.attributes } := by
  rw [readAttributes_eq] at h
  split at h
  · cases h
  · next y hy =>
    obtain ⟨t, a, b⟩ := y
    have hpeek := peekWanted_eq_ok_iff.1 hy
    split at h
    · next ht =>
      cases ht
      obtain ⟨r, hr, heq⟩ := map_eq_ok_iff.1 h
      cases heq
      exact .inl ⟨a, b, hpeek, hr, rfl⟩
    · next ht =>
      cases ht
      cases h
      exact .inr (.inl ⟨a, hpeek, rfl⟩)
    · cases h
    · split at h
      · next hname =>
        split at h
        · cases h
        · next c r ha =>
          obtain ⟨⟨e', _⟩, he', heq⟩ := map_eq_ok_iff.1 h
          cases heq
          exact .inr (.inr ⟨_, c, r, e', hpeek, hname, ha, he', rfl⟩)
      · cases h

theorem exists_of_readAttributes {e : HeaderEnd} (h : readAttributes p = .ok (e, q)) :
    ∃ y, peek p = .ok (some y) ∧ IsPart y.token := by
  obtain ⟨a, b, hpeek, -, -⟩ | ⟨a, hpeek, -⟩ | ⟨y, _, _, _, hpeek, hname, -, -, -⟩ :=
    readAttributes_cases h
  · exact ⟨_, hpeek, .inl rfl⟩
  · exact ⟨_, hpeek, .inr (.inl rfl)⟩
  · exact ⟨y, hpeek, .inr (.inr hname)⟩

theorem not_comment_of_lexes {rest : List Char} (h : Lexes ('/' :: rest) (.symbol .slash) rest) :
    rest.head? ≠ some '*' ∧ rest.head? ≠ some '/' := by
  obtain ⟨c, tail, size, hcs, htrivia, hlexeme, -⟩ := h
  obtain ⟨rfl, rfl⟩ := List.cons.inj hcs
  refine ⟨fun hstar => ?_, fun hslash => ?_⟩
  · have hname : isNameStart '/' = false := by decide
    have hdigit : Numeral.isDigit '/' = false := by decide
    simp [lexeme, hname, hdigit, hstar] at hlexeme
  · obtain ⟨cs, rfl⟩ := List.head?_eq_some_iff.1 hslash
    rw [triviaSize_line] at htrivia
    omega

theorem peek_slash_front {a b : Place} (h : peek p = .ok (some ⟨.symbol .slash, a, b⟩))
    (hover : p.Over u b) (hx : x.head? = b.rest.head?) :
    ∃ c, peek (p.facing (u ++ x)) = .ok (some ⟨.symbol .slash, c, b.facing x⟩) := by
  obtain ⟨w, -, hlex⟩ := lexFrom_front (x := x) (s := .symbol .slash)
    (peek_eq_ok_some_iff.1 h) hover fun w hw => by
      obtain rfl := lexes_symbol hw
      have hlexes : Lexes ('/' :: b.rest) (.symbol .slash) b.rest := hw
      obtain ⟨hstar, hslash⟩ := not_comment_of_lexes hlexes
      exact .slash (hx ▸ hstar) (hx ▸ hslash)
  exact ⟨_, peek_eq_ok_some_iff.2 hlex⟩

theorem expect_front {s : Symbol} (hs : isFirmSymbol s.char = true) (h : expect s p = .ok q)
    (hover : p.Over u q) : expect s (p.facing (u ++ x)) = .ok (q.facing x) := by
  obtain ⟨a, hpeek⟩ := expect_eq_ok_iff.1 h
  exact expect_eq_ok_iff.2 ⟨_, peek_symbol_front hs hpeek hover⟩

theorem lexFrom_nextToken (p : Place) : lexFrom (nextToken p) = lexFrom p := by
  have hzero : triviaSize (nextToken p).rest = 0 := triviaSize_afterTrivia p.rest
  have hsame : (nextToken p).skip (triviaSize (nextToken p).rest) = p.skip (triviaSize p.rest) := by
    rw [hzero]
    exact (Place.Over.refl _).skip_eq
  unfold lexFrom
  dsimp only
  rw [hsame]

/-- Attributes are read by their tokens. -/
theorem readAttribute_congr (h : lexFrom p = lexFrom q) (start : Place) :
    readAttribute start p = readAttribute start q := by
  simp only [readAttribute, readAttributeName, readName, peekWanted, peek, h]

theorem readAttributes_congr (h : lexFrom p = lexFrom q) : readAttributes p = readAttributes q := by
  rw [readAttributes_eq, readAttributes_eq, peekWanted, peekWanted, peek, peek, h]
  simp only [readAttribute_congr h]

/-- The attribute that stands next starts in the same place in front of another text. -/
theorem start_front {t : Token} {a b : Place} {c : Attribute}
    (hpeek : peek p = .ok (some ⟨t, a, b⟩)) (hname : t.name?.isSome = true)
    (h : readAttribute a p = .ok (c, q)) (hover : p.Over u q) (x : List Char) :
    ∃ y, nextToken (p.facing (u ++ x)) = a.facing y := by
  obtain ⟨name, hname⟩ := Option.isSome_iff_exists.1 hname
  obtain ⟨g, w, hg, hw, htrivia, hlexes⟩ := exists_of_lexFrom (peek_eq_ok_some_iff.1 hpeek)
  obtain rfl : a = nextToken p := start_of_peek hpeek
  obtain ⟨v, hv⟩ := (readAttribute_ahead _ p).of_ok h
  have hne : v ≠ [] :=
    hv.ne_nil (length_readAttribute (readAttribute_congr (lexFrom_nextToken p) _ ▸ h))
  obtain rfl : u = g ++ v := hover.eq_append hg hv
  obtain ⟨-, hidentifier, -⟩ := lexes_name hlexes hname
  cases v with
  | nil => exact absurd rfl hne
  | cons d v =>
    have hsolid : isSolid d = true := by
      cases w with
      | nil => cases hidentifier
      | cons e w =>
        obtain ⟨rfl, -⟩ := List.cons.inj (hv.rest.symm.trans hw.rest)
        simp only [isIdentifier, Bool.and_eq_true] at hidentifier
        exact isSolid_of_start hidentifier.1
    refine ⟨d :: (v ++ x), ?_⟩
    have hsize : triviaSize (p.facing (g ++ d :: v ++ x)).rest = g.length := by
      have hsplit : (p.facing (g ++ d :: v ++ x)).rest = g ++ d :: (v ++ x) := by
        simp [Place.facing]
      rw [hsplit, htrivia, triviaSize_solid hsolid, Nat.add_zero]
    rw [nextToken, hsize, List.append_assoc, hg.skip_facing]
    rfl

theorem endsName_of_readAttribute {start : Place} {a : Attribute}
    (h : readAttribute start p = .ok (a, q)) (ha : a.value = .implicit) : EndsName q := by
  unfold readAttribute readAttributeName at h
  split at h
  · cases h
  · next name r hname =>
    have hends : EndsName r := by
      split at hname
      · cases hname
      · next first b hfirst =>
        split at hname
        · cases hname
        · next c hpeek =>
          obtain ⟨⟨more, _⟩, hmore, heq⟩ := map_eq_ok_iff.1 hname
          cases heq
          exact endsName_of_readName hmore
        · cases hname
          exact endsName_of_readName hfirst
    split at h
    · cases h
    · next b hpeek =>
      obtain ⟨⟨v, _⟩, hvalue, heq⟩ := map_eq_ok_iff.1 h
      cases heq
      obtain ⟨_, _, _, _, hquoted⟩ | ⟨_, _, _, _, rfl⟩ := readAttributeValue_cases hvalue
      · unfold readQuotedValue at hquoted
        dsimp only at hquoted
        split at hquoted <;> cases hquoted
        cases ha
      · cases ha
    · cases h
      exact hends

theorem exists_of_readAttribute {start : Place} {a : Attribute}
    (h : readAttribute start p = .ok (a, q)) :
    ∃ t b, peek p = .ok (some ⟨t, nextToken p, b⟩) ∧ t.name?.isSome = true := by
  unfold readAttribute readAttributeName at h
  split at h
  · cases h
  · next name r hname =>
    split at hname
    · cases hname
    · next first b hfirst =>
      obtain ⟨t, c, hlex, ht⟩ := exists_of_readName hfirst
      have hpeek := peek_eq_ok_some_iff.2 hlex
      have hstart : c = nextToken p := start_of_peek hpeek
      exact ⟨t, b, hstart ▸ hpeek, by rw [ht]; rfl⟩

/-- What stands apart from a name does so in front of another text, if a part starts there. -/
theorem detached_front {y y' : Lexed Token} (hp : EndsName p) (hpeek : peek p = .ok (some y))
    (hpart : IsPart y.token) (hover : p.Over u q) (hlt : q.rest.length < p.rest.length)
    (hpeek' : peek (p.facing (u ++ x)) = .ok (some y')) (hpart' : IsPart y'.token) :
    Detached (p.facing (u ++ x)) := by
  have hword := hp.endsWord hpeek hpart
  rw [hover.rest] at hword
  exact detached_of_peek hpeek' hpart' (hword.append (hover.ne_nil hlt) x)

theorem detached_of_readAttributes {e e' : HeaderEnd} {r : Place} (hp : EndsName p)
    (h : readAttributes p = .ok (e, q)) (hover : p.Over u q)
    (hfront : readAttributes (p.facing (u ++ x)) = .ok (e', r)) :
    Detached (p.facing (u ++ x)) := by
  obtain ⟨y, hpeek, hpart⟩ := exists_of_readAttributes h
  obtain ⟨y', hpeek', hpart'⟩ := exists_of_readAttributes hfront
  exact detached_front hp hpeek hpart hover (length_readAttributes h) hpeek' hpart'

theorem readAttributes_front {e : HeaderEnd} (h : readAttributes p = .ok (e, q))
    (hover : p.Over u q) : readAttributes (p.facing (u ++ x)) = .ok (e, q.facing x) := by
  induction hn : p.rest.length using Nat.strongRecOn generalizing p u e with
  | ind n ih =>
    subst hn
    obtain ⟨a, b, hpeek, hangle, rfl⟩ | ⟨a, hpeek, rfl⟩ |
      ⟨⟨t, a, b⟩, c, r, e', hpeek, hname, ha, he', rfl⟩ := readAttributes_cases h
    · obtain ⟨v, hv⟩ := leads_of_peek hpeek
      obtain ⟨w, hw⟩ := leads_of_expect hangle
      obtain rfl : u = v ++ w := hover.eq_append hv hw
      have hhead : (w ++ x).head? = b.rest.head? := by
        rw [hw.rest, List.head?_append_of_ne_nil _ (hw.ne_nil (length_expect hangle)),
          List.head?_append_of_ne_nil _ (hw.ne_nil (length_expect hangle))]
      obtain ⟨c, hslash⟩ := peek_slash_front hpeek hv hhead
      rw [readAttributes_eq, List.append_assoc, peekWanted_eq_ok_iff.2 hslash]
      dsimp only
      rw [expect_front rfl hangle hw]
      rfl
    · rw [readAttributes_eq, peekWanted_eq_ok_iff.2 (peek_symbol_front rfl hpeek hover)]
    · dsimp only at ha hname
      have hstart : a = nextToken p := start_of_peek hpeek
      obtain ⟨v, hv⟩ := leads_of_readAttribute ha
      obtain ⟨w, hw⟩ := (readAttributes_ahead r).of_ok he'
      obtain rfl : u = v ++ w := hover.eq_append hv hw
      have hrest := ih _ (length_readAttribute ha) he' hw rfl
      have hend (himplicit : c.value = .implicit) : Detached (r.facing (w ++ x)) :=
        detached_of_readAttributes (endsName_of_readAttribute ha himplicit) he' hw hrest
      obtain ⟨y, hy⟩ := start_front hpeek hname ha hv (w ++ x)
      have hattribute := readAttribute_front ha hv hend y
      obtain ⟨t', b', hpeek', hname'⟩ := exists_of_readAttribute hattribute
      rw [hy] at hpeek'
      rw [List.append_assoc, readAttributes_cons (peekWanted_eq_ok_iff.2 hpeek') hname' hattribute,
        hrest]
      rfl

theorem readHeader_front {tag : String} {e : HeaderEnd} (h : readHeader p = .ok ((tag, e), q))
    (hover : p.Over u q) : readHeader (p.facing (u ++ x)) = .ok ((tag, e), q.facing x) := by
  unfold readHeader at h ⊢
  split at h
  · cases h
  · next name r htag =>
    obtain ⟨⟨_, _⟩, he, heq⟩ := map_eq_ok_iff.1 h
    cases heq
    obtain ⟨v, hv⟩ := leads_of_readTagName htag
    obtain ⟨w, hw⟩ := (readAttributes_ahead r).of_ok he
    obtain rfl : u = v ++ w := hover.eq_append hv hw
    have hrest := readAttributes_front (x := x) he hw
    obtain ⟨hends, hdot, -, -⟩ :=
      detached_of_readAttributes (endsName_of_readTagName htag) he hw hrest
    rw [List.append_assoc, readTagName_front (x := w ++ x) htag hv hends hdot]
    dsimp only
    rw [hrest]
    rfl

theorem readClosing_front {start : Place} {tag : String} (h : readClosing start tag p = .ok q)
    (hover : p.Over u q) (start' : Place) :
    readClosing start' tag (p.facing (u ++ x)) = .ok (q.facing x) := by
  unfold readClosing at h ⊢
  split at h
  · cases h
  · next closed r htag =>
    split at h
    · cases h
    · next s hangle =>
      split at h <;> cases h
      next hclosed =>
        obtain ⟨v, hv⟩ := leads_of_readTagName htag
        obtain ⟨w, hw⟩ := leads_of_expect hangle
        obtain rfl : u = v ++ w := hover.eq_append hv hw
        have hexpect := expect_front (x := x) rfl hangle hw
        obtain ⟨a, hpeek⟩ := expect_eq_ok_iff.1 hexpect
        have hends : EndsWord (w ++ x) := endsWord_of_peek rfl hpeek
        rw [List.append_assoc, readTagName_front htag hv hends (nextNot_of_peek hpeek (by decide))]
        dsimp only
        rw [hexpect]
        dsimp only
        rw [if_pos hclosed]

end DesignSync.Markup

import DesignSync.Proofs.Markup.FrontTags

/-!
Tags as they are written. A tag is its name, its attributes and its end, with blanks and comments
between them and nothing else, so that there is one place only where it can end.
-/

namespace DesignSync.Text.Place

variable {p q r : Place} {u : List Char}

theorem Over.stop_eq (h : p.Over u q) (h' : p.Over u r) : q = r := h.skip_eq.symm.trans h'.skip_eq

/-- Of the places further on no two have the same offset. -/
theorem Leads.eq_of_offset (h : p.Leads q) (h' : p.Leads r) (hoffset : q.offset = r.offset) :
    q = r := by
  obtain ⟨u, hu⟩ := h
  obtain ⟨v, hv⟩ := h'
  have hwidth : width u = width v := by
    have := hu.offset
    have := hv.offset
    omega
  have hsame : u = v := by
    rw [← takeBytes_width u q.rest, ← takeBytes_width v r.rest, ← hu.rest, ← hv.rest, hwidth]
  exact hu.stop_eq (hsame ▸ hv)

end DesignSync.Text.Place

namespace DesignSync.Markup

open Text

variable {p q r : Place}

/-! ### What stands next -/

/-- Blanks and comments on the way. -/
def TriviaTo (p q : Place) : Prop := ∃ g, Trivia g ∧ p.Over g q

/-- A word from a place on. -/
structure WordTo (p : Place) (word : String) (q : Place) : Prop where
  identifier : isIdentifier word.toList = true
  text : p.Over word.toList q

/-- A word that stands next, behind blanks and comments. -/
def NextWord (p : Place) (word : String) (q : Place) : Prop := ∃ r, TriviaTo p r ∧ WordTo r word q

/-- A symbol that stands next, behind blanks and comments. -/
def NextSymbol (p : Place) (s : Symbol) (q : Place) : Prop := ∃ r, TriviaTo p r ∧ r.Over [s.char] q

theorem TriviaTo.leads (h : TriviaTo p q) : p.Leads q := h.elim fun _ hg => hg.2.leads

/-- Blanks and comments end where something else starts. -/
theorem TriviaTo.eq_nextToken {c : Char} {cs : List Char} (h : TriviaTo p q)
    (hrest : q.rest = c :: cs) (hc : isSolid c = true) : q = nextToken p := by
  obtain ⟨g, hg, hover⟩ := h
  rw [nextToken, hover.rest, hrest, hg.isTrivia, triviaSize_solid hc, Nat.add_zero]
  exact hover.skip_eq.symm

theorem WordTo.solid {word : String} (h : WordTo p word q) :
    ∃ c cs, p.rest = c :: cs ∧ isSolid c = true := by
  obtain ⟨hword, hover⟩ := h
  cases hcs : word.toList with
  | nil =>
    rw [hcs] at hword
    cases hword
  | cons c cs =>
    rw [hcs, isIdentifier, Bool.and_eq_true] at hword
    rw [hcs] at hover
    exact ⟨c, cs ++ q.rest, hover.rest, isSolid_of_start hword.1⟩

theorem NextWord.stop_eq {word : String} (h : NextWord p word q) (h' : NextWord p word r) :
    q = r := by
  obtain ⟨a, ha, hq⟩ := h
  obtain ⟨b, hb, hr⟩ := h'
  obtain ⟨_, _, hrest, hc⟩ := hq.solid
  obtain rfl := ha.eq_nextToken hrest hc
  obtain ⟨_, _, hrest, hc⟩ := hr.solid
  obtain rfl := hb.eq_nextToken hrest hc
  exact hq.text.stop_eq hr.text

theorem NextSymbol.stop_eq {s : Symbol} (hs : isSolid s.char = true) (h : NextSymbol p s q)
    (h' : NextSymbol p s r) : q = r := by
  obtain ⟨a, ha, hq⟩ := h
  obtain ⟨b, hb, hr⟩ := h'
  obtain rfl := ha.eq_nextToken hq.rest hs
  obtain rfl := hb.eq_nextToken hr.rest hs
  exact hq.stop_eq hr

/-! ### Names and values -/

/-- The parts of a tag's name behind the first one, each behind a point. -/
inductive DottedAt : Place → String → Place → Prop
  | nil (p : Place) : DottedAt p "" p
  | cons {p q r s : Place} {name more : String} (hdot : NextSymbol p .dot q)
      (hname : NextWord q name r) (hmore : DottedAt r more s) : DottedAt p ("." ++ name ++ more) s

/-- The name of a tag. -/
inductive TagNameAt (p : Place) : String → Place → Prop
  | intro {q r : Place} {name more : String} (hname : NextWord p name q)
      (hmore : DottedAt q more r) : TagNameAt p (name ++ more) r

/-- The name of an attribute, from its first character on. -/
inductive AttributeNameAt (p : Place) : String → Place → Prop
  | plain {q : Place} {name : String} (h : WordTo p name q) : AttributeNameAt p name q
  | colon {q r s : Place} {name more : String} (h : WordTo p name q) (hcolon : NextSymbol q .colon r)
      (hmore : NextWord r more s) : AttributeNameAt p (name ++ ":" ++ more) s

/-- The value of an attribute. A text goes up to the next quote of the kind that it starts with. -/
inductive ValueAt (p : Place) : AttributeValue → Place → Prop
  | text {q : Place} {quote : Char} {body : List Char} (hquote : quote = '"' ∨ quote = '\'')
      (hbody : quote ∉ body) (h : p.Over (quote :: body ++ [quote]) q) :
      ValueAt p (.text (String.ofList (decodeEntities body))) q
  | braced {q : Place} {b : Braced} (h : b.At p q) : ValueAt p (.braced b) q

/-- A name with its value, if it has one. -/
inductive NamedAt (p : Place) (name : String) : AttributeValue → Place → Prop
  | implicit {q : Place} (hname : AttributeNameAt p name q) : NamedAt p name .implicit q
  | valued {q r s t : Place} {g : List Char} {v : AttributeValue} (hname : AttributeNameAt p name q)
      (hequals : NextSymbol q .equals r) (hpassed : IsPassed g) (hgap : r.Over g s)
      (hvalue : ValueAt s v t) : NamedAt p name v t

/-- An attribute, from its first character to its last. -/
structure Attribute.At (p : Place) (a : Attribute) (q : Place) : Prop where
  named : NamedAt p a.name a.value q
  span : a.span = p.spanTo q

/-! ### Tags -/

/-- Attributes one behind the other. -/
inductive AttributesAt : Place → List Attribute → Place → Prop
  | nil (p : Place) : AttributesAt p [] p
  | cons {p q r s : Place} {a : Attribute} {as : List Attribute} (hgap : TriviaTo p q)
      (ha : a.At q r) (has : AttributesAt r as s) : AttributesAt p (a :: as) s

/-- The end of a tag, with a slash if its element closes itself. -/
def TagEndAt (p : Place) : Bool → Place → Prop
  | true, q => ∃ r, NextSymbol p .slash r ∧ NextSymbol r .rightAngle q
  | false, q => NextSymbol p .rightAngle q

/-- A tag behind its first angle. -/
def HeaderAt (p : Place) (tag : String) (e : HeaderEnd) (q : Place) : Prop :=
  ∃ r s, TagNameAt p tag r ∧ AttributesAt r e.attributes s ∧ TagEndAt s e.selfClosing q

/-- An opening tag, or the one tag of an element that closes itself. -/
def TagAt (p : Place) (tag : String) (e : HeaderEnd) (q : Place) : Prop :=
  ∃ r, p.Over ['<'] r ∧ HeaderAt r tag e q

/-- A closing tag. -/
def ClosingAt (p : Place) (tag : String) (q : Place) : Prop :=
  ∃ r s, p.Over ['<', '/'] r ∧ TagNameAt r tag s ∧ NextSymbol s .rightAngle q

/-! ### On the way -/

theorem NextWord.leads {word : String} (h : NextWord p word q) : p.Leads q := by
  obtain ⟨r, hgap, hword⟩ := h
  exact hgap.leads.trans hword.text.leads

theorem NextSymbol.leads {s : Symbol} (h : NextSymbol p s q) : p.Leads q := by
  obtain ⟨r, hgap, hover⟩ := h
  exact hgap.leads.trans hover.leads

theorem DottedAt.leads {s : String} (h : DottedAt p s q) : p.Leads q := by
  induction h with
  | nil p => exact .refl p
  | cons hdot hname _ ih => exact hdot.leads.trans (hname.leads.trans ih)

theorem TagNameAt.leads {tag : String} (h : TagNameAt p tag q) : p.Leads q := by
  obtain ⟨hname, hmore⟩ := h
  exact hname.leads.trans hmore.leads

theorem AttributeNameAt.leads {name : String} (h : AttributeNameAt p name q) : p.Leads q := by
  cases h with
  | plain h => exact h.text.leads
  | colon h hcolon hmore => exact h.text.leads.trans (hcolon.leads.trans hmore.leads)

theorem ValueAt.leads {v : AttributeValue} (h : ValueAt p v q) : p.Leads q := by
  cases h with
  | text _ _ h => exact h.leads
  | braced h => exact h.text.leads

theorem NamedAt.leads {name : String} {v : AttributeValue} (h : NamedAt p name v q) : p.Leads q := by
  cases h with
  | implicit hname => exact hname.leads
  | valued hname hequals _ hgap hvalue =>
    exact hname.leads.trans (hequals.leads.trans (hgap.leads.trans hvalue.leads))

theorem AttributesAt.leads {as : List Attribute} (h : AttributesAt p as q) : p.Leads q := by
  induction h with
  | nil p => exact .refl p
  | cons hgap ha _ ih => exact hgap.leads.trans (ha.named.leads.trans ih)

/-- Every tag ends with an angle. -/
theorem TagEndAt.angle {selfClosing : Bool} (h : TagEndAt p selfClosing q) :
    ∃ r, p.Leads r ∧ r.Over ['>'] q := by
  cases selfClosing with
  | true =>
    obtain ⟨r, hslash, a, hgap, hangle⟩ := h
    exact ⟨a, hslash.leads.trans hgap.leads, hangle⟩
  | false =>
    obtain ⟨a, hgap, hangle⟩ := h
    exact ⟨a, hgap.leads, hangle⟩

theorem TagAt.text {tag : String} {e : HeaderEnd} (h : TagAt p tag e q) :
    ∃ inside, p.Over ('<' :: inside ++ ['>']) q := by
  obtain ⟨a, hopen, b, c, htag, has, hend⟩ := h
  obtain ⟨d, hd, hangle⟩ := hend.angle
  obtain ⟨inside, hinside⟩ := htag.leads.trans (has.leads.trans hd)
  exact ⟨inside, by simpa using hopen.trans (hinside.trans hangle)⟩

theorem ClosingAt.text {tag : String} (h : ClosingAt p tag q) :
    ∃ inside, p.Over (inside ++ ['>']) q := by
  obtain ⟨a, b, hslash, htag, c, hgap, hangle⟩ := h
  obtain ⟨inside, hinside⟩ := htag.leads.trans hgap.leads
  exact ⟨['<', '/'] ++ inside, by simpa [Symbol.char] using hslash.trans (hinside.trans hangle)⟩

/-! ### Where tags end -/

theorem DottedAt.head {s : String} (h : DottedAt p s q) : ∀ c ∈ s.toList.head?, c = '.' := by
  cases h with
  | nil => simp
  | cons => simp

/-- A word ends in front of the points behind it, since it has none itself. -/
private theorem word_eq {word word' more more' : String} (hword : isIdentifier word.toList = true)
    (hword' : isIdentifier word'.toList = true) (hmore : ∀ c ∈ more.toList.head?, c = '.')
    (hmore' : ∀ c ∈ more'.toList.head?, c = '.') (h : word ++ more = word' ++ more') :
    word = word' ∧ more = more' := by
  have htake {w m : String} (hw : isIdentifier w.toList = true)
      (hm : ∀ c ∈ m.toList.head?, c = '.') : (w ++ m).toList.takeWhile (· != '.') = w.toList := by
    have hnone : ∀ c ∈ w.toList, (c != '.') = true := by
      intro c hc
      obtain hname | rfl := (of_isIdentifier hw).2.1 c hc
      · refine bne_iff_ne.2 ?_
        rintro rfl
        cases hname
      · rfl
    rw [String.toList_append, List.takeWhile_append_of_pos hnone]
    cases hm' : m.toList with
    | nil => simp
    | cons c cs =>
      obtain rfl := hm c (by rw [hm']; rfl)
      simp
  have hsame : word.toList = word'.toList := by
    rw [← htake hword hmore, h, htake hword' hmore']
  obtain rfl := String.toList_inj.1 hsame
  exact ⟨rfl, by simpa using h⟩

theorem NextWord.identifier {word : String} (h : NextWord p word q) :
    isIdentifier word.toList = true := h.elim fun _ hword => hword.2.identifier

theorem DottedAt.stop_eq {s s' : String} (h : DottedAt p s q) (h' : DottedAt p s' r) (hs : s = s') :
    q = r := by
  induction h generalizing s' with
  | nil =>
    cases h' with
    | nil => rfl
    | cons => simp at hs
  | cons hdot hname hmore ih =>
    cases h' with
    | nil => simp at hs
    | cons hdot' hname' hmore' =>
      rw [String.append_assoc, String.append_assoc] at hs
      obtain ⟨rfl, hsame⟩ := word_eq hname.identifier hname'.identifier hmore.head hmore'.head
        (by simpa using hs)
      obtain rfl := hdot.stop_eq rfl hdot'
      obtain rfl := hname.stop_eq hname'
      exact ih hmore' hsame

theorem TagNameAt.stop_eq {tag tag' : String} (h : TagNameAt p tag q) (h' : TagNameAt p tag' r)
    (htag : tag = tag') : q = r := by
  obtain ⟨hname, hmore⟩ := h
  obtain ⟨hname', hmore'⟩ := h'
  obtain ⟨rfl, hsame⟩ := word_eq hname.identifier hname'.identifier hmore.head hmore'.head htag
  obtain rfl := hname.stop_eq hname'
  exact hmore.stop_eq hmore' hsame

/-- The spans of attributes tell where the last one ends. -/
theorem AttributesAt.stop_eq {as : List Attribute} (h : AttributesAt p as q)
    (h' : AttributesAt p as r) : q = r := by
  induction h with
  | nil => cases h' with | nil => rfl
  | cons hgap ha _ ih =>
    cases h' with
    | cons hgap' ha' has' =>
      have hstop := congrArg Span.stop (ha.span.symm.trans ha'.span)
      obtain rfl := (hgap.leads.trans ha.named.leads).eq_of_offset
        (hgap'.leads.trans ha'.named.leads) hstop
      exact ih has'

/-- An opening tag ends at one place only. -/
theorem TagAt.stop_eq {tag : String} {as : List Attribute} (h : TagAt p tag ⟨as, false⟩ q)
    (h' : TagAt p tag ⟨as, false⟩ r) : q = r := by
  obtain ⟨a, hopen, b, c, htag, has, hend⟩ := h
  obtain ⟨a', hopen', b', c', htag', has', hend'⟩ := h'
  obtain rfl := hopen.stop_eq hopen'
  obtain rfl := htag.stop_eq htag' rfl
  obtain rfl := has.stop_eq has'
  exact hend.stop_eq rfl hend'

/-! ### What readers take -/

theorem nextSymbol_of_peek {s : Symbol} {a b : Place}
    (h : peek p = .ok (some ⟨.symbol s, a, b⟩)) : NextSymbol p s b := by
  obtain ⟨g, w, hg, hw, htrivia, hlexes⟩ := exists_of_lexFrom (peek_eq_ok_some_iff.1 h)
  exact ⟨a, ⟨g, isTrivia_iff.1 htrivia, hg⟩, lexes_symbol hlexes ▸ hw⟩

theorem nextSymbol_of_expect {s : Symbol} (h : expect s p = .ok q) : NextSymbol p s q := by
  obtain ⟨a, hpeek⟩ := expect_eq_ok_iff.1 h
  exact nextSymbol_of_peek hpeek

theorem nextWord_of_readName {wanted : Wanted} {name : String}
    (h : readName wanted p = .ok (name, q)) : NextWord p name q := by
  obtain ⟨t, a, hlex, hname⟩ := exists_of_readName h
  obtain ⟨g, w, hg, hw, htrivia, hlexes⟩ := exists_of_lexFrom hlex
  obtain ⟨rfl, hword, -⟩ := lexes_name hlexes hname
  exact ⟨a, ⟨g, isTrivia_iff.1 htrivia, hg⟩, hword, hw⟩

theorem NextWord.starts {word : String} (h : NextWord p word q) :
    TriviaTo p (nextToken p) ∧ WordTo (nextToken p) word q := by
  obtain ⟨r, hgap, hword⟩ := h
  obtain ⟨_, _, hrest, hc⟩ := hword.solid
  obtain rfl := hgap.eq_nextToken hrest hc
  exact ⟨hgap, hword⟩

theorem dottedAt_of_readDotted {s : String} (h : readDotted p = .ok (s, q)) : DottedAt p s q := by
  fun_induction readDotted p generalizing s with
  | case1 => cases h
  | case2 => cases h
  | case3 p _ r hpeek name r' hname ih =>
    obtain ⟨⟨more, _⟩, hmore, heq⟩ := map_eq_ok_iff.1 h
    cases heq
    exact .cons (nextSymbol_of_peek hpeek) (nextWord_of_readName hname) (ih hmore)
  | case4 =>
    cases h
    exact .nil q

theorem tagNameAt_of_readTagName {tag : String} (h : readTagName p = .ok (tag, q)) :
    TagNameAt p tag q := by
  unfold readTagName at h
  split at h
  · cases h
  · next name r hname =>
    obtain ⟨⟨more, _⟩, hmore, heq⟩ := map_eq_ok_iff.1 h
    cases heq
    exact .intro (nextWord_of_readName hname) (dottedAt_of_readDotted hmore)

theorem attributeNameAt_of_readAttributeName {name : String}
    (h : readAttributeName p = .ok (name, q)) :
    TriviaTo p (nextToken p) ∧ AttributeNameAt (nextToken p) name q := by
  unfold readAttributeName at h
  split at h
  · cases h
  · next name r hname =>
    obtain ⟨hgap, hword⟩ := (nextWord_of_readName hname).starts
    refine ⟨hgap, ?_⟩
    split at h
    · cases h
    · next hpeek =>
      obtain ⟨⟨more, _⟩, hmore, heq⟩ := map_eq_ok_iff.1 h
      cases heq
      exact .colon hword (nextSymbol_of_peek hpeek) (nextWord_of_readName hmore)
    · cases h
      exact .plain hword

theorem valueAt_of_readQuotedValue {quote : Char} {cs : List Char} {v : AttributeValue}
    (hquote : quote = '"' ∨ quote = '\'') (hp : p.rest = quote :: cs)
    (h : readQuotedValue quote p = .ok (v, q)) : ValueAt p v q := by
  unfold readQuotedValue at h
  dsimp only at h
  rw [hp, List.drop_succ_cons, List.drop_zero, drop_runSize, take_runSize] at h
  split at h
  · cases h
  · next hclosed =>
    cases h
    cases hrest : cs.dropWhile (· != quote) with
    | nil => simp [hrest] at hclosed
    | cons c rest =>
      obtain rfl : c = quote := by simpa using of_dropWhile_eq_cons hrest
      refine .text hquote (fun hin => ?_) (Place.over_skip_of_eq (b := rest) ?_ ?_)
      · simpa using List.mem_takeWhile_imp hin
      · rw [List.cons_append, List.cons_append, List.append_assoc, List.singleton_append, ← hrest,
          List.takeWhile_append_dropWhile]
        exact hp
      · simp [runSize]

theorem valueAt_of_readAttributeValue {v : AttributeValue}
    (h : readAttributeValue p = .ok (v, q)) :
    ∃ g r, IsPassed g ∧ p.Over g r ∧ ValueAt r v q := by
  have hover := p.over_skip (gapSize p.rest)
  have hlength := List.length_take_of_le (gapSize_le p.rest)
  have hpassed {c : Char} {cs : List Char} (hrest : (skipGap p).rest = c :: cs) :
      IsPassed (p.rest.take (gapSize p.rest)) := by
    refine isPassed_of_eq (s := c :: cs) (List.cons_ne_nil _ _) ?_
    rw [← hrest, hlength]
    exact congrArg gapSize hover.rest.symm
  obtain ⟨quote, cs, hquote, hcs, hread⟩ | ⟨cs, b, hcs, hread, rfl⟩ := readAttributeValue_cases h
  · exact ⟨_, skipGap p, hpassed hcs, hover, valueAt_of_readQuotedValue hquote hcs hread⟩
  · exact ⟨_, skipGap p, hpassed hcs, hover, .braced ((readBraced_at hcs).of_ok hread)⟩

theorem attributeAt_of_readAttribute {a : Attribute}
    (h : readAttribute (nextToken p) p = .ok (a, q)) :
    TriviaTo p (nextToken p) ∧ a.At (nextToken p) q := by
  unfold readAttribute at h
  split at h
  · cases h
  · next name r hname =>
    obtain ⟨hgap, hname⟩ := attributeNameAt_of_readAttributeName hname
    refine ⟨hgap, ?_⟩
    split at h
    · cases h
    · next hpeek =>
      obtain ⟨⟨v, _⟩, hvalue, heq⟩ := map_eq_ok_iff.1 h
      cases heq
      obtain ⟨g, s, hpassed, hover, hvalue⟩ := valueAt_of_readAttributeValue hvalue
      exact ⟨.valued hname (nextSymbol_of_peek hpeek) hpassed hover hvalue, rfl⟩
    · cases h
      exact ⟨.implicit hname, rfl⟩

theorem attributesAt_of_readAttributes {e : HeaderEnd} (h : readAttributes p = .ok (e, q)) :
    ∃ r, AttributesAt p e.attributes r ∧ TagEndAt r e.selfClosing q := by
  induction hn : p.rest.length using Nat.strongRecOn generalizing p e with
  | ind n ih =>
    subst hn
    obtain ⟨a, b, hpeek, hangle, rfl⟩ | ⟨a, hpeek, rfl⟩ |
      ⟨⟨t, b, c⟩, a, r, e', hpeek, hname, ha, he', rfl⟩ := readAttributes_cases h
    · exact ⟨p, .nil p, b, nextSymbol_of_peek hpeek, nextSymbol_of_expect hangle⟩
    · exact ⟨p, .nil p, nextSymbol_of_peek hpeek⟩
    · obtain rfl : b = nextToken p := start_of_peek hpeek
      obtain ⟨hgap, hat⟩ := attributeAt_of_readAttribute ha
      obtain ⟨s, has, hend⟩ := ih _ (length_readAttribute ha) he' rfl
      exact ⟨s, .cons hgap hat has, hend⟩

theorem headerAt_of_readHeader {x : (String × HeaderEnd) × Place} (h : readHeader p = .ok x) :
    HeaderAt p x.1.1 x.1.2 x.2 := by
  unfold readHeader at h
  split at h
  · cases h
  · next tag r htag =>
    obtain ⟨⟨_, _⟩, hread, heq⟩ := map_eq_ok_iff.1 h
    cases heq
    obtain ⟨s, has, hend⟩ := attributesAt_of_readAttributes hread
    exact ⟨r, s, tagNameAt_of_readTagName htag, has, hend⟩

theorem closingAt_of_readClosing {start : Place} {tag : String} (hslash : p.Over ['<', '/'] q)
    (h : readClosing start tag q = .ok r) : ClosingAt p tag r := by
  unfold readClosing at h
  split at h
  · cases h
  · next closed s htag =>
    split at h
    · cases h
    · next hangle =>
      split at h <;> cases h
      next hsame =>
        subst hsame
        exact ⟨q, s, hslash, tagNameAt_of_readTagName htag, nextSymbol_of_expect hangle⟩

end DesignSync.Markup

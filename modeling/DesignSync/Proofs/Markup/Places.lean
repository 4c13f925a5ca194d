import DesignSync.Proofs.Markup.Braces
import DesignSync.Proofs.Markup.ReadNames
import DesignSync.Proofs.Text.Place

/-!
Where the readers of tag headers end. Each of them goes on to a later place, or reports a span that
lies ahead. A braced expression covers the text from its first brace to its last.
-/

namespace DesignSync.Markup

open Text

variable {α β : Type} {p q r : Place}

/-! ### Results of readers -/

/-- What a reader at a place comes to: a value with `R`, or an error whose span, if it has one, lies
ahead. -/
def Ahead (p : Place) (R : α → Prop) : Except ReadError α → Prop
  | .ok a => R a
  | .error e => ∀ s, e.span? = some s → ∃ q r, p.Leads q ∧ q.Leads r ∧ s = q.spanTo r

namespace Ahead

variable {R : α → Prop} {S : β → Prop} {x : Except ReadError α} {e : ReadError}

theorem error_of_span (h : p.Leads q) (h' : q.Leads r) (hspan : e.span? = some (q.spanTo r)) :
    Ahead p R (.error e) := fun _ hs =>
  ⟨q, r, h, h', Option.some.inj (hs.symm.trans hspan)⟩

theorem error_of_none (hspan : e.span? = none) : Ahead p R (.error e) := fun s hs => by
  rw [hspan] at hs
  cases hs

/-- An error of a reader further on is also one of the reader that called it. -/
theorem of_error (h : Ahead q R x) (hx : x = .error e) (hpq : p.Leads q) :
    Ahead p S (.error e) := by
  subst hx
  intro s hs
  obtain ⟨a, b, ha, hb, rfl⟩ := h s hs
  exact ⟨a, b, hpq.trans ha, hb, rfl⟩

theorem of_ok {a : α} (h : Ahead p R x) (hx : x = .ok a) : R a := by
  subst hx
  exact h

/-- A value has what it is known to have from the result that it is. -/
theorem and {S : α → Prop} (h : Ahead p R x) (hS : ∀ a, x = .ok a → S a) :
    Ahead p (fun a => R a ∧ S a) x := by
  cases hx : x with
  | error e => exact h.of_error hx (.refl p)
  | ok a => exact ⟨h.of_ok hx, hS a hx⟩

theorem imp {S : α → Prop} (h : Ahead q R x) (hpq : p.Leads q) (hRS : ∀ a, R a → S a) :
    Ahead p S x := by
  cases hx : x with
  | error e => exact h.of_error hx hpq
  | ok a => exact hRS a (h.of_ok hx)

theorem map (h : Ahead q R x) (hpq : p.Leads q) {f : α → β} (hf : ∀ a, R a → S (f a)) :
    Ahead p S (x.map f) := by
  cases hx : x with
  | error e => exact h.of_error hx hpq
  | ok a => exact hf a (h.of_ok hx)

end Ahead

/-! ### Tokens -/

/-- Where the next token starts. -/
def nextToken (p : Place) : Place := p.skip (triviaSize p.rest)

theorem leads_nextToken (p : Place) : p.Leads (nextToken p) := Place.leads_skip p _

theorem start_lexFrom {x : Lexed (Option Token)} (h : lexFrom p = some x) :
    x.start = nextToken p ∧ x.start.Leads x.stop := by
  unfold lexFrom at h
  dsimp only at h
  split at h <;> cases h
  exact ⟨rfl, Place.leads_skip _ _⟩

private theorem char_of_ofChar? {c : Char} {s : Symbol} (h : Symbol.ofChar? c = some s) :
    c = s.char := by
  unfold Symbol.ofChar? at h
  split at h <;> cases h <;> rfl

theorem symbol_of_lexeme {c : Char} {cs : List Char} {s : Symbol} {size : Nat}
    (h : lexeme c cs = (some (.symbol s), size)) : c = s.char ∧ size = 0 := by
  unfold lexeme at h
  dsimp only at h
  split at h
  · have hname := name?_wordToken (String.ofList (c :: cs.take (runSize isNameChar cs +
      dashedSize (cs.drop (runSize isNameChar cs))))) (cs.drop (runSize isNameChar cs +
        dashedSize (cs.drop (runSize isNameChar cs)))).head?
    rw [Option.some.inj (Prod.mk.inj h).1] at hname
    cases hname
  split at h
  · obtain ⟨htoken, -⟩ := Prod.mk.inj h
    split at htoken
    · split at htoken <;> cases htoken
    · cases htoken
  split at h
  · cases h
  split at h
  · cases h
  split at h
  · cases h
  obtain ⟨htoken, rfl⟩ := Prod.mk.inj h
  obtain ⟨s', hs, heq⟩ := Option.map_eq_some_iff.1 htoken
  cases heq
  exact ⟨char_of_ofChar? hs, rfl⟩

/-- A token that stands next, with its text if it is a symbol. -/
structure Lexed.Stands (p : Place) (x : Lexed Token) : Prop where
  start : x.start = nextToken p
  stop : x.start.Leads x.stop
  symbol : ∀ s, x.token = .symbol s → x.start.Over [s.char] x.stop

theorem stands_of_lexFrom {t : Token} {a b : Place} (h : lexFrom p = some ⟨some t, a, b⟩) :
    Lexed.Stands p ⟨t, a, b⟩ := by
  obtain ⟨hstart, hstop⟩ := start_lexFrom h
  refine ⟨hstart, hstop, ?_⟩
  rintro s rfl
  unfold lexFrom at h
  dsimp only at h
  split at h
  · cases h
  · next c cs hrest =>
    obtain ⟨htoken, rfl, rfl⟩ := Lexed.mk.inj (Option.some.inj h)
    obtain ⟨rfl, hsize⟩ := symbol_of_lexeme (Prod.ext htoken rfl)
    exact Place.over_skip_of_eq (b := cs) hrest (congrArg (· + 1) hsize.symm)

theorem peek_ahead (p : Place) :
    Ahead p (fun o => ∀ x, o = some x → x.Stands p) (peek p) := by
  unfold peek
  split
  · intro x hx
    cases hx
  · next x hx =>
    split
    · next t ht =>
      rintro _ ⟨⟩
      obtain ⟨token, a, b⟩ := x
      cases ht
      exact stands_of_lexFrom hx
    · obtain ⟨hstart, hstop⟩ := start_lexFrom hx
      exact .error_of_span (hstart ▸ leads_nextToken p) hstop rfl

theorem peekWanted_eq_ok_iff {wanted : Wanted} {x : Lexed Token} :
    peekWanted wanted p = .ok x ↔ peek p = .ok (some x) := by
  unfold peekWanted
  cases peek p with
  | error e => simp
  | ok o => cases o <;> simp

theorem peekWanted_ahead (wanted : Wanted) (p : Place) :
    Ahead p (Lexed.Stands p) (peekWanted wanted p) := by
  have hpeek := peek_ahead p
  unfold peekWanted
  split
  · next hx => exact hpeek.of_error hx (.refl p)
  · exact .error_of_none rfl
  · next x hx => exact hpeek.of_ok hx x rfl

theorem Lexed.Stands.error {x : Lexed Token} (h : x.Stands p) {R : α → Prop} {e : ReadError}
    (hspan : e.span? = some x.span) : Ahead p R (.error e) :=
  .error_of_span (h.start ▸ leads_nextToken p) h.stop hspan

theorem expect_ahead (s : Symbol) (p : Place) :
    Ahead p (fun q => (nextToken p).Over [s.char] q) (expect s p) := by
  have hpeek := peekWanted_ahead (.symbol s) p
  unfold expect
  split
  · next hx => exact hpeek.of_error hx (.refl p)
  · next x hx =>
    have hstands := hpeek.of_ok hx
    split
    · next hs => exact hstands.start ▸ hstands.symbol s hs
    · exact hstands.error rfl

theorem readName_ahead (wanted : Wanted) (p : Place) :
    Ahead p (fun x => (nextToken p).Leads x.2) (readName wanted p) := by
  have hpeek := peekWanted_ahead wanted p
  unfold readName
  split
  · next hx => exact hpeek.of_error hx (.refl p)
  · next x hx =>
    have hstands := hpeek.of_ok hx
    split
    · exact hstands.start ▸ hstands.stop
    · exact hstands.error rfl

theorem Lexed.Stands.leads_stop {x : Lexed Token} (h : x.Stands p) : p.Leads x.stop :=
  (leads_nextToken p).trans (h.start ▸ h.stop)

theorem readDotted_ahead (p : Place) : Ahead p (fun x => p.Leads x.2) (readDotted p) := by
  fun_induction readDotted p with
  | case1 p e hx => exact (peek_ahead p).of_error hx (.refl p)
  | case2 p _ q hx e hn =>
    have hq := ((peek_ahead p).of_ok hx _ rfl).leads_stop
    exact (readName_ahead _ q).of_error hn hq
  | case3 p _ q hx name r hn ih =>
    have hq := ((peek_ahead p).of_ok hx _ rfl).leads_stop
    have hr := hq.trans ((leads_nextToken q).trans ((readName_ahead _ q).of_ok hn))
    exact ih.map hr fun _ hmore => hr.trans hmore
  | case4 p => exact .refl p

theorem readTagName_ahead (p : Place) :
    Ahead p (fun x => (nextToken p).Leads x.2) (readTagName p) := by
  have hname := readName_ahead .tagName p
  unfold readTagName
  split
  · next hn => exact hname.of_error hn (.refl p)
  · next name q hn =>
    have hq : (nextToken p).Leads q := hname.of_ok hn
    exact (readDotted_ahead q).map ((leads_nextToken p).trans hq) fun _ hmore => hq.trans hmore

/-! ### Braced expressions -/

/-- A braced expression from a place on: its raw text is that between the braces. -/
structure Braced.At (p : Place) (b : Braced) (q : Place) : Prop where
  text : p.Over ('\x7b' :: b.raw.toList ++ ['\x7d']) q
  span : b.span = p.spanTo q
  expression : b.expression = Expression.classify b.raw

/-- A part of a text is closed by a brace that closes what comes behind a front of it. -/
private theorem take_behind {cs : List Char} {k n : Nat} (front : List Char)
    (hfront : front.length = k)
    (h : ∃ raw, cs.take n = raw ++ ['\x7d'] ∧ raw.length + 1 = n) :
    ∃ raw, (front ++ cs).take (k + n) = raw ++ ['\x7d'] ∧ raw.length + 1 = k + n := by
  obtain ⟨raw, htake, hlength⟩ := h
  refine ⟨front ++ raw, ?_, by simp only [List.length_append]; omega⟩
  rw [← hfront, List.take_length_add_append, htake, List.append_assoc]

theorem take_braceSize? {depth n : Nat} {cs : List Char} (h : braceSize? depth cs = some n) :
    ∃ raw, cs.take n = raw ++ ['\x7d'] ∧ raw.length + 1 = n := by
  have hcut {depth size m : Nat} {rest : List Char}
      (hm : braceSize? depth (rest.drop size) = some m) : (rest.take size).length = size :=
    List.length_take_of_le (Nat.le_of_lt (lt_length_of_braceSize?_drop hm))
  fun_induction braceSize? depth cs generalizing n with
  | case1 => cases h
  | case2 depth rest ih =>
    obtain ⟨m, hm, rfl⟩ := Option.map_eq_some_iff.1 h
    exact take_behind ['\x7b'] rfl (ih hm)
  | case3 rest =>
    cases h
    exact ⟨[], rfl, rfl⟩
  | case4 rest depth ih =>
    obtain ⟨m, hm, rfl⟩ := Option.map_eq_some_iff.1 h
    exact take_behind ['\x7d'] rfl (ih hm)
  | case5 depth rest size =>
    rename_i ih
    obtain ⟨m, hm, rfl⟩ := Option.map_eq_some_iff.1 h
    have hfront : ('/' :: '/' :: rest.take size).length = 2 + size := by
      rw [List.length_cons, List.length_cons, hcut hm]
      omega
    simpa using take_behind _ hfront (ih hm)
  | case6 depth rest size hblock ih =>
    obtain ⟨m, hm, rfl⟩ := Option.map_eq_some_iff.1 h
    have hfront : ('/' :: '*' :: rest.take size).length = 2 + size := by
      rw [List.length_cons, List.length_cons, hcut hm]
      omega
    simpa using take_behind _ hfront (ih hm)
  | case7 => cases h
  | case8 depth c rest _ _ _ _ size =>
    rename_i ih
    obtain ⟨m, hm, rfl⟩ := Option.map_eq_some_iff.1 h
    have hfront : (c :: rest.take size).length = 1 + size := by
      rw [List.length_cons, hcut hm]
      omega
    simpa using take_behind _ hfront (ih hm)

theorem readBraced_ahead (p : Place) : Ahead p (fun x => p.Leads x.2) (readBraced p) := by
  unfold readBraced
  split
  · exact .error_of_none rfl
  · exact Place.leads_skip p _

theorem readBraced_at {cs : List Char} (hp : p.rest = '\x7b' :: cs) :
    Ahead p (fun x => x.1.At p x.2) (readBraced p) := by
  unfold readBraced
  rw [hp, List.drop_succ_cons, List.drop_zero]
  split
  · exact .error_of_none rfl
  · next size hsize =>
    obtain ⟨raw, htake, hlength⟩ := take_braceSize? hsize
    have hraw : cs.take (size - 1) = raw := by
      have hcut := congrArg (List.take (size - 1)) htake
      rwa [List.take_take, Nat.min_eq_left (Nat.sub_le _ _), List.take_left' (by omega)] at hcut
    refine ⟨?_, rfl, rfl⟩
    have hover := p.over_skip (size + 1)
    rw [hp, List.take_succ_cons, htake] at hover
    rw [hraw, String.toList_ofList]
    exact hover

/-! ### Attributes -/

theorem readQuotedValue_ahead (quote : Char) (p : Place) :
    Ahead p (fun x => p.Leads x.2) (readQuotedValue quote p) := by
  unfold readQuotedValue
  dsimp only
  split
  · exact .error_of_none rfl
  · exact Place.leads_skip p _

theorem leads_skipGap (p : Place) : p.Leads (skipGap p) := Place.leads_skip p _

theorem readAttributeValue_ahead (p : Place) :
    Ahead p (fun x => p.Leads x.2) (readAttributeValue p) := by
  have hgap := leads_skipGap p
  have hquoted (quote : Char) :
      Ahead p (fun x => p.Leads x.2) (readQuotedValue quote (skipGap p)) :=
    (readQuotedValue_ahead quote (skipGap p)).imp hgap fun _ hx => hgap.trans hx
  have hpeek := peekWanted_ahead .attributeValue (skipGap p)
  unfold readAttributeValue
  dsimp only
  split
  · exact hquoted '"'
  · exact hquoted '\''
  split
  · next hx => exact hpeek.of_error hx hgap
  · next a b hx =>
    have hstart : a = nextToken (skipGap p) := (hpeek.of_ok hx).start
    have ha : p.Leads a := hgap.trans (hstart ▸ leads_nextToken _)
    exact (readBraced_ahead a).map ha fun _ hx => ha.trans hx
  · next x _ hx =>
    have hstands := hpeek.of_ok hx
    exact .error_of_span (hgap.trans (hstands.start ▸ leads_nextToken _)) hstands.stop rfl

theorem readAttributeName_ahead (p : Place) :
    Ahead p (fun x => (nextToken p).Leads x.2) (readAttributeName p) := by
  have hname := readName_ahead .attributeName p
  unfold readAttributeName
  split
  · next hn => exact hname.of_error hn (.refl p)
  · next name q hn =>
    have hq : (nextToken p).Leads q := hname.of_ok hn
    have hpq : p.Leads q := (leads_nextToken p).trans hq
    split
    · next hx => exact (peek_ahead q).of_error hx hpq
    · next r hx =>
      have hr : q.Leads r := ((peek_ahead q).of_ok hx _ rfl).leads_stop
      refine (readName_ahead .attributeName r).map (hpq.trans hr) fun x hx => ?_
      exact hq.trans (hr.trans ((leads_nextToken r).trans hx))
    · exact hq

theorem readAttribute_ahead (start p : Place) :
    Ahead p (fun x => (nextToken p).Leads x.2) (readAttribute start p) := by
  have hname := readAttributeName_ahead p
  unfold readAttribute
  split
  · next hn => exact hname.of_error hn (.refl p)
  · next name q hn =>
    have hq : (nextToken p).Leads q := hname.of_ok hn
    have hpq : p.Leads q := (leads_nextToken p).trans hq
    split
    · next hx => exact (peek_ahead q).of_error hx hpq
    · next r hx =>
      have hr : q.Leads r := ((peek_ahead q).of_ok hx _ rfl).leads_stop
      exact (readAttributeValue_ahead r).map (hpq.trans hr) fun x hx => hq.trans (hr.trans hx)
    · exact hq

theorem readAttributes_ahead (p : Place) : Ahead p (fun x => p.Leads x.2) (readAttributes p) := by
  fun_induction readAttributes p with
  | case1 p e hx => exact (peekWanted_ahead _ p).of_error hx (.refl p)
  | case2 p x hx _ =>
    have hstop := ((peekWanted_ahead _ p).of_ok hx).leads_stop
    refine (expect_ahead .rightAngle x.stop).map hstop fun q hq => ?_
    exact hstop.trans ((leads_nextToken _).trans hq.leads)
  | case3 p x hx => exact ((peekWanted_ahead _ p).of_ok hx).leads_stop
  | case4 p x hx => exact ((peekWanted_ahead _ p).of_ok hx).error rfl
  | case5 p x hx e ha => exact (readAttribute_ahead _ p).of_error ha (.refl p)
  | case6 p x hx a q ha _ _ _ _ ih =>
    have hq : p.Leads q := (leads_nextToken p).trans ((readAttribute_ahead _ p).of_ok ha)
    exact ih.map hq fun y hy => hq.trans hy
  | case7 p x hx => exact ((peekWanted_ahead _ p).of_ok hx).error rfl

theorem readHeader_ahead (p : Place) : Ahead p (fun x => p.Leads x.2) (readHeader p) := by
  have htag := readTagName_ahead p
  unfold readHeader
  split
  · next hn => exact htag.of_error hn (.refl p)
  · next tag q hn =>
    have hq : p.Leads q := (leads_nextToken p).trans (htag.of_ok hn)
    exact (readAttributes_ahead q).map hq fun x hx => hq.trans hx

theorem readClosing_ahead {start : Place} (hstart : start.Leads p) (tag : String) :
    Ahead start (fun q => p.Leads q) (readClosing start tag p) := by
  have htag := readTagName_ahead p
  unfold readClosing
  split
  · next hn => exact htag.of_error hn hstart
  · next closed q hn =>
    have hq : p.Leads q := (leads_nextToken p).trans (htag.of_ok hn)
    have hangle := expect_ahead .rightAngle q
    split
    · next he => exact hangle.of_error he (hstart.trans hq)
    · next r he =>
      have hr : p.Leads r := hq.trans ((leads_nextToken q).trans (hangle.of_ok he).leads)
      split
      · exact hr
      · exact .error_of_span (.refl start) (hstart.trans hr) rfl

/-! ### Ways that were gone -/

theorem start_of_peek {x : Lexed Token} (h : peek p = .ok (some x)) : x.start = nextToken p :=
  ((peek_ahead p).of_ok h x rfl).start

theorem leads_of_peek {x : Lexed Token} (h : peek p = .ok (some x)) : p.Leads x.stop :=
  ((peek_ahead p).of_ok h x rfl).leads_stop

theorem leads_of_expect {s : Symbol} (h : expect s p = .ok q) : p.Leads q :=
  (leads_nextToken p).trans ((expect_ahead s p).of_ok h).leads

theorem leads_of_readName {wanted : Wanted} {name : String}
    (h : readName wanted p = .ok (name, q)) : p.Leads q :=
  (leads_nextToken p).trans ((readName_ahead wanted p).of_ok h)

theorem leads_of_readTagName {tag : String} (h : readTagName p = .ok (tag, q)) : p.Leads q :=
  (leads_nextToken p).trans ((readTagName_ahead p).of_ok h)

theorem leads_of_readAttributeName {name : String} (h : readAttributeName p = .ok (name, q)) :
    p.Leads q :=
  (leads_nextToken p).trans ((readAttributeName_ahead p).of_ok h)

theorem leads_of_readAttribute {start : Place} {a : Attribute}
    (h : readAttribute start p = .ok (a, q)) : p.Leads q :=
  (leads_nextToken p).trans ((readAttribute_ahead start p).of_ok h)

end DesignSync.Markup

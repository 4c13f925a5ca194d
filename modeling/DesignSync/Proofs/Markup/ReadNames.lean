import DesignSync.Proofs.Markup.ElementTree
import DesignSync.Proofs.Markup.Inside

/-!
What readers take for names. Every word of the lexer is an identifier, so that the tags and the
attribute names of a tree that was read are such that they can be written again; and every braced
part of the tree has the shape of its source.
-/

namespace DesignSync.Markup

open Text

/-! ### Words -/

theorem isWordTail_cons {c : Char} (hc : isNameChar c = true) (cs : List Char) :
    isWordTail (c :: cs) = isWordTail cs := by
  rw [isWordTail.eq_3, hc, Bool.true_and]
  rintro _ _ rfl
  exact absurd hc (by decide)

theorem wordSize_eq_zero {c : Char} {cs : List Char} (hc : isNameChar c = false)
    (hdash : c = '-' → ∀ d ∈ cs.head?, isNameChar d = false) : wordSize (c :: cs) = 0 := by
  rw [wordSize, runSize_eq_zero hc, List.drop_zero, Nat.zero_add, dashedSize.eq_def]
  split
  · next d rest heq =>
    obtain ⟨rfl, rfl⟩ := List.cons.inj heq
    rw [if_neg (by simp [hdash rfl d rfl])]
  · rfl

theorem isWordTail_take_wordSize (cs : List Char) : isWordTail (cs.take (wordSize cs)) = true := by
  induction cs using isWordTail.induct with
  | case1 =>
    rw [List.take_nil]
    rfl
  | case2 c cs ih =>
    cases hc : isNameChar c with
    | true =>
      rw [wordSize_dash hc, List.take_succ_cons, List.take_succ_cons, isWordTail, hc, ih]
      rfl
    | false =>
      have hzero : wordSize ('-' :: c :: cs) = 0 :=
        wordSize_eq_zero (by decide) fun _ d hd => Option.some.inj hd ▸ hc
      rw [hzero, List.take_zero]
      rfl
  | case3 c cs hdash ih =>
    cases hc : isNameChar c with
    | true => rw [wordSize_name hc, List.take_succ_cons, isWordTail_cons hc, ih]
    | false =>
      rw [wordSize_eq_zero hc, List.take_zero]
      · rfl
      · rintro rfl d hd
        cases cs with
        | nil => cases hd
        | cons d cs => exact absurd rfl (hdash d cs rfl)

/-- The words of the lexer are identifiers. -/
theorem isIdentifier_of_lexFrom {p : Place} {x : Lexed (Option Token)} {t : Token} {name : String}
    (hlex : lexFrom p = some x) (htoken : x.token = some t) (hname : t.name? = some name) :
    isIdentifier name.toList = true := by
  unfold lexFrom at hlex
  dsimp only at hlex
  split at hlex
  · cases hlex
  · next c cs hrest =>
    obtain rfl := Option.some.inj hlex
    dsimp only at htoken
    unfold lexeme at htoken
    dsimp only at htoken
    split at htoken
    · next hstart =>
      obtain rfl := Option.some.inj htoken
      rw [name?_wordToken] at hname
      obtain rfl := Option.some.inj hname
      rw [String.toList_ofList, isIdentifier, hstart]
      exact isWordTail_take_wordSize cs
    · split at htoken
      · split at htoken
        · obtain rfl := Option.some.inj htoken
          split at hname <;> cases hname
        · cases htoken
      · split at htoken
        · obtain rfl := Option.some.inj htoken
          cases hname
        · split at htoken
          · cases htoken
          · split at htoken
            · obtain rfl := Option.some.inj htoken
              cases hname
            · obtain ⟨s, -, rfl⟩ := Option.map_eq_some_iff.1 htoken
              cases hname

/-! ### What identifiers are made of -/

private theorem hasDoubleDash_cons {c : Char} {cs : List Char} (hc : c ≠ '-') :
    hasDoubleDash (c :: cs) = hasDoubleDash cs := by
  rw [hasDoubleDash]
  rintro rest rfl
  exact absurd rfl hc

private theorem hasDoubleDash_dash {c : Char} {cs : List Char} (hc : c ≠ '-') :
    hasDoubleDash ('-' :: c :: cs) = hasDoubleDash cs := by
  rw [hasDoubleDash, hasDoubleDash_cons hc]
  rintro rest - heq
  exact hc (List.cons.inj heq).1

private theorem ne_dash_of_isNameChar {c : Char} (h : isNameChar c = true) : c ≠ '-' := by
  rintro rfl
  cases h

private theorem getLast?_cons_ne {c : Char} {cs : List Char} (hc : c ≠ '-')
    (hcs : cs.getLast? ≠ some '-') : (c :: cs).getLast? ≠ some '-' := by
  cases cs with
  | nil => simpa using hc
  | cons d cs => rwa [List.getLast?_cons_cons]

/-- A word goes on with name characters and with single dashes between them. -/
theorem of_isWordTail {cs : List Char} (h : isWordTail cs = true) :
    (∀ c ∈ cs, isNameChar c = true ∨ c = '-') ∧ cs.getLast? ≠ some '-' ∧
      ∀ rest, hasDoubleDash (cs ++ rest) = hasDoubleDash rest := by
  fun_induction isWordTail cs with
  | case1 => simp
  | case2 c cs ih =>
    obtain ⟨hc, hcs⟩ := Bool.and_eq_true_iff.1 h
    obtain ⟨hall, hlast, hdouble⟩ := ih hcs
    have hne := ne_dash_of_isNameChar hc
    refine ⟨?_, ?_, fun rest => (hasDoubleDash_dash hne).trans (hdouble rest)⟩
    · simpa [hc] using hall
    · rw [List.getLast?_cons_cons]
      exact getLast?_cons_ne hne hlast
  | case3 c cs hdash ih =>
    obtain ⟨hc, hcs⟩ := Bool.and_eq_true_iff.1 h
    obtain ⟨hall, hlast, hdouble⟩ := ih hcs
    have hne := ne_dash_of_isNameChar hc
    refine ⟨?_, getLast?_cons_ne hne hlast,
      fun rest => (hasDoubleDash_cons hne).trans (hdouble rest)⟩
    simpa [hc] using hall

/-- The same for a whole word, which starts as a name does. -/
theorem of_isIdentifier {cs : List Char} (h : isIdentifier cs = true) :
    cs.head?.any isNameStart = true ∧ (∀ c ∈ cs, isNameChar c = true ∨ c = '-') ∧
      cs.getLast? ≠ some '-' ∧ ∀ rest, hasDoubleDash (cs ++ rest) = hasDoubleDash rest := by
  cases cs with
  | nil => cases h
  | cons c cs =>
    obtain ⟨hc, hcs⟩ := Bool.and_eq_true_iff.1 h
    have hname : isNameChar c = true := by rw [isNameChar, hc, Bool.true_or]
    have hne := ne_dash_of_isNameChar hname
    obtain ⟨hall, hlast, hdouble⟩ := of_isWordTail hcs
    refine ⟨hc, ?_, getLast?_cons_ne hne hlast,
      fun rest => (hasDoubleDash_cons hne).trans (hdouble rest)⟩
    simpa [hname] using hall

theorem isAttributeName_of_isReadableName {name : String} (h : IsReadableName name) :
    isAttributeName name = true := by
  simp only [isAttributeName, Bool.and_eq_true, bne_iff_ne, Bool.not_eq_true', List.all_eq_true,
    Bool.or_eq_true, beq_iff_eq]
  obtain hname | ⟨a, b, rfl, ha, hb⟩ := h
  · obtain ⟨hstart, hall, hlast, hdouble⟩ := of_isIdentifier hname
    have hnone := hdouble []
    rw [List.append_nil] at hnone
    exact ⟨⟨⟨hstart, fun c hc => .inl (hall c hc)⟩, hlast⟩, hnone⟩
  · obtain ⟨hstart, hall, -, hdouble⟩ := of_isIdentifier ha
    obtain ⟨-, hall', hlast', hdouble'⟩ := of_isIdentifier hb
    have hne : b.toList ≠ [] := by
      intro hnil
      rw [hnil] at hb
      cases hb
    have hnone := hdouble' []
    rw [List.append_nil] at hnone
    have htext : (a ++ ":" ++ b).toList = a.toList ++ ':' :: b.toList := by simp
    rw [htext]
    refine ⟨⟨⟨?_, fun c hc => ?_⟩, ?_⟩, ?_⟩
    · cases hcs : a.toList <;> rw [hcs] at hstart <;> exact hstart
    · obtain hc | hc := List.mem_append.1 hc
      · exact .inl (hall c hc)
      · obtain rfl | hc := List.mem_cons.1 hc
        · exact .inr rfl
        · exact .inl (hall' c hc)
    · rw [List.getLast?_append_of_ne_nil _ (List.cons_ne_nil _ _)]
      exact getLast?_cons_ne (by decide) hlast'
    · rw [hdouble, hasDoubleDash_cons (by decide), hnone]
      rfl

/-! ### Names -/

variable {p q : Place} {name : String}

theorem isIdentifier_of_readName {wanted : Wanted} (h : readName wanted p = .ok (name, q)) :
    isIdentifier name.toList = true := by
  unfold readName peekWanted peek at h
  cases hlex : lexFrom p with
  | none =>
    rw [hlex] at h
    cases h
  | some x =>
    rw [hlex] at h
    cases htoken : x.token with
    | none =>
      simp only [htoken] at h
      cases h
    | some t =>
      simp only [htoken] at h
      split at h
      · next hname =>
        cases h
        exact isIdentifier_of_lexFrom hlex htoken hname
      · cases h

theorem exists_names_of_readDotted {s : String} (h : readDotted p = .ok (s, q)) :
    ∃ names : List String, (∀ name ∈ names, isIdentifier name.toList = true) ∧ s = dotted names := by
  fun_induction readDotted p generalizing s with
  | case1 => cases h
  | case2 => cases h
  | case3 p _ r hpeek name r' hname ih =>
    obtain ⟨⟨more, r''⟩, hmore, heq⟩ := map_eq_ok_iff.1 h
    cases heq
    obtain ⟨names, hnames, rfl⟩ := ih hmore
    refine ⟨name :: names, ?_, by simp [dotted]⟩
    rintro n (_ | ⟨_, hn⟩)
    · exact isIdentifier_of_readName hname
    · exact hnames n hn
  | case4 =>
    cases h
    exact ⟨[], by simp, rfl⟩

theorem isTagName_of_readTagName (h : readTagName p = .ok (name, q)) : IsTagName name := by
  unfold readTagName at h
  split at h
  · cases h
  · next first r hfirst =>
    obtain ⟨⟨more, r'⟩, hmore, heq⟩ := map_eq_ok_iff.1 h
    cases heq
    obtain ⟨names, hnames, rfl⟩ := exists_names_of_readDotted hmore
    refine ⟨first :: names, List.cons_ne_nil _ _, ?_, (intercalate_eq_dotted first names).symm⟩
    rintro n (_ | ⟨_, hn⟩)
    · exact isIdentifier_of_readName hfirst
    · exact hnames n hn

theorem isReadableName_of_readAttributeName (h : readAttributeName p = .ok (name, q)) :
    IsReadableName name := by
  unfold readAttributeName at h
  split at h
  · cases h
  · next first r hfirst =>
    split at h
    · cases h
    · obtain ⟨⟨more, r'⟩, hmore, heq⟩ := map_eq_ok_iff.1 h
      cases heq
      exact .inr ⟨first, more, rfl, isIdentifier_of_readName hfirst, isIdentifier_of_readName hmore⟩
    · cases h
      exact .inl (isIdentifier_of_readName hfirst)

/-! ### Headers -/

/-- A tag header that can be written again. -/
structure Head.IsReadable (h : Head) : Prop where
  tag : IsTagName h.tag
  names : ∀ a ∈ h.attributes, IsReadableName a.name

theorem isReadableName_of_readAttribute {start : Place} {a : Attribute}
    (h : readAttribute start p = .ok (a, q)) : IsReadableName a.name := by
  unfold readAttribute at h
  split at h
  · cases h
  · next name r hname =>
    have hreadable := isReadableName_of_readAttributeName hname
    split at h
    · cases h
    · obtain ⟨⟨value, r'⟩, -, heq⟩ := map_eq_ok_iff.1 h
      cases heq
      exact hreadable
    · cases h
      exact hreadable

theorem isReadableName_of_readAttributes {e : HeaderEnd} (h : readAttributes p = .ok (e, q)) :
    ∀ a ∈ e.attributes, IsReadableName a.name := by
  fun_induction readAttributes p generalizing e with
  | case1 => cases h
  | case2 =>
    obtain ⟨r, -, heq⟩ := map_eq_ok_iff.1 h
    cases heq
    exact fun a ha => by cases ha
  | case3 =>
    cases h
    exact fun a ha => by cases ha
  | case4 => cases h
  | case5 => cases h
  | case6 p x hx a r hattribute _ _ _ _ ih =>
    obtain ⟨⟨rest, r'⟩, hrest, heq⟩ := map_eq_ok_iff.1 h
    cases heq
    rintro b (_ | ⟨_, hb⟩)
    · exact isReadableName_of_readAttribute hattribute
    · exact ih hrest b hb
  | case7 => cases h

theorem isReadable_of_readHeader {tag : String} {e : HeaderEnd}
    (h : readHeader p = .ok ((tag, e), q)) (selfClosing : Bool) (span : Span) :
    Head.IsReadable ⟨tag, e.attributes, selfClosing, span⟩ := by
  unfold readHeader at h
  split at h
  · cases h
  · next name r hname =>
    obtain ⟨⟨rest, r'⟩, hrest, heq⟩ := map_eq_ok_iff.1 h
    cases heq
    exact ⟨isTagName_of_readTagName hname, isReadableName_of_readAttributes hrest⟩

/-! ### Trees -/

theorem expression_of_readBraced {b : Braced} (h : readBraced p = .ok (b, q)) :
    b.expression = Expression.classify b.raw := by
  unfold readBraced at h
  split at h <;> cases h
  rfl

/-- Nodes whose headers can be written again and whose braced parts have the shape of their
source. -/
def AreReadable : List Node → Prop
  | [] => True
  | .element head children :: nodes => head.IsReadable ∧ AreReadable children ∧ AreReadable nodes
  | .text _ _ :: nodes => AreReadable nodes
  | .braced b :: nodes => b.expression = Expression.classify b.raw ∧ AreReadable nodes

/-- A tree that can be written again, as far as its names go. -/
structure Tree.IsReadable (t : Tree) : Prop where
  head : t.head.IsReadable
  children : AreReadable t.children

theorem areReadable_nil : AreReadable [] := by
  rw [AreReadable]
  trivial

theorem areReadable_element {head : Head} {children : List Node} :
    AreReadable [.element head children] ↔ head.IsReadable ∧ AreReadable children := by
  simp [AreReadable]

theorem areReadable_text (s : String) (span : Span) : AreReadable [.text s span] := by
  simp [AreReadable]

theorem areReadable_braced {b : Braced} :
    AreReadable [.braced b] ↔ b.expression = Expression.classify b.raw := by
  simp [AreReadable]

theorem areReadable_iff {nodes : List Node} :
    AreReadable nodes ↔ ∀ n ∈ nodes, AreReadable [n] := by
  induction nodes with
  | nil => simp [AreReadable]
  | cons n nodes ih =>
    rw [List.forall_mem_cons, ← ih]
    cases n <;> simp [AreReadable, and_assoc]

/-- Whether what has been read of an open element can be written again. -/
structure OpenElement.IsReadable (e : OpenElement) : Prop where
  head : Head.IsReadable ⟨e.tag, e.attributes, false, ⟨0, 0⟩⟩
  children : AreReadable e.children

theorem OpenElement.IsReadable.push {e : OpenElement} (h : e.IsReadable) {n : Node}
    (hn : AreReadable [n]) : (e.push n).IsReadable where
  head := h.head
  children := areReadable_iff.2 (List.forall_mem_cons.2 ⟨hn, areReadable_iff.1 h.children⟩)

theorem OpenElement.IsReadable.close {e : OpenElement} (h : e.IsReadable) (stop : Place) :
    (e.close stop).IsReadable where
  head := ⟨h.head.tag, h.head.names⟩
  children := areReadable_iff.2 fun n hn =>
    areReadable_iff.1 h.children n (List.mem_reverse.1 hn)

theorem isReadable_of_readContent {outer : List OpenElement} {top : OpenElement} {t : Tree}
    (houter : ∀ e ∈ outer, e.IsReadable) (htop : top.IsReadable)
    (h : readContent outer top p = .ok (t, q)) : t.IsReadable := by
  fun_induction readContent outer top p with
  | case1 => cases h
  | case2 => cases h
  | case3 =>
    cases h
    exact htop.close _
  | case4 top p _ _ r _ parent outer tree ih =>
    obtain ⟨hparent, houter⟩ := List.forall_mem_cons.1 houter
    have hclosed := htop.close r
    exact ih houter (hparent.push (areReadable_element.2 ⟨hclosed.head, hclosed.children⟩)) h
  | case5 => cases h
  | case6 outer top p _ _ _ tag header r hheader _ ih =>
    have hhead := isReadable_of_readHeader hheader true (p.spanTo r)
    exact ih houter (htop.push (areReadable_element.2 ⟨hhead, areReadable_nil⟩)) h
  | case7 outer top p _ _ _ tag header r hheader _ ih =>
    have hopen : OpenElement.IsReadable ⟨p, tag, header.attributes, []⟩ :=
      ⟨isReadable_of_readHeader hheader _ _, areReadable_nil⟩
    exact ih (List.forall_mem_cons.2 ⟨htop, houter⟩) hopen h
  | case8 => cases h
  | case9 outer top p _ _ b r hbraced ih =>
    exact ih houter (htop.push (areReadable_braced.2 (expression_of_readBraced hbraced))) h
  | case10 outer top p _ _ _ _ _ _ _ _ _ _ ih => exact ih houter htop h
  | case11 outer top p _ _ _ _ _ _ _ _ _ _ ih =>
    exact ih houter (htop.push (areReadable_text _ _)) h

/-- A tree that was read can be written again, as far as its names go. -/
theorem isReadable_of_readElement {t : Tree} (h : readElement p = .ok (t, q)) : t.IsReadable := by
  unfold readElement at h
  split at h
  · cases h
  · next x hx =>
    split at h
    · cases h
    · next tag header r hheader =>
      split at h
      · cases h
        exact ⟨isReadable_of_readHeader hheader _ _, areReadable_nil⟩
      · have hopen : OpenElement.IsReadable ⟨x.start, tag, header.attributes, []⟩ :=
          ⟨isReadable_of_readHeader hheader _ _, areReadable_nil⟩
        exact isReadable_of_readContent (by simp) hopen h

theorem isReadable_of_readRootElement {t : Tree} (h : readRootElement p = .ok (t, q)) :
    t.IsReadable := by
  unfold readRootElement at h
  split at h
  · cases h
  · exact isReadable_of_readElement h
  · cases h
  · cases h

theorem isReadable_of_readRoot {t : Tree} (h : readRoot p = .ok t) : t.IsReadable := by
  unfold readRoot at h
  split at h
  · cases h
  · split at h
    · cases h
    · next hroot =>
      obtain ⟨_, -, rfl⟩ := map_eq_ok_iff.1 h
      exact isReadable_of_readRootElement hroot
  · obtain ⟨⟨tree, r⟩, hroot, rfl⟩ := map_eq_ok_iff.1 h
    exact isReadable_of_readRootElement hroot

theorem isReadable_of_readTree {source : String} {t : Tree} (h : readTree source = .ok t) :
    t.IsReadable := by
  unfold readTree at h
  dsimp only at h
  split at h
  · exact isReadable_of_readRoot h
  · split at h
    · cases h
    · exact isReadable_of_readRoot h

end DesignSync.Markup

import Mathlib.Data.List.TakeWhile
import DesignSync.Proofs.Markup.Counts
import DesignSync.Proofs.Markup.IndentedReading
import DesignSync.Proofs.Markup.Tags

/-!
The spans of a tree cover the source that it was read from: between the two tags of an element its
children stand one behind the other, with nothing but blanks around line feeds left out.
-/

namespace DesignSync.Markup

open Text

variable {p q r s : Place}

/-! ### Text between tags -/

/-- A run of text that says nothing: blanks, with a line feed among them. -/
structure IsLineGap (cs : List Char) : Prop where
  blank : ∀ c ∈ cs, c = ' ' ∨ c = '\t' ∨ c = '\r' ∨ c = '\n'
  line : '\n' ∈ cs

private theorem mem_of_splitWhere {f : Char → Bool} {cs : List Char} {c : Char} (hc : c ∈ cs) :
    f c = true ∨ ∃ piece ∈ splitWhere f cs, c ∈ piece := by
  induction cs with
  | nil => cases hc
  | cons d cs ih =>
    rw [splitWhere]
    obtain ⟨piece, pieces, hpieces⟩ := List.exists_cons_of_ne_nil (splitWhere_ne_nil f cs)
    rw [hpieces] at ih ⊢
    dsimp only
    obtain rfl | hmem := List.mem_cons.1 hc
    · cases hd : f c with
      | true => exact .inl rfl
      | false => exact .inr ⟨c :: piece, by simp, List.mem_cons_self⟩
    · obtain hf | ⟨x, hx, hcx⟩ := ih hmem
      · exact .inl hf
      · refine .inr ?_
        split
        · exact ⟨x, List.mem_cons_of_mem _ hx, hcx⟩
        · obtain rfl | hx := List.mem_cons.1 hx
          · exact ⟨d :: x, List.mem_cons_self, List.mem_cons_of_mem _ hcx⟩
          · exact ⟨x, List.mem_cons_of_mem _ hx, hcx⟩

private theorem dropEndWhile_eq_nil_iff {f : Char → Bool} {cs : List Char} :
    dropEndWhile f cs = [] ↔ ∀ c ∈ cs, f c = true := by
  simp [dropEndWhile, List.dropWhile_eq_nil_iff]

private theorem blank_of_innerLines {lines : List (List Char)}
    (h : ∀ line ∈ innerLines lines, line = []) :
    ∀ line ∈ lines, ∀ c ∈ line, isLineBlank c = true := by
  induction lines with
  | nil =>
    intro line hline
    cases hline
  | cons line lines ih =>
    have hfirst (hline : line.dropWhile isLineBlank = []) : ∀ c ∈ line, isLineBlank c = true :=
      List.dropWhile_eq_nil_iff.1 hline
    cases lines with
    | nil => simpa using hfirst (h _ List.mem_cons_self)
    | cons next lines =>
      rw [innerLines] at h
      · obtain ⟨hline, hrest⟩ := List.forall_mem_cons.1 h
        refine List.forall_mem_cons.2 ⟨hfirst ?_, ih hrest⟩
        have hall := dropEndWhile_eq_nil_iff.1 hline
        cases hcut : line.dropWhile isLineBlank with
        | nil => rfl
        | cons c cs =>
          have hhead := of_dropWhile_eq_cons hcut
          rw [hall c (by rw [hcut]; exact List.mem_cons_self)] at hhead
          cases hhead
      · intro heq
        cases heq

private theorem intercalate_eq_nil {lines : List (List Char)}
    (h : List.intercalate [' '] (lines.filter fun line => !line.isEmpty) = []) :
    ∀ line ∈ lines, line = [] := by
  intro line hline
  by_contra hne
  have hmem : line ∈ lines.filter fun line => !line.isEmpty :=
    List.mem_filter.2 ⟨hline, by simpa using hne⟩
  generalize lines.filter (fun line => !line.isEmpty) = kept at h hmem
  match kept with
  | [] => cases hmem
  | [first] =>
    rw [List.intercalate_singleton] at h
    exact hne ((List.mem_singleton.1 hmem).trans h)
  | first :: next :: kept =>
    rw [List.intercalate_cons_cons] at h
    simp at h

/-- Only blanks around line feeds say nothing. -/
theorem isLineGap_of_runText {cs : List Char} (hne : cs ≠ []) (h : runText cs = []) :
    IsLineGap cs := by
  have hempty := intercalate_eq_nil h
  have hline : '\n' ∈ cs := by
    by_contra hmem
    have hnone : ∀ c ∈ cs, (c == '\n') = false := fun c hc =>
      beq_eq_false_iff_ne.2 fun heq => hmem (heq ▸ hc)
    rw [splitWhere_of_none hnone] at hempty
    exact hne (hempty cs List.mem_cons_self)
  refine ⟨fun c hc => ?_, hline⟩
  have hblank : ∀ line ∈ splitWhere (· == '\n') cs, ∀ c ∈ line, isLineBlank c = true := by
    generalize splitWhere (· == '\n') cs = lines at hempty
    match lines, hempty with
    | [], _ => exact fun line hline => nomatch hline
    | [line], hempty =>
      have hnil : line = [] := hempty line List.mem_cons_self
      simp [hnil]
    | line :: next :: lines, hempty =>
      obtain ⟨hfirst, hrest⟩ := List.forall_mem_cons.1 hempty
      exact List.forall_mem_cons.2
        ⟨dropEndWhile_eq_nil_iff.1 hfirst, blank_of_innerLines hrest⟩
  obtain hc | ⟨line, hmem, hc⟩ := mem_of_splitWhere (f := (· == '\n')) hc
  · exact .inr (.inr (.inr (beq_iff_eq.1 hc)))
  · have h := hblank line hmem c hc
    simp only [isLineBlank, Bool.or_eq_true, beq_iff_eq] at h
    tauto

/-! ### What the spans of a tree say -/

/-- The span of an element goes from an angle to an angle. -/
structure Head.At (p : Place) (head : Head) (q : Place) : Prop where
  text : ∃ inside, p.Over ('<' :: inside ++ ['>']) q
  span : head.span = p.spanTo q

/-- An element that is one tag. -/
structure LeafAt (p : Place) (head : Head) (q : Place) : Prop extends Head.At p head q where
  tag : TagAt p head.tag ⟨head.attributes, true⟩ q
  selfClosing : head.selfClosing = true

/-- An element from a place on to another, with its children between two tags. The first one can only
end at `first`, so that nothing of what follows passes for a part of it. -/
structure EnclosedAt (p : Place) (head : Head) (first last q : Place) : Prop
    extends Head.At p head q where
  opening : ∀ r, TagAt p head.tag ⟨head.attributes, false⟩ r ↔ r = first
  closing : ClosingAt last head.tag q
  selfClosing : head.selfClosing = false

/-- Nodes one behind the other. Only gaps of blanks and line feeds are left out. A text says
something, and has no angle and no brace in it. -/
inductive Tiles : Place → List Node → Place → Prop
  | nil (p : Place) : Tiles p [] p
  | gap {p q r : Place} {cs : List Char} {ns : List Node} (h : p.Over cs q) (hgap : IsLineGap cs)
      (rest : Tiles q ns r) : Tiles p ns r
  | text {p q r : Place} {cs : List Char} {ns : List Node} (h : p.Over cs q)
      (hcs : ∀ c ∈ cs, c ≠ '<' ∧ c ≠ '\x7b') (hne : runText cs ≠ []) (rest : Tiles q ns r) :
      Tiles p (.text (String.ofList (runText cs)) (p.spanTo q) :: ns) r
  | braced {p q r : Place} {b : Braced} {ns : List Node} (h : b.At p q) (rest : Tiles q ns r) :
      Tiles p (.braced b :: ns) r
  | leaf {p q r : Place} {head : Head} {ns : List Node} (h : LeafAt p head q)
      (rest : Tiles q ns r) : Tiles p (.element head [] :: ns) r
  | element {p first last q r : Place} {head : Head} {children ns : List Node}
      (h : EnclosedAt p head first last q) (inside : Tiles first children last)
      (rest : Tiles q ns r) : Tiles p (.element head children :: ns) r

/-- The root element, with all that is in it. -/
inductive Tree.At (p : Place) (t : Tree) (q : Place) : Prop
  | leaf (h : LeafAt p t.head q) (hchildren : t.children = [])
  | element {first last : Place} (h : EnclosedAt p t.head first last q)
      (inside : Tiles first t.children last)

theorem Tiles.leads {ns : List Node} (h : Tiles p ns q) : p.Leads q := by
  induction h with
  | nil p => exact .refl p
  | gap h _ _ ih => exact h.leads.trans ih
  | text h _ _ _ ih => exact h.leads.trans ih
  | braced h _ ih => exact h.text.leads.trans ih
  | leaf h _ ih =>
    obtain ⟨_, htext⟩ := h.text
    exact htext.leads.trans ih
  | element h _ _ _ ih =>
    obtain ⟨_, htext⟩ := h.text
    exact htext.leads.trans ih

theorem Tiles.append {ns ms : List Node} (h : Tiles p ns q) (h' : Tiles q ms r) :
    Tiles p (ns ++ ms) r := by
  induction h with
  | nil p => exact h'
  | gap h hgap _ ih => exact .gap h hgap (ih h')
  | text h hcs hne _ ih => exact .text h hcs hne (ih h')
  | braced h _ ih => exact .braced h (ih h')
  | leaf h _ ih => exact .leaf h (ih h')
  | element h inside _ _ ih => exact .element h inside (ih h')

theorem Tree.At.leads {t : Tree} (h : t.At p q) : p.Leads q := by
  cases h with
  | leaf h => exact h.text.elim fun _ htext => htext.leads
  | element h => exact h.text.elim fun _ htext => htext.leads

theorem TagAt.text_closing {tag tag' : String} {e : HeaderEnd} (h : TagAt p tag e q)
    (h' : q.Leads r) (h'' : ClosingAt r tag' s) : ∃ inside, p.Over ('<' :: inside ++ ['>']) s := by
  obtain ⟨opening, hopening⟩ := h.text
  obtain ⟨children, hchildren⟩ := h'
  obtain ⟨closing, hclosing⟩ := h''.text
  exact ⟨opening ++ ['>'] ++ children ++ closing,
    by simpa using (hopening.trans hchildren).trans hclosing⟩

/-! ### Turn by turn -/

/-- An open element: its tag, and its children so far up to a place. -/
def OpenElement.At (e : OpenElement) (q : Place) : Prop :=
  ∃ first, TagAt e.start e.tag ⟨e.attributes, false⟩ first ∧ Tiles first e.children.reverse q

theorem OpenElement.At.push {e : OpenElement} (h : e.At p) {n : Node} (hn : Tiles p [n] q) :
    (e.push n).At q := by
  obtain ⟨first, htag, htiles⟩ := h
  refine ⟨first, htag, ?_⟩
  simp only [OpenElement.push, List.reverse_cons]
  exact htiles.append hn

theorem OpenElement.At.gap {e : OpenElement} (h : e.At p) {cs : List Char} (hover : p.Over cs q)
    (hgap : IsLineGap cs) : e.At q := by
  obtain ⟨first, htag, htiles⟩ := h
  refine ⟨first, htag, ?_⟩
  simpa using htiles.append (.gap hover hgap (.nil q))

/-- The open elements, the innermost first: the children of each end where the one inside it
starts. -/
inductive OpenAt (root : Place) : List OpenElement → Place → Prop
  | outermost {e : OpenElement} {q : Place} (h : e.At q) (hstart : e.start = root) :
      OpenAt root [e] q
  | inside {e parent : OpenElement} {outer : List OpenElement} {q : Place} (h : e.At q)
      (houter : OpenAt root (parent :: outer) e.start) : OpenAt root (e :: parent :: outer) q

theorem OpenAt.top {root : Place} {e : OpenElement} {outer : List OpenElement}
    (h : OpenAt root (e :: outer) p) : e.At p := by
  cases h with
  | outermost h => exact h
  | inside h => exact h

/-- Whatever goes on in the innermost element, those around it stay as they are. -/
theorem OpenAt.replace {root : Place} {e e' : OpenElement} {outer : List OpenElement}
    (h : OpenAt root (e :: outer) p) (hstart : e'.start = e.start) (h' : e'.At q) :
    OpenAt root (e' :: outer) q := by
  cases h with
  | outermost _ hroot => exact .outermost h' (hstart.trans hroot)
  | inside _ houter => exact .inside h' (hstart ▸ houter)

theorem OpenElement.At.enclosed {e : OpenElement} (h : e.At p) (hclosing : ClosingAt p e.tag q) :
    ∃ first, EnclosedAt e.start (e.close q).head first p q ∧
      Tiles first (e.close q).children p := by
  obtain ⟨first, htag, htiles⟩ := h
  have hopening (r : Place) : TagAt e.start e.tag ⟨e.attributes, false⟩ r ↔ r = first :=
    ⟨fun h => h.stop_eq htag, fun h => h ▸ htag⟩
  exact ⟨first, ⟨⟨htag.text_closing htiles.leads hclosing, rfl⟩, hopening, hclosing, rfl⟩, htiles⟩

namespace Reading

/-- The open elements of a reading are those that the source has up to its place. -/
def At (root : Place) (r : Reading) : Prop := OpenAt root (r.top :: r.outer) r.place

end Reading

/-- What is left of a reading after a turn. -/
def Turn.At (root : Place) : Turn → Prop
  | .closed t stop => t.At root stop
  | .more r => r.At root

theorem exists_of_front_closing {cs : List Char} (h : front cs = .closing) :
    ∃ rest, cs = ['<', '/'] ++ rest := by
  unfold front at h
  split at h <;> first | exact ⟨_, rfl⟩ | cases h

theorem exists_of_front_opening {cs : List Char} (h : front cs = .opening) :
    ∃ rest, cs = ['<'] ++ rest := by
  unfold front at h
  split at h <;> first | exact ⟨_, rfl⟩ | cases h

theorem exists_of_front_braced {cs : List Char} (h : front cs = .braced) :
    ∃ rest, cs = '\x7b' :: rest := by
  unfold front at h
  split at h <;> first | exact ⟨_, rfl⟩ | cases h

namespace Reading

/-- A turn goes on to a later place. The open elements stay exact, and a closed one is. -/
theorem turn_ahead (r : Reading) (root : Place) :
    Ahead r.place (fun t => r.place.Leads t.place ∧ (r.At root → t.At root)) r.turn := by
  unfold turn
  split
  · exact .error_of_none rfl
  · next hfront =>
    obtain ⟨rest, hrest⟩ := exists_of_front_closing hfront
    have hslash : r.place.Over ['<', '/'] (r.place.skip 2) := Place.over_skip_of_eq hrest rfl
    have hread := (readClosing_ahead hslash.leads r.top.tag).and fun _ =>
      closingAt_of_readClosing hslash
    refine hread.map (.refl _) fun q hq => ?_
    obtain ⟨hq, hclosing⟩ := hq
    have hleads : r.place.Leads q := hslash.leads.trans hq
    obtain ⟨outer, top, p⟩ := r
    cases outer with
    | nil =>
      refine ⟨hleads, fun h => ?_⟩
      cases h with
      | outermost h hstart =>
        obtain ⟨first, henclosed, htiles⟩ := h.enclosed hclosing
        exact .element (hstart ▸ henclosed) htiles
    | cons parent outer =>
      refine ⟨hleads, fun h => ?_⟩
      cases h with
      | inside h houter =>
        obtain ⟨first, henclosed, htiles⟩ := h.enclosed hclosing
        exact houter.replace rfl (houter.top.push (.element henclosed htiles (.nil q)))
  · next hfront =>
    obtain ⟨rest, hrest⟩ := exists_of_front_opening hfront
    have hangle : r.place.Over ['<'] (r.place.skip 1) := Place.over_skip_of_eq hrest rfl
    have hread := (readHeader_ahead (r.place.skip 1)).and fun _ => headerAt_of_readHeader
    refine hread.map hangle.leads fun x hx => ?_
    obtain ⟨⟨tag, attributes, selfClosing⟩, q⟩ := x
    have htag : TagAt r.place tag ⟨attributes, selfClosing⟩ q := ⟨_, hangle, hx.2⟩
    have hleads : r.place.Leads q := hangle.leads.trans hx.1
    cases selfClosing with
    | true =>
      refine ⟨hleads, fun h => ?_⟩
      exact h.replace rfl (h.top.push (.leaf ⟨⟨htag.text, rfl⟩, htag, rfl⟩ (.nil q)))
    | false => exact ⟨hleads, fun h => .inside ⟨q, htag, .nil q⟩ h⟩
  · next hfront =>
    obtain ⟨rest, hrest⟩ := exists_of_front_braced hfront
    refine (readBraced_at hrest).map (.refl _) fun x hx => ⟨hx.text.leads, fun h => ?_⟩
    exact h.replace rfl (h.top.push (.braced hx (.nil _)))
  · next hfront =>
    obtain ⟨c, rest, hrest, hc⟩ := front_eq_text_iff.1 hfront
    have hover := r.place.over_skip (runSize (fun c => !isTextEnd c) r.place.rest)
    rw [take_runSize] at hover
    refine ⟨hover.leads, fun h => h.replace ?_ ?_⟩
    · dsimp only
      split <;> rfl
    dsimp only
    split
    · next hempty =>
      refine h.top.gap hover (isLineGap_of_runText ?_ (List.isEmpty_iff.1 hempty))
      rw [hrest, List.takeWhile_cons, hc]
      exact List.cons_ne_nil _ _
    · next hne =>
      refine h.top.push (.text hover (fun d hd => ?_) (fun hnil => ?_) (.nil _))
      · have hkeep := List.mem_takeWhile_imp hd
        simpa [isTextEnd] using hkeep
      · exact hne (List.isEmpty_iff.2 hnil)

theorem read_ahead (r : Reading) (root : Place) :
    Ahead r.place (fun x => r.place.Leads x.2 ∧ (r.At root → x.1.At root x.2)) r.read := by
  induction r using Reading.induction with
  | step r ih =>
    have hturn := r.turn_ahead root
    rw [read_eq]
    cases ht : r.turn with
    | error e => exact hturn.of_error ht (.refl _)
    | ok t =>
      obtain ⟨hleads, hat⟩ := hturn.of_ok ht
      cases t with
      | closed t stop => exact ⟨hleads, hat⟩
      | more r' =>
        refine (ih r' ht).imp hleads fun x hx => ?_
        exact ⟨hleads.trans hx.1, fun h => hx.2 (hat h)⟩

end Reading

/-! ### Documents -/

/-- The tree covers the text from the angle on that stands next. -/
theorem readElement_ahead (p : Place) :
    Ahead p (fun x => p.Leads x.2 ∧
      ∀ a b, peek p = .ok (some ⟨.symbol .leftAngle, a, b⟩) → x.1.At a x.2) (readElement p) := by
  have hpeek := peekWanted_ahead .element p
  unfold readElement
  split
  · next hx => exact hpeek.of_error hx (.refl p)
  · next x hx =>
    have hstands := hpeek.of_ok hx
    have hheader := readHeader_ahead x.stop
    split
    · next hh => exact hheader.of_error hh hstands.leads_stop
    · next tag header q hh =>
      obtain ⟨attributes, selfClosing⟩ := header
      have hq : p.Leads q := hstands.leads_stop.trans (hheader.of_ok hh)
      have htag {a b : Place} (h : peek p = .ok (some ⟨.symbol .leftAngle, a, b⟩)) :
          x.start = a ∧ TagAt a tag ⟨attributes, selfClosing⟩ q := by
        cases (peekWanted_eq_ok_iff.1 hx).symm.trans h
        exact ⟨rfl, b, hstands.symbol .leftAngle rfl, headerAt_of_readHeader hh⟩
      cases selfClosing with
      | true =>
        refine ⟨hq, fun a b h => ?_⟩
        obtain ⟨rfl, h⟩ := htag h
        exact .leaf ⟨⟨h.text, rfl⟩, h, rfl⟩ rfl
      | false =>
        have hread := Reading.read_ahead ⟨[], ⟨x.start, tag, attributes, []⟩, q⟩ x.start
        refine hread.imp hq fun y hy => ⟨hq.trans hy.1, fun a b h => ?_⟩
        obtain ⟨rfl, h⟩ := htag h
        exact hy.2 (.outermost ⟨q, h, .nil q⟩ rfl)

theorem leads_peekLenient {x : Lexed Token} (h : peekLenient p = some x) :
    p.Leads x.start ∧ x.start.Leads x.stop := by
  fun_induction peekLenient p with
  | case1 => cases h
  | case2 p y hy t ht =>
    cases h
    obtain ⟨hstart, hstop⟩ := start_lexFrom hy
    exact ⟨hstart ▸ leads_nextToken p, hstop⟩
  | case3 p y hy ht ih =>
    obtain ⟨hstart, hstop⟩ := ih h
    have hnext : p.Leads (y.start.skip 1) :=
      ((start_lexFrom hy).1 ▸ leads_nextToken p).trans (Place.leads_skip _ 1)
    exact ⟨hnext.trans hstart, hstop⟩

theorem skipToReturn_ahead (p : Place) : Ahead p (fun q => p.Leads q) (skipToReturn p) := by
  have hlenient {p : Place} {x : Lexed Token} (h : peekLenient p = some x) : p.Leads x.stop :=
    (leads_peekLenient h).1.trans (leads_peekLenient h).2
  fun_induction skipToReturn p with
  | case1 => exact .error_of_none rfl
  | case2 p x hx _ e he => exact (peek_ahead x.stop).of_error he (hlenient hx)
  | case3 p x hx => exact hlenient hx
  | case4 p x hx => exact hlenient hx
  | case5 p x hx _ _ _ _ _ ih => exact ih.imp (hlenient hx) fun _ h => (hlenient hx).trans h
  | case6 p x hx _ ih => exact ih.imp (hlenient hx) fun _ h => (hlenient hx).trans h

theorem readRootElement_ahead (p : Place) :
    Ahead p (fun x => p.Leads x.2 ∧ ∃ root, p.Leads root ∧ x.1.At root x.2)
      (readRootElement p) := by
  have hpeek := peek_ahead p
  unfold readRootElement
  split
  · next hx => exact hpeek.of_error hx (.refl p)
  · next a b hx =>
    have hstart : a = nextToken p := (hpeek.of_ok hx _ rfl).start
    refine (readElement_ahead p).imp (.refl p) fun x h => ⟨h.1, a, ?_, h.2 a b hx⟩
    exact hstart ▸ leads_nextToken p
  · next x _ hx => exact (hpeek.of_ok hx x rfl).error rfl
  · have hend : p.Leads (p.skip p.rest.length) := Place.leads_skip p _
    refine .error_of_span hend (.refl _) ?_
    simp [ReadError.span?, Place.spanTo, Place.skip, Place.endOffset]

theorem readRoot_ahead (p : Place) :
    Ahead p (fun t => ∃ root q, p.Leads root ∧ t.At root q) (readRoot p) := by
  unfold readRoot
  split
  · next hx => exact (peek_ahead p).of_error hx (.refl p)
  · next q hx =>
    have hq : p.Leads q := ((peek_ahead p).of_ok hx _ rfl).leads_stop
    have hroot := readRootElement_ahead q
    split
    · next hr => exact hroot.of_error hr hq
    · next t r hr =>
      obtain ⟨hleads, root, hstart, hat⟩ := hroot.of_ok hr
      exact (expect_ahead .rightParen r).map (hq.trans hleads) fun _ _ =>
        ⟨root, r, hq.trans hstart, hat⟩
  · refine (readRootElement_ahead p).map (.refl p) fun x h => ?_
    obtain ⟨-, root, hstart, hat⟩ := h
    exact ⟨root, x.2, hstart, hat⟩

theorem readTree_ahead (source : String) :
    Ahead (Place.start source.toList) (fun t => ∃ root q, root.In source ∧ t.At root q)
      (readTree source) := by
  have hgap := leads_skipGap (Place.start source.toList)
  rw [readTree_eq]
  dsimp only
  split
  · refine (readRoot_ahead _).imp hgap fun t h => ?_
    obtain ⟨root, q, hstart, hat⟩ := h
    exact ⟨root, q, hgap.trans hstart, hat⟩
  · have hskip := skipToReturn_ahead (skipGap (Place.start source.toList))
    cases hx : skipToReturn (skipGap (Place.start source.toList)) with
    | error e => exact hskip.of_error hx hgap
    | ok p =>
      have hp := hgap.trans (hskip.of_ok hx)
      refine (readRoot_ahead p).imp hp fun t h => ?_
      obtain ⟨root, q, hstart, hat⟩ := h
      exact ⟨root, q, hp.trans hstart, hat⟩

/-! ### All readers -/

/-- The functions that read on from a place. -/
inductive Reader where
  | gap
  | token
  | tokenOrNothing
  | wanted (wanted : Wanted)
  | symbol (s : Symbol)
  | name (wanted : Wanted)
  | dotted
  | tagName
  | attributeName
  | quoted (quote : Char)
  | braced
  | attributeValue
  | oneAttribute
  | attributes
  | header
  | closing (tag : String)
  | content (outer : List OpenElement) (top : OpenElement)
  | element
  | lenient
  | toReturn
  | rootElement

/-- Where a reader stops that starts at a place; one that finds nothing stays there. -/
def Reader.run (p : Place) : Reader → Except ReadError Place
  | gap => .ok (skipGap p)
  | token => .ok ((lexFrom p).elim p (·.stop))
  | tokenOrNothing => (peek p).map fun o => o.elim p (·.stop)
  | wanted w => (peekWanted w p).map (·.stop)
  | symbol s => expect s p
  | name w => (readName w p).map (·.2)
  | dotted => (readDotted p).map (·.2)
  | tagName => (readTagName p).map (·.2)
  | attributeName => (readAttributeName p).map (·.2)
  | quoted quote => (readQuotedValue quote p).map (·.2)
  | braced => (readBraced p).map (·.2)
  | attributeValue => (readAttributeValue p).map (·.2)
  | oneAttribute => peekWanted .attributeOrEnd p >>= fun x => (readAttribute x.start p).map (·.2)
  | attributes => (readAttributes p).map (·.2)
  | header => (readHeader p).map (·.2)
  | closing tag => readClosing p tag (p.skip 2)
  | content outer top => (readContent outer top p).map (·.2)
  | element => (readElement p).map (·.2)
  | lenient => .ok ((peekLenient p).elim p (·.stop))
  | toReturn => skipToReturn p
  | rootElement => (readRootElement p).map (·.2)

theorem Reader.run_ahead (r : Reader) (p : Place) : Ahead p (fun q => p.Leads q) (r.run p) := by
  have hbehind {q : Place} (h : (nextToken p).Leads q) : p.Leads q := (leads_nextToken p).trans h
  cases r with
  | gap => exact leads_skipGap p
  | token =>
    unfold run
    cases hx : lexFrom p with
    | none => exact .refl p
    | some x =>
      obtain ⟨hstart, hstop⟩ := start_lexFrom hx
      exact hbehind (hstart ▸ hstop)
  | tokenOrNothing =>
    refine (peek_ahead p).map (.refl p) fun o ho => ?_
    cases o with
    | none => exact .refl p
    | some x => exact (ho x rfl).leads_stop
  | wanted w => exact (peekWanted_ahead w p).map (.refl p) fun _ h => h.leads_stop
  | symbol s => exact (expect_ahead s p).imp (.refl p) fun _ h => hbehind h.leads
  | name w => exact (readName_ahead w p).map (.refl p) fun _ h => hbehind h
  | dotted => exact (readDotted_ahead p).map (.refl p) fun _ h => h
  | tagName => exact (readTagName_ahead p).map (.refl p) fun _ h => hbehind h
  | attributeName => exact (readAttributeName_ahead p).map (.refl p) fun _ h => hbehind h
  | quoted quote => exact (readQuotedValue_ahead quote p).map (.refl p) fun _ h => h
  | braced => exact (readBraced_ahead p).map (.refl p) fun _ h => h
  | attributeValue => exact (readAttributeValue_ahead p).map (.refl p) fun _ h => h
  | oneAttribute =>
    have hpeek := peekWanted_ahead .attributeOrEnd p
    unfold run
    cases hx : peekWanted .attributeOrEnd p with
    | error e => exact hpeek.of_error hx (.refl p)
    | ok x =>
      exact (readAttribute_ahead x.start p).map (.refl p) fun _ h => hbehind h
  | attributes => exact (readAttributes_ahead p).map (.refl p) fun _ h => h
  | header => exact (readHeader_ahead p).map (.refl p) fun _ h => h
  | closing tag =>
    have hskip := Place.leads_skip p 2
    exact (readClosing_ahead hskip tag).imp (.refl p) fun _ h => hskip.trans h
  | content outer top =>
    exact (Reading.read_ahead ⟨outer, top, p⟩ p).map (.refl p) fun _ h => h.1
  | element => exact (readElement_ahead p).map (.refl p) fun _ h => h.1
  | lenient =>
    unfold run
    cases hx : peekLenient p with
    | none => exact .refl p
    | some x =>
      obtain ⟨hstart, hstop⟩ := leads_peekLenient hx
      exact hstart.trans hstop
  | toReturn => exact skipToReturn_ahead p
  | rootElement => exact (readRootElement_ahead p).map (.refl p) fun _ h => h.1

/-- Every source is read or refused. The counts that parts of it are cut out by lie within the text,
and no brace is closed that is not open. Each reader goes from a place of the source to another one,
where it can be cut, and so do the spans of errors. A tree that is read covers the source from an
angle to an angle, as `Tree.At` says. -/
theorem readTree_exact (source : String) :
    (∀ (s : Scanner) (cs : List Char) (n : Nat), s.count? cs = some n → n ≤ cs.length) ∧
      (∀ cs, (braceWalk 1 cs).2 = braceSize? 0 cs ∧ ∀ depth ∈ (braceWalk 1 cs).1, 0 ≤ depth) ∧
      (∀ (r : Reader) (p : Place), p.In source →
        match r.run p with
        | .ok q => q.In source ∧ String.Pos.Raw.IsValid source ⟨q.offset⟩
        | .error e => ∀ s, e.span? = some s → s.FitsIn source) ∧
      match readTree source with
      | .ok t => ∃ root stop, root.In source ∧ stop.In source ∧ t.At root stop
      | .error e => ∀ s, e.span? = some s → s.FitsIn source := by
  have herror {α : Type} {p : Place} {R : α → Prop} {x : Except ReadError α} {e : ReadError}
      (hp : p.In source) (h : Ahead p R x) (hx : x = .error e) (s : Span)
      (hs : e.span? = some s) : s.FitsIn source := by
    subst hx
    obtain ⟨a, b, ha, hab, rfl⟩ := h s hs
    exact (hp.leads ha).fitsIn hab
  refine ⟨fun s cs n h => s.le_length h, braceWalk_eq 0, fun r p hp => ?_, ?_⟩
  · have hrun := r.run_ahead p
    cases hx : r.run p with
    | error e => exact herror hp hrun hx
    | ok q =>
      have hq := hp.leads (hrun.of_ok hx)
      exact ⟨hq, hq.isValid⟩
  · have hread := readTree_ahead source
    cases hx : readTree source with
    | error e => exact herror (Place.start_in source) hread hx
    | ok t =>
      obtain ⟨root, stop, hroot, hat⟩ := hread.of_ok hx
      exact ⟨root, stop, hroot, hroot.leads hat.leads, hat⟩

end DesignSync.Markup

import DesignSync.Proofs.Markup.Header
import DesignSync.Proofs.Text.Split

/-!
What stands between two tags reads back: braced parts, a line of text, and elements. Every part has
a line of its own, and the blanks around it say nothing.
-/

namespace DesignSync.Markup

open Text

/-! ### Runs of text -/

/-- Spaces. -/
def spaces (n : Nat) : List Char := List.replicate n ' '

theorem toList_indent (depth : Nat) : (indent depth).toList = spaces (2 * depth) :=
  String.toList_ofList

private theorem eq_space_of_mem {n : Nat} {c : Char} (h : c ∈ spaces n) : c = ' ' :=
  (List.mem_replicate.1 h).2

private theorem dropWhile_spaces (n : Nat) (cs : List Char) :
    (spaces n ++ cs).dropWhile isLineBlank = cs.dropWhile isLineBlank := by
  rw [List.dropWhile_append_of_pos]
  intro c hc
  rw [eq_space_of_mem hc]
  rfl

private theorem splitWhere_line (cs : List Char) :
    splitWhere (· == '\n') ('\n' :: cs) = [] :: splitWhere (· == '\n') cs :=
  splitWhere_append rfl [] cs

private theorem splitWhere_spaces (n : Nat) :
    splitWhere (· == '\n') (spaces n) = [spaces n] := by
  refine splitWhere_of_none fun c hc => ?_
  rw [eq_space_of_mem hc]
  rfl

private theorem dropWhile_all_spaces (n : Nat) : (spaces n).dropWhile isLineBlank = [] := by
  have h := dropWhile_spaces n []
  rwa [List.append_nil] at h

/-- The blanks at the end of a line and in front of the next one say nothing. -/
theorem runText_blank (n : Nat) : runText ('\n' :: spaces n) = [] := by
  unfold runText
  rw [splitWhere_line, splitWhere_spaces]
  simp [runLines, innerLines, dropEndWhile, dropWhile_all_spaces]

/-- A text that can stand between two tags as it is. -/
theorem isLine_of_needsQuotes {s : String} (h : needsQuotes s = false) :
    s.toList ≠ [] ∧ IsTrimmed s.toList ∧ ∀ c ∈ s.toList, c ≠ '\n' ∧ isTextEnd c = false := by
  simp only [needsQuotes, Bool.or_eq_false_iff, List.isEmpty_eq_false_iff, bne_eq_false_iff_eq,
    List.any_eq_false, Bool.or_eq_true, beq_iff_eq, not_or] at h
  obtain ⟨⟨hne, htrim⟩, hall⟩ := h
  refine ⟨hne, trim_eq_self_iff.1 htrim, fun c hc => ?_⟩
  obtain ⟨⟨⟨⟨⟨hopen, _⟩, hangle⟩, _⟩, hline⟩, _⟩ := hall c hc
  exact ⟨hline, by simp [isTextEnd, hopen, hangle]⟩

private theorem isLineBlank_of_not_isBlank {c : Char} (h : isBlank c = false) :
    isLineBlank c = false := by
  have hne (x : Char) (hx : isBlank x = true) : c ≠ x := by
    rintro rfl
    rw [h] at hx
    cases hx
  simp [isLineBlank, hne ' ' (by decide), hne '\t' (by decide), hne '\r' (by decide)]

/-- A line of text between blanks is read as it is. -/
theorem runText_line {s : String} (h : needsQuotes s = false) (m n : Nat) :
    runText ('\n' :: (spaces m ++ s.toList ++ '\n' :: spaces n)) = s.toList := by
  obtain ⟨hne, ⟨hhead, hlast⟩, hline⟩ := isLine_of_needsQuotes h
  have hbody : ∀ c ∈ spaces m ++ s.toList, (c == '\n') = false := by
    intro c hc
    rcases List.mem_append.1 hc with hc | hc
    · rw [eq_space_of_mem hc]
      rfl
    · simpa using (hline c hc).1
  have hstart : (spaces m ++ s.toList).dropWhile isLineBlank = s.toList := by
    rw [dropWhile_spaces, dropWhile_eq_self]
    exact fun c hc => isLineBlank_of_not_isBlank (hhead c hc)
  have hend : dropEndWhile isLineBlank s.toList = s.toList :=
    dropEndWhile_eq_self fun c hc => isLineBlank_of_not_isBlank (hlast c hc)
  have hnil : dropEndWhile isLineBlank [] = [] := rfl
  unfold runText
  rw [splitWhere_line, splitWhere_append rfl, splitWhere_of_none hbody, splitWhere_spaces]
  simp [runLines, innerLines, hstart, hend, hnil, dropWhile_all_spaces, hne]

/-! ### Steps of reading -/

/-- An open element with more nodes behind those it has. -/
def OpenElement.pushAll (e : OpenElement) (nodes : List Node) : OpenElement :=
  { e with children := nodes.reverse ++ e.children }

/-- Between two places, some nodes are read into whichever element is open. -/
def Yields (p : Place) (nodes : List Node) (q : Place) : Prop :=
  ∀ outer top, readContent outer top p = readContent outer (top.pushAll nodes) q

variable {p q r : Place} {rest : List Char}

theorem Yields.nil (p : Place) : Yields p [] p := fun _ _ => rfl

theorem Yields.append {ms ns : List Node} (h : Yields p ms q) (h' : Yields q ns r) :
    Yields p (ms ++ ns) r := by
  intro outer top
  rw [h, h']
  simp [OpenElement.pushAll]

/-- A text that starts with a tag or a braced part. -/
def StartsPart (cs : List Char) : Prop := ∃ c ∈ cs.head?, isTextEnd c = true

theorem runSize_text {body cs : List Char} (hbody : ∀ c ∈ body, isTextEnd c = false)
    (hcs : StartsPart cs) : runSize (fun c => !isTextEnd c) (body ++ cs) = body.length := by
  obtain ⟨c, hc, hend⟩ := hcs
  cases cs with
  | nil => cases hc
  | cons d cs =>
    obtain rfl : d = c := Option.some.inj hc
    rw [runSize_append (fun c hc => by simpa using hbody c hc), runSize_eq_zero (by simpa using hend),
      Nat.add_zero]

/-- A line feed starts a text, which lasts up to the next tag or braced part. -/
theorem yields_text {body cs : List Char} (hbody : ∀ c ∈ body, isTextEnd c = false)
    (hcs : StartsPart cs) (hp : p.rest = '\n' :: (body ++ cs)) :
    ∃ span q, q.rest = cs ∧ Yields p
      (if (runText ('\n' :: body)).isEmpty then []
        else [.text (String.ofList (runText ('\n' :: body))) span]) q := by
  refine ⟨p.spanTo (p.skip (1 + body.length)), p.skip (1 + body.length), ?_, fun outer top => ?_⟩
  · simp only [Place.skip, hp, Nat.add_comm 1, List.drop_succ_cons, List.drop_left]
  · rw [readContent.eq_def]
    split
    · next hnil => rw [hp] at hnil; cases hnil
    · next heq => rw [hp] at heq; cases heq
    · next heq => rw [hp] at heq; cases heq
    · next heq => rw [hp] at heq; cases heq
    · next c tail _ _ _ heq =>
      rw [hp] at heq
      obtain ⟨rfl, rfl⟩ := List.cons.inj heq
      simp only [runSize_text hbody hcs, Nat.add_comm 1, List.take_succ_cons, List.take_left]
      split <;> rfl

theorem yields_braced {s : String} (hs : Captured s) (hp : p.rest = (braced s).toList ++ rest) :
    ∃ span q, q.rest = rest ∧ Yields p [.braced ⟨s, Expression.classify s, span⟩] q := by
  obtain ⟨span, q, hread, hq⟩ := readBraced_of_captured hs hp
  refine ⟨span, q, hq, fun outer top => ?_⟩
  have hp' : p.rest = '\x7b' :: (s.toList ++ '\x7d' :: rest) := by
    rw [hp, toList_braced]
    simp
  rw [readContent.eq_def]
  split
  · next hnil => rw [hp'] at hnil; cases hnil
  · next heq => rw [hp'] at heq; cases heq
  · next heq => rw [hp'] at heq; cases heq
  · split
    · next e he => rw [hread] at he; cases he
    · next b r hb =>
      rw [hread] at hb
      cases hb
      rfl
  · next c tail _ _ hbrace heq =>
    rw [hp'] at heq
    exact absurd (List.cons.inj heq).1.symm (by grind)

theorem head?_of_isTagName {tag : String} (h : IsTagName tag) :
    ∃ c ∈ tag.toList.head?, isNameStart c = true := by
  obtain ⟨names, hne, hnames, rfl⟩ := h
  obtain ⟨name, names, rfl⟩ := List.exists_cons_of_ne_nil hne
  have hname := hnames name List.mem_cons_self
  rw [intercalate_eq_dotted, String.toList_append]
  cases hcs : name.toList with
  | nil => rw [hcs] at hname; cases hname
  | cons c cs =>
    rw [hcs, isIdentifier, Bool.and_eq_true] at hname
    exact ⟨c, by simp, hname.1⟩

private theorem head?_headerSource {tag : String} (htag : IsTagName tag)
    (as : List (String × Said)) (selfClosing : Bool) (rest : List Char) :
    ∀ cs, (headerSource tag as selfClosing).toList ++ rest ≠ '/' :: cs := by
  obtain ⟨c, hc, hstart⟩ := head?_of_isTagName htag
  intro cs heq
  cases htoList : tag.toList with
  | nil => rw [htoList] at hc; cases hc
  | cons d ds =>
    rw [htoList] at hc
    obtain rfl : d = c := Option.some.inj hc
    rw [headerSource, String.toList_append, String.toList_append, htoList] at heq
    rw [(List.cons.inj heq).1] at hstart
    exact absurd hstart (by decide)

/-- What is read for a tag header behind its opening angle. -/
private theorem readContent_header {tag : String} {as : List (String × Said)} {selfClosing : Bool}
    (htag : IsTagName tag) {header : HeaderEnd}
    (hp : p.rest = '<' :: ((headerSource tag as selfClosing).toList ++ rest))
    (hread : readHeader (p.skip 1) = .ok ((tag, header), q)) (outer : List OpenElement)
    (top : OpenElement) : readContent outer top p =
      if header.selfClosing then
        readContent outer (top.push (.element ⟨tag, header.attributes, true, p.spanTo q⟩ [])) q
      else readContent (top :: outer) ⟨p, tag, header.attributes, []⟩ q := by
  rw [readContent.eq_def]
  split
  · next hnil => rw [hp] at hnil; cases hnil
  · next cs heq =>
    rw [hp] at heq
    exact absurd (List.cons.inj heq).2 (head?_headerSource htag as selfClosing rest cs)
  · split
    · next e he => rw [hread] at he; cases he
    · next hr =>
      rw [hread] at hr
      cases hr
      rfl
  · next heq => rw [hp] at heq; cases heq
  · next c tail hangle _ heq =>
    rw [hp] at heq
    exact absurd (List.cons.inj heq).1.symm (by grind)

variable {tag : String} {as : List (String × Said)}

/-- An element that closes itself. -/
theorem yields_selfClosing (htag : IsTagName tag) (hnames : ∀ a ∈ as, IsReadableName a.1)
    (hsaid : ∀ a ∈ as, a.2.IsReadable)
    (hp : p.rest = '<' :: ((headerSource tag as true).toList ++ rest)) :
    ∃ bs span q, q.rest = rest ∧ List.Forall₂ SaysAttribute as bs ∧
      Yields p [.element ⟨tag, bs, true, span⟩ []] q := by
  have hskip : (p.skip 1).rest = (headerSource tag as true).toList ++ rest := by
    simp [Place.skip, hp]
  obtain ⟨bs, q, hread, hsays, hq⟩ := readHeader_of_source true htag hnames hsaid hskip
  exact ⟨bs, p.spanTo q, q, hq, hsays, fun outer top => readContent_header htag hp hread outer top⟩

/-- The closing tag of the element on top. Reading goes on in the one around it, if there is any. -/
theorem readContent_closing (htag : IsTagName tag)
    (hp : p.rest = '<' :: '/' :: (tag.toList ++ '>' :: rest)) : ∃ q, q.rest = rest ∧
      ∀ top : OpenElement, top.tag = tag →
        readContent [] top p = .ok (top.close q, q) ∧
        ∀ parent outer, readContent (parent :: outer) top p = readContent outer
          (parent.push (.element (top.close q).head (top.close q).children)) q := by
  have hskip : (p.skip 2).rest = tag.toList ++ '>' :: rest := by
    simp [Place.skip, hp]
  obtain ⟨q, hread, hq⟩ := readClosing_of_tag p htag hskip
  refine ⟨q, hq, fun top htop => ?_⟩
  have hread' : readClosing p top.tag (p.skip 2) = .ok q := htop ▸ hread
  constructor
  · rw [readContent.eq_def]
    grind
  · intro parent outer
    rw [readContent.eq_def]
    grind

/-- An element around what is read up to its closing tag. -/
theorem yields_element (htag : IsTagName tag) (hnames : ∀ a ∈ as, IsReadableName a.1)
    (hsaid : ∀ a ∈ as, a.2.IsReadable) {P : List Node → Prop} {inner : List Char}
    (hp : p.rest = '<' :: ((headerSource tag as false).toList ++ inner))
    (hinner : ∀ q : Place, q.rest = inner → ∃ nodes r,
      r.rest = '<' :: '/' :: (tag.toList ++ '>' :: rest) ∧ Yields q nodes r ∧ P nodes) :
    ∃ bs span nodes q, q.rest = rest ∧ List.Forall₂ SaysAttribute as bs ∧ P nodes ∧
      Yields p [.element ⟨tag, bs, false, span⟩ nodes] q := by
  have hskip : (p.skip 1).rest = (headerSource tag as false).toList ++ inner := by
    simp [Place.skip, hp]
  obtain ⟨bs, q, hread, hsays, hq⟩ := readHeader_of_source false htag hnames hsaid hskip
  obtain ⟨nodes, r, hr, hnodes, hP⟩ := hinner q hq
  obtain ⟨s, hs, hclose⟩ := readContent_closing htag hr
  refine ⟨bs, p.spanTo s, nodes, s, hs, hsays, hP, fun outer top => ?_⟩
  rw [readContent_header htag hp hread outer top]
  simp only [Bool.false_eq_true, if_false]
  rw [hnodes, (hclose _ rfl).2]
  simp [OpenElement.pushAll, OpenElement.close, OpenElement.push]

end DesignSync.Markup

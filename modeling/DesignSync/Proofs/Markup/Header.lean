import Mathlib.Data.List.Forall2
import DesignSync.Proofs.Markup.Entity
import DesignSync.Proofs.Markup.StyleText

/-!
Tag headers read back: a tag name, the attributes behind it, and the sign that ends the header. What
a reader gives is stated by the text that it leaves, since places also count bytes.
-/

namespace DesignSync.Markup

open Text

variable {p : Place} {g cs rest : List Char} {t : Token}

/-! ### Tokens -/

theorem peek_of_lexes (hp : p.rest = g ++ cs) (hgap : IsGap g) (h : Lexes cs t rest) :
    ∃ start stop, peek p = .ok (some ⟨t, start, stop⟩) ∧ start.rest = cs ∧ stop.rest = rest := by
  obtain ⟨start, stop, hlex, hstart, hstop⟩ := lexFrom_of_lexes hp hgap h
  exact ⟨start, stop, by rw [peek, hlex], hstart, hstop⟩

theorem peekWanted_of_lexes (wanted : Wanted) (hp : p.rest = g ++ cs) (hgap : IsGap g)
    (h : Lexes cs t rest) : ∃ start stop,
      peekWanted wanted p = .ok ⟨t, start, stop⟩ ∧ start.rest = cs ∧ stop.rest = rest := by
  obtain ⟨start, stop, hpeek, hstart, hstop⟩ := peek_of_lexes hp hgap h
  exact ⟨start, stop, by rw [peekWanted, hpeek], hstart, hstop⟩

theorem expect_of_lexes {s : Symbol} (hp : p.rest = g ++ cs) (hgap : IsGap g)
    (h : Lexes cs (.symbol s) rest) : ∃ q, expect s p = .ok q ∧ q.rest = rest := by
  obtain ⟨start, stop, hpeek, -, hstop⟩ := peekWanted_of_lexes (.symbol s) hp hgap h
  exact ⟨stop, by rw [expect, hpeek]; exact if_pos rfl, hstop⟩

private theorem endsWord_cons {c : Char} (hc : isNameChar c = false ∧ c ≠ '-') (cs : List Char) :
    EndsWord (c :: cs) :=
  fun _ hd => Option.some.inj hd ▸ hc

theorem readName_of_identifier (wanted : Wanted) {name : String}
    (hname : isIdentifier name.toList = true) (hp : p.rest = g ++ (name.toList ++ rest))
    (hgap : IsGap g) (hrest : EndsWord rest) :
    ∃ q, readName wanted p = .ok (name, q) ∧ q.rest = rest := by
  have hlexes := Lexes.word hname hrest
  rw [String.ofList_toList] at hlexes
  obtain ⟨start, stop, hpeek, -, hstop⟩ := peekWanted_of_lexes wanted hp hgap hlexes
  refine ⟨stop, ?_, hstop⟩
  rw [readName, hpeek]
  simp only [name?_wordToken]

/-! ### Tag names -/

/-- A tag name: identifiers joined by points. -/
def IsTagName (tag : String) : Prop :=
  ∃ names : List String, names ≠ [] ∧ (∀ name ∈ names, isIdentifier name.toList = true) ∧
    tag = String.intercalate "." names

/-- A text that goes on with some token other than a point, and does not prolong a word. -/
def EndsTag (rest : List Char) : Prop :=
  EndsWord rest ∧ ∃ g cs t more, IsGap g ∧ rest = g ++ cs ∧ Lexes cs t more ∧ t ≠ .symbol .dot

theorem readDotted_eq (p : Place) : readDotted p =
    match peek p with
    | .error e => .error e
    | .ok (some ⟨.symbol .dot, _, q⟩) =>
      match readName .tagName q with
      | .error e => .error e
      | .ok (name, r) => (readDotted r).map fun (more, r) => ("." ++ name ++ more, r)
    | .ok _ => .ok ("", p) := by
  conv => lhs; rw [readDotted.eq_def]
  grind

theorem readDotted_end (hrest : EndsTag rest) (hp : p.rest = rest) :
    readDotted p = .ok ("", p) := by
  obtain ⟨-, g, cs, t, more, hgap, rfl, hlexes, hdot⟩ := hrest
  obtain ⟨start, stop, hpeek, -, -⟩ := peek_of_lexes hp hgap hlexes
  rw [readDotted_eq, hpeek]
  split
  · next heq => cases heq
  · next heq =>
    cases heq
    exact absurd rfl hdot
  · rfl

theorem readDotted_cons {name more : String} (hname : isIdentifier name.toList = true)
    (hends : EndsWord (more.toList ++ rest)) (hp : p.rest = '.' :: (name.toList ++ (more.toList ++ rest)))
    (hmore : ∀ q : Place, q.rest = more.toList ++ rest →
      ∃ r, readDotted q = .ok (more, r) ∧ r.rest = rest) :
    ∃ q, readDotted p = .ok ("." ++ name ++ more, q) ∧ q.rest = rest := by
  obtain ⟨start, stop, hpeek, -, hstop⟩ :=
    peek_of_lexes (g := []) hp (by simp [IsGap]) (Lexes.symbol (s := .dot) (by decide) _)
  obtain ⟨q, hread, hq⟩ :=
    readName_of_identifier (g := []) .tagName hname hstop (by simp [IsGap]) hends
  obtain ⟨r, hdotted, hr⟩ := hmore q hq
  refine ⟨r, ?_, hr⟩
  rw [readDotted_eq, hpeek]
  simp only [hread, hdotted]
  rfl

/-- The names behind the first one of a tag, each behind a point. -/
def dotted (names : List String) : String := String.join (names.map ("." ++ ·))

theorem intercalate_eq_dotted (name : String) (names : List String) :
    String.intercalate "." (name :: names) = name ++ dotted names := by
  induction names generalizing name with
  | nil => simp [dotted]
  | cons more names ih =>
    rw [String.intercalate_cons_cons, ih]
    simp [dotted, String.append_assoc]

private theorem endsWord_dotted (names : List String) (hrest : EndsWord rest) :
    EndsWord ((dotted names).toList ++ rest) := by
  cases names with
  | nil => simpa [dotted] using hrest
  | cons name names =>
    intro c hc
    have hdot : '.' = c := by simpa [dotted] using hc
    rw [← hdot]
    decide

theorem readDotted_of_names {names : List String}
    (hnames : ∀ name ∈ names, isIdentifier name.toList = true) (hrest : EndsTag rest)
    (hp : p.rest = (dotted names).toList ++ rest) :
    ∃ q, readDotted p = .ok (dotted names, q) ∧ q.rest = rest := by
  induction names generalizing p with
  | nil =>
    have hp' : p.rest = rest := by simpa [dotted] using hp
    exact ⟨p, readDotted_end hrest hp', hp'⟩
  | cons name names ih =>
    have hdotted : dotted (name :: names) = "." ++ name ++ dotted names := by simp [dotted]
    rw [hdotted] at hp ⊢
    refine readDotted_cons (hnames name List.mem_cons_self) (endsWord_dotted names hrest.1) ?_
      fun q hq => ih (fun n hn => hnames n (List.mem_cons_of_mem _ hn)) hq
    rw [hp]
    simp

theorem readTagName_of_isTagName {tag : String} (htag : IsTagName tag)
    (hp : p.rest = tag.toList ++ rest) (hrest : EndsTag rest) :
    ∃ q, readTagName p = .ok (tag, q) ∧ q.rest = rest := by
  obtain ⟨names, hne, hnames, rfl⟩ := htag
  obtain ⟨name, names, rfl⟩ := List.exists_cons_of_ne_nil hne
  rw [intercalate_eq_dotted, String.toList_append, List.append_assoc] at hp
  rw [intercalate_eq_dotted]
  obtain ⟨q, hread, hq⟩ := readName_of_identifier (g := []) .tagName
    (hnames name List.mem_cons_self) hp (by simp [IsGap]) (endsWord_dotted names hrest.1)
  obtain ⟨r, hmore, hr⟩ :=
    readDotted_of_names (fun n hn => hnames n (List.mem_cons_of_mem _ hn)) hrest hq
  refine ⟨r, ?_, hr⟩
  rw [readTagName, hread]
  simp only [hmore]
  rfl

/-! ### Attributes -/

/-- An attribute name that the reader takes as a whole: an identifier, or two with a colon between
them. -/
def IsReadableName (name : String) : Prop :=
  isIdentifier name.toList = true ∨ ∃ a b : String, name = a ++ ":" ++ b ∧
    isIdentifier a.toList = true ∧ isIdentifier b.toList = true

/-- What is said for an attribute: a text, or the source of an expression. -/
inductive Said where
  | text (s : String)
  | source (s : String)

namespace Said

/-- The value of an attribute as it is written. -/
def written : Said → String
  | text s => "\"" ++ String.ofList (escape s.toList) ++ "\""
  | source s => braced s

/-- Whether what is said can be read back. -/
def IsReadable : Said → Prop
  | text _ => True
  | source s => Captured s

/-- The value that is read for it. -/
def IsIn : Said → AttributeValue → Prop
  | text s, v => v = .text s
  | source s, v => ∃ span, v = .braced ⟨s, Expression.classify s, span⟩

end Said

theorem readBraced_of_captured {s : String} (h : Captured s)
    (hp : p.rest = (braced s).toList ++ rest) :
    ∃ span q, readBraced p = .ok (⟨s, Expression.classify s, span⟩, q) ∧ q.rest = rest := by
  have hbody : p.rest.drop 1 = s.toList ++ '\x7d' :: rest := by
    rw [hp, toList_braced]
    simp
  refine ⟨p.spanTo (p.skip (s.toList.length + 1 + 1)), p.skip (s.toList.length + 1 + 1), ?_, ?_⟩
  · unfold readBraced
    rw [hbody, h.braceSize?_close rest]
    simp only [Nat.add_sub_cancel, List.take_left, String.ofList_toList]
  · have hdrop : p.rest.drop (s.toList.length + 1 + 1)
        = (p.rest.drop 1).drop (s.toList.length + 1) := by
      rw [List.drop_drop, Nat.add_comm 1]
    simp only [Place.skip, hdrop, hbody]
    rw [List.append_cons, show s.toList.length + 1 = (s.toList ++ ['\x7d']).length by simp,
      List.drop_left]

theorem skipGap_of_solid {c : Char} (hblank : isBlank c = false) (hslash : c ≠ '/')
    (hp : p.rest = c :: cs) : skipGap p = p := by
  have hsize : gapSize (c :: cs) = 0 := by
    unfold gapSize
    split
    · rfl
    · next h => exact absurd (List.cons.inj h).1 hslash
    · next h => exact absurd (List.cons.inj h).1 hslash
    · next h =>
      obtain ⟨rfl, rfl⟩ := List.cons.inj h
      simp [hblank]
  rw [skipGap, hp, hsize]
  simp [Place.skip]

/-- An escaped text between quotes is read as the text, up to and with the second quote. -/
theorem readAttributeValue_escape {v : List Char} (hp : p.rest = '"' :: (escape v ++ '"' :: rest)) :
    readAttributeValue p =
      .ok (.text (String.ofList v), ⟨p.offset + (width (escape v) + 2), rest⟩) := by
  have hstart := skipGap_of_solid (by decide) (by decide) hp
  have hsize : runSize (· != '"') (escape v ++ '"' :: rest) = (escape v).length := by
    rw [runSize_append, runSize_eq_zero (by decide), Nat.add_zero]
    intro c hc
    refine bne_iff_ne.2 ?_
    rintro rfl
    exact not_mem_escape rfl v hc
  have hend : p.skip ((escape v).length + 2) = ⟨p.offset + (width (escape v) + 2), rest⟩ := by
    have htake : p.rest.take ((escape v).length + 2) = '"' :: (escape v ++ ['"']) := by
      rw [hp, List.take_succ_cons, List.take_length_add_append]
      rfl
    have hdrop : p.rest.drop ((escape v).length + 2) = rest := by simp [hp]
    rw [Place.skip, htake, hdrop, width_cons, width_append, Nat.add_comm ('"').utf8Size]
    rfl
  unfold readAttributeValue
  simp only [hstart, hp, readQuotedValue, List.drop_succ_cons, List.drop_zero, hsize,
    List.drop_left, List.take_left, List.isEmpty_cons, Bool.false_eq_true, if_false,
    decodeEntities_escape, hend]

theorem readAttributeValue_of_said {v : Said} (hv : v.IsReadable)
    (hp : p.rest = v.written.toList ++ rest) :
    ∃ value q, readAttributeValue p = .ok (value, q) ∧ v.IsIn value ∧ q.rest = rest := by
  cases v with
  | text s =>
    have hp' : p.rest = '"' :: (escape s.toList ++ '"' :: rest) := by
      rw [hp]
      simp [Said.written]
    refine ⟨.text s, ⟨p.offset + (width (escape s.toList) + 2), rest⟩, ?_, rfl, rfl⟩
    rw [readAttributeValue_escape hp', String.ofList_toList]
  | source s =>
    have hp' : p.rest = '\x7b' :: (s.toList ++ '\x7d' :: rest) := by
      rw [hp, Said.written, toList_braced]
      simp
    have hstart := skipGap_of_solid (by decide) (by decide) hp'
    obtain ⟨start, stop, hpeek, hstart', -⟩ := peekWanted_of_lexes (g := []) .attributeValue hp'
      (by simp [IsGap]) (Lexes.symbol (s := .leftBrace) (by decide) _)
    have hsource : start.rest = (braced s).toList ++ rest := by
      rw [hstart', toList_braced]
      simp
    obtain ⟨span, q, hread, hq⟩ := readBraced_of_captured hv hsource
    refine ⟨.braced ⟨s, Expression.classify s, span⟩, q, ?_, ⟨span, rfl⟩, hq⟩
    unfold readAttributeValue
    simp only [hstart, hp', hpeek, hread]
    rfl

theorem readAttributeName_of_isReadableName {name : String} (hname : IsReadableName name)
    (hp : p.rest = g ++ (name.toList ++ '=' :: rest)) (hgap : IsGap g) :
    ∃ q, readAttributeName p = .ok (name, q) ∧ q.rest = '=' :: rest := by
  rcases hname with hname | ⟨a, b, rfl, ha, hb⟩
  · obtain ⟨q, hread, hq⟩ :=
      readName_of_identifier .attributeName hname hp hgap (endsWord_cons (by decide) _)
    obtain ⟨start, stop, hpeek, -, -⟩ := peek_of_lexes (g := []) hq (by simp [IsGap])
      (Lexes.symbol (s := .equals) (by decide) _)
    exact ⟨q, by rw [readAttributeName, hread]; simp only [hpeek], hq⟩
  · have hp' : p.rest = g ++ (a.toList ++ ':' :: (b.toList ++ '=' :: rest)) := by
      rw [hp]
      simp
    obtain ⟨q, hread, hq⟩ :=
      readName_of_identifier .attributeName ha hp' hgap (endsWord_cons (by decide) _)
    obtain ⟨start, stop, hpeek, -, hstop⟩ := peek_of_lexes (g := []) hq (by simp [IsGap])
      (Lexes.symbol (s := .colon) (by decide) _)
    obtain ⟨r, hmore, hr⟩ := readName_of_identifier (g := []) .attributeName hb hstop
      (by simp [IsGap]) (endsWord_cons (by decide) _)
    refine ⟨r, ?_, hr⟩
    rw [readAttributeName, hread]
    simp only [hpeek, hmore]
    rfl

/-- An attribute as it is written, with a space in front. -/
def attributeSource (a : String × Said) : String := " " ++ a.1 ++ "=" ++ a.2.written

/-- What is read for an attribute that was written. -/
def SaysAttribute (a : String × Said) (b : Attribute) : Prop := b.name = a.1 ∧ a.2.IsIn b.value

theorem readAttribute_of_source (start : Place) {a : String × Said} (hname : IsReadableName a.1)
    (hsaid : a.2.IsReadable) (hp : p.rest = (attributeSource a).toList ++ rest) :
    ∃ b q, readAttribute start p = .ok (b, q) ∧ SaysAttribute a b ∧ q.rest = rest := by
  have hp' : p.rest = [' '] ++ (a.1.toList ++ '=' :: (a.2.written.toList ++ rest)) := by
    rw [hp]
    simp [attributeSource]
  obtain ⟨q, hread, hq⟩ := readAttributeName_of_isReadableName hname hp' (by simp [IsGap])
  obtain ⟨_, stop, hpeek, -, hstop⟩ := peek_of_lexes (g := []) hq (by simp [IsGap])
    (Lexes.symbol (s := .equals) (by decide) _)
  obtain ⟨value, r, hvalue, hin, hr⟩ := readAttributeValue_of_said hsaid hstop
  refine ⟨⟨a.1, value, start.spanTo r⟩, r, ?_, ⟨rfl, hin⟩, hr⟩
  rw [readAttribute, hread]
  simp only [hpeek, hvalue]
  rfl

/-! ### Headers -/

/-- The reader keeps the equation of the attribute that it read, as its recursion is justified by it.
    What follows does not depend on that. -/
private theorem readAttribute_matched (start p : Place) :
    (match _ha : readAttribute start p with
    | .error e => Except.error e
    | .ok (a, q) => (readAttributes q).map fun (y : HeaderEnd × Place) =>
        ({ y.1 with attributes := a :: y.1.attributes }, y.2)) =
      match readAttribute start p with
      | .error e => .error e
      | .ok (a, q) => (readAttributes q).map fun (y : HeaderEnd × Place) =>
          ({ y.1 with attributes := a :: y.1.attributes }, y.2) := by
  split
  · next ha => simp only [ha]
  · next ha => simp only [ha]

theorem readAttributes_eq (p : Place) : readAttributes p =
    match peekWanted .attributeOrEnd p with
    | .error e => .error e
    | .ok x =>
      match x.token with
      | .symbol .slash => (expect .rightAngle x.stop).map fun q => (⟨[], true⟩, q)
      | .symbol .rightAngle => .ok (⟨[], false⟩, x.stop)
      | .symbol .leftBrace => .error (.invalid x.span .spreadAttributes)
      | t =>
        if t.name?.isSome then
          match readAttribute x.start p with
          | .error e => .error e
          | .ok (a, q) =>
            (readAttributes q).map fun (rest, r) =>
              ({ rest with attributes := a :: rest.attributes }, r)
        else .error (.unexpected x.span .attributeName (some t)) := by
  conv => lhs; rw [readAttributes.eq_def]
  split
  · next hx => simp only [hx]
  · next x hx =>
    simp only [hx]
    have hattribute := readAttribute_matched x.start p
    cases x.token with
    | keyword k => exact hattribute
    | identifier name => exact hattribute
    | symbol s => cases s <;> rfl
    | _ => rfl

/-- The sign that ends a tag header. -/
def headerEnd (selfClosing : Bool) : String := if selfClosing then " />" else ">"

theorem readAttributes_end (selfClosing : Bool)
    (hp : p.rest = (headerEnd selfClosing).toList ++ rest) :
    ∃ q, readAttributes p = .ok (⟨[], selfClosing⟩, q) ∧ q.rest = rest := by
  cases selfClosing with
  | true =>
    have hp' : p.rest = [' '] ++ '/' :: '>' :: rest := hp
    obtain ⟨start, stop, hpeek, -, hstop⟩ := peekWanted_of_lexes .attributeOrEnd hp'
      (by simp [IsGap]) (Lexes.slash (by simp) (by simp))
    obtain ⟨q, hexpect, hq⟩ := expect_of_lexes (g := []) hstop (by simp [IsGap])
      (Lexes.symbol (s := .rightAngle) (by decide) _)
    exact ⟨q, by rw [readAttributes_eq, hpeek]; simp only [hexpect]; rfl, hq⟩
  | false =>
    obtain ⟨start, stop, hpeek, -, hstop⟩ := peekWanted_of_lexes (g := []) .attributeOrEnd hp
      (by simp [IsGap]) (Lexes.symbol (s := .rightAngle) (by decide) _)
    exact ⟨stop, by rw [readAttributes_eq, hpeek], hstop⟩

/-- A name that can be read starts with a token that can stand as a name. -/
private theorem lexes_of_isReadableName {name : String} (hname : IsReadableName name)
    (rest : List Char) :
    ∃ t more, Lexes (name.toList ++ '=' :: rest) t more ∧ t.name?.isSome = true := by
  rcases hname with hname | ⟨a, b, rfl, ha, -⟩
  · exact ⟨_, _, Lexes.word hname (endsWord_cons (by decide) rest), by rw [name?_wordToken]; rfl⟩
  · have hlexes := Lexes.word ha (endsWord_cons (c := ':') (by decide) (b.toList ++ '=' :: rest))
    have heq : (a ++ ":" ++ b).toList ++ '=' :: rest
        = a.toList ++ ':' :: (b.toList ++ '=' :: rest) := by simp
    rw [heq]
    exact ⟨_, _, hlexes, by rw [name?_wordToken]; rfl⟩

/-- An attribute is read, and then those behind it. -/
theorem readAttributes_cons {x : Lexed Token} {q : Place} {b : Attribute}
    (hpeek : peekWanted .attributeOrEnd p = .ok x) (hname : x.token.name?.isSome = true)
    (hread : readAttribute x.start p = .ok (b, q)) :
    readAttributes p = (readAttributes q).map fun (rest, r) =>
      ({ rest with attributes := b :: rest.attributes }, r) := by
  rw [readAttributes_eq, hpeek]
  obtain ⟨token, start, stop⟩ := x
  cases token with
  | symbol s => cases hname
  | keyword k => simp only [hname, if_true, hread]
  | identifier w => simp only [hname, if_true, hread]
  | _ => cases hname

theorem readAttributes_of_sources (as : List (String × Said)) (selfClosing : Bool)
    (hnames : ∀ a ∈ as, IsReadableName a.1) (hsaid : ∀ a ∈ as, a.2.IsReadable)
    (hp : p.rest = (String.join (as.map attributeSource)).toList ++
      ((headerEnd selfClosing).toList ++ rest)) :
    ∃ bs q, readAttributes p = .ok (⟨bs, selfClosing⟩, q) ∧ List.Forall₂ SaysAttribute as bs ∧
      q.rest = rest := by
  induction as generalizing p with
  | nil =>
    obtain ⟨q, hread, hq⟩ := readAttributes_end selfClosing (by simpa using hp)
    exact ⟨[], q, hread, .nil, hq⟩
  | cons a as ih =>
    have hp' : p.rest = (attributeSource a).toList ++ ((String.join (as.map attributeSource)).toList
        ++ ((headerEnd selfClosing).toList ++ rest)) := by
      rw [hp]
      simp
    have hname : p.rest = [' '] ++ (a.1.toList ++ '=' :: (a.2.written.toList ++
        ((String.join (as.map attributeSource)).toList ++
          ((headerEnd selfClosing).toList ++ rest)))) := by
      rw [hp']
      simp [attributeSource]
    obtain ⟨t, _, hlexes, ht⟩ := lexes_of_isReadableName (hnames a List.mem_cons_self) _
    obtain ⟨start, stop, hpeek, -, -⟩ :=
      peekWanted_of_lexes .attributeOrEnd hname (by simp [IsGap]) hlexes
    obtain ⟨b, q, hread, hsays, hq⟩ := readAttribute_of_source start
      (hnames a List.mem_cons_self) (hsaid a List.mem_cons_self) hp'
    obtain ⟨bs, r, hmore, hall, hr⟩ := ih (fun c hc => hnames c (List.mem_cons_of_mem _ hc))
      (fun c hc => hsaid c (List.mem_cons_of_mem _ hc)) hq
    refine ⟨b :: bs, r, ?_, .cons hsays hall, hr⟩
    rw [readAttributes_cons hpeek ht hread, hmore]
    rfl

/-- A tag header as it is written behind its opening angle. -/
def headerSource (tag : String) (as : List (String × Said)) (selfClosing : Bool) : String :=
  tag ++ String.join (as.map attributeSource) ++ headerEnd selfClosing

private theorem endsTag_attributes {as : List (String × Said)}
    (hnames : ∀ a ∈ as, IsReadableName a.1) (selfClosing : Bool) (rest : List Char) :
    EndsTag ((String.join (as.map attributeSource)).toList ++
      ((headerEnd selfClosing).toList ++ rest)) := by
  cases as with
  | nil =>
    simp only [List.map_nil, String.join_nil, String.toList_empty, List.nil_append]
    cases selfClosing with
    | true =>
      have hslash : Lexes ('/' :: '>' :: rest) (.symbol .slash) ('>' :: rest) :=
        .slash (by simp) (by simp)
      exact ⟨endsWord_cons (c := ' ') (by decide) _, [' '], _, _, _, by simp [IsGap], rfl, hslash,
        by simp⟩
    | false =>
      exact ⟨endsWord_cons (c := '>') (by decide) _, [], _, _, _, by simp [IsGap], rfl,
        Lexes.symbol (s := .rightAngle) (by decide) _, by simp⟩
  | cons a as =>
    generalize (headerEnd selfClosing).toList ++ rest = tail
    obtain ⟨t, more, hlexes, ht⟩ := lexes_of_isReadableName (hnames a List.mem_cons_self)
      (a.2.written.toList ++ ((String.join (as.map attributeSource)).toList ++ tail))
    have heq : (String.join ((a :: as).map attributeSource)).toList ++ tail
        = ' ' :: (a.1.toList ++ '=' :: (a.2.written.toList ++
          ((String.join (as.map attributeSource)).toList ++ tail))) := by
      simp [attributeSource]
    rw [heq]
    refine ⟨endsWord_cons (by decide) _, [' '], _, t, more, by simp [IsGap], rfl, hlexes, ?_⟩
    rintro rfl
    cases ht

theorem readHeader_of_source {tag : String} {as : List (String × Said)} (selfClosing : Bool)
    (htag : IsTagName tag) (hnames : ∀ a ∈ as, IsReadableName a.1)
    (hsaid : ∀ a ∈ as, a.2.IsReadable)
    (hp : p.rest = (headerSource tag as selfClosing).toList ++ rest) :
    ∃ bs q, readHeader p = .ok ((tag, ⟨bs, selfClosing⟩), q) ∧ List.Forall₂ SaysAttribute as bs ∧
      q.rest = rest := by
  simp only [headerSource, String.toList_append, List.append_assoc] at hp
  obtain ⟨q, htagRead, hq⟩ :=
    readTagName_of_isTagName htag hp (endsTag_attributes hnames selfClosing rest)
  obtain ⟨bs, r, hread, hall, hr⟩ := readAttributes_of_sources as selfClosing hnames hsaid hq
  refine ⟨bs, r, ?_, hall, hr⟩
  rw [readHeader, htagRead]
  simp only [hread]
  rfl

/-- A closing tag behind its `</`. -/
theorem readClosing_of_tag (start : Place) {tag : String} (htag : IsTagName tag)
    (hp : p.rest = tag.toList ++ '>' :: rest) :
    ∃ q, readClosing start tag p = .ok q ∧ q.rest = rest := by
  obtain ⟨q, htagRead, hq⟩ := readTagName_of_isTagName htag hp
    ⟨endsWord_cons (by decide) _, [], _, _, _, by simp [IsGap], rfl,
      Lexes.symbol (s := .rightAngle) (by decide) _, by simp⟩
  obtain ⟨r, hexpect, hr⟩ := expect_of_lexes (g := []) hq (by simp [IsGap])
    (Lexes.symbol (s := .rightAngle) (by decide) _)
  refine ⟨r, ?_, hr⟩
  rw [readClosing, htagRead]
  simp only [hexpect, if_true]

end DesignSync.Markup

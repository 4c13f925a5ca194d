import DesignSync.Proofs.Document.Grove
import DesignSync.Proofs.Markup.Inside

/-!
The layout of written trees: how an element looks, and the lines for a grove of elements. A reader
that is given these lines finds the same tags, attributes and parts, element by element.
-/

namespace DesignSync.Markup

open Text

/-- What stands in an element in front of its children, each on its own line: braced parts, a text,
and braced parts again. -/
structure Inner where
  before : List String
  text : Option String
  behind : List String

/-- How an element looks. One with nothing inside closes itself. -/
structure Look where
  tag : String
  attributes : List (String × Said)
  inner : Option Inner

def bracedLines (depth : Nat) (ss : List String) : String :=
  String.join (ss.map fun s => line depth (braced s))

def Inner.source (depth : Nat) (i : Inner) : String :=
  bracedLines depth i.before ++ i.text.elim "" (line depth) ++ bracedLines depth i.behind

def closingLine (depth : Nat) (tag : String) : String := line depth ("</" ++ tag ++ ">")

/-- The lines for a grove of elements. -/
def groveText (look : Element → Look) (depth : Nat) : Grove → String
  | .nil => ""
  | .cons e below beside =>
    let l := look e
    line depth ("<" ++ headerSource l.tag l.attributes l.inner.isNone)
      ++ l.inner.elim "" (fun inner => inner.source (depth + 1)
        ++ groveText look (depth + 1) below ++ closingLine depth l.tag)
      ++ groveText look depth beside

/-! ### What is read -/

def SaysBraced (s : String) (n : Node) : Prop :=
  ∃ span, n = .braced ⟨s, Expression.classify s, span⟩

/-- What is read for the parts of an element in front of its children. -/
def Inner.IsSaid (i : Inner) (nodes : List Node) : Prop :=
  ∃ before text behind, nodes = before ++ text ++ behind ∧ List.Forall₂ SaysBraced i.before before ∧
    i.text.elim (text = []) (fun s => ∃ span, text = [.text s span]) ∧
    List.Forall₂ SaysBraced i.behind behind

/-- What is read for an element, given what its children are read as. -/
structure Look.IsSaid (l : Look) (below : List Node → Prop) (head : Head) (nodes : List Node) :
    Prop where
  tag : head.tag = l.tag
  attributes : List.Forall₂ SaysAttribute l.attributes head.attributes
  inside : match l.inner with
    | none => nodes = []
    | some inner => ∃ parts children, nodes = parts ++ children ∧ inner.IsSaid parts ∧ below children

/-- What is read for a grove of elements. -/
def SaysGrove (look : Element → Look) : Grove → List Node → Prop
  | .nil, nodes => nodes = []
  | .cons e below beside, nodes => ∃ head inside rest, nodes = .element head inside :: rest ∧
      (look e).IsSaid (SaysGrove look below) head inside ∧ SaysGrove look beside rest

/-! ### Lines -/

structure Inner.IsReadable (i : Inner) : Prop where
  before : ∀ s ∈ i.before, Captured s
  text : ∀ s ∈ i.text, needsQuotes s = false
  behind : ∀ s ∈ i.behind, Captured s

/-- Whether the text of an element can be read back. -/
structure Look.IsReadable (l : Look) : Prop where
  tag : IsTagName l.tag
  names : ∀ a ∈ l.attributes, IsReadableName a.1
  said : ∀ a ∈ l.attributes, a.2.IsReadable
  inner : ∀ i ∈ l.inner, i.IsReadable

/-- Lines of which the first holds a tag or a braced part. -/
def StartsLine (cs : List Char) : Prop := ∃ n part, cs = spaces n ++ part ∧ StartsPart part

/-- A place in front of some lines: at the feed before them, or behind the blanks of the first. -/
def AtLines (p : Place) (cs : List Char) : Prop :=
  p.rest = '\n' :: cs ∨ p.rest = cs.dropWhile (· == ' ')

variable {p : Place} {s : String} {depth : Nat} {more : List Char}

theorem toList_line (depth : Nat) (s : String) (more : List Char) :
    (line depth s).toList ++ more = spaces (2 * depth) ++ (s.toList ++ '\n' :: more) := by
  simp [line, toList_indent]

theorem startsPart_braced (s : String) (cs : List Char) : StartsPart ((braced s).toList ++ cs) := by
  rw [toList_braced]
  exact ⟨'\x7b', rfl, rfl⟩

theorem startsLine_line {s : String} (h : StartsPart (s.toList ++ '\n' :: more)) :
    StartsLine ((line depth s).toList ++ more) :=
  ⟨_, _, toList_line depth s more, h⟩

theorem startsLine_bracedLines (ss : List String) (hmore : StartsLine more) :
    StartsLine ((bracedLines depth ss).toList ++ more) := by
  cases ss with
  | nil => simpa [bracedLines] using hmore
  | cons s ss =>
    have heq : bracedLines depth (s :: ss) = line depth (braced s) ++ bracedLines depth ss := by
      simp [bracedLines]
    rw [heq, String.toList_append, List.append_assoc]
    exact startsLine_line (startsPart_braced s _)

theorem startsPart_tag (s : String) (cs : List Char) : StartsPart (("<" ++ s).toList ++ cs) := by
  rw [String.toList_append]
  exact ⟨'<', rfl, rfl⟩

theorem startsLine_tag (s : String) : StartsLine ((line depth ("<" ++ s)).toList ++ more) :=
  startsLine_line (startsPart_tag s _)

theorem startsPart_closing (tag : String) (cs : List Char) :
    StartsPart (("</" ++ tag ++ ">").toList ++ cs) := by
  simp only [String.toList_append]
  exact ⟨'<', rfl, rfl⟩

theorem startsLine_closing (depth : Nat) (tag : String) :
    StartsLine ((closingLine depth tag).toList ++ more) :=
  startsLine_line (startsPart_closing tag _)

theorem startsLine_groveText (look : Element → Look) (g : Grove) (hmore : StartsLine more) :
    StartsLine ((groveText look depth g).toList ++ more) := by
  cases g with
  | nil => simpa [groveText] using hmore
  | cons e below beside =>
    simp only [groveText, String.toList_append, List.append_assoc]
    exact startsLine_tag _

/-! ### Reading lines -/

private theorem dropWhile_space {part : List Char} (hpart : StartsPart part) (n : Nat) :
    (spaces n ++ part).dropWhile (· == ' ') = part := by
  obtain ⟨c, hc, hend⟩ := hpart
  rw [List.dropWhile_append_of_pos (by simp [spaces]), dropWhile_eq_self]
  intro d hd
  obtain rfl : c = d := Option.some.inj (hc.symm.trans hd)
  simp only [beq_eq_false_iff_ne, ne_eq]
  rintro rfl
  cases hend

private theorem isTextEnd_of_space {n : Nat} {c : Char} (h : c ∈ spaces n) :
    isTextEnd c = false := by
  rw [(List.mem_replicate.1 h).2]
  rfl

/-- The blanks in front of a line are passed over. -/
theorem yields_blank {n : Nat} {part : List Char} (hpart : StartsPart part)
    (hp : AtLines p (spaces n ++ part)) : ∃ q, q.rest = part ∧ Yields p [] q := by
  rcases hp with hp | hp
  · obtain ⟨_, q, hq, hyields⟩ := yields_text (fun _ => isTextEnd_of_space) hpart hp
    rw [runText_blank] at hyields
    exact ⟨q, hq, hyields⟩
  · rw [dropWhile_space hpart] at hp
    exact ⟨p, hp, .nil p⟩

theorem yields_bracedLine (hs : Captured s)
    (hp : AtLines p ((line depth (braced s)).toList ++ more)) :
    ∃ n q, q.rest = '\n' :: more ∧ SaysBraced s n ∧ Yields p [n] q := by
  rw [toList_line] at hp
  obtain ⟨q, hq, hblank⟩ := yields_blank (startsPart_braced s _) hp
  obtain ⟨span, r, hr, hbraced⟩ := yields_braced hs hq
  exact ⟨_, r, hr, ⟨span, rfl⟩, hblank.append hbraced⟩

theorem yields_bracedLines {ss : List String} (hss : ∀ s ∈ ss, Captured s)
    (hp : AtLines p ((bracedLines depth ss).toList ++ more)) :
    ∃ nodes q, AtLines q more ∧ (p.rest = '\n' :: ((bracedLines depth ss).toList ++ more) →
      q.rest = '\n' :: more) ∧ List.Forall₂ SaysBraced ss nodes ∧ Yields p nodes q := by
  induction ss generalizing p with
  | nil =>
    refine ⟨[], p, by simpa [bracedLines] using hp, fun h => ?_, .nil, .nil p⟩
    simpa [bracedLines] using h
  | cons s ss ih =>
    have heq : bracedLines depth (s :: ss) = line depth (braced s) ++ bracedLines depth ss := by
      simp [bracedLines]
    rw [heq, String.toList_append, List.append_assoc] at hp
    obtain ⟨n, q, hq, hsays, hyields⟩ := yields_bracedLine (hss s List.mem_cons_self) hp
    obtain ⟨nodes, r, hr, hline, hall, hmore⟩ :=
      ih (fun t ht => hss t (List.mem_cons_of_mem _ ht)) (.inl hq)
    exact ⟨n :: nodes, r, hr, fun _ => hline hq, .cons hsays hall, hyields.append hmore⟩

/-- A text has its line for itself, so that its place has to be behind a line feed. -/
theorem yields_textLine (hs : needsQuotes s = false) (hmore : StartsLine more)
    (hp : p.rest = '\n' :: ((line depth s).toList ++ more)) :
    ∃ span q, AtLines q more ∧ Yields p [.text s span] q := by
  obtain ⟨n, part, rfl, hpart⟩ := hmore
  obtain ⟨hne, -, hline⟩ := isLine_of_needsQuotes hs
  rw [toList_line] at hp
  have hbody : ∀ c ∈ spaces (2 * depth) ++ s.toList ++ '\n' :: spaces n, isTextEnd c = false := by
    intro c hc
    simp only [List.mem_append, List.mem_cons] at hc
    rcases hc with (hc | hc) | rfl | hc
    · exact isTextEnd_of_space hc
    · exact (hline c hc).2
    · rfl
    · exact isTextEnd_of_space hc
  have hp' : p.rest = '\n' :: (spaces (2 * depth) ++ s.toList ++ '\n' :: spaces n ++ part) := by
    rw [hp]
    simp
  obtain ⟨span, q, hq, hyields⟩ := yields_text hbody hpart hp'
  rw [runText_line hs, if_neg (by simpa using hne), String.ofList_toList] at hyields
  exact ⟨span, q, .inr (by rw [hq, dropWhile_space hpart]), hyields⟩

theorem yields_inner {i : Inner} (hi : i.IsReadable) (hmore : StartsLine more)
    (hp : p.rest = '\n' :: ((i.source depth).toList ++ more)) :
    ∃ nodes q, AtLines q more ∧ i.IsSaid nodes ∧ Yields p nodes q := by
  simp only [Inner.source, String.toList_append, List.append_assoc] at hp
  have hbehind : StartsLine ((bracedLines depth i.behind).toList ++ more) :=
    startsLine_bracedLines i.behind hmore
  obtain ⟨before, q, hq, hline, hbefore, hyields⟩ := yields_bracedLines hi.before (.inl hp)
  obtain ⟨text, r, hr, htext, hyields'⟩ : ∃ text r,
      AtLines r ((bracedLines depth i.behind).toList ++ more) ∧
      i.text.elim (text = []) (fun s => ∃ span, text = [.text s span]) ∧ Yields q text r := by
    cases hcase : i.text with
    | none =>
      rw [hcase] at hq
      exact ⟨[], q, hq, rfl, .nil q⟩
    | some s =>
      rw [hcase] at hline hp
      obtain ⟨span, r, hr, hyields⟩ := yields_textLine (hi.text s hcase) hbehind (hline hp)
      exact ⟨_, r, hr, ⟨span, rfl⟩, hyields⟩
  obtain ⟨behind, t, ht, -, hsaid, hyields''⟩ := yields_bracedLines hi.behind hr
  exact ⟨_, t, ht, ⟨before, text, behind, rfl, hbefore, htext, hsaid⟩,
    (hyields.append hyields').append hyields''⟩

/-- What stands between the tags of an element, given how its children are read. -/
theorem yields_inside {i : Inner} (hi : i.IsReadable) {below : String} {P : List Node → Prop}
    (hstarts : ∀ cs, StartsLine cs → StartsLine (below.toList ++ cs))
    (hbelow : ∀ p cs, StartsLine cs → AtLines p (below.toList ++ cs) →
      ∃ nodes q, AtLines q cs ∧ P nodes ∧ Yields p nodes q) {tag : String}
    (hp : p.rest = '\n' :: ((i.source (depth + 1) ++ below ++ closingLine depth tag).toList ++ more)) :
    ∃ nodes q, q.rest = '<' :: '/' :: (tag.toList ++ '>' :: '\n' :: more) ∧ Yields p nodes q ∧
      ∃ parts children, nodes = parts ++ children ∧ i.IsSaid parts ∧ P children := by
  simp only [String.toList_append, List.append_assoc] at hp
  have hclosing : StartsLine ((closingLine depth tag).toList ++ more) :=
    startsLine_closing depth tag
  obtain ⟨parts, q, hq, hparts, hyields⟩ := yields_inner hi (hstarts _ hclosing) hp
  obtain ⟨children, r, hr, hchildren, hyields'⟩ := hbelow q _ hclosing hq
  rw [closingLine, toList_line] at hr
  obtain ⟨t, ht, hblank⟩ := yields_blank (startsPart_closing tag _) hr
  refine ⟨parts ++ children, t, by rw [ht]; simp, ?_, parts, children, rfl, hparts, hchildren⟩
  have h := (hyields.append hyields').append hblank
  rwa [List.append_nil] at h

/-- The lines for a grove are read as the grove. -/
theorem yields_grove {look : Element → Look} {g : Grove}
    (hg : ∀ e ∈ g.preorder, (look e).IsReadable) (depth : Nat) (p : Place) (more : List Char)
    (hmore : StartsLine more) (hp : AtLines p ((groveText look depth g).toList ++ more)) :
    ∃ nodes q, AtLines q more ∧ SaysGrove look g nodes ∧ Yields p nodes q := by
  induction g generalizing depth p more with
  | nil => exact ⟨[], p, by simpa [groveText] using hp, rfl, .nil p⟩
  | cons e below beside ihb ihs =>
    have hlook := hg e (by simp [Grove.preorder])
    -- The place behind the element is a line feed, and the trees beside it are read from there.
    obtain ⟨head, inside, q, hq, hsaid, hyields⟩ : ∃ head inside q,
        q.rest = '\n' :: ((groveText look depth beside).toList ++ more) ∧
        (look e).IsSaid (SaysGrove look below) head inside ∧
        Yields p [.element head inside] q := by
      simp only [groveText, String.toList_append, List.append_assoc] at hp
      cases hinner : (look e).inner with
      | none =>
        rw [hinner, toList_line] at hp
        obtain ⟨q, hq, hblank⟩ := yields_blank (startsPart_tag _ _) hp
        have hq' : q.rest = '<' :: ((headerSource (look e).tag (look e).attributes true).toList ++
            '\n' :: ((groveText look depth beside).toList ++ more)) := by
          rw [hq]
          simp
        obtain ⟨bs, span, r, hr, hsays, hyields⟩ :=
          yields_selfClosing hlook.tag hlook.names hlook.said hq'
        exact ⟨_, [], r, hr, ⟨rfl, hsays, by rw [hinner]⟩, hblank.append hyields⟩
      | some inner =>
        rw [hinner, toList_line] at hp
        obtain ⟨q, hq, hblank⟩ := yields_blank (startsPart_tag _ _) hp
        have hq' : q.rest = '<' :: ((headerSource (look e).tag (look e).attributes false).toList ++
            '\n' :: ((inner.source (depth + 1) ++ groveText look (depth + 1) below ++
              closingLine depth (look e).tag).toList ++
                ((groveText look depth beside).toList ++ more))) := by
          rw [hq]
          simp
        obtain ⟨bs, span, inside, r, hr, hsays, hinside, hyields⟩ :=
          yields_element hlook.tag hlook.names hlook.said hq' fun t ht =>
            yields_inside (hlook.inner inner hinner)
              (fun _ hcs => startsLine_groveText look below hcs)
              (ihb (fun x hx => hg x (by simp [Grove.preorder, hx])) (depth + 1)) ht
        exact ⟨_, inside, r, hr, ⟨rfl, hsays, by rw [hinner]; exact hinside⟩,
          hblank.append hyields⟩
    obtain ⟨nodes, r, hr, hbeside, hyields'⟩ :=
      ihs (fun x hx => hg x (by simp [Grove.preorder, hx])) depth q more hmore (.inl hq)
    exact ⟨_, r, hr, ⟨head, inside, nodes, rfl, hsaid, hbeside⟩, hyields.append hyields'⟩

end DesignSync.Markup

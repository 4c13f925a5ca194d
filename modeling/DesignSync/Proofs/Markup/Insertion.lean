import DesignSync.Proofs.Markup.FrontTags
import DesignSync.Proofs.Markup.Opening
import DesignSync.Proofs.Markup.Portable

/-!
An attribute put into a tag header. What the header said it says still, and it says the attribute
besides, if and only if the reader takes the name of the attribute as a whole. The names that can be
written are a few more.
-/

namespace DesignSync.Markup

open Text

variable {p q r : Place} {tag : String} {as : List Attribute} {u x : List Char}

/-! ### Places behind attributes -/

/-- The places in a tag header behind the name of the tag and behind each attribute, with the
attributes up to there. -/
inductive Behind (p : Place) (tag : String) : List Attribute → Place → Prop
  | first {q : Place} (h : readTagName p = .ok (tag, q)) : Behind p tag [] q
  | next {as : List Attribute} {a : Attribute} {q r : Place} (h : Behind p tag as q)
      (ha : readAttribute (nextToken q) q = .ok (a, r)) : Behind p tag (as ++ [a]) r

theorem readAttributes_of_attribute {a : Attribute}
    (ha : readAttribute (nextToken q) q = .ok (a, r)) :
    readAttributes q = (readAttributes r).map fun (e, s) =>
      ({ e with attributes := a :: e.attributes }, s) := by
  obtain ⟨t, b, hpeek, hname⟩ := exists_of_readAttribute ha
  exact readAttributes_cons (peekWanted_eq_ok_iff.2 hpeek) hname ha

/-- A header goes on with what is read from such a place. -/
theorem Behind.readHeader_eq (h : Behind p tag as r) :
    readHeader p = (readAttributes r).map fun (e, s) =>
      ((tag, { e with attributes := as ++ e.attributes }), s) := by
  induction h with
  | first h => rw [readHeader, h]; rfl
  | next h ha ih =>
    rw [ih, readAttributes_of_attribute ha]
    cases readAttributes _ <;> simp [Except.map]

theorem Behind.leads (h : Behind p tag as r) : p.Leads r := by
  induction h with
  | first h => exact leads_of_readTagName h
  | next h ha ih => exact ih.trans (leads_of_readAttribute ha)

/-- The attributes up to a place are the same whatever comes behind it, unless that prolongs a
name. -/
theorem Behind.front (h : Behind p tag as r) (hover : p.Over u r)
    (hx : EndsName r → Detached (r.facing x)) :
    Behind (p.facing (u ++ x)) tag as (r.facing x) := by
  induction h generalizing u x with
  | first h =>
    have hdetached := hx (endsName_of_readTagName h)
    exact .first (readTagName_front h hover hdetached.word hdetached.dot)
  | @next as a q r h ha ih =>
    obtain ⟨v, hv⟩ := h.leads
    obtain ⟨w, hw⟩ := leads_of_readAttribute ha
    obtain rfl : u = v ++ w := hover.eq_append hv hw
    obtain ⟨t, b, hpeek, hname⟩ := exists_of_readAttribute ha
    obtain ⟨y, hy⟩ := start_front hpeek hname ha hw x
    have hend (himplicit : a.value = .implicit) : Detached (r.facing x) :=
      hx (endsName_of_readAttribute ha himplicit)
    have ha' := readAttribute_front ha hw hend y
    rw [← hy] at ha'
    obtain ⟨t', b', hpeek', hname'⟩ := exists_of_readAttribute ha'
    have hbehind := ih hv (x := w ++ x) fun hq =>
      detached_front hq hpeek (.inr (.inr hname)) hw (length_readAttribute ha) hpeek'
        (.inr (.inr hname'))
    rw [List.append_assoc]
    exact hbehind.next ha'

/-! ### One more attribute -/

theorem IsTrivia.lexFrom_eq {g cs : List Char} (hg : IsTrivia g) (hp : p.rest = g ++ cs) :
    lexFrom p = lexFrom (p.skip g.length) := by
  have hskip : p.skip (triviaSize p.rest) =
      (p.skip g.length).skip (triviaSize (p.skip g.length).rest) := by
    have hrest : (p.skip g.length).rest = cs := by rw [Place.skip, hp, List.drop_left]
    rw [hrest, hp, hg, Place.skip_skip]
  rw [lexFrom, lexFrom, hskip]

theorem IsTrivia.endsWord {g : List Char} (hg : IsTrivia g) (hx : EndsWord x) :
    EndsWord (g ++ x) := by
  cases g with
  | nil => exact hx
  | cons c g =>
    rintro _ ⟨⟩
    exact endsWord_of_not_isSolid hg.head

theorem readAttribute_inserted {g back : List Char} {name : String} {said : Said}
    (hg : IsTrivia g) (hname : IsReadableName name) (hsaid : said.IsReadable)
    (hp : p.rest = g ++ ((attributeSource (name, said)).toList ++ back)) :
    ∃ new q, readAttribute (nextToken p) p = .ok (new, q) ∧ SaysAttribute (name, said) new ∧
      q.rest = back := by
  have hrest : (p.skip g.length).rest = (attributeSource (name, said)).toList ++ back := by
    rw [Place.skip, hp, List.drop_left]
  rw [readAttribute_congr (hg.lexFrom_eq hp)]
  exact readAttribute_of_source (nextToken p) hname hsaid hrest

theorem eq_of_reindented {T : Nat → Prop} {cs ds : List Char} (hT : ∀ n, ¬ T n)
    (h : Reindented T cs ds) : cs = ds := by
  induction h with
  | nil => rfl
  | char c _ ih => rw [ih]
  | line hplace => exact (hT _ hplace).elim

/-- Where attributes stand makes no difference to what they are. -/
theorem readAttributes_alike {e : HeaderEnd} (hpq : p.rest = q.rest)
    (h : readAttributes p = .ok (e, r)) :
    ∃ e' s, readAttributes q = .ok (e', s) ∧ e.Alike e' ∧ s.rest = r.rest := by
  have hmatching : Matching (fun _ => False) p q := by
    rw [Matching, hpq]
    exact .refl _
  obtain ⟨e', s, hread, halike, hrest⟩ :=
    follows_readAttributes hmatching e r h fun _ _ _ => not_false
  exact ⟨e', s, hread, halike, (eq_of_reindented (fun _ => not_false) hrest).symm⟩

/-! ### Slots -/

/-- A place for one more attribute in a tag header that can be read: behind the name of the tag or
behind an attribute, with some blanks and comments in between. -/
structure Slot where
  start : Place
  tag : String
  header : HeaderEnd
  stop : Place
  read : readHeader start = .ok ((tag, header), stop)
  before : List Attribute
  place : Place
  behind : Behind start tag before place
  gap : List Char
  trivia : IsTrivia gap
  back : List Char
  rest : place.rest = gap ++ back

/-- An attribute as it is written for a text, or for a flag that is set or not. -/
def attributeFor (name : String) : StateFlag → String
  | .text s => attributeText name s
  | .bool b => " " ++ name ++ "=" ++ braced (if b then "true" else "false")

/-- The value that is read for it. -/
def IsValueFor : StateFlag → AttributeValue → Prop
  | .text s, v => v = .text s
  | .bool b, v => ∃ span, v = .braced ⟨if b then "true" else "false", .bool b, span⟩

namespace Slot

/-- The text in front of a slot. -/
def front (s : Slot) : List Char :=
  s.start.rest.take (s.start.rest.length - s.place.rest.length) ++ s.gap

/-- The header with an attribute in its slot. -/
def fill (s : Slot) (text : String) : Place :=
  s.start.facing (s.front ++ (text.toList ++ s.back))

/-- One attribute is read in the slot, with the name and the value. The attributes in front of it
and behind it and the end of the header are what they are without it. -/
def ReadsBack (s : Slot) (name : String) (value : StateFlag) : Prop :=
  ∃ new after after' stop, s.header.attributes = s.before ++ after ∧
    readHeader (s.fill (attributeFor name value)) =
      .ok ((s.tag, ⟨s.before ++ new :: after', s.header.selfClosing⟩), stop) ∧
    new.name = name ∧ IsValueFor value new.value ∧
    List.Forall₂ (Attribute.Alike False) after after' ∧ stop.rest = s.stop.rest

end Slot

theorem attributeSource_flagSaid (name : String) (value : StateFlag) :
    attributeSource (name, flagSaid value) = attributeFor name value := by
  cases value with
  | text s => exact attributeSource_text name s
  | bool b => rfl

theorem endsWord_attributeFor (name : String) (value : StateFlag) (rest : List Char) :
    EndsWord ((attributeFor name value).toList ++ rest) := by
  rw [← attributeSource_flagSaid]
  intro c hc
  obtain rfl : ' ' = c := by simpa [attributeSource] using hc
  decide

theorem isReadable_flagSaid (value : StateFlag) : (flagSaid value).IsReadable := by
  cases value with
  | text s => trivial
  | bool b => exact captured_bool b

theorem isValueFor_of_says {name : String} {value : StateFlag} {a : Attribute}
    (h : SaysAttribute (name, flagSaid value) a) : IsValueFor value a.value := by
  cases value with
  | text s => exact h.2
  | bool b =>
    obtain ⟨span, hvalue⟩ := h.2
    exact ⟨span, hvalue.trans (by rw [classify_bool])⟩

namespace Slot

/-- What is read behind a slot. -/
theorem exists_after (s : Slot) : ∃ after,
    readAttributes s.place = .ok (⟨after, s.header.selfClosing⟩, s.stop) ∧
      s.header.attributes = s.before ++ after := by
  have hread := s.read
  rw [s.behind.readHeader_eq] at hread
  obtain ⟨⟨e, _⟩, he, heq⟩ := map_eq_ok_iff.1 hread
  obtain ⟨hheader, rfl⟩ := Prod.mk.inj heq
  obtain ⟨-, hheader⟩ := Prod.mk.inj hheader
  rw [← hheader]
  exact ⟨e.attributes, he, rfl⟩

theorem over_front (s : Slot) :
    ∃ u, s.start.Over u s.place ∧ s.front = u ++ s.gap := by
  obtain ⟨u, hu⟩ := s.behind.leads
  have hlength := congrArg List.length hu.rest
  rw [List.length_append] at hlength
  refine ⟨u, hu, ?_⟩
  rw [front, hlength, Nat.add_sub_cancel, hu.rest, List.take_left]

theorem readsBack_of_isReadableName (s : Slot) {name : String} (hname : IsReadableName name)
    (value : StateFlag) : s.ReadsBack name value := by
  obtain ⟨u, hover, hfront⟩ := s.over_front
  obtain ⟨after, hafter, hattributes⟩ := s.exists_after
  let x := s.gap ++ ((attributeFor name value).toList ++ s.back)
  -- the attribute that is put in is read from the end of the attributes in front of it
  obtain ⟨new, q, hnew, hsays, hq⟩ := readAttribute_inserted (p := s.place.facing x) s.trivia hname
    (isReadable_flagSaid value) (by rw [attributeSource_flagSaid]; rfl)
  obtain ⟨t, b, hpeek, htoken⟩ := exists_of_readAttribute hnew
  have hword : EndsWord x := s.trivia.endsWord (endsWord_attributeFor name value s.back)
  have hbehind : Behind (s.fill (attributeFor name value)) s.tag (s.before ++ [new]) q := by
    rw [fill, hfront, List.append_assoc]
    exact (s.behind.front hover fun _ =>
      detached_of_peek hpeek (.inr (.inr htoken)) hword).next hnew
  -- what is behind it is read as if it stood right behind those
  have hback : (s.place.skip s.gap.length).rest = q.rest := by
    rw [Place.skip, s.rest, List.drop_left, hq]
  rw [readAttributes_congr (s.trivia.lexFrom_eq s.rest)] at hafter
  obtain ⟨⟨after', _⟩, stop, hread, ⟨halike, rfl⟩, hstop⟩ := readAttributes_alike hback hafter
  refine ⟨new, after, after', stop, hattributes, ?_, hsays.1, isValueFor_of_says hsays, halike,
    hstop⟩
  rw [hbehind.readHeader_eq, hread]
  simp [Except.map]

/-- Every attribute that a header has been read with has a name that can be read. -/
theorem isReadableName_of_readsBack {s : Slot} {name : String} {value : StateFlag}
    (h : s.ReadsBack name value) : IsReadableName name := by
  obtain ⟨new, after, after', stop, -, hread, rfl, -, -, -⟩ := h
  exact (isReadable_of_readHeader hread false ⟨0, 0⟩).names new (by simp)

end Slot

/-! ### All names -/

/-- An attribute is read back from every slot of every header, whatever its value is, if and only if
the reader takes its name as a whole. These names are those that pass the filter of the writer and
have no colon, or just one, between two identifiers. -/
theorem readsBack_iff (s : Slot) (name : String) (value : StateFlag) :
    (s.ReadsBack name value ↔ IsReadableName name) ∧
      (IsReadableName name ↔ isAttributeName name = true ∧ (':' ∈ name.toList →
        ∃ a b : String, name = a ++ ":" ++ b ∧ isIdentifier a.toList = true ∧
          isIdentifier b.toList = true)) := by
  refine ⟨⟨Slot.isReadableName_of_readsBack, fun h => s.readsBack_of_isReadableName h value⟩,
    fun h => ⟨isAttributeName_of_isReadableName h, fun hcolon => ?_⟩, fun h => ?_⟩
  · obtain hname | hparts := h
    · obtain hc | hc := (of_isIdentifier hname).2.1 ':' hcolon <;> cases hc
    · exact hparts
  · exact isReadableName_of_isAttributeName h.1 fun hcolon => .inr (h.2 hcolon)

/-- The slot in the header of `<div />`, behind the name of the tag. -/
def divSlot : Slot where
  start := Place.start "div />".toList
  tag := "div"
  header := ⟨[], true⟩
  stop := ⟨6, []⟩
  read := by with_unfolding_all rfl
  before := []
  place := ⟨3, " />".toList⟩
  behind := .first (by with_unfolding_all rfl)
  gap := []
  trivia := isTrivia_nil
  back := " />".toList
  rest := rfl

/-- `a:` passes the filter of the writer, and then the reader refuses the header. -/
theorem open_colon_not_readsBack :
    isAttributeName "a:" = true ∧ ¬ divSlot.ReadsBack "a:" (.text "x") := by
  refine ⟨by decide, ?_⟩
  rintro ⟨new, after, after', stop, -, hread, -⟩
  have hrefused :
      (readHeader (divSlot.fill (attributeFor "a:" (.text "x")))).toOption.isNone = true := by
    decide +kernel
  rw [hread] at hrefused
  cases hrefused

end DesignSync.Markup

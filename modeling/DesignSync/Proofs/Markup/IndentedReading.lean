import DesignSync.Proofs.Markup.IndentedTags
import DesignSync.Proofs.Markup.Leaf

/-!
Reading texts that differ in how lines of text between tags are indented. Turn by turn both are read
into trees that are alike, so that they stand for the same elements.
-/

namespace DesignSync.Markup

open Text

variable {T : Nat → Prop} {p q p' : Place}

/-! ### Turn by turn -/

/-- What stands at a place between two tags. -/
inductive Front where
  | nothing
  | closing
  | opening
  | braced
  | text
deriving DecidableEq

def front : List Char → Front
  | [] => .nothing
  | '<' :: '/' :: _ => .closing
  | '<' :: _ => .opening
  | '\x7b' :: _ => .braced
  | _ => .text

theorem front_eq_text_iff {cs : List Char} :
    front cs = .text ↔ ∃ c rest, cs = c :: rest ∧ isTextEnd c = false := by
  unfold front
  constructor
  · intro h
    split at h <;> try cases h
    next hnil _ hangle hbrace =>
      cases cs with
      | nil => exact absurd rfl hnil
      | cons c rest =>
        refine ⟨c, rest, rfl, ?_⟩
        simp only [isTextEnd, Bool.or_eq_false_iff, beq_eq_false_iff_ne]
        exact ⟨fun hc => hangle rest (by rw [hc]), fun hc => hbrace rest (by rw [hc])⟩
  · rintro ⟨c, rest, rfl, hc⟩
    split
    · next heq => cases heq
    · next heq =>
      cases heq
      exact absurd hc (by decide)
    · next heq =>
      cases heq
      exact absurd hc (by decide)
    · next heq =>
      cases heq
      exact absurd hc (by decide)
    · rfl

/-- Where the reading of an element stands: the elements around it, what it has so far, and the
place. -/
structure Reading where
  outer : List OpenElement
  top : OpenElement
  place : Place

/-- What one turn comes to: the outermost element is closed, or there is more. -/
inductive Turn where
  | closed (t : Tree) (stop : Place)
  | more (r : Reading)

def Turn.place : Turn → Place
  | closed _ stop => stop
  | more r => r.place

namespace Reading

/-- One turn of reading: over a tag, a braced part, or a run of text. -/
def turn (r : Reading) : Except ReadError Turn :=
  match front r.place.rest with
  | .nothing => .error (.endOfInput (.closingTag r.top.tag))
  | .closing =>
    (readClosing r.place r.top.tag (r.place.skip 2)).map fun q =>
      match r.outer with
      | [] => .closed (r.top.close q) q
      | parent :: outer =>
        let t := r.top.close q
        .more ⟨outer, parent.push (.element t.head t.children), q⟩
  | .opening =>
    (readHeader (r.place.skip 1)).map fun ((tag, header), q) =>
      if header.selfClosing then
        let head : Head := ⟨tag, header.attributes, true, r.place.spanTo q⟩
        .more ⟨r.outer, r.top.push (.element head []), q⟩
      else .more ⟨r.top :: r.outer, ⟨r.place, tag, header.attributes, []⟩, q⟩
  | .braced => (readBraced r.place).map fun (b, q) => .more ⟨r.outer, r.top.push (.braced b), q⟩
  | .text =>
    let q := r.place.skip (runSize (fun c => !isTextEnd c) r.place.rest)
    let value := runText (r.place.rest.takeWhile fun c => !isTextEnd c)
    let top :=
      if value.isEmpty then r.top
      else r.top.push (.text (String.ofList value) (r.place.spanTo q))
    .ok (.more ⟨r.outer, top, q⟩)

/-- Reads the rest of the outermost element. -/
def read (r : Reading) : Except ReadError (Tree × Place) := readContent r.outer r.top r.place

/-- Reading goes turn by turn. -/
theorem read_eq (r : Reading) : r.read = r.turn >>= fun
    | .closed t stop => .ok (t, stop)
    | .more r => r.read := by
  obtain ⟨outer, top, p⟩ := r
  unfold read turn
  rw [readContent.eq_def]
  dsimp only
  split
  · next hrest =>
    rw [hrest]
    rfl
  · next hrest =>
    rw [hrest]
    simp only [front]
    split
    · next hc =>
      rw [hc]
      rfl
    · next q hc =>
      rw [hc]
      cases outer <;> rfl
  · next hne hrest =>
    have hfront : front p.rest = .opening := by
      rw [hrest, front]
      exact hne
    rw [hfront]
    dsimp only
    split
    · next hh =>
      rw [hh]
      rfl
    · next tag header q hh =>
      rw [hh]
      simp only [Except.map, Bind.bind, Except.bind]
      split <;> rfl
  · next hrest =>
    rw [hrest]
    simp only [front]
    split
    · next hb =>
      rw [hb]
      rfl
    · next b q hb =>
      rw [hb]
      rfl
  · next c cs hclosing hopening hbraced hrest =>
    have hc : isTextEnd c = false := by
      simp only [isTextEnd, Bool.or_eq_false_iff, beq_eq_false_iff_ne]
      exact ⟨hopening, hbraced⟩
    have hsize : runSize (fun c => !isTextEnd c) p.rest =
        1 + runSize (fun c => !isTextEnd c) cs := by
      simp [hrest, runSize, hc, Nat.add_comm]
    rw [front_eq_text_iff.2 ⟨c, cs, hrest, hc⟩, ← take_runSize, hsize, ← hrest]
    dsimp only
    split <;> rfl

/-- A turn takes something away from the text. -/
theorem length_turn {r : Reading} {t : Turn} (h : r.turn = .ok t) :
    t.place.rest.length < r.place.rest.length := by
  unfold turn at h
  split at h
  · cases h
  · obtain ⟨q, hread, rfl⟩ := map_eq_ok_iff.1 h
    have hlength := length_readClosing hread
    simp only [Place.skip, List.length_drop] at hlength
    cases r.outer <;> simp only [Turn.place] <;> omega
  · obtain ⟨⟨⟨tag, header⟩, q⟩, hread, rfl⟩ := map_eq_ok_iff.1 h
    have hlength := length_readHeader hread
    simp only [Place.skip, List.length_drop] at hlength
    dsimp only
    split <;> simp only [Turn.place] <;> omega
  · next hfront =>
    obtain ⟨⟨b, q⟩, hread, rfl⟩ := map_eq_ok_iff.1 h
    refine length_readBraced (fun hnil => ?_) hread
    rw [hnil] at hfront
    cases hfront
  · next hfront =>
    obtain ⟨c, cs, hcs, hc⟩ := front_eq_text_iff.1 hfront
    cases h
    simp only [Turn.place, Place.skip, hcs, runSize, List.takeWhile_cons, hc, Bool.not_false,
      if_true, List.length_cons, List.drop_succ_cons, List.length_drop]
    omega

/-- A reading comes to its end, turn by turn. -/
theorem induction {motive : Reading → Prop}
    (step : ∀ r, (∀ r', r.turn = .ok (.more r') → motive r') → motive r) (r : Reading) :
    motive r := by
  induction hn : r.place.rest.length using Nat.strongRecOn generalizing r with
  | ind n ih =>
    subst hn
    exact step r fun r' h => ih _ (length_turn h) r' rfl

/-- The places in a run of text that the reading still comes to, each told by how many characters
stand from it on. -/
inductive TextAt : Reading → Nat → Prop
  | here {r : Reading} {n : Nat} (hfront : front r.place.rest = .text)
      (hle : n ≤ r.place.rest.length)
      (hlt : (r.place.rest.dropWhile fun c => !isTextEnd c).length < n) : TextAt r n
  | later {r r' : Reading} {n : Nat} (h : r.turn = .ok (.more r')) (h' : TextAt r' n) : TextAt r n

theorem TextAt.le {r : Reading} {n : Nat} (h : r.TextAt n) : n ≤ r.place.rest.length := by
  induction h with
  | here _ hle => exact hle
  | later h _ ih => exact Nat.le_trans ih (Nat.le_of_lt (length_turn h))

/-- A place is passed over by the next turn only if that turn is over a run of text. -/
theorem TextAt.of_turn {r : Reading} {n : Nat} (h : r.TextAt n) {t : Turn} (ht : r.turn = .ok t) :
    (front r.place.rest = .text ∧ t.place.rest.length < n) ∨ ∃ r', t = .more r' ∧ r'.TextAt n := by
  cases h with
  | here hfront hle hlt =>
    refine .inl ⟨hfront, ?_⟩
    unfold turn at ht
    rw [hfront] at ht
    cases ht
    rwa [Turn.place, Place.skip, drop_runSize]
  | later h h' =>
    cases ht.symm.trans h
    exact .inr ⟨_, rfl, h'⟩

end Reading

/-! ### Two readings turn by turn -/

/-- The same open elements, wherever they stand. -/
structure OpenElement.Alike (e e' : OpenElement) : Prop where
  tag : e.tag = e'.tag
  attributes : List.Forall₂ (Attribute.Alike False) e.attributes e'.attributes
  children : NodesAlike False e.children.reverse e'.children.reverse

theorem NodesAlike.append {placed : Prop} {ns ns' ms ms' : List Node} (h : NodesAlike placed ns ns')
    (h' : NodesAlike placed ms ms') : NodesAlike placed (ns ++ ms) (ns' ++ ms') := by
  induction h with
  | nil => exact h'
  | element hhead hinside _ _ ih => exact .element hhead hinside ih
  | text hspan _ ih => exact .text hspan ih
  | braced hb _ ih => exact .braced hb ih

theorem OpenElement.Alike.push {e e' : OpenElement} (h : e.Alike e') {n n' : Node}
    (hn : NodesAlike False [n] [n']) : (e.push n).Alike (e'.push n') := by
  refine ⟨h.tag, h.attributes, ?_⟩
  simp only [OpenElement.push, List.reverse_cons]
  exact h.children.append hn

theorem OpenElement.Alike.close {e e' : OpenElement} (h : e.Alike e') (q q' : Place) :
    (e.close q).Alike False (e'.close q') :=
  ⟨⟨h.tag, h.attributes, rfl, False.elim⟩, h.children⟩

structure Reading.Alike (T : Nat → Prop) (r r' : Reading) : Prop where
  outer : List.Forall₂ OpenElement.Alike r.outer r'.outer
  top : r.top.Alike r'.top
  place : Matching T r.place r'.place

inductive Turn.Alike (T : Nat → Prop) : Turn → Turn → Prop
  | closed {t t' : Tree} {q q' : Place} (ht : t.Alike False t') (hq : Matching T q q') :
      Alike T (.closed t q) (.closed t' q')
  | more {r r' : Reading} (h : r.Alike T r') : Alike T (.more r) (.more r')

theorem Reindented.front_eq {x y : List Char} (h : Reindented T x y) : front x = front y := by
  cases h with
  | nil => rfl
  | line => rfl
  | char c h =>
    by_cases hc : c = '<'
    · subst hc
      cases h with
      | nil => rfl
      | line => rfl
      | char d =>
        by_cases hd : d = '/'
        · subst hd
          rfl
        · simp [front, hd]
    by_cases hbrace : c = '\x7b'
    · subst hbrace
      rfl
    · have htext : isTextEnd c = false := by simp [isTextEnd, hc, hbrace]
      rw [front_eq_text_iff.2 ⟨c, _, rfl, htext⟩, front_eq_text_iff.2 ⟨c, _, rfl, htext⟩]

theorem Matching.skip_closing (h : Matching T p q) (hfront : front p.rest = .closing) :
    Matching T (p.skip 2) (q.skip 2) := by
  obtain ⟨cs, hcs⟩ : ∃ cs, p.rest = '<' :: '/' :: cs := by
    unfold front at hfront
    split at hfront <;> first | exact ⟨_, ‹_›⟩ | cases hfront
  have hone : (p.skip 1).rest = '/' :: cs := by simp [Place.skip, hcs]
  rw [← Place.skip_skip p 1 1, ← Place.skip_skip q 1 1]
  exact (h.skip_one (by simp [hcs])).skip_one (by simp [hone])

theorem Matching.skip_opening (h : Matching T p q) (hfront : front p.rest = .opening) :
    Matching T (p.skip 1) (q.skip 1) := by
  refine h.skip_one fun hhead => ?_
  obtain ⟨cs, hcs⟩ := List.head?_eq_some_iff.1 hhead
  rw [hcs] at hfront
  cases hfront

namespace Reading

theorem Alike.turn {r r' : Reading} (h : r.Alike T r') {t : Turn} (ht : r.turn = .ok t)
    (hclear : front r.place.rest ≠ .text → Clear T r.place t.place) :
    ∃ t', r'.turn = .ok t' ∧ t.Alike T t' := by
  unfold Reading.turn at ht ⊢
  rw [← Reindented.front_eq h.place]
  have hmatch := h.place
  split at ht
  · cases ht
  · next hfront =>
    obtain ⟨q, hread, rfl⟩ := map_eq_ok_iff.1 ht
    obtain ⟨e, e', hp, hq⟩ | ⟨r, s, hp, hq, hrs⟩ :=
      ((hmatch.skip_closing hfront).readClosing_agree r.place r'.place r.top.tag).cases
    · cases hread.symm.trans hp
    cases hread.symm.trans hp
    rw [← h.top.tag, hq]
    have houter := h.outer
    generalize r.outer = outer, r'.outer = outer' at houter
    have hclosed := h.top.close q s
    cases houter with
    | nil => exact ⟨_, rfl, .closed hclosed hrs⟩
    | cons hparent houter =>
      have hpushed := hparent.push (.element hclosed.head hclosed.children .nil)
      exact ⟨_, rfl, .more ⟨houter, hpushed, hrs⟩⟩
  · next hfront =>
    obtain ⟨⟨⟨tag, header⟩, q⟩, hread, rfl⟩ := map_eq_ok_iff.1 ht
    have hpass : Clear T (r.place.skip 1) q := by
      refine (hclear (by rw [hfront]; exact Front.noConfusion)).mono ?_ ?_
      · simp only [Place.skip, List.length_drop]
        omega
      · dsimp only
        split <;> exact Nat.le_refl _
    obtain ⟨⟨_, header'⟩, q', hread', ⟨rfl, hheader⟩, hq⟩ :=
      follows_readHeader (hmatch.skip_opening hfront) _ q hread hpass
    rw [hread']
    refine ⟨_, rfl, ?_⟩
    dsimp only
    rw [hheader.selfClosing]
    split
    · have hhead : Head.Alike False ⟨tag, header.attributes, true, r.place.spanTo q⟩
          ⟨tag, header'.attributes, true, r'.place.spanTo q'⟩ :=
        ⟨rfl, hheader.attributes, rfl, False.elim⟩
      exact .more ⟨h.outer, h.top.push (.element hhead .nil .nil), hq⟩
    · exact .more ⟨.cons h.top h.outer, ⟨rfl, hheader.attributes, .nil⟩, hq⟩
  · next hfront =>
    obtain ⟨⟨b, q⟩, hread, rfl⟩ := map_eq_ok_iff.1 ht
    have hpass : Clear T r.place q := hclear (by rw [hfront]; exact Front.noConfusion)
    obtain ⟨b', q', hread', hb, hq⟩ := follows_readBraced hmatch b q hread hpass
    rw [hread']
    exact ⟨_, rfl, .more ⟨h.outer, h.top.push (.braced hb .nil), hq⟩⟩
  · cases ht
    have hrun : Matching T (r.place.skip (runSize (fun c => !isTextEnd c) r.place.rest))
        (r'.place.skip (runSize (fun c => !isTextEnd c) r'.place.rest)) := by
      unfold Matching
      rw [Place.skip, Place.skip, drop_runSize, drop_runSize]
      exact Reindented.dropWhile hmatch fun _ => of_isIndent rfl rfl
    have hvalue : runText (r'.place.rest.takeWhile fun c => !isTextEnd c) =
        runText (r.place.rest.takeWhile fun c => !isTextEnd c) :=
      (Reindented.takeWhile hmatch (of_isIndent rfl rfl)).runText_eq.symm
    refine ⟨_, rfl, .more ⟨h.outer, ?_, hrun⟩⟩
    rw [hvalue]
    dsimp only
    split
    · exact h.top
    · exact h.top.push (.text False.elim .nil)

/-- Reading goes on alike to the end if lines are indented anew only within runs of text. -/
theorem Alike.read {r r' : Reading} (h : r.Alike T r')
    (hT : ∀ n ≤ r.place.rest.length, T n → r.TextAt n) {t : Tree} (hread : r.read = .ok (t, q)) :
    ∃ t' q', r'.read = .ok (t', q') ∧ t.Alike False t' ∧ Matching T q q' := by
  induction r using Reading.induction generalizing r' with
  | step r ih =>
    rw [read_eq] at hread ⊢
    obtain ⟨o, ho, hrest⟩ := bind_eq_ok_iff.1 hread
    have hclear : front r.place.rest ≠ .text → Clear T r.place o.place := by
      intro hfront n hn hle hTn
      obtain ⟨htext, -⟩ | ⟨r₁, rfl, htext⟩ := (hT n hle hTn).of_turn ho
      · exact hfront htext
      · exact absurd htext.le (Nat.not_le.2 hn)
    obtain ⟨o', ho', halike⟩ := h.turn ho hclear
    rw [ho']
    cases halike with
    | closed ht hq =>
      cases hrest
      exact ⟨_, _, rfl, ht, hq⟩
    | @more r₁ r₁' h₁ =>
      have hlength : r₁.place.rest.length < r.place.rest.length := length_turn ho
      refine ih r₁ ho h₁ (fun n hle hTn => ?_) hrest
      obtain ⟨-, hlt⟩ | ⟨_, heq, htext⟩ := (hT n (by omega) hTn).of_turn ho
      · exact absurd hle (Nat.not_le.2 hlt)
      · cases heq
        exact htext

end Reading

/-! ### The way to the root element -/

namespace Matching

theorem peekLenient_rel (h : Matching T p q) :
    Option.Rel (Lexed.Matching T) (peekLenient p) (peekLenient q) := by
  induction hn : p.rest.length using Nat.strongRecOn generalizing p q with
  | ind n ih =>
    subst hn
    have hrel := h.lexFrom_rel
    rw [peekLenient_eq, peekLenient_eq]
    cases hx : lexFrom p with
    | none =>
      rw [hx] at hrel
      generalize lexFrom q = b at hrel
      cases hrel
      exact .none
    | some x =>
      rw [hx] at hrel
      generalize lexFrom q = b at hrel
      cases hrel with
      | @some _ y hxy =>
        obtain ⟨htoken, hstart, hstop⟩ := hxy
        dsimp only
        rw [← htoken]
        cases ht : x.token with
        | some t => exact .some ⟨rfl, hstart, hstop (by rw [ht]; rfl)⟩
        | none =>
          obtain ⟨hle, hne⟩ := length_start_lexFrom hx
          have hpos := List.length_pos_iff.2 hne
          exact ih _ (by simp only [Place.skip, List.length_drop]; omega)
            (hstart.skip_one (head?_start_ne_line hx)) rfl

theorem skipToReturn_agree (h : Matching T p q) :
    Agree False (Matching T) (skipToReturn p) (skipToReturn q) := by
  induction hn : p.rest.length using Nat.strongRecOn generalizing p q with
  | ind n ih =>
    subst hn
    have hrel := h.peekLenient_rel
    rw [skipToReturn_eq, skipToReturn_eq]
    cases hx : peekLenient p with
    | none =>
      rw [hx] at hrel
      generalize peekLenient q = b at hrel
      cases hrel
      exact .error False.elim
    | some x =>
      rw [hx] at hrel
      generalize peekLenient q = b at hrel
      cases hrel with
      | @some _ y hxy =>
        have hmore := ih _ (length_peekLenient hx) hxy.stop rfl
        dsimp only
        rw [← hxy.token]
        by_cases hreturn : x.token = .keyword .returnWord
        · rw [if_pos hreturn, if_pos hreturn]
          obtain ⟨e, e', hp, hq⟩ | ⟨hp, hq⟩ | ⟨t, a, b, r, s, hp, hq, -⟩ := hxy.stop.peek_cases
          · rw [hp, hq]
            exact .error False.elim
          · rw [hp, hq]
            exact hmore
          · rw [hp, hq]
            by_cases hparen : t = .symbol .leftParen
            · subst hparen
              exact .ok hxy.stop
            by_cases hangle : t = .symbol .leftAngle
            · subst hangle
              exact .ok hxy.stop
            simp only [Option.some.injEq, Lexed.mk.injEq, hparen, hangle, false_and, imp_self,
              implies_true]
            exact hmore
        · rw [if_neg hreturn, if_neg hreturn]
          exact hmore

end Matching

/-! ### Whole sources -/

/-- The reading of what is inside an element, from behind its tag on, unless the tag closes it. -/
def elementInside? (p : Place) : Option Reading :=
  match peekWanted .element p with
  | .error _ => none
  | .ok x =>
    match readHeader x.stop with
    | .error _ => none
    | .ok ((tag, header), q) =>
      if header.selfClosing then none else some ⟨[], ⟨x.start, tag, header.attributes, []⟩, q⟩

/-- The same for the root element, with or without parentheses around it. -/
def rootInside? (p : Place) : Option Reading :=
  match peek p with
  | .error _ => none
  | .ok (some ⟨.symbol .leftParen, _, q⟩) => elementInside? q
  | .ok _ => elementInside? p

/-- The same for the root element of a source. -/
def sourceInside? (source : String) : Option Reading :=
  let start := skipGap (Place.start source.toList)
  if start.rest.head? = some '<' then rootInside? start
  else (skipToReturn start).toOption.bind rootInside?

/-- A place of a source within a run of text between two tags, told by how many characters stand
from it on. -/
def InText (source : String) (n : Nat) : Prop :=
  ∃ r, sourceInside? source = some r ∧ r.TextAt n

/-- Places in the run of text behind the tag of the root element. -/
theorem inText_of_first {source : String} {n : Nat}
    (h : (sourceInside? source).any (fun r => front r.place.rest = .text ∧
      n ≤ r.place.rest.length ∧ (r.place.rest.dropWhile fun c => !isTextEnd c).length < n) = true) :
    InText source n := by
  cases hr : sourceInside? source with
  | none =>
    rw [hr] at h
    cases h
  | some r =>
    rw [hr] at h
    obtain ⟨hfront, hle, hlt⟩ := of_decide_eq_true h
    exact ⟨r, hr, .here hfront hle hlt⟩

theorem follows_readElement (h : Matching T p p')
    (hT : ∀ n, T n → ∃ r, elementInside? p = some r ∧ r.TextAt n) {t : Tree}
    (hread : readElement p = .ok (t, q)) :
    ∃ t' q', readElement p' = .ok (t', q') ∧ t.Alike False t' ∧ Matching T q q' := by
  unfold readElement at hread ⊢
  unfold elementInside? at hT
  obtain ⟨e, e', hp, hq⟩ | ⟨x, y, hp, hq, hxy⟩ := (h.peekWanted_agree .element).cases
  · rw [hp] at hread
    cases hread
  rw [hp] at hread hT
  rw [hq]
  dsimp only at hread hT ⊢
  cases hheader : readHeader x.stop with
  | error e =>
    rw [hheader] at hread
    cases hread
  | ok z =>
    obtain ⟨⟨tag, header⟩, r⟩ := z
    rw [hheader] at hread hT
    dsimp only at hread hT
    have hclear : Clear T x.stop r := by
      intro n hn _ hTn
      obtain ⟨r₁, heq, htext⟩ := hT n hTn
      split at heq
      · cases heq
      · cases heq
        exact absurd htext.le (Nat.not_le.2 hn)
    obtain ⟨⟨_, header'⟩, r', hheader', ⟨rfl, halike⟩, hr⟩ :=
      follows_readHeader hxy.stop _ r hheader hclear
    rw [hheader']
    dsimp only
    rw [← halike.selfClosing]
    by_cases hclosed : header.selfClosing = true
    · rw [if_pos hclosed] at hread ⊢
      cases hread
      exact ⟨_, _, rfl, ⟨⟨rfl, halike.attributes, rfl, False.elim⟩, .nil⟩, hr⟩
    · rw [if_neg hclosed] at hread hT ⊢
      have hopen : Reading.Alike T ⟨[], ⟨x.start, tag, header.attributes, []⟩, r⟩
          ⟨[], ⟨y.start, tag, header'.attributes, []⟩, r'⟩ :=
        ⟨.nil, ⟨rfl, halike.attributes, .nil⟩, hr⟩
      refine hopen.read (fun n _ hTn => ?_) hread
      obtain ⟨_, heq, htext⟩ := hT n hTn
      cases heq
      exact htext

theorem follows_readRootElement (h : Matching T p p')
    (hT : ∀ n, T n → ∃ r, elementInside? p = some r ∧ r.TextAt n) {t : Tree}
    (hread : readRootElement p = .ok (t, q)) :
    ∃ t' q', readRootElement p' = .ok (t', q') ∧ t.Alike False t' ∧ Matching T q q' := by
  unfold readRootElement at hread ⊢
  obtain ⟨e, e', hp, hq⟩ | ⟨hp, hq⟩ | ⟨t, a, b, r, s, hp, hq, -⟩ := h.peek_cases
  · rw [hp] at hread
    cases hread
  · rw [hp] at hread
    cases hread
  · rw [hp] at hread
    rw [hq]
    by_cases ht : t = .symbol .leftAngle
    · subst ht
      exact follows_readElement h hT hread
    · simp only [Lexed.mk.injEq, ht, false_and, imp_self, implies_true] at hread
      cases hread

theorem readRoot_alike (h : Matching T p p')
    (hT : ∀ n, T n → ∃ r, rootInside? p = some r ∧ r.TextAt n) {t : Tree}
    (hread : readRoot p = .ok t) : ∃ t', readRoot p' = .ok t' ∧ t.Alike False t' := by
  unfold readRoot at hread ⊢
  unfold rootInside? at hT
  have hbare (hT : ∀ n, T n → ∃ r, elementInside? p = some r ∧ r.TextAt n)
      (hread : (readRootElement p).map (·.1) = .ok t) :
      ∃ t', (readRootElement p').map (·.1) = .ok t' ∧ t.Alike False t' := by
    obtain ⟨⟨_, q⟩, hroot, rfl⟩ := map_eq_ok_iff.1 hread
    obtain ⟨t', q', hroot', halike, -⟩ := follows_readRootElement h hT hroot
    exact ⟨t', by rw [hroot']; rfl, halike⟩
  obtain ⟨e, e', hp, hq⟩ | ⟨hp, hq⟩ | ⟨token, a, b, r, s, hp, hq, -, hr⟩ := h.peek_cases
  · rw [hp] at hread
    cases hread
  · rw [hp] at hread hT
    rw [hq]
    exact hbare hT hread
  · rw [hp] at hread hT
    rw [hq]
    by_cases ht : token = .symbol .leftParen
    · subst ht
      dsimp only at hread hT ⊢
      cases hroot : readRootElement r with
      | error e =>
        rw [hroot] at hread
        cases hread
      | ok z =>
        obtain ⟨tree, q⟩ := z
        rw [hroot] at hread
        obtain ⟨q₁, hexpect, rfl⟩ := map_eq_ok_iff.1 hread
        obtain ⟨tree', q', hroot', halike, hqq⟩ := follows_readRootElement hr hT hroot
        obtain ⟨e, e', hfails, -⟩ | ⟨_, q₂, -, hexpect', -⟩ := (hqq.expect_agree .rightParen).cases
        · cases hexpect.symm.trans hfails
        · rw [hroot']
          dsimp only
          rw [hexpect']
          exact ⟨tree', rfl, halike⟩
    · simp only [Option.some.injEq, Lexed.mk.injEq, ht, false_and, imp_self,
        implies_true] at hread hT ⊢
      exact hbare hT hread

theorem readTree_eq (source : String) : readTree source =
    let start := skipGap (Place.start source.toList)
    if start.rest.head? = some '<' then readRoot start else skipToReturn start >>= readRoot := by
  unfold readTree
  dsimp only
  split
  · next hcs =>
    rw [hcs]
    rfl
  · next hangle =>
    rw [if_neg]
    · cases skipToReturn _ <;> rfl
    · intro hhead
      obtain ⟨cs, hcs⟩ := List.head?_eq_some_iff.1 hhead
      exact hangle cs hcs

theorem readTree_alike {source target : String}
    (h : Reindented (InText source) source.toList target.toList) {t : Tree}
    (hread : readTree source = .ok t) : ∃ t', readTree target = .ok t' ∧ t.Alike False t' := by
  have hstart : Matching (InText source) (skipGap (Place.start source.toList))
      (skipGap (Place.start target.toList)) :=
    Matching.skipGap h
  have hT (n : Nat) (hn : InText source n) : ∃ r, sourceInside? source = some r ∧ r.TextAt n := hn
  rw [readTree_eq] at hread ⊢
  unfold sourceInside? at hT
  dsimp only at hread hT ⊢
  rw [Reindented.head?_eq hstart] at hread hT
  generalize skipGap (Place.start source.toList) = start,
    skipGap (Place.start target.toList) = start' at hstart hread hT ⊢
  split at hread
  · next hhead =>
    rw [if_pos hhead] at hT ⊢
    exact readRoot_alike hstart hT hread
  · next hhead =>
    rw [if_neg hhead] at hT ⊢
    obtain ⟨p, hp, hread⟩ := bind_eq_ok_iff.1 hread
    obtain ⟨e, e', hfails, -⟩ | ⟨_, p', heq, hp', hpp⟩ := hstart.skipToReturn_agree.cases
    · cases hp.symm.trans hfails
    · cases hp.symm.trans heq
      rw [hp] at hT
      rw [hp']
      exact readRoot_alike hpp hT hread

/-- Indenting lines of text between tags anew is harmless: the source stands for the same
elements. -/
theorem read_reindented {source target path : String} {ctx : BindingContext} {t : ReadTree}
    (hread : read source path ctx = .ok t)
    (h : Reindented (InText source) source.toList target.toList) :
    ∃ t', read target path ctx = .ok t' ∧ t'.rootId = t.rootId ∧ t'.elements = t.elements := by
  unfold read at hread ⊢
  obtain ⟨tree, htree, helements⟩ := bind_eq_ok_iff.1 hread
  obtain ⟨tree', htree', halike⟩ := readTree_alike h htree
  have hknown : True → ctx = ctx := fun _ => rfl
  have hagree := elementsOf_agree hknown path halike
  rw [helements] at hagree
  rw [htree']
  obtain ⟨e, e', hfails, -⟩ | ⟨_, t', heq, helements', hunbound, hsame⟩ := hagree.cases
  · cases hfails
  · cases heq
    exact ⟨t', helements', (congrArg Prod.fst hunbound).symm, (hsame trivial).symm⟩

theorem read_reindented_greeting :
    let tag := "<div id=\"a\" ownership-type=\"screen\" owner-id=\"S1\">"
    let source := tag ++ "\n  Hi\n</div>"
    let target := tag ++ "\n\tHi\n    </div>"
    ∃ t t', read source "a.jsx" .empty = .ok t ∧ read target "a.jsx" .empty = .ok t' ∧
      t'.elements = t.elements := by
  intro tag source target
  obtain ⟨t, ht⟩ : ∃ t, read source "a.jsx" .empty = .ok t :=
    exists_read_of_readsText (by decide +kernel)
  have h₁ : InText source 12 := inText_of_first (by decide +kernel)
  have h₂ : InText source 7 := inText_of_first (by decide +kernel)
  have h : Reindented (InText source) source.toList target.toList := by
    have hsource : source.toList = tag.toList ++
        '\n' :: ([' ', ' '] ++ 'H' :: 'i' :: '\n' :: ([] ++ "</div>".toList)) := by
      decide +kernel
    have htarget : target.toList = tag.toList ++
        '\n' :: (['\t'] ++ 'H' :: 'i' :: '\n' :: ([' ', ' ', ' ', ' '] ++ "</div>".toList)) := by
      decide +kernel
    rw [hsource, htarget]
    have hindented {u : List Char} (hu : u.all isIndent = true) : ∀ c ∈ u, isIndent c = true :=
      List.all_eq_true.1 hu
    refine .append_left _ (.line h₁ (hindented rfl) (hindented rfl) (.char 'H' (.char 'i' ?_)))
    exact .line h₂ (hindented rfl) (hindented rfl) (.refl _)
  obtain ⟨t', ht', -, helements⟩ := read_reindented ht h
  exact ⟨t, t', ht, ht', helements⟩

end DesignSync.Markup

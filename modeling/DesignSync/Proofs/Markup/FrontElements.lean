import DesignSync.Proofs.Markup.FrontTags
import DesignSync.Proofs.Markup.Spans

/-!
An element is read up to the angle that ends it, and nothing behind that angle makes a difference.
Turn by turn the reading goes on in front of another text as it does in front of the first one.
-/

namespace DesignSync.Markup

open Text

variable {p q : Place} {u x : List Char}

/-- The same open element, whatever stands behind its start. -/
structure OpenElement.Same (e e' : OpenElement) : Prop where
  offset : e.start.offset = e'.start.offset
  tag : e.tag = e'.tag
  attributes : e.attributes = e'.attributes
  children : e.children = e'.children

theorem OpenElement.Same.push {e e' : OpenElement} (h : e.Same e') (n : Node) :
    (e.push n).Same (e'.push n) :=
  ⟨h.offset, h.tag, h.attributes, congrArg (n :: ·) h.children⟩

theorem OpenElement.Same.close {e e' : OpenElement} (h : e.Same e') (stop : Place)
    (x : List Char) : e'.close (stop.facing x) = e.close stop := by
  simp only [OpenElement.close, Place.spanTo, Place.facing, h.offset, h.tag, h.attributes,
    h.children]

/-- The same open elements. -/
structure Reading.Same (r r' : Reading) : Prop where
  outer : List.Forall₂ OpenElement.Same r.outer r'.outer
  top : r.top.Same r'.top

/-- What a turn comes to, and what it comes to in front of another text. -/
inductive Turn.Facing (x : List Char) : Turn → Turn → Prop
  | closed (t : Tree) (stop : Place) : Facing x (.closed t stop) (.closed t (stop.facing x))
  | more {r r' : Reading} (h : r.Same r') (hplace : r'.place = r.place.facing x) :
      Facing x (.more r) (.more r')

theorem front_angle (c : Char) (cs : List Char) :
    front ('<' :: c :: cs) = if c = '/' then .closing else .opening := by
  split
  · next hc => rw [hc]; rfl
  · next hc =>
    unfold front
    split
    · next heq => cases heq
    · next heq =>
      cases heq
      exact absurd rfl hc
    · rfl
    · next heq => cases heq
    · next hangle _ => exact (hangle _ rfl).elim

theorem front_opening {w y : List Char} (h : front ('<' :: (w ++ y)) = .opening) (hw : w ≠ []) :
    front ('<' :: (w ++ x)) = .opening := by
  cases w with
  | nil => exact absurd rfl hw
  | cons c w => exact (front_angle c (w ++ x)).trans ((front_angle c (w ++ y)).symm.trans h)

/-! ### What the next part is -/

/-- A closing tag is one whatever comes next. -/
theorem closing_front {tag : String} (hfront : front p.rest = .closing)
    (h : readClosing p tag (p.skip 2) = .ok q) (hover : p.Over u q) :
    front (p.facing (u ++ x)).rest = .closing ∧
      readClosing (p.facing (u ++ x)) tag ((p.facing (u ++ x)).skip 2) = .ok (q.facing x) := by
  obtain ⟨rest, hrest⟩ := exists_of_front_closing hfront
  have hslash : p.Over ['<', '/'] (p.skip 2) := Place.over_skip_of_eq hrest rfl
  obtain ⟨w, hw⟩ := (readClosing_ahead hslash.leads tag).of_ok h
  obtain rfl : u = ['<', '/'] ++ w := hover.eq_append hslash hw
  have hskip : (p.facing (['<', '/'] ++ w ++ x)).skip 2 = (p.skip 2).facing (w ++ x) :=
    hslash.skip_facing (w ++ x)
  refine ⟨rfl, ?_⟩
  rw [hskip]
  exact readClosing_front h hw _

/-- An opening tag is one whatever comes next. -/
theorem opening_front {tag : String} {e : HeaderEnd} (hfront : front p.rest = .opening)
    (h : readHeader (p.skip 1) = .ok ((tag, e), q)) (hover : p.Over u q) :
    front (p.facing (u ++ x)).rest = .opening ∧
      readHeader ((p.facing (u ++ x)).skip 1) = .ok ((tag, e), q.facing x) := by
  obtain ⟨rest, hrest⟩ := exists_of_front_opening hfront
  have hangle : p.Over ['<'] (p.skip 1) := Place.over_skip_of_eq hrest rfl
  obtain ⟨w, hw⟩ := (readHeader_ahead (p.skip 1)).of_ok h
  obtain rfl : u = ['<'] ++ w := hover.eq_append hangle hw
  have hskip : (p.facing (['<'] ++ w ++ x)).skip 1 = (p.skip 1).facing (w ++ x) :=
    hangle.skip_facing (w ++ x)
  refine ⟨?_, ?_⟩
  · rw [hangle.rest, hw.rest] at hfront
    exact front_opening hfront (hw.ne_nil (length_readHeader h))
  · rw [hskip]
    exact readHeader_front h hw

/-- A braced part is one whatever comes next. -/
theorem braced_front {b : Braced} (hfront : front p.rest = .braced)
    (h : readBraced p = .ok (b, q)) (hover : p.Over u q) :
    front (p.facing (u ++ x)).rest = .braced ∧
      readBraced (p.facing (u ++ x)) = .ok (b, q.facing x) := by
  obtain ⟨rest, hrest⟩ := exists_of_front_braced hfront
  have hne : p.rest ≠ [] := by rw [hrest]; exact List.cons_ne_nil _ _
  refine ⟨?_, readBraced_front h hover⟩
  cases u with
  | nil => exact absurd rfl (hover.ne_nil (length_readBraced hne h))
  | cons c u =>
    obtain ⟨rfl, -⟩ := List.cons.inj (hrest.symm.trans hover.rest)
    rfl

/-- A run of text is the same run in front of another end of text. -/
theorem text_front (hfront : front p.rest = .text)
    (hover : p.Over u (p.skip (runSize (fun c => !isTextEnd c) p.rest)))
    (hend : ∃ c ∈ x.head?, isTextEnd c = true) :
    front (p.facing (u ++ x)).rest = .text ∧
      ((p.rest.takeWhile fun c => !isTextEnd c) = u) ∧
      ((u ++ x).takeWhile fun c => !isTextEnd c) = u := by
  obtain ⟨c, rest, hrest, hc⟩ := front_eq_text_iff.1 hfront
  obtain ⟨d, hd, hdend⟩ := hend
  obtain ⟨y, rfl⟩ := List.head?_eq_some_iff.1 hd
  have hu : u = p.rest.takeWhile fun c => !isTextEnd c :=
    (hover.eq (p.over_skip _)).trans (take_runSize _ _)
  have hall : ∀ c ∈ u, (!isTextEnd c) = true := by
    rw [hu]
    exact fun c hc => List.mem_takeWhile_imp (p := fun c => !isTextEnd c) hc
  refine ⟨?_, hu.symm, ?_⟩
  · refine front_eq_text_iff.2 ⟨c, (rest.takeWhile fun c => !isTextEnd c) ++ d :: y, ?_, hc⟩
    rw [hu, hrest, List.takeWhile_cons, hc]
    rfl
  · rw [List.takeWhile_append_of_pos hall, List.takeWhile_cons, hdend]
    simp

namespace Reading

/-- A turn over a tag or a braced part does not depend on what comes next, and one over a run of
text only on its end. -/
theorem turn_front {r r' : Reading} {t : Turn} (h : r.turn = .ok t)
    (hover : r.place.Over u t.place) (hsame : r.Same r')
    (hplace : r'.place = r.place.facing (u ++ x))
    (hend : front r.place.rest = .text → ∃ c ∈ x.head?, isTextEnd c = true) :
    ∃ t', r'.turn = .ok t' ∧ t.Facing x t' := by
  obtain ⟨outer, top, p⟩ := r
  obtain ⟨outer', top', p'⟩ := r'
  obtain ⟨houter, htop⟩ := hsame
  dsimp only at hover houter htop hplace hend
  subst hplace
  unfold turn at h ⊢
  dsimp only at h ⊢
  split at h
  · cases h
  · next hfront =>
    obtain ⟨q, hread, rfl⟩ := map_eq_ok_iff.1 h
    have hq : p.Over u q := by
      cases outer <;> exact hover
    obtain ⟨hfront', hread'⟩ := closing_front (x := x) hfront hread hq
    rw [hfront']
    dsimp only
    rw [← htop.tag, hread']
    cases houter with
    | nil => exact ⟨_, rfl, htop.close q x ▸ .closed _ q⟩
    | cons hparent houter =>
      refine ⟨_, rfl, .more ⟨houter, ?_⟩ rfl⟩
      rw [htop.close q x]
      exact hparent.push _
  · next hfront =>
    obtain ⟨⟨⟨tag, header⟩, q⟩, hread, rfl⟩ := map_eq_ok_iff.1 h
    have hq : p.Over u q := by
      dsimp only at hover
      split at hover <;> exact hover
    obtain ⟨hfront', hread'⟩ := opening_front (x := x) hfront hread hq
    rw [hfront']
    dsimp only
    rw [hread']
    dsimp only [Except.map]
    split
    · exact ⟨_, rfl, .more ⟨houter, htop.push _⟩ rfl⟩
    · exact ⟨_, rfl, .more ⟨.cons htop houter, ⟨rfl, rfl, rfl, rfl⟩⟩ rfl⟩
  · next hfront =>
    obtain ⟨⟨b, q⟩, hread, rfl⟩ := map_eq_ok_iff.1 h
    obtain ⟨hfront', hread'⟩ := braced_front (x := x) hfront hread hover
    rw [hfront']
    dsimp only
    rw [hread']
    exact ⟨_, rfl, .more ⟨houter, htop.push _⟩ rfl⟩
  · next hfront =>
    cases h
    obtain ⟨hfront', hrun, hrun'⟩ := text_front hfront hover (hend hfront)
    have hskip := hover.skip_facing x
    have hrest' : (p.facing (u ++ x)).rest = u ++ x := rfl
    dsimp only [Turn.place, runSize] at hskip
    rw [hrun] at hskip
    rw [hfront']
    dsimp only [runSize]
    rw [hrest', hrun', hskip, hrun]
    refine ⟨_, rfl, .more ⟨houter, ?_⟩ rfl⟩
    dsimp only
    split
    · exact htop
    · exact htop.push _

/-- A run of text goes on up to a tag or a braced part. -/
theorem isTextEnd_of_turn {r r' : Reading} (h : r.turn = .ok (.more r'))
    (hfront : front r.place.rest = .text) : ∀ c ∈ r'.place.rest.head?, isTextEnd c = true := by
  unfold turn at h
  rw [hfront] at h
  cases h
  intro c hc
  dsimp only [Place.skip] at hc
  rw [drop_runSize] at hc
  simpa using head?_dropWhile c hc

theorem length_read {r : Reading} {t : Tree} {stop : Place} (h : r.read = .ok (t, stop)) :
    stop.rest.length < r.place.rest.length := by
  rw [read_eq] at h
  cases hturn : r.turn with
  | error e =>
    rw [hturn] at h
    cases h
  | ok turn =>
    have hlength := length_turn hturn
    rw [hturn] at h
    cases turn with
    | closed t' stop' =>
      cases h
      exact hlength
    | more r₁ =>
      obtain ⟨v, hv⟩ := ((r₁.read_ahead r₁.place).of_ok h).1
      have hrest := congrArg List.length hv.rest
      rw [List.length_append] at hrest
      simp only [Turn.place] at hlength hrest
      omega

/-- The rest of an element is read as it is in front of another text. -/
theorem Same.read_front {r r' : Reading} {t : Tree} {stop : Place} (hsame : r.Same r')
    (h : r.read = .ok (t, stop)) (hover : r.place.Over u stop)
    (hplace : r'.place = r.place.facing (u ++ x)) : r'.read = .ok (t, stop.facing x) := by
  induction r using Reading.induction generalizing r' u with
  | step r ih =>
    rw [read_eq] at h ⊢
    cases hturn : r.turn with
    | error e =>
      rw [hturn] at h
      cases h
    | ok turn =>
      rw [hturn] at h
      cases turn with
      | closed t' stop' =>
        cases h
        have hnot : front r.place.rest ≠ .text := fun hfront => by
          unfold turn at hturn
          rw [hfront] at hturn
          cases hturn
        obtain ⟨_, hturn', hfacing⟩ := turn_front (x := x) hturn hover hsame hplace
          fun hfront => absurd hfront hnot
        cases hfacing
        rw [hturn']
        rfl
      | more r₁ =>
        obtain ⟨v, hv⟩ := ((r.turn_ahead r.place).of_ok hturn).1
        obtain ⟨w, hw⟩ := ((r₁.read_ahead r₁.place).of_ok h).1
        obtain rfl : u = v ++ w := hover.eq_append hv hw
        rw [List.append_assoc] at hplace
        obtain ⟨_, hturn', hfacing⟩ := turn_front hturn hv hsame hplace fun hfront => by
          have hend := isTextEnd_of_turn hturn hfront
          rw [hw.rest] at hend
          cases w with
          | nil => exact absurd rfl (hw.ne_nil (length_read h))
          | cons c w => exact ⟨c, rfl, hend c rfl⟩
        cases hfacing with
        | more hsame₁ hplace₁ =>
          rw [hturn']
          exact ih _ hturn hsame₁ h hw hplace₁

end Reading

/-- An element is read as it is in front of another text. -/
theorem readElement_front {t : Tree} {a b : Place}
    (hpeek : peek p = .ok (some ⟨.symbol .leftAngle, a, b⟩)) (h : readElement p = .ok (t, q))
    (hover : p.Over u q) : readElement (p.facing (u ++ x)) = .ok (t, q.facing x) := by
  unfold readElement at h ⊢
  rw [peekWanted_eq_ok_iff.2 hpeek] at h
  dsimp only at h
  obtain ⟨v, hv⟩ := leads_of_peek hpeek
  have hangle {y : List Char} : peek (p.facing (v ++ y)) = _ := peek_symbol_front rfl hpeek hv
  split at h
  · cases h
  · next tag header r hread =>
    obtain ⟨w, hw⟩ := (readHeader_ahead b).of_ok hread
    split at h
    · next hclosed =>
      cases h
      obtain rfl : u = v ++ w := hover.eq_append hv hw
      rw [List.append_assoc, peekWanted_eq_ok_iff.2 hangle]
      dsimp only
      rw [readHeader_front hread hw]
      dsimp only
      rw [if_pos hclosed]
      rfl
    · next hopen =>
      let inside : Reading := ⟨[], ⟨a, tag, header.attributes, []⟩, r⟩
      obtain ⟨y, hy⟩ := ((inside.read_ahead r).of_ok h).1
      obtain rfl : u = v ++ (w ++ y) := hover.eq_append hv (hw.trans hy)
      rw [List.append_assoc, List.append_assoc, peekWanted_eq_ok_iff.2 hangle]
      dsimp only
      rw [readHeader_front hread hw]
      dsimp only
      rw [if_neg hopen]
      let inside' : Reading :=
        ⟨[], ⟨a.facing ('<' :: (w ++ (y ++ x))), tag, header.attributes, []⟩, r.facing (y ++ x)⟩
      have hsame : inside.Same inside' := ⟨.nil, rfl, rfl, rfl, rfl⟩
      exact hsame.read_front h hy rfl

end DesignSync.Markup

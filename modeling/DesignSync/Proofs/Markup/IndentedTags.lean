import DesignSync.Proofs.Markup.Header
import DesignSync.Proofs.Markup.IndentedTokens

/-!
Tags of texts that differ in how some lines are indented. Names and closing tags are read alike
from both. What is taken as it stands, attribute strings and braced expressions, is the same in both
where no line is indented anew.
-/

namespace DesignSync.Markup

open Text

variable {T : Nat → Prop} {p q p' : Place}

/-! ### Readers of tokens -/

/-- Two things read from matching texts, with the matching places behind them. -/
def ReadAlike {α : Type} (T : Nat → Prop) (R : α → α → Prop) (x y : α × Place) : Prop :=
  R x.1 y.1 ∧ Matching T x.2 y.2

namespace Matching

theorem peek_agree (h : Matching T p q) :
    Agree False (Option.Rel (Lexed.Matching T)) (peek p) (peek q) := by
  have hrel := h.lexFrom_rel
  unfold peek
  generalize lexFrom p = a, lexFrom q = b at hrel
  cases hrel with
  | none => exact .ok .none
  | @some x y hxy =>
    obtain ⟨htoken, hstart, hstop⟩ := hxy
    dsimp only
    rw [← htoken]
    cases ht : x.token with
    | none => exact .error False.elim
    | some t => exact .ok (.some ⟨rfl, hstart, hstop (by rw [ht]; rfl)⟩)

theorem peekWanted_agree (h : Matching T p q) (wanted : Wanted) :
    Agree False (Lexed.Matching T) (peekWanted wanted p) (peekWanted wanted q) := by
  have hagree := h.peek_agree
  unfold peekWanted
  generalize peek p = a, peek q = b at hagree
  cases hagree with
  | error => exact .error False.elim
  | ok hrel =>
    cases hrel with
    | none => exact .error False.elim
    | some hxy => exact .ok hxy

theorem peek_cases (h : Matching T p q) :
    (∃ e e', peek p = .error e ∧ peek q = .error e') ∨
      (peek p = .ok none ∧ peek q = .ok none) ∨
      ∃ t a b r s, peek p = .ok (some ⟨t, a, r⟩) ∧ peek q = .ok (some ⟨t, b, s⟩) ∧
        Matching T a b ∧ Matching T r s := by
  obtain hfails | ⟨x, y, hp, hq, hxy⟩ := h.peek_agree.cases
  · exact .inl hfails
  · cases hxy with
    | none => exact .inr (.inl ⟨hp, hq⟩)
    | @some x y hxy =>
      obtain ⟨t, a, r⟩ := x
      obtain ⟨t', b, s⟩ := y
      obtain ⟨rfl, ha, hr⟩ := hxy
      exact .inr (.inr ⟨t, a, b, r, s, hp, hq, ha, hr⟩)

theorem expect_agree (h : Matching T p q) (s : Symbol) :
    Agree False (Matching T) (expect s p) (expect s q) := by
  unfold expect
  obtain ⟨e, e', hp, hq⟩ | ⟨x, y, hp, hq, hxy⟩ := (h.peekWanted_agree (.symbol s)).cases
  · rw [hp, hq]
    exact .error False.elim
  · rw [hp, hq]
    dsimp only
    rw [hxy.token]
    split
    · exact .ok hxy.stop
    · exact .error False.elim

theorem readName_agree (h : Matching T p q) (wanted : Wanted) :
    Agree False (ReadAlike T Eq) (readName wanted p) (readName wanted q) := by
  unfold readName
  obtain ⟨e, e', hp, hq⟩ | ⟨x, y, hp, hq, hxy⟩ := (h.peekWanted_agree wanted).cases
  · rw [hp, hq]
    exact .error False.elim
  · rw [hp, hq]
    dsimp only
    rw [hxy.token]
    cases y.token.name? with
    | none => exact .error False.elim
    | some name => exact .ok ⟨rfl, hxy.stop⟩

theorem readDotted_agree (h : Matching T p q) :
    Agree False (ReadAlike T Eq) (readDotted p) (readDotted q) := by
  induction hn : p.rest.length using Nat.strongRecOn generalizing p q with
  | ind n ih =>
    subst hn
    rw [readDotted_eq, readDotted_eq]
    obtain ⟨e, e', hp, hq⟩ | ⟨hp, hq⟩ | ⟨t, a, b, r, s, hp, hq, -, hr⟩ := h.peek_cases
    · rw [hp, hq]
      exact .error False.elim
    · rw [hp, hq]
      exact .ok ⟨rfl, h⟩
    · rw [hp, hq]
      by_cases ht : t = .symbol .dot
      · subst ht
        dsimp only
        obtain ⟨e, e', hp', hq'⟩ | ⟨x, y, hp', hq', hname, hrest⟩ :=
          (hr.readName_agree .tagName).cases
        · rw [hp', hq']
          exact .error False.elim
        · have hlength := length_peek hp
          have hlength' := length_readName hp'
          rw [hp', hq']
          dsimp only at hlength ⊢
          refine (ih _ (by omega) hrest rfl).map ?_
          rintro ⟨more, _⟩ ⟨_, _⟩ ⟨rfl, hrest⟩
          exact ⟨by rw [hname], hrest⟩
      · simp only [Option.some.injEq, Lexed.mk.injEq, ht, false_and, imp_self, implies_true]
        exact .ok ⟨rfl, h⟩

theorem readTagName_agree (h : Matching T p q) :
    Agree False (ReadAlike T Eq) (readTagName p) (readTagName q) := by
  unfold readTagName
  obtain ⟨e, e', hp, hq⟩ | ⟨x, y, hp, hq, hname, hrest⟩ := (h.readName_agree .tagName).cases
  · rw [hp, hq]
    exact .error False.elim
  · rw [hp, hq]
    refine hrest.readDotted_agree.map ?_
    rintro ⟨more, _⟩ ⟨_, _⟩ ⟨rfl, hrest⟩
    exact ⟨by rw [hname], hrest⟩

theorem readAttributeName_agree (h : Matching T p q) :
    Agree False (ReadAlike T Eq) (readAttributeName p) (readAttributeName q) := by
  unfold readAttributeName
  obtain ⟨e, e', hp, hq⟩ | ⟨x, y, hp, hq, hname, hrest⟩ := (h.readName_agree .attributeName).cases
  · rw [hp, hq]
    exact .error False.elim
  · have hone : ReadAlike T Eq x y := ⟨hname, hrest⟩
    rw [hp, hq]
    dsimp only
    obtain ⟨e, e', hp, hq⟩ | ⟨hp, hq⟩ | ⟨t, a, b, r, s, hp, hq, -, hr⟩ := hrest.peek_cases
    · rw [hp, hq]
      exact .error False.elim
    · rw [hp, hq]
      exact .ok hone
    · rw [hp, hq]
      by_cases ht : t = .symbol .colon
      · subst ht
        refine (hr.readName_agree .attributeName).map ?_
        rintro ⟨more, _⟩ ⟨_, _⟩ ⟨rfl, hmore⟩
        exact ⟨by rw [hname], hmore⟩
      · simp only [Option.some.injEq, Lexed.mk.injEq, ht, false_and, imp_self, implies_true]
        exact .ok hone

theorem readClosing_agree (h : Matching T p q) (start start' : Place) (tag : String) :
    Agree False (Matching T) (readClosing start tag p) (readClosing start' tag q) := by
  unfold readClosing
  obtain ⟨e, e', hp, hq⟩ | ⟨x, y, hp, hq, htag, hrest⟩ := h.readTagName_agree.cases
  · rw [hp, hq]
    exact .error False.elim
  · rw [hp, hq]
    dsimp only
    obtain ⟨e, e', hp, hq⟩ | ⟨r, s, hp, hq, hrs⟩ := (hrest.expect_agree .rightAngle).cases
    · rw [hp, hq]
      exact .error False.elim
    · rw [hp, hq]
      dsimp only
      rw [htag]
      split
      · exact .ok hrs
      · exact .error False.elim

end Matching

/-! ### Parts that are the same -/

/-- No line is indented anew between two places. -/
def Clear (T : Nat → Prop) (p q : Place) : Prop :=
  ∀ n, q.rest.length < n → n ≤ p.rest.length → ¬ T n

theorem Clear.mono {r : Place} (h : Clear T p q) (hp : r.rest.length ≤ p.rest.length) {s : Place}
    (hq : q.rest.length ≤ s.rest.length) : Clear T r s :=
  fun n hn hle => h n (Nat.lt_of_le_of_lt hq hn) (Nat.le_trans hle hp)

theorem Matching.cut (h : Matching T p p') {n : Nat} (hn : n ≤ p.rest.length)
    (hclear : Clear T p (p.skip n)) : Cut T n p.rest p'.rest := by
  obtain ⟨b, hb, hrest⟩ := Reindented.split h hn fun m hm hle =>
    hclear m (by rwa [Place.skip, List.length_drop]) hle
  have hlength : (p.rest.take n).length = n := List.length_take_of_le hn
  refine ⟨?_, ?_⟩
  · rw [hb, List.take_left' hlength]
  · rw [hb, List.drop_left' hlength]
    exact hrest

/-- What is read from a place on is read as well from the place that matches it, if no line on the
way is indented anew. -/
def Follows {α β : Type} (T : Nat → Prop) (R : α → β → Prop) (p : Place)
    (x : Except ReadError (α × Place)) (y : Except ReadError (β × Place)) : Prop :=
  ∀ a q, x = .ok (a, q) → Clear T p q → ∃ b q', y = .ok (b, q') ∧ R a b ∧ Matching T q q'

namespace Follows

variable {α β γ δ : Type} {R : α → β → Prop} {S : γ → δ → Prop}
  {x : Except ReadError (α × Place)} {y : Except ReadError (β × Place)}

theorem error (e : ReadError) : Follows T R p (.error e) y := fun _ _ h => nomatch h

theorem ok {a : α} {b : β} (h : R a b) (hq : Matching T q p') :
    Follows T R p (.ok (a, q)) (.ok (b, p')) := by
  intro c r hread _
  cases hread
  exact ⟨b, p', rfl, h, hq⟩

theorem map (h : Follows T R p x y) (f : α → Place → γ) (g : β → Place → δ)
    (hf : ∀ a b q q', R a b → S (f a q) (g b q')) :
    Follows T S p (x.map fun z => (f z.1 z.2, z.2)) (y.map fun z => (g z.1 z.2, z.2)) := by
  intro c q hread hclear
  obtain ⟨⟨a, q⟩, rfl, heq⟩ := map_eq_ok_iff.1 hread
  cases heq
  obtain ⟨b, q', rfl, hab, hq⟩ := h a q rfl hclear
  exact ⟨g b q', q', rfl, hf a b q q' hab, hq⟩

theorem of_le {r : Place} (h : Follows T R r x y) (hr : r.rest.length ≤ p.rest.length) :
    Follows T R p x y :=
  fun a q hread hclear => h a q hread (hclear.mono hr (Nat.le_refl _))

end Follows

theorem follows_readBraced (h : Matching T p p') :
    Follows T (Braced.Alike False) p (readBraced p) (readBraced p') := by
  intro b q hread hclear
  unfold readBraced at hread
  split at hread
  · cases hread
  · next size hsize =>
    cases hread
    have hlength := (braceSize?_front 0).le_length hsize
    have hpos := List.length_pos_iff.2 (braceSize?_ne_nil hsize)
    rw [List.length_drop] at hlength hpos
    have hcut := h.cut (by omega) hclear
    have hinside : braceSize? 0 (p'.rest.drop 1) = some size := by
      rw [← List.take_append_drop size (p'.rest.drop 1), ← hcut.tail.front]
      exact (braceSize?_front 0).take_append hsize (Nat.le_refl _) _
    unfold readBraced
    rw [hinside]
    refine ⟨_, _, rfl, ?_, hcut.behind⟩
    rw [hcut.tail.take_eq (Nat.sub_le size 1)]
    exact ⟨rfl, rfl, False.elim⟩

/-! ### Tag headers -/

theorem follows_readQuotedValue {quote : Char} (h : Matching T p p') :
    Follows T (AttributeValue.Alike False) p (readQuotedValue quote p)
      (readQuotedValue quote p') := by
  intro v q hread hclear
  simp only [readQuotedValue] at hread
  split at hread
  · cases hread
  · next hclosed =>
    cases hread
    simp only [List.isEmpty_iff, List.drop_eq_nil_iff, List.length_drop, Nat.not_le] at hclosed
    have hcut := h.cut (by omega) hclear
    have hbody := hcut.tail
    have hlength : ((p.rest.drop 1).take (runSize (· != quote) (p.rest.drop 1) + 1)).length =
        runSize (· != quote) (p.rest.drop 1) + 1 := by
      rw [List.length_take, List.length_drop]
      omega
    have hinside : runSize (· != quote) (p'.rest.drop 1) =
        runSize (· != quote) (p.rest.drop 1) := by
      rw [← List.take_append_drop (runSize (· != quote) (p.rest.drop 1) + 1) (p'.rest.drop 1),
        ← hbody.front]
      exact (runSize_front _).take_append (Nat.lt_succ_self _) (by rw [List.length_drop]; omega) _
    have hclosed' :
        ¬((p'.rest.drop 1).drop (runSize (· != quote) (p.rest.drop 1))).isEmpty = true := by
      have hlength' := congrArg List.length hbody.front
      rw [hlength, List.length_take] at hlength'
      rw [List.isEmpty_iff, List.drop_eq_nil_iff]
      omega
    unfold readQuotedValue
    dsimp only
    rw [hinside, if_neg hclosed', ← hbody.take_eq (Nat.le_succ _)]
    exact ⟨_, _, rfl, .text _, hcut.behind⟩

theorem readAttributeValue_eq (p : Place) : readAttributeValue p =
    if (skipGap p).rest.head? = some '"' then readQuotedValue '"' (skipGap p)
    else if (skipGap p).rest.head? = some '\'' then readQuotedValue '\'' (skipGap p)
    else
      match peekWanted .attributeValue (skipGap p) with
      | .error e => .error e
      | .ok ⟨.symbol .leftBrace, q, _⟩ => (readBraced q).map fun (b, r) => (.braced b, r)
      | .ok x => .error (.unexpected x.span .textOrExpression (some x.token)) := by
  unfold readAttributeValue
  dsimp only
  split
  · next hcs =>
    rw [hcs]
    rfl
  · next hcs =>
    rw [hcs]
    rfl
  · next hdouble hsingle =>
    have hnot {quote : Char} (hquote : ∀ cs, (skipGap p).rest = quote :: cs → False) :
        ¬(skipGap p).rest.head? = some quote := fun hhead => by
      obtain ⟨cs, hcs⟩ := List.head?_eq_some_iff.1 hhead
      exact hquote cs hcs
    exact ((if_neg (hnot hdouble)).trans (if_neg (hnot hsingle))).symm

theorem follows_readAttributeValue (h : Matching T p p') :
    Follows T (AttributeValue.Alike False) p (readAttributeValue p) (readAttributeValue p') := by
  have hstart := h.skipGap
  have hle : (skipGap p).rest.length ≤ p.rest.length := by simp [skipGap, Place.skip]
  refine Follows.of_le ?_ hle
  rw [readAttributeValue_eq, readAttributeValue_eq]
  generalize skipGap p = start, skipGap p' = start' at hstart
  have hbraced : Follows T (AttributeValue.Alike False) start
      (match peekWanted .attributeValue start with
        | .error e => .error e
        | .ok ⟨.symbol .leftBrace, q, _⟩ => (readBraced q).map fun (b, r) => (.braced b, r)
        | .ok x => .error (.unexpected x.span .textOrExpression (some x.token)))
      (match peekWanted .attributeValue start' with
        | .error e => .error e
        | .ok ⟨.symbol .leftBrace, q, _⟩ => (readBraced q).map fun (b, r) => (.braced b, r)
        | .ok x => .error (.unexpected x.span .textOrExpression (some x.token))) := by
    obtain ⟨e, e', hp, hq⟩ | ⟨⟨t, a, r⟩, ⟨_, b, s⟩, hp, hq, rfl, hab, -⟩ :=
      (hstart.peekWanted_agree .attributeValue).cases
    · rw [hp]
      exact .error e
    · have hlength := (length_start_peekWanted hp).1
      rw [hp, hq]
      by_cases ht : t = .symbol .leftBrace
      · subst ht
        have hbraced : Follows T (Braced.Alike False) start _ _ :=
          (follows_readBraced hab).of_le hlength
        exact hbraced.map (fun b _ => AttributeValue.braced b) (fun b _ => AttributeValue.braced b)
          fun _ _ _ _ hb => .braced hb
      · simp only [Lexed.mk.injEq, ht, false_and, imp_self, implies_true]
        exact .error _
  rw [Reindented.head?_eq hstart]
  split
  · exact follows_readQuotedValue hstart
  split
  · exact follows_readQuotedValue hstart
  · exact hbraced

theorem follows_readAttribute (h : Matching T p p') (start start' : Place) :
    Follows T (Attribute.Alike False) p (readAttribute start p) (readAttribute start' p') := by
  unfold readAttribute
  obtain ⟨e, e', hp, hq⟩ | ⟨⟨name, q⟩, ⟨_, q'⟩, hp, hq, rfl, hrest⟩ :=
    h.readAttributeName_agree.cases
  · rw [hp]
    exact .error e
  have hlength := length_readAttributeName hp
  have himplicit : Attribute.Alike False ⟨name, .implicit, start.spanTo q⟩
      ⟨name, .implicit, start'.spanTo q'⟩ := ⟨rfl, .implicit, False.elim⟩
  rw [hp, hq]
  dsimp only
  obtain ⟨e, e', hp, hq⟩ | ⟨hp, hq⟩ | ⟨t, a, b, r, s, hp, hq, -, hr⟩ := hrest.peek_cases
  · rw [hp]
    exact .error e
  · rw [hp, hq]
    exact .ok himplicit hrest
  · have hlength' := length_peek hp
    rw [hp, hq]
    by_cases ht : t = .symbol .equals
    · subst ht
      dsimp only at hlength hlength'
      have hvalue : Follows T (AttributeValue.Alike False) p _ _ :=
        (follows_readAttributeValue hr).of_le (by omega)
      exact hvalue.map (fun v r => Attribute.mk name v (start.spanTo r))
        (fun v r => Attribute.mk name v (start'.spanTo r))
        fun _ _ _ _ hvalue => ⟨rfl, hvalue, False.elim⟩
    · simp only [Option.some.injEq, Lexed.mk.injEq, ht, false_and, imp_self, implies_true]
      exact .ok himplicit hrest

/-- The same ends of tag headers, wherever they stand. -/
structure HeaderEnd.Alike (e e' : HeaderEnd) : Prop where
  attributes : List.Forall₂ (Attribute.Alike False) e.attributes e'.attributes
  selfClosing : e.selfClosing = e'.selfClosing

/-- An attribute and those behind it, which are fewer. -/
theorem follows_moreAttributes (h : Matching T p p') (start start' : Place)
    (ih : ∀ {q q' : Place}, q.rest.length < p.rest.length → Matching T q q' →
      Follows T HeaderEnd.Alike q (readAttributes q) (readAttributes q')) :
    Follows T HeaderEnd.Alike p
      (match readAttribute start p with
        | .error e => .error e
        | .ok (a, q) => (readAttributes q).map fun (rest, r) =>
          ({ rest with attributes := a :: rest.attributes }, r))
      (match readAttribute start' p' with
        | .error e => .error e
        | .ok (a, q) => (readAttributes q).map fun (rest, r) =>
          ({ rest with attributes := a :: rest.attributes }, r)) := by
  intro e q hread hclear
  split at hread
  · cases hread
  · next a r ha =>
    obtain ⟨⟨rest, _⟩, hrest, heq⟩ := map_eq_ok_iff.1 hread
    cases heq
    have hlength := length_readAttribute ha
    have hlength' := length_readAttributes hrest
    obtain ⟨b, r', hb, hab, hr⟩ := follows_readAttribute h start start' a r ha
      (hclear.mono (Nat.le_refl _) (Nat.le_of_lt hlength'))
    obtain ⟨rest', q', hrest', hrests, hq⟩ := ih hlength hr rest q hrest
      (hclear.mono (Nat.le_of_lt hlength) (Nat.le_refl _))
    refine ⟨{ rest' with attributes := b :: rest'.attributes }, q', ?_, ?_, hq⟩
    · rw [hb]
      dsimp only
      rw [hrest']
      rfl
    · exact ⟨.cons hab hrests.attributes, hrests.selfClosing⟩

theorem follows_readAttributes (h : Matching T p p') :
    Follows T HeaderEnd.Alike p (readAttributes p) (readAttributes p') := by
  induction hn : p.rest.length using Nat.strongRecOn generalizing p p' with
  | ind n ih =>
    subst hn
    rw [readAttributes_eq, readAttributes_eq]
    obtain ⟨e, e', hp, hq⟩ | ⟨x, y, hp, hq, hxy⟩ := (h.peekWanted_agree .attributeOrEnd).cases
    · rw [hp]
      exact .error e
    rw [hp, hq]
    dsimp only
    have hattribute := follows_moreAttributes h x.start y.start fun hq hmatch =>
      ih _ hq hmatch rfl
    rw [hxy.token]
    cases y.token with
    | keyword k => exact hattribute
    | identifier name => exact hattribute
    | symbol s =>
      cases s
      case slash =>
        obtain ⟨e, e', hp, hq⟩ | ⟨r, s, hp, hq, hrs⟩ := (hxy.stop.expect_agree .rightAngle).cases
        · rw [hp]
          exact .error e
        · rw [hp, hq]
          exact .ok ⟨.nil, rfl⟩ hrs
      case rightAngle => exact .ok ⟨.nil, rfl⟩ hxy.stop
      all_goals exact .error _
    | _ => exact .error _

theorem follows_readHeader (h : Matching T p p') :
    Follows T (fun x y => x.1 = y.1 ∧ x.2.Alike y.2) p (readHeader p) (readHeader p') := by
  unfold readHeader
  obtain ⟨e, e', hp, hq⟩ | ⟨⟨tag, q⟩, ⟨_, q'⟩, hp, hq, rfl, hrest⟩ := h.readTagName_agree.cases
  · rw [hp]
    exact .error e
  · have hlength := length_readTagName hp
    rw [hp, hq]
    refine (follows_readAttributes hrest).of_le (Nat.le_of_lt hlength) |>.map
      (fun header _ => (tag, header)) (fun header _ => (tag, header)) ?_
    exact fun _ _ _ _ hheader => ⟨rfl, hheader⟩

end DesignSync.Markup

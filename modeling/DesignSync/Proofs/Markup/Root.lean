import DesignSync.Proofs.Markup.FrontElements

/-!
Which element of a source is its root. In front of an angle it is the element there, whatever stands
behind it. In other sources it is the element behind the first `return` that a parenthesis or an
angle follows, or a part that is no token, in the order of the tokens.
-/

namespace DesignSync.Markup

open Text

variable {p q : Place} {u x : List Char} {source : String} {t : Tree}

/-! ### Sources that start with an element -/

/-- A text that is one element, behind blanks and comments, up to its last character. -/
def IsElementText (cs : List Char) (t : Tree) : Prop :=
  (skipGap (Place.start cs)).rest.head? = some '<' ∧
    ∃ q, readElement (skipGap (Place.start cs)) = .ok (t, q) ∧ q.rest = []

theorem peek_angle {cs : List Char} (hp : p.rest = '<' :: cs) :
    peek p = .ok (some ⟨.symbol .leftAngle, p, p.skip 1⟩) := by
  have hlexes : Lexes ('<' :: cs) (.symbol .leftAngle) cs :=
    Lexes.symbol (s := .leftAngle) rfl cs
  have hlex := lexFrom_of_trivia (w := ['<']) hp isTrivia_nil hlexes
  have hstart : p.skip ([] : List Char).length = p := (Place.Over.refl p).skip_eq
  rw [hstart] at hlex
  exact peek_eq_ok_some_iff.2 hlex

theorem readRoot_of_angle {a b : Place} (h : peek p = .ok (some ⟨.symbol .leftAngle, a, b⟩)) :
    readRoot p = (readElement p).map (·.1) := by
  rw [readRoot, readRootElement, h]

theorem length_readElement {a b : Place} (hpeek : peek p = .ok (some ⟨.symbol .leftAngle, a, b⟩))
    (h : readElement p = .ok (t, q)) : q.rest.length < p.rest.length := by
  have hangle := length_peek hpeek
  unfold readElement at h
  rw [peekWanted_eq_ok_iff.2 hpeek] at h
  dsimp only at h hangle
  split at h
  · cases h
  · next tag header r hread =>
    have hheader := length_readHeader hread
    split at h
    · cases h
      omega
    · let inside : Reading := ⟨[], ⟨a, tag, header.attributes, []⟩, r⟩
      have hinside := Reading.length_read (r := inside) h
      dsimp only [inside] at hinside
      omega

/-- The element that a text starts with is read as it is in front of another text. -/
theorem readElement_gap_front (hp : (skipGap p).rest.head? = some '<')
    (h : readElement (skipGap p) = .ok (t, q)) (hover : p.Over u q) :
    (skipGap (p.facing (u ++ x))).rest.head? = some '<' ∧
      readElement (skipGap (p.facing (u ++ x))) = .ok (t, q.facing x) := by
  obtain ⟨cs, hcs⟩ := List.head?_eq_some_iff.1 hp
  have hpeek := peek_angle hcs
  obtain ⟨g, hg⟩ := leads_skipGap p
  obtain ⟨w, hw⟩ := ((readElement_ahead (skipGap p)).of_ok h).1
  obtain rfl : u = g ++ w := hover.eq_append hg hw
  have hread := readElement_front (x := x) hpeek h hw
  cases w with
  | nil => exact absurd rfl (hw.ne_nil (length_readElement hpeek h))
  | cons c w =>
    obtain ⟨rfl, -⟩ := List.cons.inj (hcs.symm.trans hw.rest)
    have hgap := skipGap_front (by decide) (by decide) hg hcs (w ++ x)
    rw [List.append_assoc, List.cons_append, hgap]
    exact ⟨rfl, hread⟩

theorem readTree_of_angle (hstart : (skipGap (Place.start source.toList)).rest.head? = some '<') :
    readTree source = .ok t ↔
      ∃ front tail, source.toList = front ++ tail ∧ IsElementText front t := by
  obtain ⟨cs, hcs⟩ := List.head?_eq_some_iff.1 hstart
  rw [readTree_eq, if_pos hstart, readRoot_of_angle (peek_angle hcs), map_eq_ok_iff]
  constructor
  · rintro ⟨⟨t, q⟩, hread, rfl⟩
    obtain ⟨front, hfront⟩ : (Place.start source.toList).Leads q :=
      (leads_skipGap _).trans ((readElement_ahead _).of_ok hread).1
    have halone := readElement_gap_front (x := []) hstart hread hfront
    rw [List.append_nil] at halone
    exact ⟨front, q.rest, hfront.rest, halone.1, _, halone.2, rfl⟩
  · rintro ⟨front, tail, hsource, hangle, q, hread, hq⟩
    obtain ⟨u, hu⟩ : (Place.start front).Leads q :=
      (leads_skipGap _).trans ((readElement_ahead _).of_ok hread).1
    have hrest := hu.rest
    rw [hq, List.append_nil] at hrest
    obtain rfl : front = u := hrest
    have hsame := (readElement_gap_front (x := tail) hangle hread hu).2
    rw [hsource]
    exact ⟨_, hsame, rfl⟩

/-! ### Returns -/

/-- The tokens from a place on, passing over characters that start none. -/
def tokensAhead (p : Place) : List (Lexed Token) :=
  match _h : peekLenient p with
  | none => []
  | some x => x :: tokensAhead x.stop
termination_by p.rest.length
decreasing_by exact length_peekLenient _h

/-- The places behind the returns from a place on. -/
def returns (p : Place) : List Place :=
  ((tokensAhead p).filter (·.token = .keyword .returnWord)).map (·.stop)

/-- Where the markup starts that stands next, and whether there is a parenthesis in front. -/
def opening? (p : Place) : Option (Place × Bool) :=
  match peek p with
  | .ok (some ⟨.symbol .leftAngle, a, _⟩) => some (a, false)
  | .ok (some ⟨.symbol .leftParen, _, q⟩) =>
    match peek q with
    | .ok (some ⟨.symbol .leftAngle, a, _⟩) => some (a, true)
    | _ => none
  | _ => none

/-- The element that starts at an angle, with the parenthesis behind it that closes the one in
front. -/
def rootAt (angle : Place) (enclosed : Bool) : Except ReadError Tree :=
  match readElement angle with
  | .error e => .error e
  | .ok (t, q) => if enclosed then (expect .rightParen q).map fun _ => t else .ok t

/-- The element behind the first return that markup follows. -/
def returnedRoot (p : Place) : Except ReadError Tree :=
  match (returns p).findSome? opening? with
  | none => .error .missingRoot
  | some (angle, enclosed) => rootAt angle enclosed

/-- Whether the search for the root ends behind a return: at a parenthesis, at an angle, or at a
part that is no token. -/
def stopsAt (p : Place) : Bool :=
  match peek p with
  | .error _ => true
  | .ok (some ⟨.symbol .leftParen, _, _⟩) => true
  | .ok (some ⟨.symbol .leftAngle, _, _⟩) => true
  | .ok _ => false

theorem tokensAhead_eq (p : Place) : tokensAhead p =
    match peekLenient p with
    | none => []
    | some x => x :: tokensAhead x.stop := by
  conv => lhs; rw [tokensAhead.eq_def]
  split <;> simp_all

theorem returns_eq (p : Place) : returns p =
    match peekLenient p with
    | none => []
    | some x =>
      if x.token = .keyword .returnWord then x.stop :: returns x.stop else returns x.stop := by
  unfold returns
  rw [tokensAhead_eq]
  cases peekLenient p with
  | none => rfl
  | some x =>
    dsimp only
    rw [List.filter_cons]
    split
    · next h => simp [of_decide_eq_true h]
    · next h => simp [of_decide_eq_false (Bool.eq_false_iff.2 h)]

theorem skipToReturn_step (p : Place) : skipToReturn p =
    match peekLenient p with
    | none => .error .missingRoot
    | some x =>
      if x.token = .keyword .returnWord ∧ stopsAt x.stop = true then
        (peek x.stop).map fun _ => x.stop
      else skipToReturn x.stop := by
  rw [skipToReturn_eq]
  cases peekLenient p with
  | none => rfl
  | some x =>
    dsimp only
    by_cases ht : x.token = .keyword .returnWord
    · rw [if_pos ht]
      unfold stopsAt
      split <;> simp [*, Except.map]
    · rw [if_neg ht, if_neg fun h => ht h.1]

theorem skipToReturn_eq_find (p : Place) : skipToReturn p =
    match (returns p).find? stopsAt with
    | none => .error .missingRoot
    | some q => (peek q).map fun _ => q := by
  induction hn : p.rest.length using Nat.strongRecOn generalizing p with
  | ind n ih =>
    subst hn
    rw [skipToReturn_step, returns_eq]
    cases hx : peekLenient p with
    | none => rfl
    | some x =>
      have hnext := ih _ (length_peekLenient hx) x.stop rfl
      dsimp only
      by_cases ht : x.token = .keyword .returnWord
      · rw [if_pos ht, List.find?_cons]
        cases hstop : stopsAt x.stop with
        | true => rw [if_pos ⟨ht, rfl⟩]
        | false => rwa [if_neg fun h => nomatch h.2]
      · rwa [if_neg ht, if_neg fun h => ht h.1]

/-! ### Roots -/

theorem opening?_cases {a : Place} {enclosed : Bool} (h : opening? p = some (a, enclosed)) :
    (∃ b, peek p = .ok (some ⟨.symbol .leftAngle, a, b⟩) ∧ enclosed = false) ∨
      ∃ c d b, peek p = .ok (some ⟨.symbol .leftParen, c, d⟩) ∧
        peek d = .ok (some ⟨.symbol .leftAngle, a, b⟩) ∧ enclosed = true := by
  unfold opening? at h
  split at h
  · next b hangle =>
    cases h
    exact .inl ⟨b, hangle, rfl⟩
  · next c d hparen =>
    split at h
    · next b hangle =>
      cases h
      exact .inr ⟨c, d, b, hparen, hangle, rfl⟩
    · cases h
  · cases h

theorem opening?_eq_none (h : stopsAt p = false) : opening? p = none := by
  cases hx : opening? p with
  | none => rfl
  | some x =>
    obtain ⟨b, hangle, -⟩ | ⟨c, d, b, hparen, -, -⟩ := opening?_cases hx
    · rw [stopsAt, hangle] at h
      cases h
    · rw [stopsAt, hparen] at h
      cases h

/-- If markup follows the return where the search ends, this is the first one that it follows. -/
theorem findSome?_opening? {qs : List Place} {x : Place × Bool}
    (hfind : qs.find? stopsAt = some q) (h : opening? q = some x) :
    qs.findSome? opening? = some x := by
  obtain ⟨-, front, tail, rfl, hfront⟩ := List.find?_eq_some_iff_append.1 hfind
  have hnone : front.findSome? opening? = none := List.findSome?_eq_none_iff.2 fun r hr =>
    opening?_eq_none (by simpa using hfront r hr)
  rw [List.findSome?_append, hnone, List.findSome?_cons, h]
  rfl

theorem readElement_congr (h : lexFrom p = lexFrom q) : readElement p = readElement q := by
  simp only [readElement, peekWanted, peek, h]

theorem readElement_of_peek {token : Token} {a b : Place} (h : peek p = .ok (some ⟨token, a, b⟩)) :
    readElement p = readElement a := by
  have hstart : a = nextToken p := start_of_peek h
  rw [hstart]
  exact readElement_congr (lexFrom_nextToken p).symm

theorem readRoot_of_opening? {a : Place} {enclosed : Bool} (h : opening? p = some (a, enclosed)) :
    readRoot p = rootAt a enclosed := by
  obtain ⟨b, hangle, rfl⟩ | ⟨c, d, b, hparen, hangle, rfl⟩ := opening?_cases h
  · rw [readRoot_of_angle hangle, readElement_of_peek hangle, rootAt]
    cases readElement a <;> rfl
  · rw [readRoot, hparen]
    dsimp only
    rw [readRootElement, hangle]
    dsimp only
    rw [readElement_of_peek hangle, rootAt]
    rfl

theorem peek_ne_missingRoot : peek p ≠ .error .missingRoot := by
  unfold peek
  split
  · intro h; cases h
  · split <;> (intro h; cases h)

theorem exists_error_of_readRootElement
    (h : ∀ a b, peek p ≠ .ok (some ⟨.symbol .leftAngle, a, b⟩)) :
    ∃ e, readRootElement p = .error e ∧ e ≠ .missingRoot := by
  unfold readRootElement
  split
  · next e he => exact ⟨e, rfl, fun heq => peek_ne_missingRoot (heq ▸ he)⟩
  · next hangle => exact (h _ _ hangle).elim
  · exact ⟨_, rfl, nofun⟩
  · exact ⟨_, rfl, nofun⟩

/-- Behind a return where the search ends and that no markup follows nothing is read. -/
theorem exists_error_of_stopsAt (hstop : stopsAt p = true) (h : opening? p = none) :
    ∃ e, ((peek p).map fun _ => p) >>= readRoot = .error e ∧ e ≠ .missingRoot := by
  unfold stopsAt at hstop
  split at hstop
  · next e he =>
    rw [he]
    exact ⟨e, rfl, fun heq => peek_ne_missingRoot (heq ▸ he)⟩
  · next c d hparen =>
    have hroot : ((peek p).map fun _ => p) >>= readRoot = readRoot p := by rw [hparen]; rfl
    have hnone (a b : Place) : peek d ≠ .ok (some ⟨.symbol .leftAngle, a, b⟩) := fun hangle => by
      rw [opening?, hparen] at h
      dsimp only at h
      rw [hangle] at h
      cases h
    obtain ⟨e, he, hne⟩ := exists_error_of_readRootElement hnone
    refine ⟨e, ?_, hne⟩
    rw [hroot, readRoot, hparen]
    dsimp only
    rw [he]
  · next a b hangle =>
    rw [opening?, hangle] at h
    cases h
  · cases hstop

/-- The root of a source. In front of an angle it is the element there: the source is read if and
only if some front of it is one element, whatever the rest is. Otherwise it is the element behind
the first return that markup follows, or an error, if the search ends there or does not end; where
it ends behind another return, nothing is read. -/
theorem readTree_root (source : String) (t : Tree) :
    let start := skipGap (Place.start source.toList)
    (start.rest.head? = some '<' → (readTree source = .ok t ↔
      ∃ front tail, source.toList = front ++ tail ∧ IsElementText front t)) ∧
    (start.rest.head? ≠ some '<' →
      ((∀ q, (returns start).find? stopsAt = some q → (opening? q).isSome = true) →
        readTree source = returnedRoot start) ∧
      (∀ q, (returns start).find? stopsAt = some q → opening? q = none →
        ∃ e, readTree source = .error e ∧ e ≠ .missingRoot)) := by
  dsimp only
  refine ⟨readTree_of_angle, fun hangle => ?_⟩
  rw [readTree_eq]
  dsimp only
  rw [if_neg hangle, skipToReturn_eq_find]
  generalize skipGap (Place.start source.toList) = start
  refine ⟨fun hopens => ?_, fun q hq hnone => ?_⟩
  · rw [returnedRoot]
    cases hfind : (returns start).find? stopsAt with
    | none =>
      have hnone : (returns start).findSome? opening? = none :=
        List.findSome?_eq_none_iff.2 fun r hr =>
          opening?_eq_none (by simpa using List.find?_eq_none.1 hfind r hr)
      rw [hnone]
      rfl
    | some q =>
      obtain ⟨⟨a, enclosed⟩, hx⟩ := Option.isSome_iff_exists.1 (hopens q hfind)
      rw [findSome?_opening? hfind hx]
      dsimp only
      rw [← readRoot_of_opening? hx]
      obtain ⟨b, hangle, -⟩ | ⟨c, d, b, hparen, -, -⟩ := opening?_cases hx
      · rw [hangle]
        rfl
      · rw [hparen]
        rfl
  · rw [hq]
    exact exists_error_of_stopsAt (List.find?_some hq) hnone

/-- A module with a function that returns a number in parentheses in front of one that returns
markup. -/
def numberFirst : String :=
  "function f() \x7b return (1); \x7d function g() \x7b return <a/>; \x7d"

/-- The markup of this module is not read, since the search ends at the number; and a second element
behind a first one is passed over in silence. -/
theorem root_missed :
    ((returnedRoot (skipGap (Place.start numberFirst.toList))).toOption.isSome = true ∧
      (readTree numberFirst).toOption.isNone = true) ∧
    ((readElement (skipGap (Place.start "<a/><b/>".toList))).toOption.map (·.2.rest) =
      some "<b/>".toList ∧ (readTree "<a/><b/>").toOption.isSome = true) :=
  ⟨⟨by decide +kernel, by decide +kernel⟩, by decide +kernel, by decide +kernel⟩

end DesignSync.Markup

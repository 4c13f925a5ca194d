import DesignSync.Proofs.Text.Quoted

/-!
How a text can be spelled between double quotes: character by character, each as itself, behind a
backslash, or by one or two numbers. Decoding reads the spellings and nothing else, so that what a
front of them says does not depend on what follows.
-/

namespace DesignSync.Text.Quoted

/-- A spelling of one character. -/
inductive Spelling : List Char → Char → Prop
  | plain {c : Char} (hquote : c ≠ '"') (hslash : c ≠ '\\') (hlow : 0x20 ≤ c.toNat) : Spelling [c] c
  | short {x c : Char} (h : escaped? x = some c) : Spelling ['\\', x] c
  | unit {a b c d : Char} {n : Nat} (h : hexUnit? a b c d = some n) (hn : n < 0xD800 ∨ 0xE000 ≤ n) :
    Spelling ['\\', 'u', a, b, c, d] (Char.ofNat n)
  | pair {a b c d e f g h : Char} {high low : Nat} (hhigh : hexUnit? a b c d = some high)
    (hlead : 0xD800 ≤ high ∧ high < 0xDC00) (hlow : hexUnit? e f g h = some low)
    (htrail : 0xDC00 ≤ low ∧ low < 0xE000) :
    Spelling ['\\', 'u', a, b, c, d, '\\', 'u', e, f, g, h]
      (Char.ofNat (0x10000 + (high - 0xD800) * 0x400 + (low - 0xDC00)))

/-- A spelling of a text. -/
inductive Spells : List Char → List Char → Prop
  | nil : Spells [] []
  | cons {form cs s : List Char} {c : Char} (hform : Spelling form c) (h : Spells cs s) :
    Spells (form ++ cs) (c :: s)

/-- Decoding takes the spelling of a character off the front. -/
theorem decode?_spelling {form : List Char} {c : Char} (h : Spelling form c) (rest : List Char) :
    decode? (form ++ rest) = (decode? rest).map fun x => (c :: x.1, x.2) := by
  cases h with
  | plain hquote hslash hlow =>
    rw [List.singleton_append, decode?]
    · rw [if_neg fun h => h.elim (by omega) hslash]
      cases decode? rest <;> rfl
    all_goals simp_all
  | @short x c h =>
    have hu : x ≠ 'u' := by
      rintro rfl
      cases h
    rw [List.cons_append, List.singleton_append, decode?]
    · rw [h]
      cases decode? rest <;> rfl
    · simp_all
  | @unit a b c d n h hn =>
    have hlead : ¬ (0xD800 ≤ n ∧ n < 0xDC00) := by omega
    have htrail : ¬ (0xDC00 ≤ n ∧ n < 0xE000) := by omega
    simp only [List.cons_append, List.nil_append]
    rw [decode?, h]
    simp only [Option.bind_eq_bind, Option.bind_some, if_neg hlead, if_neg htrail]
    cases decode? rest <;> rfl
  | pair hhigh hlead hlow htrail =>
    simp only [List.cons_append, List.nil_append]
    rw [decode?, hhigh]
    simp only [Option.bind_eq_bind, Option.bind_some, if_pos hlead, hlow, if_pos htrail]
    cases decode? rest <;> rfl

/-- Decoding stops at a quote, or takes the spelling of a character off the front. -/
theorem decode?_cases {cs s rest : List Char} (h : decode? cs = some (s, rest)) :
    cs = '"' :: rest ∧ s = [] ∨ ∃ form c more t, Spelling form c ∧ cs = form ++ more ∧ s = c :: t ∧
      decode? more = some (t, rest) := by
  have hstep {form more : List Char} {c : Char} (hform : Spelling form c)
      (hmore : ((decode? more).bind fun x => some (c :: x.1, x.2)) = some (s, rest)) :
      ∃ form' c' more' t, Spelling form' c' ∧ form ++ more = form' ++ more' ∧ s = c' :: t ∧
        decode? more' = some (t, rest) := by
    obtain ⟨⟨t, rest'⟩, hread, heq⟩ := Option.bind_eq_some_iff.1 hmore
    cases heq
    exact ⟨form, c, more, t, hform, rfl, rfl, hread⟩
  revert h
  fun_cases decode? cs with
  | case1 => nofun
  | case2 cs =>
    intro h
    cases h
    exact .inl ⟨rfl, rfl⟩
  | case3 a b c d cs =>
    intro h
    obtain ⟨n, hn, h⟩ := Option.bind_eq_some_iff.1 h
    dsimp only at h
    split at h
    · next hlead =>
      split at h
      · obtain ⟨low, hlow, h⟩ := Option.bind_eq_some_iff.1 h
        split at h
        · next htrail => exact .inr (hstep (.pair hn hlead hlow htrail) h)
        · cases h
      · cases h
    · next hlead =>
      split at h
      · cases h
      · next htrail => exact .inr (hstep (.unit hn (by omega)) h)
  | case4 x cs hu =>
    intro h
    obtain ⟨c, hc, h⟩ := Option.bind_eq_some_iff.1 h
    exact .inr (hstep (.short hc) h)
  | case5 => nofun
  | case6 c cs hquote hunit hshort hkeep =>
    intro h
    rw [not_or, Nat.not_lt] at hkeep
    exact .inr (hstep (.plain hquote hkeep.2 hkeep.1) h)

theorem Spelling.length_pos {form : List Char} {c : Char} (h : Spelling form c) :
    0 < form.length := by
  cases h <;> simp

/-- Decoding reads the spellings of texts. -/
theorem decode?_eq_some_iff {cs s rest : List Char} :
    decode? cs = some (s, rest) ↔ ∃ body, cs = body ++ '"' :: rest ∧ Spells body s := by
  constructor
  · intro h
    induction hlength : cs.length using Nat.strongRecOn generalizing cs s with
    | ind n ih =>
      obtain ⟨rfl, rfl⟩ | ⟨form, c, more, t, hform, rfl, rfl, hmore⟩ := decode?_cases h
      · exact ⟨[], rfl, .nil⟩
      · have hpos := hform.length_pos
        rw [List.length_append] at hlength
        obtain ⟨body, rfl, hbody⟩ := ih more.length (by omega) hmore rfl
        exact ⟨form ++ body, (List.append_assoc ..).symm, .cons hform hbody⟩
  · rintro ⟨body, rfl, h⟩
    induction h with
    | nil => rw [List.nil_append, decode?]
    | cons hform _ ih => rw [List.append_assoc, decode?_spelling hform, ih, Option.map_some]

theorem spells_iff {cs s : List Char} (rest : List Char) :
    Spells cs s ↔ decode? (cs ++ '"' :: rest) = some (s, rest) := by
  rw [decode?_eq_some_iff]
  constructor
  · intro h
    exact ⟨cs, rfl, h⟩
  · rintro ⟨body, heq, h⟩
    rwa [List.append_cancel_right heq]

theorem Spells.unique {cs s t : List Char} (h : Spells cs s) (h' : Spells cs t) : s = t := by
  rw [spells_iff []] at h h'
  rw [h] at h'
  cases h'
  rfl

/-- What stands behind the spelling of a text is a spelling itself if the whole is one. -/
theorem Spells.append_iff {a b s u : List Char} (h : Spells a s) :
    Spells (a ++ b) u ↔ ∃ t, u = s ++ t ∧ Spells b t := by
  induction h generalizing u with
  | nil => simp
  | @cons form cs s c hform _ ih =>
    have hfront : Spells (form ++ (cs ++ b)) u ↔ ∃ v, u = c :: v ∧ Spells (cs ++ b) v := by
      rw [spells_iff [], List.append_assoc, decode?_spelling hform, Option.map_eq_some_iff]
      constructor
      · rintro ⟨⟨v, rest⟩, hv, heq⟩
        cases heq
        exact ⟨v, rfl, (spells_iff []).2 hv⟩
      · rintro ⟨v, rfl, hv⟩
        exact ⟨(v, []), (spells_iff []).1 hv, rfl⟩
    rw [List.append_assoc, hfront]
    constructor
    · rintro ⟨v, rfl, hv⟩
      obtain ⟨t, rfl, ht⟩ := ih.1 hv
      exact ⟨t, rfl, ht⟩
    · rintro ⟨t, rfl, ht⟩
      exact ⟨s ++ t, rfl, ih.2 ⟨t, rfl, ht⟩⟩

end DesignSync.Text.Quoted

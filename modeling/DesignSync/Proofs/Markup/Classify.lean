import DesignSync.Proofs.Markup.Lexing
import DesignSync.Proofs.Text.Blank

/-!
The shape of written expressions: strings, numbers, member expressions and object literals of these
are read as what they were written for.
-/

namespace DesignSync.Markup

open Text

/-! ### Tokens of a text -/

theorem tokensFrom?_eq (p : Place) : tokensFrom? p =
    match lexFrom p with
    | none => some []
    | some x =>
      match x.token with
      | none => none
      | some t => (tokensFrom? x.stop).map fun ts => ⟨t, x.start, x.stop⟩ :: ts := by
  rw [tokensFrom?]
  split
  · next h => exact h ▸ rfl
  · next h => exact h ▸ rfl

/-- A text begins with some tokens, and another text stands behind them. -/
def LexesAll (cs : List Char) (ks : List Token) (rest : List Char) : Prop :=
  ∀ p : Place, p.rest = cs → ∃ ts q, q.rest = rest ∧ ts.map (·.token) = ks ∧
    tokensFrom? p = (tokensFrom? q).map (ts ++ ·)

namespace LexesAll

variable {a b c cs g rest : List Char} {ks ls : List Token} {t : Token}

theorem nil (cs : List Char) : LexesAll cs [] cs := by
  intro p hp
  exact ⟨[], p, hp, rfl, by simp⟩

theorem append (hab : LexesAll a ks b) (hbc : LexesAll b ls c) : LexesAll a (ks ++ ls) c := by
  intro p hp
  obtain ⟨ts, q, hq, rfl, htokens⟩ := hab p hp
  obtain ⟨us, r, hr, rfl, hmore⟩ := hbc q hq
  refine ⟨ts ++ us, r, hr, List.map_append, ?_⟩
  rw [htokens, hmore, Option.map_map]
  congr 1
  funext vs
  simp

/-- Blanks in front change no tokens. -/
theorem gap (hgap : IsGap g) (h : LexesAll cs ks rest) :
    LexesAll (g ++ cs) ks rest := by
  intro p hp
  obtain ⟨ts, q, hq, hks, htokens⟩ := h (p.skip g.length) (by simp [Place.skip, hp])
  refine ⟨ts, q, hq, hks, ?_⟩
  rw [← htokens, tokensFrom?_eq p, tokensFrom?_eq (p.skip g.length), lexFrom_gap hp hgap]

theorem of_lexes (h : Lexes cs t rest) : LexesAll cs [t] rest := by
  intro p hp
  obtain ⟨start, stop, hlex, -, hstop⟩ := lexFrom_of_lexes (g := []) hp (by simp [IsGap]) h
  refine ⟨[⟨t, start, stop⟩], stop, hstop, rfl, ?_⟩
  rw [tokensFrom?_eq, hlex]
  rfl

theorem cons (h : Lexes cs t b) (hrest : LexesAll b ks c) : LexesAll cs (t :: ks) c :=
  (of_lexes h).append hrest

theorem space (h : Lexes cs t b) (hrest : LexesAll b ks c) : LexesAll (' ' :: cs) (t :: ks) c :=
  gap (g := [' ']) (by simp [IsGap]) (cons h hrest)

/-- The tokens of a whole text. -/
theorem tokens?_eq (h : LexesAll cs ks []) : ∃ ts, tokens? cs = some ts ∧ ts.map (·.token) = ks := by
  obtain ⟨ts, q, hq, hks, htokens⟩ := h (Place.start cs) rfl
  have hend : tokensFrom? q = some [] := by
    have hlex : lexFrom q = none := by simp [lexFrom, Place.skip, hq]
    rw [tokensFrom?_eq, hlex]
  refine ⟨ts, ?_, hks⟩
  rw [tokens?, htokens, hend]
  simp

end LexesAll

/-! ### Values -/

/-- A text of tokens that does not prolong a member chain in front of it. -/
def EndsChain (rest : List (Lexed Token)) : Prop :=
  ∀ t ∈ rest.head?, t.token ≠ .symbol .dot ∧ t.token ≠ .symbol .leftBracket

/-- Some tokens are read as a value, whatever stands behind them. -/
def Says (ks : List Token) (e : Expression) : Prop :=
  ks ≠ [] ∧ ∀ steps ts rest, ks.length ≤ steps → ts.map (·.token) = ks → EndsChain rest →
    Expression.readValue steps (ts ++ rest) = some (e, rest)

theorem classify_of_says {raw : String} {ks : List Token} {e : Expression}
    (htrim : IsTrimmed raw.toList) (htokens : LexesAll raw.toList ks []) (h : Says ks e) :
    Expression.classify raw = e := by
  obtain ⟨ts, hts, hks⟩ := htokens.tokens?_eq
  have hlength : ks.length = ts.length := by rw [← hks, List.length_map]
  have hvalue := h.2 ts.length ts [] (Nat.le_of_eq hlength) hks (by simp [EndsChain])
  have hne : ts ≠ [] := by
    rintro rfl
    exact h.1 hks.symm
  unfold Expression.classify
  simp only [htrim.trim_eq, hts]
  cases ts with
  | nil => exact absurd rfl hne
  | cons t ts =>
    rw [List.append_nil] at hvalue
    simp only [hvalue]

theorem unquote_quoted (s : String) : unquote (Quoted.quoted s) = s := by
  have hdecode := Quoted.decode?_encode s.toList []
  rw [unquote, Quoted.toList_quoted]
  simp only [hdecode, Option.bind_some, List.all_nil, if_true, Option.getD_some,
    String.ofList_toList]

/-- A token that is a value by itself. -/
theorem says_token {k : Token} {e : Expression}
    (h : ∀ steps t rest, t.token = k →
      Expression.readValue (steps + 1) (t :: rest) = some (e, rest)) : Says [k] e := by
  refine ⟨by simp, fun steps ts rest hsteps hts _ => ?_⟩
  obtain ⟨t, rfl, ht⟩ := List.map_eq_singleton_iff.1 hts
  obtain ⟨steps, rfl⟩ : ∃ n, steps = n + 1 := ⟨steps - 1, by simp at hsteps; omega⟩
  exact h steps t rest ht

theorem says_text (s : String) : Says [.doubleQuoted (Quoted.quoted s)] (.text s) := by
  refine says_token fun steps t rest ht => ?_
  unfold Expression.readValue
  simp only [ht, unquote_quoted]

theorem says_number (n : String) : Says [.number n] (.number (Numeral.read n.toList)) := by
  refine says_token fun steps t rest ht => ?_
  unfold Expression.readValue
  simp only [ht]

theorem says_bool (b : Bool) :
    Says [.keyword (if b then .trueWord else .falseWord)] (.bool b) := by
  refine says_token fun steps t rest ht => ?_
  unfold Expression.readValue
  cases b <;> simp [ht]

theorem readPath_of_endsChain {rest : List (Lexed Token)} (h : EndsChain rest) :
    Expression.readPath rest = some ([], rest) := by
  cases rest with
  | nil => rfl
  | cons t rest =>
    obtain ⟨hdot, hbracket⟩ := h t rfl
    obtain ⟨token, start, stop⟩ := t
    unfold Expression.readPath
    split
    · next heq => exact absurd (congrArg Lexed.token (List.cons.inj heq).1) hdot
    · next heq => exact absurd (congrArg Lexed.token (List.cons.inj heq).1) hbracket
    · rfl

theorem says_dotted (head : String) {t : Token} {name : String} (hname : t.name? = some name) :
    Says [.identifier head, .symbol .dot, t] (.member [head, name]) := by
  refine ⟨by simp, fun steps ts rest hsteps hts hrest => ?_⟩
  obtain ⟨x, ts, rfl, hx, hts⟩ := List.map_eq_cons_iff.1 hts
  obtain ⟨⟨_, a, b⟩, ts, rfl, hdot, hts⟩ := List.map_eq_cons_iff.1 hts
  obtain ⟨y, rfl, rfl⟩ := List.map_eq_singleton_iff.1 hts
  obtain ⟨steps, rfl⟩ : ∃ n, steps = n + 1 := ⟨steps - 1, by simp at hsteps; omega⟩
  simp only at hdot
  subst hdot
  simp only [List.cons_append, List.nil_append]
  unfold Expression.readValue
  simp only [hx]
  rw [Expression.readChain, Expression.readPath, hname, readPath_of_endsChain hrest]
  rfl

theorem says_bracketed (head name : String) :
    Says [.identifier head, .symbol .leftBracket, .doubleQuoted (Quoted.quoted name),
      .symbol .rightBracket] (.member [head, name]) := by
  refine ⟨by simp, fun steps ts rest hsteps hts hrest => ?_⟩
  obtain ⟨x, ts, rfl, hx, hts⟩ := List.map_eq_cons_iff.1 hts
  obtain ⟨⟨_, a, b⟩, ts, rfl, hopen, hts⟩ := List.map_eq_cons_iff.1 hts
  obtain ⟨y, ts, rfl, hy, hts⟩ := List.map_eq_cons_iff.1 hts
  obtain ⟨⟨_, c, d⟩, rfl, hclose⟩ := List.map_eq_singleton_iff.1 hts
  obtain ⟨steps, rfl⟩ : ∃ n, steps = n + 1 := ⟨steps - 1, by simp at hsteps; omega⟩
  simp only at hopen hclose
  subst hopen hclose
  simp only [List.cons_append, List.nil_append]
  unfold Expression.readValue
  simp only [hx]
  rw [Expression.readChain, Expression.readPath, readPath_of_endsChain hrest]
  simp only [hy, Expression.string?, unquote_quoted]
  rfl

/-! ### Object literals -/

/-- The key that a token says. -/
def keyOf? (k : Token) : Option String := (Expression.string? k).or k.name?

/-- Tokens of the entries of an object literal up to its closing brace. -/
inductive EntryTokens : List Token → List (String × Expression) → Prop
  | last {k : Token} {key : String} {ks : List Token} {e : Expression} (hkey : keyOf? k = some key)
      (hvalue : Says ks e) :
      EntryTokens (k :: .symbol .colon :: (ks ++ [.symbol .rightBrace])) [(key, e)]
  | cons {k : Token} {key : String} {ks more : List Token} {e : Expression}
      {es : List (String × Expression)} (hkey : keyOf? k = some key) (hvalue : Says ks e)
      (hmore : EntryTokens more es) :
      EntryTokens (k :: .symbol .colon :: (ks ++ .symbol .comma :: more)) ((key, e) :: es)

/-- One entry is read, and then what stands behind the comma after it. -/
private theorem readEntries_entry {steps : Nat} {x : Lexed Token} {key : String} {ks : List Token}
    {e : Expression} (hkey : keyOf? x.token = some key) (hvalue : Says ks e)
    (hsteps : ks.length ≤ steps) (a b : Place) {vs : List (Lexed Token)}
    (hvs : vs.map (·.token) = ks) (t : Lexed Token) (rest : List (Lexed Token))
    (hend : t.token = .symbol .comma ∨ t.token = .symbol .rightBrace) :
    Expression.readEntries (steps + 1) (x :: ⟨.symbol .colon, a, b⟩ :: (vs ++ t :: rest)) =
      if t.token = .symbol .comma then
        (Expression.readEntries steps rest).map fun (entries, rest) => ((key, e) :: entries, rest)
      else some ([(key, e)], rest) := by
  have hchain : EndsChain (t :: rest) := by
    rintro u hu
    cases hu
    rcases hend with h | h <;> simp [h]
  have hread := hvalue.2 steps vs (t :: rest) hsteps hvs hchain
  have hnotEnd : x.token ≠ .symbol .rightBrace := by
    intro hx
    rw [hx] at hkey
    cases hkey
  have hfilter : ((Expression.readValue steps (vs ++ t :: rest)).filter
      fun x => Expression.atEntryEnd x.2) = some (e, t :: rest) := by
    rw [hread]
    obtain ⟨token, c, d⟩ := t
    rcases hend with rfl | rfl <;> rfl
  obtain ⟨k, c, d⟩ := x
  obtain ⟨token, c', d'⟩ := t
  rw [Expression.readEntries]
  · rw [hfilter]
    have hkey' : (Expression.string? k).or k.name? = some key := hkey
    simp only [hkey', Option.some_or]
    rcases hend with rfl | rfl
    · rw [if_pos rfl]
    · rw [if_neg (by simp)]
  · intro _ _ heq
    exact hnotEnd (congrArg Lexed.token heq)

theorem readEntries_of_tokens {ks : List Token} {es : List (String × Expression)}
    (h : EntryTokens ks es) {steps : Nat} (hsteps : ks.length ≤ steps) {ts : List (Lexed Token)}
    (hts : ts.map (·.token) = ks) (rest : List (Lexed Token)) :
    Expression.readEntries steps (ts ++ rest) = some (es, rest) := by
  induction h generalizing steps ts with
  | @last k key ks e hkey hvalue =>
    obtain ⟨x, ts₁, rfl, hx, hts₁⟩ := List.map_eq_cons_iff.1 hts
    obtain ⟨⟨_, a, b⟩, ts₂, rfl, hcolon, hts₂⟩ := List.map_eq_cons_iff.1 hts₁
    obtain ⟨vs, ts₃, rfl, hvs, hts₃⟩ := List.map_eq_append_iff.1 hts₂
    obtain ⟨t, rfl, ht⟩ := List.map_eq_singleton_iff.1 hts₃
    subst hx hcolon
    simp only [List.length_cons, List.length_append, List.length_nil] at hsteps
    obtain ⟨steps, rfl⟩ : ∃ n, steps = n + 1 := ⟨steps - 1, by omega⟩
    simp only [List.cons_append, List.append_assoc, List.nil_append]
    rw [readEntries_entry hkey hvalue (by omega) a b hvs t rest (.inr ht), if_neg (by simp [ht])]
  | @cons k key ks more e es hkey hvalue hmore ih =>
    obtain ⟨x, ts₁, rfl, hx, hts₁⟩ := List.map_eq_cons_iff.1 hts
    obtain ⟨⟨_, a, b⟩, ts₂, rfl, hcolon, hts₂⟩ := List.map_eq_cons_iff.1 hts₁
    obtain ⟨vs, ts₃, rfl, hvs, hts₃⟩ := List.map_eq_append_iff.1 hts₂
    obtain ⟨t, ts₄, rfl, ht, hts₄⟩ := List.map_eq_cons_iff.1 hts₃
    subst hx hcolon
    simp only [List.length_cons, List.length_append] at hsteps
    obtain ⟨steps, rfl⟩ : ∃ n, steps = n + 1 := ⟨steps - 1, by omega⟩
    simp only [List.cons_append, List.append_assoc]
    rw [readEntries_entry hkey hvalue (by omega) a b hvs t (ts₄ ++ rest) (.inl ht), if_pos ht,
      ih (by omega) hts₄]
    rfl

theorem says_object {ks : List Token} {es : List (String × Expression)} (h : EntryTokens ks es) :
    Says (.symbol .leftBrace :: ks) (.object es) := by
  refine ⟨by simp, fun steps ts rest hsteps hts _ => ?_⟩
  obtain ⟨x, ts, rfl, hx, hts⟩ := List.map_eq_cons_iff.1 hts
  obtain ⟨steps, rfl⟩ : ∃ n, steps = n + 1 := ⟨steps - 1, by simp at hsteps; omega⟩
  rw [List.cons_append]
  unfold Expression.readValue
  simp only [hx]
  rw [readEntries_of_tokens h (by simpa using hsteps) hts]
  rfl

end DesignSync.Markup

import DesignSync.Proofs.Markup.Braces
import DesignSync.Proofs.Number.Notation

/-!
Tokens of written text. Each kind of token is taken as a whole, whatever stands behind it that does
not prolong it, and blanks in front of it are passed over.
-/

namespace DesignSync.Markup

open Text

/-- A character that starts neither blanks nor a comment. -/
def isSolid (c : Char) : Bool := !isLexerBlank c && c != '/'

/-! ### Identifiers -/

/-- The characters behind the first one of an identifier: name characters, each behind at most one
dash. -/
def isWordTail : List Char → Bool
  | [] => true
  | '-' :: c :: cs => isNameChar c && isWordTail cs
  | c :: cs => isNameChar c && isWordTail cs

/-- The identifiers of the lexer. Keywords are among them. -/
def isIdentifier : List Char → Bool
  | [] => false
  | c :: cs => isNameStart c && isWordTail cs

/-- How many characters a word takes behind its first one. -/
def wordSize (cs : List Char) : Nat :=
  runSize isNameChar cs + dashedSize (cs.drop (runSize isNameChar cs))

/-- A text that does not prolong a word in front of it. -/
def EndsWord (rest : List Char) : Prop := ∀ c ∈ rest.head?, isNameChar c = false ∧ c ≠ '-'

theorem wordSize_name {c : Char} (h : isNameChar c = true) (cs : List Char) :
    wordSize (c :: cs) = wordSize cs + 1 := by
  have hrun : runSize isNameChar (c :: cs) = runSize isNameChar cs + 1 := by simp [runSize, h]
  rw [wordSize, hrun, List.drop_succ_cons, wordSize]
  omega

theorem wordSize_dash {c : Char} (h : isNameChar c = true) (cs : List Char) :
    wordSize ('-' :: c :: cs) = wordSize cs + 2 := by
  have hrun : runSize isNameChar ('-' :: c :: cs) = 0 := runSize_eq_zero (by decide) _
  rw [wordSize, hrun, List.drop_zero, dashedSize, if_pos h, wordSize]
  dsimp only
  omega

theorem wordSize_of_endsWord {rest : List Char} (h : EndsWord rest) : wordSize rest = 0 := by
  cases rest with
  | nil =>
    rw [wordSize, List.drop_nil, dashedSize]
    · rfl
    · intro c cs heq
      cases heq
  | cons c cs =>
    obtain ⟨hname, hdash⟩ := h c rfl
    rw [wordSize, runSize_eq_zero hname, List.drop_zero, dashedSize]
    intro d tail heq
    exact hdash (List.cons.inj heq).1

theorem wordSize_append {tail rest : List Char} (htail : isWordTail tail = true)
    (hrest : EndsWord rest) : wordSize (tail ++ rest) = tail.length := by
  fun_induction isWordTail tail with
  | case1 => exact wordSize_of_endsWord hrest
  | case2 c cs ih =>
    rw [Bool.and_eq_true] at htail
    rw [List.cons_append, List.cons_append, wordSize_dash htail.1, ih htail.2]
    rfl
  | case3 c cs _ ih =>
    rw [Bool.and_eq_true] at htail
    rw [List.cons_append, wordSize_name htail.1, ih htail.2]
    rfl

theorem Keyword.text_of_ofText? {w : String} {k : Keyword} (h : ofText? w = some k) :
    k.text = w := by
  unfold ofText? at h
  split at h <;> cases h <;> rfl

theorem name?_wordToken (w : String) (next : Option Char) : (wordToken w next).name? = some w := by
  unfold wordToken
  split
  · next k hk =>
    split
    · rfl
    · exact congrArg some (Keyword.text_of_ofText? hk)
  · rfl

theorem lexeme_word {c : Char} {tail rest : List Char} (hword : isIdentifier (c :: tail) = true)
    (hrest : EndsWord rest) : lexeme c (tail ++ rest) =
      (some (wordToken (String.ofList (c :: tail)) rest.head?), tail.length) := by
  simp only [isIdentifier, Bool.and_eq_true] at hword
  have hsize := wordSize_append hword.2 hrest
  unfold wordSize at hsize
  simp only [lexeme, if_pos hword.1, hsize, List.take_left, List.drop_left]

/-! ### Strings, numbers and symbols -/

theorem stringSize_cons_of_ne {c : Char} (h : c ≠ '\\') (quote : Char) (cs : List Char) :
    stringSize quote (c :: cs) =
      if c = quote then (true, 1) else if c = '\n' then (false, 0)
      else ((stringSize quote cs).1, (stringSize quote cs).2 + 1) := by
  rw [stringSize]
  · exact fun h' => absurd h' h
  · exact fun _ _ h' => absurd h' h

theorem stringSize_escaped {quote : Char} {body : List Char} (hslash : quote ≠ '\\')
    (h : Quoted.Escaped quote body) (rest : List Char) :
    stringSize quote (body ++ quote :: rest) = (true, body.length + 1) := by
  induction h with
  | nil => rw [List.nil_append, stringSize_cons_of_ne hslash, if_pos rfl, List.length_nil]
  | plain hquote hslash hline _ ih =>
    rw [List.cons_append, stringSize_cons_of_ne hslash, if_neg hquote, if_neg hline, ih]
    rfl
  | pair hline _ ih =>
    rw [List.cons_append, List.cons_append, stringSize, if_neg hline, ih]
    rfl

theorem lexeme_quoted {quote : Char} {body : List Char} (hquote : quote = '"' ∨ quote = '\'')
    (h : Quoted.Escaped quote body) (rest : List Char) :
    lexeme quote (body ++ quote :: rest) =
      (some ((if quote = '"' then Token.doubleQuoted else Token.singleQuoted)
        (String.ofList (quote :: (body ++ [quote])))), body.length + 1) := by
  have hname : isNameStart quote = false := by rcases hquote with rfl | rfl <;> decide
  have hslash : quote ≠ '\\' := by rcases hquote with rfl | rfl <;> decide
  have htake : (body ++ quote :: rest).take (body.length + 1) = body ++ [quote] := by
    rw [List.append_cons, show body.length + 1 = (body ++ [quote]).length by simp, List.take_left]
  simp [lexeme, hname, hquote, stringSize_escaped hslash h, htake]

/-- A text that does not prolong a number in front of it. -/
def EndsNumber (rest : List Char) : Prop := ∀ c ∈ rest.head?, Numeral.isDigit c = false ∧ c ≠ '.'

theorem numberSize_append {whole fraction rest : List Char}
    (hwhole : ∀ c ∈ whole, Numeral.isDigit c = true)
    (hfraction : ∀ c ∈ fraction, Numeral.isDigit c = true) (hrest : EndsNumber rest) :
    numberSize (Numeral.marked whole fraction ++ rest) =
      (Numeral.marked whole fraction).length := by
  have hstop : runSize Numeral.isDigit rest = 0 := by
    cases rest with
    | nil => rfl
    | cons c cs => exact runSize_eq_zero (hrest c rfl).1 cs
  unfold Numeral.marked
  cases fraction with
  | nil =>
    have hrun : runSize Numeral.isDigit (whole ++ rest) = whole.length := by
      rw [runSize_append hwhole, hstop, Nat.add_zero]
    simp only [List.isEmpty_nil, if_true, List.append_nil]
    rw [numberSize, hrun, List.drop_left]
    split
    · next c cs => exact absurd rfl (hrest '.' rfl).2
    · rfl
  | cons d fraction =>
    have hd := hfraction d List.mem_cons_self
    have hfraction := fun c hc => hfraction c (List.mem_cons_of_mem d hc)
    have hrun : runSize Numeral.isDigit (whole ++ '.' :: d :: (fraction ++ rest)) = whole.length := by
      rw [runSize_append hwhole, runSize_eq_zero (by decide), Nat.add_zero]
    simp only [List.isEmpty_cons, Bool.false_eq_true, if_false, List.append_assoc, List.cons_append]
    rw [numberSize, hrun, List.drop_left]
    simp only [hd, if_true]
    rw [runSize_append hfraction, hstop]
    simp only [List.length_append, List.length_cons]
    omega

/-- A digit starts neither a name nor a string, blanks or a comment. -/
private theorem start_of_digit {c : Char} (h : Numeral.isDigit c = true) :
    isNameStart c = false ∧ c ≠ '"' ∧ c ≠ '\'' ∧ isSolid c = true := by
  have hall : ∀ n : Fin 10, isNameStart (Char.ofNat (48 + n)) = false ∧
      Char.ofNat (48 + n) ≠ '"' ∧ Char.ofNat (48 + n) ≠ '\'' ∧
      isSolid (Char.ofNat (48 + n)) = true := by decide
  simp only [Numeral.isDigit, Bool.and_eq_true, decide_eq_true_eq] at h
  have hlow : 48 ≤ c.toNat := h.1
  have hhigh : c.toNat ≤ 57 := h.2
  have hc := hall ⟨c.toNat - 48, by omega⟩
  simpa only [show 48 + (c.toNat - 48) = c.toNat by omega, Char.ofNat_toNat] using hc

private theorem lexeme_of_digit {c : Char} (h : Numeral.isDigit c = true) (cs : List Char) :
    lexeme c cs =
      (some (.number (String.ofList (c :: cs.take (numberSize cs)))), numberSize cs) := by
  obtain ⟨hname, hdouble, hsingle, -⟩ := start_of_digit h
  simp [lexeme, hname, hdouble, hsingle, h]

private theorem lexeme_of_minus {cs : List Char} (h : cs.head?.any Numeral.isDigit = true) :
    lexeme '-' cs =
      (some (.number (String.ofList ('-' :: cs.take (numberSize cs)))), numberSize cs) := by
  have hname : isNameStart '-' = false := by decide
  have hdigit : Numeral.isDigit '-' = false := by decide
  simp [lexeme, hname, hdigit, h]

theorem lexeme_number {text whole fraction : List Char} {c : Char} {tail rest : List Char}
    (negative : Bool) (htext : Numeral.IsDecimal text whole fraction)
    (heq : (if negative then '-' :: text else text) = c :: tail) (hrest : EndsNumber rest) :
    lexeme c (tail ++ rest) = (some (.number (String.ofList (c :: tail))), tail.length) := by
  obtain ⟨rfl, hne, hwhole, hfraction⟩ := htext
  obtain ⟨d, ds, rfl⟩ := List.exists_cons_of_ne_nil hne
  have hd := hwhole d List.mem_cons_self
  cases negative with
  | true =>
    obtain ⟨rfl, rfl⟩ := List.cons.inj heq
    rw [lexeme_of_minus (by simp [Numeral.marked, hd]),
      numberSize_append hwhole hfraction hrest, List.take_left]
  | false =>
    have hmarked : Numeral.marked (d :: ds) fraction = d :: Numeral.marked ds fraction := rfl
    rw [hmarked] at heq
    obtain ⟨rfl, rfl⟩ := List.cons.inj heq
    have hds := fun c hc => hwhole c (List.mem_cons_of_mem d hc)
    rw [lexeme_of_digit hd, numberSize_append hds hfraction hrest, List.take_left]

/-- The symbols that are one wherever they stand. -/
def isFirmSymbol (c : Char) : Bool :=
  ['\x7b', '\x7d', '(', ')', '[', ']', '<', '>', '=', ':', ';', ',', '.'].contains c

theorem lexeme_symbol {s : Symbol} (h : isFirmSymbol s.char = true) (cs : List Char) :
    lexeme s.char cs = (some (.symbol s), 0) := by
  cases s with
  | slash => cases h
  | minus => cases h
  | _ => rfl

theorem lexeme_slash {cs : List Char} (h : cs.head? ≠ some '*') :
    lexeme '/' cs = (some (.symbol .slash), 0) := by
  have hname : isNameStart '/' = false := by decide
  have hdigit : Numeral.isDigit '/' = false := by decide
  simp [lexeme, hname, hdigit, h, isOperator, Symbol.ofChar?]

/-! ### Blanks -/

/-- A text that consists of blanks. -/
def IsGap (gap : List Char) : Prop := ∀ c ∈ gap, c = ' ' ∨ c = '\n'

theorem triviaSize_gap {gap : List Char} (h : IsGap gap) (cs : List Char) :
    triviaSize (gap ++ cs) = gap.length + triviaSize cs := by
  induction gap with
  | nil => simp
  | cons c gap ih =>
    have hc : isLexerBlank c = true ∧ c ≠ '/' := by
      rcases h c List.mem_cons_self with rfl | rfl <;> decide
    rw [List.cons_append, triviaSize]
    · rw [if_pos hc.1, ih fun d hd => h d (List.mem_cons_of_mem _ hd), List.length_cons]
      omega
    · exact fun _ h' => absurd h' hc.2
    · exact fun _ h' => absurd h' hc.2

theorem triviaSize_solid {c : Char} (h : isSolid c = true) (cs : List Char) :
    triviaSize (c :: cs) = 0 := by
  simp only [isSolid, Bool.and_eq_true, Bool.not_eq_true', bne_iff_ne] at h
  rw [triviaSize]
  · simp [h.1]
  · exact fun _ h' => absurd h' h.2
  · exact fun _ h' => absurd h' h.2

/-- A text starts with a token, and another text stands behind it. -/
def Lexes (cs : List Char) (t : Token) (rest : List Char) : Prop :=
  ∃ c tail size, cs = c :: tail ∧ triviaSize cs = 0 ∧ lexeme c tail = (some t, size) ∧
    tail.drop size = rest

theorem lexFrom_of_lexes {p : Place} {g cs rest : List Char} {t : Token} (hp : p.rest = g ++ cs)
    (hgap : IsGap g) (h : Lexes cs t rest) :
    ∃ start stop, lexFrom p = some ⟨some t, start, stop⟩ ∧ start.rest = cs ∧ stop.rest = rest := by
  obtain ⟨c, tail, size, rfl, htrivia, hlexeme, rfl⟩ := h
  have hstart : (p.skip (triviaSize p.rest)).rest = c :: tail := by
    simp only [Place.skip, hp, triviaSize_gap hgap, htrivia, Nat.add_zero, List.drop_left]
  unfold lexFrom
  dsimp only
  split
  · next hnil => rw [hstart] at hnil; cases hnil
  · next c' tail' heq =>
    rw [hstart] at heq
    obtain ⟨rfl, rfl⟩ := List.cons.inj heq
    rw [hlexeme]
    refine ⟨_, _, rfl, hstart, ?_⟩
    simp only [Place.skip] at hstart ⊢
    rw [hstart, List.drop_succ_cons]

/-- Passing over blanks first makes no difference. -/
theorem lexFrom_gap {p : Place} {gap cs : List Char} (hp : p.rest = gap ++ cs) (hgap : IsGap gap) :
    lexFrom p = lexFrom (p.skip gap.length) := by
  have hskip : p.skip (triviaSize p.rest)
      = (p.skip gap.length).skip (triviaSize (p.skip gap.length).rest) := by
    have hrest : (p.skip gap.length).rest = cs := by simp [Place.skip, hp]
    rw [hrest, hp, triviaSize_gap hgap, Place.skip_skip]
  rw [lexFrom, lexFrom, hskip]

theorem Lexes.symbol {s : Symbol} (h : isFirmSymbol s.char = true) (rest : List Char) :
    Lexes (s.char :: rest) (.symbol s) rest := by
  have hsolid : isSolid s.char = true := by
    cases s with
    | slash => cases h
    | _ => rfl
  exact ⟨s.char, rest, 0, rfl, triviaSize_solid hsolid rest, lexeme_symbol h rest, rfl⟩

/-- A slash in front of something that does not make it a comment. -/
theorem Lexes.slash {rest : List Char} (hstar : rest.head? ≠ some '*')
    (hslash : rest.head? ≠ some '/') : Lexes ('/' :: rest) (.symbol .slash) rest := by
  refine ⟨'/', rest, 0, rfl, ?_, lexeme_slash hstar, rfl⟩
  rw [triviaSize]
  · simp [isLexerBlank]
  · rintro tail - rfl
    exact hslash rfl
  · rintro tail - rfl
    exact hstar rfl

theorem isSolid_of_start {c : Char} (h : isNameStart c = true) : isSolid c = true := by
  have hne (x : Char) (hx : isNameStart x = false) : c ≠ x := by
    rintro rfl
    rw [h] at hx
    cases hx
  simp [isSolid, isLexerBlank, hne ' ' (by decide), hne '\t' (by decide), hne '\n' (by decide),
    hne '\r' (by decide), hne '/' (by decide)]

theorem Lexes.word {w rest : List Char} (hword : isIdentifier w = true) (hrest : EndsWord rest) :
    Lexes (w ++ rest) (wordToken (String.ofList w) rest.head?) rest := by
  cases w with
  | nil => cases hword
  | cons c tail =>
    have hstart : isNameStart c = true := by
      simp only [isIdentifier, Bool.and_eq_true] at hword
      exact hword.1
    exact ⟨c, tail ++ rest, tail.length, rfl, triviaSize_solid (isSolid_of_start hstart) _,
      lexeme_word hword hrest, List.drop_left⟩

theorem Lexes.escaped {quote : Char} {body : List Char} (hquote : quote = '"' ∨ quote = '\'')
    (h : Quoted.Escaped quote body) (rest : List Char) :
    Lexes (quote :: (body ++ quote :: rest))
      ((if quote = '"' then Token.doubleQuoted else Token.singleQuoted)
        (String.ofList (quote :: (body ++ [quote])))) rest := by
  have hsolid : isSolid quote = true := by rcases hquote with rfl | rfl <;> decide
  refine ⟨quote, body ++ quote :: rest, body.length + 1, rfl, triviaSize_solid hsolid _,
    lexeme_quoted hquote h rest, ?_⟩
  rw [List.append_cons, show body.length + 1 = (body ++ [quote]).length by simp, List.drop_left]

theorem Lexes.quoted (s : String) (rest : List Char) :
    Lexes ((Quoted.quoted s).toList ++ rest) (.doubleQuoted (Quoted.quoted s)) rest := by
  have htoken : Quoted.quoted s = String.ofList ('"' :: (s.toList.flatMap Quoted.encodeChar ++ ['"'])) :=
    rfl
  have h := Lexes.escaped (.inl rfl) (Quoted.escaped_encode s.toList) rest
  rw [if_pos rfl, ← htoken] at h
  rw [Quoted.toList_quoted, List.cons_append, List.append_assoc]
  exact h

theorem Lexes.number {x : Binary64} (h : x.isFinite = true) {rest : List Char}
    (hrest : EndsNumber rest) :
    Lexes (x.plainText.toList ++ rest) (.number x.plainText) rest := by
  obtain ⟨negative, text, whole, fraction, heq, hdecimal, -⟩ := Binary64.plainText_decimal h
  obtain ⟨c, tail, hcons, hsolid⟩ :
      ∃ c tail, (if negative then '-' :: text else text) = c :: tail ∧ isSolid c = true := by
    cases negative with
    | true => exact ⟨'-', text, rfl, by decide⟩
    | false =>
      obtain ⟨htext, hne, hwhole, -⟩ := hdecimal
      obtain ⟨d, ds, rfl⟩ := List.exists_cons_of_ne_nil hne
      exact ⟨d, _, htext, (start_of_digit (hwhole d List.mem_cons_self)).2.2.2⟩
  have hlexeme := lexeme_number negative hdecimal hcons hrest
  have htoken : x.plainText = String.ofList (c :: tail) := by
    rw [← hcons, ← heq, String.ofList_toList]
  rw [htoken, String.toList_ofList]
  exact ⟨c, tail ++ rest, tail.length, rfl, triviaSize_solid hsolid _, hlexeme, List.drop_left⟩

/-! ### In front of the root element -/

theorem peekLenient_eq (p : Place) : peekLenient p =
    match lexFrom p with
    | none => none
    | some x =>
      match x.token with
      | some t => some ⟨t, x.start, x.stop⟩
      | none => peekLenient (x.start.skip 1) := by
  conv => lhs; rw [peekLenient.eq_def]
  grind

theorem skipToReturn_eq (p : Place) : skipToReturn p =
    match peekLenient p with
    | none => .error .missingRoot
    | some x =>
      if x.token = .keyword .returnWord then
        match peek x.stop with
        | .error e => .error e
        | .ok (some ⟨.symbol .leftParen, _, _⟩) => .ok x.stop
        | .ok (some ⟨.symbol .leftAngle, _, _⟩) => .ok x.stop
        | .ok _ => skipToReturn x.stop
      else skipToReturn x.stop := by
  conv => lhs; rw [skipToReturn.eq_def]
  grind

end DesignSync.Markup

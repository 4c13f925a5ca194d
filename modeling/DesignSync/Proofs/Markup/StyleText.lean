import DesignSync.Markup.Writer
import DesignSync.Proofs.Markup.Classify

/-!
Member expressions and style maps as text: what the writer makes of them is passed over by braces
and has the shape it was written for.
-/

namespace DesignSync.Markup

open Text

/-! ### Member expressions -/

theorem isWordTail_of_all {cs : List Char} (h : cs.all isNameChar = true) : isWordTail cs = true := by
  fun_induction isWordTail cs with
  | case1 => rfl
  | case2 c cs ih =>
    simp only [List.all_cons, Bool.and_eq_true] at h
    exact absurd h.1 (by decide)
  | case3 c cs _ ih =>
    simp only [List.all_cons, Bool.and_eq_true] at h
    rw [h.1, ih h.2]
    rfl

theorem isIdentifier_of_isPlainName {cs : List Char} (h : isPlainName cs = true) :
    isIdentifier cs = true := by
  cases cs with
  | nil => cases h
  | cons c cs =>
    simp only [isPlainName, Bool.and_eq_true] at h
    simp only [isIdentifier, h.1, isWordTail_of_all h.2, Bool.and_true]

private theorem isInert_of_isNameChar {c : Char} (h : isNameChar c = true) : isInert c = true := by
  have hne (x : Char) (hx : isNameChar x = false) : c ≠ x := by
    rintro rfl
    rw [h] at hx
    cases hx
  simp [isInert, hne '\x7b' (by decide), hne '\x7d' (by decide), hne '/' (by decide),
    hne '"' (by decide), hne '\'' (by decide), hne '\x60' (by decide)]

theorem inert_of_isPlainName {cs : List Char} (h : isPlainName cs = true) : Inert cs := by
  cases cs with
  | nil => cases h
  | cons c cs =>
    simp only [isPlainName, Bool.and_eq_true, List.all_eq_true] at h
    refine .of_all (List.all_eq_true.2 fun d hd => isInert_of_isNameChar ?_)
    rcases List.mem_cons.1 hd with rfl | hd
    · simp [isNameChar, h.1]
    · exact h.2 d hd

theorem isPlainName_space (kind : RefKind) : isPlainName kind.space.toList = true := by
  cases kind <;> rfl

theorem wordToken_space (kind : RefKind) (next : Option Char) :
    wordToken kind.space next = .identifier kind.space := by
  cases kind <;> rfl

theorem inert_memberExpression (kind : RefKind) (name : String) :
    Inert (memberExpression kind.space name).toList := by
  have hspace := inert_of_isPlainName (isPlainName_space kind)
  unfold memberExpression
  split
  · next h =>
    simp only [String.toList_append]
    exact (hspace.append (.char (by decide))).append (inert_of_isPlainName h)
  · simp only [String.toList_append]
    exact ((hspace.append (.char (by decide))).append (.quoted name)).append (.char (by decide))

/-- What stands behind a value in a style map: a blank or a comma. -/
def EndsValue (rest : List Char) : Prop := ∀ c ∈ rest.head?, c = ' ' ∨ c = ','

theorem EndsValue.endsWord {rest : List Char} (h : EndsValue rest) : EndsWord rest := by
  intro c hc
  rcases h c hc with rfl | rfl <;> decide

theorem EndsValue.endsNumber {rest : List Char} (h : EndsValue rest) : EndsNumber rest := by
  intro c hc
  rcases h c hc with rfl | rfl <;> decide

theorem wordToken_of_endsWord {rest : List Char} (h : EndsWord rest) (w : String) :
    wordToken w rest.head? = wordToken w none := by
  have hne : rest.head? ≠ some '-' := fun hdash => (h '-' hdash).2 rfl
  simp [wordToken, hne]

/-- The tokens of a member expression. -/
def memberTokens (kind : RefKind) (name : String) : List Token :=
  .identifier kind.space ::
    if isPlainName name.toList then [.symbol .dot, wordToken name none]
    else [.symbol .leftBracket, .doubleQuoted (Quoted.quoted name), .symbol .rightBracket]

theorem says_memberTokens (kind : RefKind) (name : String) :
    Says (memberTokens kind name) (.member [kind.space, name]) := by
  unfold memberTokens
  split
  · exact says_dotted kind.space (name?_wordToken name none)
  · exact says_bracketed kind.space name

theorem lexesAll_memberExpression (kind : RefKind) (name : String) {rest : List Char}
    (hrest : EndsWord rest) :
    LexesAll ((memberExpression kind.space name).toList ++ rest) (memberTokens kind name) rest := by
  have hspace := isIdentifier_of_isPlainName (isPlainName_space kind)
  have hhead (c : Char) (rest : List Char) (hc : isNameChar c = false ∧ c ≠ '-') :
      Lexes (kind.space.toList ++ c :: rest) (.identifier kind.space) (c :: rest) := by
    have hends : EndsWord (c :: rest) := fun d hd => Option.some.inj hd ▸ hc
    have h := Lexes.word hspace hends
    rwa [String.ofList_toList, wordToken_space] at h
  unfold memberExpression memberTokens
  split
  · next hplain =>
    simp only [String.toList_append, List.append_assoc]
    refine .cons (hhead '.' _ (by decide)) (.cons (Lexes.symbol (s := .dot) (by decide) _) ?_)
    have h := Lexes.word (isIdentifier_of_isPlainName hplain) hrest
    rw [String.ofList_toList, wordToken_of_endsWord hrest] at h
    exact .cons h (.nil rest)
  · simp only [String.toList_append, List.append_assoc]
    refine .cons (hhead '[' _ (by decide)) (.cons (Lexes.symbol (s := .leftBracket) (by decide) _) ?_)
    simp only [List.append_eq, List.nil_append]
    refine .cons (Lexes.quoted name _) (.cons (Lexes.symbol (s := .rightBracket) (by decide) _) ?_)
    exact .nil rest

theorem lexesAll_whole_memberExpression (kind : RefKind) (name : String) :
    LexesAll (memberExpression kind.space name).toList (memberTokens kind name) [] := by
  have hlexes := @lexesAll_memberExpression kind name [] (by simp [EndsWord])
  rwa [List.append_nil] at hlexes

/-! ### Style values -/

/-- A value in a style map as it is written. -/
inductive StyleValue where
  | text (s : String)
  | number (x : Binary64)
  | member (kind : RefKind) (name : String)

namespace StyleValue

def source : StyleValue → String
  | text s => Quoted.quoted s
  | number x => x.plainText
  | member kind name => memberExpression kind.space name

/-- What the written value is read as. -/
def expression : StyleValue → Expression
  | text s => .text s
  | number x => .number x.plain
  | member kind name => .member [kind.space, name]

/-- Only finite numbers are written as numbers. -/
def IsWritable : StyleValue → Prop
  | number x => x.isFinite = true
  | _ => True

private theorem isInert_of_isDigit {c : Char} (h : Numeral.isDigit c = true) : isInert c = true := by
  refine isInert_of_isNameChar ?_
  unfold Numeral.isDigit at h
  simp [isNameChar, h]

theorem inert_source {v : StyleValue} (h : v.IsWritable) : Inert v.source.toList := by
  cases v with
  | text s => exact .quoted s
  | number x =>
    obtain ⟨negative, text, whole, fraction, heq, ⟨rfl, -, hwhole, hfraction⟩, -⟩ :=
      Binary64.plainText_decimal h
    have hmarked : Inert (Numeral.marked whole fraction) := by
      refine .append (.of_all (List.all_eq_true.2 fun c hc => isInert_of_isDigit (hwhole c hc))) ?_
      split
      · exact .nil
      · exact .append (a := ['.']) (.char (by decide))
          (.of_all (List.all_eq_true.2 fun c hc => isInert_of_isDigit (hfraction c hc)))
    simp only [source, heq]
    cases negative with
    | true => exact .append (a := ['-']) (.char (by decide)) hmarked
    | false => exact hmarked
  | member kind name => exact inert_memberExpression kind name

theorem lexesAll_source {v : StyleValue} (h : v.IsWritable) :
    ∃ ks, Says ks v.expression ∧ ∀ rest, EndsValue rest →
      LexesAll (v.source.toList ++ rest) ks rest := by
  cases v with
  | text s => exact ⟨_, says_text s, fun rest _ => .cons (Lexes.quoted s rest) (.nil rest)⟩
  | number x =>
    obtain ⟨_, _, _, _, -, -, hread⟩ := Binary64.plainText_decimal h
    have hsays := says_number x.plainText
    rw [hread] at hsays
    exact ⟨_, hsays, fun rest hrest => .cons (Lexes.number h hrest.endsNumber) (.nil rest)⟩
  | member kind name =>
    exact ⟨_, says_memberTokens kind name, fun _ hrest =>
      lexesAll_memberExpression kind name hrest.endsWord⟩

end StyleValue

/-! ### Style maps -/

/-- A key of a style map as it is written. -/
def keyText (key : String) : String := if isPlainName key.toList then key else Quoted.quoted key

theorem inert_keyText (key : String) : Inert (keyText key).toList := by
  unfold keyText
  split
  · next h => exact inert_of_isPlainName h
  · exact .quoted key

theorem lexes_keyText (key : String) : ∃ k, keyOf? k = some key ∧ ∀ rest,
    Lexes ((keyText key).toList ++ ':' :: rest) k (':' :: rest) := by
  unfold keyText
  split
  · next h =>
    refine ⟨wordToken key none, ?_, fun rest => ?_⟩
    · have hname := name?_wordToken key none
      unfold keyOf?
      cases hword : wordToken key none with
      | doubleQuoted s => rw [hword] at hname; cases hname
      | singleQuoted s => rw [hword] at hname; cases hname
      | _ => rw [hword] at hname; exact hname
    · have hends : EndsWord (':' :: rest) := by
        intro c hc
        cases hc
        decide
      have hlexes := Lexes.word (isIdentifier_of_isPlainName h) hends
      rwa [String.ofList_toList, wordToken_of_endsWord hends] at hlexes
  · refine ⟨_, ?_, fun rest => Lexes.quoted key _⟩
    simp [keyOf?, Expression.string?, unquote_quoted]

/-- An entry of a style map as it is written. -/
def entryText (x : String × StyleValue) : String := keyText x.1 ++ ": " ++ x.2.source

/-- The entries of a style map as they are written. -/
def entriesText (entries : List (String × StyleValue)) : String :=
  String.intercalate ", " (entries.map entryText)

theorem entriesText_cons_cons (x y : String × StyleValue) (entries : List (String × StyleValue)) :
    entriesText (x :: y :: entries) = entryText x ++ ", " ++ entriesText (y :: entries) :=
  String.intercalate_cons_cons

theorem entriesText_singleton (x : String × StyleValue) : entriesText [x] = entryText x :=
  String.intercalate_singleton

theorem inert_entryText {x : String × StyleValue} (h : x.2.IsWritable) :
    Inert (entryText x).toList := by
  simp only [entryText, String.toList_append]
  exact ((inert_keyText x.1).append (.of_all (by decide))).append (StyleValue.inert_source h)

theorem inert_entriesText {entries : List (String × StyleValue)}
    (h : ∀ x ∈ entries, x.2.IsWritable) : Inert (entriesText entries).toList := by
  induction entries with
  | nil => exact .nil
  | cons x entries ih =>
    have hx := inert_entryText (h x List.mem_cons_self)
    cases entries with
    | nil => rwa [entriesText_singleton]
    | cons y entries =>
      rw [entriesText_cons_cons, String.toList_append, String.toList_append]
      exact (hx.append (.of_all (by decide))).append
        (ih fun z hz => h z (List.mem_cons_of_mem _ hz))

theorem lexesAll_entryText {x : String × StyleValue} (h : x.2.IsWritable) :
    ∃ k ks, keyOf? k = some x.1 ∧ Says ks x.2.expression ∧ ∀ rest, EndsValue rest →
      LexesAll ((entryText x).toList ++ rest) (k :: .symbol .colon :: ks) rest := by
  obtain ⟨k, hkey, hklex⟩ := lexes_keyText x.1
  obtain ⟨ks, hsays, hlexes⟩ := StyleValue.lexesAll_source h
  refine ⟨k, ks, hkey, hsays, fun rest hrest => ?_⟩
  simp only [entryText, String.toList_append, List.append_assoc]
  exact .cons (hklex _) (.cons (Lexes.symbol (s := .colon) (by decide) _)
    (.gap (g := [' ']) (by simp [IsGap]) (hlexes rest hrest)))

theorem lexesAll_entriesText {entries : List (String × StyleValue)}
    (hne : entries ≠ []) (h : ∀ x ∈ entries, x.2.IsWritable) :
    ∃ ks, EntryTokens ks (entries.map fun x => (x.1, x.2.expression)) ∧ ∀ rest,
      LexesAll ((entriesText entries).toList ++ ' ' :: '\x7d' :: rest) ks rest := by
  induction entries with
  | nil => exact absurd rfl hne
  | cons x entries ih =>
    obtain ⟨k, ks, hkey, hsays, hlexes⟩ := lexesAll_entryText (h x List.mem_cons_self)
    cases entries with
    | nil =>
      refine ⟨_, .last hkey hsays, fun rest => ?_⟩
      rw [entriesText_singleton]
      exact (hlexes _ (by simp [EndsValue])).append
        (.space (Lexes.symbol (s := .rightBrace) (by decide) _) (.nil rest))
    | cons y entries =>
      obtain ⟨ls, hentries, hmore⟩ := ih (by simp) fun z hz => h z (List.mem_cons_of_mem _ hz)
      refine ⟨_, .cons hkey hsays hentries, fun rest => ?_⟩
      rw [entriesText_cons_cons, String.toList_append, String.toList_append, List.append_assoc,
        List.append_assoc]
      exact (hlexes _ (by simp [EndsValue])).append
        (.cons (Lexes.symbol (s := .comma) (by decide) _)
          (.gap (g := [' ']) (by simp [IsGap]) (hmore rest)))

theorem toList_braced (s : String) : (braced s).toList = '\x7b' :: (s.toList ++ ['\x7d']) := by
  simp [braced]

/-- A style map as it is written between the braces of an attribute. -/
def styleText (entries : List (String × StyleValue)) : String :=
  braced (" " ++ entriesText entries ++ " ")

theorem captured_styleText {entries : List (String × StyleValue)}
    (h : ∀ x ∈ entries, x.2.IsWritable) : Captured (styleText entries) := by
  refine captured_of_inert ?_
  have hbody : Inert (" " ++ entriesText entries ++ " ").toList := by
    simp only [String.toList_append]
    exact ((Inert.of_all (by decide)).append (inert_entriesText h)).append (.of_all (by decide))
  rw [styleText, toList_braced]
  exact hbody.braced

theorem isTrimmed_braced (s : String) : IsTrimmed (braced s).toList := by
  rw [toList_braced]
  exact isTrimmed_enclosed (by decide) (by decide) _

/-- A written style map is read as an object literal with its entries. -/
theorem classify_styleText {entries : List (String × StyleValue)} (hne : entries ≠ [])
    (h : ∀ x ∈ entries, x.2.IsWritable) :
    Expression.classify (styleText entries) =
      .object (entries.map fun x => (x.1, x.2.expression)) := by
  obtain ⟨ks, hentries, hlexes⟩ := lexesAll_entriesText hne h
  refine classify_of_says (isTrimmed_braced _) ?_ (says_object hentries)
  simp only [styleText, braced, String.toList_append, List.append_assoc]
  exact .cons (Lexes.symbol (s := .leftBrace) (by decide) _)
    (.gap (g := [' ']) (by simp [IsGap]) (hlexes []))

end DesignSync.Markup

import DesignSync.Markup.Expression
import DesignSync.Proofs.Markup.Classify
import DesignSync.Proofs.Markup.Counts
import DesignSync.Proofs.Text.Spelling

/-!
The values of strings that are put together from two. A string in double quotes is read as a string
of JSON if it is one; any other loses its backslashes. So what an escape says depends on the whole
string: the value of two strings in one is made of their values only where both were read in the
way of the whole, or where the other way makes no difference to them.
-/

namespace DesignSync.Markup

open Text Quoted

variable {quote : Char} {a b s t u : List Char}

/-! ### What stands between the quotes -/

theorem dropBackslashes_cons {c : Char} (h : c ≠ '\\') (cs : List Char) :
    dropBackslashes (c :: cs) = c :: dropBackslashes cs := by
  rw [dropBackslashes]
  · exact fun hc => absurd hc h
  · exact fun _ _ hc => absurd hc h

theorem dropBackslashes_append (h : Escaped quote a) (b : List Char) :
    dropBackslashes (a ++ b) = dropBackslashes a ++ dropBackslashes b := by
  induction h with
  | nil => rfl
  | plain _ hslash _ _ ih =>
    rw [List.cons_append, dropBackslashes_cons hslash, ih, dropBackslashes_cons hslash]
    rfl
  | pair _ _ ih =>
    rw [List.cons_append, List.cons_append, dropBackslashes, ih, dropBackslashes]
    rfl

theorem length_dropBackslashes_pos (h : Escaped quote a) (hne : a ≠ []) :
    0 < (dropBackslashes a).length := by
  cases h with
  | nil => exact absurd rfl hne
  | plain _ hslash _ _ =>
    rw [dropBackslashes_cons hslash]
    exact Nat.succ_pos _
  | pair =>
    rw [dropBackslashes]
    exact Nat.succ_pos _

/-! ### Hexadecimal digits -/

/-- A digit of a number behind `\u`. -/
def IsHex (c : Char) : Prop := (hexValue? c).isSome = true

theorem IsHex.ne (h : IsHex c) {d : Char} (hd : hexValue? d = none) : c ≠ d := by
  rintro rfl
  rw [IsHex, hd] at h
  cases h

theorem IsHex.low (h : IsHex c) : 0x20 ≤ c.toNat := by
  unfold IsHex hexValue? at h
  split at h
  · next hc => exact Nat.le_trans (by decide) hc.1
  split at h
  · next hc => exact Nat.le_trans (by decide) hc.1
  split at h
  · next hc => exact Nat.le_trans (by decide) hc.1
  · cases h

theorem isHex_of_hexUnit? {a b c d : Char} {n : Nat} (h : hexUnit? a b c d = some n) :
    ∀ x ∈ [a, b, c, d], IsHex x := by
  obtain ⟨_, ha, h⟩ := Option.bind_eq_some_iff.1 h
  obtain ⟨_, hb, h⟩ := Option.bind_eq_some_iff.1 h
  obtain ⟨_, hc, h⟩ := Option.bind_eq_some_iff.1 h
  obtain ⟨_, hd, h⟩ := Option.bind_eq_some_iff.1 h
  simp [IsHex, ha, hb, hc, hd]

/-- Digits spell themselves. -/
theorem spells_of_isHex {ds : List Char} (h : ∀ x ∈ ds, IsHex x) : Spells ds ds := by
  induction ds with
  | nil => exact .nil
  | cons d ds ih =>
    have hd := h d List.mem_cons_self
    have hform : Spelling [d] d := .plain (hd.ne rfl) (hd.ne rfl) hd.low
    exact .cons hform (ih fun x hx => h x (List.mem_cons_of_mem _ hx))

/-! ### Spellings between quotes -/

theorem escaped_of_spelling {form : List Char} {c : Char} (h : Spelling form c) :
    Escaped '"' form := by
  have hdigits {ds : List Char} (hds : ∀ x ∈ ds, IsHex x) {cs : List Char}
      (hcs : Escaped '"' cs) : Escaped '"' (ds ++ cs) := by
    induction ds with
    | nil => exact hcs
    | cons d ds ih =>
      have hd := hds d List.mem_cons_self
      exact .plain (hd.ne rfl) (hd.ne rfl) (hd.ne rfl)
        (ih fun x hx => hds x (List.mem_cons_of_mem _ hx))
  cases h with
  | plain hquote hslash hlow =>
    refine .plain hquote hslash ?_ .nil
    rintro rfl
    exact absurd hlow (by decide)
  | short h =>
    refine .pair ?_ .nil
    rintro rfl
    cases h
  | unit h => exact .pair (by decide) (hdigits (isHex_of_hexUnit? h) .nil)
  | pair hhigh _ hlow _ =>
    exact .pair (by decide) (hdigits (isHex_of_hexUnit? hhigh)
      (.pair (by decide) (hdigits (isHex_of_hexUnit? hlow) .nil)))

theorem escaped_of_spells (h : Spells a s) : Escaped '"' a := by
  induction h with
  | nil => exact .nil
  | cons hform _ ih => exact (escaped_of_spelling hform).append_iff.2 ih

/-- Without its backslashes a spelling is no shorter than the text. -/
theorem length_le_dropBackslashes (h : Spells a s) : s.length ≤ (dropBackslashes a).length := by
  induction h with
  | nil => exact Nat.zero_le _
  | cons hform _ ih =>
    have hbody := escaped_of_spelling hform
    have hpos := length_dropBackslashes_pos hbody (List.ne_nil_of_length_pos hform.length_pos)
    rw [dropBackslashes_append hbody, List.length_append, List.length_cons]
    omega

/-- The second half of a pair spells nothing by itself. -/
theorem not_spells_trail {e f g h : Char} {low : Nat} (hlow : hexUnit? e f g h = some low)
    (htrail : 0xDC00 ≤ low ∧ low < 0xE000) (cs t : List Char) :
    ¬ Spells ('\\' :: 'u' :: e :: f :: g :: h :: cs) t := by
  intro hspells
  have hlead : ¬ (0xD800 ≤ low ∧ low < 0xDC00) := by omega
  have hread := (spells_iff []).1 hspells
  simp only [List.cons_append] at hread
  rw [decode?, hlow] at hread
  simp only [Option.bind_eq_bind, Option.bind_some, if_neg hlead, if_pos htrail] at hread
  cases hread

/-- A part of a text that starts with an escape has the whole of its first two characters. -/
theorem exists_of_append_eq_escape {d rest : List Char} {x : Char} (h : a ++ d = '\\' :: x :: rest)
    (ha : Escaped '"' a) (hne : a ≠ []) :
    ∃ a', Escaped '"' a' ∧ rest = a' ++ d := by
  cases ha with
  | nil => exact absurd rfl hne
  | plain _ hslash => exact absurd (List.cons.inj h).1 hslash
  | @pair c cs _ ha => exact ⟨cs, ha, (List.cons.inj (List.cons.inj h).2).2.symm⟩

/-- What is left when a spelling is cut in two spells more than nothing by itself, if it spells
anything. -/
theorem length_lt_of_cut {d cs : List Char} {c : Char} (h : Spelling (a ++ d) c)
    (ha : Escaped '"' a) (hne : a ≠ []) (hd : d ≠ []) (hcs : Spells cs s)
    (ht : Spells (d ++ cs) t) : s.length < t.length := by
  have hdigits (hhex : ∀ x ∈ d, IsHex x) : s.length < t.length := by
    obtain ⟨t, rfl, htail⟩ := (spells_of_isHex hhex).append_iff.1 ht
    have hpos := List.length_pos_iff.2 hd
    rw [hcs.unique htail, List.length_append]
    omega
  generalize hform : a ++ d = form at h
  cases h with
  | plain =>
    have hlength := congrArg List.length hform
    have hpos := List.length_pos_iff.2 hne
    have hpos' := List.length_pos_iff.2 hd
    simp only [List.length_append, List.length_singleton] at hlength
    omega
  | short =>
    obtain ⟨a', -, hrest⟩ := exists_of_append_eq_escape hform ha hne
    exact absurd (List.append_eq_nil_iff.1 hrest.symm).2 hd
  | unit hn =>
    obtain ⟨a', -, hrest⟩ := exists_of_append_eq_escape hform ha hne
    refine hdigits fun x hx => isHex_of_hexUnit? hn x ?_
    rw [hrest]
    exact List.mem_append_right _ hx
  | @pair i j k l e f g h high low hhigh _ hlow htrail =>
    obtain ⟨a', ha', hrest⟩ := exists_of_append_eq_escape hform ha hne
    have hhalves : [i, j, k, l] ++ ['\\', 'u', e, f, g, h] = a' ++ d := hrest
    obtain ⟨b', rfl, hsecond⟩ | ⟨d', hfirst, rfl⟩ := List.append_eq_append_iff.1 hhalves
    · by_cases hb : b' = []
      · subst hb
        rw [List.nil_append] at hsecond
        subst hsecond
        exact absurd ht (not_spells_trail hlow htrail cs t)
      · have hb' : Escaped '"' b' :=
          (escaped_of_spells (spells_of_isHex (isHex_of_hexUnit? hhigh))).append_iff.1 ha'
        obtain ⟨a'', -, hrest⟩ := exists_of_append_eq_escape hsecond.symm hb' hb
        refine hdigits fun x hx => isHex_of_hexUnit? hlow x ?_
        rw [hrest]
        exact List.mem_append_right _ hx
    · have hhex : ∀ x ∈ d', IsHex x := fun x hx =>
        isHex_of_hexUnit? hhigh x (hfirst ▸ List.mem_append_right _ hx)
      rw [List.append_assoc] at ht
      obtain ⟨t', -, htail⟩ := (spells_of_isHex hhex).append_iff.1 ht
      exact absurd htail (not_spells_trail hlow htrail cs t')

/-- A text that is cut inside the spelling of a character says more in two parts than as a whole. -/
theorem length_lt_of_spells_append (h : Spells (a ++ b) u) (ha : Escaped '"' a)
    (hcut : ¬ ∃ s, Spells a s) :
    u.length < (dropBackslashes a).length + (dropBackslashes b).length ∧
      ∀ t, Spells b t → u.length < (dropBackslashes a).length + t.length := by
  generalize hwhole : a ++ b = whole at h
  induction h generalizing a with
  | nil =>
    obtain ⟨rfl, -⟩ := List.append_eq_nil_iff.1 hwhole
    exact absurd ⟨_, .nil⟩ hcut
  | @cons form cs s c hform hcs ih =>
    have hbody := escaped_of_spelling hform
    obtain ⟨d, rfl, rfl⟩ | ⟨a', rfl, hrest⟩ := List.append_eq_append_iff.1 hwhole
    · have hne : a ≠ [] := fun hnil => hcut ⟨[], hnil ▸ .nil⟩
      have hd : d ≠ [] := by
        rintro rfl
        rw [List.append_nil] at hform
        exact hcut ⟨[c], List.append_nil a ▸ .cons hform .nil⟩
      have hd' : Escaped '"' d := ha.append_iff.1 hbody
      have hpos := length_dropBackslashes_pos ha hne
      have hpos' := length_dropBackslashes_pos hd' hd
      have hle := length_le_dropBackslashes hcs
      rw [dropBackslashes_append hd', List.length_append, List.length_cons]
      refine ⟨by omega, fun t ht => ?_⟩
      have hlt := length_lt_of_cut hform ha hne hd hcs ht
      omega
    · have ha' : Escaped '"' a' := hbody.append_iff.1 ha
      have hpos := length_dropBackslashes_pos hbody (List.ne_nil_of_length_pos hform.length_pos)
      obtain ⟨hplain, hspelled⟩ := ih ha' (fun ⟨t, ht⟩ => hcut ⟨_, .cons hform ht⟩) hrest.symm
      rw [dropBackslashes_append hbody, List.length_append, List.length_cons]
      refine ⟨by omega, fun t ht => ?_⟩
      have hlt := hspelled t ht
      omega

/-! ### Values -/

/-- Whether a text has one of the escapes that only stand for something else in JSON. -/
def hasJsonEscape : List Char → Bool
  | [] => false
  | ['\\'] => false
  | '\\' :: c :: cs => c == 'b' || c == 'f' || c == 'u' || hasJsonEscape cs
  | _ :: cs => hasJsonEscape cs

theorem hasJsonEscape_cons {c : Char} (h : c ≠ '\\') (cs : List Char) :
    hasJsonEscape (c :: cs) = hasJsonEscape cs := by
  rw [hasJsonEscape]
  · exact fun hc => absurd hc h
  · exact fun _ _ hc => absurd hc h

/-- Taking the backslashes out gives the text itself where JSON has no escape of its own. -/
theorem dropBackslashes_eq_iff (h : Spells a s) :
    dropBackslashes a = s ↔ hasJsonEscape a = false := by
  induction h with
  | nil => simp [dropBackslashes, hasJsonEscape]
  | @cons form cs s c hform hcs ih =>
    -- a number is longer without its backslash than the character that it stands for
    have hnumber {digits : List Char} (hbody : Escaped '"' ('\\' :: 'u' :: digits))
        (hne : digits ≠ []) : dropBackslashes ('\\' :: 'u' :: digits ++ cs) = c :: s ↔
          hasJsonEscape ('\\' :: 'u' :: digits ++ cs) = false := by
      have hdigits := (Escaped.pair_iff.1 hbody).2
      have hpos := length_dropBackslashes_pos hdigits hne
      have hle := length_le_dropBackslashes hcs
      refine iff_of_false (fun heq => ?_) (by simp [hasJsonEscape])
      have hlength := congrArg List.length heq
      rw [List.cons_append, List.cons_append, dropBackslashes,
        dropBackslashes_append hdigits] at hlength
      simp only [List.length_cons, List.length_append] at hlength
      omega
    have hbody := escaped_of_spelling hform
    cases hform with
    | plain _ hslash =>
      rw [List.singleton_append, dropBackslashes_cons hslash, hasJsonEscape_cons hslash, ← ih,
        List.cons.injEq, eq_self, true_and]
    | @short x c h =>
      rw [List.cons_append, List.singleton_append, dropBackslashes, hasJsonEscape,
        List.cons.injEq, ih]
      unfold escaped? at h
      split at h
      all_goals cases h
      all_goals simp
    | unit => exact hnumber hbody (by simp)
    | pair => exact hnumber hbody (by simp)

/-! ### String tokens -/

/-- Whether a text is one string to the lexer, from its first quote to its last. -/
def IsStringToken (literal : String) : Prop :=
  ∃ x, tokens? literal.toList = some [x] ∧
    (x.token = .doubleQuoted literal ∨ x.token = .singleQuoted literal)

/-- A text between two quotes. -/
def inQuotes (quote : Char) (body : List Char) : String :=
  String.ofList (quote :: (body ++ [quote]))

theorem toList_inQuotes (quote : Char) (body : List Char) :
    (inQuotes quote body).toList = quote :: (body ++ [quote]) := String.toList_ofList

theorem escaped_of_stringSize {cs : List Char}
    (h : stringSize quote cs = (true, cs.length)) :
    ∃ body, cs = body ++ [quote] ∧ Escaped quote body := by
  fun_induction stringSize quote cs with
  | case1 => cases h
  | case2 => cases h
  | case3 => cases h
  | case4 c cs hline closed size hsize ih =>
    simp only [Prod.mk.injEq, List.length_cons] at h
    obtain ⟨body, rfl, hbody⟩ := ih (by rw [hsize, h.1]; simp; omega)
    exact ⟨'\\' :: c :: body, rfl, .pair hline hbody⟩
  | case5 cs hlast hpair =>
    simp only [Prod.mk.injEq, List.length_cons] at h
    have hnil : cs = [] := List.eq_nil_of_length_eq_zero (by omega)
    exact ⟨[], by rw [hnil]; rfl, .nil⟩
  | case6 => cases h
  | case7 c cs hlast hpair hc hline closed size hsize ih =>
    simp only [Prod.mk.injEq, List.length_cons] at h
    obtain ⟨body, rfl, hbody⟩ := ih (by rw [hsize, h.1]; simp; omega)
    exact ⟨c :: body, rfl, .plain hc (ne_of_behind hlast hpair) hline hbody⟩

theorem lexeme_string {c : Char} {cs : List Char} {token : Token} {size : Nat} {literal : String}
    (h : lexeme c cs = (some token, size))
    (htoken : token = .doubleQuoted literal ∨ token = .singleQuoted literal) :
    (c = '"' ∨ c = '\'') ∧ stringSize c cs = (true, size) ∧
      literal = String.ofList (c :: cs.take size) := by
  unfold lexeme at h
  split at h
  · simp only [Prod.mk.injEq, Option.some.injEq] at h
    rw [← h.1] at htoken
    unfold wordToken at htoken
    split at htoken <;> (try split at htoken) <;> simp at htoken
  split at h
  · next hquote =>
    simp only [Prod.mk.injEq, Option.ite_none_right_eq_some, Option.some.injEq] at h
    obtain ⟨⟨hclosed, rfl⟩, rfl⟩ := h
    refine ⟨hquote, Prod.ext hclosed rfl, ?_⟩
    split at htoken <;> simpa [eq_comm] using htoken
  split at h
  · cases h
    simp at htoken
  split at h
  · cases h
  split at h
  · cases h
    simp at htoken
  · cases hs : Symbol.ofChar? c with
    | none => simp [hs] at h
    | some s =>
      simp only [hs, Option.map_some, Prod.mk.injEq, Option.some.injEq] at h
      rw [← h.1] at htoken
      simp at htoken

theorem lexFrom_of_tokensFrom? {p : Place} {x : Lexed Token} {xs : List (Lexed Token)}
    (h : tokensFrom? p = some (x :: xs)) : lexFrom p = some ⟨some x.token, x.start, x.stop⟩ := by
  rw [tokensFrom?] at h
  split at h
  · cases h
  · next y hy =>
    split at h
    · cases h
    · next t ht =>
      obtain ⟨ts, -, heq⟩ := Option.map_eq_some_iff.1 h
      cases heq
      rw [hy, ← ht]

/-- What stands between the quotes of a string token has no other quote that closes it. -/
theorem escaped_of_isStringToken (h : IsStringToken (inQuotes quote a)) :
    (quote = '"' ∨ quote = '\'') ∧ Escaped quote a := by
  obtain ⟨x, htokens, htoken⟩ := h
  have hlex := lexFrom_of_tokensFrom? htokens
  simp only [lexFrom] at hlex
  split at hlex
  · cases hlex
  next c cs hrest =>
    generalize hlexeme : lexeme c cs = found at hlex
    obtain ⟨token, size⟩ := found
    simp only [Option.some.injEq, Lexed.mk.injEq] at hlex
    obtain ⟨rfl, -, -⟩ := hlex
    obtain ⟨hquote, hsize, hliteral⟩ := lexeme_string hlexeme htoken
    -- the token has all characters of the text, so that none stand in front of it or behind it
    have htext := congrArg String.toList hliteral
    rw [inQuotes, String.toList_ofList, String.toList_ofList] at htext
    have hwhole := congrArg List.length htext
    have hlength := congrArg List.length hrest
    have hle := stringSize_le c cs
    simp only [Place.start, Place.skip, inQuotes, String.toList_ofList, List.length_drop,
      List.length_cons, List.length_take] at hlength hwhole
    rw [hsize] at hle
    obtain rfl : size = cs.length := by
      simp only at hle
      omega
    rw [List.take_length] at htext
    obtain ⟨body, rfl, hescaped⟩ := escaped_of_stringSize hsize
    obtain ⟨rfl, hbody⟩ := List.cons.inj htext
    exact ⟨hquote, List.append_cancel_right hbody ▸ hescaped⟩

theorem isStringToken_of_escaped (hquote : quote = '"' ∨ quote = '\'') (h : Escaped quote a) :
    IsStringToken (inQuotes quote a) := by
  obtain ⟨ts, htokens, hts⟩ := (LexesAll.of_lexes (Lexes.escaped hquote h [])).tokens?_eq
  obtain ⟨x, rfl, hx⟩ := List.map_eq_singleton_iff.1 hts
  refine ⟨x, by rw [toList_inQuotes]; exact htokens, ?_⟩
  rw [hx]
  obtain rfl | rfl := hquote
  · exact .inl rfl
  · exact .inr rfl

/-! ### Values of strings -/

/-- Whether a text between double quotes is a string of JSON. -/
def IsJsonString (body : List Char) : Prop := (decode? (body ++ ['"'])).isSome = true

instance (body : List Char) : Decidable (IsJsonString body) := by
  unfold IsJsonString
  infer_instance

/-- The quote at the end is the one that decoding stops at. -/
theorem rest_eq_nil_of_decode? (h : Escaped '"' a) {rest : List Char}
    (hread : decode? (a ++ ['"']) = some (s, rest)) : rest = [] := by
  obtain ⟨body, heq, hbody⟩ := decode?_eq_some_iff.1 hread
  obtain ⟨front, rfl, hrest⟩ | ⟨behind, rfl, hrest⟩ := List.append_eq_append_iff.1 heq
  · have hlength := congrArg List.length hrest
    simp only [List.length_append, List.length_cons, List.length_nil] at hlength
    exact List.eq_nil_of_length_eq_zero (by omega)
  · cases behind with
    | nil => exact (List.cons.inj hrest).2
    | cons c behind =>
      have hquote : c = '"' := (List.cons.inj hrest).1.symm
      subst hquote
      -- an open quote would stand in the text
      have hbehind := (escaped_of_spells hbody).append_iff.1 h
      exact absurd rfl ((Escaped.plain_iff (by decide)).1 hbehind).1.1

theorem isJsonString_iff (h : Escaped '"' a) : IsJsonString a ↔ ∃ s, Spells a s := by
  rw [IsJsonString, Option.isSome_iff_exists]
  constructor
  · rintro ⟨⟨s, rest⟩, hread⟩
    obtain rfl := rest_eq_nil_of_decode? h hread
    exact ⟨s, (spells_iff []).2 hread⟩
  · rintro ⟨s, hs⟩
    exact ⟨(s, []), (spells_iff []).1 hs⟩

theorem withoutQuotes_append (h : quote.utf8Size = 1) (body : List Char) :
    withoutQuotes (quote :: (body ++ [quote])) = body := by
  simp [withoutQuotes, h]

theorem unquote_singleQuoted (body : List Char) :
    unquote (inQuotes '\'' body) = String.ofList (dropBackslashes body) := by
  have hplain : unquote (inQuotes '\'' body) =
      String.ofList (dropBackslashes (withoutQuotes ('\'' :: (body ++ ['\''])))) := by
    rw [unquote, toList_inQuotes]
    rfl
  rw [hplain, withoutQuotes_append (by decide)]

/-- A string in double quotes is decoded behind its first quote, where that goes well. -/
theorem unquote_doubleQuoted (body : List Char) : unquote (inQuotes '"' body) =
    String.ofList (((decode? (body ++ ['"'])).bind fun (s, rest) =>
      if (rest.all fun c => c == ' ' || c == '\n' || c == '\t' || c == '\r') then some s
        else none).getD (dropBackslashes body)) := by
  have hbody := withoutQuotes_append (show '"'.utf8Size = 1 by decide) body
  rw [unquote, toList_inQuotes]
  simp only [hbody]

theorem unquote_of_spells (h : Spells a s) : unquote (inQuotes '"' a) = String.ofList s := by
  rw [unquote_doubleQuoted, (spells_iff []).1 h]
  rfl

theorem unquote_of_not_isJsonString (h : ¬ IsJsonString a) :
    unquote (inQuotes '"' a) = String.ofList (dropBackslashes a) := by
  have hread : decode? (a ++ ['"']) = none := Option.not_isSome_iff_eq_none.1 h
  rw [unquote_doubleQuoted, hread]
  rfl

/-- The value of a string in double quotes is its JSON value wherever that makes no difference. -/
theorem unquote_eq_iff (h : Escaped '"' a) :
    unquote (inQuotes '"' a) = String.ofList (dropBackslashes a) ↔
      (IsJsonString a → hasJsonEscape a = false) := by
  by_cases hjson : IsJsonString a
  · obtain ⟨s, hs⟩ := (isJsonString_iff h).1 hjson
    rw [unquote_of_spells hs, String.ofList_inj, eq_comm, dropBackslashes_eq_iff hs]
    simp [hjson]
  · rw [unquote_of_not_isJsonString hjson]
    simp [hjson]

/-- Two strings of JSON make one, and their texts its text. -/
theorem unquote_append_of_isJsonString (ha : Escaped '"' a) (hb : Escaped '"' b)
    (hja : IsJsonString a) (hjb : IsJsonString b) :
    IsJsonString (a ++ b) ∧
      unquote (inQuotes '"' (a ++ b)) = unquote (inQuotes '"' a) ++ unquote (inQuotes '"' b) := by
  obtain ⟨s, hs⟩ := (isJsonString_iff ha).1 hja
  obtain ⟨t, ht⟩ := (isJsonString_iff hb).1 hjb
  have hst : Spells (a ++ b) (s ++ t) := hs.append_iff.2 ⟨t, rfl, ht⟩
  refine ⟨(isJsonString_iff (ha.append_iff.2 hb)).2 ⟨_, hst⟩, ?_⟩
  rw [unquote_of_spells hs, unquote_of_spells ht, unquote_of_spells hst, String.ofList_append]

/-- A string of JSON that is cut inside an escape has another value than its parts. -/
theorem unquote_append_ne_of_cut (ha : Escaped '"' a) (hb : Escaped '"' b)
    (hab : IsJsonString (a ++ b)) (hja : ¬ IsJsonString a) :
    unquote (inQuotes '"' (a ++ b)) ≠ unquote (inQuotes '"' a) ++ unquote (inQuotes '"' b) := by
  obtain ⟨u, hu⟩ := (isJsonString_iff (ha.append_iff.2 hb)).1 hab
  obtain ⟨hplain, hspelled⟩ :=
    length_lt_of_spells_append hu ha fun hs => hja ((isJsonString_iff ha).2 hs)
  intro heq
  have hlength := congrArg (fun s => s.toList.length) heq
  rw [unquote_of_spells hu, unquote_of_not_isJsonString hja] at hlength
  simp only [String.toList_append, String.toList_ofList, List.length_append] at hlength
  by_cases hjb : IsJsonString b
  · obtain ⟨t, ht⟩ := (isJsonString_iff hb).1 hjb
    have hlt := hspelled t ht
    rw [unquote_of_spells ht, String.toList_ofList] at hlength
    omega
  · rw [unquote_of_not_isJsonString hjb, String.toList_ofList] at hlength
    omega

/-- The value of a string that is put together from two is made of their values if and only if it is
in single quotes, both are strings of JSON, or it is no string of JSON and neither of them is one
with an escape that only JSON has. -/
theorem unquote_append_iff (ha : IsStringToken (inQuotes quote a))
    (hb : IsStringToken (inQuotes quote b)) :
    unquote (inQuotes quote (a ++ b)) = unquote (inQuotes quote a) ++ unquote (inQuotes quote b) ↔
      quote = '\'' ∨ (IsJsonString a ∧ IsJsonString b) ∨
        (¬ IsJsonString (a ++ b) ∧ (IsJsonString a → hasJsonEscape a = false) ∧
          (IsJsonString b → hasJsonEscape b = false)) := by
  obtain ⟨rfl | rfl, ha⟩ := escaped_of_isStringToken ha
  · have hb := (escaped_of_isStringToken hb).2
    rw [or_iff_right (by decide)]
    by_cases hboth : IsJsonString a ∧ IsJsonString b
    · exact iff_of_true (unquote_append_of_isJsonString ha hb hboth.1 hboth.2).2 (.inl hboth)
    rw [or_iff_right hboth]
    by_cases hab : IsJsonString (a ++ b)
    · have hja : ¬ IsJsonString a := by
        intro hja
        obtain ⟨s, hs⟩ := (isJsonString_iff ha).1 hja
        obtain ⟨u, hu⟩ := (isJsonString_iff (ha.append_iff.2 hb)).1 hab
        obtain ⟨t, -, ht⟩ := hs.append_iff.1 hu
        exact hboth ⟨hja, (isJsonString_iff hb).2 ⟨t, ht⟩⟩
      exact iff_of_false (unquote_append_ne_of_cut ha hb hab hja) fun h => h.1 hab
    rw [and_iff_right hab, unquote_of_not_isJsonString hab, dropBackslashes_append ha,
      String.ofList_append, ← unquote_eq_iff ha, ← unquote_eq_iff hb]
    -- one of the two has the value that is left without its backslashes
    obtain hja | hjb := not_and_or.1 hboth
    · rw [unquote_of_not_isJsonString hja, String.append_right_inj, eq_comm, and_iff_right rfl]
    · rw [unquote_of_not_isJsonString hjb, String.append_left_inj, eq_comm, and_iff_left rfl]
  · rw [unquote_singleQuoted, unquote_singleQuoted, unquote_singleQuoted, dropBackslashes_append ha,
      String.ofList_append]
    exact iff_of_true rfl (.inl rfl)

/-- A string of JSON that is the number of a letter. -/
theorem isStringToken_number : IsStringToken (inQuotes '"' ['\\', 'u', '0', '0', '4', '1']) :=
  isStringToken_of_escaped (.inl rfl)
    (escaped_of_spells (.cons (.unit (n := 0x41) rfl (.inl (by decide))) .nil))

/-- A number and a tab are strings of JSON, and so is what they make together. -/
theorem unquote_append_number_tab :
    let number := ['\\', 'u', '0', '0', '4', '1']
    let tab := ['\\', 't']
    unquote (inQuotes '"' (number ++ tab)) =
      unquote (inQuotes '"' number) ++ unquote (inQuotes '"' tab) := by
  intro number tab
  have htab : IsStringToken (inQuotes '"' tab) :=
    isStringToken_of_escaped (.inl rfl) (.pair (by decide) .nil)
  exact (unquote_append_iff isStringToken_number htab).2
    (.inr (.inl ⟨by decide +kernel, by decide +kernel⟩))

/-- JSON has no apostrophe behind a backslash. A string that ends in one is no string of JSON, and
the number in front of it is taken apart, although no pair of numbers is cut. -/
theorem unquote_number_apostrophe :
    let number := ['\\', 'u', '0', '0', '4', '1']
    let apostrophe := ['\\', '\'']
    (IsStringToken (inQuotes '"' number) ∧ IsStringToken (inQuotes '"' apostrophe) ∧
      apostrophe.take 2 ≠ ['\\', 'u']) ∧
      unquote (inQuotes '"' number) ++ unquote (inQuotes '"' apostrophe) = "A'" ∧
        unquote (inQuotes '"' (number ++ apostrophe)) = "u0041'" := by
  intro number apostrophe
  have hescaped : Escaped '"' apostrophe := .pair (by decide) .nil
  exact ⟨⟨isStringToken_number, isStringToken_of_escaped (.inl rfl) hescaped, by decide⟩,
    by decide +kernel, by decide +kernel⟩

end DesignSync.Markup

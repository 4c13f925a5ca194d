import DesignSync.Text.Quoted

/-!
Quoted text reads back: decoding the written form of a text gives the text and what stands behind
its closing quote.
-/

namespace DesignSync.Text.Quoted

/-- A character that no reader of quoted text stops at. -/
def isPlain (c : Char) : Bool := c != '"' && c != '\\' && c != '\n'

/-- Whether the written form of a character is an escape that says it. -/
private def isEscapeOf (c : Char) : List Char → Bool
  | ['\\', x] => escaped? x == some c && x != 'u' && x != '\n'
  | ['\\', 'u', '0', '0', x, y] => hexUnit? '0' '0' x y == some c.toNat && isPlain x && isPlain y
  | _ => false

private theorem isEscapeOf_control :
    ∀ n : Fin 32, isEscapeOf (Char.ofNat n) (encodeChar (Char.ofNat n)) = true := by
  decide +kernel

private theorem isEscapeOf_encodeChar {c : Char} (h : c.toNat < 0x20) :
    isEscapeOf c (encodeChar c) = true := by
  have hc := isEscapeOf_control ⟨c.toNat, h⟩
  rwa [Char.ofNat_toNat] at hc

/-- A character is written as itself, behind a backslash, or by its number. -/
inductive Form (c : Char) : List Char → Prop
  | plain (h : isPlain c = true) (hlow : 0x20 ≤ c.toNat) : Form c [c]
  | pair (x : Char) (h : escaped? x = some c) (hu : x ≠ 'u') (hline : x ≠ '\n') : Form c ['\\', x]
  | unit (x y : Char) (h : hexUnit? '0' '0' x y = some c.toNat) (hlow : c.toNat < 0x20)
      (hx : isPlain x = true) (hy : isPlain y = true) : Form c ['\\', 'u', '0', '0', x, y]

theorem form_encodeChar (c : Char) : Form c (encodeChar c) := by
  by_cases hlow : c.toNat < 0x20
  · have h := isEscapeOf_encodeChar hlow
    unfold isEscapeOf at h
    split at h
    · next x heq =>
      simp only [Bool.and_eq_true, beq_iff_eq, bne_iff_ne] at h
      rw [heq]
      exact .pair x h.1.1 h.1.2 h.2
    · next x y heq =>
      simp only [Bool.and_eq_true, beq_iff_eq] at h
      rw [heq]
      exact .unit x y h.1.1 hlow h.1.2 h.2
    · cases h
  · by_cases hquote : c = '"'
    · rw [hquote]
      exact .pair '"' rfl (by decide) (by decide)
    · by_cases hslash : c = '\\'
      · rw [hslash]
        exact .pair '\\' rfl (by decide) (by decide)
      · have hne (x : Char) (hx : x.toNat < 0x20) : c ≠ x := by
          rintro rfl
          exact hlow hx
        have hself : encodeChar c = [c] := by
          simp [encodeChar, hquote, hslash, hne, hlow]
        rw [hself]
        refine .plain ?_ (by omega)
        simp [isPlain, hquote, hslash, hne]

/-- Decoding the written form of a text gives the text and what stands behind the quote. -/
theorem decode?_encode (cs rest : List Char) :
    decode? (cs.flatMap encodeChar ++ '"' :: rest) = some (cs, rest) := by
  induction cs with
  | nil => simp [decode?]
  | cons c cs ih =>
    rw [List.flatMap_cons, List.append_assoc]
    generalize hform : encodeChar c = form
    have h := hform ▸ form_encodeChar c
    cases h with
    | plain h hlow =>
      simp only [isPlain, Bool.and_eq_true, bne_iff_ne] at h
      rw [List.singleton_append, decode?]
      · have hkeep : ¬ (c.toNat < 0x20 ∨ c = '\\') := fun h' => h'.elim (by omega) h.1.2
        rw [if_neg hkeep, ih]
        rfl
      all_goals simp_all
    | pair x h hu hline =>
      rw [List.cons_append, List.singleton_append, decode?]
      · rw [h, ih]
        rfl
      · simp_all
    | unit x y h hlow hx hy =>
      simp only [List.cons_append, List.nil_append]
      rw [decode?, h]
      have h₁ : ¬ (0xD800 ≤ c.toNat ∧ c.toNat < 0xDC00) := by omega
      have h₂ : ¬ (0xDC00 ≤ c.toNat ∧ c.toNat < 0xE000) := by omega
      simp only [Option.bind_eq_bind, Option.bind_some, if_neg h₁, if_neg h₂, ih, Char.ofNat_toNat]
      rfl

/-- What can stand between two quotes: a quote stands behind a backslash, a backslash has something
behind it, and there is no line feed. -/
inductive Escaped (quote : Char) : List Char → Prop
  | nil : Escaped quote []
  | plain {c : Char} {cs : List Char} (hquote : c ≠ quote) (hslash : c ≠ '\\') (hline : c ≠ '\n')
    (hcs : Escaped quote cs) : Escaped quote (c :: cs)
  | pair {c : Char} {cs : List Char} (hline : c ≠ '\n') (hcs : Escaped quote cs) :
    Escaped quote ('\\' :: c :: cs)

namespace Escaped

variable {quote c : Char} {cs front behind : List Char}

theorem of_isPlain (h : isPlain c = true) (hcs : Escaped '"' cs) : Escaped '"' (c :: cs) := by
  simp only [isPlain, Bool.and_eq_true, bne_iff_ne] at h
  exact .plain h.1.1 h.1.2 h.2 hcs

theorem plain_iff (hslash : c ≠ '\\') :
    Escaped quote (c :: cs) ↔ (c ≠ quote ∧ c ≠ '\n') ∧ Escaped quote cs := by
  constructor
  · intro h
    cases h with
    | plain hquote _ hline hcs => exact ⟨⟨hquote, hline⟩, hcs⟩
    | pair => exact absurd rfl hslash
  · rintro ⟨⟨hquote, hline⟩, hcs⟩
    exact .plain hquote hslash hline hcs

theorem pair_iff : Escaped quote ('\\' :: c :: cs) ↔ c ≠ '\n' ∧ Escaped quote cs := by
  constructor
  · intro h
    cases h with
    | plain _ hslash => exact absurd rfl hslash
    | pair hline hcs => exact ⟨hline, hcs⟩
  · rintro ⟨hline, hcs⟩
    exact .pair hline hcs

theorem append_iff (h : Escaped quote front) :
    Escaped quote (front ++ behind) ↔ Escaped quote behind := by
  induction h with
  | nil => rfl
  | plain hquote hslash hline _ ih =>
    rw [List.cons_append, plain_iff hslash, ih, and_iff_right ⟨hquote, hline⟩]
  | pair hline _ ih => rw [List.cons_append, List.cons_append, pair_iff, ih, and_iff_right hline]

end Escaped

theorem escaped_encode (cs : List Char) : Escaped '"' (cs.flatMap encodeChar) := by
  induction cs with
  | nil => exact .nil
  | cons c cs ih =>
    rw [List.flatMap_cons]
    generalize hform : encodeChar c = form
    have h := hform ▸ form_encodeChar c
    cases h with
    | plain h _ => exact .of_isPlain h ih
    | pair x _ _ hline => exact .pair hline ih
    | unit x y _ _ hx hy =>
      exact .pair (by decide)
        (.of_isPlain rfl (.of_isPlain rfl (.of_isPlain hx (.of_isPlain hy ih))))

theorem toList_quoted (s : String) :
    (quoted s).toList = '"' :: (s.toList.flatMap encodeChar ++ ['"']) := by
  rw [quoted, String.toList_ofList]
  rfl

end DesignSync.Text.Quoted

import DesignSync.Proofs.Markup.Header
import DesignSync.Proofs.Text.Cut

/-!
Attribute strings: what is escaped is read back as it was. Decoding is shown to be the same when it
goes by offsets in bytes, and then every cut that it makes is between two characters.
-/

namespace DesignSync.Markup

open Text

variable {front cs name rest : List Char} {c : Char}

/-! ### Entities in a text -/

theorem entityName?_of_not_mem (h : ';' ∉ cs) (bytes : Nat) : entityName? bytes cs = none := by
  induction cs generalizing bytes with
  | nil => rfl
  | cons c cs ih =>
    rw [List.mem_cons, not_or] at h
    rw [entityName?, if_neg (Ne.symm h.1), ih h.2]
    simp

/-- The name of an entity goes up to the first semicolon, which has to be near enough. -/
theorem entityName?_append (h : ';' ∉ name) (bytes : Nat) (rest : List Char) :
    entityName? bytes (name ++ ';' :: rest) =
      if width name < bytes then some (name, rest) else none := by
  induction name generalizing bytes with
  | nil =>
    rw [List.nil_append, entityName?, if_pos rfl, width_nil]
    split
    · next hbytes => rw [if_neg (by omega)]
    · next hbytes => rw [if_pos (by omega)]
  | cons c name ih =>
    rw [List.mem_cons, not_or] at h
    have hpos := c.utf8Size_pos
    rw [List.cons_append, entityName?, if_neg (Ne.symm h.1), ih h.2, width_cons]
    by_cases hnear : c.utf8Size + width name < bytes
    · have hleft : width name < bytes - c.utf8Size := by omega
      rw [if_neg (by omega), if_pos hleft, if_pos hnear]
      rfl
    · have hleft : ¬ width name < bytes - c.utf8Size := by omega
      rw [if_neg hleft, if_neg hnear, Option.map_none, ite_self]

theorem decodeEntities_append (h : '&' ∉ front) (rest : List Char) :
    decodeEntities (front ++ rest) = front ++ decodeEntities rest := by
  induction front with
  | nil => rfl
  | cons c front ih =>
    rw [List.mem_cons, not_or] at h
    rw [List.cons_append, decodeEntities, ih h.2]
    · rfl
    · exact Ne.symm h.1

theorem decodeEntities_of_not_mem (h : '&' ∉ cs) : decodeEntities cs = cs := by
  have happend := decodeEntities_append h []
  rwa [List.append_nil, decodeEntities, List.append_nil] at happend

/-- What an `&` comes to, with what stands behind it. -/
theorem decodeEntities_ampersand (cs : List Char) : decodeEntities ('&' :: cs) =
    ((entityName? 10 cs).bind fun x => (entity? x.1).map fun c => c :: decodeEntities x.2).getD
      ('&' :: decodeEntities cs) := by
  rw [decodeEntities]
  split
  · next name rest hname =>
    rw [hname, Option.bind_some]
    cases entity? name <;> rfl
  · next hname =>
    rw [hname]
    rfl

/-! ### Decoding by offsets -/

/-- The character with a number, if there is one. -/
def charOf? (n : Nat) : Option Char := if n.isValidChar then some (Char.ofNat n) else none

/-- The character that an entity names, with the digits of a hexadecimal number cut off by their
offset. -/
def entityByOffset? (name : List Char) : Option (Option Char) :=
  match name with
  | '#' :: code =>
    if code.head? = some 'x' ∨ code.head? = some 'X' then
      (behind? 1 code).map fun digits => codePoint? 16 digits >>= charOf?
    else some (entity? name)
  | _ => some (entity? name)

theorem entityByOffset?_eq (name : List Char) : entityByOffset? name = some (entity? name) := by
  unfold entityByOffset?
  split
  · next code =>
    have hne (w : String) (hw : w.toList.head? ≠ some '#') : String.ofList ('#' :: code) ≠ w := by
      rintro rfl
      rw [String.toList_ofList] at hw
      exact hw rfl
    split
    · next hhex =>
      obtain ⟨x, digits, rfl, hx⟩ : ∃ x digits, code = x :: digits ∧ (x = 'x' ∨ x = 'X') := by
        cases code with
        | nil => simp at hhex
        | cons x digits => exact ⟨x, digits, rfl, by simpa using hhex⟩
      have hbehind : behind? 1 (x :: digits) = some digits := by
        rcases hx with rfl | rfl <;> exact behind?_width [_] digits
      rw [hbehind, Option.map_some]
      unfold entity?
      split
      case h_7 => rcases hx with rfl | rfl <;> rfl
      all_goals next heq => exact absurd heq (hne _ (by decide))
    · rfl
  · rfl

/-- What an `&` at the front of a text comes to, and what is left behind it: the character of an
entity whose semicolon is found within the first ten bytes, or the `&` itself. -/
def ampersandByOffset? (cs : List Char) : Option (Char × List Char) :=
  let kept := (behind? 1 cs).map fun rest => ('&', rest)
  match (offsetOf? ';' cs).filter (· ≤ 10) with
  | none => kept
  | some stop =>
    (between? 1 stop cs).bind fun name =>
      match entityByOffset? name with
      | none => none
      | some none => kept
      | some (some c) => (behind? (stop + 1) cs).map fun rest => (c, rest)

theorem length_ampersandByOffset? (h : ampersandByOffset? cs = some (c, rest)) :
    rest.length < cs.length := by
  have hbehind {offset : Nat} {d : Char} (hoffset : 0 < offset)
      (h : (behind? offset cs).map (fun rest => (d, rest)) = some (c, rest)) :
      rest.length < cs.length := by
    obtain ⟨r, hr, heq⟩ := Option.map_eq_some_iff.1 h
    cases heq
    exact length_behind? hr hoffset
  unfold ampersandByOffset? at h
  dsimp only at h
  split at h
  · exact hbehind Nat.one_pos h
  · obtain ⟨name, -, hname⟩ := Option.bind_eq_some_iff.1 h
    split at hname
    · cases hname
    · exact hbehind Nat.one_pos hname
    · exact hbehind (Nat.succ_pos _) hname

/-- At an `&` no cut fails, and what comes of it is what decoding has there. -/
theorem ampersandByOffset?_eq (cs : List Char) : ∃ c rest,
    ampersandByOffset? ('&' :: cs) = some (c, rest) ∧
      decodeEntities ('&' :: cs) = c :: decodeEntities rest := by
  have hkept : behind? 1 ('&' :: cs) = some cs := behind?_width ['&'] cs
  rw [decodeEntities_ampersand]
  unfold ampersandByOffset?
  by_cases hsemicolon : ';' ∈ cs
  · obtain ⟨name, rest, rfl, hname⟩ := List.eq_append_cons_of_mem hsemicolon
    have hoffset : offsetOf? ';' ('&' :: (name ++ ';' :: rest)) = some (1 + width name) :=
      offsetOf?_append (a := '&' :: name) (by simpa using hname) rest
    -- The bytes that the name may have are counted behind the `&`, the offset with it.
    have hwindow : (offsetOf? ';' ('&' :: (name ++ ';' :: rest))).filter (· ≤ 10) =
        if width name < 10 then some (1 + width name) else none := by
      rw [hoffset, Option.filter_some]
      simp only [decide_eq_true_eq, show 1 + width name ≤ 10 ↔ width name < 10 by omega]
    have hbetween : between? 1 (1 + width name) ('&' :: (name ++ ';' :: rest)) = some name :=
      between?_width ['&'] name (';' :: rest)
    have hbehind : behind? (1 + width name + 1) ('&' :: (name ++ ';' :: rest)) = some rest :=
      behind?_eq_some_iff.2 ⟨'&' :: (name ++ [';']), by simp, by rw [width_cons, width_append]; rfl⟩
    rw [entityName?_append hname, hwindow]
    by_cases hnear : width name < 10
    · rw [if_pos hnear, if_pos hnear]
      simp only [hbetween, entityByOffset?_eq, hkept, hbehind, Option.bind_some]
      cases entity? name with
      | none => exact ⟨'&', _, rfl, rfl⟩
      | some c => exact ⟨c, rest, rfl, rfl⟩
    · rw [if_neg hnear, if_neg hnear, hkept]
      exact ⟨'&', _, rfl, rfl⟩
  · have hoffset : offsetOf? ';' ('&' :: cs) = none :=
      offsetOf?_eq_none_iff.2 (by simpa using hsemicolon)
    rw [entityName?_of_not_mem hsemicolon, hoffset, hkept]
    exact ⟨'&', cs, rfl, rfl⟩

/-- Replaces entities by their characters. What is looked for is found by its offset, and the text is
cut there; nothing comes of it when a cut fails. -/
def decodeByOffset? (cs : List Char) : Option (List Char) :=
  match offsetOf? '&' cs with
  | none => some cs
  | some start =>
    match _hcut : cutAt? start cs with
    | none => none
    | some (front, behind) =>
      match _hturn : ampersandByOffset? behind with
      | none => none
      | some (c, rest) => (decodeByOffset? rest).map fun decoded => front ++ c :: decoded
termination_by cs.length
decreasing_by
  have hlength := length_ampersandByOffset? _hturn
  obtain ⟨rfl, -⟩ := cutAt?_eq_some_iff.1 _hcut
  rw [List.length_append]
  omega

/-- No cut of decoding fails. -/
theorem decodeByOffset?_eq (cs : List Char) : decodeByOffset? cs = some (decodeEntities cs) := by
  fun_induction decodeByOffset? cs with
  | case1 cs hstart => rw [decodeEntities_of_not_mem (offsetOf?_eq_none_iff.1 hstart)]
  | case2 cs start hstart hcut =>
    obtain ⟨before, after, -, -, hparts⟩ := cutAt?_of_offsetOf? hstart
    cases hcut.symm.trans hparts
  | case3 cs start hstart front behind hcut hturn =>
    obtain ⟨before, after, -, -, hparts⟩ := cutAt?_of_offsetOf? hstart
    cases hcut.symm.trans hparts
    obtain ⟨c, rest, hsome, -⟩ := ampersandByOffset?_eq after
    cases hturn.symm.trans hsome
  | case4 cs start hstart front behind hcut c rest hturn ih =>
    obtain ⟨before, after, rfl, hbefore, hparts⟩ := cutAt?_of_offsetOf? hstart
    cases hcut.symm.trans hparts
    obtain ⟨d, tail, hsome, hdecode⟩ := ampersandByOffset?_eq after
    cases hturn.symm.trans hsome
    rw [ih, decodeEntities_append hbefore, hdecode]
    rfl

/-! ### Reading what was escaped -/

/-- Between double quotes an escaped text is read as the text, from any place on and whatever stands
behind it, and the reader stops behind the second quote. Neither that quote nor the end of a line is
in the text, and its entities give it back. Entities are decoded in every text without a cut that
fails. -/
theorem escape_undone (offset : Nat) (v z : String) (raw : List Char) :
    readAttributeValue ⟨offset, '"' :: (escape v.toList ++ '"' :: z.toList)⟩ =
        .ok (.text v, ⟨offset + (width (escape v.toList) + 2), z.toList⟩) ∧
      decodeEntities (escape v.toList) = v.toList ∧
      ('"' ∉ escape v.toList ∧ '\n' ∉ escape v.toList ∧ '\r' ∉ escape v.toList) ∧
      decodeByOffset? raw = some (decodeEntities raw) := by
  refine ⟨?_, decodeEntities_escape v.toList, ⟨not_mem_escape rfl _, not_mem_escape rfl _,
    not_mem_escape rfl _⟩, decodeByOffset?_eq raw⟩
  rw [readAttributeValue_escape rfl, String.ofList_toList]

end DesignSync.Markup

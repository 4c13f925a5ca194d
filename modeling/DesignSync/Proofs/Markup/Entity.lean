import DesignSync.Markup.Entity

/-!
Attribute strings read back: no character of an escaped text ends the string, and replacing its
entities gives the text.
-/

namespace DesignSync.Markup

private theorem entityName?_escaped (rest : List Char) :
    entityName? 10 ('a' :: 'm' :: 'p' :: ';' :: rest) = some (['a', 'm', 'p'], rest) ∧
    entityName? 10 ('q' :: 'u' :: 'o' :: 't' :: ';' :: rest) = some (['q', 'u', 'o', 't'], rest) ∧
    entityName? 10 ('#' :: '1' :: '0' :: ';' :: rest) = some (['#', '1', '0'], rest) ∧
    entityName? 10 ('#' :: '1' :: '3' :: ';' :: rest) = some (['#', '1', '3'], rest) := by
  refine ⟨?_, ?_, ?_, ?_⟩ <;> simp [entityName?, Char.utf8Size]

private theorem decodeEntities_entity {name rest : List Char} {c : Char} {cs : List Char}
    (hname : entityName? 10 cs = some (name, rest)) (hc : entity? name = some c) :
    decodeEntities ('&' :: cs) = c :: decodeEntities rest := by
  rw [decodeEntities]
  split
  · next hsome =>
    rw [hname] at hsome
    cases hsome
    rw [hc]
  · next hnone =>
    rw [hname] at hnone
    cases hnone

/-- The written form of a character stands for it. -/
theorem decodeEntities_escapeChar (c : Char) (rest : List Char) :
    decodeEntities (escapeChar c ++ rest) = c :: decodeEntities rest := by
  obtain ⟨hamp, hquot, hline, hreturn⟩ := entityName?_escaped rest
  unfold escapeChar
  split
  · next h => exact decodeEntities_entity hamp (h ▸ by decide)
  · next hne =>
    split
    · next h => exact decodeEntities_entity hquot (h ▸ by decide)
    · split
      · next h => exact decodeEntities_entity hline (h ▸ by decide)
      · split
        · next h => exact decodeEntities_entity hreturn (h ▸ by decide)
        · rw [List.singleton_append, decodeEntities]
          exact hne

theorem decodeEntities_escape (cs : List Char) : decodeEntities (escape cs) = cs := by
  induction cs with
  | nil => rw [escape, List.flatMap_nil, decodeEntities]
  | cons c cs ih =>
    have hstep : escape (c :: cs) = escapeChar c ++ escape cs := List.flatMap_cons ..
    rw [hstep, decodeEntities_escapeChar, ih]

/-- A character that ends neither a double-quoted string nor a line. -/
def staysInLine (c : Char) : Bool := c != '"' && c != '\n' && c != '\r'

theorem staysInLine_escapeChar (c : Char) : (escapeChar c).all staysInLine = true := by
  unfold escapeChar
  split
  · rfl
  · split
    · rfl
    · next hquote =>
      split
      · rfl
      · next hline =>
        split
        · rfl
        · next hreturn => simp [staysInLine, hquote, hline, hreturn]

theorem staysInLine_of_mem_escape {cs : List Char} {c : Char} (h : c ∈ escape cs) :
    staysInLine c = true := by
  obtain ⟨d, -, hc⟩ := List.mem_flatMap.1 h
  exact List.all_eq_true.1 (staysInLine_escapeChar d) c hc

theorem not_mem_escape {c : Char} (hc : staysInLine c = false) (cs : List Char) :
    c ∉ escape cs := fun h => by
  rw [staysInLine_of_mem_escape h] at hc
  cases hc

end DesignSync.Markup

import DesignSync.Proofs.Text.Split

/-!
Words. A blank ends one, so that the words of two texts with a blank between them are those of the
one and then those of the other. A collapsed text has the words of the text, and tells them.
-/

namespace DesignSync.Text

theorem words_append {d : Char} (hd : isBlank d = true) (cs rest : List Char) :
    words (cs ++ d :: rest) = words cs ++ words rest := by
  rw [words, splitWhere_append hd, List.filter_append]
  rfl

theorem words_cons {d : Char} (hd : isBlank d = true) (cs : List Char) :
    words (d :: cs) = words cs := words_append hd [] cs

/-- A list of characters with no blank in it is a word. -/
theorem words_of_solid {w : List Char} (hne : w ≠ []) (h : ∀ c ∈ w, isBlank c = false) :
    words w = [w] := by
  rw [words, splitWhere_of_none h]
  simp [hne]

/-- Words put together with spaces are found again. -/
theorem words_intercalate {ws : List (List Char)}
    (h : ∀ w ∈ ws, w ≠ [] ∧ ∀ c ∈ w, isBlank c = false) :
    words (List.intercalate [' '] ws) = ws := by
  induction ws with
  | nil => rfl
  | cons w ws ih =>
    obtain ⟨⟨hne, hsolid⟩, hrest⟩ := List.forall_mem_cons.1 h
    cases ws with
    | nil => rw [List.intercalate_singleton, words_of_solid hne hsolid]
    | cons next ws =>
      rw [List.intercalate_cons_cons, List.append_assoc, List.singleton_append,
        words_append (by decide), words_of_solid hne hsolid, ih hrest]
      rfl

/-- A collapsed text tells the words of a text, and nothing else of it. -/
theorem collapsed_eq_iff {s t : String} :
    collapsed s = collapsed t ↔ words s.toList = words t.toList := by
  have hsolid (cs : List Char) : ∀ w ∈ words cs, w ≠ [] ∧ ∀ c ∈ w, isBlank c = false := by
    intro w hw
    obtain ⟨hpiece, hne⟩ := List.mem_filter.1 hw
    exact ⟨by simpa using hne, eq_false_of_mem_splitWhere hpiece⟩
  constructor
  · intro h
    have hlist := String.ofList_injective h
    rw [← words_intercalate (hsolid s.toList), hlist, words_intercalate (hsolid t.toList)]
  · intro h
    rw [collapsed, h, collapsed]

end DesignSync.Text

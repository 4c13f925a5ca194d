import DesignSync.Text.Blank

/-!
Splitting a text at the characters of a kind.
-/

namespace DesignSync.Text

variable {p : Char → Bool}

theorem splitWhere_of_none {cs : List Char} (h : ∀ c ∈ cs, p c = false) :
    splitWhere p cs = [cs] := by
  induction cs with
  | nil => rfl
  | cons c cs ih =>
    rw [splitWhere, ih fun d hd => h d (List.mem_cons_of_mem _ hd)]
    simp [h c List.mem_cons_self]

theorem splitWhere_ne_nil (p : Char → Bool) (cs : List Char) : splitWhere p cs ≠ [] := by
  cases cs with
  | nil => simp [splitWhere]
  | cons c cs =>
    rw [splitWhere]
    split
    · simp
    · split <;> simp

theorem splitWhere_append {d : Char} (hd : p d = true) (cs rest : List Char) :
    splitWhere p (cs ++ d :: rest) = splitWhere p cs ++ splitWhere p rest := by
  induction cs with
  | nil =>
    obtain ⟨piece, pieces, hpieces⟩ := List.exists_cons_of_ne_nil (splitWhere_ne_nil p rest)
    simp [splitWhere, hpieces, hd]
  | cons c cs ih =>
    obtain ⟨piece, pieces, hpieces⟩ := List.exists_cons_of_ne_nil (splitWhere_ne_nil p cs)
    rw [List.cons_append, splitWhere, ih, splitWhere, hpieces, List.cons_append]
    simp only
    split <;> rfl

/-- No piece has a character at which the text was split. -/
theorem eq_false_of_mem_splitWhere {cs piece : List Char} (h : piece ∈ splitWhere p cs) :
    ∀ c ∈ piece, p c = false := by
  induction cs generalizing piece with
  | nil =>
    obtain rfl := List.mem_singleton.1 h
    simp
  | cons c cs ih =>
    obtain ⟨first, pieces, hpieces⟩ := List.exists_cons_of_ne_nil (splitWhere_ne_nil p cs)
    rw [splitWhere, hpieces] at h
    rw [hpieces] at ih
    simp only at h
    split at h
    · rcases List.mem_cons.1 h with rfl | h
      · simp
      · exact ih h
    · next hc =>
      rcases List.mem_cons.1 h with rfl | h
      · intro d hd
        rcases List.mem_cons.1 hd with rfl | hd
        · exact Bool.eq_false_iff.2 hc
        · exact ih List.mem_cons_self d hd
      · exact ih (List.mem_cons_of_mem _ h)

/-- The pieces with the character between neighbours are the text. -/
theorem intercalate_splitWhere (d : Char) (cs : List Char) :
    List.intercalate [d] (splitWhere (· == d) cs) = cs := by
  induction cs with
  | nil => rfl
  | cons c cs ih =>
    obtain ⟨piece, pieces, hpieces⟩ := List.exists_cons_of_ne_nil (splitWhere_ne_nil (· == d) cs)
    rw [hpieces] at ih
    rw [splitWhere, hpieces]
    simp only [beq_iff_eq]
    split
    · next hc => rw [List.intercalate_cons_cons, ih, hc]; rfl
    · cases pieces with
      | nil => simpa using ih
      | cons => simpa using ih

end DesignSync.Text

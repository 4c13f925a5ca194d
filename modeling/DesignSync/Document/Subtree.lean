import DesignSync.Document.Element

/-!
Walking element graphs. Children may be shared, missing or lead back to an ancestor, so a walk
keeps the ids it has been at; each new one makes the number of elements not yet seen smaller.
-/

namespace DesignSync

namespace Element

/-- How many elements of a list have an id that has not been seen. -/
def unseen (es : List Element) (seen : List String) : Nat :=
  (es.filter fun e => !seen.contains e.id).length

private theorem length_filter_le {es : List Element} {p q : Element → Bool}
    (h : ∀ e ∈ es, p e = true → q e = true) : (es.filter p).length ≤ (es.filter q).length := by
  induction es with
  | nil => simp
  | cons e es ih =>
    have ih' := ih fun e he => h e (List.mem_cons_of_mem _ he)
    have he := h e List.mem_cons_self
    by_cases hp : p e
    · simp [hp, he hp, ih']
    · by_cases hq : q e <;> simp [hp, hq] <;> omega

/-- Seeing one more of the elements leaves fewer of them unseen. -/
theorem unseen_cons_lt {es : List Element} {seen : List String} {id : String} {e : Element}
    (hfind : find? es id = some e) (hnew : seen.contains id = false) :
    unseen es (id :: seen) < unseen es seen := by
  unfold find? at hfind
  induction es with
  | nil => simp at hfind
  | cons a es ih =>
    by_cases ha : a.id = id
    · have hle : (es.filter fun e => !(id :: seen).contains e.id).length ≤
          (es.filter fun e => !seen.contains e.id).length := by
        apply length_filter_le
        intro e _ he
        simp only [List.contains_cons, Bool.not_or, Bool.and_eq_true] at he
        exact he.2
      simp only [unseen, List.filter_cons]
      have h₁ : (!(id :: seen).contains a.id) = false := by simp [ha]
      have h₂ : (!seen.contains a.id) = true := by rw [ha, hnew]; rfl
      rw [h₁, h₂]
      simpa using Nat.lt_succ_of_le hle
    · have ih' := ih (by simpa [List.find?_cons, ha] using hfind)
      simp only [unseen, List.filter_cons] at ih' ⊢
      have h₁ : (!(id :: seen).contains a.id) = !seen.contains a.id := by
        simp [ha]
      rw [h₁]
      split <;> simp_all

/-- The ids met by walking from a stack of ids, each once: an element before its children, and
    these in order. -/
def walk (es : List Element) (seen : List String) (stack : List String) : List String :=
  match stack with
  | [] => []
  | id :: stack =>
    match _hfind : find? es id with
    | none => walk es seen stack
    | some e =>
      if _hseen : seen.contains id then walk es seen stack
      else id :: walk es (id :: seen) (e.children ++ stack)
termination_by (unseen es seen, stack.length)
decreasing_by
  · exact Prod.Lex.right _ (Nat.lt_succ_self _)
  · exact Prod.Lex.right _ (Nat.lt_succ_self _)
  · exact Prod.Lex.left _ _ (unseen_cons_lt _hfind (by simpa using _hseen))

/-- The root and all it leads to through children, each element before its children. -/
def subtree (es : List Element) (root : String) : List String := walk es [] [root]

end Element

end DesignSync

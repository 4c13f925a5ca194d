import DesignSync.Proofs.Document.Grove
import Mathlib.Logic.Relation

/-!
What a walk meets: the elements that are there and can be come to from the root through elements
that are there, on every graph. Children may be missing, shared, repeated or lead back.
-/

namespace DesignSync

namespace Element

/-- Whether an element that is there has another one that is there as a child. -/
def LeadsTo (find : String → Option Element) (id child : String) : Prop :=
  ∃ e, find id = some e ∧ child ∈ e.children ∧ (find child).isSome = true

/-- Whether a root is there, and an element can be come to from it through elements that are there. -/
def Reaches (find : String → Option Element) (root id : String) : Prop :=
  (find root).isSome = true ∧ Relation.ReflTransGen (LeadsTo find) root id

variable {es : List Element}

/-- A walk only meets what can be come to from its stack. -/
theorem reaches_of_mem_walk (seen stack : List String) :
    ∀ id ∈ walk es seen stack, ∃ root ∈ stack, Reaches (find? es) root id := by
  induction seen, stack using walk.induct es with
  | case1 seen => simp [walk]
  | case2 seen root stack hnone ih =>
    rw [walk_missing hnone]
    intro id hid
    obtain ⟨other, hother, hreaches⟩ := ih id hid
    exact ⟨other, List.mem_cons_of_mem _ hother, hreaches⟩
  | case3 seen root stack e hfind hseen ih =>
    rw [walk_again (by simpa using hseen)]
    intro id hid
    obtain ⟨other, hother, hreaches⟩ := ih id hid
    exact ⟨other, List.mem_cons_of_mem _ hother, hreaches⟩
  | case4 seen root stack e hfind hseen ih =>
    rw [walk_cons hfind (by simpa using hseen)]
    have hroot : (find? es root).isSome = true := by rw [hfind]; rfl
    intro id hid
    rcases List.mem_cons.1 hid with rfl | hid
    · exact ⟨id, List.mem_cons_self, hroot, .refl⟩
    · obtain ⟨other, hother, hstored, hpath⟩ := ih id hid
      rcases List.mem_append.1 hother with hchild | hother
      · exact ⟨root, List.mem_cons_self, hroot, .head ⟨e, hfind, hchild, hstored⟩ hpath⟩
      · exact ⟨other, List.mem_cons_of_mem _ hother, hstored, hpath⟩

/-- A walk leaves nothing out: what is on its stack or is a child of what it meets has been seen
before or is met, if it is there. -/
theorem mem_walk_of_pending (seen stack : List String) (id : String)
    (hpending : id ∈ stack ∨
      ∃ x ∈ walk es seen stack, ∃ e, find? es x = some e ∧ id ∈ e.children)
    (hstored : (find? es id).isSome = true) : id ∈ seen ∨ id ∈ walk es seen stack := by
  induction seen, stack using walk.induct es with
  | case1 seen => simp [walk] at hpending
  | case2 seen root stack hnone ih =>
    rw [walk_missing hnone] at hpending ⊢
    apply ih
    rcases hpending with hid | hchild
    · rcases List.mem_cons.1 hid with rfl | hid
      · simp [hnone] at hstored
      · exact .inl hid
    · exact .inr hchild
  | case3 seen root stack e hfind hseen ih =>
    have hmem : root ∈ seen := by simpa using hseen
    rw [walk_again hmem] at hpending ⊢
    rcases hpending with hid | hchild
    · rcases List.mem_cons.1 hid with rfl | hid
      · exact .inl hmem
      · exact ih (.inl hid)
    · exact ih (.inr hchild)
  | case4 seen root stack e hfind hseen ih =>
    rw [walk_cons hfind (by simpa using hseen)] at hpending ⊢
    by_cases heq : id = root
    · exact .inr (heq ▸ List.mem_cons_self)
    have hlater : id ∈ root :: seen ∨ id ∈ walk es (root :: seen) (e.children ++ stack) := by
      apply ih
      rcases hpending with hid | ⟨x, hx, e', hfind', hchild⟩
      · exact .inl (List.mem_append_right _ (List.mem_of_ne_of_mem heq hid))
      · rcases List.mem_cons.1 hx with rfl | hx
        · obtain rfl : e = e' := Option.some.inj (hfind.symm.trans hfind')
          exact .inl (List.mem_append_left _ hchild)
        · exact .inr ⟨x, hx, e', hfind', hchild⟩
    rcases hlater with hid | hid
    · exact .inl (List.mem_of_ne_of_mem heq hid)
    · exact .inr (List.mem_cons_of_mem _ hid)

/-- The subtree of a root is what can be come to from it. -/
theorem mem_subtree_iff {root id : String} :
    id ∈ subtree es root ↔ Reaches (find? es) root id := by
  constructor
  · intro hid
    obtain ⟨other, hother, hreaches⟩ := reaches_of_mem_walk [] [root] id hid
    rwa [List.mem_singleton.1 hother] at hreaches
  · rintro ⟨hroot, hpath⟩
    induction hpath with
    | refl =>
      have hmet : root ∈ [] ∨ root ∈ walk es [] [root] :=
        mem_walk_of_pending [] [root] root (.inl List.mem_cons_self) hroot
      exact hmet.resolve_left List.not_mem_nil
    | tail _ hstep ih =>
      obtain ⟨e, hfind, hchild, hstored⟩ := hstep
      have hmet := mem_walk_of_pending [] [root] _ (.inr ⟨_, ih, e, hfind, hchild⟩) hstored
      exact hmet.resolve_left List.not_mem_nil

end Element

end DesignSync

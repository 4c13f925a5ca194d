import DesignSync.Document.Patch
import DesignSync.Proofs.Dict

/-!
Literal or bound, never both. Reconciling makes a property so, and leaves it as it is when it
already is.
-/

namespace DesignSync

/-- No key is both literal and bound, and there is no empty map of bindings. -/
structure Style.Exclusive (s : Style) : Prop where
  unbound : ∀ key, (s.literal? key).isSome = true → s.binding? key = none
  bindings_ne : ∀ b, s.bindings = some b → b.isEmpty = false

/-- Content with a literal has no binding. -/
def Content.Exclusive (c : Content) : Prop := c.hasLiteral = true → c.binding = none

/-- Every property of an element is literal or bound, but not both. -/
structure Element.Exclusive (e : Element) : Prop where
  style : e.properties.style.Exclusive
  content : e.properties.content.Exclusive

namespace Style

/-- No key that is still bound has a literal, so that reconciling takes bindings away only. -/
theorem reconcile_eq (s : Style) : s.reconcile = { s with
    bindings := (s.bindings.map (·.filter fun k _ => !s.literals.contains k)).bind pruned } := by
  obtain ⟨_ | b, literals⟩ := s
  · rfl
  have hfree : ∀ k ∈ (b.filter fun k _ => !literals.contains k).keys, literals.get? k = none := by
    intro k hk
    rw [Dict.mem_keys_iff, Dict.get?_filter] at hk
    obtain ⟨v, hv⟩ := Option.isSome_iff_exists.1 hk
    have hnot := (Option.filter_eq_some_iff.1 hv).2
    simpa [Dict.contains] using hnot
  change prune ⟨some _, _⟩ = _
  rw [Dict.foldl_erase_of_get?_eq_none hfree]
  rfl

@[simp] theorem bindings_reconcile_none {s : Style} (h : s.bindings = none) :
    s.reconcile = s := by
  cases s
  simp_all [reconcile_eq]

theorem literal?_reconcile (s : Style) (key : String) :
    s.reconcile.literal? key = s.literal? key := by
  rw [reconcile_eq]
  rfl

/-- Pruning takes no binding away. -/
theorem get?_pruned (b : Dict Binding) (key : String) :
    (pruned b).bind (·.get? key) = b.get? key := by
  unfold pruned
  split
  · next h => simp [Dict.isEmpty_iff.1 h key]
  · rfl

theorem binding?_reconcile (s : Style) (key : String) :
    s.reconcile.binding? key = if (s.literal? key).isSome then none else s.binding? key := by
  rw [reconcile_eq]
  unfold binding?
  cases hb : s.bindings with
  | none => simp
  | some b =>
    simp only [Option.map_some, Option.bind_some, get?_pruned, Dict.get?_filter]
    cases hl : (s.literal? key).isSome <;> cases hg : b.get? key <;>
      simp_all [Dict.contains, literal?]

theorem reconcile_exclusive (s : Style) : s.reconcile.Exclusive where
  unbound key h := by
    rw [literal?_reconcile] at h
    rw [binding?_reconcile, if_pos h]
  bindings_ne b h := by
    rw [reconcile_eq] at h
    cases hb : s.bindings with
    | none => simp [hb] at h
    | some b' =>
      simp only [hb, Option.map_some, Option.bind_some, pruned] at h
      split at h
      · cases h
      · next hne =>
        cases h
        simpa using hne

theorem Exclusive.reconcile_eq {s : Style} (h : s.Exclusive) : s.reconcile = s := by
  cases hb : s.bindings with
  | none => exact bindings_reconcile_none hb
  | some b =>
    have hkeep : (b.filter fun k _ => !s.literals.contains k) = b := by
      refine Dict.ext_get? fun key => ?_
      rw [Dict.get?_filter]
      cases hg : b.get? key with
      | none => rfl
      | some v =>
        have hfree : s.literals.contains key = false := by
          cases hl : s.literals.contains key with
          | false => rfl
          | true =>
            have hnone := h.unbound key hl
            simp [binding?, hb, hg] at hnone
        simp [hfree]
    cases s
    subst hb
    simp only [Style.reconcile_eq, Option.map_some, Option.bind_some, hkeep, pruned,
      h.bindings_ne b rfl]
    rfl

end Style

namespace Content

/-- A binding that is left stands alone, so that reconciling takes the binding away at most. -/
theorem reconcile_eq (c : Content) :
    c.reconcile = if c.hasLiteral then { c with binding := none } else c := by
  obtain ⟨_ | t, _ | b, _ | e⟩ := c <;> rfl

theorem reconcile_exclusive (c : Content) : c.reconcile.Exclusive := by
  rw [reconcile_eq]
  split
  · intro _
    rfl
  · next h => exact fun h' => absurd h' h

theorem Exclusive.reconcile_eq {c : Content} (h : c.Exclusive) : c.reconcile = c := by
  rw [Content.reconcile_eq]
  split
  · next hl =>
    have hb := h hl
    cases c
    simp_all
  · rfl

end Content

namespace Element

theorem reconcile_exclusive (e : Element) : e.reconcile.Exclusive :=
  ⟨Style.reconcile_exclusive _, Content.reconcile_exclusive _⟩

theorem Exclusive.reconcile_eq {e : Element} (h : e.Exclusive) : e.reconcile = e := by
  simp only [Element.reconcile, Properties.reconcile, h.style.reconcile_eq,
    h.content.reconcile_eq]

/-- The elements in which nothing is literal and bound at once are those that reconciling leaves as
    they are. -/
theorem exclusive_iff {e : Element} : e.Exclusive ↔ e.reconcile = e :=
  ⟨Exclusive.reconcile_eq, fun h => h ▸ reconcile_exclusive e⟩

end Element

end DesignSync

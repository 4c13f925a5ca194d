import DesignSync.Proofs.Sync.Readding

/-!
Removing an element. Its id goes out of the table, the list of ids, the owner index, all lists of
children and the overrides. What stays is the owner of each element that it owned, so that the id is
nowhere left just when it owned no other element.
-/

namespace DesignSync

namespace Store

variable {s : Store} {id : String}

/-- An id that has no element, no place in the list of ids or in a bucket, no parent and no
overrides. -/
structure Unlisted (s : Store) (id : String) : Prop where
  table : s.element? id = none
  ids : id ∉ s.ids
  owners : ∀ owner, id ∉ s.owners.ownedBy owner
  children : ∀ other e, s.element? other = some e → id ∉ e.children
  overrides : s.instanceOverrides? id = none

/-- An id that is nowhere in a store: it also owns none of the elements. -/
structure Unmentioned (s : Store) (id : String) : Prop extends Unlisted s id where
  ownerless : ∀ other e, s.element? other = some e → e.ownership ≠ ⟨.element, id⟩

theorem removeElement_snd (s : Store) (id : String) :
    (s.removeElement id).2 = (s.element? id).isSome := by
  cases hold : s.element? id with
  | none => rw [removeElement_of_absent hold]; rfl
  | some old => simp [removeElement, hold]

theorem Sound.unlisted_removeElement (h : s.Sound) {old : Element}
    (hold : s.element? id = some old) : (s.removeElement id).1.Unlisted id := by
  have hsound : (s.removeElement id).1.Sound := h.removeElement id
  have htable : (s.removeElement id).1.element? id = none := by
    rw [element?_removeElement hold, if_pos rfl]
  refine ⟨htable, fun hmem => ?_, fun owner => ?_, fun other e he => ?_, ?_⟩
  · rw [hsound.mem_ids, htable] at hmem
    cases hmem
  · exact List.count_eq_zero.1 (hsound.count_of_absent htable owner)
  · rw [element?_removeElement hold] at he
    split at he
    · cases he
    · obtain ⟨before, -, rfl⟩ := Option.map_eq_some_iff.1 he
      simp [withoutChild, Element.children]
  · have hoverrides : (s.removeElement id).1.overrides = s.overrides.erase id := by
      simp [Store.removeElement, hold]
    rw [instanceOverrides?, hoverrides, Dict.get?_erase, if_pos rfl]

/-- Removing an element of any store that operations and pulls lead to takes its id out of all that
the store lists. The other elements stay, each with the owner that it has. So the id is nowhere left
just when no other element is owned by the one that was removed. -/
theorem unmentioned_removeElement_iff (h : s.Grown) (hremoved : (s.removeElement id).2 = true) :
    (s.removeElement id).1.Unlisted id ∧
      (∀ other, other ≠ id →
        (s.removeElement id).1.element? other = (s.element? other).map (withoutChild id)) ∧
      ((s.removeElement id).1.Unmentioned id ↔
        ∀ other e, other ≠ id → s.element? other = some e → e.ownership ≠ ⟨.element, id⟩) := by
  rw [removeElement_snd] at hremoved
  obtain ⟨old, hold⟩ := Option.isSome_iff_exists.1 hremoved
  have hstay : ∀ other, other ≠ id →
      (s.removeElement id).1.element? other = (s.element? other).map (withoutChild id) :=
    fun other hother => by rw [element?_removeElement hold, if_neg hother]
  have hunlisted := h.sound.unlisted_removeElement hold
  refine ⟨hunlisted, hstay, fun hgone other e hother he howner => ?_, fun hfree => ?_⟩
  · have hafter := hstay other hother
    rw [he, Option.map_some] at hafter
    exact hgone.ownerless other _ hafter howner
  · refine ⟨hunlisted, fun other e he howner => ?_⟩
    have hother : other ≠ id := by
      rintro rfl
      rw [hunlisted.table] at he
      cases he
    rw [hstay other hother] at he
    obtain ⟨before, hbefore, rfl⟩ := Option.map_eq_some_iff.1 he
    exact hfree other before hother hbefore howner

/-- A box on a screen with a label in it, which has the given owner. -/
def boxAndLabel (owner : Ownership) : Store :=
  (Store.empty.perform (.addElement ⟨"box", "div", .element, none, ⟨.screen, "home"⟩,
      { Properties.empty with children := ["label"] }, none⟩)).perform
    (.addElement ⟨"label", "span", .element, none, owner, Properties.empty, none⟩)

theorem grown_boxAndLabel (owner : Ownership) : (boxAndLabel owner).Grown :=
  .perform (.perform .empty _) _

/-- Here the label is owned by the screen. So when it is removed its id is nowhere left, neither in
the bucket of the screen nor among the children of the box. -/
theorem unmentioned_removeElement_label :
    let s := boxAndLabel ⟨.screen, "home"⟩
    s.Grown ∧ (s.removeElement "label").2 = true ∧
      (∀ other e, other ≠ "label" → s.element? other = some e →
        e.ownership ≠ ⟨.element, "label"⟩) ∧
      (s.removeElement "label").1.Unmentioned "label" := by
  intro s
  have hgrown : s.Grown := grown_boxAndLabel _
  have hremoved : (s.removeElement "label").2 = true := by decide
  have hfree : ∀ other e, other ≠ "label" → s.element? other = some e →
      e.ownership ≠ ⟨.element, "label"⟩ := by
    intro other e _ he
    have hall : ∀ e ∈ s.table.values, e.ownership ≠ ⟨.element, "label"⟩ := by decide
    exact hall e (Dict.mem_values_iff.2 ⟨other, he⟩)
  exact ⟨hgrown, hremoved, hfree, (unmentioned_removeElement_iff hgrown hremoved).2.2.2 hfree⟩

/-- A label that is owned by the box is still owned by it when the box is removed. -/
theorem removed_box_owns_label :
    let s := boxAndLabel ⟨.element, "box"⟩
    s.Grown ∧ (s.removeElement "box").2 = true ∧
      ((s.removeElement "box").1.element? "label").map (·.ownership) = some ⟨.element, "box"⟩ ∧
      ¬ (s.removeElement "box").1.Unmentioned "box" := by
  intro s
  have howner : ((s.removeElement "box").1.element? "label").map (·.ownership) =
      some ⟨.element, "box"⟩ := by decide
  refine ⟨grown_boxAndLabel _, by decide, howner, fun hgone => ?_⟩
  obtain ⟨e, he, heq⟩ := Option.map_eq_some_iff.1 howner
  exact hgone.ownerless "label" e he heq

end Store

end DesignSync

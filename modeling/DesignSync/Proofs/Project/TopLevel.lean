import DesignSync.Project.Target
import DesignSync.Proofs.Document.Reaching
import DesignSync.Proofs.Document.Traces
import Mathlib.Order.WellFoundedSet

/-!
The top of a document: the elements that are no child of any. Where no element is below itself, every
element is below one of these or is one, so that a document with elements has a target.
-/

namespace DesignSync

namespace Store

variable {s : Store} {id : String}

/-- Whether no element is below itself. Children may be missing, and elements may share them. -/
def Acyclic (s : Store) : Prop :=
  ∀ id, ¬ Relation.TransGen (Element.LeadsTo s.element?) id id

theorem mem_topLevelIds_iff :
    id ∈ s.topLevelIds ↔ id ∈ s.ids ∧ ∀ e ∈ s.elements, id ∉ e.children := by
  simp [topLevelIds]

namespace Sound

/-- An element that is not at the top is a child of another one. -/
theorem exists_parent (h : s.Sound) (hid : id ∈ s.ids) (htop : id ∉ s.topLevelIds) :
    ∃ parent ∈ s.ids, Element.LeadsTo s.element? parent id := by
  have hstored : (s.element? id).isSome = true := (h.mem_ids id).1 hid
  obtain ⟨e, he, hchild⟩ : ∃ e ∈ s.elements, id ∈ e.children := by
    by_contra hnone
    push Not at hnone
    exact htop (mem_topLevelIds_iff.2 ⟨hid, hnone⟩)
  have hfind : s.element? e.id = some e := h.mem_elements_iff.1 he
  exact ⟨e.id, (h.mem_ids e.id).2 (by simp [hfind]), e, hfind, hchild, hstored⟩

/-- Climbing from an element to a parent comes to an end, as there are only so many elements and none
is met twice. Where it ends is the top. -/
theorem exists_top (h : s.Sound) (hacyclic : s.Acyclic) (hid : id ∈ s.ids) :
    ∃ top ∈ s.topLevelIds, Element.Reaches s.element? top id := by
  -- being above is a strict order on finitely many elements, and the induction goes up in it
  have hirrefl : Std.Irrefl (Relation.TransGen (Element.LeadsTo s.element?)) := ⟨hacyclic⟩
  have horder : IsStrictOrder String (Relation.TransGen (Element.LeadsTo s.element?)) := ⟨⟩
  have hwell : {id | id ∈ s.ids}.WellFoundedOn (Relation.TransGen (Element.LeadsTo s.element?)) :=
    s.ids.finite_toSet.wellFoundedOn
  apply hwell.induction hid
  intro id hid ih
  by_cases htop : id ∈ s.topLevelIds
  · exact ⟨id, htop, (h.mem_ids id).1 hid, .refl⟩
  · obtain ⟨parent, hparent, hstep⟩ := h.exists_parent hid htop
    obtain ⟨top, hmem, hstored, hpath⟩ := ih parent hparent (.single hstep)
    exact ⟨top, hmem, hstored, hpath.tail hstep⟩

theorem exists_top_subtree (h : s.Sound) (hacyclic : s.Acyclic) (hid : id ∈ s.ids) :
    ∃ top ∈ s.topLevelIds, id ∈ s.subtree top := by
  obtain ⟨top, htop, hreaches⟩ := h.exists_top hacyclic hid
  rw [← funext h.find?_elements] at hreaches
  exact ⟨top, htop, Element.mem_subtree_iff.2 hreaches⟩

theorem topLevelIds_eq_nil_iff (h : s.Sound) (hacyclic : s.Acyclic) :
    s.topLevelIds = [] ↔ s.ids = [] := by
  constructor
  · intro htop
    by_contra hne
    obtain ⟨id, hid⟩ := List.exists_mem_of_ne_nil _ hne
    obtain ⟨top, hmem, -⟩ := h.exists_top hacyclic hid
    rw [htop] at hmem
    cases hmem
  · intro hids
    rw [topLevelIds, hids]
    rfl

end Sound

/-! ### Targets -/

/-- A root that is stored is the root of a target, whatever else is asked for. -/
theorem exists_target_of_stored {root : String} (hroot : (s.element? root).isSome = true)
    (choice : TargetChoice) (hchoice : choice.root.or s.topLevelIds.head? = some root)
    (config : ProjectConfig) : ∃ t, s.target choice config = .ok t ∧ t.root = root := by
  obtain ⟨e, he⟩ := Option.isSome_iff_exists.1 hroot
  rw [target, hchoice]
  simp only [he]
  exact ⟨_, rfl, rfl⟩

end Store

end DesignSync

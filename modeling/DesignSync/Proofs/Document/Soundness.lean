import DesignSync.Document.Invariant
import DesignSync.Proofs.Document.Exclusive
import DesignSync.Proofs.Document.Lookup
import DesignSync.Proofs.Document.OwnerIndex

/-!
What every store keeps, and that each operation keeps it. The operations on elements come down to
committing one element, writing a path into a binding and removing an element; what these do to
look-ups, to the owner index and to single elements is all that has to be known about them.
-/

namespace DesignSync

/-- At most one value of each prop is marked as default. -/
def Component.SingleDefaults (c : Component) : Prop :=
  ∀ p ∈ c.props, (p.values.filter (·.isDefault)).length ≤ 1

/-- A store whose ids are distinct and those of its elements, each of which is stored under its own
id, whose owner index has each element once in the bucket of its owner and nothing else, whose
properties are literal or bound but not both, and whose props have at most one default. -/
structure Store.Sound (s : Store) : Prop where
  nodup_ids : s.ids.Nodup
  mem_ids : ∀ id, id ∈ s.ids ↔ (s.element? id).isSome = true
  named : ∀ id e, s.element? id = some e → e.id = id
  indexed : ∀ owner id, (s.owners.ownedBy owner).count id
    = if (s.element? id).any (·.ownership = owner) then 1 else 0
  exclusive : ∀ id e, s.element? id = some e → e.Exclusive
  defaults : ∀ id c, s.component? id = some c → c.SingleDefaults

private theorem length_filter_oneDefault (seen : Bool) (vs : List PropValue) :
    ((PropValue.oneDefault seen vs).filter (·.isDefault)).length ≤ if seen then 0 else 1 := by
  induction vs generalizing seen with
  | nil => simp [PropValue.oneDefault]
  | cons v vs ih =>
    have hrest := ih (seen || v.isDefault)
    cases seen <;> cases hv : v.isDefault <;> simp_all [PropValue.oneDefault]

theorem Component.normalize_singleDefaults (c : Component) : c.normalize.SingleDefaults := by
  intro p hp
  obtain ⟨q, -, rfl⟩ := List.mem_map.1 hp
  exact length_filter_oneDefault false q.values

namespace Store

variable {s : Store}

theorem empty_sound : empty.Sound where
  nodup_ids := List.nodup_nil
  mem_ids id := by simp [empty, element?]
  named id e h := by cases h
  indexed owner id := by
    rw [show empty.owners = OwnerIndex.empty from rfl, OwnerIndex.ownedBy_empty]
    rfl
  exclusive id e h := by cases h
  defaults id c h := by cases h

/-! ### Elements -/

namespace Sound

/-- An id that is not stored stands in no bucket. -/
theorem count_of_absent (h : s.Sound) {id : String} (habs : s.element? id = none)
    (owner : Ownership) : (s.owners.ownedBy owner).count id = 0 := by
  rw [h.indexed owner id, habs]
  rfl

theorem commit (h : s.Sound) {e : Element} (he : e.Exclusive) : (s.commit e).Sound where
  nodup_ids := by
    rw [ids_commit]
    split
    · exact h.nodup_ids
    · next habs =>
      have hnew : e.id ∉ s.ids := fun hmem => habs ((h.mem_ids _).1 hmem)
      refine List.nodup_append.2 ⟨h.nodup_ids, by simp, fun a ha b hb => ?_⟩
      rintro rfl
      exact hnew (List.mem_singleton.1 hb ▸ ha)
  mem_ids id := by
    rw [ids_commit, element?_commit]
    by_cases hid : id = e.id
    · subst hid
      split
      · next hold => simpa [contains] using (h.mem_ids e.id).2 hold
      · simp
    · split <;> simp [hid, h.mem_ids]
  named id e' h' := by
    rw [element?_commit] at h'
    split at h'
    · next hid =>
      cases h'
      exact hid.symm
    · exact h.named id e' h'
  indexed owner id := by
    rw [element?_commit]
    by_cases hid : id = e.id
    · subst hid
      rw [if_pos rfl]
      unfold Store.commit
      cases hold : s.element? e.id with
      | none =>
        simp only
        rw [OwnerIndex.count_add_self _ _ _ (h.count_of_absent hold)]
        simp [eq_comm]
      | some old =>
        simp only
        rw [OwnerIndex.count_relocate_self]
        · simp [eq_comm]
        · intro o
          rw [h.indexed o e.id, hold]
          simp [eq_comm]
    · rw [if_neg hid, ← h.indexed owner id]
      unfold Store.commit
      cases s.element? e.id with
      | none => exact OwnerIndex.count_add_of_ne _ _ _ hid
      | some old => exact OwnerIndex.count_relocate_of_ne _ _ _ _ hid
  exclusive id e' h' := by
    rw [element?_commit] at h'
    split at h'
    · cases h'
      exact he
    · exact h.exclusive id e' h'
  defaults id c hc := by
    refine h.defaults id c ?_
    unfold Store.commit at hc
    split at hc <;> exact hc

theorem transact (h : s.Sound) (id : String) (f : Element → Element) :
    (s.transact id f).1.Sound := by
  unfold Store.transact
  split
  · exact h
  · simp only
    split
    · exact h
    · exact h.commit (Element.reconcile_exclusive _)

theorem addElement (h : s.Sound) (e : Element) : (s.addElement e).1.Sound := by
  unfold Store.addElement
  split
  · exact h.transact _ _
  · exact h.commit (Element.reconcile_exclusive _)

theorem addElements (h : s.Sound) (es : List Element) : (s.addElements es).1.Sound := by
  rw [addElements_eq]
  exact List.foldlRecOn es _ h fun _ hs e _ => hs.addElement e

theorem replaceElement (h : s.Sound) (e : Element) : (s.replaceElement e).1.Sound := by
  unfold Store.replaceElement
  simp only
  split
  · exact h
  · exact h.commit (Element.reconcile_exclusive _)

theorem removeElement (h : s.Sound) (id : String) : (s.removeElement id).1.Sound := by
  cases hold : s.element? id with
  | none => rwa [removeElement_of_absent hold]
  | some old =>
    have hbuckets : (s.removeElement id).1.owners = s.owners.remove old.ownership id := by
      simp [Store.removeElement, hold]
    refine ⟨?_, fun other => ?_, fun other e he => ?_, fun owner other => ?_, fun other e he => ?_,
      fun other c hc => ?_⟩
    · rw [ids_removeElement hold]
      exact h.nodup_ids.filter _
    · rw [ids_removeElement hold, element?_removeElement hold, List.mem_filter, h.mem_ids]
      by_cases hother : other = id <;> simp [hother]
    · rw [element?_removeElement hold] at he
      split at he
      · cases he
      · obtain ⟨e', he', rfl⟩ := Option.map_eq_some_iff.1 he
        exact h.named other e' he'
    · rw [hbuckets, element?_removeElement hold]
      by_cases hother : other = id
      · subst hother
        rw [if_pos rfl, OwnerIndex.count_remove_self]
        · rfl
        · intro o ho
          rw [h.indexed o other, hold]
          simp [ho.symm]
      · rw [if_neg hother, OwnerIndex.count_remove_of_ne _ _ _ hother, h.indexed owner other]
        cases s.element? other <;> rfl
    · rw [element?_removeElement hold] at he
      split at he
      · cases he
      · obtain ⟨e', he', rfl⟩ := Option.map_eq_some_iff.1 he
        exact ⟨(h.exclusive _ _ he').style, (h.exclusive _ _ he').content⟩
    · refine h.defaults other c ?_
      simpa [Store.removeElement, hold, component?] using hc

/-- Taking all elements away at once, as is done before others are put in. -/
theorem cleared (h : s.Sound) : Sound { s with
    table := Dict.empty, ids := [], owners := OwnerIndex.empty, revision := s.revision + 1 } where
  nodup_ids := List.nodup_nil
  mem_ids := empty_sound.mem_ids
  named := empty_sound.named
  indexed := empty_sound.indexed
  exclusive := empty_sound.exclusive
  defaults := h.defaults

theorem setElements (h : s.Sound) (es : List Element) : (s.setElements es).Sound :=
  h.cleared.addElements es

end Sound

/-! ### Paths of bindings -/

/-- Another binding at a place that has one leaves every property literal or bound. -/
private theorem setBinding_exclusive {e : Element} (h : e.Exclusive) {slot : BindingSlot}
    {b : Binding} (hb : binding? e.properties slot = some b) (b' : Binding) :
    Element.Exclusive { e with properties := setBinding e.properties slot b' } := by
  cases slot with
  | content =>
    refine ⟨h.style, fun hl => ?_⟩
    have hnone := h.content hl
    simp only [binding?] at hb
    rw [hb] at hnone
    cases hnone
  | style key =>
    refine ⟨⟨fun key' hl => ?_, fun m hm => ?_⟩, h.content⟩
    · have hnone := h.style.unbound key' hl
      have hne : key' ≠ key := by
        rintro rfl
        simp only [binding?] at hb
        rw [hb] at hnone
        cases hnone
      simp only [setBinding, Style.binding?] at hnone ⊢
      cases hbs : e.properties.style.bindings with
      | none => rfl
      | some m =>
        rw [hbs] at hnone
        simpa [Dict.get?_insert_of_ne _ _ hne] using hnone
    · obtain ⟨m', -, rfl⟩ := Option.map_eq_some_iff.1 hm
      exact m'.isEmpty_insert key b'

namespace Sound

theorem recordPath (h : s.Sound) (t : TracedPath) : (s.recordPath t).1.Sound := by
  obtain hsame | ⟨e, b, b', he, hb, -, -, hnew⟩ := s.recordPath_cases t
  · rwa [hsame]
  · have hfind := element?_of_insert hnew
    refine ⟨?_, fun id => ?_, fun id e' he' => ?_, fun owner id => ?_, fun id e' he' => ?_,
      fun id c hc => ?_⟩
    · rw [hnew]
      exact h.nodup_ids
    · rw [hfind, hnew, h.mem_ids]
      by_cases hid : id = t.element <;> simp [hid, he]
    · rw [hfind] at he'
      split at he'
      · next hid =>
        cases he'
        rw [hid]
        exact h.named t.element e he
      · exact h.named id e' he'
    · rw [hfind, hnew, h.indexed owner id]
      by_cases hid : id = t.element
      · rw [if_pos hid, hid, he]
        rfl
      · rw [if_neg hid]
    · rw [hfind] at he'
      split at he'
      · cases he'
        exact setBinding_exclusive (h.exclusive _ _ he) hb b'
      · exact h.exclusive id e' he'
    · rw [hnew] at hc
      exact h.defaults id c hc

theorem recordPaths (h : s.Sound) (ts : List TracedPath) : (s.recordPaths ts).1.Sound := by
  rw [recordPaths_eq]
  exact List.foldlRecOn ts _ h fun _ hs t _ => hs.recordPath t

/-! ### Components and overrides -/

theorem addComponent (h : s.Sound) (c : Component) : (s.addComponent c).1.Sound := by
  unfold Store.addComponent
  simp only
  split
  · exact h
  · refine ⟨h.nodup_ids, h.mem_ids, h.named, h.indexed, h.exclusive, fun id c' hc' => ?_⟩
    simp only [component?, Dict.get?_insert] at hc'
    split at hc'
    · cases hc'
      exact c.normalize_singleDefaults
    · exact h.defaults id c' hc'

theorem removeComponent (h : s.Sound) (id : String) : (s.removeComponent id).1.Sound := by
  unfold Store.removeComponent
  split
  · refine ⟨h.nodup_ids, h.mem_ids, h.named, h.indexed, h.exclusive, fun other c hc => ?_⟩
    simp only [component?, Dict.get?_erase] at hc
    split at hc
    · cases hc
    · exact h.defaults other c hc
  · exact h

theorem setPropValues (h : s.Sound) (componentId propId : String) (values : List PropValue) :
    (s.setPropValues componentId propId values).1.Sound := by
  unfold Store.setPropValues
  split
  · exact h
  · split
    · exact h
    · exact h.addComponent _

theorem setOverride (h : s.Sound) (instanceId propId : String) (value : Override) :
    (s.setOverride instanceId propId value).1.Sound := by
  unfold Store.setOverride
  simp only
  split
  · exact h
  · exact ⟨h.nodup_ids, h.mem_ids, h.named, h.indexed, h.exclusive, h.defaults⟩

theorem clearOverride (h : s.Sound) (instanceId propId : String) :
    (s.clearOverride instanceId propId).1.Sound := by
  unfold Store.clearOverride
  split
  · exact h
  · split
    · exact ⟨h.nodup_ids, h.mem_ids, h.named, h.indexed, h.exclusive, h.defaults⟩
    · exact h

end Sound

/-! ### The check -/

private theorem violation?_of_exclusive {e : Element} (h : e.Exclusive) :
    e.violation? = none := by
  have hcontent : (e.properties.content.binding.isSome && e.properties.content.hasLiteral)
      = false := by
    cases hl : e.properties.content.hasLiteral with
    | false => simp
    | true => simp [h.content hl]
  unfold Element.violation?
  simp only [hcontent]
  cases hb : e.properties.style.bindings with
  | none => rfl
  | some b =>
    have hfree : b.keys.find? e.properties.style.literals.contains = none := by
      refine List.find?_eq_none.2 fun key hkey hlit => ?_
      obtain ⟨v, hv⟩ := Option.isSome_iff_exists.1 (Dict.mem_keys_iff.1 hkey)
      have hnone := h.style.unbound key hlit
      simp [Style.binding?, hb, hv] at hnone
    simp [h.style.bindings_ne b hb, hfree]

/-- There are as many stored elements as ids. -/
theorem Sound.size_table (h : s.Sound) : s.table.size = s.ids.length := by
  have hperm : s.table.keys.Perm s.ids := by
    refine (List.perm_ext_iff_of_nodup s.table.nodup_keys h.nodup_ids).2 fun id => ?_
    rw [Dict.mem_keys_iff, h.mem_ids]
    rfl
  simpa [Dict.keys, Dict.size] using hperm.length_eq

/-- The check finds nothing wrong with a sound store. -/
theorem Sound.violation?_eq_none (h : s.Sound) : s.violation? = none := by
  have hentries : s.owners.entries.findSome? s.entryViolation? = none := by
    refine List.findSome?_eq_none_iff.2 fun entry hentry => ?_
    have hcount := List.count_pos_iff.2 (OwnerIndex.mem_entries_iff.1 hentry)
    rw [h.indexed] at hcount
    unfold entryViolation?
    cases he : s.element? entry.2 with
    | none => simp [he] at hcount
    | some e =>
      have howner : e.ownership = entry.1 := by
        by_contra hne
        simp [he, hne] at hcount
      simp [howner]
  have helements : s.table.values.findSome? s.elementViolation? = none := by
    refine List.findSome?_eq_none_iff.2 fun e he => ?_
    obtain ⟨id, hfind⟩ := Dict.mem_values_iff.1 he
    have hcount := h.indexed e.ownership id
    rw [show s.element? id = some e from hfind] at hcount
    unfold elementViolation?
    rw [h.named id e hfind]
    simp [hcount, violation?_of_exclusive (h.exclusive _ _ hfind)]
  rw [violation?, if_neg (by simp [h.size_table]), hentries, helements]
  rfl

end Store

end DesignSync

import DesignSync.Document.OwnerIndex
import DesignSync.Proofs.Dict

/-!
The owner index as a table of counts: how often each id stands in the bucket of each owner, and
what adding, removing and moving an id does to that.
-/

namespace DesignSync

namespace OwnerIndex

@[simp] theorem buckets_setBuckets_self (ix : OwnerIndex) (kind : OwnerKind)
    (b : Dict (List String)) : (ix.setBuckets kind b).buckets kind = b := by
  cases kind <;> rfl

theorem buckets_setBuckets_of_ne (ix : OwnerIndex) {kind kind' : OwnerKind}
    (b : Dict (List String)) (h : kind' ≠ kind) :
    (ix.setBuckets kind b).buckets kind' = ix.buckets kind' := by
  cases kind <;> cases kind' <;> first | rfl | exact absurd rfl h

/-- Putting one bucket in place leaves all others alone. -/
private theorem bucket?_setBuckets_insert (ix : OwnerIndex) (owner owner' : Ownership)
    (ids : List String) :
    (ix.setBuckets owner.kind ((ix.buckets owner.kind).insert owner.ownerId ids)).bucket? owner'
      = if owner' = owner then some ids else ix.bucket? owner' := by
  obtain ⟨kind, ownerId⟩ := owner
  obtain ⟨kind', ownerId'⟩ := owner'
  by_cases hkind : kind' = kind
  · subst hkind
    simp only [bucket?, buckets_setBuckets_self, Dict.get?_insert, Ownership.mk.injEq, true_and]
  · simp only [bucket?, buckets_setBuckets_of_ne ix _ hkind, Ownership.mk.injEq, hkind, false_and,
      if_false]

theorem ownedBy_empty (owner : Ownership) : empty.ownedBy owner = [] := by
  obtain ⟨kind, ownerId⟩ := owner
  cases kind <;> rfl

theorem ownedBy_add (ix : OwnerIndex) (owner owner' : Ownership) (id : String) :
    (ix.add owner id).ownedBy owner' =
      if owner' = owner then
        if id ∈ ix.ownedBy owner then ix.ownedBy owner else ix.ownedBy owner ++ [id]
      else ix.ownedBy owner' := by
  unfold add
  rw [ownedBy, bucket?_setBuckets_insert]
  by_cases howner : owner' = owner
  · simp [howner]
  · simp [howner, ownedBy]

theorem ownedBy_remove (ix : OwnerIndex) (owner owner' : Ownership) (id : String) :
    (ix.remove owner id).ownedBy owner' =
      if owner' = owner then (ix.ownedBy owner).filter (· != id) else ix.ownedBy owner' := by
  unfold remove
  cases hb : ix.bucket? owner with
  | none =>
    by_cases howner : owner' = owner
    · simp [howner, ownedBy, hb]
    · simp [howner]
  | some ids =>
    simp only
    rw [ownedBy, bucket?_setBuckets_insert]
    by_cases howner : owner' = owner
    · simp [howner, ownedBy, hb]
    · simp [howner, ownedBy]

/-- Of the ids other than the one added, no bucket gets more or fewer. -/
theorem count_add_of_ne (ix : OwnerIndex) (owner owner' : Ownership) {id other : String}
    (h : other ≠ id) :
    ((ix.add owner id).ownedBy owner').count other = (ix.ownedBy owner').count other := by
  rw [ownedBy_add]
  split
  · next howner =>
    subst howner
    split
    · rfl
    · simp [h.symm]
  · rfl

theorem count_remove_of_ne (ix : OwnerIndex) (owner owner' : Ownership) {id other : String}
    (h : other ≠ id) :
    ((ix.remove owner id).ownedBy owner').count other = (ix.ownedBy owner').count other := by
  rw [ownedBy_remove]
  split
  · next howner =>
    subst howner
    rw [List.count_filter (by simpa using h)]
  · rfl

/-- An id that no bucket has stands once in the bucket that it is added to. -/
theorem count_add_self (ix : OwnerIndex) (owner owner' : Ownership) {id : String}
    (h : ∀ o, (ix.ownedBy o).count id = 0) :
    ((ix.add owner id).ownedBy owner').count id = if owner' = owner then 1 else 0 := by
  rw [ownedBy_add]
  split
  · have hnew : id ∉ ix.ownedBy owner := List.count_eq_zero.1 (h owner)
    rw [if_neg hnew, List.count_append, h owner]
    simp
  · exact h owner'

/-- Taking an id out of the only bucket that has it leaves it in none. -/
theorem count_remove_self (ix : OwnerIndex) (owner owner' : Ownership) {id : String}
    (h : ∀ o, o ≠ owner → (ix.ownedBy o).count id = 0) :
    ((ix.remove owner id).ownedBy owner').count id = 0 := by
  rw [ownedBy_remove]
  split
  · exact List.count_eq_zero.2 (by simp)
  · next howner => exact h owner' howner

theorem count_relocate_of_ne (ix : OwnerIndex) (source target owner : Ownership)
    {id other : String} (h : other ≠ id) :
    ((ix.relocate source target id).ownedBy owner).count other
      = (ix.ownedBy owner).count other := by
  unfold relocate
  split
  · rfl
  · rw [count_add_of_ne _ _ _ h, count_remove_of_ne _ _ _ h]

/-- An id that stands once in the bucket it comes from stands once in the bucket it goes to. -/
theorem count_relocate_self (ix : OwnerIndex) (source target owner : Ownership) {id : String}
    (h : ∀ o, (ix.ownedBy o).count id = if o = source then 1 else 0) :
    ((ix.relocate source target id).ownedBy owner).count id
      = if owner = target then 1 else 0 := by
  unfold relocate
  split
  · next heq => rw [h owner, heq]
  · refine count_add_self _ _ _ fun o => count_remove_self _ _ _ fun o' ho' => ?_
    rw [h o', if_neg ho']

/-- The entries of the index are the ids of its buckets. -/
theorem mem_entries_iff {ix : OwnerIndex} {owner : Ownership} {id : String} :
    (owner, id) ∈ ix.entries ↔ id ∈ ix.ownedBy owner := by
  obtain ⟨kind, ownerId⟩ := owner
  unfold entries
  simp only [List.mem_flatMap, List.mem_map]
  constructor
  · rintro ⟨kind', -, ⟨ownerId', ids⟩, hmem, id', hid, heq⟩
    obtain ⟨⟨rfl, rfl⟩, rfl⟩ : (kind' = kind ∧ ownerId' = ownerId) ∧ id' = id := by
      simpa [Prod.ext_iff] using heq
    have hget := Dict.get?_eq_some_iff.2 hmem
    simpa [ownedBy, bucket?, hget] using hid
  · intro hid
    cases hget : (ix.buckets kind).get? ownerId with
    | none => simp [ownedBy, bucket?, hget] at hid
    | some ids =>
      refine ⟨kind, by cases kind <;> simp, (ownerId, ids), Dict.get?_eq_some_iff.1 hget, id, ?_,
        rfl⟩
      simpa [ownedBy, bucket?, hget] using hid

end OwnerIndex

end DesignSync

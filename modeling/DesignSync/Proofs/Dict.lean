import Mathlib.Data.List.Nodup
import DesignSync.Dict

/-!
Dictionaries through their look-ups: what each operation has under a key, and that the look-ups
tell two dictionaries apart.
-/

namespace DesignSync

namespace Dict

variable {α β : Type}

private theorem lookup_cons_eq (e : String × α) (es : List (String × α)) (key : String) :
    (e :: es).lookup key = if key = e.1 then some e.2 else es.lookup key := by
  obtain ⟨k, v⟩ := e
  rw [List.lookup_cons]
  by_cases h : key = k
  · simp [h]
  · simp [beq_eq_false_iff_ne.2 h, h]

private theorem lookup_insertEntry (k : String) (v : α) (es : List (String × α)) (key : String) :
    (insertEntry k v es).lookup key = if key = k then some v else es.lookup key := by
  induction es with
  | nil => rw [insertEntry, lookup_cons_eq]
  | cons e es ih =>
    obtain ⟨k', v'⟩ := e
    unfold insertEntry
    by_cases hlt : k < k'
    · rw [if_pos hlt, lookup_cons_eq]
    · rw [if_neg hlt]
      by_cases hgt : k' < k
      · rw [if_pos hgt, lookup_cons_eq, lookup_cons_eq, ih]
        by_cases h : key = k'
        · have hne : k' ≠ k := by
            rintro rfl
            exact String.lt_irrefl _ hgt
          simp [h, hne]
        · simp [h]
      · have heq : k' = k := String.le_antisymm (String.not_lt.1 hlt) (String.not_lt.1 hgt)
        rw [if_neg hgt, heq, lookup_cons_eq, lookup_cons_eq]
        by_cases h : key = k <;> simp [h]

@[simp] theorem get?_empty (key : String) : (Dict.empty : Dict α).get? key = none := rfl

theorem get?_insert (d : Dict α) (k : String) (v : α) (key : String) :
    (d.insert k v).get? key = if key = k then some v else d.get? key :=
  lookup_insertEntry k v d.entries key

@[simp] theorem get?_insert_self (d : Dict α) (k : String) (v : α) :
    (d.insert k v).get? k = some v := by simp [get?_insert]

theorem get?_insert_of_ne (d : Dict α) {k key : String} (v : α) (h : key ≠ k) :
    (d.insert k v).get? key = d.get? key := by simp [get?_insert, h]

private theorem lookup_filter (p : String → α → Bool) (es : List (String × α)) (key : String)
    (hes : Sorted es) :
    (es.filter fun e => p e.1 e.2).lookup key = (es.lookup key).filter (p key) := by
  induction es with
  | nil => rfl
  | cons e es ih =>
    obtain ⟨hlt, hes⟩ := List.pairwise_cons.1 hes
    have hrest : key = e.1 → es.lookup key = none := by
      rintro rfl
      refine List.lookup_eq_none_iff.2 fun x hx => ?_
      simpa using fun h : e.1 = x.1 => String.lt_irrefl _ (h ▸ hlt x hx)
    rw [List.filter_cons, lookup_cons_eq]
    by_cases h : key = e.1
    · subst h
      cases hp : p e.1 e.2
      · simp [Option.filter, hp, ih hes, hrest rfl]
      · simp [Option.filter, hp, lookup_cons_eq]
    · cases hp : p e.1 e.2 <;> simp [lookup_cons_eq, h, ih hes]

theorem get?_filter (d : Dict α) (p : String → α → Bool) (key : String) :
    (d.filter p).get? key = (d.get? key).filter (p key) :=
  lookup_filter p d.entries key d.sorted

/-- Of what one test lets through, a weaker one takes nothing away. -/
theorem filter_filter_of_imp {d : Dict α} {p q : String → α → Bool}
    (h : ∀ k v, p k v = true → q k v = true) : (d.filter p).filter q = d.filter p := by
  apply ext
  change ((d.entries.filter _).filter _) = d.entries.filter _
  exact List.filter_eq_self.2 fun x hx => h _ _ (List.mem_filter.1 hx).2

theorem get?_erase (d : Dict α) (k key : String) :
    (d.erase k).get? key = if key = k then none else d.get? key := by
  rw [erase, get?_filter]
  by_cases h : key = k
  · cases hd : d.get? key <;> simp [h]
  · cases hd : d.get? key <;> simp [h]

private theorem lookup_map (es : List (String × α)) (f : String → α → β) (key : String) :
    (es.map fun e => (e.1, f e.1 e.2)).lookup key = (es.lookup key).map (f key) := by
  induction es with
  | nil => rfl
  | cons e es ih =>
    rw [List.map_cons, lookup_cons_eq, lookup_cons_eq, ih]
    by_cases h : key = e.1 <;> simp [h]

theorem get?_map (d : Dict α) (f : α → β) (key : String) :
    (d.map f).get? key = (d.get? key).map f :=
  lookup_map d.entries (fun _ => f) key

/-! ### Entries -/

theorem nodup_keys (d : Dict α) : d.keys.Nodup := by
  refine List.pairwise_map.2 (d.sorted.imp fun hlt heq => ?_)
  exact String.lt_irrefl _ (heq ▸ hlt)

private theorem lookup_eq_some_iff {es : List (String × α)} (hes : (es.map Prod.fst).Nodup)
    {k : String} {v : α} : es.lookup k = some v ↔ (k, v) ∈ es := by
  induction es with
  | nil => simp
  | cons e es ih =>
    obtain ⟨hnew, hes⟩ := List.nodup_cons.1 hes
    rw [lookup_cons_eq, List.mem_cons]
    by_cases h : k = e.1
    · subst h
      have hout : (e.1, v) ∉ es := fun hmem => hnew (List.mem_map.2 ⟨_, hmem, rfl⟩)
      simp [hout, Prod.ext_iff, eq_comm]
    · simp [h, ih hes, Prod.ext_iff]

theorem get?_eq_some_iff {d : Dict α} {k : String} {v : α} :
    d.get? k = some v ↔ (k, v) ∈ d.entries := by
  exact lookup_eq_some_iff d.nodup_keys

theorem mem_keys_iff {d : Dict α} {k : String} : k ∈ d.keys ↔ (d.get? k).isSome := by
  rw [keys, List.mem_map, Option.isSome_iff_exists]
  constructor
  · rintro ⟨⟨k', v⟩, hmem, rfl⟩
    exact ⟨v, get?_eq_some_iff.2 hmem⟩
  · rintro ⟨v, hv⟩
    exact ⟨(k, v), get?_eq_some_iff.1 hv, rfl⟩

theorem mem_values_iff {d : Dict α} {v : α} : v ∈ d.values ↔ ∃ k, d.get? k = some v := by
  simp [values, get?_eq_some_iff]

theorem isEmpty_iff {d : Dict α} : d.isEmpty = true ↔ ∀ k, d.get? k = none := by
  constructor
  · intro h k
    have hnil : d.entries = [] := List.isEmpty_iff.1 h
    rw [get?, hnil]
    rfl
  · intro h
    rw [isEmpty, List.isEmpty_iff]
    refine List.eq_nil_iff_forall_not_mem.2 fun e he => ?_
    have hsome := get?_eq_some_iff.2 (show (e.1, e.2) ∈ d.entries from he)
    rw [h] at hsome
    cases hsome

theorem isEmpty_insert (d : Dict α) (k : String) (v : α) : (d.insert k v).isEmpty = false := by
  refine Bool.eq_false_iff.2 fun hempty => ?_
  have hnone := isEmpty_iff.1 hempty k
  rw [get?_insert_self] at hnone
  cases hnone

/-- Dictionaries with the same look-ups are equal: the order of the keys fixes the entries. -/
theorem ext_get? {d e : Dict α} (h : ∀ k, d.get? k = e.get? k) : d = e := by
  have hnodup (d : Dict α) : d.entries.Nodup := List.Nodup.of_map _ d.nodup_keys
  have hmem : ∀ x, x ∈ d.entries ↔ x ∈ e.entries := by
    rintro ⟨k, v⟩
    rw [← get?_eq_some_iff, ← get?_eq_some_iff, h]
  have hperm := (List.perm_ext_iff_of_nodup (hnodup d) (hnodup e)).2 hmem
  refine Dict.ext (hperm.eq_of_pairwise (fun a b _ _ hab hba => ?_) d.sorted e.sorted)
  exact absurd (String.lt_trans hab hba) (String.lt_irrefl _)

/-- The values replaced by what `f` makes of them and their keys. -/
def mapKeyed (d : Dict α) (f : String → α → β) : Dict β :=
  ⟨d.entries.map fun e => (e.1, f e.1 e.2), by
    have h := d.sorted
    unfold Sorted at h ⊢
    exact List.pairwise_map.2 h⟩

theorem get?_mapKeyed (d : Dict α) (f : String → α → β) (key : String) :
    (d.mapKeyed f).get? key = (d.get? key).map (f key) :=
  lookup_map d.entries f key

/-! ### Several entries at once -/

private theorem get?_foldl_insert (es : List (String × α)) (d : Dict α) (key : String) :
    (es.foldl (fun acc x => acc.insert x.1 x.2) d).get? key
      = (es.reverse.lookup key).or (d.get? key) := by
  induction es generalizing d with
  | nil => rfl
  | cons e es ih =>
    rw [List.foldl_cons, ih, get?_insert, List.reverse_cons, List.lookup_append]
    rw [Option.or_assoc]
    congr 1
    rw [lookup_cons_eq]
    by_cases h : key = e.1 <;> simp [h]

theorem get?_ofList (es : List (String × α)) (key : String) :
    (ofList es).get? key = es.reverse.lookup key := by
  rw [ofList, get?_foldl_insert]
  simp

/-- Where no key is repeated, the entries are what can be looked up. -/
theorem get?_ofList_eq_some_iff {es : List (String × α)} (hes : (es.map Prod.fst).Nodup)
    {k : String} {v : α} : (ofList es).get? k = some v ↔ (k, v) ∈ es := by
  have hreverse : (es.reverse.map Prod.fst).Nodup := by
    rw [List.map_reverse]
    exact List.nodup_reverse.2 hes
  rw [get?_ofList, lookup_eq_some_iff hreverse, List.mem_reverse]

/-- Where no key is repeated, every entry can be looked up. -/
theorem get?_ofList_of_mem {es : List (String × α)} (hes : (es.map Prod.fst).Nodup) {k : String}
    {v : α} (h : (k, v) ∈ es) : (ofList es).get? k = some v :=
  (get?_ofList_eq_some_iff hes).2 h

/-- The entries of a dictionary under new keys, some of them left out: where no two keys become one,
the ones that stay can be looked up. -/
theorem get?_ofList_filterMap {d : Dict α} {f : String × α → Option (String × β)}
    (hf : ∀ x y k v w, f x = some (k, v) → f y = some (k, w) → x.1 = y.1) {k : String} {v : β} :
    (ofList (d.entries.filterMap f)).get? k = some v ↔ ∃ x ∈ d.entries, f x = some (k, v) := by
  have hnodup : ((d.entries.filterMap f).map Prod.fst).Nodup := by
    refine List.pairwise_map.2 (List.pairwise_filterMap.2 (d.sorted.imp ?_))
    rintro x y hlt ⟨k, v⟩ hx ⟨k', w⟩ hy rfl
    exact String.lt_irrefl _ (hf x y k v w hx hy ▸ hlt)
  rw [get?_ofList_eq_some_iff hnodup, List.mem_filterMap]

theorem get?_extend (d e : Dict α) (key : String) :
    (d.extend e).get? key = (e.get? key).or (d.get? key) := by
  rw [extend, get?_foldl_insert]
  congr 1
  have hkeys : (e.entries.reverse.map Prod.fst).Nodup := by
    rw [List.map_reverse]
    exact List.nodup_reverse.2 e.nodup_keys
  refine Option.ext fun v => ?_
  rw [lookup_eq_some_iff hkeys, List.mem_reverse, get?_eq_some_iff]

theorem erase_of_get?_eq_none {d : Dict α} {k : String} (h : d.get? k = none) : d.erase k = d := by
  refine ext_get? fun key => ?_
  rw [get?_erase]
  split
  · next hkey => rw [hkey, h]
  · rfl

/-- Taking away what is not there changes nothing. -/
theorem foldl_erase_of_get?_eq_none {d : Dict α} {ks : List String}
    (h : ∀ k ∈ ks, d.get? k = none) : ks.foldl erase d = d := by
  induction ks with
  | nil => rfl
  | cons k ks ih =>
    rw [List.foldl_cons, erase_of_get?_eq_none (h k List.mem_cons_self)]
    exact ih fun k' hk' => h k' (List.mem_cons_of_mem _ hk')

/-- Putting the entries of a dictionary into an empty one, in order, gives it back. -/
theorem foldl_insert_entries (d : Dict α) :
    d.entries.foldl (fun acc x => acc.insert x.1 x.2) Dict.empty = d := by
  refine ext_get? fun k => ?_
  have h := get?_extend Dict.empty d k
  rw [extend] at h
  rw [h]
  simp

end Dict

end DesignSync

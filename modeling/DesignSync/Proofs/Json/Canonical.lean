import DesignSync.Proofs.Dict
import DesignSync.Proofs.Json.Parts

/-!
Canonical values: they are their own canonical form, they hold nothing unfit, and every value that
has a canonical form has one that is canonical.
-/

namespace DesignSync.Json

/-- Whether a value is its own canonical form. -/
def IsCanonical (j : Json) : Prop := canonical? j = some j

/-! ### Lists -/

section

variable {α β : Type} {f : α → Option β} {xs : List α}

theorem mapM_of_forall {g : α → β} (h : ∀ x ∈ xs, f x = some (g x)) :
    xs.mapM f = some (xs.map g) := by
  induction xs with
  | nil => rfl
  | cons x xs ih =>
    obtain ⟨hx, hxs⟩ := List.forall_mem_cons.1 h
    simp [hx, ih hxs]

/-- Where a function has values on a whole list, it has one on each element, and these are all. -/
theorem exists_of_mapM {ys : List β} (h : xs.mapM f = some ys) :
    (∀ x ∈ xs, ∃ y ∈ ys, f x = some y) ∧ ∀ y ∈ ys, ∃ x ∈ xs, f x = some y := by
  induction xs generalizing ys with
  | nil =>
    cases h
    exact ⟨nofun, nofun⟩
  | cons x xs ih =>
    simp only [List.mapM_cons, Option.bind_eq_bind, Option.bind_eq_some_iff] at h
    obtain ⟨y, hy, zs, hzs, h⟩ := h
    cases h
    obtain ⟨hall, hfrom⟩ := ih hzs
    constructor
    · intro a ha
      rcases List.mem_cons.1 ha with rfl | ha
      · exact ⟨y, List.mem_cons_self, hy⟩
      · obtain ⟨z, hz, heq⟩ := hall a ha
        exact ⟨z, List.mem_cons_of_mem _ hz, heq⟩
    · intro z hz
      rcases List.mem_cons.1 hz with rfl | hz
      · exact ⟨x, List.mem_cons_self, hy⟩
      · obtain ⟨a, ha, heq⟩ := hfrom z hz
        exact ⟨a, List.mem_cons_of_mem _ ha, heq⟩

end

theorem canonicalItems?_eq (items : List Json) : canonicalItems? items = items.mapM canonical? := by
  induction items with
  | nil => rfl
  | cons j js ih => rw [canonicalItems?, ih, List.mapM_cons]

theorem canonicalMembers?_eq (members : List (String × Json)) :
    canonicalMembers? members = members.mapM fun m => (canonical? m.2).map (m.1, ·) := by
  induction members with
  | nil => rfl
  | cons m ms ih =>
    rw [canonicalMembers?, ih, List.mapM_cons]
    cases canonical? m.2 <;> rfl

/-! ### Values -/

/-- The entries of a dictionary of members are members. -/
theorem mem_of_mem_ofList {α : Type} {es : List (String × α)} {e : String × α}
    (h : e ∈ (Dict.ofList es).entries) : e ∈ es := by
  have hget : (Dict.ofList es).get? e.1 = some e.2 := Dict.get?_eq_some_iff.2 h
  rw [Dict.get?_ofList] at hget
  obtain ⟨front, behind, heq, -⟩ := List.lookup_eq_some_iff.1 hget
  rw [← List.mem_reverse, heq]
  exact List.mem_append_right _ List.mem_cons_self

/-- A canonical form is canonical. -/
theorem isCanonical_of_canonical? {j k : Json} (h : canonical? j = some k) : k.IsCanonical := by
  induction j using Json.induct generalizing k with
  | scalar j hj =>
    cases j with
    | array items => exact absurd rfl (hj.1 items)
    | object members => exact absurd rfl (hj.2 members)
    | unfit => cases h
    | _ =>
      cases h
      rfl
  | array items ih =>
    obtain ⟨forms, hforms, rfl⟩ := Option.map_eq_some_iff.1 h
    rw [canonicalItems?_eq] at hforms
    have hall : forms.mapM canonical? = some (forms.map id) := by
      refine mapM_of_forall fun k hk => ?_
      obtain ⟨j, hj, heq⟩ := (exists_of_mapM hforms).2 k hk
      exact ih j hj heq
    rw [IsCanonical, canonical?, canonicalItems?_eq, hall, List.map_id]
    rfl
  | object members ih =>
    obtain ⟨forms, hforms, rfl⟩ := Option.map_eq_some_iff.1 h
    rw [canonicalMembers?_eq] at hforms
    have hall : (Dict.ofList forms).entries.mapM (fun m => (canonical? m.2).map (m.1, ·)) =
        some ((Dict.ofList forms).entries.map id) := by
      refine mapM_of_forall fun f hf => ?_
      obtain ⟨m, hm, heq⟩ := (exists_of_mapM hforms).2 f (mem_of_mem_ofList hf)
      obtain ⟨k, hk, rfl⟩ := Option.map_eq_some_iff.1 heq
      have hcanonical : canonical? k = some k := ih m hm hk
      rw [hcanonical]
      rfl
    rw [IsCanonical, canonical?, canonicalMembers?_eq, hall, List.map_id]
    exact congrArg (fun d : Dict Json => some (object d.entries))
      (Dict.foldl_insert_entries (Dict.ofList forms))

/-! ### Fit values -/

/-- Whether a value has nothing unfit in it. -/
def Fit (j : Json) : Prop := unfit ∉ j.scalars

theorem IsScalar.fit_iff {j : Json} (h : IsScalar j) : j.Fit ↔ j ≠ unfit := by
  rw [Fit, h.scalars_eq, List.mem_singleton, ne_eq, eq_comm]

@[simp] theorem fit_string (s : String) : (string s).Fit := by
  simp [Fit, scalars]

@[simp] theorem fit_float (x : Binary64) : (float x).Fit := by
  simp [Fit, scalars]

@[simp] theorem fit_bool (b : Bool) : (bool b).Fit := by
  simp [Fit, scalars]

@[simp] theorem fit_array {items : List Json} : (array items).Fit ↔ ∀ j ∈ items, j.Fit := by
  simp [Fit]

@[simp] theorem fit_object {members : List (String × Json)} :
    (object members).Fit ↔ ∀ m ∈ members, m.2.Fit := by
  simp [Fit]

/-- What has a canonical form is fit. -/
theorem fit_of_canonical? {j k : Json} (h : canonical? j = some k) : j.Fit := by
  induction j using Json.induct generalizing k with
  | scalar j hj =>
    refine hj.fit_iff.2 ?_
    rintro rfl
    cases h
  | array items ih =>
    obtain ⟨forms, hforms, rfl⟩ := Option.map_eq_some_iff.1 h
    rw [canonicalItems?_eq] at hforms
    refine fit_array.2 fun j hj => ?_
    obtain ⟨k, -, hk⟩ := (exists_of_mapM hforms).1 j hj
    exact ih j hj hk
  | object members ih =>
    obtain ⟨forms, hforms, rfl⟩ := Option.map_eq_some_iff.1 h
    rw [canonicalMembers?_eq] at hforms
    refine fit_object.2 fun m hm => ?_
    obtain ⟨f, -, hf⟩ := (exists_of_mapM hforms).1 m hm
    obtain ⟨k, hk, -⟩ := Option.map_eq_some_iff.1 hf
    exact ih m hm hk

end DesignSync.Json

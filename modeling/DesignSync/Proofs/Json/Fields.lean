import DesignSync.Json.Record
import DesignSync.Proofs.Json.Canonical

/-!
Records with fields that may be absent: an object of those that are present is a record of them, in
which each field has its value and no other has one.
-/

namespace DesignSync.Json

variable {α : Type}

/-- The members of an object for fields, as far as they have values. -/
def present (fields : List (String × Option Json)) : List (String × Json) :=
  fields.filterMap fun f => f.2.map (f.1, ·)

@[simp] theorem present_nil : present [] = [] := rfl

@[simp] theorem present_some (name : String) (j : Json) (fields : List (String × Option Json)) :
    present ((name, some j) :: fields) = (name, j) :: present fields := rfl

@[simp] theorem present_map (name : String) (encode : α → Json) (x : Option α)
    (fields : List (String × Option Json)) :
    present ((name, x.map encode) :: fields) = member? name encode x ++ present fields := by
  cases x <;> rfl

theorem mem_present {fields : List (String × Option Json)} {m : String × Json} :
    m ∈ present fields ↔ (m.1, some m.2) ∈ fields := by
  simp only [present, List.mem_filterMap, Option.map_eq_some_iff, Prod.exists]
  constructor
  · rintro ⟨name, value, hmem, j, hj, rfl⟩
    exact hj ▸ hmem
  · intro h
    exact ⟨m.1, some m.2, h, m.2, rfl, rfl⟩

theorem sublist_present (fields : List (String × Option Json)) :
    ((present fields).map Prod.fst).Sublist (fields.map Prod.fst) := by
  induction fields with
  | nil => exact .slnil
  | cons f fs ih =>
    obtain ⟨name, value⟩ := f
    cases value with
    | none => exact .cons name ih
    | some j => exact .cons_cons name ih

theorem lookup_present {fields : List (String × Option Json)} (hnodup : (fields.map Prod.fst).Nodup)
    (name : String) : (present fields).lookup name = (fields.lookup name).join := by
  induction fields with
  | nil => rfl
  | cons f fs ih =>
    obtain ⟨key, value⟩ := f
    obtain ⟨hnew, hfs⟩ := List.nodup_cons.1 hnodup
    have ih := ih hfs
    by_cases hname : name = key
    · subst hname
      have hnone : (present fs).lookup name = none := by
        refine List.lookup_eq_none_iff.2 fun m hm => ?_
        have hother : name ≠ m.1 := by
          rintro rfl
          exact hnew (List.mem_map.2 ⟨_, mem_present.1 hm, rfl⟩)
        simpa using hother
      cases value with
      | none =>
        change (present fs).lookup name = _
        rw [hnone]
        simp
      | some j =>
        change ((name, j) :: present fs).lookup name = _
        simp
    · have hne : (name == key) = false := beq_eq_false_iff_ne.2 hname
      cases value with
      | none =>
        change (present fs).lookup name = _
        simp [List.lookup_cons, hne, ih]
      | some j =>
        change ((key, j) :: present fs).lookup name = _
        simp [List.lookup_cons, hne, ih]

/-- An object of known fields is a record in which each field has its value. -/
theorem exists_record (j : Json) (names : List String) (fields : List (String × Option Json))
    (hj : j = object (present fields)) (hnames : fields.map Prod.fst = names)
    (hnodup : names.Nodup) : ∃ r, record? names j = some r ∧
      ∀ name value, fields.lookup name = some value → r.get? name = value := by
  subst hj hnames
  have hall : (present fields).filter (fun m => (fields.map Prod.fst).contains m.1) =
      present fields := by
    refine List.filter_eq_self.2 fun m hm => List.contains_iff_mem.2 ?_
    exact List.mem_map.2 ⟨_, mem_present.1 hm, rfl⟩
  have hkeys : ((present fields).map Prod.fst).Nodup := (sublist_present fields).nodup hnodup
  refine ⟨⟨false, present fields⟩, ?_, fun name value h => ?_⟩
  · simp only [record?, ofMembers?, hall, hkeys, if_true]
  · rw [Record.get?, lookup_present hnodup, h]
    rfl

/-- What a record of members has under a name is one of the members. -/
theorem mem_of_get?_ofMembers? {names : List String} {members : List (String × Json)} {r : Record}
    {name : String} {j : Json} (hr : ofMembers? names members = some r)
    (hget : r.get? name = some j) : (name, j) ∈ members := by
  rw [ofMembers?] at hr
  split at hr
  · cases hr
    obtain ⟨front, behind, hsplit, -⟩ := List.lookup_eq_some_iff.1 hget
    have hmem := hsplit ▸ List.mem_append_right front List.mem_cons_self
    exact (List.mem_filter.1 hmem).1
  · cases hr

namespace Record

variable {r : Record} {name : String} {decode : Json → Option α} {j : Json} {x : α}

theorem required_of_some (hget : r.get? name = some j) (h : decode j = some x) :
    r.required name decode = some x := by
  rw [required, hget]
  exact h

theorem withDefault_of_get (hget : r.get? name = some j) (default : α) :
    r.withDefault name default decode = decode j := by
  rw [withDefault, hget]

theorem withDefault_of_some (hget : r.get? name = some j) (h : decode j = some x) (default : α) :
    r.withDefault name default decode = some x :=
  (withDefault_of_get hget default).trans h

/-- An optional field that is written only when there is a value. -/
theorem optional_of_map {encode : α → Json} {value : Option α}
    (hget : r.get? name = value.map encode) (hnull : ∀ x, encode x ≠ .null)
    (h : ∀ x, value = some x → decode (encode x) = some x) :
    r.optional name decode = some value := by
  rw [optional, withDefault, hget]
  cases value with
  | none => rfl
  | some x =>
    have hx := h x rfl
    rw [Option.map_some]
    dsimp only
    cases hj : encode x with
    | null => exact absurd hj (hnull x)
    | _ =>
      rw [hj] at hx
      exact congrArg (Option.map some) hx

theorem exists_of_required (h : r.required name decode = some x) : ∃ j, decode j = some x := by
  obtain ⟨j, -, hj⟩ := Option.bind_eq_some_iff.1 h
  exact ⟨j, hj⟩

theorem exists_of_withDefault {default : α} (h : r.withDefault name default decode = some x) :
    x = default ∨ ∃ j, decode j = some x := by
  rw [withDefault] at h
  split at h
  · next j _ => exact .inr ⟨j, h⟩
  · exact .inl (Option.some.inj h).symm

theorem exists_of_optional (h : r.optional name decode = some (some x)) :
    ∃ j, decode j = some x := by
  obtain heq | ⟨j, hj⟩ := exists_of_withDefault h
  · cases heq
  · cases j with
    | null => cases hj
    | _ =>
      obtain ⟨y, hy, heq⟩ := Option.map_eq_some_iff.1 hj
      obtain rfl := Option.some.inj heq
      exact ⟨_, hy⟩

end Record

/-! ### Lists and dictionaries -/

theorem list?_map {decode : Json → Option α} {encode : α → Json} {xs : List α}
    (h : ∀ x ∈ xs, decode (encode x) = some x) : list? decode (array (xs.map encode)) = some xs := by
  change (xs.map encode).mapM decode = some xs
  rw [List.mapM_map]
  have hall := mapM_of_forall (g := id) h
  rw [List.map_id] at hall
  exact hall

theorem exists_of_list? {decode : Json → Option α} {j : Json} {xs : List α}
    (h : list? decode j = some xs) : ∀ x ∈ xs, ∃ j, decode j = some x := by
  intro x hx
  cases j with
  | array items =>
    obtain ⟨j, -, hj⟩ := (exists_of_mapM h).2 x hx
    exact ⟨j, hj⟩
  | _ => cases h

/-- A list that is empty if its field is missing has only what was decoded. -/
theorem Record.exists_of_list {r : Record} {name : String} {decode : Json → Option α} {xs : List α}
    (h : r.withDefault name [] (list? decode) = some xs) : ∀ x ∈ xs, ∃ j, decode j = some x := by
  intro x hx
  obtain rfl | ⟨j, hj⟩ := exists_of_withDefault h
  · cases hx
  · exact exists_of_list? hj x hx

theorem dict?_ofDict {decode : Json → Option α} {encode : α → Json} {d : Dict α}
    (h : ∀ x, decode (encode x) = some x) : dict? decode (ofDict encode d) = some d := by
  have hall : d.entries.mapM (fun e => (decode (encode e.2)).bind fun x => some (e.1, x)) =
      some (d.entries.map id) := mapM_of_forall fun e _ => by
    rw [h]
    rfl
  rw [List.map_id] at hall
  change ((d.entries.map fun e => (e.1, encode e.2)).mapM
      (fun m => (decode m.2).bind fun x => some (m.1, x))).bind (fun es => some (Dict.ofList es)) = _
  rw [List.mapM_map]
  change (d.entries.mapM fun e => (decode (encode e.2)).bind fun x => some (e.1, x)).bind _ = _
  rw [hall]
  exact congrArg some d.foldl_insert_entries

/-- The entries of a decoded dictionary are decoded from members with their keys. -/
theorem exists_of_dict? {decode : Json → Option α} {members : List (String × Json)} {d : Dict α}
    (h : dict? decode (object members) = some d) :
    ∀ e ∈ d.entries, ∃ m ∈ members, m.1 = e.1 ∧ decode m.2 = some e.2 := by
  obtain ⟨es, hes, heq⟩ := Option.bind_eq_some_iff.1 h
  cases heq
  intro e he
  obtain ⟨m, hm, heq⟩ := (exists_of_mapM hes).2 e (mem_of_mem_ofList he)
  obtain ⟨x, hx, heq⟩ := Option.bind_eq_some_iff.1 heq
  cases heq
  exact ⟨m, hm, rfl, hx⟩

/-! ### Fit values -/

@[simp] theorem forall_mem_member? {name : String} {encode : α → Json} {x : Option α}
    {P : String × Json → Prop} :
    (∀ m ∈ member? name encode x, P m) ↔ ∀ v, x = some v → P (name, encode v) := by
  cases x <;> simp [member?]

@[simp] theorem fit_ofDict {encode : α → Json} {d : Dict α} :
    (ofDict encode d).Fit ↔ ∀ e ∈ d.entries, (encode e.2).Fit := by
  rw [ofDict, fit_object, List.forall_mem_map]

end DesignSync.Json

import DesignSync.Json.Reader
import DesignSync.Proofs.Json.Fields
import DesignSync.Proofs.Json.Figures

/-!
What is read from a text: values that are nested no deeper than the reader goes, with integers of the
64-bit ranges only. Canonical forms of such values are such values again, and the fields of a record
are nested one level less deep.
-/

namespace DesignSync.Json

/-- Whether a value is nested at most so deep and its integers are of the 64-bit ranges. -/
structure Within (depth : Nat) (j : Json) : Prop where
  nesting : j.nesting ≤ depth
  integers : ∀ n, integer n ∈ j.scalars → InRange n

/-! ### Parts -/

theorem IsScalar.nesting_eq {j : Json} (h : IsScalar j) : j.nesting = 0 := by
  cases j with
  | array items => exact absurd rfl (h.1 items)
  | object members => exact absurd rfl (h.2 members)
  | _ => rfl

theorem IsScalar.within_iff {j : Json} (h : IsScalar j) {depth : Nat} :
    j.Within depth ↔ ∀ n, j = integer n → InRange n := by
  constructor
  · intro hj n hn
    apply hj.integers n
    rw [h.scalars_eq, hn]
    exact List.mem_singleton_self _
  · intro hn
    refine ⟨by rw [h.nesting_eq]; exact Nat.zero_le _, fun n hmem => hn n ?_⟩
    rw [h.scalars_eq] at hmem
    exact (List.mem_singleton.1 hmem).symm

/-- What is neither an integer nor made of parts is within any depth. -/
theorem IsScalar.within {j : Json} (h : IsScalar j) (hinteger : ∀ n, j ≠ integer n) (depth : Nat) :
    j.Within depth :=
  h.within_iff.2 fun n hn => absurd hn (hinteger n)

@[simp] theorem within_string (s : String) (depth : Nat) : (string s).Within depth :=
  IsScalar.within (j := string s) ⟨nofun, nofun⟩ nofun depth

@[simp] theorem within_bool (b : Bool) (depth : Nat) : (bool b).Within depth :=
  IsScalar.within (j := bool b) ⟨nofun, nofun⟩ nofun depth

@[simp] theorem within_float (x : Binary64) (depth : Nat) : (float x).Within depth :=
  IsScalar.within (j := float x) ⟨nofun, nofun⟩ nofun depth

@[simp] theorem within_null (depth : Nat) : null.Within depth :=
  IsScalar.within (j := null) ⟨nofun, nofun⟩ nofun depth

@[simp] theorem within_unfit (depth : Nat) : unfit.Within depth :=
  IsScalar.within (j := unfit) ⟨nofun, nofun⟩ nofun depth

@[simp] theorem within_array {items : List Json} {depth : Nat} :
    (array items).Within (depth + 1) ↔ ∀ j ∈ items, j.Within depth := by
  constructor
  · intro h j hj
    refine ⟨itemNesting_le.1 (Nat.le_of_succ_le_succ h.nesting) j hj, fun n hn => h.integers n ?_⟩
    rw [scalars_array]
    exact List.mem_flatMap.2 ⟨j, hj, hn⟩
  · intro h
    refine ⟨Nat.succ_le_succ (itemNesting_le.2 fun j hj => (h j hj).nesting), fun n hn => ?_⟩
    rw [scalars_array] at hn
    obtain ⟨j, hj, hn⟩ := List.mem_flatMap.1 hn
    exact (h j hj).integers n hn

@[simp] theorem within_object {members : List (String × Json)} {depth : Nat} :
    (object members).Within (depth + 1) ↔ ∀ m ∈ members, m.2.Within depth := by
  constructor
  · intro h m hm
    refine ⟨memberNesting_le.1 (Nat.le_of_succ_le_succ h.nesting) m hm, fun n hn => h.integers n ?_⟩
    rw [scalars_object]
    exact List.mem_flatMap.2 ⟨m, hm, hn⟩
  · intro h
    refine ⟨Nat.succ_le_succ (memberNesting_le.2 fun m hm => (h m hm).nesting), fun n hn => ?_⟩
    rw [scalars_object] at hn
    obtain ⟨m, hm, hn⟩ := List.mem_flatMap.1 hn
    exact (h m hm).integers n hn

/-- Arrays and objects need a level of their own. -/
theorem Within.exists_succ {j : Json} {depth : Nat} (h : j.Within depth) (hj : ¬ IsScalar j) :
    ∃ rest, depth = rest + 1 := by
  have hnesting := h.nesting
  have hpos : 0 < j.nesting := by
    cases j with
    | array items => exact Nat.succ_pos _
    | object members => exact Nat.succ_pos _
    | _ => exact absurd ⟨nofun, nofun⟩ hj
  exact ⟨depth - 1, by omega⟩

theorem Within.mono {j : Json} {depth more : Nat} (h : j.Within depth) (hle : depth ≤ more) :
    j.Within more :=
  ⟨Nat.le_trans h.nesting hle, h.integers⟩

/-- The canonical form of a value has no more levels and no other integers. -/
theorem Within.canonical {j k : Json} {depth : Nat} (hj : j.Within depth)
    (h : canonical? j = some k) : k.Within depth := by
  induction j using Json.induct generalizing k depth with
  | scalar j hscalar =>
    cases j with
    | array items => exact absurd rfl (hscalar.1 items)
    | object members => exact absurd rfl (hscalar.2 members)
    | unfit => cases h
    | _ =>
      cases h
      exact hj
  | array items ih =>
    obtain ⟨below, rfl⟩ := hj.exists_succ fun hscalar => hscalar.1 items rfl
    obtain ⟨forms, hforms, rfl⟩ := Option.map_eq_some_iff.1 h
    rw [canonicalItems?_eq] at hforms
    refine within_array.2 fun k hk => ?_
    obtain ⟨i, hi, hik⟩ := (exists_of_mapM hforms).2 k hk
    exact ih i hi (within_array.1 hj i hi) hik
  | object members ih =>
    obtain ⟨below, rfl⟩ := hj.exists_succ fun hscalar => hscalar.2 members rfl
    obtain ⟨forms, hforms, rfl⟩ := Option.map_eq_some_iff.1 h
    rw [canonicalMembers?_eq] at hforms
    refine within_object.2 fun f hf => ?_
    obtain ⟨m, hm, heq⟩ := (exists_of_mapM hforms).2 f (mem_of_mem_ofList hf)
    obtain ⟨k, hk, rfl⟩ := Option.map_eq_some_iff.1 heq
    exact ih m hm (within_object.1 hj m hm) hk

@[simp] theorem within_ofDict {α : Type} {encode : α → Json} {d : Dict α} {depth : Nat} :
    (ofDict encode d).Within (depth + 1) ↔ ∀ e ∈ d.entries, (encode e.2).Within depth := by
  rw [ofDict, within_object, List.forall_mem_map]

/-! ### Records -/

/-- Whether all fields of a record are within a depth. -/
def Record.Within (depth : Nat) (r : Record) : Prop :=
  ∀ name j, r.get? name = some j → j.Within depth

theorem within_of_ofMembers? {names : List String} {members : List (String × Json)} {r : Record}
    {depth : Nat} (hr : ofMembers? names members = some r)
    (h : ∀ m ∈ members, m.2.Within depth) : r.Within depth :=
  fun _ _ hget => h _ (mem_of_get?_ofMembers? hr hget)

theorem within_of_record? {names : List String} {j : Json} {r : Record} {depth : Nat}
    (hr : record? names j = some r) (hj : j.Within depth) :
    ∃ below, depth = below + 1 ∧ r.Within below := by
  cases j with
  | object members =>
    obtain ⟨below, rfl⟩ := hj.exists_succ fun hscalar => hscalar.2 members rfl
    exact ⟨below, rfl, within_of_ofMembers? hr (within_object.1 hj)⟩
  | array items =>
    obtain ⟨below, rfl⟩ := hj.exists_succ fun hscalar => hscalar.1 items rfl
    rw [record?] at hr
    split at hr
    · cases hr
      refine ⟨below, rfl, fun name j hget => ?_⟩
      obtain ⟨front, behind, hsplit, -⟩ := List.lookup_eq_some_iff.1 hget
      have hfields : names.zip items = front ++ (name, j) :: behind := hsplit
      have hzip : (name, j) ∈ names.zip items := by
        rw [hfields]
        exact List.mem_append_right front List.mem_cons_self
      exact within_array.1 hj j (List.of_mem_zip hzip).2
    · cases hr
  | _ => cases hr

section

variable {α : Type} {r : Record} {name : String} {decode : Json → Option α} {x : α} {depth : Nat}

theorem Record.Within.required (hr : r.Within depth) (h : r.required name decode = some x) :
    ∃ j, j.Within depth ∧ decode j = some x := by
  obtain ⟨j, hget, hj⟩ := Option.bind_eq_some_iff.1 h
  exact ⟨j, hr name j hget, hj⟩

theorem Record.Within.withDefault (hr : r.Within depth) {default : α}
    (h : r.withDefault name default decode = some x) :
    x = default ∨ ∃ j, j.Within depth ∧ decode j = some x := by
  rw [Record.withDefault] at h
  split at h
  · next j hget => exact .inr ⟨j, hr name j hget, h⟩
  · exact .inl (Option.some.inj h).symm

theorem within_of_list? {j : Json} {xs : List α} (h : list? decode j = some xs)
    (hj : j.Within (depth + 1)) : ∀ x ∈ xs, ∃ k, k.Within depth ∧ decode k = some x := by
  cases j with
  | array items =>
    intro x hx
    obtain ⟨k, hk, hkx⟩ := (exists_of_mapM h).2 x hx
    exact ⟨k, within_array.1 hj k hk, hkx⟩
  | _ => cases h

/-- The items of a field that may be absent. -/
theorem Record.Within.list (hr : r.Within (depth + 1)) {xs : List α}
    (h : r.withDefault name [] (list? decode) = some xs) :
    ∀ x ∈ xs, ∃ k, k.Within depth ∧ decode k = some x := by
  obtain rfl | ⟨j, hj, hlist⟩ := hr.withDefault h
  · exact nofun
  · exact within_of_list? hlist hj

end

/-! ### Numbers -/

theorem append_lt {n : Nat} (h : n < UInt64.size) (ds : List Char) :
    (append n ds).1 < UInt64.size := by
  induction ds generalizing n with
  | nil => exact h
  | cons d ds ih =>
    rw [append]
    split
    · next hnext => exact ih hnext
    · exact h

theorem within_ofWhole (negative : Bool) {n : Nat} (h : n < UInt64.size) (depth : Nat) :
    (ofWhole negative n).Within depth := by
  have hinteger {m : Int} (hm : InRange m) : (integer m).Within depth := by
    have hscalar : IsScalar (integer m) := ⟨nofun, nofun⟩
    refine hscalar.within_iff.2 fun k hk => ?_
    cases hk
    exact hm
  unfold ofWhole
  split
  · split
    · exact within_float _ depth
    · exact hinteger ⟨by omega, by omega⟩
  · exact hinteger ⟨by omega, by omega⟩

theorem Figures.within_value (f : Figures) (depth : Nat) : (f.value?.getD unfit).Within depth := by
  have hn : (append 0 f.whole).1 < UInt64.size := append_lt (by decide) f.whole
  rw [Figures.value?]
  dsimp only
  split
  · exact within_ofWhole f.negative hn depth
  · cases scaled? _ _ with
    | none => exact within_unfit depth
    | some x => exact within_float _ depth

theorem within_of_readNumber {cs rest : List Char} {j : Json} (h : readNumber cs = some (j, rest))
    (depth : Nat) : j.Within depth := by
  obtain ⟨⟨f, behind⟩, -, heq⟩ := Option.map_eq_some_iff.1 h
  obtain ⟨rfl, -⟩ := Prod.mk.inj heq
  exact f.within_value depth

/-! ### Values -/

section

variable {α : Type} {item : List Char → Option (α × List Char)} {close : Char} {limit : Nat}
  {cs rest : List Char} {xs : List α}

theorem exists_of_readList (h : readList item close limit cs = some (xs, rest)) :
    ∀ x ∈ xs, ∃ front behind, item front = some (x, behind) := by
  induction limit generalizing cs xs rest with
  | zero => cases h
  | succ limit ih =>
    rw [readList] at h
    split at h
    · cases h
    · next x behind hitem =>
      split at h
      · split at h
        · cases h
          intro y hy
          rw [List.mem_singleton.1 hy]
          exact ⟨cs, behind, hitem⟩
        · split at h
          · obtain ⟨⟨ys, tail⟩, hys, heq⟩ := Option.map_eq_some_iff.1 h
            obtain ⟨rfl, -⟩ := Prod.mk.inj heq
            intro y hy
            rcases List.mem_cons.1 hy with rfl | hy
            · exact ⟨cs, behind, hitem⟩
            · exact ih hys y hy
          · cases h
      · cases h

theorem exists_of_readSequence (h : readSequence item close limit cs = some (xs, rest)) :
    ∀ x ∈ xs, ∃ front behind, item front = some (x, behind) := by
  rw [readSequence] at h
  split at h
  · split at h
    · cases h
      exact fun _ hx => absurd hx List.not_mem_nil
    · exact exists_of_readList h
  · cases h

end

theorem exists_of_readMember {value : List Char → Option (Json × List Char)} {cs rest : List Char}
    {m : Option String × Json} (h : readMember value cs = some (m, rest)) :
    ∃ front behind, value front = some (m.2, behind) := by
  unfold readMember at h
  split at h
  · obtain ⟨⟨key, behind⟩, -, h⟩ := Option.bind_eq_some_iff.1 h
    dsimp only at h
    split at h
    · next front _ =>
      obtain ⟨⟨j, tail⟩, hvalue, h⟩ := Option.bind_eq_some_iff.1 h
      cases h
      exact ⟨front, tail, hvalue⟩
    · cases h
  · cases h

theorem within_ofRead {members : List (Option String × Json)} {depth : Nat}
    (h : ∀ m ∈ members, m.2.Within depth) : (ofRead members).Within (depth + 1) := by
  unfold ofRead
  split
  · next ms hms =>
    refine within_object.2 fun m hm => ?_
    obtain ⟨x, hx, heq⟩ := (exists_of_mapM hms).2 m hm
    obtain ⟨key, -, rfl⟩ := Option.map_eq_some_iff.1 heq
    exact h x hx
  · exact within_unfit _

/-- What is read is an array or object of values that are read one level less deep, or has no
levels. -/
theorem readValue_cases {limit depth : Nat} {cs rest : List Char} {j : Json}
    (h : readValue limit depth cs = some (j, rest)) :
    (∀ level, j.Within level) ∨
      (∃ below items front, depth = below + 1 ∧ j = array items ∧
        readSequence (readValue limit below) ']' limit front = some (items, rest)) ∨
      ∃ below members front, depth = below + 1 ∧ j = ofRead members ∧
        readSequence (readMember (readValue limit below)) '\x7d' limit front =
          some (members, rest) := by
  -- what is nested too deep is passed over and is unfit
  have hpassed {front : List Char} (hpass : passedOver front = some (j, rest)) (level : Nat) :
      j.Within level := by
    obtain ⟨p, -, heq⟩ := Option.map_eq_some_iff.1 hpass
    obtain ⟨rfl, -⟩ := Prod.mk.inj heq
    exact within_unfit level
  unfold readValue at h
  split at h
  · cases h
    exact .inl within_null
  · cases h
    exact .inl (within_bool true)
  · cases h
    exact .inl (within_bool false)
  · obtain ⟨⟨text, behind⟩, -, heq⟩ := Option.map_eq_some_iff.1 h
    obtain ⟨rfl, -⟩ := Prod.mk.inj heq
    cases text with
    | none => exact .inl within_unfit
    | some s => exact .inl (within_string s)
  · next front _ =>
    cases depth with
    | zero => exact .inl (hpassed h)
    | succ below =>
      obtain ⟨⟨items, behind⟩, hitems, heq⟩ := Option.map_eq_some_iff.1 h
      obtain ⟨rfl, rfl⟩ := Prod.mk.inj heq
      exact .inr (.inl ⟨below, items, front, rfl, rfl, hitems⟩)
  · next front _ =>
    cases depth with
    | zero => exact .inl (hpassed h)
    | succ below =>
      obtain ⟨⟨members, behind⟩, hmembers, heq⟩ := Option.map_eq_some_iff.1 h
      obtain ⟨rfl, rfl⟩ := Prod.mk.inj heq
      exact .inr (.inr ⟨below, members, front, rfl, rfl, hmembers⟩)
  · exact .inl (within_of_readNumber h)

/-- A value is nested no deeper than its reader goes. -/
theorem within_of_readValue {limit depth : Nat} {cs rest : List Char} {j : Json}
    (h : readValue limit depth cs = some (j, rest)) : j.Within depth := by
  induction depth generalizing cs rest j with
  | zero =>
    rcases readValue_cases h with hj | ⟨_, _, _, hdepth, -⟩ | ⟨_, _, _, hdepth, -⟩
    · exact hj 0
    · cases hdepth
    · cases hdepth
  | succ depth ih =>
    rcases readValue_cases h with hj | ⟨below, items, front, hdepth, rfl, hitems⟩ |
      ⟨below, members, front, hdepth, rfl, hmembers⟩
    · exact hj (depth + 1)
    · obtain rfl := Nat.succ.inj hdepth
      refine within_array.2 fun k hk => ?_
      obtain ⟨front', behind, hk⟩ := exists_of_readSequence hitems k hk
      exact ih hk
    · obtain rfl := Nat.succ.inj hdepth
      refine within_ofRead fun m hm => ?_
      obtain ⟨front', behind, hm⟩ := exists_of_readSequence hmembers m hm
      obtain ⟨inner, tail, hvalue⟩ := exists_of_readMember hm
      exact ih hvalue

/-- What is read from a text is nested no deeper than the reader goes. -/
theorem within_of_read {text : String} {j : Json} (h : read text = some j) : j.Within maxDepth := by
  unfold read at h
  dsimp only at h
  split at h
  · next k rest hread =>
    split at h
    · cases h
      exact within_of_readValue hread
    · cases h
  · cases h

end DesignSync.Json

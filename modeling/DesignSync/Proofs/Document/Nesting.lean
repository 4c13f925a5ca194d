import DesignSync.Proofs.Document.Decoding
import DesignSync.Proofs.Json.Reading

/-!
How deep the JSON forms of documents are nested. What was decoded has a form that is nested no deeper
than the value that it was decoded from, apart from the few levels that every document can have.
-/

namespace DesignSync

open Json

/-! ### Elements and patches -/

@[simp] theorem Binding.within_toJson (b : Binding) (depth : Nat) : b.toJson.Within (depth + 1) := by
  simp [toJson, or_imp, forall_and, -Prod.forall]

@[simp] theorem Literal.within_toJson (l : Literal) (depth : Nat) : l.toJson.Within depth := by
  cases l <;> simp [toJson]

@[simp] theorem Style.within_toJson (s : Style) (depth : Nat) : s.toJson.Within (depth + 3) := by
  rw [toJson, within_object, List.forall_mem_append, List.forall_mem_map]
  exact ⟨by simp [-Prod.forall], fun e _ => e.2.within_toJson _⟩

@[simp] theorem Content.within_toJson (c : Content) (depth : Nat) : c.toJson.Within (depth + 2) := by
  simp [toJson, or_imp, forall_and, -Prod.forall]

@[simp] theorem StateFlag.within_toJson (f : StateFlag) (depth : Nat) : f.toJson.Within depth := by
  cases f <;> simp [toJson]

@[simp] theorem Ownership.within_toJson (o : Ownership) (depth : Nat) :
    o.toJson.Within (depth + 1) := by
  simp [toJson]

theorem Element.within_toJson (e : Element) (depth : Nat) : e.toJson.Within (depth + 5) := by
  simp [toJson, Properties.toJson, or_imp, forall_and, -Prod.forall]

theorem ElementPatch.within_toJson (p : ElementPatch) (depth : Nat) : p.toJson.Within (depth + 5) := by
  simp [toJson, PropertiesPatch.toJson, or_imp, forall_and, -Prod.forall]

/-! ### Components and overrides -/

theorem PropValue.within_toJson {j : Json} {v : PropValue} (h : ofJson? j = some v) {depth : Nat}
    (hj : j.Within depth) : v.toJson.Within depth := by
  simp only [ofJson?, Option.bind_eq_bind, Option.bind_eq_some_iff] at h
  obtain ⟨r, hr, id, -, name, -, value, hvalue, isDefault, -, h⟩ := h
  cases h
  obtain ⟨below, rfl, hfields⟩ := within_of_record? hr hj
  obtain ⟨k, hk, hcanonical⟩ := hfields.required hvalue
  have hwithin : value.Within below := hk.canonical hcanonical
  simp [toJson, or_imp, forall_and, hwithin, -Prod.forall]

theorem ComponentProp.within_toJson {j : Json} {p : ComponentProp} (h : ofJson? j = some p)
    {depth : Nat} (hj : j.Within depth) (hdepth : 2 ≤ depth) : p.toJson.Within depth := by
  simp only [ofJson?, Option.bind_eq_bind, Option.bind_eq_some_iff] at h
  obtain ⟨r, hr, id, -, name, -, type, -, default, hdefault, values, hvalues, h⟩ := h
  cases h
  obtain ⟨below, rfl, hfields⟩ := within_of_record? hr hj
  have hdefaultWithin : default.Within below := by
    obtain rfl | ⟨k, hk, hcanonical⟩ := hfields.withDefault hdefault
    · exact within_null below
    · exact hk.canonical hcanonical
  obtain ⟨inner, rfl⟩ : ∃ inner, below = inner + 1 := ⟨below - 1, by omega⟩
  have hvaluesWithin : ∀ v ∈ values, v.toJson.Within inner := by
    intro v hv
    obtain ⟨k, hk, hdecoded⟩ := hfields.list hvalues v hv
    exact PropValue.within_toJson hdecoded hk
  simpa [toJson, hdefaultWithin] using hvaluesWithin

theorem Component.within_toJson {j : Json} {c : Component} (h : ofJson? j = some c) {depth : Nat}
    (hj : j.Within depth) (hdepth : 4 ≤ depth) : c.toJson.Within depth := by
  simp only [ofJson?, Option.bind_eq_bind, Option.bind_eq_some_iff] at h
  obtain ⟨r, hr, id, -, name, -, props, hprops, h⟩ := h
  cases h
  obtain ⟨below, rfl, hfields⟩ := within_of_record? hr hj
  obtain ⟨inner, rfl⟩ : ∃ inner, below = inner + 1 := ⟨below - 1, by omega⟩
  have hwithin : ∀ p ∈ props, p.toJson.Within inner := by
    intro p hp
    obtain ⟨k, hk, hdecoded⟩ := hfields.list hprops p hp
    exact ComponentProp.within_toJson hdecoded hk (by omega)
  simpa [toJson] using hwithin

theorem Override.within_member {members : List (String × Json)} {o : Override}
    (h : ofMembers? members = some o) {depth : Nat} (hmembers : ∀ m ∈ members, m.2.Within depth) :
    o.member.2.Within depth := by
  cases o with
  | named valueId => exact within_string valueId depth
  | direct value =>
    obtain ⟨m, hm, hcanonical⟩ := exists_of_direct h
    exact (hmembers m hm).canonical hcanonical

theorem InstanceOverride.within_toJson {j : Json} {o : InstanceOverride} (h : ofJson? j = some o)
    {depth : Nat} (hj : j.Within depth) : o.toJson.Within depth := by
  obtain ⟨members, rfl, hvalue⟩ := exists_of_ofJson? h
  obtain ⟨below, rfl⟩ := hj.exists_succ fun hscalar => hscalar.2 members rfl
  have hwithin := Override.within_member hvalue (within_object.1 hj)
  simpa [toJson] using hwithin

/-! ### Documents -/

theorem Snapshot.within_toJson {j : Json} {x : Snapshot} (h : ofJson? j = some x) {depth : Nat}
    (hj : j.Within depth) (hdepth : 7 ≤ depth) : x.toJson.Within depth := by
  simp only [ofJson?, Option.bind_eq_bind, Option.bind_eq_some_iff] at h
  obtain ⟨r, hr, elements, -, components, hcomponents, overrides, hoverrides, h⟩ := h
  cases h
  obtain ⟨below, rfl, hfields⟩ := within_of_record? hr hj
  obtain ⟨inner, rfl⟩ : ∃ inner, below = inner + 1 := ⟨below - 1, by omega⟩
  have helementsWithin : ∀ e ∈ elements, e.toJson.Within inner :=
    fun e _ => (e.within_toJson 0).mono (by omega)
  have hcomponentsWithin : ∀ c ∈ components, c.toJson.Within inner := by
    intro c hc
    obtain ⟨k, hk, hdecoded⟩ := hfields.list hcomponents c hc
    exact Component.within_toJson hdecoded hk (by omega)
  have hoverridesWithin : ∀ o ∈ overrides, o.toJson.Within inner := by
    intro o ho
    obtain ⟨k, hk, hdecoded⟩ := hfields.list hoverrides o ho
    exact InstanceOverride.within_toJson hdecoded hk
  simpa [toJson] using ⟨helementsWithin, hcomponentsWithin, hoverridesWithin⟩

end DesignSync

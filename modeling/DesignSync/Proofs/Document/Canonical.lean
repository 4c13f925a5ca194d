import DesignSync.Document.Encoding
import DesignSync.Proofs.Json.Fields

/-!
The JSON values that a document holds, in its components and overrides. What was decoded is
canonical, and a document of canonical values has a JSON form with nothing unfit in it.
-/

namespace DesignSync

open Json

/-! ### Canonical values -/

def PropValue.IsCanonical (v : PropValue) : Prop := v.value.IsCanonical

structure ComponentProp.IsCanonical (p : ComponentProp) : Prop where
  defaultValue : p.defaultValue.IsCanonical
  values : ∀ v ∈ p.values, v.IsCanonical

def Component.IsCanonical (c : Component) : Prop := ∀ p ∈ c.props, p.IsCanonical

def Override.IsCanonical : Override → Prop
  | direct value => value.IsCanonical
  | named _ => True

structure Snapshot.IsCanonical (x : Snapshot) : Prop where
  components : ∀ c ∈ x.components, c.IsCanonical
  overrides : ∀ o ∈ x.overrides, o.value.IsCanonical

/-! ### Decoded values -/

theorem PropValue.isCanonical_of_ofJson? {j : Json} {v : PropValue} (h : ofJson? j = some v) :
    v.IsCanonical := by
  simp only [ofJson?, Option.bind_eq_bind, Option.bind_eq_some_iff] at h
  obtain ⟨r, -, id, -, name, -, value, hvalue, isDefault, -, h⟩ := h
  cases h
  obtain ⟨k, hk⟩ := Record.exists_of_required hvalue
  exact isCanonical_of_canonical? hk

theorem ComponentProp.isCanonical_of_ofJson? {j : Json} {p : ComponentProp}
    (h : ofJson? j = some p) : p.IsCanonical := by
  simp only [ofJson?, Option.bind_eq_bind, Option.bind_eq_some_iff] at h
  obtain ⟨r, -, id, -, name, -, type, -, value, hvalue, values, hvalues, h⟩ := h
  cases h
  constructor
  · obtain rfl | ⟨k, hk⟩ := Record.exists_of_withDefault hvalue
    · rfl
    · exact isCanonical_of_canonical? hk
  · intro v hv
    obtain ⟨k, hk⟩ := Record.exists_of_list hvalues v hv
    exact PropValue.isCanonical_of_ofJson? hk

theorem Component.isCanonical_of_ofJson? {j : Json} {c : Component} (h : ofJson? j = some c) :
    c.IsCanonical := by
  simp only [ofJson?, Option.bind_eq_bind, Option.bind_eq_some_iff] at h
  obtain ⟨r, -, id, -, name, -, props, hprops, h⟩ := h
  cases h
  intro p hp
  obtain ⟨k, hk⟩ := Record.exists_of_list hprops p hp
  exact ComponentProp.isCanonical_of_ofJson? hk

/-- The members of an override are made canonical before one of them becomes its value. -/
theorem Override.exists_of_direct {members : List (String × Json)} {value : Json}
    (h : ofMembers? members = some (direct value)) :
    ∃ m ∈ members, canonical? m.2 = some value := by
  obtain ⟨forms, hforms, h⟩ := Option.bind_eq_some_iff.1 h
  have hdirect : (Json.ofMembers? ["value"] forms).bind (·.get? "value") = some value := by
    rcases Option.or_eq_some_iff.1 h with hdirect | ⟨-, hnamed⟩
    · obtain ⟨v, hv, heq⟩ := Option.map_eq_some_iff.1 hdirect
      cases heq
      exact hv
    · obtain ⟨v, -, heq⟩ := Option.map_eq_some_iff.1 hnamed
      cases heq
  obtain ⟨r, hr, hget⟩ := Option.bind_eq_some_iff.1 hdirect
  have hmem : ("value", value) ∈ forms := mem_of_get?_ofMembers? hr hget
  rw [canonicalMembers?_eq] at hforms
  obtain ⟨m, hm, hform⟩ := (exists_of_mapM hforms).2 _ hmem
  obtain ⟨k, hk, heq⟩ := Option.map_eq_some_iff.1 hform
  obtain ⟨-, rfl⟩ := Prod.mk.inj heq
  exact ⟨m, hm, hk⟩

theorem Override.isCanonical_of_ofMembers? {members : List (String × Json)} {o : Override}
    (h : ofMembers? members = some o) : o.IsCanonical := by
  cases o with
  | named valueId => trivial
  | direct value =>
    obtain ⟨m, -, hm⟩ := exists_of_direct h
    exact isCanonical_of_canonical? hm

theorem Override.isCanonical_of_ofJson? {j : Json} {o : Override} (h : ofJson? j = some o) :
    o.IsCanonical := by
  cases j with
  | object members => exact isCanonical_of_ofMembers? h
  | _ => cases h

/-- What an instance overrides is told by members of the object itself. -/
theorem InstanceOverride.exists_of_ofJson? {j : Json} {o : InstanceOverride}
    (h : ofJson? j = some o) :
    ∃ members, j = .object members ∧ Override.ofMembers? members = some o.value := by
  cases j with
  | object members =>
    simp only [ofJson?, Option.bind_eq_bind, Option.bind_eq_some_iff] at h
    obtain ⟨r, -, instanceId, -, propId, -, value, hvalue, h⟩ := h
    cases h
    exact ⟨members, rfl, hvalue⟩
  | _ => cases h

theorem InstanceOverride.isCanonical_of_ofJson? {j : Json} {o : InstanceOverride}
    (h : ofJson? j = some o) : o.value.IsCanonical := by
  obtain ⟨members, rfl, hvalue⟩ := exists_of_ofJson? h
  exact Override.isCanonical_of_ofMembers? hvalue

theorem Snapshot.isCanonical_of_ofJson? {j : Json} {x : Snapshot} (h : ofJson? j = some x) :
    x.IsCanonical := by
  simp only [ofJson?, Option.bind_eq_bind, Option.bind_eq_some_iff] at h
  obtain ⟨r, -, elements, -, components, hcomponents, overrides, hoverrides, h⟩ := h
  cases h
  constructor
  · intro c hc
    obtain ⟨k, hk⟩ := Record.exists_of_list hcomponents c hc
    exact Component.isCanonical_of_ofJson? hk
  · intro o ho
    obtain ⟨k, hk⟩ := Record.exists_of_list hoverrides o ho
    exact InstanceOverride.isCanonical_of_ofJson? hk

/-! ### Fit values -/

@[simp] theorem Binding.fit_toJson (b : Binding) : b.toJson.Fit := by
  simp [toJson, or_imp, forall_and, -Prod.forall]

@[simp] theorem Literal.fit_toJson (l : Literal) : l.toJson.Fit := by
  cases l <;> simp [toJson]

@[simp] theorem Style.fit_toJson (s : Style) : s.toJson.Fit := by
  rw [toJson, fit_object, List.forall_mem_append, List.forall_mem_map]
  exact ⟨by simp [-Prod.forall], fun e _ => e.2.fit_toJson⟩

@[simp] theorem Content.fit_toJson (c : Content) : c.toJson.Fit := by
  simp [toJson, or_imp, forall_and, -Prod.forall]

@[simp] theorem StateFlag.fit_toJson (f : StateFlag) : f.toJson.Fit := by
  cases f <;> simp [toJson]

@[simp] theorem Element.fit_toJson (e : Element) : e.toJson.Fit := by
  simp [toJson, Ownership.toJson, Properties.toJson, or_imp, forall_and, -Prod.forall]

theorem PropValue.fit_toJson {v : PropValue} (h : v.IsCanonical) : v.toJson.Fit := by
  have hvalue : v.value.Fit := fit_of_canonical? h
  simp [toJson, or_imp, forall_and, hvalue, -Prod.forall]

theorem Component.fit_toJson {c : Component} (h : c.IsCanonical) : c.toJson.Fit := by
  have hprop : ∀ p ∈ c.props, p.toJson.Fit := by
    intro p hp
    have hdefault : p.defaultValue.Fit := fit_of_canonical? (h p hp).defaultValue
    have hvalues : ∀ v ∈ p.values, v.toJson.Fit :=
      fun v hv => PropValue.fit_toJson ((h p hp).values v hv)
    simpa [ComponentProp.toJson, hdefault] using hvalues
  simpa [toJson] using hprop

theorem InstanceOverride.fit_toJson {o : InstanceOverride} (h : o.value.IsCanonical) :
    o.toJson.Fit := by
  have hmember : o.value.member.2.Fit := by
    cases hvalue : o.value with
    | direct value =>
      rw [hvalue] at h
      exact fit_of_canonical? h
    | named valueId => exact fit_string valueId
  simpa [toJson] using hmember

theorem Snapshot.fit_toJson {x : Snapshot} (h : x.IsCanonical) : x.toJson.Fit := by
  have hcomponents : ∀ c ∈ x.components, c.toJson.Fit :=
    fun c hc => Component.fit_toJson (h.components c hc)
  have hoverrides : ∀ o ∈ x.overrides, o.toJson.Fit :=
    fun o ho => InstanceOverride.fit_toJson (h.overrides o ho)
  simpa [toJson] using ⟨hcomponents, hoverrides⟩

end DesignSync

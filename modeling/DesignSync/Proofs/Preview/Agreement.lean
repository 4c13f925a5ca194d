import DesignSync.Proofs.Dict
import DesignSync.Sync.Target

/-!
Props as bindings see them and as the preview has them. Bindings take the first prop with a name and
the preview the last one; bindings are in scope for any element that refers to a component, and the
preview wants an instance. In every other respect the two agree.
-/

namespace DesignSync

namespace Component

variable {c : Component} {name : String}

/-- The prop that a name stands for in a binding. -/
def firstNamed? (c : Component) (name : String) : Option ComponentProp :=
  c.props.find? fun p => p.name == name

/-- The prop that a name stands for in the preview. -/
def lastNamed? (c : Component) (name : String) : Option ComponentProp :=
  c.props.reverse.find? fun p => p.name == name

theorem byName?_ofComponent (c : Component) (name : String) :
    (BindingContext.ofComponent c).byName? .prop name =
      (c.firstNamed? name).map fun p => ⟨.prop, p.id, p.name, p.currentDefault.display?⟩ := by
  rw [BindingContext.ofComponent, BindingContext.byName?, List.find?_map]
  rfl

private theorem lookup_named (f : ComponentProp → Json) (ps : List ComponentProp) (name : String) :
    (ps.map fun p => (p.name, f p)).lookup name = (ps.find? fun p => p.name == name).map f := by
  induction ps with
  | nil => rfl
  | cons p ps ih =>
    by_cases hname : p.name = name
    · simp [hname]
    · have hne : (name == p.name) = false := beq_eq_false_iff_ne.2 (Ne.symm hname)
      rw [List.map_cons, List.lookup_cons, hne, ih, List.find?_cons, beq_eq_false_iff_ne.2 hname]

theorem get?_project (c : Component) (overrides : Dict Override) (name : String) :
    (c.project overrides).get? name =
      (c.lastNamed? name).map fun p => p.resolve (overrides.get? p.id) := by
  rw [project, Dict.get?_ofList, ← List.map_reverse]
  exact lookup_named _ _ _

/-- Where there is a first prop with a name there is a last one. -/
theorem lastNamed?_isSome : (c.lastNamed? name).isSome = (c.firstNamed? name).isSome := by
  rw [Bool.eq_iff_iff]
  simp [lastNamed?, firstNamed?, List.find?_isSome]

/-- Where no name is repeated the first prop with a name is the last one. -/
theorem lastNamed?_of_nodup (h : (c.props.map (·.name)).Nodup) :
    c.lastNamed? name = c.firstNamed? name := by
  cases hfirst : c.firstNamed? name with
  | none =>
    have hsome : (c.lastNamed? name).isSome = (c.firstNamed? name).isSome := lastNamed?_isSome
    rw [hfirst] at hsome
    exact Option.isNone_iff_eq_none.1 (Option.isSome_eq_false_iff.1 hsome)
  | some p =>
    obtain ⟨q, hq⟩ : ∃ q, c.lastNamed? name = some q := by
      rw [← Option.isSome_iff_exists, lastNamed?_isSome, hfirst]
      rfl
    have hp : p.name = name := by simpa using List.find?_some hfirst
    have hq' : q.name = name := by simpa using List.find?_some hq
    have hmem : q ∈ c.props := List.mem_reverse.1 (List.mem_of_find?_eq_some hq)
    rw [hq, List.inj_on_of_nodup_map h hmem (List.mem_of_find?_eq_some hfirst) (hq'.trans hp.symm)]

end Component

namespace SyncTarget

variable {t : SyncTarget} {s : Store} {name : String}

/-- A prop that is in scope comes from the component of the scope. -/
theorem exists_component (htargets : t.targets = [])
    (hname : ((t.bindingContext s).byName? .prop name).isSome = true) :
    ∃ c, t.component? s = some c ∧ t.bindingContext s = .ofComponent c ∧
      (c.firstNamed? name).isSome = true := by
  have hcontext : t.bindingContext s =
      (t.component? s).elim BindingContext.empty BindingContext.ofComponent := by
    rw [bindingContext, htargets, BindingContext.add, List.append_nil]
  rw [hcontext] at hname ⊢
  cases hc : t.component? s with
  | none =>
    rw [hc] at hname
    cases hname
  | some c =>
    rw [hc, Option.elim_some, c.byName?_ofComponent, Option.isSome_map] at hname
    exact ⟨c, rfl, rfl, hname⟩

/-- Of an element that refers to a component the preview has the props just when it is an
instance. -/
theorem project_inst_eq_ok_iff {id : String} {e : Element} {c : Component}
    (he : s.element? id = some e) (hc : e.instanceRef.bind s.component? = some c) {a : Artifact} :
    s.project (.inst id) = .ok a ↔ e.kind = .inst ∧
      a = ⟨c.props, c.project ((s.instanceOverrides? id).getD Dict.empty)⟩ := by
  obtain ⟨componentId, href, hcomponent⟩ := Option.bind_eq_some_iff.1 hc
  cases hkind : e.kind <;> simp [Store.project, he, hkind, href, hcomponent, eq_comm]

/-- In the scope of a component, the default that bindings show for a name is that of the value in
the preview, just when the first and the last prop with the name have the same one to show. -/
theorem project_component {c : Component} (hcontext : t.bindingContext s = .ofComponent c)
    (hname : (c.firstNamed? name).isSome = true) :
    ∃ b value, (t.bindingContext s).byName? .prop name = some b ∧
      (c.project Dict.empty).get? name = some value ∧
      (b.display = value.display? ↔
        (c.firstNamed? name).map (·.currentDefault.display?) =
          (c.lastNamed? name).map (·.currentDefault.display?)) ∧
      ((c.props.map (·.name)).Nodup → b.display = value.display?) := by
  obtain ⟨first, hfirst⟩ := Option.isSome_iff_exists.1 hname
  obtain ⟨last, hlast⟩ : ∃ last, c.lastNamed? name = some last := by
    rw [← Option.isSome_iff_exists, Component.lastNamed?_isSome, hname]
  have htarget : (t.bindingContext s).byName? .prop name =
      some ⟨.prop, first.id, first.name, first.currentDefault.display?⟩ := by
    rw [hcontext, c.byName?_ofComponent, hfirst]
    rfl
  have hvalue : (c.project Dict.empty).get? name = some last.currentDefault := by
    rw [c.get?_project, hlast]
    rfl
  refine ⟨_, _, htarget, hvalue, ?_, fun hnodup => ?_⟩
  · simp [hfirst, hlast]
  · rw [Component.lastNamed?_of_nodup hnodup, hfirst] at hlast
    rw [Option.some.inj hlast]

/-- Where a prop with some name is in scope, the preview has props just when the scope is not an
element of another kind than an instance, and one of them has the name. For the scope of a component
the default that bindings show is that of the value in the preview, just when the first and the last
prop with the name have the same one to show; so it is where no name is repeated. -/
theorem project_of_prop_in_scope (htargets : t.targets = [])
    (hname : ∃ b ∈ (t.bindingContext s).targets, b.kind = .prop ∧ b.name = name) :
    ((∃ a, s.project t.scope = .ok a) ↔
        ∀ id e, t.scope = .inst id → s.element? id = some e → e.kind = .inst) ∧
      (∀ a, s.project t.scope = .ok a → a.values.contains name = true) ∧
      ∀ id, t.scope = .component id → ∃ c a, s.component? id = some c ∧ s.project t.scope = .ok a ∧
        ∃ b value, (t.bindingContext s).byName? .prop name = some b ∧
          a.values.get? name = some value ∧
          (b.display = value.display? ↔
            (c.firstNamed? name).map (·.currentDefault.display?) =
              (c.lastNamed? name).map (·.currentDefault.display?)) ∧
          ((c.props.map (·.name)).Nodup → b.display = value.display?) := by
  have hfound : ((t.bindingContext s).byName? .prop name).isSome = true := by
    simpa [BindingContext.byName?, List.find?_isSome] using hname
  obtain ⟨c, hc, hcontext, hfirst⟩ := exists_component htargets hfound
  have hcontains : ∀ overrides, (c.project overrides).contains name = true := by
    intro overrides
    rw [Dict.contains, c.get?_project, Option.isSome_map, Component.lastNamed?_isSome, hfirst]
  cases hscope : t.scope with
  | none =>
    rw [component?, hscope] at hc
    cases hc
  | component id =>
    have hstored : s.component? id = some c := by
      rw [← hc, component?, hscope]
    have hproject : s.project (.component id) = .ok ⟨c.props, c.project Dict.empty⟩ := by
      simp only [Store.project, hstored]
    refine ⟨⟨fun _ _ _ h => ?_, fun _ => ⟨_, hproject⟩⟩, fun a ha => ?_, fun id' hid => ?_⟩
    · cases h
    · rw [← Except.ok.inj (hproject.symm.trans ha)]
      exact hcontains _
    · obtain rfl : id = id' := Scope.component.inj hid
      exact ⟨c, _, hstored, hproject, project_component hcontext hfirst⟩
  | inst id =>
    have hrefers : (s.element? id).bind (·.instanceRef) >>= s.component? = some c := by
      rw [← hc, component?, hscope]
    obtain ⟨componentId, hcomponentId, hcomponent⟩ := Option.bind_eq_some_iff.1 hrefers
    obtain ⟨e, he, href⟩ := Option.bind_eq_some_iff.1 hcomponentId
    have hrefs : e.instanceRef.bind s.component? = some c := by rw [href]; exact hcomponent
    refine ⟨⟨?_, fun hkind => ?_⟩, fun a ha => ?_, fun id' h => ?_⟩
    · rintro ⟨a, ha⟩ id' e' hid he'
      obtain rfl : id = id' := Scope.inst.inj hid
      obtain rfl : e = e' := Option.some.inj (he.symm.trans he')
      exact ((project_inst_eq_ok_iff he hrefs).1 ha).1
    · exact ⟨_, (project_inst_eq_ok_iff he hrefs).2 ⟨hkind id e rfl he, rfl⟩⟩
    · obtain ⟨-, rfl⟩ := (project_inst_eq_ok_iff he hrefs).1 ha
      exact hcontains _
    · cases h

/-! ### A component and its instance -/

/-- A document with a component and an element that refers to it. -/
def badge (props : List ComponentProp) (kind : ElementKind) : Store :=
  ((Store.empty.addComponent ⟨"badge", "Badge", props⟩).1.addElement
    ⟨"new", "span", kind, none, ⟨.screen, "home"⟩, Properties.empty, some "badge"⟩).1

def labelProp (id default : String) : ComponentProp := ⟨id, "label", "string", .string default, []⟩

theorem project_of_prop_in_scope_badge :
    let s := badge [labelProp "p" "New"] .inst
    let t : SyncTarget := ⟨"new", "New", .component "badge", []⟩
    (∃ b ∈ (t.bindingContext s).targets, b.kind = .prop ∧ b.name = "label") ∧
      ∃ a, s.project t.scope = .ok a ∧ ∃ b value,
        (t.bindingContext s).byName? .prop "label" = some b ∧ a.values.get? "label" = some value ∧
        b.display = value.display? := by
  intro s t
  have htargets : (t.bindingContext s).targets = [⟨.prop, "p", "label", some "New"⟩] := by
    decide +kernel
  have hname : ∃ b ∈ (t.bindingContext s).targets, b.kind = .prop ∧ b.name = "label" := by
    rw [htargets]
    exact ⟨_, List.mem_cons_self, rfl, rfl⟩
  have hnames : (s.component? "badge").map (·.props.map (·.name)) = some ["label"] := by
    decide +kernel
  obtain ⟨c, a, hc, ha, b, value, hb, hvalue, -, hsame⟩ :=
    (project_of_prop_in_scope (t := t) rfl hname).2.2 "badge" rfl
  have hlabel : c.props.map (·.name) = ["label"] := by
    rw [hc] at hnames
    exact Option.some.inj hnames
  have hnodup : (c.props.map (·.name)).Nodup := by
    rw [hlabel]
    decide
  exact ⟨hname, a, ha, b, value, hb, hvalue, hsame hnodup⟩

/-- Two props have one name: bindings show the default of the first one and the preview has that of
the last one. And an element that is no instance has the props of the component it refers to in
scope, but no preview. -/
theorem preview_disagrees :
    let s := badge [labelProp "p" "One", labelProp "q" "Two"] .element
    let whole : SyncTarget := ⟨"new", "New", .component "badge", []⟩
    let part : SyncTarget := ⟨"new", "New", .inst "new", []⟩
    (((whole.bindingContext s).byName? .prop "label").map (·.display) = some (some "One") ∧
      (s.project whole.scope).toOption.bind (fun a => (a.values.get? "label").map Json.display?) =
        some (some "Two")) ∧
      ((part.bindingContext s).byName? .prop "label").map (·.display) = some (some "One") ∧
        s.project part.scope = .error (.notAnInstance "new") := by
  refine ⟨⟨by decide +kernel, by decide +kernel⟩, by decide +kernel, ?_⟩
  rfl

end SyncTarget

end DesignSync

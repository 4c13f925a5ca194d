import DesignSync.Markup.Elements

/-!
Sources of a single element. Nothing is read but its opening tag, and at most a text behind it, so
that what such a source is read as can be found by evaluation.
-/

namespace DesignSync.Markup

deriving instance DecidableEq for Literal

/-- An element with a style and handlers, and with nothing else. -/
def leaf (literals : Dict Literal) (events : Dict String) : Element :=
  ⟨"a", "div", .element, none, ⟨.screen, "S1"⟩,
    { Properties.empty with style := ⟨none, literals⟩, events := events }, none⟩

/-- Whether an element is one with some style and some handlers, and with nothing else. -/
def IsLeaf (literals : Dict Literal) (events : Dict String) (e : Element) : Prop :=
  (e.id = "a" ∧ e.tag = "div" ∧ e.kind = .element ∧ e.name = none ∧ e.ownership = ⟨.screen, "S1"⟩ ∧
      e.instanceRef = none) ∧
    (e.properties.content = Content.empty ∧ e.properties.attributes = Dict.empty ∧
      e.properties.events = events ∧ e.properties.state = Dict.empty ∧ e.properties.children = []) ∧
    e.properties.style.bindings = none ∧ e.properties.style.literals = literals

instance (literals : Dict Literal) (events : Dict String) (e : Element) :
    Decidable (IsLeaf literals events e) := by
  unfold IsLeaf
  infer_instance

theorem IsLeaf.eq {literals : Dict Literal} {events : Dict String} {e : Element}
    (h : IsLeaf literals events e) : e = leaf literals events := by
  obtain ⟨id, tag, kind, name, owner, ⟨⟨bindings, literals⟩, content, attributes, events, state,
    children⟩, instanceRef⟩ := e
  simp only [IsLeaf] at h
  obtain ⟨⟨rfl, rfl, rfl, rfl, rfl, rfl⟩, ⟨rfl, rfl, rfl, rfl, rfl⟩, rfl, rfl⟩ := h
  rfl

/-- Whether a source has a root without children, the tag of which gives such an element. -/
def readsLeaf (source path : String) (literals : Dict Literal) (events : Dict String) : Bool :=
  match readTree source with
  | .ok tree =>
    tree.children.isEmpty &&
      match readOpening .empty (documentId path) tree.head none .start with
      | .ok (e, st) => decide (IsLeaf literals events e) && st.diagnostics.isEmpty
      | .error _ => false
  | .error _ => false

theorem read_of_readsLeaf {source path : String} {literals : Dict Literal} {events : Dict String}
    (h : readsLeaf source path literals events = true) :
    read source path .empty = .ok ⟨"a", [leaf literals events], []⟩ := by
  unfold readsLeaf at h
  split at h
  · next tree htree =>
    rw [Bool.and_eq_true, List.isEmpty_iff] at h
    obtain ⟨hchildren, h⟩ := h
    split at h
    · next e st hopening =>
      simp only [Bool.and_eq_true, decide_eq_true_eq, List.isEmpty_iff] at h
      obtain ⟨hleaf, hdiagnostics⟩ := h
      obtain rfl := hleaf.eq
      rw [read, htree]
      change elementsOf _ _ tree = _
      unfold elementsOf
      dsimp only
      rw [hopening, hchildren]
      simp only [Bind.bind, Except.bind, readInside, Pure.pure, Except.pure, hdiagnostics]
      rfl
    · cases h
  · cases h

/-- Whether a source has a root with a text inside and no more, and a tag that gives an element. -/
def readsText (source path : String) (ctx : BindingContext) : Bool :=
  match readTree source with
  | .ok ⟨head, [.text _ _]⟩ => (readOpening ctx (documentId path) head none .start).isOk
  | _ => false

theorem exists_read_of_readsText {source path : String} {ctx : BindingContext}
    (h : readsText source path ctx = true) : ∃ t, read source path ctx = .ok t := by
  unfold readsText at h
  split at h
  · next head s span htree =>
    unfold read elementsOf
    rw [htree]
    cases hopening : readOpening ctx (documentId path) head none .start with
    | error e =>
      rw [hopening] at h
      cases h
    | ok root =>
      simp only [Bind.bind, Except.bind, hopening, readInside, Pure.pure, Except.pure]
      exact ⟨_, rfl⟩
  · cases h

end DesignSync.Markup

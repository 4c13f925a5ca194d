import DesignSync.Proofs.Document.Soundness

/-!
Elements up to the traces in their bindings: the path last written for a binding, and what is shown
while its value is not there. Both follow from the rest of the document, and recording them changes
nothing else.
-/

namespace DesignSync

/-! ### Equality as numbers

Elements are compared as the store compares them, so that the two zeros are equal. -/

instance : ReflBEq Binary64 := ⟨fun {x} => x.same_self⟩

instance : ReflBEq Literal where
  rfl {v} := by
    cases v with
    | number x => exact x.same_self
    | text s => exact beq_self_eq_true s

namespace Dict

variable {α : Type} [BEq α]

theorem beq_eq_entries (d e : Dict α) : (d == e) = (d.entries == e.entries) := rfl

instance [ReflBEq α] : ReflBEq (Dict α) where
  rfl {d} := by rw [beq_eq_entries]; exact BEq.rfl

instance [LawfulBEq α] : LawfulBEq (Dict α) where
  eq_of_beq {d e} h := by
    rw [beq_eq_entries] at h
    exact Dict.ext (eq_of_beq h)

end Dict

theorem Style.beq_iff {s t : Style} :
    (s == t) = true ↔ s.bindings = t.bindings ∧ (s.literals == t.literals) = true := by
  cases s; cases t
  change (_ == _ && _ == _) = true ↔ _
  simp

theorem Properties.beq_iff {p q : Properties} :
    (p == q) = true ↔ (p.style == q.style) = true ∧ p.content = q.content ∧
      p.attributes = q.attributes ∧ p.events = q.events ∧ p.state = q.state ∧
      p.children = q.children := by
  cases p; cases q
  change (_ == _ && (_ == _ && (_ == _ && (_ == _ && (_ == _ && _ == _))))) = true ↔ _
  simp

theorem Element.beq_iff {e f : Element} :
    (e == f) = true ↔ e.id = f.id ∧ e.tag = f.tag ∧ e.kind = f.kind ∧ e.name = f.name ∧
      e.ownership = f.ownership ∧ (e.properties == f.properties) = true ∧
      e.instanceRef = f.instanceRef := by
  cases e; cases f
  change (_ == _ && (_ == _ && (_ == _ && (_ == _ && (_ == _ && (_ == _ && _ == _)))))) = true ↔ _
  simp

theorem Element.children_of_beq {e f : Element} (h : (e == f) = true) : e.children = f.children :=
  (Properties.beq_iff.1 (Element.beq_iff.1 h).2.2.2.2.2.1).2.2.2.2.2

instance : ReflBEq Element where
  rfl {e} := by
    refine Element.beq_iff.2 ⟨rfl, rfl, rfl, rfl, rfl, ?_, rfl⟩
    exact Properties.beq_iff.2 ⟨Style.beq_iff.2 ⟨rfl, BEq.rfl⟩, rfl, rfl, rfl, rfl, rfl⟩

/-! ### Elements without their traces -/

def Binding.untraced (b : Binding) : Binding := { b with path := none, fallback := none }

def Properties.untraced (p : Properties) : Properties :=
  { p with
    style := { p.style with bindings := p.style.bindings.map (·.map Binding.untraced) }
    content := { p.content with binding := p.content.binding.map Binding.untraced } }

/-- An element without the traces in its bindings. -/
def Element.untraced (e : Element) : Element := { e with properties := e.properties.untraced }

theorem Element.untraced_beq {e f : Element} (h : (e == f) = true) :
    (e.untraced == f.untraced) = true := by
  obtain ⟨hid, htag, hkind, hname, howner, hprops, href⟩ := Element.beq_iff.1 h
  obtain ⟨hstyle, hcontent, hattrs, hevents, hstate, hchildren⟩ := Properties.beq_iff.1 hprops
  obtain ⟨hbindings, hliterals⟩ := Style.beq_iff.1 hstyle
  refine Element.beq_iff.2 ⟨hid, htag, hkind, hname, howner, ?_, href⟩
  refine Properties.beq_iff.2 ⟨Style.beq_iff.2 ⟨?_, hliterals⟩, ?_, hattrs, hevents, hstate,
    hchildren⟩
  · exact congrArg (Option.map _) hbindings
  · simp only [Element.untraced, Properties.untraced, hcontent]

/-- Properties with each binding replaced by what `f` makes of it. -/
def Properties.mapBindings (f : Binding → Binding) (p : Properties) : Properties :=
  { p with
    style := { p.style with bindings := p.style.bindings.map (·.map f) }
    content := { p.content with binding := p.content.binding.map f } }

/-- Another binding at a place makes no difference to what does not tell it from the one there. -/
theorem Properties.mapBindings_setBinding {f : Binding → Binding} {p : Properties}
    {slot : BindingSlot} {b b' : Binding} (hb : Store.binding? p slot = some b)
    (hsame : f b' = f b) : (Store.setBinding p slot b').mapBindings f = p.mapBindings f := by
  cases slot with
  | content =>
    simp only [Store.binding?] at hb
    simp [Store.setBinding, Properties.mapBindings, hb, hsame]
  | style key =>
    simp only [Store.binding?, Style.binding?] at hb
    obtain ⟨m, hm, hget⟩ := Option.bind_eq_some_iff.1 hb
    have hmap : (m.insert key b').map f = m.map f := by
      refine Dict.ext_get? fun k => ?_
      rw [Dict.get?_map, Dict.get?_map, Dict.get?_insert]
      by_cases hk : k = key
      · simp [hk, hget, hsame]
      · simp [hk]
    simp [Store.setBinding, Properties.mapBindings, hm, hmap]

/-- Another trace of the binding at a place changes nothing but traces. -/
theorem Properties.untraced_setBinding {p : Properties} {slot : BindingSlot} {b b' : Binding}
    (hb : Store.binding? p slot = some b) (hkind : b'.kind = b.kind) (href : b'.refId = b.refId) :
    (Store.setBinding p slot b').untraced = p.untraced :=
  Properties.mapBindings_setBinding hb (by simp [Binding.untraced, hkind, href])

namespace Store

variable {s : Store}

theorem Sound.map_id_elements (h : s.Sound) : s.elements.map (·.id) = s.ids := by
  have hall : ∀ id ∈ s.ids, ∃ e, s.element? id = some e ∧ e.id = id := fun id hid => by
    obtain ⟨e, he⟩ := Option.isSome_iff_exists.1 ((h.mem_ids id).1 hid)
    exact ⟨e, he, h.named id e he⟩
  unfold elements
  generalize s.ids = ids at hall
  induction ids with
  | nil => rfl
  | cons a ids ih =>
    obtain ⟨e, he, hid⟩ := hall a List.mem_cons_self
    simp [he, hid, ih fun x hx => hall x (List.mem_cons_of_mem _ hx)]

theorem Sound.mem_elements_iff (h : s.Sound) {e : Element} :
    e ∈ s.elements ↔ s.element? e.id = some e := by
  constructor
  · intro he
    obtain ⟨id, -, hfind⟩ := List.mem_filterMap.1 he
    rwa [h.named id e hfind]
  · intro hfind
    exact List.mem_filterMap.2 ⟨e.id, (h.mem_ids e.id).2 (by simp [hfind]), hfind⟩

theorem Sound.find?_elements (h : s.Sound) (id : String) :
    Element.find? s.elements id = s.element? id := by
  have hids := h.map_id_elements
  cases hfind : s.element? id with
  | none =>
    rw [Element.find?_eq_none_iff, hids, h.mem_ids, hfind]
    simp
  | some e =>
    have hmem : e ∈ s.elements := by
      rwa [h.mem_elements_iff, h.named id e hfind]
    rw [← h.named id e hfind]
    exact Element.find?_of_mem (hids ▸ h.nodup_ids) hmem

/-- What recording traces keeps: everything but the traces of the elements that they name. -/
structure Retraced (named : List String) (s s' : Store) : Prop where
  untraced : ∀ id, (s'.element? id).map Element.untraced = (s.element? id).map Element.untraced
  unnamed : ∀ id, id ∉ named → s'.element? id = s.element? id
  components : s'.components = s.components
  overrides : s'.overrides = s.overrides
  ids : s'.ids = s.ids
  revision : s'.revision = s.revision

/-- Elements are there as before, and are instances of what they were. -/
theorem Retraced.element?_cases {named : List String} {s s' : Store} (h : Retraced named s s')
    (id : String) :
    (s.element? id = none ∧ s'.element? id = none) ∨
      ∃ e e', s.element? id = some e ∧ s'.element? id = some e' ∧ e'.kind = e.kind ∧
        e'.instanceRef = e.instanceRef := by
  have huntraced := h.untraced id
  cases he : s.element? id with
  | none =>
    rw [he, Option.map_none, Option.map_eq_none_iff] at huntraced
    exact .inl ⟨rfl, huntraced⟩
  | some e =>
    rw [he, Option.map_some, Option.map_eq_some_iff] at huntraced
    obtain ⟨e', he', heq⟩ := huntraced
    have hkind : e'.untraced.kind = e.untraced.kind := by rw [heq]
    have href : e'.untraced.instanceRef = e.untraced.instanceRef := by rw [heq]
    exact .inr ⟨e, e', rfl, he', hkind, href⟩

theorem retraced_recordPath (s : Store) (t : TracedPath) :
    Retraced [t.element] s (s.recordPath t).1 := by
  obtain hsame | ⟨e, b, b', he, hb, hkind, href, hnew⟩ := s.recordPath_cases t
  · rw [hsame]
    exact ⟨fun _ => rfl, fun _ _ => rfl, rfl, rfl, rfl, rfl⟩
  · have hfind := element?_of_insert hnew
    refine ⟨fun id => ?_, fun id hid => ?_, by rw [hnew], by rw [hnew], by rw [hnew], by rw [hnew]⟩
    · rw [hfind]
      by_cases hid : id = t.element
      · simp [hid, he, Element.untraced, Properties.untraced_setBinding hb hkind href]
      · rw [if_neg hid]
    · rw [hfind, if_neg (by simpa using hid)]

theorem retraced_recordPaths (s : Store) (ts : List TracedPath) :
    Retraced (ts.map (·.element)) s (s.recordPaths ts).1 := by
  rw [recordPaths_eq]
  induction ts generalizing s with
  | nil => exact ⟨fun _ => rfl, fun _ _ => rfl, rfl, rfl, rfl, rfl⟩
  | cons t ts ih =>
    have hstep := retraced_recordPath s t
    have hrest := ih (s.recordPath t).1
    refine ⟨fun id => (hrest.untraced id).trans (hstep.untraced id), fun id hid => ?_,
      hrest.components.trans hstep.components, hrest.overrides.trans hstep.overrides,
      hrest.ids.trans hstep.ids, hrest.revision.trans hstep.revision⟩
    simp only [List.map_cons, List.mem_cons, not_or] at hid
    exact (hrest.unnamed id hid.2).trans (hstep.unnamed id (by simpa using hid.1))

end Store

end DesignSync

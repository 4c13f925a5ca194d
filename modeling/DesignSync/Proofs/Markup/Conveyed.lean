import DesignSync.Proofs.Markup.ElementTree
import DesignSync.Proofs.Markup.Looks

/-!
What comes back for an element that was written, and that reading what is said for it gives exactly
this.
-/

namespace DesignSync.Markup

open Text

/-! ### What comes back -/

/-- A literal as it comes back. A size that is a bare number has a unit, a number that is not finite
is a text, and zero has no sign. -/
def conveyedLiteral (key : String) : Literal → Literal
  | .number x =>
    if !x.isFinite then .text x.positionalText
    else if isSizeKey key then .text (x.plainText ++ "px")
    else .number x.plain
  | .text s =>
    if isSizeKey key && Numeral.isNumeral (trim s.toList) then .text (trimmed s ++ "px")
    else .text s

/-- A binding as it comes back: to the same target, with the path that was written. -/
def conveyedBinding (ctx : BindingContext) (fallback : Option String) (b : Binding) : Binding :=
  { b with path := ctx.reference? b, fallback := fallback }

def conveyedStyle (ctx : BindingContext) (s : Style) : Style where
  bindings := s.bindings.map (·.map (conveyedBinding ctx none))
  literals := s.literals.mapKeyed conveyedLiteral

/-- Content as it comes back. A binding falls back to what its target shows. -/
def conveyedContent (ctx : BindingContext) (c : Content) : Content :=
  { c with
    binding := c.binding.map fun b =>
      conveyedBinding ctx ((ctx.byId? b.kind b.refId).bind (·.display)) b }

/-- An element as it comes back: as it was but for the paths of bindings, the units of sizes, names
that cannot be written, and whatever a tag without content has inside. -/
def conveyed (ctx : BindingContext) (e : Element) : Element :=
  { e with
    properties :=
      { style := conveyedStyle ctx e.properties.style
        content := if isVoidTag e.tag then Content.empty else conveyedContent ctx e.properties.content
        attributes := e.properties.attributes.filter fun name _ => isWritableName name
        events := e.properties.events.filter fun name _ =>
          !e.properties.attributes.contains name && isWritableName name
        state := e.properties.state.filter fun flag _ => isWritableFlag flag
        children := writtenChildren e } }

/-! ### Attributes by name -/

variable {as : List (String × Said)} {bs : List Attribute}

theorem find?_of_says (h : List.Forall₂ SaysAttribute as bs) (name : String) :
    match as.find? (·.1 == name) with
    | none => bs.find? (·.name == name) = none
    | some a => ∃ b, bs.find? (·.name == name) = some b ∧ SaysAttribute a b := by
  induction h with
  | nil => rfl
  | @cons a b as bs hab _ ih =>
    rw [List.find?_cons, List.find?_cons, hab.1]
    cases a.1 == name with
    | true => exact ⟨b, rfl, hab⟩
    | false => exact ih

theorem textOf_of_says {name s : String} {b : Attribute} (h : SaysAttribute (name, .text s) b) :
    textOf b = .ok s := by
  have hvalue : b.value = .text s := h.2
  rw [textOf, hvalue]
  rfl

variable {head : Head}

theorem attribute?_of_text (h : List.Forall₂ SaysAttribute as head.attributes) {name s : String}
    (hfind : as.find? (·.1 == name) = some (name, .text s)) :
    ∃ b, head.attribute? name = some b ∧ textOf b = .ok s := by
  have hsays := find?_of_says h name
  rw [hfind] at hsays
  obtain ⟨b, hb, hab⟩ := hsays
  exact ⟨b, hb, textOf_of_says hab⟩

theorem attributeText?_of_text (h : List.Forall₂ SaysAttribute as head.attributes)
    {name s : String} (hfind : as.find? (·.1 == name) = some (name, .text s)) :
    attributeText? head name = .ok (some s) := by
  obtain ⟨b, hb, htext⟩ := attribute?_of_text h hfind
  rw [attributeText?, hb]
  simp only [htext]
  rfl

theorem attributeText?_of_none (h : List.Forall₂ SaysAttribute as head.attributes) {name : String}
    (hfind : as.find? (·.1 == name) = none) : attributeText? head name = .ok none := by
  have hsays := find?_of_says h name
  rw [hfind] at hsays
  have hnone : head.attribute? name = none := hsays
  rw [attributeText?, hnone]

/-- An optional text among the attributes is read as such. -/
theorem attributeText?_of_optional (h : List.Forall₂ SaysAttribute as head.attributes)
    {name : String} {value : Option String}
    (hfind : as.find? (·.1 == name) = value.map fun s => (name, .text s)) :
    attributeText? head name = .ok value := by
  cases value with
  | none => exact attributeText?_of_none h hfind
  | some s => exact attributeText?_of_text h hfind

/-! ### Metadata -/

theorem head?_flag (flag : String) : (stateMark ++ flag).toList.head? = some 'd' := by
  rw [String.toList_append]
  rfl

theorem isMetadata_flag (flag : String) : isMetadata (stateMark ++ flag) = false := by
  have hheads : ∀ name ∈ [idAttribute, kindAttribute, instanceAttribute, nameAttribute,
      ownershipAttribute, componentAttribute, ownerAttribute], name.toList.head? ≠ some 'd' := by
    decide
  unfold isMetadata
  refine Bool.eq_false_iff.2 fun h => ?_
  exact hheads _ (List.contains_iff_mem.1 h) (head?_flag flag)

theorem not_reserved {name : String} (h : isWritableName name = true) :
    isMetadata name = false ∧ name ≠ styleAttribute ∧ stateFlag? name = none := by
  simp only [isWritableName, isReserved, Bool.and_eq_true, Bool.not_eq_true', Bool.or_eq_false_iff,
    beq_eq_false_iff_ne, Option.isSome_eq_false_iff, Option.isNone_iff_eq_none] at h
  exact ⟨h.1.1.1, h.1.1.2, h.1.2⟩

theorem isMetadata_propertyAttributes {ctx : BindingContext} {p : Properties}
    {a : String × Said} (ha : a ∈ propertyAttributes ctx p) : isMetadata a.1 = false := by
  simp only [propertyAttributes, List.mem_append, List.mem_map] at ha
  rcases ha with ((⟨x, -, rfl⟩ | ⟨x, hx, rfl⟩) | ⟨x, hx, rfl⟩) | ha
  · exact isMetadata_flag x.1
  · exact (not_reserved (List.mem_filter.1 hx).2).1
  · have hname := (List.mem_filter.1 hx).2
    rw [Bool.and_eq_true] at hname
    exact (not_reserved hname.2).1
  · unfold styleAttributes at ha
    split at ha
    · cases ha
    · rw [List.mem_singleton.1 ha]
      exact (by decide : isMetadata styleAttribute = false)

/-- Attributes with a name for metadata come from there. -/
theorem find?_lookOf (ctx : BindingContext) (e : Element) {name : String}
    (hname : isMetadata name = true) : (lookOf ctx e).attributes.find? (·.1 == name) =
      (metadataAttributes e).find? (·.1 == name) := by
  have hnone : (propertyAttributes ctx e.properties).find? (·.1 == name) = none := by
    refine List.find?_eq_none.2 fun a ha heq => ?_
    rw [← beq_iff_eq.1 heq, isMetadata_propertyAttributes ha] at hname
    cases hname
  rw [lookOf, List.find?_append, hnone, Option.or_none]

theorem find?_metadata (e : Element) :
    (metadataAttributes e).find? (·.1 == idAttribute) = some (idAttribute, .text e.id) ∧
    (metadataAttributes e).find? (·.1 == kindAttribute) = some (kindAttribute, .text e.kind.name) ∧
    (metadataAttributes e).find? (·.1 == instanceAttribute) =
      e.instanceRef.map (fun s => (instanceAttribute, Said.text s)) ∧
    (metadataAttributes e).find? (·.1 == nameAttribute) =
      e.name.map (fun s => (nameAttribute, Said.text s)) ∧
    (metadataAttributes e).find? (·.1 == ownershipAttribute) =
      some (ownershipAttribute, .text e.ownership.kind.name) ∧
    (metadataAttributes e).find? (·.1 == componentAttribute) =
      (if e.ownership.kind = .component then some e.ownership.ownerId else none).map
        (fun s => (componentAttribute, Said.text s)) ∧
    (metadataAttributes e).find? (·.1 == ownerAttribute) =
      (if e.ownership.kind = .component then none else some e.ownership.ownerId).map
        (fun s => (ownerAttribute, Said.text s)) := by
  unfold metadataAttributes
  cases e.instanceRef <;> cases e.name <;> cases e.ownership.kind <;>
    simp [idAttribute, kindAttribute, instanceAttribute, nameAttribute, ownershipAttribute,
      componentAttribute, ownerAttribute]

section

variable {ctx : BindingContext} {e : Element}
  (h : List.Forall₂ SaysAttribute (lookOf ctx e).attributes head.attributes)

include h

theorem readId_of_look (seed : String) {st : Progress} (hnew : e.id ∉ st.seen) :
    readId seed head st = .ok (e.id, { st with seen := e.id :: st.seen }) := by
  have hid := attributeText?_of_text h ((find?_lookOf ctx e (by decide)).trans (find?_metadata e).1)
  unfold readId
  rw [hid]
  simp [Bind.bind, Except.bind, Pure.pure, Except.pure, hnew]

theorem readKind_of_look : readKind head = .ok e.kind := by
  obtain ⟨b, hb, htext⟩ :=
    attribute?_of_text h ((find?_lookOf ctx e (by decide)).trans (find?_metadata e).2.1)
  rw [readKind, hb]
  simp [htext, Bind.bind, Except.bind]

theorem readOwnership_of_look (parent : Option String) :
    readOwnership head parent = .ok e.ownership := by
  obtain ⟨-, -, -, -, hkind, hcomponent, howner⟩ := find?_metadata e
  obtain ⟨b, hb, htext⟩ :=
    attribute?_of_text h ((find?_lookOf ctx e (by decide)).trans hkind)
  have hcomponent := attributeText?_of_optional h
    ((find?_lookOf ctx e (by decide)).trans hcomponent)
  have howner := attributeText?_of_optional h ((find?_lookOf ctx e (by decide)).trans howner)
  have hownerKind : readOwnerKind head = .ok (some e.ownership.kind) := by
    rw [readOwnerKind, hb]
    simp [htext, Bind.bind, Except.bind]
  unfold readOwnership
  rw [hownerKind, hcomponent, howner]
  obtain ⟨kind, ownerId⟩ := e.ownership
  cases kind <;> rfl

theorem readName_of_look : attributeText? head nameAttribute = .ok e.name :=
  attributeText?_of_optional h ((find?_lookOf ctx e (by decide)).trans (find?_metadata e).2.2.2.1)

theorem readInstance_of_look : attributeText? head instanceAttribute = .ok e.instanceRef :=
  attributeText?_of_optional h ((find?_lookOf ctx e (by decide)).trans (find?_metadata e).2.2.1)

end

end DesignSync.Markup

import DesignSync.Proofs.Document.Exclusive
import DesignSync.Proofs.Markup.Looks

/-!
Elements that markup can carry: their tags and names are such that a reader takes them as a whole,
and what they keep as source stays between its braces.
-/

namespace DesignSync.Markup

open Text

/-- Whether an expression is kept as it is written when it stands as content. -/
def Expression.IsOpaque : Expression → Prop
  | .empty | .text _ | .member _ => False
  | _ => True

/-- An element that markup can spell: a name with a colon consists of two identifiers, and a source
is trimmed and held exactly by braces around it. -/
structure Spellable (e : Element) : Prop where
  tag : IsTagName e.tag
  flags : ∀ flag, e.properties.state.contains flag = true → ':' ∈ flag.toList →
    IsReadableName (stateMark ++ flag)
  attributes : ∀ name, e.properties.attributes.contains name = true → ':' ∈ name.toList →
    IsReadableName name
  events : ∀ name, e.properties.events.contains name = true → ':' ∈ name.toList →
    IsReadableName name
  handlers : ∀ name handler, e.properties.events.get? name = some handler →
    trimmed handler = handler ∧ Captured handler
  expression : ∀ s, e.properties.content.expression = some s →
    trimmed s = s ∧ Captured s ∧ (Expression.classify s).IsOpaque

/-- An element that markup can carry: it can be spelled, and its bindings lead to their targets and
back. -/
structure Portable (ctx : BindingContext) (e : Element) : Prop extends Spellable e where
  exclusive : e.Exclusive
  resolved : Resolved ctx e.properties

/-! ### Names -/

private theorem hasDoubleDash_tail {c : Char} {cs : List Char}
    (h : hasDoubleDash (c :: cs) = false) : hasDoubleDash cs = false := by
  rw [hasDoubleDash.eq_def] at h
  split at h
  · next heq => cases heq
  · cases h
  · next heq =>
    obtain ⟨-, rfl⟩ := List.cons.inj heq
    exact h

private theorem getLast?_tail {c d : Char} {cs : List Char} (h : (c :: cs).getLast? ≠ some d) :
    cs.getLast? ≠ some d := by
  cases cs with
  | nil => simp
  | cons e cs => rwa [List.getLast?_cons_cons] at h

private theorem isWordTail_of_name {cs : List Char}
    (hall : ∀ c ∈ cs, isNameChar c = true ∨ c = '-') (hlast : cs.getLast? ≠ some '-')
    (hdouble : hasDoubleDash cs = false) : isWordTail cs = true := by
  fun_induction isWordTail cs with
  | case1 => rfl
  | case2 c cs ih =>
    have hne : c ≠ '-' := by
      rintro rfl
      cases hdouble
    have hc : isNameChar c = true := (hall c (by simp)).resolve_right hne
    rw [hc, ih (fun d hd => hall d (by simp [hd])) (getLast?_tail (getLast?_tail hlast))
      (hasDoubleDash_tail (hasDoubleDash_tail hdouble))]
    rfl
  | case3 c cs hdash ih =>
    have hne : c ≠ '-' := by
      rintro rfl
      cases cs with
      | nil => exact hlast rfl
      | cons d cs => exact hdash d cs rfl rfl
    have hc : isNameChar c = true := (hall c (by simp)).resolve_right hne
    rw [hc, ih (fun d hd => hall d (by simp [hd])) (getLast?_tail hlast)
      (hasDoubleDash_tail hdouble)]
    rfl

/-- A name that can be written is an identifier, if it has no colon. -/
theorem isIdentifier_of_isAttributeName {name : String} (h : isAttributeName name = true)
    (hcolon : ':' ∉ name.toList) : isIdentifier name.toList = true := by
  simp only [isAttributeName, Bool.and_eq_true, bne_iff_ne, Bool.not_eq_true', List.all_eq_true,
    Bool.or_eq_true, beq_iff_eq] at h
  obtain ⟨⟨⟨hstart, hall⟩, hlast⟩, hdouble⟩ := h
  cases hcs : name.toList with
  | nil =>
    rw [hcs] at hstart
    cases hstart
  | cons c cs =>
    rw [hcs] at hstart hall hlast hdouble hcolon
    have hname : ∀ d ∈ cs, isNameChar d = true ∨ d = '-' := by
      intro d hd
      have hd' := List.mem_cons_of_mem c hd
      rcases hall d hd' with h | rfl
      · exact h
      · exact absurd hd' hcolon
    have hc : isNameStart c = true := by simpa using hstart
    rw [isIdentifier, hc, isWordTail_of_name hname (getLast?_tail hlast)
      (hasDoubleDash_tail hdouble)]
    rfl

/-- A name that can be written is taken as a whole, if it is when it has a colon. -/
theorem isReadableName_of_isAttributeName {name : String} (h : isAttributeName name = true)
    (hcolon : ':' ∈ name.toList → IsReadableName name) : IsReadableName name := by
  by_cases hmem : ':' ∈ name.toList
  · exact hcolon hmem
  · exact .inl (isIdentifier_of_isAttributeName h hmem)

/-! ### Looks -/

variable {ctx : BindingContext} {e : Element}

private theorem isIdentifier_of_isMetadata {name : String} (h : isMetadata name = true) :
    isIdentifier name.toList = true := by
  have hall : ∀ name ∈ [idAttribute, kindAttribute, instanceAttribute, nameAttribute,
      ownershipAttribute, componentAttribute, ownerAttribute], isIdentifier name.toList = true := by
    decide
  exact hall name (List.contains_iff_mem.1 h)

theorem captured_bool (b : Bool) : Captured (if b then "true" else "false") := by
  cases b
  · exact captured_of_inert (.of_all (by decide))
  · exact captured_of_inert (.of_all (by decide))

private theorem contains_of_mem {α : Type} {d : Dict α} {x : String × α} (h : x ∈ d.entries) :
    d.get? x.1 = some x.2 ∧ d.contains x.1 = true := by
  have hget := Dict.get?_eq_some_iff.2 h
  exact ⟨hget, by rw [Dict.contains, hget]; rfl⟩

theorem isReadable_propertyAttributes (h : Spellable e) :
    ∀ a ∈ propertyAttributes ctx e.properties, IsReadableName a.1 ∧ a.2.IsReadable := by
  intro a ha
  simp only [propertyAttributes, List.mem_append, List.mem_map] at ha
  rcases ha with ((⟨x, hx, rfl⟩ | ⟨x, hx, rfl⟩) | ⟨x, hx, rfl⟩) | ha
  · obtain ⟨hentry, hname⟩ := List.mem_filter.1 hx
    refine ⟨isReadableName_of_isAttributeName hname fun hcolon => ?_, ?_⟩
    · refine h.flags x.1 (contains_of_mem hentry).2 ?_
      rw [String.toList_append, List.mem_append] at hcolon
      exact hcolon.resolve_left (by decide)
    · cases x.2 with
      | bool b => exact captured_bool b
      | text s => trivial
  · obtain ⟨hentry, hname⟩ := List.mem_filter.1 hx
    simp only [isWritableName, Bool.and_eq_true] at hname
    exact ⟨isReadableName_of_isAttributeName hname.2
      (h.attributes x.1 (contains_of_mem hentry).2), trivial⟩
  · obtain ⟨hentry, hname⟩ := List.mem_filter.1 hx
    simp only [isWritableName, Bool.and_eq_true] at hname
    obtain ⟨hget, hcontains⟩ := contains_of_mem hentry
    exact ⟨isReadableName_of_isAttributeName hname.2.2 (h.events x.1 hcontains),
      (h.handlers x.1 x.2 hget).2⟩
  · unfold styleAttributes at ha
    split at ha
    · cases ha
    · rw [List.mem_singleton.1 ha]
      exact ⟨.inl (by decide : isIdentifier styleAttribute.toList = true),
        captured_styleText (isWritable_styleEntries ctx e.properties.style)⟩

theorem captured_bindingsMark : Captured bindingsMark := by
  unfold Captured
  cbv

theorem isReadable_innerOf (h : Spellable e) : (innerOf ctx e.properties).IsReadable where
  before s hs := by
    simp only [innerOf, List.mem_append, Option.mem_toList, Option.map_eq_some_iff,
      Option.bind_eq_some_iff] at hs
    rcases hs with (hs | ⟨b, hb, hpath⟩) | ⟨t, -, rfl⟩
    · split at hs
      · rw [List.mem_singleton.1 hs]
        exact captured_bindingsMark
      · cases hs
    · obtain ⟨t, -, rfl⟩ := Option.map_eq_some_iff.1 hpath
      exact captured_of_inert (inert_memberExpression b.kind t.name)
    · exact captured_of_inert (.quoted t)
  text s hs := by
    have hneeds := (Option.mem_filter_iff.1 hs).2
    simpa using hneeds
  behind s hs := (h.expression s (Option.mem_toList.1 hs)).2.1

/-- An element that markup can spell has a look that can be read back. -/
theorem isReadable_lookOf (h : Spellable e) : (lookOf ctx e).IsReadable where
  tag := h.tag
  names a ha := by
    rcases List.mem_append.1 ha with ha | ha
    · exact .inl (isIdentifier_of_isMetadata (mem_metadataAttributes ha).1)
    · exact (isReadable_propertyAttributes h a ha).1
  said a ha := by
    rcases List.mem_append.1 ha with ha | ha
    · obtain ⟨s, hs⟩ := (mem_metadataAttributes ha).2
      rw [hs]
      trivial
    · exact (isReadable_propertyAttributes h a ha).2
  inner i hi := by
    simp only [lookOf] at hi
    split at hi
    · cases hi
    · rw [← Option.some.inj hi]
      exact isReadable_innerOf h

end DesignSync.Markup

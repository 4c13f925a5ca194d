import DesignSync.Proofs.Document.Merging
import DesignSync.Proofs.Document.Run
import DesignSync.Proofs.Sync.Inbound

/-!
Adding what is there. An element that is merged into itself stays as it is, so that adding it again
changes nothing, unless its content has a text and an expression: a merge keeps one part of content
only, and the text is lost.
-/

namespace DesignSync

/-- Putting the entries of a dictionary into it once more. -/
theorem Dict.extend_extend {α : Type} (d e : Dict α) : (d.extend e).extend e = d.extend e := by
  refine ext_get? fun key => ?_
  rw [get?_extend, get?_extend, ← Option.or_assoc, Option.or_self]

theorem Dict.extend_self {α : Type} (d : Dict α) : d.extend d = d := by
  refine ext_get? fun key => ?_
  rw [get?_extend, Option.or_self]

namespace Content

/-- Whether there is a text and an expression beside it. -/
def isMixed (c : Content) : Bool := c.text.isSome && c.expression.isSome

theorem Exclusive.leading_eq {c : Content} (h : c.Exclusive) (hmixed : c.isMixed = false) :
    c.leading = c := by
  obtain ⟨_ | t, b, _ | e⟩ := c
  · rfl
  · rw [show b = none from h rfl]
    rfl
  · rw [show b = none from h rfl]
    rfl
  · cases hmixed

theorem isMixed_reconcile (c : Content) : c.reconcile.isMixed = c.isMixed := by
  obtain ⟨_ | t, _ | b, _ | e⟩ := c <;> rfl

/-- Content that is merged with itself keeps what counts of it. -/
theorem Exclusive.merge_self {c : Content} (h : c.Exclusive) : c.merge c = c.leading := by
  cases hempty : c.isEmpty with
  | true =>
    rw [merge_of_isEmpty _ hempty, h.reconcile_eq, h.leading_eq]
    simp_all [Content.isEmpty, Content.hasLiteral, Content.isMixed]
  | false => exact merge_of_not_isEmpty _ hempty

theorem leading_ne {c : Content} (h : c.isMixed = true) : c.leading ≠ c := by
  obtain ⟨_ | t, b, _ | e⟩ := c
  case some.some => simp [leading]
  all_goals cases h

end Content

/-! ### The patch of an element -/

/-- The element with one part of its content only. -/
def Element.leading (e : Element) : Element :=
  { e with properties := { e.properties with content := e.properties.content.leading } }

namespace ElementPatch

theorem reconcile_apply (patch : ElementPatch) (x : Element) :
    Element.reconcile { patch.apply x with id := x.id } = patch.apply x := by
  have hexclusive : (patch.apply x).Exclusive := Element.reconcile_exclusive _
  exact hexclusive.reconcile_eq

/-- What the patch of an element leaves of the element it is put over. -/
theorem apply_ofElement (e x : Element) : (ofElement e).apply x =
    { id := x.id
      tag := e.tag
      kind := e.kind
      name := e.name.or x.name
      ownership := e.ownership
      instanceRef := e.instanceRef.or x.instanceRef
      properties :=
        { style := x.properties.style.merge e.properties.style
          content := x.properties.content.merge e.properties.content
          attributes := x.properties.attributes.extend e.properties.attributes
          events := x.properties.events.extend e.properties.events
          state := x.properties.state.extend e.properties.state
          children := e.properties.children } } := by
  have hstyle : (x.properties.style.merge e.properties.style).reconcile =
      x.properties.style.merge e.properties.style := (Style.merge_exclusive _ _).reconcile_eq
  have hcontent : Content.reconcile ((if e.properties.content.isEmpty then none
      else some e.properties.content).elim x.properties.content x.properties.content.merge) =
      x.properties.content.merge e.properties.content := by
    cases hempty : e.properties.content.isEmpty with
    | true =>
      rw [Content.merge_of_isEmpty _ hempty]
      rfl
    | false =>
      rw [Content.merge_of_not_isEmpty _ hempty, ← Content.reconcile_leading,
        ← Content.merge_of_not_isEmpty x.properties.content hempty]
      rfl
  rw [← hstyle, ← hcontent]
  rfl

/-- Merging an element into itself keeps all of it but the lesser parts of its content. -/
theorem apply_self {e : Element} (h : e.Exclusive) : (ofElement e).apply e = e.leading := by
  have hstyle : e.properties.style.merge e.properties.style = e.properties.style := by
    rw [Style.merge_self, h.style.reconcile_eq]
  rw [apply_ofElement, hstyle, h.content.merge_self]
  simp only [Option.or_self, Dict.extend_self]
  rfl

/-- The patch of a reconciled element does what that of the element does. -/
theorem apply_ofElement_reconcile (e x : Element) :
    (ofElement e.reconcile).apply x = (ofElement e).apply x := by
  have hstyle : x.properties.style.merge e.properties.style.reconcile =
      x.properties.style.merge e.properties.style := Style.merge_congr (Style.value?_reconcile _)
  have hcontent : x.properties.content.merge e.properties.content.reconcile =
      x.properties.content.merge e.properties.content := Content.merge_reconcile _ _
  rw [apply_ofElement, apply_ofElement, ← hstyle, ← hcontent]
  rfl

/-- A patch that has been put over an element does nothing to it the next time. -/
theorem apply_again (e x : Element) :
    (ofElement e).apply ((ofElement e).apply x) = (ofElement e).apply x := by
  simp only [apply_ofElement, Style.merge_again, Content.merge_again, Dict.extend_extend,
    ← Option.or_assoc, Option.or_self]

end ElementPatch

namespace Store

/-! ### Stores -/

/-- The stores that any operations and any pulls, in any order, lead to from the empty one. -/
inductive Grown : Store → Prop
  | empty : Grown Store.empty
  | perform {s : Store} (h : Grown s) (op : Operation) : Grown (s.perform op)
  | pull {β : Type} [Buffer β] {s : Store} (h : Grown s) (c : Coordinator β) : Grown (c.pull s).2.1

theorem Grown.sound {s : Store} (h : s.Grown) : s.Sound := by
  induction h with
  | empty => exact empty_sound
  | perform _ op ih => exact ih.perform op
  | pull _ c ih => exact c.sound_pull ih

theorem transact_eq {s : Store} {id : String} {e : Element} (he : s.element? id = some e)
    {f : Element → Element} {new : Element}
    (hnew : Element.reconcile { f e with id := e.id } = new) :
    s.transact id f = if new == e then (s, false) else (s.commit new, true) := by
  simp only [transact, he, hnew]

/-- A change that does nothing to an element that it has been made to does nothing the next time. -/
theorem transact_again {s : Store} {id : String} {f : Element → Element}
    (hid : ∀ e, s.element? id = some e → e.id = id) (hf : ∀ e, f (f e) = f e)
    (hfixed : ∀ e, Element.reconcile { f e with id := e.id } = f e) :
    (s.transact id f).1.transact id f = ((s.transact id f).1, false) := by
  cases he : s.element? id with
  | none => simp [transact, he]
  | some e =>
    rw [transact_eq he (hfixed e)]
    cases hsame : f e == e with
    | true =>
      simp only [if_true]
      rw [transact_eq he (hfixed e), hsame]
      rfl
    | false =>
      have hfe : (f e).id = id := by
        have heq := congrArg Element.id (hfixed e)
        exact heq.symm.trans (hid e he)
      have hnow : (s.commit (f e)).element? id = some (f e) := by
        rw [element?_commit, if_pos hfe.symm]
      simp only [Bool.false_eq_true, if_false]
      rw [transact_eq hnow (hfixed (f e)), hf e]
      simp

section OwnState

variable {s : Store} {e : Element}

theorem reconcile_leading (h : e.Exclusive) : e.leading.reconcile = e.leading := by
  simp only [Element.leading, Element.reconcile, Properties.reconcile, h.style.reconcile_eq,
    Content.reconcile_leading]

theorem leading_beq (h : e.Exclusive) :
    (e.leading == e) = !e.properties.content.isMixed := by
  cases hmixed : e.properties.content.isMixed with
  | false =>
    have hsame : e.leading = e := by
      simp only [Element.leading, h.content.leading_eq hmixed]
    rw [hsame]
    exact BEq.rfl
  | true =>
    refine Bool.eq_false_iff.2 fun hbeq => Content.leading_ne hmixed ?_
    exact (Properties.beq_iff.1 (Element.beq_iff.1 hbeq).2.2.2.2.2.1).2.1

/-- A change that makes one part of the content of an element stay changes something just when there
are two. -/
theorem transact_leading (he : s.element? e.id = some e) (h : e.Exclusive)
    {f : Element → Element} (hf : { f e with id := e.id } = e.leading) :
    s.transact e.id f =
      if e.properties.content.isMixed then (s.commit e.leading, true) else (s, false) := by
  rw [transact_eq he ((congrArg Element.reconcile hf).trans (reconcile_leading h)), leading_beq h]
  cases e.properties.content.isMixed <;> rfl

theorem addElement_own (he : s.element? e.id = some e) (h : e.Exclusive) : s.addElement e =
    if e.properties.content.isMixed then (s.commit e.leading, true) else (s, false) := by
  have hthere : s.contains e.id = true := by rw [contains, he]; rfl
  rw [addElement, if_pos hthere]
  exact transact_leading he h (by rw [ElementPatch.apply_self h]; rfl)

theorem updateElement_own (he : s.element? e.id = some e) (h : e.Exclusive) :
    s.updateElement e.id (.ofElement e) =
      if e.properties.content.isMixed then (s.commit e.leading, true) else (s, false) :=
  transact_leading he h (by rw [ElementPatch.apply_self h]; rfl)

theorem mergeContent_own (he : s.element? e.id = some e) (h : e.Exclusive) :
    s.mergeContent e.id e.properties.content =
      if e.properties.content.isMixed then (s.commit e.leading, true) else (s, false) := by
  refine transact_leading he h ?_
  simp only [h.content.merge_self]
  rfl

theorem addElement_reconcile (s : Store) (e : Element) :
    s.addElement e.reconcile = s.addElement e := by
  have hpatch : (ElementPatch.ofElement e.reconcile).apply = (ElementPatch.ofElement e).apply :=
    funext (ElementPatch.apply_ofElement_reconcile e)
  rw [addElement, addElement, hpatch, (Element.reconcile_exclusive e).reconcile_eq]
  rfl

/-- Whether an id is there does not change with its element. -/
theorem contains_transact (s : Store) (id : String) (f : Element → Element) :
    (s.transact id f).1.contains id = s.contains id := by
  cases he : s.element? id with
  | none => simp [transact, he]
  | some old =>
    rw [transact_eq he rfl]
    split
    · rfl
    · change ((s.commit _).element? id).isSome = (s.element? id).isSome
      rw [element?_commit, he]
      split <;> rfl

/-- Adding an element once more changes nothing. -/
theorem addElement_again (h : s.Sound) (hmixed : e.properties.content.isMixed = false) :
    (s.addElement e).1.addElement e = ((s.addElement e).1, false) := by
  cases hthere : s.contains e.id with
  | true =>
    have hadd : s.addElement e = s.transact e.id (ElementPatch.ofElement e).apply := if_pos hthere
    rw [hadd]
    have hkept := contains_transact s e.id (ElementPatch.ofElement e).apply
    rw [addElement, if_pos (hkept.trans hthere)]
    exact transact_again (h.named e.id) (ElementPatch.apply_again e)
      (ElementPatch.ofElement e).reconcile_apply
  | false =>
    have hadd : s.addElement e = (s.commit e.reconcile, true) :=
      if_neg (by rw [hthere]; exact Bool.false_ne_true)
    have hnow : (s.commit e.reconcile).element? e.reconcile.id = some e.reconcile := by
      rw [element?_commit, if_pos rfl]
    have hplain : e.reconcile.properties.content.isMixed = false :=
      (Content.isMixed_reconcile _).trans hmixed
    rw [hadd, ← addElement_reconcile, addElement_own hnow (Element.reconcile_exclusive e), hplain]
    rfl

end OwnState

/-- What is there may be merged into itself: a stored element that is added again, patched with all
it has or given its own content stays as it is, and so does the whole store, its revision too. Where
the content has a text and an expression the text is lost instead. So adding an element once more
changes nothing, with that exception. -/
theorem own_state_kept {s : Store} (h : s.Grown) :
    (∀ id e, s.element? id = some e → e.properties.content.isMixed = false →
      s.addElement e = (s, false) ∧ s.updateElement e.id (.ofElement e) = (s, false) ∧
        s.mergeContent e.id e.properties.content = (s, false)) ∧
    (∀ id e, s.element? id = some e → e.properties.content.isMixed = true →
      s.addElement e = (s.commit e.leading, true) ∧
        s.updateElement e.id (.ofElement e) = (s.commit e.leading, true) ∧
        s.mergeContent e.id e.properties.content = (s.commit e.leading, true)) ∧
    (∀ e, e.properties.content.isMixed = false →
      (s.addElement e).1.addElement e = ((s.addElement e).1, false)) := by
  have hsound : s.Sound := h.sound
  refine ⟨fun id e he hplain => ?_, fun id e he hmixed => ?_, fun e => addElement_again hsound⟩
  · have hexclusive := hsound.exclusive id e he
    have hown : s.element? e.id = some e := (hsound.named id e he).symm ▸ he
    rw [addElement_own hown hexclusive, updateElement_own hown hexclusive,
      mergeContent_own hown hexclusive, hplain]
    exact ⟨rfl, rfl, rfl⟩
  · have hexclusive := hsound.exclusive id e he
    have hown : s.element? e.id = some e := (hsound.named id e he).symm ▸ he
    rw [addElement_own hown hexclusive, updateElement_own hown hexclusive,
      mergeContent_own hown hexclusive, hmixed]
    exact ⟨rfl, rfl, rfl⟩

/-- A text by itself. -/
def greeting : Content := ⟨some "Hello", none, none⟩

/-- A text in front of an expression. -/
def namedGreeting : Content := ⟨some "Hello", none, some "name()"⟩

/-- A paragraph with some content. -/
def paragraph (c : Content) : Element :=
  ⟨"p", "p", .element, none, ⟨.screen, "home"⟩, { Properties.empty with content := c }, none⟩

/-- The store with one paragraph. -/
def withParagraph (c : Content) : Store := Store.empty.perform (.addElement (paragraph c))

theorem own_state_kept_greeting :
    (withParagraph greeting).Grown ∧
      (withParagraph greeting).element? "p" = some (paragraph greeting) ∧
      (withParagraph greeting).addElement (paragraph greeting) = (withParagraph greeting, false) ∧
      (withParagraph greeting).updateElement "p" (.ofElement (paragraph greeting)) =
        (withParagraph greeting, false) ∧
      (withParagraph greeting).mergeContent "p" greeting = (withParagraph greeting, false) :=
  have hgrown : (withParagraph greeting).Grown := .perform .empty _
  ⟨hgrown, rfl, (own_state_kept hgrown).1 "p" (paragraph greeting) rfl rfl⟩

/-- A text in front of an expression is stored as it comes. Adding the same element again changes
the store, and the text is lost. -/
theorem added_again_loses_text :
    (withParagraph namedGreeting).Grown ∧
      (withParagraph namedGreeting).element? "p" = some (paragraph namedGreeting) ∧
      ((withParagraph namedGreeting).addElement (paragraph namedGreeting)).2 = true ∧
      (((withParagraph namedGreeting).addElement (paragraph namedGreeting)).1.element? "p").map
        (·.properties.content) = some ⟨none, none, some "name()"⟩ :=
  ⟨.perform .empty _, rfl, by decide, by decide⟩

end Store

end DesignSync

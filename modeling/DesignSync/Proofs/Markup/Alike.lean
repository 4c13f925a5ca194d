import Mathlib.Data.List.Forall2
import DesignSync.Proofs.Markup.ElementTree

/-!
Trees that differ at most in where their parts stand in a source. The elements that two such trees
stand for are the same if the same is known of bindings, and otherwise the same but for bindings;
and one tree is refused just when the other is.
-/

namespace DesignSync

/-! ### Without bindings -/

def Style.unbound (s : Style) : Style := { s with bindings := none }

def Content.unbound (c : Content) : Content := { c with binding := none }

def Properties.unbound (p : Properties) : Properties :=
  { p with style := p.style.unbound, content := p.content.unbound }

/-- An element without its bindings: every literal, and all else that it is. -/
def Element.unbound (e : Element) : Element := { e with properties := e.properties.unbound }

/-- Reconciling takes away nothing but bindings. -/
theorem Content.unbound_reconcile (c : Content) : c.reconcile.unbound = c.unbound := by
  rw [reconcile_eq]
  split <;> rfl

theorem Style.unbound_reconcile (s : Style) : s.reconcile.unbound = s.unbound := by
  rw [reconcile_eq]
  rfl

namespace Markup

open Text

/-! ### Trees -/

variable {placed known : Prop}

/-- The same braced expression, at the same place if `placed`. -/
structure Braced.Alike (placed : Prop) (a b : Braced) : Prop where
  raw : a.raw = b.raw
  expression : a.expression = b.expression
  span : placed → a.span = b.span

inductive AttributeValue.Alike (placed : Prop) : AttributeValue → AttributeValue → Prop
  | implicit : Alike placed .implicit .implicit
  | text (s : String) : Alike placed (.text s) (.text s)
  | braced {a b : Braced} (h : a.Alike placed b) : Alike placed (.braced a) (.braced b)

structure Attribute.Alike (placed : Prop) (a b : Attribute) : Prop where
  name : a.name = b.name
  value : a.value.Alike placed b.value
  span : placed → a.span = b.span

structure Head.Alike (placed : Prop) (h h' : Head) : Prop where
  tag : h.tag = h'.tag
  attributes : List.Forall₂ (Attribute.Alike placed) h.attributes h'.attributes
  selfClosing : h.selfClosing = h'.selfClosing
  span : placed → h.span = h'.span

/-- The same nodes, at the same places if `placed`. -/
inductive NodesAlike (placed : Prop) : List Node → List Node → Prop
  | nil : NodesAlike placed [] []
  | element {h h' : Head} {cs cs' ns ns' : List Node} (hhead : h.Alike placed h')
      (hinside : NodesAlike placed cs cs') (hbeside : NodesAlike placed ns ns') :
      NodesAlike placed (.element h cs :: ns) (.element h' cs' :: ns')
  | text {s : String} {span span' : Span} {ns ns' : List Node} (hspan : placed → span = span')
      (hbeside : NodesAlike placed ns ns') :
      NodesAlike placed (.text s span :: ns) (.text s span' :: ns')
  | braced {b b' : Braced} {ns ns' : List Node} (hbraced : b.Alike placed b')
      (hbeside : NodesAlike placed ns ns') :
      NodesAlike placed (.braced b :: ns) (.braced b' :: ns')

structure Tree.Alike (placed : Prop) (t t' : Tree) : Prop where
  head : t.head.Alike placed t'.head
  children : NodesAlike placed t.children t'.children

theorem Braced.Alike.refl (b : Braced) : b.Alike placed b := ⟨rfl, rfl, fun _ => rfl⟩

theorem AttributeValue.Alike.refl (v : AttributeValue) : v.Alike placed v := by
  cases v with
  | implicit => exact .implicit
  | text s => exact .text s
  | braced b => exact .braced (.refl b)

theorem Head.Alike.refl (h : Head) : h.Alike placed h :=
  ⟨rfl, List.forall₂_same.2 fun a _ => ⟨rfl, .refl a.value, fun _ => rfl⟩, rfl, fun _ => rfl⟩

theorem NodesAlike.refl : ∀ ns : List Node, NodesAlike placed ns ns
  | [] => .nil
  | .element h cs :: ns => .element (.refl h) (refl cs) (refl ns)
  | .text _ _ :: ns => .text (fun _ => rfl) (refl ns)
  | .braced b :: ns => .braced (.refl b) (refl ns)

theorem Tree.Alike.refl (t : Tree) : t.Alike placed t := ⟨.refl t.head, .refl t.children⟩

/-! ### Two readings -/

/-- Two readings agree: both fail, for the same reason if `placed`, or they give results that are
related. -/
inductive Agree {α β : Type} (placed : Prop) (R : α → β → Prop) :
    Except ReadError α → Except ReadError β → Prop
  | ok {a : α} {b : β} (h : R a b) : Agree placed R (.ok a) (.ok b)
  | error {e e' : ReadError} (h : placed → e = e') : Agree placed R (.error e) (.error e')

namespace Agree

variable {α β γ δ : Type} {R : α → β → Prop} {S : γ → δ → Prop}

theorem bind {x : Except ReadError α} {y : Except ReadError β} {f : α → Except ReadError γ}
    {g : β → Except ReadError δ} (h : Agree placed R x y)
    (hf : ∀ a b, R a b → Agree placed S (f a) (g b)) : Agree placed S (x >>= f) (y >>= g) := by
  cases h with
  | ok h => exact hf _ _ h
  | error h => exact .error h

theorem map {x : Except ReadError α} {y : Except ReadError β} {f : α → γ} {g : β → δ}
    (h : Agree placed R x y) (hf : ∀ a b, R a b → S (f a) (g b)) :
    Agree placed S (x.map f) (y.map g) := by
  cases h with
  | ok h => exact .ok (hf _ _ h)
  | error h => exact .error h

theorem cases {x : Except ReadError α} {y : Except ReadError β} (h : Agree placed R x y) :
    (∃ e e', x = .error e ∧ y = .error e') ∨ ∃ a b, x = .ok a ∧ y = .ok b ∧ R a b := by
  cases h with
  | ok h => exact .inr ⟨_, _, rfl, rfl, h⟩
  | error => exact .inl ⟨_, _, rfl, rfl⟩

theorem map_eq {x : Except ReadError α} {y : Except ReadError β} {f : α → γ} {g : β → γ}
    (h : Agree True R x y) (hf : ∀ a b, R a b → f a = g b) : x.map f = y.map g := by
  cases h with
  | ok h => exact congrArg Except.ok (hf _ _ h)
  | error h => exact congrArg Except.error (h trivial)

theorem foldlM {f : α → γ → Except ReadError α} {g : β → δ → Except ReadError β}
    (hf : ∀ a b c d, R a b → S c d → Agree placed R (f a c) (g b d)) {cs : List γ} {ds : List δ}
    (h : List.Forall₂ S cs ds) {a : α} {b : β} (hab : R a b) :
    Agree placed R (cs.foldlM f a) (ds.foldlM g b) := by
  induction h generalizing a b with
  | nil => exact .ok hab
  | cons hcd _ ih =>
    rw [List.foldlM_cons, List.foldlM_cons]
    exact (hf _ _ _ _ hab hcd).bind fun _ _ => ih

end Agree

/-- Two things that look the same through `view`, and are the same if `known`. -/
def Same {α β : Type} (known : Prop) (view : α → β) (x y : α) : Prop :=
  view x = view y ∧ (known → x = y)

theorem Same.refl {α β : Type} (view : α → β) (x : α) : Same known view x x :=
  ⟨rfl, fun _ => rfl⟩

theorem Same.map {α : Type} {view : α → α} {x y : α} (h : Same known view x y) (g : α → α)
    (hg : ∀ x, view (g x) = g (view x)) : Same known view (g x) (g y) :=
  ⟨by rw [hg, hg, h.1], fun hk => congrArg g (h.2 hk)⟩

theorem Same.map₂ {α β γ : Type} {view : α → α} {view' : β → β} {view'' : γ → γ} {x y : α}
    {z w : β} (h : Same known view x y) (h' : Same known view' z w) (g : α → β → γ)
    (hg : ∀ x z, view'' (g x z) = g (view x) (view' z)) : Same known view'' (g x z) (g y w) :=
  ⟨by rw [hg, hg, h.1, h'.1], fun hk => congrArg₂ g (h.2 hk) (h'.2 hk)⟩

/-- The same for two things with what is carried along beside them. -/
def SameStep {α β : Type} (known : Prop) (view : α → β) : α × Progress → α × Progress → Prop
  | (x, st), (y, st') => Same known view x y ∧ st.ids = st'.ids

/-! ### Attributes that say which element this is -/

theorem AttributeValue.Alike.text?_eq {v w : AttributeValue} (h : v.Alike placed w) :
    v.text? = w.text? := by
  cases h with
  | implicit => rfl
  | text s => rfl
  | braced hb => simp only [text?, hb.expression]

theorem textOf_agree {a b : Attribute} (h : a.Alike placed b) :
    Agree placed Eq (textOf a) (textOf b) := by
  unfold textOf
  rw [h.value.text?_eq]
  cases b.value.text? with
  | some s => exact .ok rfl
  | none => exact .error fun hp => by rw [h.span hp, h.name]

theorem attribute?_alike {h h' : Head} (hh : h.Alike placed h') (name : String) :
    Option.Rel (Attribute.Alike placed) (h.attribute? name) (h'.attribute? name) := by
  unfold Head.attribute?
  have hattributes := hh.attributes
  generalize h.attributes = as, h'.attributes = bs at hattributes
  induction hattributes with
  | nil => exact .none
  | @cons a b _ _ hab _ ih =>
    rw [List.find?_cons, List.find?_cons, hab.name]
    cases b.name == name with
    | true => exact .some hab
    | false => exact ih

variable {h h' : Head} {st st' : Progress}

theorem attributeText?_agree (hh : h.Alike placed h') (name : String) :
    Agree placed Eq (attributeText? h name) (attributeText? h' name) := by
  have hrel := attribute?_alike hh name
  unfold attributeText?
  generalize h.attribute? name = a, h'.attribute? name = b at hrel
  cases hrel with
  | none => exact .ok rfl
  | some hab => exact (textOf_agree hab).map fun _ _ => congrArg some

/-- The id that is there, or else a generated one, and no id twice. -/
theorem readId_agree (seed : String) (hh : h.Alike placed h') (hst : st.ids = st'.ids) :
    Agree placed (fun x y => x.1 = y.1 ∧ x.2.ids = y.2.ids) (readId seed h st)
      (readId seed h' st') := by
  obtain ⟨hgenerated, hseen⟩ := Prod.mk.inj hst
  refine (attributeText?_agree hh _).bind ?_
  rintro given _ rfl
  cases given with
  | some id =>
    simp only [pure_bind, hseen]
    split
    · exact .error fun hp => by rw [hh.span hp]
    · exact .ok ⟨rfl, Prod.ext hgenerated rfl⟩
  | none =>
    simp only [pure_bind, Progress.report, hseen, hgenerated]
    split
    · exact .error fun hp => by rw [hh.span hp]
    · exact .ok ⟨rfl, rfl⟩

theorem readKind_agree (hh : h.Alike placed h') :
    Agree placed Eq (readKind h) (readKind h') := by
  have hrel := attribute?_alike hh kindAttribute
  unfold readKind
  generalize h.attribute? kindAttribute = a, h'.attribute? kindAttribute = b at hrel
  cases hrel with
  | none => exact .ok rfl
  | some hab =>
    refine (textOf_agree hab).bind ?_
    rintro value _ rfl
    cases ElementKind.ofName? value with
    | some kind => exact .ok rfl
    | none => exact .error fun hp => by rw [hab.span hp]

theorem readOwnerKind_agree (hh : h.Alike placed h') :
    Agree placed Eq (readOwnerKind h) (readOwnerKind h') := by
  have hrel := attribute?_alike hh ownershipAttribute
  unfold readOwnerKind
  generalize h.attribute? ownershipAttribute = a, h'.attribute? ownershipAttribute = b at hrel
  cases hrel with
  | none => exact .ok rfl
  | some hab =>
    refine (textOf_agree hab).bind ?_
    rintro value _ rfl
    cases OwnerKind.ofName? value with
    | some kind => exact .ok rfl
    | none => exact .error fun hp => by rw [hab.span hp]

theorem readOwnership_agree (hh : h.Alike placed h') (parent : Option String) :
    Agree placed Eq (readOwnership h parent) (readOwnership h' parent) := by
  refine (readOwnerKind_agree hh).bind ?_
  rintro kind _ rfl
  refine (attributeText?_agree hh _).bind ?_
  rintro componentId _ rfl
  refine (attributeText?_agree hh _).bind ?_
  rintro ownerId _ rfl
  split <;> split
  all_goals first
    | exact .ok rfl
    | exact .error fun hp => by rw [hh.span hp]

/-! ### Properties -/

variable {ctx ctx' : BindingContext}

theorem AttributeValue.Alike.stateFlagOf?_eq {v w : AttributeValue} (h : v.Alike placed w) :
    stateFlagOf? v = stateFlagOf? w := by
  cases h with
  | implicit => rfl
  | text s => rfl
  | braced hb => simp only [stateFlagOf?, hb.expression]

theorem readStyleEntry_agree (hctx : known → ctx = ctx') (id : String) {span span' : Span}
    (hspan : placed → span = span') (entry : String × Expression) {x y : Style × Progress}
    (h : SameStep known Style.unbound x y) :
    Agree placed (SameStep known Style.unbound) (readStyleEntry ctx id span x entry)
      (readStyleEntry ctx' id span' y entry) := by
  obtain ⟨s, st⟩ := x
  obtain ⟨s', st'⟩ := y
  obtain ⟨key, value⟩ := entry
  obtain ⟨hs, hids⟩ := h
  unfold readStyleEntry
  cases value
  case text v =>
    exact .ok ⟨hs.map (fun s => { s with literals := s.literals.insert key (.text v) })
      fun _ => rfl, hids⟩
  case number v =>
    exact .ok ⟨hs.map (fun s => { s with literals := s.literals.insert key (.number v) })
      fun _ => rfl, hids⟩
  case member path =>
    have htarget : known → ctx.resolve? path = ctx'.resolve? path := fun hk => by rw [hctx hk]
    -- Whatever the two contexts know, the literals stay as they are.
    dsimp only
    generalize ctx.resolve? path = target, ctx'.resolve? path = target' at htarget ⊢
    cases target <;> cases target'
    case none.none => exact .ok ⟨hs, hids⟩
    case none.some => exact .ok ⟨⟨hs.1, fun hk => nomatch htarget hk⟩, hids⟩
    case some.none => exact .ok ⟨⟨hs.1, fun hk => nomatch htarget hk⟩, hids⟩
    case some.some =>
      exact .ok ⟨⟨hs.1, fun hk => by simp only [hs.2 hk, Option.some.inj (htarget hk)]⟩, hids⟩
  all_goals exact .error fun hp => by rw [hspan hp]

theorem readStyle_agree (hctx : known → ctx = ctx') (id : String) {a b : Attribute}
    (hab : a.Alike placed b) (hst : st.ids = st'.ids) :
    Agree placed (SameStep known Style.unbound) (readStyle ctx id a st)
      (readStyle ctx' id b st') := by
  have hspan := hab.span
  have hvalue := hab.value
  have hrefused : Agree placed (SameStep known Style.unbound)
      (.error (.invalid a.span .styleNotObject)) (.error (.invalid b.span .styleNotObject)) :=
    .error fun hp => by rw [hspan hp]
  unfold readStyle
  generalize a.value = v, b.value = w at hvalue
  cases hvalue with
  | implicit => exact hrefused
  | text s => exact hrefused
  | @braced b b' hb =>
    obtain ⟨raw, e, place⟩ := b
    obtain ⟨raw', e', place'⟩ := b'
    obtain ⟨-, rfl, -⟩ := hb
    cases e
    case object entries =>
      refine Agree.foldlM (S := Eq) ?_ (List.forall₂_refl entries) ⟨.refl _ _, hst⟩
      rintro x y entry _ hxy rfl
      exact readStyleEntry_agree hctx id hspan entry hxy
    all_goals exact hrefused

theorem readProperty_agree (hctx : known → ctx = ctx') (id : String) {a b : Attribute}
    (hab : a.Alike placed b) {x y : Properties × Progress}
    (h : SameStep known Properties.unbound x y) :
    Agree placed (SameStep known Properties.unbound) (readProperty ctx id x a)
      (readProperty ctx' id y b) := by
  obtain ⟨p, st⟩ := x
  obtain ⟨p', st'⟩ := y
  obtain ⟨hp, hids⟩ := h
  unfold readProperty
  dsimp only
  rw [hab.name, hab.value.stateFlagOf?_eq]
  split
  · exact .ok ⟨hp, hids⟩
  split
  · refine (readStyle_agree hctx id hab hids).map ?_
    rintro ⟨s, st⟩ ⟨s', st'⟩ ⟨hs, hids⟩
    exact ⟨hp.map₂ hs (fun p s => { p with style := s }) fun _ _ => rfl, hids⟩
  split
  · next flag _ =>
    split
    · next value _ =>
      exact .ok ⟨hp.map (fun p => { p with state := p.state.insert flag value }) fun _ => rfl,
        hids⟩
    · exact .ok ⟨hp, hids⟩
  · have hvalue := hab.value
    generalize a.value = v, b.value = w at hvalue
    cases hvalue with
    | implicit =>
      exact .ok ⟨hp.map (fun p => { p with attributes := p.attributes.insert b.name "true" })
        fun _ => rfl, hids⟩
    | text s =>
      exact .ok ⟨hp.map (fun p => { p with attributes := p.attributes.insert b.name s })
        fun _ => rfl, hids⟩
    | @braced c c' hc =>
      simp only [hc.raw]
      exact .ok ⟨hp.map (fun p => { p with events := p.events.insert b.name (trimmed c'.raw) })
        fun _ => rfl, hids⟩

theorem readOpening_agree (hctx : known → ctx = ctx') (seed : String) (hh : h.Alike placed h')
    (parent : Option String) (hst : st.ids = st'.ids) :
    Agree placed (SameStep known Element.unbound) (readOpening ctx seed h parent st)
      (readOpening ctx' seed h' parent st') := by
  refine (readId_agree seed hh hst).bind ?_
  rintro ⟨id, st⟩ ⟨_, st'⟩ ⟨rfl, hst⟩
  refine (readKind_agree hh).bind ?_
  rintro kind _ rfl
  refine (readOwnership_agree hh parent).bind ?_
  rintro ownership _ rfl
  refine (attributeText?_agree hh _).bind ?_
  rintro name _ rfl
  refine (attributeText?_agree hh _).bind ?_
  rintro instanceRef _ rfl
  have hstart : SameStep known Properties.unbound (Properties.empty, st) (Properties.empty, st') :=
    ⟨.refl _ _, hst⟩
  refine (Agree.foldlM (fun _ _ _ _ hxy hab => ?_) hh.attributes hstart).bind ?_
  · exact readProperty_agree hctx id hab hxy
  rintro ⟨p, st⟩ ⟨p', st'⟩ ⟨hp, hst⟩
  rw [hh.tag]
  refine .ok ⟨⟨?_, fun hk => ?_⟩, hst⟩
  · exact congrArg (Element.mk id h'.tag kind name ownership · instanceRef) hp.1
  · exact congrArg (Element.mk id h'.tag kind name ownership · instanceRef) (hp.2 hk)

/-! ### Children and content -/

/-- What is inside an element, without bindings. -/
def Inside.unbound (x : Inside) : Inside :=
  { x with binding := none, elements := x.elements.map Element.unbound }

theorem Inside.unbound_complete (x : Inside) (e : Element) :
    (x.complete e).unbound = x.unbound.complete e.unbound := by
  have hcontent : x.content.reconcile.unbound = x.unbound.content.reconcile := by
    rw [Content.unbound_reconcile, Content.reconcile_eq]
    split <;> rfl
  have hstyle (s : Style) : s.reconcile.unbound = s.unbound.reconcile :=
    s.unbound_reconcile.trans (Style.bindings_reconcile_none rfl).symm
  simp only [complete, Element.unbound, Properties.unbound, Properties.reconcile, hcontent, hstyle]
  rfl

/-- The two add the same to what is behind, but for bindings. -/
theorem readPart_same (hctx : known → ctx = ctx') (id : String) {b b' : Braced}
    (hb : b.Alike placed b') (hst : st.ids = st'.ids) {x y : Inside}
    (h : Same known Inside.unbound x y) :
    Same known Inside.unbound ((readPart ctx id b st).1 x) ((readPart ctx' id b' st').1 y) ∧
      (readPart ctx id b st).2.ids = (readPart ctx' id b' st').2.ids := by
  unfold readPart
  rw [hb.raw, hb.expression]
  split
  · exact ⟨h, hst⟩
  cases b'.expression
  case empty => exact ⟨h, hst⟩
  case text s => exact ⟨h.map (fun x => { x with texts := s :: x.texts }) fun _ => rfl, hst⟩
  case member path =>
    have htarget : known → ctx.resolve? path = ctx'.resolve? path := fun hk => by rw [hctx hk]
    dsimp only
    generalize ctx.resolve? path = target, ctx'.resolve? path = target' at htarget ⊢
    cases target <;> cases target'
    case none.none => exact ⟨h, hst⟩
    case none.some => exact ⟨⟨h.1, fun hk => nomatch htarget hk⟩, hst⟩
    case some.none => exact ⟨⟨h.1, fun hk => nomatch htarget hk⟩, hst⟩
    case some.some =>
      exact ⟨⟨h.1, fun hk => by simp only [h.2 hk, Option.some.inj (htarget hk)]⟩, hst⟩
  all_goals
    exact ⟨h.map (fun x => { x with expression := x.expression.or (some (trimmed b'.raw)) })
      fun _ => rfl, hst⟩

theorem readInside_agree (hctx : known → ctx = ctx') (seed : String) {ns ns' : List Node}
    (hns : NodesAlike placed ns ns') (id : String) (hst : st.ids = st'.ids) :
    Agree placed (SameStep known Inside.unbound) (readInside ctx seed id ns st)
      (readInside ctx' seed id ns' st') := by
  induction hns generalizing id st st' with
  | nil =>
    rw [readInside, readInside]
    exact .ok ⟨.refl _ _, hst⟩
  | element hhead _ _ ihInside ihBeside =>
    rw [readInside, readInside]
    refine (readOpening_agree hctx seed hhead (some id) hst).bind ?_
    rintro ⟨e, st⟩ ⟨e', st'⟩ ⟨he, hst⟩
    have hid : e.unbound.id = e'.unbound.id := congrArg Element.id he.1
    change e.id = e'.id at hid
    dsimp only
    rw [hid]
    refine (ihInside e'.id hst).bind ?_
    rintro ⟨inner, st⟩ ⟨inner', st'⟩ ⟨hinner, hst⟩
    refine (ihBeside id hst).bind ?_
    rintro ⟨x, st⟩ ⟨x', st'⟩ ⟨hx, hst⟩
    have hcomplete : Same known Element.unbound (inner.complete e) (inner'.complete e') :=
      hinner.map₂ he Inside.complete Inside.unbound_complete
    have hbelow : Same known Inside.unbound
        { inner with elements := inner.complete e :: inner.elements }
        { inner' with elements := inner'.complete e' :: inner'.elements } :=
      hinner.map₂ hcomplete (fun x e => { x with elements := e :: x.elements }) fun _ _ => rfl
    refine .ok ⟨hbelow.map₂ hx (fun below x => { x with
      childIds := e'.id :: x.childIds
      elements := below.elements ++ x.elements }) fun below x => ?_, hst⟩
    simp only [Inside.unbound, List.map_append]
  | text _ _ ih =>
    rw [readInside, readInside]
    refine (ih id hst).bind ?_
    rintro ⟨x, st⟩ ⟨x', st'⟩ ⟨hx, hst⟩
    exact .ok ⟨hx.map (fun x => { x with texts := _ :: x.texts }) fun _ => rfl, hst⟩
  | braced hb _ ih =>
    rw [readInside, readInside]
    have hpart {x y : Inside} (hxy : Same known Inside.unbound x y) :=
      readPart_same hctx id hb hst hxy
    generalize readPart ctx id _ st = part, readPart ctx' id _ st' = part' at hpart ⊢
    obtain ⟨add, st⟩ := part
    obtain ⟨add', st'⟩ := part'
    have hids : st.ids = st'.ids := (hpart (.refl Inside.unbound Inside.nothing)).2
    refine (ih id hids).bind ?_
    rintro ⟨x, _⟩ ⟨x', _⟩ ⟨hx, hrest⟩
    exact .ok ⟨(hpart hx).1, hrest⟩

/-! ### Whole trees -/

/-- What a source says apart from bindings and findings. -/
def ReadTree.unbound (t : ReadTree) : String × List Element :=
  (t.rootId, t.elements.map Element.unbound)

/-- Trees that are alike are both refused, or stand for elements that are the same but for bindings,
and wholly the same if one context is known to be the other. -/
theorem elementsOf_agree (hctx : known → ctx = ctx') (path : String) {t t' : Tree}
    (ht : t.Alike placed t') :
    Agree placed (fun r r' => r.unbound = r'.unbound ∧ (known → r.elements = r'.elements))
      (elementsOf ctx path t) (elementsOf ctx' path t') := by
  refine (readOpening_agree hctx _ ht.head none rfl).bind ?_
  rintro ⟨root, st⟩ ⟨root', st'⟩ ⟨hroot, hst⟩
  have hid : root.unbound.id = root'.unbound.id := congrArg Element.id hroot.1
  change root.id = root'.id at hid
  dsimp only
  rw [hid]
  refine (readInside_agree hctx _ ht.children root'.id hst).bind ?_
  rintro ⟨inner, st⟩ ⟨inner', st'⟩ ⟨hinner, -⟩
  have hcomplete : Same known Element.unbound (inner.complete root) (inner'.complete root') :=
    hinner.map₂ hroot Inside.complete Inside.unbound_complete
  refine .ok ⟨?_, fun hk => ?_⟩
  · simp only [ReadTree.unbound, List.map_cons, hcomplete.1]
    exact congrArg (fun x : Inside => (root'.id, _ :: x.elements)) hinner.1
  · rw [hcomplete.2 hk, hinner.2 hk]

/-- Reading does not depend on what a context knows but for bindings and findings: a source is
refused with the same error under every context, or else it stands for the same elements but for
their bindings. -/
theorem read_unbound (source path : String) (ctx ctx' : BindingContext) :
    (read source path ctx).map ReadTree.unbound = (read source path ctx').map ReadTree.unbound := by
  have htree (tree : Tree) : (elementsOf ctx path tree).map ReadTree.unbound =
      (elementsOf ctx' path tree).map ReadTree.unbound := by
    have halike : tree.Alike True tree := .refl tree
    exact (elementsOf_agree False.elim path halike).map_eq fun _ _ h => h.1
  have hread (f : Tree → Except ReadError ReadTree) : (readTree source >>= f).map ReadTree.unbound =
      readTree source >>= fun tree => (f tree).map ReadTree.unbound := by
    cases readTree source <;> rfl
  unfold read
  rw [hread, hread]
  exact bind_congr htree

end Markup

end DesignSync

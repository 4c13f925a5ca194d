import DesignSync.Proofs.Markup.Portable
import DesignSync.Proofs.Markup.ReadNames

/-!
What the elements of a source are like: their tags and names can be written again, their handlers
and expressions are trimmed, and each of their bindings leads to the target that was found for its
path.
-/

namespace DesignSync.Markup

open Text

variable {ctx : BindingContext}

/-! ### Bindings -/

/-- A binding that was read: to the target that its path leads to. -/
def IsFound (ctx : BindingContext) (fallback : BindingTarget → Option String) (b : Binding) : Prop :=
  ∃ t, ctx.byName? t.kind t.name = some t ∧
    b = ⟨t.kind, t.id, some (memberExpression t.kind.space t.name), fallback t⟩

theorem byName?_of_resolve? {path : List String} {t : BindingTarget}
    (h : ctx.resolve? path = some t) : ctx.byName? t.kind t.name = some t ∧
      pathText path = memberExpression t.kind.space t.name := by
  unfold BindingContext.resolve? at h
  split at h
  · next space name =>
    obtain ⟨kind, hkind, hname⟩ := Option.bind_eq_some_iff.1 h
    have hspace : kind.space = space := by
      unfold RefKind.ofSpace? at hkind
      split at hkind <;> cases hkind <;> rfl
    have hmatch := List.find?_some hname
    simp only [Bool.and_eq_true, beq_iff_eq] at hmatch
    obtain ⟨rfl, rfl⟩ := hmatch
    exact ⟨hname, by rw [hspace]; rfl⟩
  · cases h

variable (hids : ctx.targets.Pairwise fun t u => ¬(t.kind = u.kind ∧ t.id = u.id))

include hids

/-- A target is found under its id, if no other one has it. -/
theorem byId?_of_ids {t : BindingTarget} (ht : t ∈ ctx.targets) :
    ctx.byId? t.kind t.id = some t :=
  find?_of_pairwise (fun t u : BindingTarget => t.kind == u.kind && t.id == u.id) (by simp)
    (hids.imp fun h => by simpa using h) ht

/-- In a context with distinct ids a binding that was read leads to its target and back. -/
theorem IsFound.resolves {fallback : BindingTarget → Option String} {b : Binding}
    (h : IsFound ctx fallback b) : Resolves ctx b := by
  obtain ⟨t, hname, rfl⟩ := h
  exact ⟨t, byId?_of_ids hids (List.mem_of_find?_eq_some hname), hname⟩

omit hids

/-! ### Properties -/

theorem eq_of_stateFlag? {name flag : String} (h : stateFlag? name = some flag) :
    name = stateMark ++ flag := by
  unfold stateFlag? at h
  split at h
  · next hprefix =>
    cases h
    obtain ⟨rest, hrest⟩ := List.isPrefixOf_iff_prefix.1 hprefix
    refine String.toList_injective ?_
    rw [String.toList_append, String.toList_ofList, ← hrest, List.drop_left' String.length_toList]
  · cases h

def FoundStyle (ctx : BindingContext) (s : Style) : Prop :=
  ∀ key b, s.binding? key = some b → IsFound ctx (fun _ => none) b

/-- Properties as an opening tag gives them. -/
structure PropertiesRead (ctx : BindingContext) (p : Properties) : Prop where
  flags : ∀ flag, p.state.contains flag = true → IsReadableName (stateMark ++ flag)
  attributes : ∀ name, p.attributes.contains name = true →
    IsReadableName name ∧ isReserved name = false
  events : ∀ name handler, p.events.get? name = some handler →
    IsReadableName name ∧ isReserved name = false ∧ trimmed handler = handler
  style : FoundStyle ctx p.style

theorem PropertiesRead.empty (ctx : BindingContext) : PropertiesRead ctx Properties.empty where
  flags := nofun
  attributes := nofun
  events := nofun
  style := nofun

/-- What every step of a fold keeps holds in the end. -/
theorem foldlM_invariant {α β : Type} {P : β → Prop} {f : β → α → Except ReadError β}
    {xs : List α} (hf : ∀ a ∈ xs, ∀ x y, P x → f x a = .ok y → P y) {x y : β} (hx : P x)
    (h : xs.foldlM f x = .ok y) : P y := by
  induction xs generalizing x with
  | nil =>
    cases h
    exact hx
  | cons a xs ih =>
    rw [List.foldlM_cons] at h
    obtain ⟨z, hz, h⟩ := bind_eq_ok_iff.1 h
    obtain ⟨ha, hxs⟩ := List.forall_mem_cons.1 hf
    exact ih hxs (ha x z hx hz) h

theorem foundStyle_of_readStyleEntry {id : String} {span : Span} {x y : Style × Progress}
    {entry : String × Expression} (hx : FoundStyle ctx x.1)
    (h : readStyleEntry ctx id span x entry = .ok y) : FoundStyle ctx y.1 := by
  obtain ⟨style, st⟩ := x
  obtain ⟨key, value⟩ := entry
  simp only [readStyleEntry] at h
  split at h
  · cases h
    exact hx
  · cases h
    exact hx
  · split at h
    · next t ht =>
      cases h
      obtain ⟨hname, hpath⟩ := byName?_of_resolve? ht
      intro k b hb
      have hget : (style.bound.insert key ⟨t.kind, t.id, some (pathText _), none⟩).get? k = some b :=
        hb
      rw [Dict.get?_insert] at hget
      split at hget
      · cases hget
        exact ⟨t, hname, by rw [hpath]⟩
      · refine hx k b ?_
        unfold Style.bound at hget
        unfold Style.binding?
        cases hbindings : style.bindings with
        | none =>
          rw [hbindings] at hget
          cases hget
        | some d =>
          rw [hbindings] at hget
          exact hget
    · cases h
      exact hx
  · cases h

theorem foundStyle_of_readStyle {id : String} {a : Attribute} {st st' : Progress} {style : Style}
    (h : readStyle ctx id a st = .ok (style, st')) : FoundStyle ctx style := by
  unfold readStyle at h
  split at h
  · have hempty : FoundStyle ctx Style.empty := fun _ _ hb => by cases hb
    exact foldlM_invariant (P := fun x : Style × Progress => FoundStyle ctx x.1)
      (fun _ _ _ _ => foundStyle_of_readStyleEntry) hempty h
  · cases h

theorem propertiesRead_of_readProperty {id : String} {x y : Properties × Progress} {a : Attribute}
    (ha : IsReadableName a.name) (hx : PropertiesRead ctx x.1)
    (h : readProperty ctx id x a = .ok y) : PropertiesRead ctx y.1 := by
  obtain ⟨p, st⟩ := x
  simp only [readProperty] at h
  split at h
  · cases h
    exact hx
  · next hmetadata =>
    split at h
    · obtain ⟨⟨style, st'⟩, hstyle, rfl⟩ := map_eq_ok_iff.1 h
      exact ⟨hx.flags, hx.attributes, hx.events, foundStyle_of_readStyle hstyle⟩
    · next hstyle =>
      split at h
      · next flag hflag =>
        split at h
        · cases h
          refine ⟨fun other hother => ?_, hx.attributes, hx.events, hx.style⟩
          rw [Dict.contains, Dict.get?_insert] at hother
          split at hother
          · next heq =>
            rw [heq, ← eq_of_stateFlag? hflag]
            exact ha
          · exact hx.flags other hother
        · cases h
          exact hx
      · next hflag =>
        have hfree : isReserved a.name = false := by
          simp [isReserved, hmetadata, hstyle, hflag]
        have hinsert : ∀ s name, (p.attributes.insert a.name s).contains name = true →
            IsReadableName name ∧ isReserved name = false := by
          intro s name hname
          rw [Dict.contains, Dict.get?_insert] at hname
          split at hname
          · next heq => exact heq ▸ ⟨ha, hfree⟩
          · exact hx.attributes name hname
        cases h
        split
        · exact ⟨hx.flags, hinsert _, hx.events, hx.style⟩
        · exact ⟨hx.flags, hinsert _, hx.events, hx.style⟩
        · next b _ =>
          refine ⟨hx.flags, hx.attributes, fun name handler hget => ?_, hx.style⟩
          dsimp only at hget
          rw [Dict.get?_insert] at hget
          split at hget
          · next heq =>
            cases hget
            refine heq ▸ ⟨ha, hfree, ?_⟩
            rw [trimmed_eq_self_iff, trimmed, String.toList_ofList]
            exact isTrimmed_trim _
          · exact hx.events name handler hget

/-! ### Content -/

structure ContentRead (ctx : BindingContext) (binding : Option Binding)
    (expression : Option String) : Prop where
  binding : ∀ b, binding = some b → IsFound ctx (·.display) b
  expression : ∀ s, expression = some s → trimmed s = s ∧ (Expression.classify s).IsOpaque

theorem classify_trimmed (raw : String) :
    Expression.classify (trimmed raw) = Expression.classify raw := by
  have htrim : trim (trimmed raw).toList = trim raw.toList := by
    rw [trimmed, String.toList_ofList, trim_trim]
  simp only [Expression.classify, htrim]

/-- An element as it is read from a source. -/
structure IsRead (ctx : BindingContext) (e : Element) : Prop where
  tag : IsTagName e.tag
  properties : PropertiesRead ctx e.properties
  content : ContentRead ctx e.properties.content.binding e.properties.content.expression

theorem isRead_of_readOpening {seed : String} {head : Head} {parent : Option String}
    {st st' : Progress} {e : Element} (hhead : head.IsReadable)
    (h : readOpening ctx seed head parent st = .ok (e, st')) :
    IsTagName e.tag ∧ PropertiesRead ctx e.properties := by
  unfold readOpening at h
  obtain ⟨⟨id, st₁⟩, -, h⟩ := bind_eq_ok_iff.1 h
  obtain ⟨kind, -, h⟩ := bind_eq_ok_iff.1 h
  obtain ⟨owner, -, h⟩ := bind_eq_ok_iff.1 h
  obtain ⟨name, -, h⟩ := bind_eq_ok_iff.1 h
  obtain ⟨instanceRef, -, h⟩ := bind_eq_ok_iff.1 h
  obtain ⟨⟨p, st₂⟩, hfold, h⟩ := bind_eq_ok_iff.1 h
  cases h
  exact ⟨hhead.tag, foldlM_invariant (P := fun x : Properties × Progress => PropertiesRead ctx x.1)
    (fun a ha _ _ hx => propertiesRead_of_readProperty (hhead.names a ha) hx)
    (PropertiesRead.empty ctx) hfold⟩

/-- What is inside an element as it is read from a source. -/
structure InsideRead (ctx : BindingContext) (x : Inside) : Prop where
  content : ContentRead ctx x.binding x.expression
  elements : ∀ e ∈ x.elements, IsRead ctx e

theorem InsideRead.nothing (ctx : BindingContext) : InsideRead ctx Inside.nothing where
  content := ⟨fun _ h => (by cases h), fun _ h => (by cases h)⟩
  elements _ h := by cases h

theorem InsideRead.readPart {x : Inside} (h : InsideRead ctx x) {b : Braced}
    (hb : b.expression = Expression.classify b.raw) (id : String) (st : Progress) :
    InsideRead ctx ((readPart ctx id b st).1 x) := by
  unfold Markup.readPart
  split
  · exact h
  · split
    · exact h
    · exact ⟨h.content, h.elements⟩
    · split
      · next t ht =>
        obtain ⟨hname, hpath⟩ := byName?_of_resolve? ht
        refine ⟨⟨fun b' hb' => ?_, h.content.expression⟩, h.elements⟩
        cases hbinding : x.binding with
        | none =>
          simp only [hbinding, Option.none_or, Option.some.injEq] at hb'
          exact ⟨t, hname, by rw [← hb', hpath]⟩
        | some other =>
          simp only [hbinding, Option.some_or, Option.some.injEq] at hb'
          exact h.content.binding b' (hb' ▸ hbinding)
      · exact h
    · next hempty htext hmember =>
      refine ⟨⟨h.content.binding, fun s hs => ?_⟩, h.elements⟩
      cases hexpression : x.expression with
      | none =>
        simp only [hexpression, Option.none_or, Option.some.injEq] at hs
        subst hs
        refine ⟨?_, ?_⟩
        · rw [trimmed_eq_self_iff, trimmed, String.toList_ofList]
          exact isTrimmed_trim _
        · rw [classify_trimmed, ← hb]
          cases hcase : b.expression with
          | empty => exact hempty hcase
          | text s => exact htext s hcase
          | member path => exact hmember path hcase
          | _ => trivial
      | some other =>
        simp only [hexpression, Option.some_or, Option.some.injEq] at hs
        exact h.content.expression s (hs ▸ hexpression)

/-- Completing takes away bindings at most. -/
theorem InsideRead.complete {x : Inside} (h : InsideRead ctx x) {e : Element}
    (htag : IsTagName e.tag) (hp : PropertiesRead ctx e.properties) : IsRead ctx (x.complete e) where
  tag := htag
  properties := by
    refine ⟨hp.flags, hp.attributes, hp.events, fun key b hb => ?_⟩
    change e.properties.style.reconcile.binding? key = some b at hb
    rw [Style.binding?_reconcile] at hb
    split at hb
    · cases hb
    · exact hp.style key b hb
  content := by
    change ContentRead ctx x.content.reconcile.binding x.content.reconcile.expression
    rw [Content.reconcile_eq]
    split
    · exact ⟨nofun, h.content.expression⟩
    · exact h.content

/-! ### Trees -/

theorem insideRead_of_readInside {seed : String} (id : String) (nodes : List Node)
    (st : Progress) {st' : Progress} {x : Inside} (hnodes : AreReadable nodes)
    (h : readInside ctx seed id nodes st = .ok (x, st')) : InsideRead ctx x := by
  induction id, nodes, st using readInside.induct ctx generalizing x st' with
  | case1 id st =>
    simp only [readInside, Except.ok.injEq, Prod.mk.injEq] at h
    obtain ⟨rfl, -⟩ := h
    exact InsideRead.nothing ctx
  | case2 id head children nodes st ihc ihn =>
    rw [readInside] at h
    obtain ⟨⟨opening, st₁⟩, hopen, h⟩ := bind_eq_ok_iff.1 h
    obtain ⟨⟨inner, st₂⟩, hinner, h⟩ := bind_eq_ok_iff.1 h
    obtain ⟨⟨y, st₃⟩, hrest, h⟩ := bind_eq_ok_iff.1 h
    cases h
    rw [AreReadable] at hnodes
    obtain ⟨hhead, hchildren, hnodes⟩ := hnodes
    have hinner := ihc opening st₁ hchildren hinner
    have hrest := ihn st₂ hnodes hrest
    obtain ⟨htag, hproperties⟩ := isRead_of_readOpening hhead hopen
    refine ⟨hrest.content, fun e he => ?_⟩
    rcases List.mem_cons.1 he with rfl | he
    · exact hinner.complete htag hproperties
    · rcases List.mem_append.1 he with he | he
      · exact hinner.elements e he
      · exact hrest.elements e he
  | case3 id s span nodes st ih =>
    rw [readInside] at h
    obtain ⟨⟨y, st₁⟩, hrest, h⟩ := bind_eq_ok_iff.1 h
    cases h
    rw [AreReadable] at hnodes
    have hrest := ih hnodes hrest
    exact ⟨hrest.content, hrest.elements⟩
  | case4 id b nodes st add st₁ hpart ih =>
    rw [readInside, hpart] at h
    obtain ⟨⟨y, st₂⟩, hrest, h⟩ := bind_eq_ok_iff.1 h
    cases h
    rw [AreReadable] at hnodes
    have hread := (ih hnodes.2 hrest).readPart hnodes.1 id st
    rwa [hpart] at hread

/-- Every element of a source is as a reader gives it. -/
theorem isRead_of_read {source path : String} {t : ReadTree} (h : read source path ctx = .ok t) :
    ∀ e ∈ t.elements, IsRead ctx e := by
  obtain ⟨tree, htree, h⟩ := bind_eq_ok_iff.1 h
  have hreadable := isReadable_of_readTree htree
  unfold elementsOf at h
  obtain ⟨⟨root, st₁⟩, hroot, h⟩ := bind_eq_ok_iff.1 h
  obtain ⟨⟨inner, st₂⟩, hinner, h⟩ := bind_eq_ok_iff.1 h
  cases h
  obtain ⟨htag, hproperties⟩ := isRead_of_readOpening hreadable.head hroot
  have hinner := insideRead_of_readInside _ _ _ hreadable.children hinner
  intro e he
  rcases List.mem_cons.1 he with rfl | he
  · exact hinner.complete htag hproperties
  · exact hinner.elements e he

end DesignSync.Markup

import DesignSync.Proofs.Document.StyleKeys
import DesignSync.Proofs.Markup.Conveyed

/-!
The opening tag of an element that was written gives the element back, without its children and its
content.
-/

namespace DesignSync.Markup

open Text

variable {ctx : BindingContext} {id : String} {st : Progress}

/-! ### Styles -/

theorem binding?_conveyedStyle (s : Style) (key : String) :
    (conveyedStyle ctx s).binding? key = (s.binding? key).map (conveyedBinding ctx none) := by
  unfold conveyedStyle Style.binding?
  cases s.bindings with
  | none => rfl
  | some b => exact Dict.get?_map b _ key

theorem literal?_conveyedStyle (s : Style) (key : String) :
    (conveyedStyle ctx s).literal? key = (s.literal? key).map (conveyedLiteral key) :=
  Dict.get?_mapKeyed s.literals conveyedLiteral key

theorem exclusive_conveyedStyle {s : Style} (h : s.Exclusive) :
    (conveyedStyle ctx s).Exclusive where
  unbound key hliteral := by
    rw [literal?_conveyedStyle, Option.isSome_map] at hliteral
    rw [binding?_conveyedStyle, h.unbound key hliteral]
    rfl
  bindings_ne b hb := by
    obtain ⟨d, hd, rfl⟩ := Option.map_eq_some_iff.1 hb
    have hne := h.bindings_ne d hd
    simpa [Dict.isEmpty, Dict.map] using hne

theorem expression_literalValue (key : String) (l : Literal) :
    (literalValue key l).expression =
      match conveyedLiteral key l with
      | .text s => .text s
      | .number x => .number x := by
  cases l with
  | number x =>
    simp only [literalValue, conveyedLiteral]
    split
    · rfl
    · split <;> rfl
  | text s =>
    simp only [literalValue, conveyedLiteral]
    split <;> rfl

/-- The member expression that is written for a binding leads back to its target. -/
theorem Resolves.resolve? {b : Binding} (h : Resolves ctx b) : ∃ t,
    ctx.byId? b.kind b.refId = some t ∧ t.kind = b.kind ∧ t.id = b.refId ∧
      ctx.resolve? [b.kind.space, t.name] = some t ∧
      ctx.reference? b = some (pathText [b.kind.space, t.name]) := by
  obtain ⟨t, hid, hname⟩ := h
  have hfound := List.find?_some hid
  simp only [Bool.and_eq_true, beq_iff_eq] at hfound
  refine ⟨t, hid, hfound.1, hfound.2, ?_, ?_⟩
  · simpa [BindingContext.resolve?] using hname
  · simp [BindingContext.reference?, hid, pathText]

theorem readStyleEntry_of_value {style : Style}
    (hresolves : ∀ key b, style.binding? key = some b → Resolves ctx b) {key : String}
    {v : StyleValue} (hv : styleValue? ctx style key = some v) (span : Span) (s : Style) :
    readStyleEntry ctx id span (s, st) (key, v.expression) =
      .ok (Style.addFrom (conveyedStyle ctx style) s key, st) := by
  unfold styleValue? at hv
  unfold Style.addFrom
  rw [binding?_conveyedStyle, literal?_conveyedStyle]
  cases hbinding : style.binding? key with
  | some b =>
    rw [hbinding] at hv
    obtain ⟨t, hid, hkind, hrefId, hresolve, hpath⟩ := (hresolves key b hbinding).resolve?
    simp only [hid, Option.map_some, Option.some.injEq] at hv
    subst hv
    simp only [StyleValue.expression, readStyleEntry, hresolve, conveyedBinding, hpath, hkind, hrefId,
      Option.map_some]
  | none =>
    rw [hbinding] at hv
    obtain ⟨l, hl, rfl⟩ := Option.map_eq_some_iff.1 hv
    rw [expression_literalValue, hl]
    simp only [Option.map_none, Option.map_some]
    cases conveyedLiteral key l <;> rfl

theorem readStyleEntries_of_keys {style : Style}
    (hresolves : ∀ key b, style.binding? key = some b → Resolves ctx b) (span : Span)
    (keys : List String) (s : Style) :
    ((keys.filterMap fun key => (styleValue? ctx style key).map (key, ·)).map
        fun x => (x.1, x.2.expression)).foldlM (readStyleEntry ctx id span) (s, st) =
      .ok (keys.foldl (Style.addFrom (conveyedStyle ctx style)) s, st) := by
  induction keys generalizing s with
  | nil => rfl
  | cons key keys ih =>
    rw [List.filterMap_cons, List.foldl_cons]
    cases hv : styleValue? ctx style key with
    | some v =>
      simp only [Option.map_some, List.map_cons, List.foldlM_cons,
        readStyleEntry_of_value hresolves hv]
      exact ih _
    | none =>
      have hnothing : Style.addFrom (conveyedStyle ctx style) s key = s := by
        unfold styleValue? at hv
        unfold Style.addFrom
        rw [binding?_conveyedStyle, literal?_conveyedStyle]
        cases hbinding : style.binding? key with
        | some b =>
          obtain ⟨t, hid, -⟩ := hresolves key b hbinding
          simp [hbinding, hid] at hv
        | none =>
          have hl : style.literal? key = none := by simpa [hbinding] using hv
          simp [hl]
      rw [hnothing]
      exact ih s

theorem mem_keys_of_conveyed {style : Style} {key : String}
    (h : key ∈ (conveyedStyle ctx style).keys) : key ∈ style.keys := by
  rw [Style.mem_keys_iff, binding?_conveyedStyle, literal?_conveyedStyle, Option.isSome_map,
    Option.isSome_map] at h
  exact Style.mem_keys_iff.2 h

/-- A written style is read as what comes back for it. -/
theorem readStyle_of_says {style : Style} (hexclusive : style.Exclusive)
    (hresolves : ∀ key b, style.binding? key = some b → Resolves ctx b)
    (hne : styleEntries ctx style ≠ []) {b : Attribute}
    (hsaid : SaysAttribute (styleAttribute, .source (styleText (styleEntries ctx style))) b) :
    readStyle ctx id b st = .ok (conveyedStyle ctx style, st) := by
  obtain ⟨-, span, hvalue⟩ := hsaid
  rw [classify_styleText hne (isWritable_styleEntries ctx style)] at hvalue
  rw [readStyle, hvalue]
  refine (readStyleEntries_of_keys hresolves b.span style.keys Style.empty).trans ?_
  rw [Style.foldl_addFrom (exclusive_conveyedStyle hexclusive) fun key => mem_keys_of_conveyed]

/-- Nothing comes back for a style that has nothing to write. -/
theorem conveyedStyle_of_nil {style : Style} (hexclusive : style.Exclusive)
    (hresolves : ∀ key b, style.binding? key = some b → Resolves ctx b)
    (hnil : styleEntries ctx style = []) : conveyedStyle ctx style = Style.empty := by
  have hfold : ((styleEntries ctx style).map fun x => (x.1, x.2.expression)).foldlM
      (readStyleEntry ctx "" ⟨0, 0⟩) (Style.empty, Progress.start) = _ :=
    readStyleEntries_of_keys hresolves ⟨0, 0⟩ style.keys Style.empty
  rw [Style.foldl_addFrom (exclusive_conveyedStyle hexclusive) fun key => mem_keys_of_conveyed] at hfold
  rw [hnil] at hfold
  exact (Prod.mk.inj (Except.ok.inj hfold)).1.symm

/-! ### Properties -/

variable {bs : List Attribute}

/-- Attributes that each say an entry of a dictionary are taken in one after another. -/
theorem foldlM_entries {α : Type} (say : String × α → String × Said) (put : Dict α → Properties)
    {es : List (String × α)}
    (htake : ∀ x ∈ es, ∀ b, SaysAttribute (say x) b → ∀ d,
      readProperty ctx id (put d, st) b = .ok (put (d.insert x.1 x.2), st))
    (h : List.Forall₂ SaysAttribute (es.map say) bs) (d : Dict α) :
    bs.foldlM (readProperty ctx id) (put d, st) =
      .ok (put (es.foldl (fun acc x => acc.insert x.1 x.2) d), st) := by
  induction es generalizing bs d with
  | nil =>
    cases h
    rfl
  | cons x es ih =>
    obtain ⟨b, bs, hsays, hrest, rfl⟩ := List.forall₂_cons_left_iff.1 h
    rw [List.foldlM_cons, htake x List.mem_cons_self b hsays d]
    exact ih (fun y hy => htake y (List.mem_cons_of_mem _ hy)) hrest _

variable (ctx id st) in
/-- Attributes that say a whole dictionary. -/
theorem foldlM_dict {α : Type} (say : String × α → String × Said) (put : Dict α → Properties)
    {d : Dict α}
    (htake : ∀ x ∈ d.entries, ∀ b, SaysAttribute (say x) b → ∀ d,
      readProperty ctx id (put d, st) b = .ok (put (d.insert x.1 x.2), st))
    (h : List.Forall₂ SaysAttribute (d.entries.map say) bs) :
    bs.foldlM (readProperty ctx id) (put Dict.empty, st) = .ok (put d, st) := by
  rw [foldlM_entries say put htake h, d.foldl_insert_entries]

theorem readProperty_of_metadata {a : String × Said} (ha : isMetadata a.1 = true) {b : Attribute}
    (h : SaysAttribute a b) (p : Properties) : readProperty ctx id (p, st) b = .ok (p, st) := by
  simp only [readProperty, h.1, ha, if_true]

theorem stateFlag?_flag (flag : String) : stateFlag? (stateMark ++ flag) = some flag := by
  have hprefix : stateMark.toList.isPrefixOf (stateMark.toList ++ flag.toList) = true := by
    rw [List.isPrefixOf_iff_prefix]
    exact List.prefix_append _ _
  have hlength : stateMark.length = stateMark.toList.length := rfl
  unfold stateFlag?
  rw [String.toList_append, if_pos hprefix, hlength, List.drop_left, String.ofList_toList]

theorem classify_bool (b : Bool) :
    Expression.classify (if b then "true" else "false") = .bool b := by
  have hends : EndsWord [] := by simp [EndsWord]
  refine classify_of_says ?_ ?_ (says_bool b)
  · cases b <;> simp [IsTrimmed, isBlank]
  · have hword : isIdentifier (if b then "true" else "false").toList = true := by
      cases b <;> decide
    have hlexes := Lexes.word hword hends
    rw [List.append_nil] at hlexes
    cases b
    · exact .of_lexes hlexes
    · exact .of_lexes hlexes

theorem stateFlagOf?_of_says {name : String} {value : StateFlag} {b : Attribute}
    (h : SaysAttribute (name, flagSaid value) b) : stateFlagOf? b.value = some value := by
  cases value with
  | text s =>
    have hvalue : b.value = .text s := h.2
    rw [hvalue]
    rfl
  | bool v =>
    obtain ⟨span, hvalue⟩ : ∃ span, b.value = .braced ⟨if v then "true" else "false",
      Expression.classify (if v then "true" else "false"), span⟩ := h.2
    rw [classify_bool] at hvalue
    rw [hvalue]
    rfl

theorem readProperty_of_flag {flag : String} {value : StateFlag} {b : Attribute}
    (h : SaysAttribute (stateMark ++ flag, flagSaid value) b) (p : Properties) :
    readProperty ctx id (p, st) b = .ok ({ p with state := p.state.insert flag value }, st) := by
  have hstyle : stateMark ++ flag ≠ styleAttribute := by
    intro heq
    have hhead := head?_flag flag
    rw [heq] at hhead
    cases hhead
  have hname : b.name = stateMark ++ flag := h.1
  simp only [readProperty, hname, isMetadata_flag, Bool.false_eq_true, if_false, hstyle,
    stateFlag?_flag, stateFlagOf?_of_says h]

theorem readProperty_of_attribute {name value : String} (hname : isWritableName name = true)
    {b : Attribute} (h : SaysAttribute (name, .text value) b) (p : Properties) :
    readProperty ctx id (p, st) b =
      .ok ({ p with attributes := p.attributes.insert name value }, st) := by
  obtain ⟨hmetadata, hstyle, hflag⟩ := not_reserved hname
  have hname : b.name = name := h.1
  have hvalue : b.value = .text value := h.2
  simp only [readProperty, hname, hmetadata, Bool.false_eq_true, if_false, hstyle, hflag, hvalue]

theorem readProperty_of_event {name handler : String} (hname : isWritableName name = true)
    (htrim : trimmed handler = handler) {b : Attribute}
    (h : SaysAttribute (name, .source handler) b) (p : Properties) :
    readProperty ctx id (p, st) b =
      .ok ({ p with events := p.events.insert name handler }, st) := by
  obtain ⟨hmetadata, hstyle, hflag⟩ := not_reserved hname
  have hname : b.name = name := h.1
  obtain ⟨span, hvalue⟩ := h.2
  simp only [readProperty, hname, hmetadata, Bool.false_eq_true, if_false, hstyle, hflag, hvalue,
    htrim]

/-- What is said for two lists is said for each of them. -/
theorem forall₂_append {α β : Type} {R : α → β → Prop} {as as' : List α} {bs : List β}
    (h : List.Forall₂ R (as ++ as') bs) : ∃ cs ds, bs = cs ++ ds ∧ List.Forall₂ R as cs ∧
      List.Forall₂ R as' ds := by
  induction as generalizing bs with
  | nil => exact ⟨[], bs, rfl, .nil, h⟩
  | cons a as ih =>
    obtain ⟨b, bs, hab, hrest, rfl⟩ := List.forall₂_cons_left_iff.1 h
    obtain ⟨cs, ds, rfl, hcs, hds⟩ := ih hrest
    exact ⟨b :: cs, ds, rfl, .cons hab hcs, hds⟩

/-- The properties of an element as its opening tag says them. -/
def openingProperties (ctx : BindingContext) (p : Properties) : Properties where
  style := conveyedStyle ctx p.style
  content := Content.empty
  attributes := p.attributes.filter fun name _ => isWritableName name
  events := p.events.filter fun name _ => !p.attributes.contains name && isWritableName name
  state := p.state.filter fun flag _ => isWritableFlag flag
  children := []

theorem foldlM_append_of_ok {α β : Type} {f : β → α → Except ReadError β} {xs ys : List α}
    {x y : β} (h : xs.foldlM f x = .ok y) : (xs ++ ys).foldlM f x = ys.foldlM f y := by
  rw [List.foldlM_append, h]
  rfl

theorem foldlM_style {style : Style} (hexclusive : style.Exclusive)
    (hresolves : ∀ key b, style.binding? key = some b → Resolves ctx b)
    (h : List.Forall₂ SaysAttribute (styleAttributes ctx style) bs) (p : Properties)
    (hp : p.style = Style.empty) : bs.foldlM (readProperty ctx id) (p, st) =
      .ok ({ p with style := conveyedStyle ctx style }, st) := by
  unfold styleAttributes at h
  split at h
  · next hnil =>
    cases h
    rw [conveyedStyle_of_nil hexclusive hresolves (List.isEmpty_iff.1 hnil), ← hp]
    rfl
  · next hne =>
    obtain ⟨b, bs, hsays, hrest, rfl⟩ := List.forall₂_cons_left_iff.1 h
    cases hrest
    have hread : readStyle ctx id b st = _ :=
      readStyle_of_says hexclusive hresolves (by simpa using hne) hsays
    have hname : b.name = styleAttribute := hsays.1
    have hmetadata : isMetadata styleAttribute = false := by decide
    have hproperty : readProperty ctx id (p, st) b =
        .ok ({ p with style := conveyedStyle ctx style }, st) := by
      simp only [readProperty, hname, hmetadata, Bool.false_eq_true, if_false, if_true, hread]
      rfl
    rw [List.foldlM_cons, hproperty]
    rfl

theorem foldlM_propertyAttributes {p : Properties} (hexclusive : p.style.Exclusive)
    (hresolves : ∀ key b, p.style.binding? key = some b → Resolves ctx b)
    (hhandlers : ∀ name handler, p.events.get? name = some handler → trimmed handler = handler)
    (h : List.Forall₂ SaysAttribute (propertyAttributes ctx p) bs) :
    bs.foldlM (readProperty ctx id) (Properties.empty, st) = .ok (openingProperties ctx p, st) := by
  obtain ⟨rest, style, rfl, h, hstyle⟩ := forall₂_append h
  obtain ⟨rest, events, rfl, h, hevents⟩ := forall₂_append h
  obtain ⟨flags, attributes, rfl, hflags, hattributes⟩ := forall₂_append h
  have hflags := foldlM_dict ctx id st _ (fun d => { Properties.empty with state := d })
    (fun _ _ _ hb _ => readProperty_of_flag hb _) hflags
  have hattributes := foldlM_dict ctx id st _
    (fun d => { Properties.empty with
      state := p.state.filter fun flag _ => isWritableFlag flag
      attributes := d })
    (fun x hx _ hb _ => by
      have hname := (List.mem_filter.1 hx).2
      exact readProperty_of_attribute hname hb _) hattributes
  have hevents := foldlM_dict ctx id st _
    (fun d => { Properties.empty with
      state := p.state.filter fun flag _ => isWritableFlag flag
      attributes := p.attributes.filter fun name _ => isWritableName name
      events := d })
    (fun x hx _ hb _ => by
      obtain ⟨hentry, hname⟩ := List.mem_filter.1 hx
      rw [Bool.and_eq_true] at hname
      exact readProperty_of_event hname.2 (hhandlers x.1 x.2 (Dict.get?_eq_some_iff.2 hentry)) hb _)
    hevents
  have hstyle : style.foldlM (readProperty ctx id) (_, st) = _ := foldlM_style hexclusive hresolves
    hstyle { openingProperties ctx p with style := Style.empty } rfl
  rw [List.append_assoc, List.append_assoc]
  exact (foldlM_append_of_ok hflags).trans ((foldlM_append_of_ok hattributes).trans
    ((foldlM_append_of_ok hevents).trans hstyle))

/-- Attributes for metadata are no properties. -/
theorem foldlM_metadata {as : List (String × Said)} (has : ∀ a ∈ as, isMetadata a.1 = true)
    (h : List.Forall₂ SaysAttribute as bs) (p : Properties) :
    bs.foldlM (readProperty ctx id) (p, st) = .ok (p, st) := by
  induction h with
  | nil => rfl
  | cons hsays _ ih =>
    rw [List.foldlM_cons, readProperty_of_metadata (has _ List.mem_cons_self) hsays]
    exact ih fun a ha => has a (List.mem_cons_of_mem _ ha)

/-- An element as its opening tag says it. -/
def openingElement (ctx : BindingContext) (e : Element) : Element :=
  { e with properties := openingProperties ctx e.properties }

/-- The opening tag of an element is read as the element, if its id is new. -/
theorem readOpening_of_look {e : Element} (hexclusive : e.Exclusive)
    (hresolves : ∀ key b, e.properties.style.binding? key = some b → Resolves ctx b)
    (hhandlers : ∀ name handler, e.properties.events.get? name = some handler →
      trimmed handler = handler) {head : Head} (htag : head.tag = e.tag)
    (h : List.Forall₂ SaysAttribute (lookOf ctx e).attributes head.attributes)
    (seed : String) (parent : Option String) (hnew : e.id ∉ st.seen) :
    readOpening ctx seed head parent st =
      .ok (openingElement ctx e, { st with seen := e.id :: st.seen }) := by
  have hfold : head.attributes.foldlM (readProperty ctx e.id)
      (Properties.empty, { st with seen := e.id :: st.seen }) =
        .ok (openingProperties ctx e.properties, { st with seen := e.id :: st.seen }) := by
    obtain ⟨metadata, properties, heq, hmetadata, hproperties⟩ := forall₂_append h
    rw [heq]
    exact (foldlM_append_of_ok
      (foldlM_metadata (fun a ha => (mem_metadataAttributes ha).1) hmetadata Properties.empty)).trans
        (foldlM_propertyAttributes hexclusive.style hresolves hhandlers hproperties)
  unfold readOpening
  simp only [readId_of_look h seed hnew, readKind_of_look h, readOwnership_of_look h,
    readName_of_look h, readInstance_of_look h, hfold, htag, Bind.bind, Except.bind, Pure.pure,
    Except.pure]
  rfl

end DesignSync.Markup

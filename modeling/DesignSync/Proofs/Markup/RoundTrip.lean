import DesignSync.Proofs.Markup.Opening
import DesignSync.Proofs.Markup.Portable

/-!
Writing and reading again. The tree under an element that is written as markup is read as the same
tree, element by element, but for what the writer cannot write or normalises.
-/

namespace DesignSync.Markup

open Text

variable {ctx : BindingContext} {id : String} {st : Progress}

/-! ### Parts of content -/

theorem isTrimmed_quoted (s : String) : IsTrimmed (Quoted.quoted s).toList := by
  rw [Quoted.toList_quoted]
  exact isTrimmed_enclosed (by decide) (by decide) _

private theorem isBlank_of_isNameChar {c : Char} (h : isNameChar c = true) : isBlank c = false := by
  have hall : ∀ n : Fin 128, isNameChar (Char.ofNat n) = true → isBlank (Char.ofNat n) = false := by
    decide
  have hsmall : c.toNat < 128 := by
    simp only [isNameChar, isNameStart, Bool.or_eq_true, Bool.and_eq_true, decide_eq_true_eq,
      beq_iff_eq] at h
    rcases h with (((⟨-, h⟩ | ⟨-, h⟩) | rfl) | rfl) | ⟨-, h⟩
    · exact Nat.lt_of_le_of_lt (show c.toNat ≤ 122 from h) (by decide)
    · exact Nat.lt_of_le_of_lt (show c.toNat ≤ 90 from h) (by decide)
    · decide
    · decide
    · exact Nat.lt_of_le_of_lt (show c.toNat ≤ 57 from h) (by decide)
  have hc := hall ⟨c.toNat, hsmall⟩
  simp only [Char.ofNat_toNat] at hc
  exact hc h

theorem head?_memberExpression (kind : RefKind) (name : String) :
    (memberExpression kind.space name).toList.head? = kind.space.toList.head? := by
  obtain ⟨c, cs, hcons⟩ : ∃ c cs, kind.space.toList = c :: cs :=
    List.exists_cons_of_ne_nil (by cases kind <;> decide)
  unfold memberExpression
  split <;> simp [hcons]

theorem isTrimmed_memberExpression (kind : RefKind) (name : String) :
    IsTrimmed (memberExpression kind.space name).toList := by
  refine ⟨fun c hc => ?_, fun c hc => ?_⟩
  · rw [head?_memberExpression] at hc
    have hspace : kind.space.toList.head?.all (fun c => !isBlank c) = true := by
      cases kind <;> decide
    rw [hc] at hspace
    simpa using hspace
  · unfold memberExpression at hc
    split at hc
    · next hplain =>
      have hall : ∀ d ∈ name.toList, isNameChar d = true := by
        cases hcs : name.toList with
        | nil => simp
        | cons d ds =>
          simp only [hcs, isPlainName, Bool.and_eq_true, List.all_eq_true] at hplain
          intro x hx
          rcases List.mem_cons.1 hx with rfl | hx
          · simp [isNameChar, hplain.1]
          · exact hplain.2 x hx
      have hne : name.toList ≠ [] := by
        rintro hnil
        rw [hnil] at hplain
        cases hplain
      rw [String.toList_append, List.getLast?_append, Option.mem_def] at hc
      have hd := List.getLast?_eq_some_getLast hne
      rw [hd] at hc
      obtain rfl := Option.some.inj hc
      exact isBlank_of_isNameChar (hall _ (List.mem_of_getLast? hd))
    · rw [String.toList_append, List.getLast?_append] at hc
      obtain rfl : ']' = c := Option.some.inj hc
      decide

theorem classify_bindingsMark : Expression.classify bindingsMark = .empty := by
  have htrim : trim bindingsMark.toList = bindingsMark.toList := by decide
  have hlex : lexFrom (Place.start bindingsMark.toList) = none := by decide +kernel
  have htokens : tokens? bindingsMark.toList = some [] := by
    unfold tokens?
    rw [tokensFrom?_eq, hlex]
  simp only [Expression.classify, htrim, htokens]

theorem classify_quoted (s : String) : Expression.classify (Quoted.quoted s) = .text s := by
  have hlexes := Lexes.quoted s []
  rw [List.append_nil] at hlexes
  exact classify_of_says (isTrimmed_quoted s) (.of_lexes hlexes) (says_text s)

theorem classify_memberExpression (kind : RefKind) (name : String) :
    Expression.classify (memberExpression kind.space name) = .member [kind.space, name] := by
  exact classify_of_says (isTrimmed_memberExpression kind name)
    (lexesAll_whole_memberExpression kind name) (says_memberTokens kind name)

private theorem ne_bindingsMark {s : String} (htrim : IsTrimmed s.toList) {c : Char}
    (hhead : s.toList.head? = some c) (hc : c ≠ '/') : trimmed s ≠ bindingsMark := by
  rw [trimmed_eq_self_iff.2 htrim]
  rintro rfl
  exact hc (Option.some.inj hhead).symm

/-- The mark of an element with bindings says nothing. -/
theorem readPart_mark (e : Expression) (span : Span) :
    readPart ctx id ⟨bindingsMark, e, span⟩ st = (fun x => x, st) := by
  have htrim : trimmed bindingsMark = bindingsMark := by decide
  rw [readPart, if_pos htrim]

theorem readPart_quoted (s : String) (span : Span) :
    readPart ctx id ⟨Quoted.quoted s, Expression.classify (Quoted.quoted s), span⟩ st =
      (fun x => { x with texts := s :: x.texts }, st) := by
  have hhead : (Quoted.quoted s).toList.head? = some '"' := by rw [Quoted.toList_quoted]; rfl
  rw [readPart, if_neg (ne_bindingsMark (isTrimmed_quoted s) hhead (by decide)), classify_quoted]

theorem readPart_reference {b : Binding} (hb : Resolves ctx b) {path : String}
    (hpath : ctx.reference? b = some path) (span : Span) :
    readPart ctx id ⟨path, Expression.classify path, span⟩ st =
      (fun x => { x with
        binding := x.binding.or
          (some (conveyedBinding ctx ((ctx.byId? b.kind b.refId).bind (·.display)) b)) }, st) := by
  obtain ⟨t, hid, hkind, hrefId, hresolve, hreference⟩ := hb.resolve?
  have hmember : path = memberExpression b.kind.space t.name := by
    rw [hreference] at hpath
    exact (Option.some.inj hpath).symm
  subst hmember
  obtain ⟨c, hhead, hslash⟩ : ∃ c, b.kind.space.toList.head? = some c ∧ c ≠ '/' := by
    cases b.kind
    · exact ⟨'p', by decide⟩
    · exact ⟨'t', by decide⟩
    · exact ⟨'d', by decide⟩
  have hmark := ne_bindingsMark (isTrimmed_memberExpression b.kind t.name)
    ((head?_memberExpression b.kind t.name).trans hhead) hslash
  rw [readPart, if_neg hmark, classify_memberExpression]
  simp only [hresolve, conveyedBinding, hreference, hkind, hrefId, hid, Option.bind_some]

theorem readPart_expression {s : String} (htrim : trimmed s = s)
    (hkept : (Expression.classify s).IsOpaque) (span : Span) :
    readPart ctx id ⟨s, Expression.classify s, span⟩ st =
      (fun x => { x with expression := x.expression.or (some s) }, st) := by
  have hmark : trimmed s ≠ bindingsMark := by
    rw [htrim]
    rintro rfl
    rw [classify_bindingsMark] at hkept
    exact hkept
  rw [readPart, if_neg hmark]
  cases hclass : Expression.classify s with
  | empty => rw [hclass] at hkept; exact hkept.elim
  | text t => rw [hclass] at hkept; exact hkept.elim
  | member path => rw [hclass] at hkept; exact hkept.elim
  | _ => simp only [htrim]

variable {seed : String} {nodes rest : List Node} {x : Inside} {st' : Progress}

/-- A braced part in front of what is read already. -/
theorem readInside_braced {s : String} {add : Inside → Inside}
    (hsaid : List.Forall₂ SaysBraced [s] nodes)
    (hpart : ∀ span, readPart ctx id ⟨s, Expression.classify s, span⟩ st = (add, st))
    (h : readInside ctx seed id rest st = .ok (x, st')) :
    readInside ctx seed id (nodes ++ rest) st = .ok (add x, st') := by
  obtain ⟨n, ns, ⟨span, rfl⟩, hnil, rfl⟩ := List.forall₂_cons_left_iff.1 hsaid
  cases hnil
  rw [List.singleton_append, readInside, hpart]
  simp only [h]
  rfl

/-- An optional braced part in front of what is read already. -/
theorem readInside_optional {part : Option String} (hsaid : List.Forall₂ SaysBraced part.toList nodes)
    {add : String → Inside → Inside}
    (hpart : ∀ s, part = some s → ∀ span,
      readPart ctx id ⟨s, Expression.classify s, span⟩ st = (add s, st))
    (h : readInside ctx seed id rest st = .ok (x, st')) :
    readInside ctx seed id (nodes ++ rest) st = .ok (part.elim x (add · x), st') := by
  cases part with
  | none =>
    cases hsaid
    exact h
  | some s => exact readInside_braced hsaid (hpart s rfl) h

/-- The content of an element in front of what is read for its children. -/
theorem readInside_inner {p : Properties}
    (hbinding : ∀ b, p.content.binding = some b → Resolves ctx b)
    (hexpression : ∀ s, p.content.expression = some s →
      trimmed s = s ∧ (Expression.classify s).IsOpaque)
    {parts : List Node} (hparts : (innerOf ctx p).IsSaid parts)
    {childIds : List String} {elements : List Element}
    (h : readInside ctx seed id rest st = .ok (⟨childIds, [], none, none, elements⟩, st')) :
    readInside ctx seed id (parts ++ rest) st =
      .ok (⟨childIds, p.content.text.toList, (conveyedContent ctx p.content).binding,
        p.content.expression, elements⟩, st') := by
  obtain ⟨before, text, behind, rfl, hbefore, htext, hbehind⟩ := hparts
  obtain ⟨before, quoted, rfl, hbefore, hquoted⟩ := forall₂_append hbefore
  obtain ⟨mark, bound, rfl, hmark, hbound⟩ := forall₂_append hbefore
  have hread₁ : readInside ctx seed id (behind ++ rest) st =
      .ok (⟨childIds, [], none, p.content.expression, elements⟩, st') := by
    rw [readInside_optional hbehind (fun s hs => readPart_expression (hexpression s hs).1
      (hexpression s hs).2) h]
    cases p.content.expression <;> rfl
  have hread₂ : readInside ctx seed id (text ++ (behind ++ rest)) st =
      .ok (⟨childIds, (p.content.text.filter fun s => !needsQuotes s).toList, none,
        p.content.expression, elements⟩, st') := by
    unfold innerOf at htext
    cases hcase : p.content.text.filter fun s => !needsQuotes s with
    | none =>
      rw [hcase] at htext
      obtain rfl : text = [] := htext
      exact hread₁
    | some s =>
      rw [hcase] at htext
      obtain ⟨span, rfl⟩ : ∃ span, text = [.text s span] := htext
      rw [List.singleton_append, readInside, hread₁]
      rfl
  have hread₃ : readInside ctx seed id (quoted ++ (text ++ (behind ++ rest))) st =
      .ok (⟨childIds, p.content.text.toList, none, p.content.expression, elements⟩, st') := by
    cases htext : p.content.text with
    | none =>
      rw [htext] at hquoted hread₂
      cases hquoted
      exact hread₂
    | some s =>
      rw [htext] at hquoted hread₂
      cases hneeds : needsQuotes s with
      | true =>
        rw [Option.filter_some, hneeds] at hquoted hread₂
        exact readInside_braced hquoted (readPart_quoted s) hread₂
      | false =>
        rw [Option.filter_some, hneeds] at hquoted hread₂
        cases hquoted
        exact hread₂
  have hread₄ : readInside ctx seed id (bound ++ (quoted ++ (text ++ (behind ++ rest)))) st =
      .ok (⟨childIds, p.content.text.toList, (conveyedContent ctx p.content).binding,
        p.content.expression, elements⟩, st') := by
    cases hcase : p.content.binding with
    | none =>
      rw [hcase] at hbound
      cases hbound
      simpa [conveyedContent, hcase] using hread₃
    | some b =>
      obtain ⟨t, -, -, -, -, hpath⟩ := (hbinding b hcase).resolve?
      rw [hcase, Option.bind_some, hpath] at hbound
      have hread := readInside_braced hbound (readPart_reference (hbinding b hcase) hpath) hread₃
      simpa [conveyedContent, hcase] using hread
  rw [List.append_assoc, List.append_assoc, List.append_assoc, List.append_assoc]
  split at hmark
  · exact readInside_braced hmark (readPart_mark _) hread₄
  · cases hmark
    exact hread₄

/-! ### Elements -/

variable {e : Element}

theorem exclusive_conveyedContent {c : Content} (h : c.Exclusive) :
    (conveyedContent ctx c).Exclusive := by
  intro hliteral
  have hnone := h hliteral
  simp [conveyedContent, hnone]

/-- Completing leaves an element as it is, if it is settled already. -/
theorem complete_eq {y : Inside} {p : Properties} (hstyle : p.style.Exclusive)
    (hcontent : y.content.Exclusive) (e : Element) :
    y.complete { e with properties := p } =
      { e with properties := { p with children := y.childIds, content := y.content } } := by
  simp only [Inside.complete, Properties.reconcile, hstyle.reconcile_eq, hcontent.reconcile_eq]

theorem complete_of_inner (h : Portable ctx e) {inner : Inner}
    (hinner : (lookOf ctx e).inner = some inner) (elements : List Element) :
    Inside.complete ⟨writtenChildren e, e.properties.content.text.toList,
        (conveyedContent ctx e.properties.content).binding, e.properties.content.expression,
        elements⟩ (openingElement ctx e) = conveyed ctx e := by
  have hvoid : isVoidTag e.tag = false := by
    simp only [lookOf] at hinner
    split at hinner
    · cases hinner
    · next hopen =>
      simp only [Bool.or_eq_true, not_or, Bool.not_eq_true] at hopen
      exact hopen.1
  have hcontent : Inside.content ⟨writtenChildren e, e.properties.content.text.toList,
      (conveyedContent ctx e.properties.content).binding, e.properties.content.expression,
      elements⟩ = conveyedContent ctx e.properties.content := by
    simp only [Inside.content, conveyedContent]
    cases e.properties.content.text <;> simp
  unfold openingElement
  rw [complete_eq (exclusive_conveyedStyle h.exclusive.style)
    (by rw [hcontent]; exact exclusive_conveyedContent h.exclusive.content), hcontent]
  simp [openingProperties, conveyed, hvoid]

theorem complete_of_none (h : Portable ctx e) (hinner : (lookOf ctx e).inner = none) :
    Inside.nothing.complete (openingElement ctx e) = conveyed ctx e := by
  have hchildren := writtenChildren_of_isNone hinner
  have hcontent : (if isVoidTag e.tag then Content.empty
      else conveyedContent ctx e.properties.content) = Inside.nothing.content := by
    split
    · rfl
    · next hvoid =>
      have hbare : isBare e = true := by
        simp only [lookOf] at hinner
        split at hinner
        · next hclosed => simpa [hvoid] using hclosed
        · cases hinner
      simp only [isBare, Content.isEmpty, Content.hasLiteral, Bool.and_eq_true, Bool.not_eq_true',
        Bool.or_eq_false_iff, Option.isSome_eq_false_iff, Option.isNone_iff_eq_none] at hbare
      obtain ⟨⟨-, ⟨htext, hexpression⟩, hbinding⟩, -⟩ := hbare
      simp [conveyedContent, htext, hexpression, hbinding, Inside.content, Inside.nothing]
  unfold openingElement
  rw [complete_eq (exclusive_conveyedStyle h.exclusive.style) (by simp [Content.Exclusive,
    Inside.content, Inside.nothing])]
  simp only [openingProperties, conveyed, hchildren, hcontent]
  rfl

theorem innerOf_of_inner {inner : Inner} (h : (lookOf ctx e).inner = some inner) :
    inner = innerOf ctx e.properties := by
  simp only [lookOf] at h
  split at h
  · cases h
  · exact (Option.some.inj h).symm

/-- What an element has inside, given what is read for its children. -/
theorem readInside_of_look (h : Portable ctx e) {below : Grove} {P : List Node → Prop}
    {head : Head} {inside : List Node} (hsaid : (lookOf ctx e).IsSaid P head inside)
    (hroots : writtenChildren e = below.roots)
    (hbelow : ∀ nodes, P nodes → ∃ seen, below.Adds st.seen seen ∧
      readInside ctx seed e.id nodes st = .ok
        (⟨below.roots, [], none, none, below.preorder.map (conveyed ctx)⟩, { st with seen := seen })) :
    ∃ x seen, below.Adds st.seen seen ∧
      readInside ctx seed e.id inside st = .ok (x, { st with seen := seen }) ∧
      x.complete (openingElement ctx e) = conveyed ctx e ∧
      x.elements = below.preorder.map (conveyed ctx) := by
  have hinside := hsaid.inside
  cases hinner : (lookOf ctx e).inner with
  | none =>
    rw [hinner] at hinside
    obtain rfl : below = .nil :=
      Grove.eq_nil_of_roots (hroots.symm.trans (writtenChildren_of_isNone hinner))
    subst hinside
    exact ⟨Inside.nothing, st.seen, Grove.adds_nil _, by rw [readInside], complete_of_none h hinner, rfl⟩
  | some inner =>
    rw [hinner] at hinside
    obtain ⟨parts, children, rfl, hparts, hchildren⟩ := hinside
    rw [innerOf_of_inner hinner] at hparts
    obtain ⟨seen, hseen, hread⟩ := hbelow children hchildren
    have hread := readInside_inner h.resolved.content
      (fun s hs => ⟨(h.expression s hs).1, (h.expression s hs).2.2⟩) hparts hread
    refine ⟨_, seen, hseen, hread, ?_, rfl⟩
    rw [← hroots]
    exact complete_of_inner h hinner _

/-- What is said for a grove is read as what comes back for its elements. -/
theorem readInside_of_grove {g : Grove} (hportable : ∀ e ∈ g.preorder, Portable ctx e)
    (hfollows : g.Follows writtenChildren) (seed id : String) (nodes : List Node)
    (hsaid : SaysGrove (lookOf ctx) g nodes) (st : Progress) (hunseen : g.Unseen st.seen) :
    ∃ seen, g.Adds st.seen seen ∧ readInside ctx seed id nodes st =
      .ok (⟨g.roots, [], none, none, g.preorder.map (conveyed ctx)⟩, { st with seen := seen }) := by
  induction g generalizing id nodes st with
  | nil =>
    obtain rfl : nodes = [] := hsaid
    exact ⟨st.seen, Grove.adds_nil _, by rw [readInside]; rfl⟩
  | cons e below beside ihb ihs =>
    obtain ⟨head, inside, rest, rfl, hlook, hbeside⟩ := hsaid
    obtain ⟨hroots, hfb, hfs⟩ := hfollows
    have he := hportable e (by simp [Grove.preorder])
    obtain ⟨hnew, hub, hus⟩ := hunseen.of_cons
    have hopening := readOpening_of_look he.exclusive he.resolved.style
      (fun name handler hget => (he.handlers name handler hget).1) hlook.tag hlook.attributes seed
      (some id) hnew
    obtain ⟨x, seen₁, hseen₁, hinside, hcomplete, helements⟩ :=
      readInside_of_look he hlook hroots fun children hchildren =>
        ihb (fun y hy => hportable y (by simp [Grove.preorder, hy])) hfb e.id children hchildren
          { st with seen := e.id :: st.seen } hub
    obtain ⟨seen₂, hseen₂, hrest⟩ :=
      ihs (fun y hy => hportable y (by simp [Grove.preorder, hy])) hfs id rest hbeside
        { st with seen := seen₁ } (hus hseen₁)
    refine ⟨seen₂, hseen₁.cons hseen₂, ?_⟩
    have hid : (openingElement ctx e).id = e.id := rfl
    rw [readInside]
    simp only [hopening, hid, hinside, hrest, Bind.bind, Except.bind, Pure.pure, Except.pure,
      hcomplete, helements]
    simp [Grove.roots, Grove.preorder]

/-! ### Trees -/

theorem elementsOf_of_look {below : Grove}
    (hportable : ∀ x ∈ (Grove.cons e below .nil).preorder, Portable ctx x)
    (hfollows : (Grove.cons e below .nil).Follows writtenChildren)
    (hnodup : (Grove.cons e below .nil).ids.Nodup) {tree : Tree}
    (hsaid : (lookOf ctx e).IsSaid (SaysGrove (lookOf ctx) below) tree.head tree.children)
    (path : String) : elementsOf ctx path tree =
      .ok ⟨e.id, (Grove.cons e below .nil).preorder.map (conveyed ctx), []⟩ := by
  obtain ⟨hroots, hbelow, -⟩ := hfollows
  have he := hportable e (by simp [Grove.preorder])
  have hunseen : (Grove.cons e below .nil).Unseen Progress.start.seen :=
    ⟨hnodup, fun _ _ => List.not_mem_nil⟩
  obtain ⟨hnew, hub, -⟩ := hunseen.of_cons
  have hopening : readOpening ctx (documentId path) tree.head none Progress.start =
      .ok (openingElement ctx e, { Progress.start with seen := [e.id] }) :=
    readOpening_of_look he.exclusive he.resolved.style
      (fun name handler hget => (he.handlers name handler hget).1) hsaid.tag hsaid.attributes
      (documentId path) none hnew
  obtain ⟨x, seen, -, hinside, hcomplete, helements⟩ :=
    readInside_of_look he hsaid hroots fun children hchildren =>
      readInside_of_grove (fun y hy => hportable y (by simp [Grove.preorder, hy])) hbelow
        (documentId path) e.id children hchildren { Progress.start with seen := [e.id] } hub
  have hid : (openingElement ctx e).id = e.id := rfl
  unfold elementsOf
  simp only [hopening, hid, hinside, Bind.bind, Except.bind, Pure.pure, Except.pure, hcomplete,
    helements]
  simp [Grove.preorder, Progress.start]

/-- The children of an element as far as they are written. -/
def pruned (e : Element) : Element :=
  { e with properties := { e.properties with children := writtenChildren e } }

/-- The elements that a writer comes to, each before its children. -/
def written (es : List Element) (root : String) : List Element :=
  (Element.subtree (es.map pruned) root).filterMap (Element.find? es)

def IsBinding (e : Element) (b : Binding) : Prop :=
  (∃ key, e.properties.style.binding? key = some b) ∨ e.properties.content.binding = some b

/-- A tree that markup can carry: every id that is listed is there and is listed once, each element
can be spelled and has nothing literal and bound at once, and every binding has a target, the name
of which is its own. -/
structure WellFormed (ctx : BindingContext) (es : List Element) (root : String) : Prop where
  found : (Element.find? es root).isSome = true
  children : ∀ e ∈ written es root, ∀ c ∈ writtenChildren e, (Element.find? es c).isSome = true
  once : (root :: (written es root).flatMap writtenChildren).Nodup
  reconciled : ∀ e ∈ written es root, e.reconcile = e
  spellable : ∀ e ∈ written es root, Spellable e
  bound : ∀ e ∈ written es root, ∀ b, IsBinding e b → (ctx.byId? b.kind b.refId).isSome = true
  names : ctx.targets.Pairwise fun t u => ¬(t.kind = u.kind ∧ t.name = u.name)

/-- The name of a target leads to it, if it is its own. -/
theorem byName?_of_names {t : BindingTarget}
    (hnames : ctx.targets.Pairwise fun t u => ¬(t.kind = u.kind ∧ t.name = u.name))
    (ht : t ∈ ctx.targets) : ctx.byName? t.kind t.name = some t :=
  find?_of_pairwise (fun t u : BindingTarget => t.kind == u.kind && t.name == u.name) (by simp)
    (hnames.imp fun h => by simpa using h) ht

theorem resolves_of_names {b : Binding}
    (hnames : ctx.targets.Pairwise fun t u => ¬(t.kind = u.kind ∧ t.name = u.name))
    (hb : (ctx.byId? b.kind b.refId).isSome = true) : Resolves ctx b := by
  obtain ⟨t, ht⟩ := Option.isSome_iff_exists.1 hb
  have hmatch := List.find?_some ht
  simp only [Bool.and_eq_true, beq_iff_eq] at hmatch
  have hname := byName?_of_names hnames (List.mem_of_find?_eq_some ht)
  rw [hmatch.1] at hname
  exact ⟨t, ht, hname⟩

/-- A grove that a look-up with pruned elements holds, with the elements as they are. -/
theorem exists_grove_of_pruned {es : List Element} {g : Grove} (hfollows : g.Follows Element.children)
    (hstored : g.StoredIn (es.map pruned)) :
    ∃ g' : Grove, g'.roots = g.roots ∧ g'.ids = g.ids ∧ g'.Follows writtenChildren ∧
      g'.StoredIn es := by
  have hfind (id : String) : Element.find? (es.map pruned) id = (Element.find? es id).map pruned :=
    Element.find?_map es id fun _ => rfl
  set restore : Element → Element := fun e => (Element.find? es e.id).getD e with hrestore
  have hstored' : ∀ e ∈ g.preorder, Element.find? es e.id = some (restore e) ∧
      pruned (restore e) = e := by
    intro e he
    have h := hstored e he
    rw [hfind] at h
    obtain ⟨d, hd, hpruned⟩ := Option.map_eq_some_iff.1 h
    simp [hrestore, hd, hpruned]
  have hid : ∀ e, (restore e).id = e.id := by
    intro e
    simp only [hrestore]
    cases hcase : Element.find? es e.id with
    | none => rfl
    | some d => exact Element.id_of_find? hcase
  refine ⟨g.map restore, Grove.roots_map hid g, Grove.ids_map hid g,
    hfollows.map hid fun e he => ?_, fun e he => ?_⟩
  · rw [← congrArg Element.children (hstored' e he).2]
    rfl
  · rw [Grove.preorder_map] at he
    obtain ⟨d, hd, rfl⟩ := List.mem_map.1 he
    rw [hid]
    exact (hstored' d hd).1

theorem filterMap_find?_of_stored {es : List Element} {g : Grove} (h : g.StoredIn es) :
    g.ids.filterMap (Element.find? es) = g.preorder := by
  rw [Grove.ids, List.filterMap_map]
  conv => rhs; rw [← List.filterMap_some (l := g.preorder)]
  exact List.filterMap_congr fun e he => h e he

private theorem flatMap_filterMap {α β γ : Type} (f : α → Option β) (g : β → List γ) (xs : List α) :
    (xs.filterMap f).flatMap g = xs.flatMap fun x => ((f x).map g).getD [] := by
  induction xs with
  | nil => rfl
  | cons x xs ih =>
    rw [List.filterMap_cons, List.flatMap_cons]
    cases f x <;> simp [ih]

theorem exists_grove_of_wellFormed {es : List Element} {root : String}
    (h : WellFormed ctx es root) : ∃ e below, e.id = root ∧
      (Grove.cons e below .nil).Follows writtenChildren ∧ (Grove.cons e below .nil).StoredIn es ∧
      (Grove.cons e below .nil).ids.Nodup ∧ (Grove.cons e below .nil).preorder = written es root := by
  have hfind (id : String) : Element.find? (es.map pruned) id = (Element.find? es id).map pruned :=
    Element.find?_map es id fun _ => rfl
  have hsome (id : String) :
      (Element.find? (es.map pruned) id).isSome = (Element.find? es id).isSome := by
    rw [hfind, Option.isSome_map]
  have honce : [root] ++ (Element.walk (es.map pruned) [] [root]).flatMap (fun id =>
      ((Element.find? (es.map pruned) id).map Element.children).getD []) =
      root :: (written es root).flatMap writtenChildren := by
    rw [written, flatMap_filterMap, List.singleton_append]
    congr 2
    funext id
    rw [hfind, Option.map_map]
    rfl
  obtain ⟨g, hroots, hfollows, hstored, hids⟩ :=
    @Element.exists_grove_of_walk (es.map pruned) [] [root]
      (fun id hid => by rw [List.mem_singleton.1 hid, hsome]; exact h.found)
      (fun id hid e he c hc => by
        rw [hfind] at he
        obtain ⟨d, hd, rfl⟩ := Option.map_eq_some_iff.1 he
        rw [hsome]
        exact h.children d (List.mem_filterMap.2 ⟨id, hid, hd⟩) c hc)
      (honce ▸ h.once) (by simp)
  obtain ⟨g, hroots', hids', hfollows, hstored⟩ := exists_grove_of_pruned hfollows hstored
  rw [hroots] at hroots'
  rw [hids] at hids'
  have hpreorder : g.preorder = written es root := by
    rw [← filterMap_find?_of_stored hstored, hids']
    rfl
  have hnodup : g.ids.Nodup := by
    rw [hids']
    exact (Element.nodup_walk _ _ _).1
  cases g with
  | nil => cases hroots'
  | cons e below beside =>
    obtain ⟨hid, hbeside⟩ := List.cons.inj hroots'
    obtain rfl : beside = .nil := by
      cases beside with
      | nil => rfl
      | cons => cases hbeside
    exact ⟨e, below, hid, hfollows, hstored, hnodup, hpreorder⟩

/-- The texts of a tree whose elements are all portable are read as that tree. -/
theorem read_of_portable {es : List Element} {below : Grove}
    (hportable : ∀ x ∈ (Grove.cons e below .nil).preorder, Portable ctx x)
    (hfollows : (Grove.cons e below .nil).Follows writtenChildren)
    (hstored : (Grove.cons e below .nil).StoredIn es)
    (hnodup : (Grove.cons e below .nil).ids.Nodup) (path name : String) :
    read (write ctx es e.id).text path ctx =
        .ok ⟨e.id, (Grove.cons e below .nil).preorder.map (conveyed ctx), []⟩ ∧
      read (writeModule ctx es e.id name).text path ctx =
        .ok ⟨e.id, (Grove.cons e below .nil).preorder.map (conveyed ctx), []⟩ := by
  have hresolved : ∀ x ∈ (Grove.cons e below .nil).preorder, Resolved ctx x.properties :=
    fun x hx => (hportable x hx).resolved
  have hlooks : ∀ x ∈ (Grove.cons e below .nil).preorder, (lookOf ctx x).IsReadable :=
    fun x hx => isReadable_lookOf (hportable x hx).toSpellable
  rw [text_write hfollows hstored hnodup hresolved,
    text_writeModule hfollows hstored hnodup hresolved]
  constructor
  · obtain ⟨tree, htree, hsaid⟩ := readTree_of_grove hlooks
    rw [read, htree]
    exact elementsOf_of_look hportable hfollows hnodup hsaid path
  · obtain ⟨tree, htree, hsaid⟩ := readTree_of_module hlooks name
    rw [read, htree]
    exact elementsOf_of_look hportable hfollows hnodup hsaid path

/-- What is written of a well-formed tree is a grove of portable elements. -/
theorem exists_portable_of_wellFormed {es : List Element} {root : String}
    (h : WellFormed ctx es root) :
    ∃ e below, e.id = root ∧ (Grove.cons e below .nil).Follows writtenChildren ∧
      (Grove.cons e below .nil).StoredIn es ∧ (Grove.cons e below .nil).ids.Nodup ∧
      (Grove.cons e below .nil).preorder = written es root ∧
      ∀ x ∈ (Grove.cons e below .nil).preorder, Portable ctx x := by
  obtain ⟨e, below, hroot, hfollows, hstored, hnodup, hwritten⟩ := exists_grove_of_wellFormed h
  refine ⟨e, below, hroot, hfollows, hstored, hnodup, hwritten, ?_⟩
  rw [hwritten]
  intro x hx
  have hbound := fun b hb => resolves_of_names h.names (h.bound x hx b hb)
  exact ⟨h.spellable x hx, Element.exclusive_iff.2 (h.reconciled x hx),
    fun key b hb => hbound b (.inl ⟨key, hb⟩), fun b hb => hbound b (.inr hb)⟩

/-- Writing a tree and reading it again gives the tree back without a finding: by itself, and within
a module. -/
theorem read_write {es : List Element} {root : String} (h : WellFormed ctx es root)
    (path name : String) :
    read (write ctx es root).text path ctx =
        .ok ⟨root, (written es root).map (conveyed ctx), []⟩ ∧
      read (writeModule ctx es root name).text path ctx =
        .ok ⟨root, (written es root).map (conveyed ctx), []⟩ := by
  obtain ⟨e, below, rfl, hfollows, hstored, hnodup, hwritten, hportable⟩ :=
    exists_portable_of_wellFormed h
  rw [← hwritten]
  exact read_of_portable hportable hfollows hstored hnodup path name

/-- A card with a handler and a bound label, and an icon in it. -/
def cardTree : List Element :=
  [⟨"card", "div", .element, some "Card", ⟨.screen, "home"⟩,
    { Properties.empty with
      content := ⟨none, some ⟨.prop, "p1", none, none⟩, none⟩
      events := Dict.empty.insert "onClick" "go()"
      children := ["icon"] }, none⟩,
    ⟨"icon", "img", .element, none, ⟨.element, "card"⟩, Properties.empty, none⟩]

def cardContext : BindingContext := ⟨[⟨.prop, "p1", "label", some "Buy"⟩]⟩

private theorem written_cardTree : written cardTree "card" = cardTree := by
  have hsubtree : Element.subtree (cardTree.map pruned) "card" = ["card", "icon"] := by
    unfold Element.subtree
    rw [Element.walk_cons rfl (by decide)]
    change "card" :: Element.walk _ ["card"] ["icon"] = _
    rw [Element.walk_cons rfl (by decide)]
    change "card" :: "icon" :: Element.walk _ _ [] = _
    rw [Element.walk]
  rw [written, hsubtree]
  rfl

theorem spellable_cardTree : ∀ e ∈ cardTree, Spellable e := by
  have hevent : ∀ name handler, (Dict.empty.insert "onClick" "go()").get? name = some handler →
      name = "onClick" ∧ handler = "go()" := by
    intro name handler h
    rw [Dict.get?_insert] at h
    split at h
    · next heq => exact ⟨heq, (Option.some.inj h).symm⟩
    · cases h
  intro e he
  simp only [cardTree, List.mem_cons, List.not_mem_nil, or_false] at he
  rcases he with rfl | rfl
  · refine ⟨⟨["div"], by decide, by decide, by decide⟩, fun _ h => ?_, fun _ h => ?_,
      fun name h hcolon => ?_, fun name handler h => ?_, fun _ h => ?_⟩
    · cases h
    · cases h
    · obtain ⟨handler, hget⟩ := Option.isSome_iff_exists.1 h
      rw [(hevent name handler hget).1] at hcolon
      exact absurd hcolon (by decide)
    · obtain ⟨rfl, rfl⟩ := hevent name handler h
      exact ⟨by decide, by unfold Captured; cbv⟩
    · cases h
  · refine ⟨⟨["img"], by decide, by decide, by decide⟩, fun _ h => ?_, fun _ h => ?_,
      fun _ h => ?_, fun _ _ h => ?_, fun _ h => ?_⟩ <;> cases h

private theorem wellFormed_cardTree : WellFormed cardContext cardTree "card" where
  found := rfl
  children := by
    rw [written_cardTree]
    decide
  once := by
    rw [written_cardTree]
    decide
  reconciled := by
    rw [written_cardTree]
    intro e he
    simp only [cardTree, List.mem_cons, List.not_mem_nil, or_false] at he
    rcases he with rfl | rfl <;> rfl
  spellable := by
    rw [written_cardTree]
    exact spellable_cardTree
  bound := by
    rw [written_cardTree]
    intro e he b hb
    simp only [cardTree, List.mem_cons, List.not_mem_nil, or_false] at he
    rcases he with rfl | rfl <;> rcases hb with ⟨_, h⟩ | h <;> cases h
    rfl
  names := by decide

theorem read_write_card :
    read (write cardContext cardTree "card").text "card.jsx" cardContext =
        .ok ⟨"card", (written cardTree "card").map (conveyed cardContext), []⟩ ∧
      read (writeModule cardContext cardTree "card" "Card").text "card.jsx" cardContext =
        .ok ⟨"card", (written cardTree "card").map (conveyed cardContext), []⟩ :=
  read_write wellFormed_cardTree "card.jsx" "Card"

/-- The source of the card is read as the card. -/
theorem read_cardTree (path : String) :
    read (write cardContext cardTree "card").text path cardContext =
      .ok ⟨"card", cardTree.map (conveyed cardContext), []⟩ := by
  obtain ⟨e, below, hroot, hfollows, hstored, hnodup, hwritten, hportable⟩ :=
    exists_portable_of_wellFormed wellFormed_cardTree
  have hread := (read_of_portable hportable hfollows hstored hnodup path "").1
  rw [hwritten, written_cardTree, hroot] at hread
  exact hread

end DesignSync.Markup

import DesignSync.Proofs.Markup.ElementTree
import DesignSync.Proofs.Number.Notation

/-!
Which ids elements get when they are read. An element without one gets the next generated id, and
these are all different; but nothing keeps them apart from ids that stand in the source. The main
statement says that two elements get one id only if the source repeats an id, or has one that is
generated as well.
-/

namespace DesignSync.Markup

open Text

/-! ### Opening tags and their ids -/

/-- The opening tags of nodes, each before those inside it. -/
def heads : List Node → List Head
  | [] => []
  | .element head children :: nodes => head :: (heads children ++ heads nodes)
  | .text _ _ :: nodes => heads nodes
  | .braced _ :: nodes => heads nodes

def Tree.heads (t : Tree) : List Head := t.head :: Markup.heads t.children

/-- Whether an opening tag says nothing about an id. -/
def Head.isUnnamed (h : Head) : Bool := (h.attribute? idAttribute).isNone

/-- The id that stands in an opening tag. -/
def Head.explicitId? (h : Head) : Option String := (h.attribute? idAttribute).bind (·.value.text?)

/-- How many of some opening tags say nothing about an id. -/
def unnamed (hs : List Head) : Nat := hs.countP (·.isUnnamed)

/-- The ids that stand in opening tags. -/
def explicitIds (hs : List Head) : List String := hs.filterMap (·.explicitId?)

/-- The ids that opening tags get after `n` ids have been generated. -/
def assignedIds (seed : String) : Nat → List Head → List String
  | _, [] => []
  | n, h :: hs =>
    if h.isUnnamed then freshId seed (n + 1) :: assignedIds seed (n + 1) hs
    else h.explicitId?.toList ++ assignedIds seed n hs

variable {seed : String} {n : Nat}

@[simp] theorem unnamed_cons (h : Head) (hs : List Head) :
    unnamed (h :: hs) = unnamed hs + if h.isUnnamed then 1 else 0 := List.countP_cons

theorem unnamed_append (hs hs' : List Head) : unnamed (hs ++ hs') = unnamed hs + unnamed hs' :=
  List.countP_append

theorem assignedIds_append (hs hs' : List Head) :
    assignedIds seed n (hs ++ hs') =
      assignedIds seed n hs ++ assignedIds seed (n + unnamed hs) hs' := by
  induction hs generalizing n with
  | nil => rfl
  | cons h hs ih =>
    by_cases hnamed : h.isUnnamed = true
    · simp [assignedIds, hnamed, ih, Nat.add_assoc, Nat.add_comm 1]
    · simp [assignedIds, hnamed, ih]

theorem explicitId?_of_isUnnamed {h : Head} (hnamed : h.isUnnamed = true) :
    h.explicitId? = none := by
  rw [Head.isUnnamed, Option.isNone_iff_eq_none] at hnamed
  rw [Head.explicitId?, hnamed]
  rfl

/-! ### Generated ids -/

/-- Generated ids are different. -/
theorem freshId_injective (seed : String) : Function.Injective (freshId seed) := by
  intro m n h
  have hlist := congrArg String.toList h
  simp only [freshId, String.toList_append] at hlist
  have hdigits := List.append_cancel_left hlist
  simp only [toString, Nat.repr, String.toList_ofList] at hdigits
  rw [← Numeral.value_toDigits m, hdigits, Numeral.value_toDigits]

/-- The ids that opening tags get are those that stand in them and the next generated ones. -/
theorem mem_assignedIds {hs : List Head} {id : String} :
    id ∈ assignedIds seed n hs ↔
      id ∈ explicitIds hs ∨ ∃ k, n < k ∧ k ≤ n + unnamed hs ∧ id = freshId seed k := by
  induction hs generalizing n with
  | nil =>
    simp [assignedIds, explicitIds, unnamed]
    omega
  | cons h hs ih =>
    by_cases hnamed : h.isUnnamed = true
    · have hexplicit : explicitIds (h :: hs) = explicitIds hs :=
        List.filterMap_cons_none (explicitId?_of_isUnnamed hnamed)
      rw [assignedIds, if_pos hnamed, List.mem_cons, ih, hexplicit, unnamed_cons, if_pos hnamed]
      constructor
      · rintro (rfl | hid | ⟨k, hlt, hle, rfl⟩)
        · exact .inr ⟨n + 1, by omega, by omega, rfl⟩
        · exact .inl hid
        · exact .inr ⟨k, by omega, by omega, rfl⟩
      · rintro (hid | ⟨k, hlt, hle, rfl⟩)
        · exact .inr (.inl hid)
        · by_cases hk : k = n + 1
          · exact .inl (by rw [hk])
          · exact .inr (.inr ⟨k, by omega, by omega, rfl⟩)
    · have hexplicit : explicitIds (h :: hs) = h.explicitId?.toList ++ explicitIds hs := by
        rw [explicitIds, List.filterMap_cons]
        cases h.explicitId? <;> rfl
      rw [assignedIds, if_neg hnamed, List.mem_append, ih, hexplicit, List.mem_append,
        unnamed_cons, if_neg hnamed, Nat.add_zero, or_assoc]

/-- Whether no id stands in opening tags that is generated for one of them. -/
def IsFree (seed : String) (n : Nat) (hs : List Head) : Prop :=
  ∀ k, n < k → k ≤ n + unnamed hs → freshId seed k ∉ explicitIds hs

/-- Opening tags get different ids just if those that stand in them are different and none of them
is generated as well. -/
theorem nodup_assignedIds {hs : List Head} :
    (assignedIds seed n hs).Nodup ↔ (explicitIds hs).Nodup ∧ IsFree seed n hs := by
  induction hs generalizing n with
  | nil => simp [assignedIds, explicitIds, IsFree]
  | cons h hs ih =>
    by_cases hnamed : h.isUnnamed = true
    · have hexplicit : explicitIds (h :: hs) = explicitIds hs :=
        List.filterMap_cons_none (explicitId?_of_isUnnamed hnamed)
      rw [assignedIds, if_pos hnamed, List.nodup_cons, ih, mem_assignedIds, hexplicit]
      constructor
      · rintro ⟨hnew, hnodup, hfree⟩
        refine ⟨hnodup, fun k hlt hle hmem => ?_⟩
        rw [hexplicit] at hmem
        rw [unnamed_cons, if_pos hnamed] at hle
        by_cases hk : k = n + 1
        · exact hnew (.inl (hk ▸ hmem))
        · exact hfree k (by omega) (by omega) hmem
      · rintro ⟨hnodup, hfree⟩
        unfold IsFree at hfree
        rw [hexplicit, unnamed_cons, if_pos hnamed] at hfree
        refine ⟨?_, hnodup, fun k hlt hle => hfree k (by omega) (by omega)⟩
        rintro (hmem | ⟨k, hlt, -, heq⟩)
        · exact hfree (n + 1) (by omega) (by omega) hmem
        · have := freshId_injective seed heq
          omega
    · have hexplicit : explicitIds (h :: hs) = h.explicitId?.toList ++ explicitIds hs := by
        rw [explicitIds, List.filterMap_cons]
        cases h.explicitId? <;> rfl
      have hcount : unnamed (h :: hs) = unnamed hs := by simp [hnamed]
      rw [assignedIds, if_neg hnamed, List.nodup_append, ih, hexplicit, List.nodup_append]
      unfold IsFree
      rw [hcount, hexplicit]
      constructor
      · rintro ⟨hone, ⟨hnodup, hfree⟩, hdisjoint⟩
        refine ⟨⟨hone, hnodup, fun i hi j hj => hdisjoint i hi j (mem_assignedIds.2 (.inl hj))⟩,
          fun k hlt hle hmem => ?_⟩
        rcases List.mem_append.1 hmem with hmem | hmem
        · exact hdisjoint _ hmem _ (mem_assignedIds.2 (.inr ⟨k, hlt, hle, rfl⟩)) rfl
        · exact hfree k hlt hle hmem
      · rintro ⟨⟨hone, hnodup, hdisjoint⟩, hfree⟩
        refine ⟨hone, ⟨hnodup, fun k hlt hle hmem =>
          hfree k hlt hle (List.mem_append_right _ hmem)⟩, fun i hi j hj heq => ?_⟩
        rcases mem_assignedIds.1 hj with hj | ⟨k, hlt, hle, rfl⟩
        · exact hdisjoint i hi j hj heq
        · exact hfree k hlt hle (List.mem_append_left _ (heq ▸ hi))

/-! ### Reading opening tags -/

/-- Whether reading does not fail for an id that is there twice. -/
def NoDuplicate {α : Type} (x : Except ReadError α) : Prop :=
  ∀ span id, x ≠ .error (.invalid span (.duplicateId id))

namespace NoDuplicate

variable {α β : Type}

theorem ok (a : α) : NoDuplicate (.ok a : Except ReadError α) := fun _ _ h => by cases h

theorem bind {x : Except ReadError α} {f : α → Except ReadError β} (hx : NoDuplicate x)
    (hf : ∀ a, x = .ok a → NoDuplicate (f a)) : NoDuplicate (x >>= f) := by
  cases x with
  | error e => exact fun span id h => hx span id (congrArg Except.error (Except.error.inj h))
  | ok a => exact hf a rfl

theorem map {x : Except ReadError α} (f : α → β) (hx : NoDuplicate x) :
    NoDuplicate (x.map f) := by
  cases x with
  | error e => exact fun span id h => hx span id (congrArg Except.error (Except.error.inj h))
  | ok a => exact ok _

theorem foldlM {f : β → α → Except ReadError β} (hf : ∀ x a, NoDuplicate (f x a)) (xs : List α)
    (x : β) : NoDuplicate (xs.foldlM f x) := by
  induction xs generalizing x with
  | nil => exact ok x
  | cons a xs ih =>
    rw [List.foldlM_cons]
    exact bind (hf x a) fun y _ => ih y

theorem textOf (a : Attribute) : NoDuplicate (textOf a) := by
  unfold Markup.textOf
  split
  · exact ok _
  · exact fun _ _ h => by cases h

theorem attributeText? (h : Head) (name : String) : NoDuplicate (attributeText? h name) := by
  unfold Markup.attributeText?
  split
  · exact map some (textOf _)
  · exact ok _

theorem readKind (h : Head) : NoDuplicate (readKind h) := by
  unfold Markup.readKind
  split
  · exact ok _
  · refine bind (textOf _) fun value _ => ?_
    split
    · exact ok _
    · exact fun _ _ h => by cases h

theorem readOwnerKind (h : Head) : NoDuplicate (readOwnerKind h) := by
  unfold Markup.readOwnerKind
  split
  · exact ok _
  · refine bind (textOf _) fun value _ => ?_
    split
    · exact ok _
    · exact fun _ _ h => by cases h

theorem readOwnership (h : Head) (parent : Option String) : NoDuplicate (readOwnership h parent) := by
  refine bind (readOwnerKind h) fun kind _ => bind (attributeText? h _) fun component _ =>
    bind (attributeText? h _) fun owner _ => ?_
  split <;> split <;> first | exact ok _ | exact fun _ _ h => by cases h

theorem readStyle (ctx : BindingContext) (id : String) (a : Attribute) (st : Progress) :
    NoDuplicate (readStyle ctx id a st) := by
  unfold Markup.readStyle
  split
  · refine foldlM (fun x entry => ?_) _ _
    obtain ⟨style, st⟩ := x
    obtain ⟨key, value⟩ := entry
    simp only [readStyleEntry]
    split
    · exact ok _
    · exact ok _
    · split <;> exact ok _
    · exact fun _ _ h => by cases h
  · exact fun _ _ h => by cases h

theorem readProperty (ctx : BindingContext) (id : String) (x : Properties × Progress)
    (a : Attribute) : NoDuplicate (readProperty ctx id x a) := by
  obtain ⟨p, st⟩ := x
  simp only [Markup.readProperty]
  split
  · exact ok _
  · split
    · exact map _ (readStyle ctx id a st)
    · split
      · split <;> exact ok _
      · exact ok _

end NoDuplicate

/-- The id that an opening tag gets after `n` ids have been generated. -/
def Head.id? (seed : String) (n : Nat) (h : Head) : Option String :=
  if h.isUnnamed then some (freshId seed (n + 1)) else h.explicitId?

theorem assignedIds_cons (h : Head) (hs : List Head) :
    assignedIds seed n (h :: hs) = (h.id? seed n).toList ++ assignedIds seed (n + unnamed [h]) hs := by
  by_cases hnamed : h.isUnnamed = true <;> simp [assignedIds, Head.id?, hnamed, unnamed]

variable {ctx : BindingContext} {h : Head} {st st' : Progress}

theorem readId_ok {id : String} (hread : readId seed h st = .ok (id, st')) :
    h.id? seed st.generated = some id ∧ st'.generated = st.generated + unnamed [h] := by
  unfold readId at hread
  obtain ⟨given, hgiven, hread⟩ := bind_eq_ok_iff.1 hread
  unfold attributeText? at hgiven
  cases hattr : h.attribute? idAttribute with
  | none =>
    have hnamed : h.isUnnamed = true := by rw [Head.isUnnamed, hattr]; rfl
    rw [hattr] at hgiven
    cases hgiven
    simp only [pure_bind] at hread
    split at hread
    · cases hread
    · cases hread
      simp [Head.id?, unnamed, hnamed]
  | some a =>
    have hnamed : h.isUnnamed = false := by rw [Head.isUnnamed, hattr]; rfl
    rw [hattr] at hgiven
    obtain ⟨text, htext, rfl⟩ := map_eq_ok_iff.1 hgiven
    have hexplicit : h.explicitId? = some text := by
      unfold textOf at htext
      rw [Head.explicitId?, hattr]
      cases hvalue : a.value.text? with
      | none => simp [hvalue] at htext
      | some s =>
        simp only [hvalue, Except.ok.injEq] at htext
        simp [hvalue, htext]
    simp only [pure_bind] at hread
    split at hread
    · cases hread
    · cases hread
      simp [Head.id?, unnamed, hnamed, hexplicit]

theorem readId_noDuplicate (hnew : ∀ id, h.id? seed st.generated = some id → id ∉ st.seen) :
    NoDuplicate (readId seed h st) := by
  unfold readId attributeText?
  cases hattr : h.attribute? idAttribute with
  | none =>
    have hnamed : h.isUnnamed = true := by rw [Head.isUnnamed, hattr]; rfl
    have hfree := hnew (freshId seed (st.generated + 1)) (by simp [Head.id?, hnamed])
    intro span id hdup
    simp [Bind.bind, Except.bind, Pure.pure, Except.pure, Progress.report, hfree] at hdup
  | some a =>
    have hnamed : h.isUnnamed = false := by rw [Head.isUnnamed, hattr]; rfl
    cases hvalue : a.value.text? with
    | none =>
      intro span id hdup
      simp [textOf, hvalue, Bind.bind, Except.bind, Except.map] at hdup
    | some s =>
      have hfree := hnew s (by simp [Head.id?, hnamed, Head.explicitId?, hattr, hvalue])
      intro span id hdup
      simp [textOf, hvalue, Bind.bind, Except.bind, Except.map, Pure.pure, Except.pure,
        hfree] at hdup

theorem readOpening_noDuplicate {parent : Option String}
    (hnew : ∀ id, h.id? seed st.generated = some id → id ∉ st.seen) :
    NoDuplicate (readOpening ctx seed h parent st) :=
  .bind (readId_noDuplicate hnew) fun _ _ => .bind (.readKind h) fun _ _ =>
    .bind (.readOwnership h parent) fun _ _ => .bind (.attributeText? h _) fun _ _ =>
      .bind (.attributeText? h _) fun _ _ =>
        .bind (.foldlM (.readProperty ctx _) _ _) fun _ _ => .ok _

/-! ### Reading trees -/

/-- What has been read gave the opening tags their ids. -/
structure IdsRead (seed : String) (st : Progress) (hs : List Head) (ids : List String)
    (st' : Progress) : Prop where
  assigned : ids = assignedIds seed st.generated hs
  seen : ∀ id, id ∈ st'.seen ↔ id ∈ st.seen ∨ id ∈ ids
  generated : st'.generated = st.generated + unnamed hs

theorem readOpening_idsRead {parent : Option String} {e : Element}
    (hread : readOpening ctx seed h parent st = .ok (e, st')) :
    IdsRead seed st [h] [e.id] st' := by
  obtain ⟨st₁, hid, hids⟩ := readOpening_ids hread
  obtain ⟨hassigned, hcount⟩ := readId_ok hid
  refine ⟨?_, fun id => ?_, (congrArg Prod.fst hids).trans hcount⟩
  · rw [assignedIds_cons, hassigned]
    rfl
  · rw [(readOpening_seen hread).2, List.mem_cons, List.mem_singleton, or_comm]

theorem IdsRead.append {st₁ st₂ : Progress} {hs hs' : List Head} {ids ids' : List String}
    (h : IdsRead seed st hs ids st₁) (h' : IdsRead seed st₁ hs' ids' st₂) :
    IdsRead seed st (hs ++ hs') (ids ++ ids') st₂ := by
  refine ⟨?_, fun id => ?_, ?_⟩
  · rw [assignedIds_append, ← h.generated, ← h.assigned, ← h'.assigned]
  · rw [h'.seen, h.seen, List.mem_append, or_assoc]
  · rw [h'.generated, h.generated, unnamed_append, Nat.add_assoc]

theorem IdsRead.of_ids {st₁ : Progress} {hs : List Head} {ids : List String}
    (h : IdsRead seed st₁ hs ids st') (hst : st₁.ids = st.ids) : IdsRead seed st hs ids st' := by
  obtain ⟨hgenerated, hseen⟩ := Prod.mk.inj hst
  exact ⟨hgenerated ▸ h.assigned, hseen ▸ h.seen, hgenerated ▸ h.generated⟩

theorem readInside_idsRead (id : String) (nodes : List Node) (st : Progress) {st' : Progress}
    {x : Inside} (hread : readInside ctx seed id nodes st = .ok (x, st')) :
    IdsRead seed st (heads nodes) (x.elements.map (·.id)) st' := by
  induction id, nodes, st using readInside.induct ctx generalizing x st' with
  | case1 id st =>
    simp only [readInside, Except.ok.injEq, Prod.mk.injEq] at hread
    obtain ⟨rfl, rfl⟩ := hread
    exact ⟨by simp [heads, assignedIds, Inside.nothing], by simp [Inside.nothing],
      by simp [heads, unnamed]⟩
  | case2 id head children nodes st ihc ihn =>
    rw [readInside] at hread
    obtain ⟨⟨opening, st₁⟩, hopen, hread⟩ := bind_eq_ok_iff.1 hread
    obtain ⟨⟨inner, st₂⟩, hinner, hread⟩ := bind_eq_ok_iff.1 hread
    obtain ⟨⟨y, st₃⟩, hrest, hread⟩ := bind_eq_ok_iff.1 hread
    cases hread
    have hids := ((readOpening_idsRead hopen).append (ihc opening st₁ hinner)).append
      (ihn st₂ hrest)
    simpa [heads, Inside.complete] using hids
  | case3 id s span nodes st ih =>
    rw [readInside] at hread
    obtain ⟨⟨y, st₁⟩, hrest, hread⟩ := bind_eq_ok_iff.1 hread
    obtain ⟨rfl, rfl⟩ := Prod.mk.inj (Except.ok.inj hread)
    have hids := ih hrest
    rwa [heads]
  | case4 id b nodes st add st₁ hpart ih =>
    rw [readInside, hpart] at hread
    obtain ⟨⟨y, st₂⟩, hrest, hread⟩ := bind_eq_ok_iff.1 hread
    cases hread
    have hids := readPart_ids ctx id b st
    have hparts := readPart_elements ctx id b st y
    rw [hpart] at hids hparts
    rw [heads, hparts.1]
    exact (ih hrest).of_ids hids

/-- Whether opening tags get different ids, none of which has been seen. -/
def AreNew (seed : String) (st : Progress) (hs : List Head) : Prop :=
  (assignedIds seed st.generated hs).Nodup ∧
    ∀ id ∈ assignedIds seed st.generated hs, id ∉ st.seen

theorem AreNew.of_append {hs hs' : List Head} (hnew : AreNew seed st (hs ++ hs')) :
    AreNew seed st hs ∧ ∀ {ids : List String} {st₁ : Progress}, IdsRead seed st hs ids st₁ →
      AreNew seed st₁ hs' := by
  unfold AreNew at hnew ⊢
  rw [assignedIds_append, List.nodup_append] at hnew
  obtain ⟨⟨hnodup, hnodup', hdisjoint⟩, hseen⟩ := hnew
  refine ⟨⟨hnodup, fun id hid => hseen id (List.mem_append_left _ hid)⟩, fun hread => ?_⟩
  rw [hread.generated]
  refine ⟨hnodup', fun id hid hmem => ?_⟩
  rcases (hread.seen id).1 hmem with hmem | hmem
  · exact hseen id (List.mem_append_right _ hid) hmem
  · exact hdisjoint id (hread.assigned ▸ hmem) id hid rfl

theorem AreNew.readOpening {parent : Option String} (hnew : AreNew seed st [h]) :
    NoDuplicate (readOpening ctx seed h parent st) :=
  readOpening_noDuplicate fun id hid => hnew.2 id (by simp [assignedIds_cons, hid])

theorem AreNew.readInside (id : String) (nodes : List Node) (st : Progress)
    (hnew : AreNew seed st (heads nodes)) : NoDuplicate (readInside ctx seed id nodes st) := by
  induction id, nodes, st using readInside.induct ctx with
  | case1 id st =>
    rw [Markup.readInside]
    exact .ok _
  | case2 id head children nodes st ihc ihn =>
    rw [heads, ← List.singleton_append, ← List.append_assoc] at hnew
    obtain ⟨hfront, hbeside⟩ := hnew.of_append
    obtain ⟨hhead, hbelow⟩ := hfront.of_append
    rw [Markup.readInside]
    refine .bind hhead.readOpening fun opened hopen => ?_
    have hids := readOpening_idsRead hopen
    refine .bind (ihc opened.1 opened.2 (hbelow hids)) fun inside hinside => ?_
    have hids' := hids.append (readInside_idsRead _ _ _ hinside)
    exact .bind (ihn inside.2 (hbeside hids')) fun _ _ => .ok _
  | case3 id s span nodes st ih =>
    rw [heads] at hnew
    rw [Markup.readInside]
    exact .bind (ih hnew) fun _ _ => .ok _
  | case4 id b nodes st add st₁ hpart ih =>
    have hids := readPart_ids ctx id b st
    rw [hpart] at hids
    obtain ⟨hgenerated, hseen⟩ := Prod.mk.inj hids
    rw [heads] at hnew
    rw [Markup.readInside, hpart]
    refine .bind (ih ?_) fun _ _ => .ok _
    unfold AreNew
    rw [hgenerated, hseen]
    exact hnew

/-- A tree whose ids are different, and none of them generated as well, is never refused for an id
that is there twice; and only such a tree can be read. Its elements then have those ids, and the
others the generated ones. -/
theorem elementsOf_ids (ctx : BindingContext) (path : String) (t : Tree) :
    ((explicitIds t.heads).Nodup ∧ IsFree (documentId path) 0 t.heads →
      ∀ span id, elementsOf ctx path t ≠ .error (.invalid span (.duplicateId id))) ∧
    ∀ r, elementsOf ctx path t = .ok r →
      r.ids = assignedIds (documentId path) 0 t.heads ∧
        (explicitIds t.heads).Nodup ∧ IsFree (documentId path) 0 t.heads := by
  constructor
  · intro hdistinct
    have hnew : AreNew (documentId path) .start ([t.head] ++ heads t.children) :=
      ⟨nodup_assignedIds.2 hdistinct, fun _ _ h => by cases h⟩
    obtain ⟨hhead, hbelow⟩ := hnew.of_append
    have hreads : NoDuplicate (elementsOf ctx path t) :=
      .bind hhead.readOpening fun ⟨root, st⟩ hopen =>
        .bind ((hbelow (readOpening_idsRead hopen)).readInside _ _ _) fun _ _ => .ok _
    exact hreads
  · intro r hread
    have hids : r.ids = assignedIds (documentId path) 0 t.heads := by
      unfold elementsOf at hread
      obtain ⟨⟨root, st⟩, hopen, hread⟩ := bind_eq_ok_iff.1 hread
      obtain ⟨⟨inner, st'⟩, hinner, hread⟩ := bind_eq_ok_iff.1 hread
      cases hread
      exact ((readOpening_idsRead hopen).append (readInside_idsRead _ _ _ hinner)).assigned
    refine ⟨hids, nodup_assignedIds.1 ?_⟩
    obtain ⟨root, below, -, helements, -, hnodup, -⟩ := elementsOf_grove hread
    rw [← hids, ReadTree.ids, helements]
    exact hnodup

/-- A tree whose root has the id that is generated first for its source, and whose child has none. -/
def clashingTree : Tree where
  head :=
    { tag := "div"
      attributes :=
        [⟨idAttribute, .text "a82231a9-1", ⟨5, 20⟩⟩, ⟨ownershipAttribute, .text "screen", ⟨21, 44⟩⟩,
          ⟨ownerAttribute, .text "S1", ⟨45, 58⟩⟩]
      selfClosing := false
      span := ⟨0, 73⟩ }
  children := [.element ⟨"span", [], true, ⟨59, 67⟩⟩ []]

/-- The generated id is the one that stands in the source: reading is refused, though no id stands
there twice. -/
theorem elementsOf_clashingTree :
    (∀ h ∈ clashingTree.heads, h.isUnnamed = true ∨ h.explicitId?.isSome = true) ∧
      (explicitIds clashingTree.heads).Nodup ∧
      elementsOf .empty "inline.jsx" clashingTree =
        .error (.invalid ⟨59, 67⟩ (.duplicateId "a82231a9-1")) := by
  have hheads : clashingTree.heads =
      [clashingTree.head, ⟨"span", [], true, ⟨59, 67⟩⟩] := by
    simp [Tree.heads, clashingTree, heads]
  have hseed : documentId "inline.jsx" = "a82231a9" := by decide +kernel
  refine ⟨?_, ?_, ?_⟩
  · rw [hheads]
    decide
  · rw [hheads]
    decide
  · unfold elementsOf
    rw [hseed]
    simp only [clashingTree, readInside]
    rfl

end DesignSync.Markup

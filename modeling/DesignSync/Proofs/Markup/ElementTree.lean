import DesignSync.Markup.Elements
import DesignSync.Proofs.Document.Exclusive
import DesignSync.Proofs.Document.Grove
import DesignSync.Proofs.Except

/-!
What reading gives is a tree: its elements in document order, each with an id of its own and with
the elements right below it as its children, and every property literal or bound but not both.
-/

namespace DesignSync.Markup

/-! ### Ids -/

/-- An id that is read has not been seen, and counts as seen afterwards. -/
theorem readId_seen {seed id : String} {h : Head} {st st' : Progress}
    (hread : readId seed h st = .ok (id, st')) : id ∉ st.seen ∧ st'.seen = id :: st.seen := by
  unfold readId at hread
  obtain ⟨given, -, hread⟩ := bind_eq_ok_iff.1 hread
  cases given with
  | some given =>
    simp only [pure_bind] at hread
    split at hread
    · cases hread
    · next hnew =>
      cases hread
      exact ⟨by simpa using hnew, rfl⟩
  | none =>
    simp only [pure_bind] at hread
    split at hread
    · cases hread
    · next hnew =>
      cases hread
      exact ⟨by simpa [Progress.report] using hnew, rfl⟩

/-- How far ids have come: how many were generated, and which were seen. -/
def Progress.ids (st : Progress) : Nat × List String := (st.generated, st.seen)

theorem readStyleEntry_ids {ctx : BindingContext} {id : String} {span : Text.Span}
    {x y : Style × Progress} {entry : String × Expression}
    (h : readStyleEntry ctx id span x entry = .ok y) : y.2.ids = x.2.ids := by
  obtain ⟨style, st⟩ := x
  obtain ⟨key, value⟩ := entry
  simp only [readStyleEntry] at h
  split at h
  · cases h; rfl
  · cases h; rfl
  · split at h <;> cases h <;> rfl
  · cases h

/-- What each step of a fold keeps, the whole fold keeps. -/
theorem foldlM_keeps {α β γ : Type} {f : β → α → Except ReadError β}
    (view : β → γ) (hf : ∀ x a y, f x a = .ok y → view y = view x) {xs : List α} {x y : β}
    (h : xs.foldlM f x = .ok y) : view y = view x := by
  induction xs generalizing x with
  | nil =>
    cases h
    rfl
  | cons a xs ih =>
    rw [List.foldlM_cons] at h
    obtain ⟨z, hz, h⟩ := bind_eq_ok_iff.1 h
    rw [ih h, hf x a z hz]

theorem readStyle_ids {ctx : BindingContext} {id : String} {a : Attribute} {st st' : Progress}
    {style : Style} (h : readStyle ctx id a st = .ok (style, st')) : st'.ids = st.ids := by
  unfold readStyle at h
  split at h
  · exact foldlM_keeps (fun x : Style × Progress => x.2.ids) (fun _ _ _ => readStyleEntry_ids) h
  · cases h

theorem readProperty_ids {ctx : BindingContext} {id : String} {x y : Properties × Progress}
    {a : Attribute} (h : readProperty ctx id x a = .ok y) : y.2.ids = x.2.ids := by
  obtain ⟨p, st⟩ := x
  simp only [readProperty] at h
  split at h
  · cases h
    rfl
  · split at h
    · obtain ⟨⟨style, st'⟩, hstyle, rfl⟩ := map_eq_ok_iff.1 h
      exact readStyle_ids hstyle
    · split at h
      · split at h <;> cases h <;> rfl
      · cases h
        split <;> rfl

/-- The id of an opening tag is read first, and nothing else in it has to do with ids. -/
theorem readOpening_ids {ctx : BindingContext} {seed : String} {h : Head}
    {parent : Option String} {st st' : Progress} {e : Element}
    (hread : readOpening ctx seed h parent st = .ok (e, st')) :
    ∃ st₁, readId seed h st = .ok (e.id, st₁) ∧ st'.ids = st₁.ids := by
  unfold readOpening at hread
  obtain ⟨⟨id, st₁⟩, hid, hread⟩ := bind_eq_ok_iff.1 hread
  obtain ⟨kind, -, hread⟩ := bind_eq_ok_iff.1 hread
  obtain ⟨owner, -, hread⟩ := bind_eq_ok_iff.1 hread
  obtain ⟨name, -, hread⟩ := bind_eq_ok_iff.1 hread
  obtain ⟨instanceRef, -, hread⟩ := bind_eq_ok_iff.1 hread
  obtain ⟨⟨p, st₂⟩, hfold, hread⟩ := bind_eq_ok_iff.1 hread
  cases hread
  exact ⟨st₁, hid, foldlM_keeps (fun x : Properties × Progress => x.2.ids)
    (fun _ _ _ => readProperty_ids) hfold⟩

/-- An opening tag gives an element with an id that has not been seen before. -/
theorem readOpening_seen {ctx : BindingContext} {seed : String} {h : Head}
    {parent : Option String} {st st' : Progress} {e : Element}
    (hread : readOpening ctx seed h parent st = .ok (e, st')) :
    e.id ∉ st.seen ∧ st'.seen = e.id :: st.seen := by
  obtain ⟨st₁, hid, hids⟩ := readOpening_ids hread
  obtain ⟨hnew, hseen⟩ := readId_seen hid
  exact ⟨hnew, (congrArg Prod.snd hids).trans hseen⟩

theorem readPart_ids (ctx : BindingContext) (id : String) (b : Braced) (st : Progress) :
    (readPart ctx id b st).2.ids = st.ids := by
  unfold readPart
  split
  · rfl
  · split
    · rfl
    · rfl
    · split <;> rfl
    · rfl

/-- A braced part says nothing about elements. -/
theorem readPart_elements (ctx : BindingContext) (id : String) (b : Braced) (st : Progress)
    (x : Inside) : ((readPart ctx id b st).1 x).elements = x.elements ∧
      ((readPart ctx id b st).1 x).childIds = x.childIds := by
  unfold readPart
  split
  · exact ⟨rfl, rfl⟩
  · split
    · exact ⟨rfl, rfl⟩
    · exact ⟨rfl, rfl⟩
    · split <;> exact ⟨rfl, rfl⟩
    · exact ⟨rfl, rfl⟩

/-! ### Trees -/

/-- The elements below an element as a grove, together with what reading them keeps: they are new,
they count as seen, and each is settled. -/
structure GroveRead (st st' : Progress) (x : Inside) (g : Grove) : Prop where
  elements : x.elements = g.preorder
  childIds : x.childIds = g.roots
  follows : g.Follows Element.children
  nodup : g.ids.Nodup
  fresh : ∀ id ∈ g.ids, id ∉ st.seen
  seen : ∀ id, id ∈ st'.seen ↔ id ∈ st.seen ∨ id ∈ g.ids
  exclusive : ∀ e ∈ g.preorder, e.Exclusive

theorem complete_exclusive (x : Inside) (e : Element) : (x.complete e).Exclusive :=
  ⟨Style.reconcile_exclusive _, Content.reconcile_exclusive _⟩

theorem readInside_grove {ctx : BindingContext} {seed : String} (id : String) (nodes : List Node)
    (st : Progress) {st' : Progress} {x : Inside}
    (h : readInside ctx seed id nodes st = .ok (x, st')) : ∃ g, GroveRead st st' x g := by
  induction id, nodes, st using readInside.induct ctx generalizing x st' with
  | case1 id st =>
    simp only [readInside, Except.ok.injEq, Prod.mk.injEq] at h
    obtain ⟨rfl, rfl⟩ := h
    exact ⟨.nil, rfl, rfl, trivial, List.nodup_nil, by simp, by simp, fun e he => by cases he⟩
  | case2 id head children nodes st ihc ihn =>
    rw [readInside] at h
    obtain ⟨⟨opening, st₁⟩, hopen, h⟩ := bind_eq_ok_iff.1 h
    obtain ⟨⟨inner, st₂⟩, hinner, h⟩ := bind_eq_ok_iff.1 h
    obtain ⟨⟨y, st₃⟩, hrest, h⟩ := bind_eq_ok_iff.1 h
    cases h
    obtain ⟨hnew, hseen₁⟩ := readOpening_seen hopen
    obtain ⟨below, hb⟩ := ihc opening st₁ hinner
    obtain ⟨beside, hs⟩ := ihn st₂ hrest
    have hadds : below.Adds (opening.id :: st.seen) st₂.seen := hseen₁ ▸ hb.seen
    have hunseen : (Grove.cons (inner.complete opening) below beside).Unseen st.seen :=
      .cons hnew (hseen₁ ▸ ⟨hb.nodup, hb.fresh⟩) hadds ⟨hs.nodup, hs.fresh⟩
    refine ⟨.cons (inner.complete opening) below beside, ?_, ?_, ?_, hunseen.nodup,
      hunseen.not_mem, hadds.cons hs.seen, ?_⟩
    · simp only [Grove.preorder, hb.elements, hs.elements]
    · simp only [Grove.roots, hs.childIds, Inside.complete]
    · exact ⟨hb.childIds, hb.follows, hs.follows⟩
    · intro e he
      simp only [Grove.preorder, List.mem_cons, List.mem_append] at he
      rcases he with rfl | he | he
      · exact complete_exclusive _ _
      · exact hb.exclusive e he
      · exact hs.exclusive e he
  | case3 id s span nodes st ih =>
    rw [readInside] at h
    obtain ⟨⟨y, st₁⟩, hrest, h⟩ := bind_eq_ok_iff.1 h
    cases h
    obtain ⟨g, hg⟩ := ih hrest
    exact ⟨g, hg.elements, hg.childIds, hg.follows, hg.nodup, hg.fresh, hg.seen, hg.exclusive⟩
  | case4 id b nodes st add st₁ hpart ih =>
    rw [readInside, hpart] at h
    obtain ⟨⟨y, st₂⟩, hrest, h⟩ := bind_eq_ok_iff.1 h
    cases h
    have hparts := readPart_elements ctx id b st y
    have hids := readPart_ids ctx id b st
    rw [hpart] at hparts hids
    have hseen : st₁.seen = st.seen := congrArg Prod.snd hids
    obtain ⟨g, hg⟩ := ih hrest
    exact ⟨g, hparts.1.trans hg.elements, hparts.2.trans hg.childIds, hg.follows, hg.nodup,
      hseen ▸ hg.fresh, hseen ▸ hg.seen, hg.exclusive⟩

/-- A tree that can be taken in gives elements that are a tree: one root, distinct ids, each element
before those below it, which are its children, and nothing literal and bound at once. -/
theorem elementsOf_grove {ctx : BindingContext} {path : String} {tree : Tree} {t : ReadTree}
    (h : elementsOf ctx path tree = .ok t) :
    ∃ root below, root.id = t.rootId ∧ t.elements = (Grove.cons root below .nil).preorder ∧
      (Grove.cons root below .nil).Follows Element.children ∧
      (Grove.cons root below .nil).ids.Nodup ∧ ∀ e ∈ t.elements, e.Exclusive := by
  unfold elementsOf at h
  obtain ⟨⟨root, st₁⟩, hroot, h⟩ := bind_eq_ok_iff.1 h
  obtain ⟨⟨inner, st₂⟩, hinner, h⟩ := bind_eq_ok_iff.1 h
  cases h
  obtain ⟨hnew, hseen₁⟩ := readOpening_seen hroot
  obtain ⟨below, hb⟩ := readInside_grove _ _ _ hinner
  have hfresh : (inner.complete root).id ∉ below.ids := fun hi => by
    have := hb.fresh _ hi
    rw [hseen₁] at this
    exact this List.mem_cons_self
  refine ⟨inner.complete root, below, rfl, ?_, ⟨hb.childIds, hb.follows, trivial⟩, ?_, ?_⟩
  · simp [Grove.preorder, hb.elements]
  · simpa using ⟨hfresh, hb.nodup⟩
  · intro e he
    rcases List.mem_cons.1 he with rfl | he
    · exact complete_exclusive _ _
    · exact hb.exclusive e (hb.elements ▸ he)

theorem read_grove {source path : String} {ctx : BindingContext} {t : ReadTree}
    (h : read source path ctx = .ok t) :
    ∃ root below, root.id = t.rootId ∧ t.elements = (Grove.cons root below .nil).preorder ∧
      (Grove.cons root below .nil).Follows Element.children ∧
      (Grove.cons root below .nil).ids.Nodup ∧ ∀ e ∈ t.elements, e.Exclusive := by
  obtain ⟨tree, -, h⟩ := bind_eq_ok_iff.1 h
  exact elementsOf_grove h

end DesignSync.Markup

import DesignSync.Proofs.Document.Lookup

/-!
Groves: trees of elements side by side, as data. A walk over the elements of a list meets those of a
grove in document order if each lists the ones below it as its children; and what a walk from a
stack of ids meets is a grove, if every id is there and is met in one way only.
-/

namespace DesignSync

/-- Trees side by side: the first one's root, what is below it, and the trees beside it. -/
inductive Grove where
  | nil
  | cons (element : Element) (below beside : Grove)

namespace Grove

/-- The elements, each before those below it. -/
def preorder : Grove → List Element
  | nil => []
  | cons e below beside => e :: (below.preorder ++ beside.preorder)

def ids (g : Grove) : List String := g.preorder.map (·.id)

/-- The ids of the roots. -/
def roots : Grove → List String
  | nil => []
  | cons e _ beside => e.id :: beside.roots

def map (f : Element → Element) : Grove → Grove
  | nil => nil
  | cons e below beside => cons (f e) (below.map f) (beside.map f)

/-- Whether each element has exactly those below it as its children. -/
def Follows (children : Element → List String) : Grove → Prop
  | nil => True
  | cons e below beside =>
    children e = below.roots ∧ below.Follows children ∧ beside.Follows children

/-- Two groves side by side. -/
def append : Grove → Grove → Grove
  | nil, g => g
  | cons e below beside, g => cons e below (beside.append g)

@[simp] theorem ids_nil : nil.ids = [] := rfl

@[simp] theorem ids_cons (e : Element) (below beside : Grove) :
    (cons e below beside).ids = e.id :: (below.ids ++ beside.ids) := by
  simp [ids, preorder]

@[simp] theorem preorder_map (f : Element → Element) (g : Grove) :
    (g.map f).preorder = g.preorder.map f := by
  induction g with
  | nil => rfl
  | cons e below beside ihb ihs => simp [map, preorder, ihb, ihs]

theorem roots_map {f : Element → Element} (hf : ∀ e, (f e).id = e.id) (g : Grove) :
    (g.map f).roots = g.roots := by
  induction g with
  | nil => rfl
  | cons e below beside _ ihs => simp [map, roots, hf, ihs]

theorem ids_map {f : Element → Element} (hf : ∀ e, (f e).id = e.id) (g : Grove) :
    (g.map f).ids = g.ids := by
  rw [ids, preorder_map, List.map_map]
  exact List.map_congr_left fun e _ => hf e

theorem Follows.map {f : Element → Element} (hf : ∀ e, (f e).id = e.id)
    {children children' : Element → List String} {g : Grove}
    (hc : ∀ e ∈ g.preorder, children' (f e) = children e) (h : g.Follows children) :
    (g.map f).Follows children' := by
  induction g with
  | nil => trivial
  | cons e below beside ihb ihs =>
    obtain ⟨hroots, hbelow, hbeside⟩ := h
    refine ⟨?_, ihb (fun x hx => hc x (by simp [preorder, hx])) hbelow,
      ihs (fun x hx => hc x (by simp [preorder, hx])) hbeside⟩
    rw [hc e (by simp [preorder]), hroots, roots_map hf]

theorem mem_ids_of_mem_roots {g : Grove} {id : String} (h : id ∈ g.roots) : id ∈ g.ids := by
  induction g with
  | nil => exact h
  | cons e below beside _ ihs =>
    simp only [roots, List.mem_cons] at h
    rcases h with rfl | h
    · simp
    · simp [ihs h]

/-- What an element has as its children is in the grove. -/
theorem Follows.mem_ids {children : Element → List String} {g : Grove} (h : g.Follows children)
    {e : Element} (he : e ∈ g.preorder) {c : String} (hc : c ∈ children e) : c ∈ g.ids := by
  induction g with
  | nil => cases he
  | cons a below beside ihb ihs =>
    obtain ⟨hroots, hbelow, hbeside⟩ := h
    simp only [preorder, List.mem_cons, List.mem_append] at he
    simp only [ids_cons, List.mem_cons, List.mem_append]
    rcases he with rfl | he | he
    · exact .inr (.inl (mem_ids_of_mem_roots (hroots ▸ hc)))
    · exact .inr (.inl (ihb hbelow he))
    · exact .inr (.inr (ihs hbeside he))

/-- Whether a look-up gives every element of the grove under its id. -/
def StoredIn (es : List Element) (g : Grove) : Prop :=
  ∀ e ∈ g.preorder, Element.find? es e.id = some e

theorem StoredIn.of_cons {es : List Element} {e : Element} {below beside : Grove}
    (h : (cons e below beside).StoredIn es) :
    Element.find? es e.id = some e ∧ below.StoredIn es ∧ beside.StoredIn es :=
  ⟨h e (by simp [preorder]), fun x hx => h x (by simp [preorder, hx]),
    fun x hx => h x (by simp [preorder, hx])⟩

/-- Distinct ids make a grove's own elements a look-up for it. -/
theorem storedIn_preorder {g : Grove} (h : g.ids.Nodup) : g.StoredIn g.preorder :=
  fun _ he => Element.find?_of_mem h he

theorem eq_nil_of_roots {g : Grove} (h : g.roots = []) : g = nil := by
  cases g with
  | nil => rfl
  | cons => cases h

theorem append_nil (g : Grove) : g.append nil = g := by
  induction g with
  | nil => rfl
  | cons e below beside _ ihs => rw [append, ihs]

theorem preorder_append (g h : Grove) : (g.append h).preorder = g.preorder ++ h.preorder := by
  induction g with
  | nil => rfl
  | cons e below beside _ ihs => simp [append, preorder, ihs]

theorem Follows.of_append {children : Element → List String} {g h : Grove}
    (hf : (g.append h).Follows children) : g.Follows children ∧ h.Follows children := by
  induction g with
  | nil => exact ⟨trivial, hf⟩
  | cons e below beside _ ihs =>
    obtain ⟨hroots, hbelow, hbeside⟩ := hf
    obtain ⟨h₁, h₂⟩ := ihs hbeside
    exact ⟨⟨hroots, hbelow, h₁⟩, h₂⟩

/-- The grove of the first roots, and the grove of the others. -/
theorem exists_append_of_roots {g : Grove} {as bs : List String} (h : g.roots = as ++ bs) :
    ∃ g₁ g₂ : Grove, g = g₁.append g₂ ∧ g₁.roots = as ∧ g₂.roots = bs := by
  induction as generalizing g with
  | nil => exact ⟨nil, g, rfl, rfl, h⟩
  | cons a as ih =>
    cases g with
    | nil => cases h
    | cons e below beside =>
      obtain ⟨rfl, hrest⟩ := List.cons.inj h
      obtain ⟨g₁, g₂, rfl, rfl, rfl⟩ := ih hrest
      exact ⟨cons e below g₁, g₂, rfl, rfl, rfl⟩

/-! ### What has been seen -/

/-- No id of the grove comes twice, and none was seen before. -/
structure Unseen (g : Grove) (seen : List String) : Prop where
  nodup : g.ids.Nodup
  not_mem : ∀ id ∈ g.ids, id ∉ seen

/-- What has been seen when the grove has been seen as well. -/
def Adds (g : Grove) (seen seen' : List String) : Prop :=
  ∀ id, id ∈ seen' ↔ id ∈ seen ∨ id ∈ g.ids

section Seen

variable {e : Element} {below beside : Grove} {seen seen₁ seen₂ : List String}

theorem adds_nil (seen : List String) : nil.Adds seen seen := fun id => by simp

theorem Adds.cons (hbelow : below.Adds (e.id :: seen) seen₁) (hbeside : beside.Adds seen₁ seen₂) :
    (cons e below beside).Adds seen seen₂ := fun id => by
  rw [hbeside, hbelow]
  simp only [ids_cons, List.mem_cons, List.mem_append]
  tauto

/-- An element that is new goes in front of what is below it, and this in front of what is beside
it. -/
theorem Unseen.of_cons (h : (cons e below beside).Unseen seen) :
    e.id ∉ seen ∧ below.Unseen (e.id :: seen) ∧
      ∀ {seen₁}, below.Adds (e.id :: seen) seen₁ → beside.Unseen seen₁ := by
  obtain ⟨hnodup, hnew⟩ := h
  simp only [ids_cons, List.nodup_cons, List.mem_append, not_or, List.nodup_append] at hnodup
  obtain ⟨⟨heb, hes⟩, hnb, hns, hdisjoint⟩ := hnodup
  simp only [ids_cons, List.mem_cons, List.mem_append] at hnew
  refine ⟨hnew e.id (.inl rfl), ⟨hnb, fun id hid => ?_⟩,
    fun hadds => ⟨hns, fun id hid => ?_⟩⟩
  · simp only [List.mem_cons, not_or]
    exact ⟨fun h => heb (h ▸ hid), hnew id (.inr (.inl hid))⟩
  · rw [hadds]
    simp only [List.mem_cons, not_or]
    exact ⟨⟨fun h => hes (h ▸ hid), hnew id (.inr (.inr hid))⟩,
      fun h => hdisjoint id h id hid rfl⟩

theorem Unseen.cons (hnew : e.id ∉ seen) (hbelow : below.Unseen (e.id :: seen))
    (hadds : below.Adds (e.id :: seen) seen₁) (hbeside : beside.Unseen seen₁) :
    (cons e below beside).Unseen seen := by
  have hb := hbelow.not_mem
  have hs := hbeside.not_mem
  simp only [hadds _, List.mem_cons, not_or] at hb hs
  constructor
  · simp only [ids_cons, List.nodup_cons, List.mem_append, not_or, List.nodup_append]
    exact ⟨⟨fun hid => (hb _ hid).1 rfl, fun hid => (hs _ hid).1.1 rfl⟩, hbelow.nodup,
      hbeside.nodup, fun i hi j hj hij => (hs j hj).2 (hij ▸ hi)⟩
  · intro id hid
    simp only [ids_cons, List.mem_cons, List.mem_append] at hid
    rcases hid with rfl | hid | hid
    · exact hnew
    · exact (hb id hid).2
    · exact (hs id hid).1.2

end Seen

end Grove

namespace Element

variable {es : List Element}

theorem walk_cons {id : String} {e : Element} (hfind : find? es id = some e) {seen : List String}
    (hnew : id ∉ seen) (stack : List String) :
    walk es seen (id :: stack) = id :: walk es (id :: seen) (e.children ++ stack) := by
  have hfalse : ¬ seen.contains id = true := by simpa using hnew
  rw [walk]
  split
  · next hnone => rw [hfind] at hnone; cases hnone
  · next e' he' =>
    rw [hfind] at he'
    cases he'
    rw [dif_neg hfalse]

theorem walk_missing {id : String} (hnone : find? es id = none) (seen stack : List String) :
    walk es seen (id :: stack) = walk es seen stack := by
  rw [walk]
  split
  · rfl
  · next e he => rw [hnone] at he; cases he

theorem walk_again {id : String} {seen : List String} (hmem : id ∈ seen) (stack : List String) :
    walk es seen (id :: stack) = walk es seen stack := by
  rw [walk]
  split
  · rfl
  · rw [dif_pos (by simpa using hmem)]

/-- A walk meets no id twice, and none that was seen before. -/
theorem nodup_walk (es : List Element) (seen stack : List String) :
    (walk es seen stack).Nodup ∧ ∀ id ∈ walk es seen stack,
      id ∉ seen ∧ (find? es id).isSome = true := by
  induction seen, stack using walk.induct es with
  | case1 seen => simp [walk]
  | case2 seen id stack hnone ih =>
    rw [walk_missing hnone]
    exact ih
  | case3 seen id stack e hfind hseen ih =>
    rw [walk_again (by simpa using hseen)]
    exact ih
  | case4 seen id stack e hfind hseen ih =>
    have hnew : id ∉ seen := by simpa using hseen
    rw [walk_cons hfind hnew]
    obtain ⟨hnodup, hmet⟩ := ih
    refine ⟨List.nodup_cons.2 ⟨fun h => (hmet id h).1 List.mem_cons_self, hnodup⟩, fun x hx => ?_⟩
    rcases List.mem_cons.1 hx with rfl | hx
    · exact ⟨hnew, by simp [hfind]⟩
    · exact ⟨fun h => (hmet x hx).1 (List.mem_cons_of_mem _ h), (hmet x hx).2⟩

/-- A walk from the roots of a grove meets its elements in order, then goes on with the rest of the
stack, having seen them. -/
theorem walk_roots {g : Grove} (hfollows : g.Follows children) (hstored : g.StoredIn es)
    (seen : List String) (hunseen : g.Unseen seen) (stack : List String) :
    ∃ seen', g.Adds seen seen' ∧
      walk es seen (g.roots ++ stack) = g.ids ++ walk es seen' stack := by
  induction g generalizing seen stack with
  | nil => exact ⟨seen, Grove.adds_nil seen, rfl⟩
  | cons e below beside ihb ihs =>
    obtain ⟨hroots, hbelow, hbeside⟩ := hfollows
    obtain ⟨hfind, hsb, hss⟩ := hstored.of_cons
    obtain ⟨hnew, hub, hus⟩ := hunseen.of_cons
    obtain ⟨seen₁, hseen₁, hwalk₁⟩ := ihb hbelow hsb (e.id :: seen) hub (beside.roots ++ stack)
    obtain ⟨seen₂, hseen₂, hwalk₂⟩ := ihs hbeside hss seen₁ (hus hseen₁) stack
    refine ⟨seen₂, hseen₁.cons hseen₂, ?_⟩
    rw [Grove.roots, List.cons_append, walk_cons hfind hnew, hroots, hwalk₁, hwalk₂]
    simp

/-- The subtree of a grove with one root is the grove. -/
theorem subtree_eq_ids {e : Element} {below : Grove}
    (hfollows : (Grove.cons e below .nil).Follows children)
    (hstored : (Grove.cons e below .nil).StoredIn es)
    (hnodup : (Grove.cons e below .nil).ids.Nodup) :
    subtree es e.id = (Grove.cons e below .nil).ids := by
  obtain ⟨seen', -, hwalk⟩ := walk_roots hfollows hstored [] ⟨hnodup, by simp⟩ []
  simpa [subtree, Grove.roots, walk] using hwalk

/-- What a walk meets is a grove, if every id on the way is there and no id comes twice: neither on
the stack nor among the children of what is met, nor was it seen before. -/
theorem exists_grove_of_walk (seen stack : List String)
    (hfound : ∀ id ∈ stack, (find? es id).isSome = true)
    (hchildren : ∀ id ∈ walk es seen stack, ∀ e, find? es id = some e →
      ∀ c ∈ e.children, (find? es c).isSome = true)
    (hnodup : (stack ++ (walk es seen stack).flatMap fun id =>
      ((find? es id).map children).getD []).Nodup)
    (hnew : ∀ id ∈ stack ++ (walk es seen stack).flatMap fun id =>
      ((find? es id).map children).getD [], id ∉ seen) :
    ∃ g : Grove, g.roots = stack ∧ g.Follows children ∧ g.StoredIn es ∧
      g.ids = walk es seen stack := by
  induction seen, stack using walk.induct es with
  | case1 seen => exact ⟨.nil, rfl, trivial, fun e he => (by cases he), by simp [walk]⟩
  | case2 seen id stack hnone =>
    have := hfound id (by simp)
    simp [hnone] at this
  | case3 seen id stack e hfind hseen =>
    exact absurd (by simpa using hseen) (hnew id (by simp))
  | case4 seen id stack e hfind hseen ih =>
    have hid : id ∉ seen := by simpa using hseen
    rw [walk_cons hfind hid] at hchildren hnodup hnew ⊢
    simp only [List.flatMap_cons, hfind, Option.map_some, Option.getD_some, List.cons_append,
      List.mem_cons, List.nodup_cons] at hchildren hnodup hnew
    have hperm : ∀ rest : List String,
        (stack ++ (e.children ++ rest)).Perm (e.children ++ stack ++ rest) := fun rest => by
      rw [← List.append_assoc]
      exact List.perm_append_comm.append_right rest
    obtain ⟨hout, hrest⟩ := hnodup
    have hchild := hchildren id (.inl rfl) e hfind
    obtain ⟨g, hroots, hfollows, hstored, hids⟩ := ih
      (fun c hc => (List.mem_append.1 hc).elim (hchild c) fun h => hfound c (by simp [h]))
      (fun c hc => hchildren c (.inr hc))
      ((hperm _).nodup_iff.1 hrest)
      (fun c hc => by
        have hmem := (hperm _).mem_iff.2 hc
        simp only [List.mem_cons, not_or]
        exact ⟨fun h => hout (h ▸ hmem), hnew c (.inr hmem)⟩)
    obtain ⟨below, beside, rfl, hbelow, rfl⟩ := Grove.exists_append_of_roots hroots
    have hid' := id_of_find? hfind
    obtain ⟨hfb, hfs⟩ := hfollows.of_append
    refine ⟨.cons e below beside, by simp [Grove.roots, hid'], ⟨hbelow.symm, hfb, hfs⟩, ?_, ?_⟩
    · intro x hx
      rcases List.mem_cons.1 hx with rfl | hx
      · rw [hid', hfind]
      · exact hstored x (by rwa [Grove.preorder_append])
    · rw [Grove.ids_cons, hid', ← hids, Grove.ids, Grove.ids, Grove.ids, Grove.preorder_append,
        List.map_append]

end Element

end DesignSync

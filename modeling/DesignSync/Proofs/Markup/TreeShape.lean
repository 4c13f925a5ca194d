import DesignSync.Proofs.Markup.WriteBack

/-!
The shape of what is read. Whatever the source, its elements are one tree, listed in document order,
with an id for each by which it is found; and nothing in them is literal and bound at once, leads to
an unknown target, or has a name that means something else.
-/

namespace DesignSync

namespace Grove

/-- The roots of a grove and the children of its elements are its elements, each once. -/
theorem Follows.perm {children : Element → List String} {g : Grove} (h : g.Follows children) :
    (g.roots ++ g.preorder.flatMap children).Perm g.ids := by
  induction g with
  | nil => exact .refl _
  | cons e below beside ihb ihs =>
    obtain ⟨hroots, hbelow, hbeside⟩ := h
    simp only [roots, preorder, List.flatMap_cons, List.flatMap_append, ids_cons, hroots,
      List.cons_append]
    refine .cons e.id ?_
    calc beside.roots ++ (below.roots ++ (below.preorder.flatMap children ++
          beside.preorder.flatMap children))
        = beside.roots ++ ((below.roots ++ below.preorder.flatMap children) ++
          beside.preorder.flatMap children) := by rw [List.append_assoc]
      List.Perm _ ((below.roots ++ below.preorder.flatMap children) ++
          (beside.roots ++ beside.preorder.flatMap children)) := List.perm_append_comm_assoc _ _ _
      List.Perm _ (below.ids ++ beside.ids) := (ihb hbelow).append (ihs hbeside)

/-- Below a single root each element is a child once, and the root is none. -/
theorem Follows.count_children {children : Element → List String} {g : Grove} {root : String}
    (h : g.Follows children) (hnodup : g.ids.Nodup) (hroots : g.roots = [root]) (id : String) :
    (g.preorder.flatMap children).count id = if id ∈ g.ids ∧ id ≠ root then 1 else 0 := by
  have hperm : (root :: g.preorder.flatMap children).Perm g.ids := by
    have hperm := h.perm
    rwa [hroots, List.singleton_append] at hperm
  have hcount := hperm.count_eq id
  rw [List.count_cons, hnodup.count] at hcount
  by_cases hid : id = root
  · subst hid
    have hmem : id ∈ g.ids := hperm.subset List.mem_cons_self
    simpa [hmem] using hcount
  · have hne : (root == id) = false := beq_eq_false_iff_ne.2 (Ne.symm hid)
    simpa [hne, hid] using hcount

end Grove

namespace Markup

/-- One tree of elements, in document order, over what its bindings can refer to. -/
structure ReadTree.IsTree (ctx : BindingContext) (t : ReadTree) : Prop where
  nodup_ids : t.ids.Nodup
  root : t.ids.head? = some t.rootId
  /-- Each element but the root is a child once, and nothing else is a child. -/
  placed : ∀ id, (t.elements.flatMap Element.children).count id
    = if id ∈ t.ids ∧ id ≠ t.rootId then 1 else 0
  ordered : ∃ g : Grove, g.roots = [t.rootId] ∧ g.Follows Element.children ∧
    g.preorder = t.elements
  walked : Element.subtree t.elements t.rootId = t.ids
  found : ∀ e ∈ t.elements, t.element? e.id = some e
  exclusive : ∀ e ∈ t.elements, e.Exclusive
  bound : ∀ e ∈ t.elements, ∀ slot b, Store.binding? e.properties slot = some b →
    ∃ target ∈ ctx.targets, target.kind = b.kind ∧ target.id = b.refId
  named : ∀ e ∈ t.elements, ∀ name,
    e.properties.attributes.contains name = true ∨ e.properties.events.contains name = true →
      isMetadata name = false ∧ name ≠ styleAttribute ∧ ¬stateMark.toList <+: name.toList

/-- Distinct ids lead to their elements. -/
theorem ReadTree.element?_of_mem {t : ReadTree} (hids : t.ids.Nodup) {e : Element}
    (he : e ∈ t.elements) : t.element? e.id = some e := by
  obtain ⟨i, hi, rfl⟩ := List.getElem_of_mem he
  have hkeys : ((t.elements.zipIdx.map fun x => (x.1.id, x.2)).map Prod.fst).Nodup := by
    have heq : (t.elements.zipIdx.map fun x => (x.1.id, x.2)).map Prod.fst = t.ids := by
      calc (t.elements.zipIdx.map fun x => (x.1.id, x.2)).map Prod.fst
          = (t.elements.zipIdx.map Prod.fst).map (·.id) := by rw [List.map_map, List.map_map]; rfl
        _ = t.ids := by rw [List.zipIdx_map_fst]; rfl
    rw [heq]
    exact hids
  have hplace : t.index.get? t.elements[i].id = some i :=
    Dict.get?_ofList_of_mem hkeys
      (List.mem_map.2 ⟨(t.elements[i], i), List.mem_zipIdx_iff_getElem?.2 (by simp [hi]), rfl⟩)
  rw [ReadTree.element?, hplace]
  exact List.getElem?_eq_getElem hi

private theorem known_of_isFound {ctx : BindingContext} {fallback : BindingTarget → Option String}
    {b : Binding} (h : IsFound ctx fallback b) :
    ∃ target ∈ ctx.targets, target.kind = b.kind ∧ target.id = b.refId := by
  obtain ⟨target, hname, rfl⟩ := h
  exact ⟨target, List.mem_of_find?_eq_some hname, rfl, rfl⟩

private theorem of_isReserved_eq_false {name : String} (h : isReserved name = false) :
    isMetadata name = false ∧ name ≠ styleAttribute ∧ ¬stateMark.toList <+: name.toList := by
  simp only [isReserved, Bool.or_eq_false_iff, beq_eq_false_iff_ne] at h
  obtain ⟨⟨hmetadata, hstyle⟩, hflag⟩ := h
  refine ⟨hmetadata, hstyle, fun hmark => ?_⟩
  simp [stateFlag?, hmark] at hflag

/-- Whatever is read is such a tree. -/
theorem read_isTree {source path : String} {ctx : BindingContext} {t : ReadTree}
    (h : read source path ctx = .ok t) : t.IsTree ctx := by
  obtain ⟨root, below, hroot, helements, hfollows, hnodup, hexclusive⟩ := read_grove h
  have hread := isRead_of_read h
  have hids : t.ids = (Grove.cons root below .nil).ids := by
    rw [ReadTree.ids, helements]
    rfl
  have hroots : (Grove.cons root below .nil).roots = [t.rootId] := by
    rw [← hroot]
    rfl
  have hdistinct : t.ids.Nodup := hids ▸ hnodup
  refine ⟨hdistinct, ?_, fun id => ?_, ⟨_, hroots, hfollows, helements.symm⟩, ?_,
    fun e he => ReadTree.element?_of_mem hdistinct he, hexclusive, fun e he slot b hb => ?_,
    fun e he name hname => ?_⟩
  · rw [hids, Grove.ids_cons, ← hroot]
    rfl
  · rw [helements, hids]
    exact hfollows.count_children hnodup hroots id
  · rw [hids, ← hroot, helements]
    exact Element.subtree_eq_ids hfollows (Grove.storedIn_preorder hnodup) hnodup
  · cases slot with
    | style key => exact known_of_isFound ((hread e he).properties.style key b hb)
    | content => exact known_of_isFound ((hread e he).content.binding b hb)
  · rcases hname with hattribute | hevent
    · exact of_isReserved_eq_false ((hread e he).properties.attributes name hattribute).2
    · obtain ⟨handler, hhandler⟩ := Option.isSome_iff_exists.1 hevent
      exact of_isReserved_eq_false ((hread e he).properties.events name handler hhandler).2.1

theorem read_isTree_cardTree :
    ∃ t, read (write cardContext cardTree "card").text "a.jsx" cardContext = .ok t ∧
      t.ids = ["card", "icon"] ∧ t.IsTree cardContext :=
  ⟨_, read_cardTree "a.jsx", rfl, read_isTree (read_cardTree "a.jsx")⟩

end Markup

end DesignSync

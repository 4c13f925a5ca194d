import DesignSync.Buffer.Memory
import DesignSync.Proofs.Document.Traces
import DesignSync.Proofs.Markup.ElementTree
import DesignSync.Proofs.Markup.RoundTrip
import DesignSync.Proofs.Markup.Traced
import DesignSync.Sync.Coordinator

/-!
Pulling a source: all of it or nothing. A source that cannot be read leaves document and target
alone; one that can takes the place of the target's tree, and what lies outside both trees only
loses the children that are gone.
-/

namespace DesignSync

open Markup

/-- An element without some of its children. -/
def Element.without (ids : List String) (e : Element) : Element :=
  { e with
    properties := { e.properties with children := e.children.filter fun c => !ids.contains c } }

namespace Element

theorem without_nil (e : Element) : e.without [] = e := by
  simp [without, children]

theorem without_withoutChild (id : String) (ids : List String) (e : Element) :
    (Store.withoutChild id e).without ids = e.without (id :: ids) := by
  simp only [without, Store.withoutChild, children, List.filter_filter]
  congr 2
  refine List.filter_congr fun c _ => ?_
  cases h : c == id <;> simp_all [bne]

/-- Children that an element does not have are no loss to it. -/
theorem without_eq_self {ids : List String} {e : Element} (h : ∀ c ∈ e.children, c ∉ ids) :
    e.without ids = e := by
  have hkeep : (e.children.filter fun c => !ids.contains c) = e.children :=
    List.filter_eq_self.2 fun c hc => by simpa using h c hc
  simp only [without, hkeep]
  rfl

end Element

namespace Coordinator

/-! ### Putting elements in place -/

/-- Whether a store has elements that equal some others under their ids. -/
def Holds (s : Store) (es : List Element) : Prop :=
  ∀ e ∈ es, ∃ e', s.element? e.id = some e' ∧ (e' == e) = true

/-- What putting elements in place keeps and does. The store keeps an element that equals the new
one. -/
structure Replaced (es : List Element) (s s' : Store) : Prop where
  sound : s'.Sound
  held : Holds s' es
  frame : ∀ id, id ∉ es.map (·.id) → s'.element? id = s.element? id
  components : s'.components = s.components
  overrides : s'.overrides = s.overrides

theorem replaced_replaceElement {s : Store} (h : s.Sound) {e : Element} (he : e.Exclusive) :
    Replaced [e] s (s.replaceElement e).1 := by
  have hsound := h.replaceElement e
  unfold Store.replaceElement at hsound ⊢
  rw [he.reconcile_eq] at hsound ⊢
  dsimp only at hsound ⊢
  split at hsound
  · next hsame =>
    rw [if_pos hsame]
    refine ⟨h, fun e' he' => ?_, fun _ _ => rfl, rfl, rfl⟩
    obtain rfl := List.mem_singleton.1 he'
    cases hold : s.element? e'.id with
    | none => simp [hold] at hsame
    | some old => exact ⟨old, rfl, by simpa [hold] using hsame⟩
  · next hnew =>
    rw [if_neg hnew]
    refine ⟨hsound, fun e' he' => ?_, fun id hid => ?_, ?_, ?_⟩
    · obtain rfl := List.mem_singleton.1 he'
      exact ⟨e', by simp [Store.element?_commit], BEq.rfl⟩
    · rw [Store.element?_commit, if_neg (by simpa using hid)]
    · unfold Store.commit
      split <;> rfl
    · unfold Store.commit
      split <;> rfl

theorem replaceAll_eq (s : Store) (es : List Element) :
    (replaceAll s es).1 = es.foldl (fun s e => (s.replaceElement e).1) s :=
  Store.foldl_counted Store.replaceElement es s 0

theorem replaced_replaceAll {s : Store} (h : s.Sound) {es : List Element}
    (hes : ∀ e ∈ es, e.Exclusive) (hnodup : (es.map (·.id)).Nodup) :
    Replaced es s (replaceAll s es).1 := by
  rw [replaceAll_eq]
  induction es generalizing s with
  | nil => exact ⟨h, fun _ he => (by cases he), fun _ _ => rfl, rfl, rfl⟩
  | cons e es ih =>
    obtain ⟨hnew, hnodup⟩ := List.nodup_cons.1 hnodup
    have hstep := replaced_replaceElement h (hes e List.mem_cons_self)
    have hrest := ih hstep.sound (fun x hx => hes x (List.mem_cons_of_mem _ hx)) hnodup
    refine ⟨hrest.sound, fun x hx => ?_, fun id hid => ?_, hrest.components.trans hstep.components,
      hrest.overrides.trans hstep.overrides⟩
    · rcases List.mem_cons.1 hx with rfl | hx
      · obtain ⟨x', hx', heq⟩ := hstep.held x List.mem_cons_self
        exact ⟨x', (hrest.frame _ hnew).trans hx', heq⟩
      · exact hrest.held x hx
    · simp only [List.map_cons, List.mem_cons, not_or] at hid
      exact (hrest.frame id hid.2).trans (hstep.frame id (by simpa using hid.1))

/-! ### Removing elements -/

/-- What removing elements does: they are gone with their overrides, and the others lose them as
children. -/
structure Removed (ids : List String) (s s' : Store) : Prop where
  sound : s'.Sound
  element? : ∀ id, s'.element? id =
    if id ∈ ids then none else (s.element? id).map (Element.without ids)
  components : s'.components = s.components
  overrides? : ∀ id, s'.instanceOverrides? id =
    if id ∈ ids then none else s.instanceOverrides? id

theorem removed_removeElement {s : Store} (h : s.Sound) {id : String}
    (hid : (s.element? id).isSome = true) : Removed [id] s (s.removeElement id).1 := by
  obtain ⟨old, hold⟩ := Option.isSome_iff_exists.1 hid
  refine ⟨h.removeElement id, fun x => ?_, ?_, fun x => ?_⟩
  · have hfun : Store.withoutChild id = Element.without [id] := funext fun e => by
      rw [← Element.without_withoutChild, Element.without_nil]
    simp only [Store.element?_removeElement hold, List.mem_singleton, hfun]
  · simp [Store.removeElement, hold]
  · simp only [Store.removeElement, hold, Store.instanceOverrides?, Dict.get?_erase,
      List.mem_singleton]

theorem removeAll_eq (s : Store) (ids : List String) :
    (removeAll s ids).1 = ids.foldl (fun s id => (s.removeElement id).1) s :=
  Store.foldl_counted Store.removeElement ids s 0

theorem removed_removeAll {s : Store} (h : s.Sound) {ids : List String} (hnodup : ids.Nodup)
    (hids : ∀ id ∈ ids, (s.element? id).isSome = true) : Removed ids s (removeAll s ids).1 := by
  rw [removeAll_eq]
  induction ids generalizing s with
  | nil =>
    refine ⟨h, fun id => ?_, rfl, fun _ => by simp⟩
    have hid : (Element.without []) = fun e => e := funext Element.without_nil
    simp [hid]
  | cons a ids ih =>
    obtain ⟨ha, hnodup⟩ := List.nodup_cons.1 hnodup
    have hstep := removed_removeElement h (hids a List.mem_cons_self)
    have hthere : ∀ id ∈ ids, ((s.removeElement a).1.element? id).isSome = true := by
      intro id hid
      have hne : id ≠ a := fun heq => ha (heq ▸ hid)
      simpa [hstep.element?, hne] using hids id (List.mem_cons_of_mem _ hid)
    have hrest := ih hstep.sound hnodup hthere
    refine ⟨hrest.sound, fun id => (hrest.element? id).trans ?_,
      hrest.components.trans hstep.components, fun id => (hrest.overrides? id).trans ?_⟩
    · rw [hstep.element?]
      by_cases hid : id = a
      · simp [hid]
      · have hcompose : ∀ e : Element, (e.without [a]).without ids = e.without (a :: ids) := by
          intro e
          rw [← Element.without_withoutChild, ← Element.without_withoutChild, Element.without_nil]
        by_cases hmem : id ∈ ids <;> simp [hid, hmem, Function.comp_def, hcompose]
    · rw [hstep.overrides?]
      by_cases hid : id = a <;> simp [hid]

/-! ### Taking a tree in -/

/-- The ids under a root that a tree does not have. -/
def goneIds (s : Store) (root : String) (tree : ReadTree) : List String :=
  (s.subtree root).filter fun id => !tree.ids.contains id

theorem mem_goneIds {s : Store} {root : String} {tree : ReadTree} {id : String} :
    id ∈ goneIds s root tree ↔ id ∈ s.subtree root ∧ id ∉ tree.ids := by
  simp [goneIds]

/-- What taking a tree in leaves behind, in a store that had another tree under a root. -/
structure TakenIn (tree : ReadTree) (root : String) (s s' : Store) : Prop where
  sound : s'.Sound
  held : ∀ e ∈ tree.elements,
    ∃ e', s'.element? e.id = some e' ∧ (e'.untraced == e.untraced) = true
  gone : ∀ id ∈ s.subtree root, id ∉ tree.ids →
    s'.element? id = none ∧ s'.instanceOverrides? id = none
  others : ∀ id, id ∉ s.subtree root → id ∉ tree.ids →
    s'.element? id = (s.element? id).map (Element.without (goneIds s root tree))
  components : s'.components = s.components
  overrides : ∀ id, (id ∈ s.subtree root → id ∈ tree.ids) →
    s'.instanceOverrides? id = s.instanceOverrides? id
  subtree : s'.subtree tree.rootId = tree.ids

/-- A store that holds the elements of a grove up to their traces has its ids under its root. -/
theorem subtree_of_held {s : Store} (h : s.Sound) {root : Element} {below : Grove}
    (hfollows : (Grove.cons root below .nil).Follows Element.children)
    (hnodup : (Grove.cons root below .nil).ids.Nodup)
    (hheld : ∀ e ∈ (Grove.cons root below .nil).preorder,
      ∃ e', s.element? e.id = some e' ∧ e'.children = e.children) :
    s.subtree root.id = (Grove.cons root below .nil).ids := by
  let stored (e : Element) : Element := (s.element? e.id).getD e
  have hid (e : Element) : (stored e).id = e.id := by
    simp only [stored]
    cases hfind : s.element? e.id with
    | none => rfl
    | some e' => exact h.named _ _ hfind
  have hstored : (Grove.map stored (.cons root below .nil)).StoredIn s.elements := by
    intro x hx
    rw [Grove.preorder_map] at hx
    obtain ⟨e, he, rfl⟩ := List.mem_map.1 hx
    obtain ⟨e', hfind, -⟩ := hheld e he
    rw [h.find?_elements, hid, hfind]
    simp [stored, hfind]
  have hfollows' : (Grove.map stored (.cons root below .nil)).Follows Element.children := by
    refine hfollows.map hid fun e he => ?_
    obtain ⟨e', hfind, hchildren⟩ := hheld e he
    simp [stored, hfind, hchildren]
  have hids := Grove.ids_map hid (.cons root below .nil)
  have hsubtree := Element.subtree_eq_ids hfollows' hstored (hids ▸ hnodup)
  rw [hid] at hsubtree
  exact hsubtree.trans hids

/-- Removing what a tree does not have keeps what it has. -/
theorem held_of_removed {tree : ReadTree} {gone : List String} {s s₁ s₂ : Store}
    (hreplaced : Replaced tree.elements s s₁) (hremoved : Removed gone s₁ s₂)
    (hgone : ∀ id ∈ gone, id ∉ tree.ids)
    (hchildren : ∀ e ∈ tree.elements, ∀ c ∈ e.children, c ∈ tree.ids) :
    Holds s₂ tree.elements := by
  intro e he
  obtain ⟨e', hfind, heq⟩ := hreplaced.held e he
  have hmem : e.id ∈ tree.ids := List.mem_map_of_mem he
  have hsame : e'.children = e.children := Element.children_of_beq heq
  refine ⟨e', ?_, heq⟩
  rw [hremoved.element?, if_neg fun hid => hgone _ hid hmem, hfind, Option.map_some,
    Element.without_eq_self]
  intro x hx hid
  exact hgone x hid (hchildren e he x (hsame ▸ hx))

/-- Where a store holds a tree, only its elements are traced when it is written. -/
theorem mem_ids_of_traced {tree : ReadTree} {s : Store} (h : s.Sound)
    (hroot : tree.rootId ∈ tree.ids)
    (hchildren : ∀ e ∈ tree.elements, ∀ c ∈ e.children, c ∈ tree.ids)
    (hheld : Holds s tree.elements)
    (ctx : BindingContext) (moduleName : String) :
    ∀ id ∈ (writeModule ctx s.elements tree.rootId moduleName).traced.map (·.element),
      id ∈ tree.ids := by
  have hclosed : ∀ id ∈ tree.ids, ∀ e, Element.find? s.elements id = some e →
      ∀ c ∈ e.children, c ∈ tree.ids := by
    intro id hid e' hfind x hx
    rw [h.find?_elements] at hfind
    obtain ⟨e, he, rfl⟩ := List.mem_map.1 hid
    obtain ⟨e'', hfind'', heq⟩ := hheld e he
    obtain rfl : e'' = e' := Option.some.inj (hfind''.symm.trans hfind)
    rw [Element.children_of_beq heq] at hx
    exact hchildren e he x hx
  intro id hid
  obtain ⟨t, ht, rfl⟩ := List.mem_map.1 hid
  rw [traced_writeModule] at ht
  refine traced_writeTasks hclosed [] _ (fun x d hx => ?_) t ht
  obtain ⟨rfl, rfl⟩ := Task.element.inj (List.mem_singleton.1 hx)
  exact hroot

/-- A tree in its place: its elements are in the store, and what it does not have of the tree before
it is gone. -/
def placeTree (s : Store) (root : String) (tree : ReadTree) : Store :=
  (removeAll (replaceAll s tree.elements).1 (goneIds s root tree)).1

/-- What putting a tree in its place does. -/
structure Placed (tree : ReadTree) (root : String) (s s' : Store) : Prop where
  sound : s'.Sound
  held : Holds s' tree.elements
  others : ∀ id, id ∉ tree.ids → s'.element? id =
    if id ∈ goneIds s root tree then none
    else (s.element? id).map (Element.without (goneIds s root tree))
  components : s'.components = s.components
  overrides? : ∀ id, s'.instanceOverrides? id =
    if id ∈ goneIds s root tree then none else s.instanceOverrides? id

/-- The ids of a tree that was read are its own, and those of its children are among them. -/
theorem ids_of_read {source path : String} {ctx : BindingContext} {tree : ReadTree}
    (hread : read source path ctx = .ok tree) :
    tree.rootId ∈ tree.ids ∧ tree.ids.Nodup ∧ ∀ e ∈ tree.elements, ∀ c ∈ e.children, c ∈ tree.ids := by
  obtain ⟨root, below, hroot, helements, hfollows, hnodup, -⟩ := read_grove hread
  have hids : tree.ids = (Grove.cons root below .nil).ids := congrArg (List.map _) helements
  refine ⟨?_, hids ▸ hnodup, ?_⟩
  · rw [hids, Grove.ids_cons, hroot]
    exact List.mem_cons_self
  · intro e he c hc
    exact hids ▸ hfollows.mem_ids (helements ▸ he) hc

theorem exclusive_of_read {source path : String} {ctx : BindingContext} {tree : ReadTree}
    (hread : read source path ctx = .ok tree) : ∀ e ∈ tree.elements, e.Exclusive := by
  obtain ⟨root, below, -, -, -, -, hexclusive⟩ := read_grove hread
  exact hexclusive

theorem placed_placeTree {s : Store} (h : s.Sound) (root : String) {source path : String}
    {ctx : BindingContext} {tree : ReadTree} (hread : read source path ctx = .ok tree) :
    Placed tree root s (placeTree s root tree) := by
  obtain ⟨-, hdistinct, hchildren⟩ := ids_of_read hread
  let s₁ := (replaceAll s tree.elements).1
  have hreplaced : Replaced tree.elements s s₁ :=
    replaced_replaceAll h (exclusive_of_read hread) hdistinct
  have hthere : ∀ id ∈ goneIds s root tree, (s₁.element? id).isSome = true := by
    intro id hid
    obtain ⟨hold, hnew⟩ := mem_goneIds.1 hid
    rw [hreplaced.frame id hnew, ← h.find?_elements]
    exact ((Element.nodup_walk _ _ _).2 id hold).2
  have hremoved : Removed (goneIds s root tree) s₁ (placeTree s root tree) :=
    removed_removeAll hreplaced.sound ((Element.nodup_walk _ _ _).1.filter _) hthere
  refine ⟨hremoved.sound, ?_, ?_, hremoved.components.trans hreplaced.components, ?_⟩
  · exact held_of_removed hreplaced hremoved (fun _ hid => (mem_goneIds.1 hid).2) hchildren
  · intro id hid
    rw [hremoved.element?, hreplaced.frame id hid]
  · intro id
    have hsame : s₁.instanceOverrides? id = s.instanceOverrides? id := by
      rw [Store.instanceOverrides?, Store.instanceOverrides?, hreplaced.overrides]
    rw [hremoved.overrides?, hsame]

variable {β : Type} [Buffer β]

/-- A tree is taken in before the props module is written. -/
theorem applyTree_eq (c : Coordinator β) (s : Store) (tree : ReadTree) :
    ∃ (c' : Coordinator β) (s' : Store) (updated removed : Nat),
      c.applyTree s tree = (c'.refreshProps s', s', .applied updated removed) ∧
        c'.buffer = c.buffer ∧ c'.config = c.config ∧
          c'.target = { c.target with root := tree.rootId } :=
  ⟨_, _, _, _, rfl, rfl, rfl, rfl⟩

/-- A tree is taken in by putting it in its place and recording the traces of its module. -/
theorem applyTree_store (c : Coordinator β) (s : Store) (tree : ReadTree) :
    (c.applyTree s tree).2.1 =
      ((placeTree s c.target.root tree).recordPaths
        (writeModule (c.target.bindingContext (placeTree s c.target.root tree))
          (placeTree s c.target.root tree).elements tree.rootId c.target.moduleName).traced).1 := rfl

theorem applyTree_takenIn (c : Coordinator β) {s : Store} (h : s.Sound) {source path : String}
    {ctx : BindingContext} {tree : ReadTree} (hread : read source path ctx = .ok tree) :
    TakenIn tree c.target.root s (c.applyTree s tree).2.1 := by
  obtain ⟨root, below, hroot, helements, hfollows, hnodup, -⟩ := read_grove hread
  have hids : tree.ids = (Grove.cons root below .nil).ids := congrArg (List.map _) helements
  obtain ⟨hroot_mem, -, hchildren⟩ := ids_of_read hread
  have hplaced := placed_placeTree h c.target.root hread
  rw [applyTree_store]
  generalize placeTree s c.target.root tree = s₂ at hplaced ⊢
  have hnamed := mem_ids_of_traced hplaced.sound hroot_mem hchildren hplaced.held
    (c.target.bindingContext s₂) c.target.moduleName
  generalize (writeModule (c.target.bindingContext s₂) s₂.elements tree.rootId
    c.target.moduleName).traced = traced at hnamed ⊢
  have hretraced := s₂.retraced_recordPaths traced
  have hsound : (s₂.recordPaths traced).1.Sound := hplaced.sound.recordPaths traced
  generalize (s₂.recordPaths traced).1 = s₃ at hretraced hsound ⊢
  have hheld : ∀ e ∈ tree.elements, ∃ e', s₃.element? e.id = some e' ∧
      (e'.untraced == e.untraced) = true := by
    intro e he
    obtain ⟨e₂, hfind, heq⟩ := hplaced.held e he
    have huntraced := hretraced.untraced e.id
    rw [hfind, Option.map_some] at huntraced
    obtain ⟨e', hfind', hsame⟩ := Option.map_eq_some_iff.1 huntraced
    exact ⟨e', hfind', hsame ▸ Element.untraced_beq heq⟩
  have hframe : ∀ id, id ∉ tree.ids → s₃.element? id =
      if id ∈ goneIds s c.target.root tree then none
      else (s.element? id).map (Element.without (goneIds s c.target.root tree)) := by
    intro id hid
    rw [hretraced.unnamed id fun h => hid (hnamed id h), hplaced.others id hid]
  have hoverrides : ∀ id, s₃.instanceOverrides? id =
      if id ∈ goneIds s c.target.root tree then none else s.instanceOverrides? id := by
    intro id
    rw [← hplaced.overrides?, Store.instanceOverrides?, hretraced.overrides]
    rfl
  refine ⟨hsound, hheld, fun id hold hnew => ?_, fun id hold hnew => ?_, ?_, fun id hid => ?_, ?_⟩
  · have hgone := mem_goneIds.2 ⟨hold, hnew⟩
    rw [hframe id hnew, hoverrides, if_pos hgone, if_pos hgone]
    exact ⟨rfl, rfl⟩
  · rw [hframe id hnew, if_neg fun hgone => hold (mem_goneIds.1 hgone).1]
  · exact hretraced.components.trans hplaced.components
  · rw [hoverrides, if_neg fun hgone => (mem_goneIds.1 hgone).2 (hid (mem_goneIds.1 hgone).1)]
  · rw [hids, ← hroot]
    refine subtree_of_held hsound hfollows hnodup fun e he => ?_
    obtain ⟨e', hfind, heq⟩ := hheld e (helements ▸ he)
    exact ⟨e', hfind, Element.children_of_beq (e := e'.untraced) (f := e.untraced) heq⟩

theorem sound_applySource (c : Coordinator β) {s : Store} (h : s.Sound) (source : String) :
    (c.applySource s source).2.1.Sound := by
  cases hread : read source c.config.sourcePath (c.target.bindingContext s) with
  | error e =>
    simp only [applySource, hread]
    exact h
  | ok tree =>
    simp only [applySource, hread]
    exact (applyTree_takenIn c h hread).sound

theorem sound_pull (c : Coordinator β) {s : Store} (h : s.Sound) : (c.pull s).2.1.Sound := by
  unfold pull
  split
  · exact h
  · exact h
  · split
    · exact h
    · exact h
    · exact sound_applySource _ h _

/-- Taking a source in is all or nothing: when it cannot be read, the document and the root of the
target stay as they are; when it can, the tree that was read is what the document has under its
root, in document order, and is the target's tree from then on. -/
theorem applySource_all_or_nothing (c : Coordinator β) {s : Store} (h : s.Sound)
    (source : String) :
    (∀ e, read source c.config.sourcePath (c.target.bindingContext s) = .error e →
      (c.applySource s source).2.2 = .rejected e ∧ (c.applySource s source).2.1 = s ∧
        (c.applySource s source).1.target.root = c.target.root) ∧
    (∀ tree, read source c.config.sourcePath (c.target.bindingContext s) = .ok tree →
      (∃ updated removed, (c.applySource s source).2.2 = .applied updated removed) ∧
        (c.applySource s source).1.target.root = tree.rootId ∧
        TakenIn tree c.target.root s (c.applySource s source).2.1) := by
  constructor
  · intro e hread
    simp only [applySource, hread]
    exact ⟨trivial, trivial, rfl⟩
  · intro tree hread
    simp only [applySource, hread]
    refine ⟨⟨_, _, rfl⟩, ?_, applyTree_takenIn c h hread⟩
    simp only [applyTree, refreshProps]
    split
    · rfl
    · split <;> rfl

/-- A page with a card, and with a section that has the icon. Another page has the section and the
icon as well. -/
def pageDocument : Store :=
  [⟨"page", "main", .element, none, ⟨.screen, "home"⟩,
      { Properties.empty with children := ["card", "old"] }, none⟩,
    ⟨"card", "div", .element, none, ⟨.element, "page"⟩, Properties.empty, none⟩,
    ⟨"old", "section", .element, none, ⟨.element, "page"⟩,
      { Properties.empty with children := ["icon"] }, none⟩,
    ⟨"icon", "img", .element, none, ⟨.element, "old"⟩, Properties.empty, none⟩,
    ⟨"list", "ul", .element, none, ⟨.screen, "about"⟩,
      { Properties.empty with children := ["old", "icon"] }, none⟩].foldl
    (fun s e => (s.addElement e).1) Store.empty

private theorem sound_pageDocument : pageDocument.Sound :=
  List.foldlRecOn _ _ Store.empty_sound fun _ h e _ => h.addElement e

private theorem subtree_pageDocument :
    pageDocument.subtree "page" = ["page", "card", "old", "icon"] := by
  unfold Store.subtree Element.subtree
  rw [Element.walk_cons rfl (by decide)]
  change "page" :: Element.walk _ ["page"] ["card", "old"] = _
  rw [Element.walk_cons rfl (by decide)]
  change "page" :: "card" :: Element.walk _ ["card", "page"] ["old"] = _
  rw [Element.walk_cons rfl (by decide)]
  change "page" :: "card" :: "old" :: Element.walk _ _ ["icon"] = _
  rw [Element.walk_cons rfl (by decide)]
  change "page" :: "card" :: "old" :: "icon" :: Element.walk _ _ [] = _
  rw [Element.walk]

/-- The card becomes the root, the icon moves into it, page and section go, and so does the section
from the other page. A source without an owner is refused. -/
theorem applySource_page :
    let c : Coordinator MemoryBuffer :=
      start MemoryBuffer.fresh .default ⟨"page", "Home", .none, cardContext.targets⟩
    let source := (write cardContext cardTree "card").text
    let tree : ReadTree := ⟨"card", cardTree.map (conveyed cardContext), []⟩
    pageDocument.subtree "page" = ["page", "card", "old", "icon"] ∧ tree.ids = ["card", "icon"] ∧
      read source "App.jsx" (c.target.bindingContext pageDocument) = .ok tree ∧
      (∃ updated removed,
        (c.applySource pageDocument source).2.2 = .applied updated removed) ∧
      (c.applySource pageDocument source).1.target.root = "card" ∧
      TakenIn tree "page" pageDocument (c.applySource pageDocument source).2.1 ∧
      ∃ e, read "<section/>" "App.jsx" (c.target.bindingContext pageDocument) = .error e ∧
        (c.applySource pageDocument "<section/>").2.2 = .rejected e ∧
        (c.applySource pageDocument "<section/>").2.1 = pageDocument ∧
        (c.applySource pageDocument "<section/>").1.target.root = "page" := by
  intro c source tree
  have hread : read source "App.jsx" (c.target.bindingContext pageDocument) = .ok tree :=
    read_cardTree "App.jsx"
  have hrefused : ∃ e, read "<section/>" "App.jsx" (c.target.bindingContext pageDocument) =
      .error e := by
    have hnone : (read "<section/>" "App.jsx" cardContext).toOption = none := by decide +kernel
    change ∃ e, read "<section/>" "App.jsx" cardContext = .error e
    cases hresult : read "<section/>" "App.jsx" cardContext with
    | error e => exact ⟨e, rfl⟩
    | ok t =>
      rw [hresult] at hnone
      cases hnone
  obtain ⟨happlied, hroot, htaken⟩ :=
    (applySource_all_or_nothing c sound_pageDocument source).2 tree hread
  obtain ⟨e, hrefused⟩ := hrefused
  exact ⟨subtree_pageDocument, rfl, hread, happlied, hroot, htaken, e, hrefused,
    (applySource_all_or_nothing c sound_pageDocument "<section/>").1 e hrefused⟩

/-- A document with a hero section and nothing else. -/
def heroDocument : Store :=
  (Store.empty.addElement
    ⟨"hero", "section", .element, none, ⟨.screen, "home"⟩, Properties.empty, none⟩).1

/-- A coordinator for the tree under the hero section. -/
def heroCoordinator : Coordinator MemoryBuffer :=
  start MemoryBuffer.fresh .default ⟨"hero", "Home", .none, []⟩

end Coordinator

end DesignSync

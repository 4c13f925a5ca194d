import DesignSync.Proofs.Markup.ReadElements
import DesignSync.Proofs.Markup.RoundTrip
import DesignSync.Proofs.Sync.Inbound

/-!
Taking the same source in twice. A reader gives each binding the path and the default that a writer
traces for it, so recording the traces of a tree that was just read changes nothing. When its source
is taken in once more, each element is there already, and the tree in its place has no other ids.
-/

namespace DesignSync

open Markup

variable {ctx : BindingContext} {s : Store} {tree : ReadTree}

/-! ### Traces of what was read -/

theorem Element.binding?_of_beq {e f : Element} (h : (e == f) = true) (slot : BindingSlot) :
    Store.binding? e.properties slot = Store.binding? f.properties slot := by
  obtain ⟨-, -, -, -, -, hproperties, -⟩ := Element.beq_iff.1 h
  obtain ⟨hstyle, hcontent, -⟩ := Properties.beq_iff.1 hproperties
  cases slot with
  | content => exact congrArg Content.binding hcontent
  | style key => exact congrArg (Option.bind · (·.get? key)) (Style.beq_iff.1 hstyle).1

/-- A binding that was read has the path that is traced for it. -/
theorem Markup.IsFound.path_eq
    (hids : ctx.targets.Pairwise fun t u => ¬(t.kind = u.kind ∧ t.id = u.id))
    {fallback : BindingTarget → Option String} {b : Binding} (h : IsFound ctx fallback b) :
    b.path = ctx.reference? b ∧ b.fallback = (ctx.byId? b.kind b.refId).bind fallback := by
  obtain ⟨target, hname, rfl⟩ := h
  have hid := byId?_of_ids hids (List.mem_of_find?_eq_some hname)
  constructor
  · simp only [BindingContext.reference?, hid, Option.map_some]
  · simp only [hid, Option.bind_some]

/-- What is traced for an element that was read stands in its bindings. -/
theorem Markup.IsTraceOf.recorded
    (hids : ctx.targets.Pairwise fun t u => ¬(t.kind = u.kind ∧ t.id = u.id)) {e e' : Element}
    {t : TracedPath} (h : IsTraceOf ctx e' t) (hread : IsRead ctx e) (hsame : (e' == e) = true) :
    ∃ b, Store.binding? e'.properties t.slot = some b ∧ b.path = some t.path ∧
      (t.slot = .content → b.fallback = t.fallback) := by
  obtain ⟨b, hb, hreference, hfallback⟩ := h.bound
  have hb' : Store.binding? e.properties t.slot = some b := by
    rw [← Element.binding?_of_beq hsame]
    exact hb
  refine ⟨b, hb, ?_, ?_⟩
  · rw [← hreference]
    cases hslot : t.slot with
    | style key =>
      rw [hslot] at hb'
      exact ((hread.properties.style key b hb').path_eq hids).1
    | content =>
      rw [hslot] at hb'
      exact ((hread.content.binding b hb').path_eq hids).1
  · intro hslot
    rw [hslot] at hb'
    rw [hfallback hslot]
    exact ((hread.content.binding b hb').path_eq hids).2

namespace Coordinator

/-- Where a store has a tree as it was read, the traces of its module are recorded already. -/
theorem recordPaths_of_held {source path : String} (h : s.Sound)
    (hread : read source path ctx = .ok tree)
    (hids : ctx.targets.Pairwise fun t u => ¬(t.kind = u.kind ∧ t.id = u.id))
    (hheld : Holds s tree.elements)
    (moduleName : String) :
    (s.recordPaths (writeModule ctx s.elements tree.rootId moduleName).traced).1 = s := by
  obtain ⟨hroot, -, hchildren⟩ := ids_of_read hread
  apply Store.recordPaths_eq_self
  intro t ht
  have hmem : t.element ∈ tree.ids :=
    mem_ids_of_traced h hroot hchildren hheld ctx moduleName _ (List.mem_map_of_mem ht)
  obtain ⟨e, he, hid⟩ := List.mem_map.1 hmem
  obtain ⟨e', hfind, hsame⟩ := hheld e he
  rw [hid] at hfind
  rw [traced_writeModule] at ht
  obtain ⟨e'', hfind'', htrace⟩ := exists_of_traced_writeTasks [] _ t ht
  obtain rfl : e' = e'' := by
    rw [h.find?_elements, hfind] at hfind''
    exact Option.some.inj hfind''
  obtain ⟨b, hb, hpath, hfallback⟩ := htrace.recorded hids (isRead_of_read hread e he) hsame
  rw [Store.recordPath_of_recorded hfind hb hpath hfallback]

/-! ### Putting a tree where it is already -/

theorem replaceElement_of_held {e e' : Element} (he : e.Exclusive)
    (hfind : s.element? e.id = some e') (hsame : (e' == e) = true) :
    s.replaceElement e = (s, false) := by
  have hequal : (s.element? e.id == some e) = true := by
    rw [hfind]
    exact hsame
  unfold Store.replaceElement
  rw [he.reconcile_eq]
  exact if_pos hequal

theorem replaceAll_of_held {es : List Element} (hes : ∀ e ∈ es, e.Exclusive)
    (hheld : Holds s es) :
    replaceAll s es = (s, 0) := by
  unfold replaceAll
  refine List.foldlRecOn es (motive := (· = (s, 0))) _ rfl ?_
  rintro _ rfl e he
  obtain ⟨e', hfind, hsame⟩ := hheld e he
  simp only [replaceElement_of_held (hes e he) hfind hsame, Bool.false_eq_true, if_false]

section Targets

variable {β : Type} [Buffer β]

/-- What bindings can refer to follows from the components, unless the scope is an instance. -/
theorem bindingContext_of_components {s' : Store} {target : SyncTarget}
    (hscope : ∀ id, target.scope ≠ .inst id) (hcomponents : s'.components = s.components)
    (root : String) :
    { target with root := root }.bindingContext s' = target.bindingContext s := by
  obtain ⟨oldRoot, name, scope, targets⟩ := target
  cases scope with
  | none => rfl
  | component id =>
    simp only [SyncTarget.bindingContext, SyncTarget.component?, Store.component?, hcomponents]
  | inst id => exact absurd rfl (hscope id)

theorem refreshProps_keeps (c : Coordinator β) (s : Store) :
    (c.refreshProps s).target = c.target ∧ (c.refreshProps s).config = c.config := by
  unfold refreshProps
  split
  · exact ⟨rfl, rfl⟩
  · split <;> exact ⟨rfl, rfl⟩

/-- Taking in a source that can be read is taking in its tree. -/
theorem applySource_of_read (c : Coordinator β) {source : String}
    (hread : read source c.config.sourcePath (c.target.bindingContext s) = .ok tree) :
    (c.applySource s source).1.target = { c.target with root := tree.rootId } ∧
      (c.applySource s source).1.config = c.config ∧
        (c.applySource s source).2 = (c.applyTree s tree).2 := by
  obtain ⟨c', s', updated, removed, htaken, -, hconfig, htarget⟩ := c.applyTree_eq s tree
  obtain ⟨hkeptTarget, hkeptConfig⟩ := c'.refreshProps_keeps s'
  simp only [applySource, hread, htaken]
  exact ⟨hkeptTarget.trans htarget, hkeptConfig.trans hconfig, trivial⟩

/-- Where no two targets of one kind have the same id and the scope is no instance, recording traces
leaves a tree that was read as it was put in its place. -/
theorem applySource_eq_placeTree (c : Coordinator β) (h : s.Sound)
    (hscope : ∀ id, c.target.scope ≠ .inst id)
    (hids : (c.target.bindingContext s).targets.Pairwise
      fun t u => ¬(t.kind = u.kind ∧ t.id = u.id))
    {source : String}
    (hread : read source c.config.sourcePath (c.target.bindingContext s) = .ok tree) :
    (c.applySource s source).2.1 = placeTree s c.target.root tree := by
  have hplaced := placed_placeTree h c.target.root hread
  have hcontext : c.target.bindingContext (placeTree s c.target.root tree) =
      c.target.bindingContext s :=
    bindingContext_of_components hscope hplaced.components c.target.root
  have hrecorded := recordPaths_of_held hplaced.sound hread hids hplaced.held c.target.moduleName
  rw [← hcontext] at hrecorded
  obtain ⟨-, -, hresult⟩ := c.applySource_of_read hread
  rw [hresult, applyTree_store]
  exact hrecorded

/-- A tree that is there already is taken in without a change. -/
theorem applyTree_of_held (c : Coordinator β) {source path : String} (h : s.Sound)
    (hread : read source path ctx = .ok tree)
    (hids : ctx.targets.Pairwise fun t u => ¬(t.kind = u.kind ∧ t.id = u.id))
    (hcontext : c.target.bindingContext s = ctx)
    (hheld : Holds s tree.elements)
    (hgone : goneIds s c.target.root tree = []) :
    (c.applyTree s tree).2 = (s, .applied 0 0) := by
  have hreplaced := replaceAll_of_held (exclusive_of_read hread) hheld
  have hplaced : placeTree s c.target.root tree = s := by
    rw [placeTree, hreplaced, hgone]
    rfl
  have hstore : (c.applyTree s tree).2.1 = s := by
    rw [applyTree_store, hplaced, hcontext]
    exact recordPaths_of_held h hread hids hheld _
  have hcounts : (c.applyTree s tree).2.2 = .applied (replaceAll s tree.elements).2
      (removeAll (replaceAll s tree.elements).1 (goneIds s c.target.root tree)).2 := rfl
  rw [hreplaced, hgone] at hcounts
  exact Prod.ext hstore hcounts

/-- Where no two targets of one kind have the same id and the scope is no instance, a source that was
taken in can be taken in again, which changes no element, removes none, and leaves the document and
the target as they are. -/
theorem applySource_again (c : Coordinator β) (h : s.Sound)
    (hscope : ∀ id, c.target.scope ≠ .inst id)
    (hids : (c.target.bindingContext s).targets.Pairwise
      fun t u => ¬(t.kind = u.kind ∧ t.id = u.id))
    {source : String} {updated removed : Nat}
    (hok : (c.applySource s source).2.2 = .applied updated removed) :
    let once := c.applySource s source
    let again := once.1.applySource once.2.1 source
    again.2.2 = .applied 0 0 ∧ again.2.1 = once.2.1 ∧ again.1.target = once.1.target := by
  intro once again
  cases hread : read source c.config.sourcePath (c.target.bindingContext s) with
  | error e =>
    simp only [applySource, hread] at hok
    cases hok
  | ok tree =>
    obtain ⟨htarget, hconfig, hresult⟩ := c.applySource_of_read hread
    have hplaced := placed_placeTree h c.target.root hread
    have htaken := applyTree_takenIn c h hread
    have hstore : once.2.1 = placeTree s c.target.root tree :=
      c.applySource_eq_placeTree h hscope hids hread
    have hgone : goneIds once.2.1 once.1.target.root tree = [] := by
      have hsubtree : once.2.1.subtree once.1.target.root = tree.ids := by
        rw [htarget, hresult]
        exact htaken.subtree
      rw [goneIds, hsubtree, List.filter_eq_nil_iff]
      simp
    have hcontext' : once.1.target.bindingContext once.2.1 = c.target.bindingContext s := by
      rw [htarget, hstore]
      exact bindingContext_of_components hscope hplaced.components tree.rootId
    have hread' : read source once.1.config.sourcePath (once.1.target.bindingContext once.2.1) =
        .ok tree := by
      rw [hconfig, hcontext']
      exact hread
    obtain ⟨htarget', -, hresult'⟩ := once.1.applySource_of_read hread'
    have hsame : (once.1.applyTree once.2.1 tree).2 = (once.2.1, .applied 0 0) := by
      apply applyTree_of_held once.1 _ hread hids hcontext' _ hgone
      · rw [hstore]
        exact hplaced.sound
      · rw [hstore]
        exact hplaced.held
    have hagain : again.2 = (once.2.1, .applied 0 0) := hresult'.trans hsame
    refine ⟨by rw [hagain], by rw [hagain], ?_⟩
    exact htarget'.trans (by rw [htarget])

end Targets

/-- A paragraph that shows a prop. -/
private def label : Element :=
  ⟨"label", "p", .element, none, ⟨.screen, "home"⟩,
    { Properties.empty with content := ⟨none, some ⟨.prop, "p1", none, none⟩, none⟩ }, none⟩

private theorem portable_label : Portable cardContext label where
  tag := ⟨["p"], by decide, by decide, (by decide : "p" = String.intercalate "." ["p"])⟩
  flags := nofun
  attributes := nofun
  events := nofun
  handlers := nofun
  expression := nofun
  exclusive := ⟨⟨nofun, nofun⟩, nofun⟩
  resolved := by
    refine ⟨nofun, ?_⟩
    intro b hb
    cases hb
    exact ⟨_, rfl, rfl⟩

/-- A paragraph takes the place of the hero section, and is there when it comes again. -/
theorem applySource_again_label :
    let c : Coordinator MemoryBuffer :=
      start MemoryBuffer.fresh .default ⟨"hero", "Home", .none, cardContext.targets⟩
    let source := (write cardContext [label] "label").text
    let once := c.applySource heroDocument source
    let again := once.1.applySource once.2.1 source
    (∃ updated removed, once.2.2 = .applied updated removed) ∧
      again.2.2 = .applied 0 0 ∧ again.2.1 = once.2.1 ∧ again.1.target = once.1.target := by
  intro c source once again
  have hportable : ∀ x ∈ (Grove.cons label .nil .nil).preorder, Portable cardContext x := by
    intro x hx
    rw [List.mem_singleton.1 hx]
    exact portable_label
  have hstored : (Grove.cons label .nil .nil).StoredIn [label] := by
    intro x hx
    rw [List.mem_singleton.1 hx]
    rfl
  have hread := (read_of_portable hportable ⟨rfl, trivial, trivial⟩ hstored
    (List.nodup_singleton _) "App.jsx" "Home").1
  have hok : ∃ updated removed, once.2.2 = .applied updated removed := by
    obtain ⟨-, -, hresult⟩ := c.applySource_of_read (s := heroDocument) hread
    exact ⟨_, _, congrArg Prod.snd hresult⟩
  obtain ⟨updated, removed, hone⟩ := hok
  exact ⟨⟨updated, removed, hone⟩,
    applySource_again c (Store.empty_sound.addElement _) nofun (by decide) hone⟩

end Coordinator

end DesignSync

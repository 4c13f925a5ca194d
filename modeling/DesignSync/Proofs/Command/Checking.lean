import DesignSync.Command.Verification
import DesignSync.Command.Workspace
import DesignSync.Proofs.Project.TopLevel
import DesignSync.Proofs.Sync.Readding

/-!
What a check of a document looks at. Without a root it goes through the trees of all elements at the
top; each has a target, so the check ends with what the round trips of these trees say, and where no
element is below itself they have every element in them.
-/

namespace DesignSync

namespace Action

variable {m : Type → Type} [Monad m] [LawfulMonad m] {α β : Type}

/-- Whether an action comes out in one way, whatever the host does. -/
def Ends (x : Action m α) (result : Except CommandError α) : Prop :=
  ∃ y : m Unit, x.run = y >>= fun _ => pure result

namespace Ends

theorem pure (a : α) : (pure a : Action m α).Ends (.ok a) := ⟨Pure.pure (), by simp⟩

theorem error_bind (e : CommandError) (f : α → Action m β) : (throw e >>= f).Ends (.error e) :=
  ⟨Pure.pure (), by simp⟩

theorem bind {x : Action m α} {f : α → Action m β} {a : α} {result : Except CommandError β}
    (hx : x.Ends (.ok a)) (hf : (f a).Ends result) : (x >>= f).Ends result := by
  obtain ⟨y, hy⟩ := hx
  obtain ⟨z, hz⟩ := hf
  refine ⟨y >>= fun _ => z, ?_⟩
  simp [ExceptT.run_bind, hy, hz]

theorem ofExcept {ε : Type} {f : ε → CommandError} {x : Except ε α} {a : α} (hx : x = .ok a) :
    (ofExcept f x : Action m α).Ends (.ok a) := by
  refine ⟨Pure.pure (), ?_⟩
  rw [hx, pure_bind]
  rfl

theorem mapM {f : α → Action m β} {g : α → β} {xs : List α}
    (h : ∀ x ∈ xs, (f x).Ends (.ok (g x))) : (xs.mapM f).Ends (.ok (xs.map g)) := by
  induction xs with
  | nil => exact .pure []
  | cons x xs ih =>
    obtain ⟨hx, hxs⟩ := List.forall_mem_cons.1 h
    rw [List.mapM_cons]
    apply hx.bind
    apply (ih hxs).bind
    exact .pure _

theorem forM {f : α → Action m Unit} {xs : List α} (h : ∀ x ∈ xs, (f x).Ends (.ok ())) :
    (xs.forM f).Ends (.ok ()) := by
  induction xs with
  | nil => exact .pure ()
  | cons x xs ih =>
    obtain ⟨hx, hxs⟩ := List.forall_mem_cons.1 h
    exact hx.bind (ih hxs)

variable [Host m]

theorem line (text : String) : (line text : Action m Unit).Ends (.ok ()) :=
  ⟨Host.out (text ++ "\n"), map_eq_pure_bind _ _⟩

theorem remark (text : String) : (remark text : Action m Unit).Ends (.ok ()) :=
  ⟨Host.err (text ++ "\n"), map_eq_pure_bind _ _⟩

end Ends

end Action

namespace Store

variable {s : Store} {m : Type → Type} [Monad m] [LawfulMonad m] [Host m]

/-- Whether the tree of a root comes back as it was. -/
def isStable (s : Store) (config : ProjectConfig) (root : String) : Bool :=
  match s.target { TargetChoice.any with root := some root } config with
  | .ok t => decide ((s.roundTrip t config.sync.sourcePath).1 = .stable)
  | .error _ => false

/-- How a check of some trees comes out: well, unless there are some that do not come back as they
were. -/
def verdict (s : Store) (config : ProjectConfig) (roots : List String) :
    Except CommandError Unit :=
  let failures := (roots.map (s.isStable config)).count false
  if 0 < failures then .error (.unstable failures roots.length) else .ok ()

theorem ends_showFindings (ds : List Markup.Diagnostic) (all : Bool) :
    (showFindings ds all : Action m Unit).Ends (.ok ()) :=
  .forM fun _ _ => .remark _

theorem ends_showRoundTrip (root : String) (r : RoundTrip) :
    (showRoundTrip root r : Action m Bool).Ends (.ok (decide (r = .stable))) := by
  cases r with
  | stable => exact (Action.Ends.line _).bind (.pure true)
  | diverged line expected actual =>
    exact (Action.Ends.line _).bind ((Action.Ends.line _).bind ((Action.Ends.line _).bind (.pure _)))
  | unreadable e => exact (Action.Ends.line _).bind (.pure false)

/-- The check of a tree whose root is stored says whether it comes back as it was. -/
theorem ends_checkTree {root : String} (hroot : (s.element? root).isSome = true)
    (config : ProjectConfig) (verbose : Bool) :
    (checkTree s config verbose root : Action m Bool).Ends (.ok (s.isStable config root)) := by
  obtain ⟨t, ht, -⟩ := exists_target_of_stored hroot { TargetChoice.any with root := some root } rfl
    config
  unfold checkTree targetOf isStable
  rw [ht]
  apply (Action.Ends.ofExcept rfl).bind
  apply (ends_showFindings _ _).bind
  exact ends_showRoundTrip root _

theorem ends_checkTrees {roots : List String}
    (hroots : ∀ root ∈ roots, (s.element? root).isSome = true) (config : ProjectConfig)
    (verbose : Bool) :
    (checkTrees s config verbose roots : Action m Unit).Ends (s.verdict config roots) := by
  unfold checkTrees verdict
  apply (Action.Ends.mapM fun root hroot => ends_checkTree (hroots root hroot) config verbose).bind
  apply (Action.Ends.line _).bind
  dsimp only
  split
  · exact .error_bind _ _
  · exact .line _

/-- The check of a document in which nothing is wrong comes out as the round trips of its trees do. -/
theorem ends_checkStore {r : CheckRequest} (hfine : s.violation? = none)
    (hroots : ∀ root ∈ s.checkedRoots r.root, (s.element? root).isSome = true) (path : String)
    (config : ProjectConfig) :
    (checkStore path s config r : Action m Unit).Ends (s.verdict config (s.checkedRoots r.root)) := by
  unfold checkStore
  apply (Action.Ends.line _).bind
  apply (Action.Ends.line _).bind
  rw [hfine]
  exact ends_checkTrees hroots config r.verbose

theorem verdict_eq_ok_iff {config : ProjectConfig} {roots : List String} :
    s.verdict config roots = .ok () ↔ ∀ root ∈ roots, s.isStable config root = true := by
  have hfailed : 0 < (roots.map (s.isStable config)).count false ↔
      ∃ root ∈ roots, s.isStable config root = false := by
    rw [List.count_pos_iff, List.mem_map]
  unfold verdict
  dsimp only
  split
  · next hpos =>
    obtain ⟨root, hroot, hfalse⟩ := hfailed.1 hpos
    exact ⟨nofun, fun hall => absurd (hall root hroot) (by simp [hfalse])⟩
  · next hnone =>
    rw [hfailed] at hnone
    push Not at hnone
    simpa using hnone

/-- Where no element is below itself, each is in the tree of an element at the top. These stand in
the order of the document, and there are some unless there are no elements at all, so that there is
a target without a root being named. A check without a root comes out as the round trips of their
trees do: it ends well just when all of them come back as they were. -/
theorem topLevelIds_cover (h : s.Grown) (hacyclic : s.Acyclic) :
    (∀ id ∈ s.ids, ∃ top ∈ s.topLevelIds, id ∈ s.subtree top) ∧
      (s.topLevelIds.Nodup ∧ s.topLevelIds.Sublist s.ids ∧
        ∀ id, id ∈ s.topLevelIds ↔ id ∈ s.ids ∧ ∀ e ∈ s.elements, id ∉ e.children) ∧
      (s.topLevelIds = [] ↔ s.ids = []) ∧
      (∀ moduleName component instanceId config, s.ids ≠ [] →
        ∃ t, s.target ⟨none, moduleName, component, instanceId⟩ config = .ok t ∧
          s.topLevelIds.head? = some t.root) ∧
      (∀ config, s.verdict config s.topLevelIds = .ok () ↔
        ∀ top ∈ s.topLevelIds, s.isStable config top = true) ∧
      ∀ (m : Type → Type) [Monad m] [LawfulMonad m] [Host m] path config snapshot verbose,
        (checkStore path s config ⟨snapshot, none, verbose⟩ : Action m Unit).Ends
          (s.verdict config s.topLevelIds) := by
  have hsublist : s.topLevelIds.Sublist s.ids := List.filter_sublist
  have hstored : ∀ top ∈ s.topLevelIds, (s.element? top).isSome = true :=
    fun top htop => (h.sound.mem_ids top).1 (hsublist.subset htop)
  have hnonempty := h.sound.topLevelIds_eq_nil_iff hacyclic
  refine ⟨fun id hid => h.sound.exists_top_subtree hacyclic hid,
    ⟨hsublist.nodup h.sound.nodup_ids, hsublist, fun id => mem_topLevelIds_iff⟩, hnonempty,
    ?_, fun config => verdict_eq_ok_iff, ?_⟩
  · intro moduleName component instanceId config hids
    obtain ⟨top, rest, htops⟩ := List.exists_cons_of_ne_nil (mt hnonempty.1 hids)
    have htop : (s.element? top).isSome = true := hstored top (htops ▸ List.mem_cons_self)
    have hhead : s.topLevelIds.head? = some top := by rw [htops]; rfl
    obtain ⟨t, ht, rfl⟩ :=
      exists_target_of_stored htop ⟨none, moduleName, component, instanceId⟩ hhead config
    exact ⟨t, ht, hhead⟩
  · intro m _ _ _ path config snapshot verbose
    exact ends_checkStore (r := ⟨snapshot, none, verbose⟩) h.sound.violation?_eq_none hstored path
      config

/-! ### A document that is checked -/

/-- The stores that documents are loaded into have grown. -/
theorem grown_ofSnapshot (x : Snapshot) : (ofSnapshot x).Grown := by
  rw [ofSnapshot_eq_run]
  exact List.foldlRecOn _ _ .empty fun _ hs op _ => hs.perform op

/-- Two elements at the top share a child, and one of them has a child that is missing. -/
def sharing : Snapshot :=
  let box (id : String) (children : List String) : Element :=
    ⟨id, "div", .element, none, ⟨.screen, "S1"⟩,
      { Properties.empty with children := children }, none⟩
  ⟨[box "label" [], box "home" ["label", "gone"], box "card" ["label"]], [], []⟩

theorem acyclic_sharing : (ofSnapshot sharing).Acyclic := by
  have hsound : (ofSnapshot sharing).Sound := (grown_ofSnapshot sharing).sound
  have hgone : ((ofSnapshot sharing).element? "gone").isSome = false := by decide +kernel
  have hall : ∀ e ∈ (ofSnapshot sharing).table.values, ∀ child ∈ e.children,
      e.id ≠ "label" ∧ (child = "label" ∨ child = "gone") := by decide +kernel
  -- the only child that is there has no children
  have hstep : ∀ id child, Element.LeadsTo (ofSnapshot sharing).element? id child →
      id ≠ "label" ∧ child = "label" := by
    rintro id child ⟨e, he, hchild, hstored⟩
    obtain ⟨hid, hlabel | rfl⟩ := hall e (Dict.mem_values_iff.2 ⟨id, he⟩) child hchild
    · exact ⟨hsound.named id e he ▸ hid, hlabel⟩
    · rw [hgone] at hstored
      cases hstored
  intro id hcycle
  obtain ⟨child, hfirst, -⟩ := Relation.TransGen.head'_iff.1 hcycle
  obtain ⟨parent, -, hlast⟩ := Relation.TransGen.tail'_iff.1 hcycle
  exact (hstep id child hfirst).1 (hstep parent id hlast).2

/-- The label is shared, so it is in the trees of both elements at the top. -/
theorem topLevelIds_cover_sharing :
    let s := ofSnapshot sharing
    s.Grown ∧ s.Acyclic ∧ s.topLevelIds = ["home", "card"] ∧
      (∃ top ∈ s.topLevelIds, "label" ∈ s.subtree top) ∧
      (∃ t, s.target .any .default = .ok t ∧ s.topLevelIds.head? = some t.root) ∧
      (checkStore "document.json" s .default ⟨none, none, false⟩ : Action (StateM Workspace) Unit).Ends
        (s.verdict .default s.topLevelIds) := by
  intro s
  have hgrown : s.Grown := grown_ofSnapshot sharing
  have hids : s.ids = ["label", "home", "card"] := by decide +kernel
  have hlabel : "label" ∈ s.ids := by simp [hids]
  obtain ⟨hcover, -, -, htarget, -, hcheck⟩ := topLevelIds_cover hgrown acyclic_sharing
  exact ⟨hgrown, acyclic_sharing, by decide +kernel, hcover "label" hlabel,
    htarget none none none .default (by simp [hids]), hcheck (StateM Workspace) _ _ _ _⟩

end Store

end DesignSync

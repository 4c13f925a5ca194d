import DesignSync.Proofs.Document.Run
import DesignSync.Proofs.Markup.RoundTrip
import DesignSync.Proofs.Sync.Rest
import DesignSync.Proofs.Text.Words

/-!
Pushing a document that changes. As long as only pushes write to the buffer, each of them leaves a
source there that has the words of the module of the document. Blanks between words are taken to be
formatting, also where they stand in a string: a change of nothing else is never written.
-/

namespace DesignSync

open Markup

/-- What happens while nobody edits the buffer. -/
inductive Turn where
  | change (op : Store.Operation)
  | push

namespace Coordinator

def turn (state : Coordinator MemoryBuffer × Store) : Turn → Coordinator MemoryBuffer × Store
  | .change op => (state.1, state.2.perform op)
  | .push => call state .push

def turns (state : Coordinator MemoryBuffer × Store) (ts : List Turn) :
    Coordinator MemoryBuffer × Store :=
  ts.foldl turn state

variable {c c' : Coordinator MemoryBuffer} {s : Store}

/-- An open buffer the source of which, if the coordinator has written one, is still the one it has
written. -/
structure Alone (c : Coordinator MemoryBuffer) : Prop where
  paths : c.config.sourcePath ≠ c.config.propsPath
  phase : c.phase = .idle
  inboundRevision : c.inboundRevision = none
  opened : c.buffer.files.isSome = true
  source : c.lastPushed = none ∧ c.lastObserved = none ∨
    ∃ source, c.buffer.file? c.config.sourcePath = some source ∧
      c.lastPushed = some (Text.collapsed source) ∧ c.lastObserved = some source

theorem Alone.hasUnreadEdit (h : c.Alone) {files : Files} (hfiles : c.buffer.files = some files) :
    c.hasUnreadEdit files = false := by
  unfold Coordinator.hasUnreadEdit
  obtain ⟨-, hnone⟩ | ⟨source, hfile, -, hobserved⟩ := h.source
  · rw [hnone]
  · rw [MemoryBuffer.file?, hfiles, Option.bind_some] at hfile
    rw [hobserved, hfile]
    simp

/-- Nobody else is in the way of a push. -/
theorem Alone.push_eq (h : c.Alone) (s : Store) : c.push s = c.pushFiles s := by
  obtain ⟨files, hfiles⟩ := Option.isSome_iff_exists.1 h.opened
  refine push_eq_pushFiles ?_ ?_ hfiles (h.hasUnreadEdit hfiles)
  · rw [h.phase]
    decide
  · rw [h.inboundRevision]
    exact Option.some_ne_none _ |>.symm

/-- The source that a push leaves. -/
structure InStep (c : Coordinator MemoryBuffer) (s : Store)
    (outcome : Except BufferError PushOutcome) (source : String) : Prop where
  file : c.buffer.file? c.config.sourcePath = some source
  words : Text.collapsed source = Text.collapsed (c.moduleOf s).text
  outcome : outcome = .ok .unchanged ∨ ∃ written props,
    outcome = .ok (.pushed written props) ∧ (written = true → source = (c.moduleOf s).text)

/-- A push that finds the words of the module in what was pushed last does not write it again. -/
theorem Alone.source_of_same (h : c.Alone)
    (hlast : c.lastPushed = some (Text.collapsed (c.moduleOf s).text)) :
    ∃ source, c.buffer.file? c.config.sourcePath = some source ∧
      c.lastObserved = some source ∧
      Text.collapsed source = Text.collapsed (c.moduleOf s).text := by
  obtain ⟨hnone, -⟩ | ⟨source, hfile, hpushed, hobserved⟩ := h.source
  · rw [hlast] at hnone
    cases hnone
  · rw [hlast] at hpushed
    exact ⟨source, hfile, hobserved, (Option.some.inj hpushed).symm⟩

/-- What a push that writes leaves at the path of the source. -/
theorem Alone.source_of_pushedFrom (h : c.Alone) (hfrom : PushedFrom c s c') :
    ∃ source, c'.buffer.file? c'.config.sourcePath = some source ∧ c'.lastObserved = some source ∧
      Text.collapsed source = Text.collapsed (c.moduleOf s).text ∧
      (c.lastPushed ≠ some (Text.collapsed (c.moduleOf s).text) → source = (c.moduleOf s).text) := by
  have hsource := hfrom.source h.paths
  rw [hfrom.config]
  split at hsource
  · next hlast =>
    obtain ⟨source, hfile, hobserved, hwords⟩ := h.source_of_same hlast
    exact ⟨source, hsource.2.trans hfile, hsource.1.trans hobserved, hwords, fun h => absurd hlast h⟩
  · exact ⟨_, hsource.2, hsource.1, rfl, fun _ => rfl⟩

theorem Alone.push (h : c.Alone) (hs : s.Sound) :
    (c.push s).1.Alone ∧ (c.push s).2.1.Sound ∧ (c.push s).1.config = c.config ∧
      ∃ source, InStep (c.push s).1 (c.push s).2.1 (c.push s).2.2 source := by
  rw [h.push_eq]
  by_cases hsame : c.lastPushed = some (Text.collapsed (c.moduleOf s).text) ∧
      c.pendingProps? s = none
  · obtain ⟨source, hfile, -, hwords⟩ := h.source_of_same hsame.1
    rw [pushFiles_of_same hsame.1 hsame.2]
    exact ⟨⟨h.paths, h.phase, h.inboundRevision, h.opened, h.source⟩, hs, rfl, source, hfile,
      hwords, .inl rfl⟩
  · obtain ⟨c', props, hpush, hfrom⟩ := pushFiles_of_changed hsame
    obtain ⟨source, hfile, hobserved, hwords, hwritten⟩ := h.source_of_pushedFrom hfrom
    have hopened : c'.buffer.files.isSome = true := by
      obtain ⟨files, hfiles, -⟩ := Option.bind_eq_some_iff.1 hfile
      rw [hfiles]
      rfl
    rw [hpush]
    refine ⟨⟨hfrom.config ▸ h.paths, hfrom.phase, hfrom.inboundRevision.trans h.inboundRevision,
      hopened, .inr ⟨source, hfile, ?_, hobserved⟩⟩, hs.recordPaths _, hfrom.config, source, hfile,
      ?_, .inr ⟨_, _, rfl, fun hchanged => ?_⟩⟩
    · rw [hfrom.lastPushed, hwords]
    · rw [hfrom.moduleOf_recordPaths hs, hwords]
    · rw [hfrom.moduleOf_recordPaths hs]
      exact hwritten (by simpa using hchanged)

theorem Alone.turn (h : c.Alone) (hs : s.Sound) (t : Turn) :
    (Coordinator.turn (c, s) t).1.Alone ∧ (Coordinator.turn (c, s) t).2.Sound ∧
      (Coordinator.turn (c, s) t).1.config = c.config := by
  cases t with
  | change op => exact ⟨h, hs.perform op, rfl⟩
  | push =>
    obtain ⟨hc, hs, hconfig, -⟩ := h.push hs
    exact ⟨hc, hs, hconfig⟩

theorem Alone.turns (h : c.Alone) (hs : s.Sound) (ts : List Turn) :
    (Coordinator.turns (c, s) ts).1.Alone ∧ (Coordinator.turns (c, s) ts).2.Sound ∧
      (Coordinator.turns (c, s) ts).1.config = c.config := by
  induction ts generalizing c s with
  | nil => exact ⟨h, hs, rfl⟩
  | cons t ts ih =>
    obtain ⟨hc, hs, hconfig⟩ := h.turn hs t
    obtain ⟨hc, hs, hconfig'⟩ := ih hc hs
    exact ⟨hc, hs, hconfig'.trans hconfig⟩

/-- As long as only pushes write to an open buffer, none of them is put off, and after each the
source in the buffer has the words of the module of the document. A source that a push has written
is the module itself. -/
theorem push_after_turns (buffer : MemoryBuffer) (config : SyncConfig) (target : SyncTarget)
    (hopened : buffer.files.isSome = true) (hpaths : config.sourcePath ≠ config.propsPath)
    (hs : s.Sound) (ts : List Turn) :
    let state := turns (start buffer config target, s) ts
    let pushed := state.1.push state.2
    pushed.1.config = config ∧ ∃ source, InStep pushed.1 pushed.2.1 pushed.2.2 source := by
  have hstart : (start buffer config target).Alone :=
    ⟨hpaths, rfl, rfl, hopened, .inl ⟨rfl, rfl⟩⟩
  obtain ⟨hc, hs, hconfig⟩ := hstart.turns hs ts
  obtain ⟨-, -, hconfig', source, hstep⟩ := hc.push hs
  exact ⟨hconfig'.trans hconfig, source, hstep⟩

theorem push_after_turns_hero :
    let state := turns (start MemoryBuffer.fresh.opened .default heroCoordinator.target,
      heroDocument) [.push, .change (.removeElement "hero")]
    let pushed := state.1.push state.2
    pushed.1.config = .default ∧ ∃ source, InStep pushed.1 pushed.2.1 pushed.2.2 source :=
  push_after_turns MemoryBuffer.fresh.opened .default heroCoordinator.target rfl (by decide)
    (Store.empty_sound.addElement _) [.push, .change (.removeElement "hero")]

/-! ### Blanks in strings -/

/-- A heading with a title. -/
def titled (title : String) : Element :=
  ⟨"hero", "h1", .element, none, ⟨.screen, "home"⟩,
    { Properties.empty with attributes := Dict.empty.insert "title" title }, none⟩

private theorem portable_titled (title : String) : Portable .empty (titled title) where
  tag := ⟨["h1"], by decide, by decide, (by decide : "h1" = String.intercalate "." ["h1"])⟩
  flags _ h := by cases h
  attributes name h hcolon := by
    obtain ⟨value, hget⟩ := Option.isSome_iff_exists.1 h
    unfold titled at hget
    rw [Dict.get?_insert] at hget
    split at hget
    · next hname =>
      rw [hname] at hcolon
      exact absurd hcolon (by decide)
    · cases hget
  events _ h := by cases h
  handlers _ _ h := by cases h
  expression _ h := by cases h
  exclusive := ⟨⟨fun _ h => (by cases h), fun _ h => (by cases h)⟩, fun h => (by cases h)⟩
  resolved := ⟨fun _ _ h => (by cases h), fun _ h => (by cases h)⟩

private theorem lookOf_titled (title : String) : lookOf .empty (titled title) =
    ⟨"h1", metadataAttributes (titled "") ++ [("title", .text title)], none⟩ := by
  have hwritable : isWritableName "title" = true := by decide
  have hattributes : propertyAttributes .empty (titled title).properties =
      [("title", .text title)] := by
    simp [propertyAttributes, titled, Dict.filter, Dict.insert, Dict.empty, insertEntry, hwritable,
      Properties.empty]
    rfl
  have hinner : (isVoidTag (titled title).tag || isBare (titled title)) = true := by
    rw [Bool.or_eq_true]
    exact .inr rfl
  rw [lookOf, hattributes, if_pos hinner]
  rfl

/-- In the module of a heading a blank stands at either side of the title, and the rest is the same
for every title. -/
private theorem exists_toList_titled : ∃ front back : List Char, ∀ title : String,
    (moduleText "Home" (groveText (lookOf .empty) 2 (.cons (titled title) .nil .nil))).toList =
      front ++ ((attributeSource ("title", .text title)).toList ++ ' ' :: back) := by
  let front := moduleStart ++ moduleName "Home" ++ "() \x7b\n" ++ line 1 "return (" ++ indent 2
    ++ "<" ++ ("h1" ++ String.join ((metadataAttributes (titled "")).map attributeSource))
  refine ⟨front.toList, '/' :: '>' :: '\n' :: (line 1 ");" ++ "\x7d\n").toList, fun title => ?_⟩
  simp only [moduleText, groveText, lookOf_titled, headerSource, List.map_append,
    String.join_append]
  simp [front, headerEnd, line]

/-- The module of a heading: its text, which can be read, and nothing traced. -/
theorem writeModule_titled (title : String) :
    (writeModule .empty [titled title] "hero" "Home").text =
        moduleText "Home" (groveText (lookOf .empty) 2 (.cons (titled title) .nil .nil)) ∧
      (writeModule .empty [titled title] "hero" "Home").traced = [] ∧
      read (writeModule .empty [titled title] "hero" "Home").text "App.jsx" .empty =
        .ok ⟨"hero", [conveyed .empty (titled title)], []⟩ := by
  have hportable : ∀ x ∈ (Grove.cons (titled title) .nil .nil).preorder, Portable .empty x := by
    intro x hx
    rw [List.mem_singleton.1 hx]
    exact portable_titled title
  have hfollows : (Grove.cons (titled title) .nil .nil).Follows writtenChildren :=
    ⟨rfl, trivial, trivial⟩
  have hstored : (Grove.cons (titled title) .nil .nil).StoredIn [titled title] := by
    intro x hx
    rw [List.mem_singleton.1 hx]
    rfl
  have hnodup : (Grove.cons (titled title) .nil .nil).ids.Nodup := List.nodup_singleton _
  have htraced : (writeModule .empty [titled title] "hero" "Home").traced = [] := by
    rw [traced_writeModule, writeTasks_element (e := titled title) rfl List.not_mem_nil]
    have hnone : innerTasks .empty 2 (titled title) = [] := rfl
    rw [hnone, List.nil_append, writeTasks]
    rfl
  exact ⟨text_writeModule hfollows hstored hnodup (fun x hx => (hportable x hx).resolved) "Home",
    htraced, (read_of_portable hportable hfollows hstored hnodup "App.jsx" "Home").2⟩

/-- The modules of two headings have the same words just when their titles have, as they are
written. -/
theorem collapsed_titled_iff (title title' : String) :
    Text.collapsed (writeModule .empty [titled title] "hero" "Home").text =
        Text.collapsed (writeModule .empty [titled title'] "hero" "Home").text ↔
      Text.words (attributeSource ("title", .text title)).toList =
        Text.words (attributeSource ("title", .text title')).toList := by
  obtain ⟨front, back, htext⟩ := exists_toList_titled
  have hblank : Text.isBlank ' ' = true := by decide
  have hattribute (title : String) : ∃ rest,
      (attributeSource ("title", .text title)).toList = ' ' :: rest :=
    ⟨_, by simp only [attributeSource, String.toList_append]; rfl⟩
  have hwords (title : String) :
      Text.words (writeModule .empty [titled title] "hero" "Home").text.toList =
        Text.words front ++
          (Text.words (attributeSource ("title", .text title)).toList ++ Text.words back) := by
    obtain ⟨rest, hrest⟩ := hattribute title
    rw [(writeModule_titled title).1, htext, hrest, List.cons_append, Text.words_append hblank,
      Text.words_append hblank, Text.words_cons hblank]
  rw [Text.collapsed_eq_iff, hwords, hwords, List.append_cancel_left_eq,
    List.append_cancel_right_eq]

/-- The first push of a heading writes its module and leaves the document alone. -/
theorem push_start_titled (title : String) :
    let c := start MemoryBuffer.fresh.opened .default heroCoordinator.target
    let s := (Store.empty.addElement (titled title)).1
    ∃ c' outcome, c.push s = (c', s, outcome) ∧ PushedFrom c s c' ∧
      c'.lastObserved = some (c.moduleOf s).text ∧
      c'.buffer.file? "App.jsx" = some (c.moduleOf s).text := by
  intro c s
  have hc : c.Alone := ⟨by decide, rfl, rfl, rfl, .inl ⟨rfl, rfl⟩⟩
  have hnew : c.lastPushed ≠ some (Text.collapsed (c.moduleOf s).text) := fun h => by cases h
  obtain ⟨c', props, hpush, hfrom⟩ := pushFiles_of_changed (c := c) (s := s) fun h => hnew h.1
  have hsource := hfrom.source hc.paths
  rw [if_neg hnew] at hsource
  have hkept : (s.recordPaths (c.moduleOf s).traced).1 = s := by
    have hmodule : c.moduleOf s = writeModule .empty [titled title] "hero" "Home" := rfl
    rw [hmodule, (writeModule_titled title).2.1]
    rfl
  rw [hkept] at hpush
  exact ⟨c', _, (hc.push_eq s).trans hpush, hfrom, hsource⟩

/-- A heading is pushed, then one blank is taken out of its title. The next push says that nothing
changed, and leaves a source that reads as another heading than the one of the document. -/
theorem push_blank_swallowed :
    let state := turns (start MemoryBuffer.fresh.opened .default heroCoordinator.target, Store.empty)
      [.change (.addElement (titled "a  b")), .push,
        .change (.setAttributes "hero" (Dict.empty.insert "title" "a b"))]
    let pushed := state.1.push state.2
    let ctx := pushed.1.target.bindingContext pushed.2.1
    pushed.2.2 = .ok .unchanged ∧
      ∃ source e e', pushed.1.buffer.file? "App.jsx" = some source ∧
        read source "App.jsx" ctx = .ok ⟨"hero", [e], []⟩ ∧
        read (pushed.1.moduleOf pushed.2.1).text "App.jsx" ctx = .ok ⟨"hero", [e'], []⟩ ∧
        (e == e') = false := by
  set c : Coordinator MemoryBuffer :=
    start MemoryBuffer.fresh.opened .default heroCoordinator.target
  set s₁ : Store := (Store.empty.addElement (titled "a  b")).1
  set s₂ : Store := (s₁.setAttributes "hero" (Dict.empty.insert "title" "a b")).1
  obtain ⟨c', outcome, hpush, hfrom, -, hfile⟩ := push_start_titled "a  b"
  have hmodule : c.moduleOf s₁ = writeModule .empty [titled "a  b"] "hero" "Home" := rfl
  have hmodule' : c'.moduleOf s₂ = writeModule .empty [titled "a b"] "hero" "Home" := by
    rw [moduleOf, hfrom.target]
    rfl
  have hstate : turns (c, Store.empty) [.change (.addElement (titled "a  b")), .push,
      .change (.setAttributes "hero" (Dict.empty.insert "title" "a b"))] = (c', s₂) := by
    have hcall : call (c, s₁) .push = (c', s₁) := by rw [call, hpush]
    simp only [turns, List.foldl_cons, List.foldl_nil]
    change turn (call (c, s₁) .push) _ = _
    rw [hcall]
    rfl
  -- the second push finds the same words
  have hcollapsed : Text.collapsed (writeModule .empty [titled "a  b"] "hero" "Home").text =
      Text.collapsed (writeModule .empty [titled "a b"] "hero" "Home").text :=
    (collapsed_titled_iff "a  b" "a b").2 (by decide)
  have hpushed : c'.push s₂ = (c'.report (c'.moduleOf s₂).diagnostics, s₂, .ok .unchanged) := by
    have hc : c.Alone := ⟨by decide, rfl, rfl, rfl, .inl ⟨rfl, rfl⟩⟩
    have hc' : c'.Alone := by
      have h := (hc.push (Store.empty_sound.addElement (titled "a  b"))).1
      rwa [hpush] at h
    rw [hc'.push_eq]
    refine pushFiles_of_same ?_ ?_
    · rw [hfrom.lastPushed, hmodule, hmodule', hcollapsed]
    · have hlast : c'.lastProps = some Artifact.empty.render := hfrom.lastProps
      have hscope : c'.target.scope = .none := congrArg SyncTarget.scope hfrom.target
      simp [pendingProps?, hscope, Store.project, Artifact.pending?, hlast]
  have hctx : c'.target.bindingContext s₂ = .empty := by
    rw [hfrom.target]
    rfl
  rw [hstate]
  dsimp only
  rw [hpushed]
  refine ⟨rfl, _, _, _, hfile, ?_, ?_, (by decide +kernel :
    (conveyed .empty (titled "a  b") == conveyed .empty (titled "a b")) = false)⟩
  · change read _ _ (c'.target.bindingContext s₂) = _
    rw [hctx]
    exact (writeModule_titled "a  b").2.2
  · change read (c'.moduleOf s₂).text _ (c'.target.bindingContext s₂) = _
    rw [hctx, hmodule']
    exact (writeModule_titled "a b").2.2

end Coordinator

end DesignSync

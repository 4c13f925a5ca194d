import DesignSync.Proofs.Preview.Agreement
import DesignSync.Proofs.Sync.SourcePath

/-!
Pushes that fail at an invalid path. Nothing is recorded then, but a push of two files may have
written the first of them: a source that was written so is not known as one's own any more.
-/

namespace DesignSync

namespace Coordinator

variable {β : Type} [Buffer β] {s s' : Store} {path : String} {source props : Option String}

/-- What is remembered of the buffer, and what is set, is as it was. -/
structure Unrecorded (c c' : Coordinator β) : Prop where
  config : c'.config = c.config
  target : c'.target = c.target
  lastPushed : c'.lastPushed = c.lastPushed
  lastObserved : c'.lastObserved = c.lastObserved
  inboundRevision : c'.inboundRevision = c.inboundRevision
  lastProps : c'.lastProps = c.lastProps

/-- A push that fails has tried to write, and changes neither the document nor what is
remembered. -/
theorem pushFiles_eq_error {c c' : Coordinator β} {e : BufferError}
    (h : c.pushFiles s = (c', s', .error e)) :
    (s' = s ∧ Unrecorded c c') ∧ ∃ source props,
      Buffer.write c.buffer (c.pushDiff source props) = (c'.buffer, some e) ∧
        ∀ text ∈ source, text = (c.moduleOf s).text := by
  simp only [pushFiles] at h
  split at h
  · cases h
  split at h
  · next buffer e' hwrite =>
    cases h
    refine ⟨⟨rfl, ⟨rfl, rfl, rfl, rfl, rfl, rfl⟩⟩, _, _, hwrite, fun text htext => ?_⟩
    rw [Option.mem_def, Option.ite_none_right_eq_some] at htext
    exact (Option.some.inj htext.2).symm
  · cases h

/-- A buffer that is a folder cannot be read for another reason than an invalid path. -/
theorem push_eq_invalidPath {c c' : Coordinator FolderBuffer}
    (h : c.push s = (c', s', .error (.invalidPath path))) :
    c.buffer.isOpen = true ∧ c.pushFiles s = (c', s', .error (.invalidPath path)) := by
  unfold push pushFinding at h
  split at h
  · cases h
  split at h
  · cases h
  split at h
  · next e hread =>
    cases h
    change c.buffer.files = _ at hread
    rw [FolderBuffer.files] at hread
    split at hread
    · split at hread <;> cases hread
    · cases hread
  · cases h
  · next files hread =>
    split at h
    · cases h
    · obtain ⟨folder, hroot, -⟩ := FolderBuffer.files_eq_some_iff.1 hread
      exact ⟨FolderBuffer.isOpen_iff.2 ⟨folder, hroot⟩, h⟩

omit [Buffer β] in
/-- The changes of a push: one at most, or the two files in the order of their paths. -/
theorem changes_pushDiff (c : Coordinator β) (source props : Option String) :
    (c.pushDiff source props).changes.length ≤ 1 ∨ ∃ text artifact, source = some text ∧
      props = some artifact ∧
      (c.config.sourcePath < c.config.propsPath ∧ (c.pushDiff source props).changes =
          [.write c.config.sourcePath text, .write c.config.propsPath artifact] ∨
        c.config.propsPath < c.config.sourcePath ∧ (c.pushDiff source props).changes =
          [.write c.config.propsPath artifact, .write c.config.sourcePath text]) := by
  cases source with
  | none =>
    cases props with
    | none => exact .inl (Nat.zero_le 1)
    | some => exact .inl (Nat.le_refl 1)
  | some text =>
    cases props with
    | none => exact .inl (Nat.le_refl 1)
    | some artifact =>
      have hchanges : (c.pushDiff (some text) (some artifact)).changes =
          (insertEntry c.config.propsPath artifact [(c.config.sourcePath, text)]).map
            fun file => .write file.1 file.2 := rfl
      rw [hchanges, insertEntry]
      split
      · next hlt => exact .inr ⟨text, artifact, rfl, rfl, .inr ⟨hlt, rfl⟩⟩
      split
      · next hlt => exact .inr ⟨text, artifact, rfl, rfl, .inl ⟨hlt, rfl⟩⟩
      · exact .inl (Nat.le_refl 1)

/-- What a push that failed at an invalid path did to the buffer, and what is observed there next:
it did nothing, or it wrote the first of its two files. -/
inductive Stopped (c : Coordinator FolderBuffer) (s : Store) (path : String)
    (c' : Coordinator FolderBuffer) : Prop
  | untouched (hbuffer : c'.buffer = c.buffer) (hobserve : c'.observe.2 = c.observe.2) :
    Stopped c s path c'
  | source (hpath : path = c.config.propsPath) (horder : c.config.sourcePath < path)
    (hwritten : c.buffer.writeText c.config.sourcePath (c.moduleOf s).text = (c'.buffer, none))
    (hobserve : c'.observe.2 = .ok (if c.lastObserved = some (c.moduleOf s).text then none
      else some (c.moduleOf s).text)) : Stopped c s path c'
  | props (artifact : String) (hpath : path = c.config.sourcePath)
    (horder : c.config.propsPath < path)
    (hwritten : c.buffer.writeText c.config.propsPath artifact = (c'.buffer, none))
    (hobserve : c'.observe.2 = .error (.invalidPath path)) : Stopped c s path c'

theorem stopped_of_write {c c' : Coordinator FolderBuffer} (hopen : c.buffer.isOpen = true)
    (hunrecorded : Unrecorded c c') (hsource : ∀ text ∈ source, text = (c.moduleOf s).text)
    (h : Buffer.write c.buffer (c.pushDiff source props) = (c'.buffer, some (.invalidPath path))) :
    Stopped c s path c' := by
  rw [FolderBuffer.write_eq, FolderBuffer.performAll_eq_invalidPath_iff] at h
  obtain ⟨front, change, back, hchanges, ⟨rfl, hescapes⟩, hfront⟩ := h
  cases front with
  | nil =>
    have hbuffer : c'.buffer = c.buffer := (congrArg Prod.fst hfront).symm
    refine .untouched hbuffer ?_
    rw [observe_snd, observe_snd, currentSource, currentSource, hunrecorded.config,
      hunrecorded.lastObserved, hbuffer]
  | cons first front =>
    obtain hlength | ⟨text, artifact, rfl, rfl, hpair⟩ := c.changes_pushDiff source props
    · rw [hchanges] at hlength
      simp at hlength
    -- the change that fails is the second of the two
    have hsecond {x y : FileChange}
        (heq : (c.pushDiff (some text) (some artifact)).changes = [x, y]) :
        change = y ∧ c.buffer.perform x = (c'.buffer, none) := by
      rw [hchanges] at heq
      obtain ⟨rfl, htail⟩ := List.cons.inj heq
      cases front with
      | nil =>
        refine ⟨(List.cons.inj htail).1, ?_⟩
        rw [FolderBuffer.performAll] at hfront
        split at hfront
        · cases hfront
        · next b hperform => rw [hperform, ← hfront]; rfl
      | cons => simp at htail
    obtain ⟨horder, heq⟩ | ⟨horder, heq⟩ := hpair
    · obtain ⟨rfl, hwritten⟩ := hsecond heq
      rw [hsource text rfl] at hwritten
      refine .source rfl horder hwritten ?_
      have hread : c'.currentSource = .ok (some (c.moduleOf s).text) := by
        rw [currentSource, hunrecorded.config]
        exact FolderBuffer.textAt_of_writeText hopen hwritten
      rw [observe_snd, hread, hunrecorded.lastObserved]
      by_cases hseen : c.lastObserved = some (c.moduleOf s).text
      · simp [hseen, Except.map]
      · simp [hseen, Except.map]
    · obtain ⟨rfl, hwritten⟩ := hsecond heq
      refine .props artifact rfl horder hwritten ?_
      have hopen' := FolderBuffer.isOpen_of_writeText hopen hwritten
      have hread : c'.currentSource = .error (.invalidPath c.config.sourcePath) := by
        rw [currentSource, hunrecorded.config]
        exact FolderBuffer.textAt_of_escapes hopen' hescapes
      rw [observe_snd, hread]
      rfl

/-- A batch that fails at an invalid path has made the changes in front of it, and only those. A
push that fails so leaves the document and all that is remembered as it was; it did nothing, or it
wrote the file with the path that comes first. Where that was the source, it is taken for an
edit. -/
theorem write_push_of_invalidPath (b b' : FolderBuffer) (d : FileDiff)
    (c c' : Coordinator FolderBuffer) (s s' : Store) (path : String) :
    (Buffer.write b d = (b', some (.invalidPath path)) → ∃ front, b.StoppedAt d path b' front) ∧
    (c.push s = (c', s', .error (.invalidPath path)) →
      (s' = s ∧ Unrecorded c c') ∧ Stopped c s path c') := by
  constructor
  · intro hwrite
    exact FolderBuffer.stoppedAt_of_write hwrite
  · intro hpush
    obtain ⟨hopen, hfiles⟩ := push_eq_invalidPath hpush
    obtain ⟨hkept, source, props, hbatch, hsource⟩ := pushFiles_eq_error hfiles
    exact ⟨hkept, stopped_of_write hopen hkept.2 hsource hbatch⟩

/-- A batch of two files, the second with a path that might lead out of the folder. -/
def twoFiles : FileDiff :=
  ⟨(Dict.empty.insert "App.jsx" "new").insert "lib/../props.js" "props", []⟩

/-- A coordinator whose props module has a path that might lead out of the folder. -/
def badgeCoordinator : Coordinator FolderBuffer :=
  start FolderBuffer.bare { SyncConfig.default with propsPath := "lib/../props.js" }
    ⟨"new", "New", .component "badge", []⟩

theorem write_push_of_invalidPath_badge :
    let s := SyncTarget.badge [SyncTarget.labelProp "p" "New"] .element
    let b' := (Buffer.write FolderBuffer.bare twoFiles).1
    let c' := (badgeCoordinator.push s).1
    ((∃ front, FolderBuffer.bare.StoppedAt twoFiles "lib/../props.js" b' front) ∧
      ((badgeCoordinator.push s).2.1 = s ∧ Unrecorded badgeCoordinator c') ∧
      Stopped badgeCoordinator s "lib/../props.js" c') ∧
    badgeCoordinator.observe.2 = .ok none ∧
      c'.observe.2 = .ok (some (badgeCoordinator.moduleOf s).text) := by
  intro s b' c'
  have hwrite : Buffer.write FolderBuffer.bare twoFiles =
      (b', some (.invalidPath "lib/../props.js")) :=
    Prod.ext rfl (by decide +kernel)
  have houtcome : (badgeCoordinator.push s).2.2 = .error (.invalidPath "lib/../props.js") := by
    decide +kernel
  have hpush : badgeCoordinator.push s =
      (c', (badgeCoordinator.push s).2.1, .error (.invalidPath "lib/../props.js")) :=
    Prod.ext rfl (Prod.ext rfl houtcome)
  have hboth := write_push_of_invalidPath FolderBuffer.bare b' twoFiles badgeCoordinator c' s
    (badgeCoordinator.push s).2.1 "lib/../props.js"
  have hpushed := hboth.2 hpush
  refine ⟨⟨hboth.1 hwrite, hpushed⟩, by decide +kernel, ?_⟩
  cases hpushed.2 with
  | untouched hbuffer =>
    have hfile : c'.buffer.textAt "App.jsx" ≠ .ok none := by decide +kernel
    rw [hbuffer] at hfile
    exact absurd (by decide +kernel) hfile
  | source _ _ _ hobserve => exact hobserve
  | props _ hpath => exact absurd hpath (by decide)

/-- The first file of the batch is written although the batch fails at the second. -/
theorem write_twoFiles :
    (Buffer.write FolderBuffer.bare twoFiles).2 = some (.invalidPath "lib/../props.js") ∧
      FolderBuffer.bare.textAt "App.jsx" = .ok none ∧
      (Buffer.write FolderBuffer.bare twoFiles).1.textAt "App.jsx" = .ok (some "new") := by
  decide +kernel

end Coordinator

end DesignSync

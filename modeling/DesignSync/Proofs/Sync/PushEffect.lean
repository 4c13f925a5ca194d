import DesignSync.Proofs.Document.Revision
import DesignSync.Proofs.Sync.Rest

/-!
What a push does to buffer and document, and what it leaves alone. It writes one batch or none. The
source and the props module that stand in the buffer after a batch are those of the document as it
is then, also when only one of the two had changed: a source has the props module written beside it,
and recording the traces of a source changes nothing that is written.
-/

namespace DesignSync

namespace Coordinator

variable {c c' : Coordinator MemoryBuffer} {s s' : Store}

/-- The effect of a push that writes: one batch with the source, the props module or both, and new
traces in the document. -/
structure PushEffect (c : Coordinator MemoryBuffer) (s : Store) (c' : Coordinator MemoryBuffer)
    (s' : Store) (source : Bool) : Prop where
  config : c'.config = c.config
  target : c'.target = c.target
  writes : c'.buffer.writes = c.buffer.writes + 1
  others : ∀ path, path ≠ c.config.sourcePath → path ≠ c.config.propsPath →
    c'.buffer.file? path = c.buffer.file? path
  source : c'.buffer.file? c.config.sourcePath =
    if source then some (c'.moduleOf s').text else c.buffer.file? c.config.sourcePath
  props : ∀ artifact, s'.project c.target.scope = .ok artifact →
    c'.buffer.file? c.config.propsPath = some artifact.render
  untraced : s'.untraced = s.untraced
  revision : s'.revision = s.revision

/-- A push that writes has the props of the scope in its batch. Where they are the ones written last,
the source has changed and they are sent once more. -/
theorem PushedFrom.writtenProps?_eq (h : PushedFrom c s c') {artifact : Artifact}
    (hproject : s.project c.target.scope = .ok artifact) :
    c.writtenProps? s = some artifact.render := by
  have hpending : c.pendingProps? s = artifact.pending? c.lastProps := by
    rw [pendingProps?, hproject]
  by_cases hlast : c.lastProps = some artifact.render
  · have hnone : c.pendingProps? s = none := by
      rw [hpending, Artifact.pending?, if_pos hlast]
    have hsource : (c.writtenSource? s).isSome = true := by
      apply h.changed.resolve_right
      simp [hnone]
    rw [writtenProps?, hnone, Option.none_or, if_pos hsource, hlast]
  · have hsome : c.pendingProps? s = some artifact.render := by
      rw [hpending, Artifact.pending?, if_neg hlast]
    rw [writtenProps?, hsome, Option.some_or]

theorem PushedFrom.effect (h : PushedFrom c s c')
    (hpaths : c.config.sourcePath ≠ c.config.propsPath) (hs : s.Sound) :
    PushEffect c s c' (s.recordPaths (c.moduleOf s).traced).1
      (c.lastPushed != some (Text.collapsed (c.moduleOf s).text)) := by
  have huntraced := s.untraced_recordPaths (c.moduleOf s).traced
  have hrevision := congrArg Store.revision huntraced
  refine ⟨h.config, h.target, h.writes, ?_, ?_, ?_, huntraced, hrevision⟩
  · intro path hsource hprops
    rw [h.file?, if_neg hsource, if_neg hprops, Option.none_or, Option.none_or]
  · rw [h.file?, if_neg hpaths, if_pos rfl, Option.none_or, h.moduleOf_recordPaths hs, writtenSource?]
    by_cases hlast : c.lastPushed = some (Text.collapsed (c.moduleOf s).text)
    · simp [hlast]
    · simp [hlast]
  · intro artifact hproject
    rw [project_of_retraced (s.retraced_recordPaths _)] at hproject
    rw [h.file?, if_pos rfl, h.writtenProps?_eq hproject, Option.some_or, Option.some_or]

/-- A push with any outcome but that it has written leaves buffer and document as they are. One that
has written did so in one batch, which touches nothing but the source and the props module. The
source, if it is in the batch, is the module of the document after the push, and stays as it was
otherwise; the props module is the one of that document whenever its scope has props. The document
differs from the one before in traces only. -/
theorem push_effect (c : Coordinator MemoryBuffer)
    (hpaths : c.config.sourcePath ≠ c.config.propsPath) (h : s.Sound) :
    ((∀ source props, (c.push s).2.2 ≠ .ok (.pushed source props)) →
      (c.push s).1.buffer = c.buffer ∧ (c.push s).2.1 = s) ∧
    ∀ source props, (c.push s).2.2 = .ok (.pushed source props) →
      PushEffect c s (c.push s).1 (c.push s).2.1 source := by
  cases pushCase c s with
  | deferred hbusy hpush =>
    rw [hpush]
    exact ⟨fun _ => ⟨rfl, rfl⟩, nofun⟩
  | echo hrevision hpush =>
    rw [hpush]
    exact ⟨fun _ => ⟨rfl, rfl⟩, nofun⟩
  | notInitialized hfiles hpush =>
    rw [hpush]
    exact ⟨fun _ => ⟨rfl, rfl⟩, nofun⟩
  | unchanged hlast hpush =>
    rw [hpush]
    exact ⟨fun _ => ⟨rfl, rfl⟩, nofun⟩
  | pushed files c' props hfiles hread hpush hfrom =>
    rw [hpush]
    refine ⟨fun hother => absurd rfl (hother _ _), ?_⟩
    intro source props' houtcome
    cases houtcome
    exact hfrom.effect hpaths h

/-- The first push into a buffer writes the source; before the buffer is open, a push leaves it and
the document alone. -/
theorem push_effect_hero :
    let opened : Coordinator MemoryBuffer :=
      { heroCoordinator with buffer := MemoryBuffer.fresh.opened }
    (∃ props, (opened.push heroDocument).2.2 = .ok (.pushed true props) ∧
      PushEffect opened heroDocument (opened.push heroDocument).1 (opened.push heroDocument).2.1
        true) ∧
    (heroCoordinator.push heroDocument).1.buffer = MemoryBuffer.fresh ∧
      (heroCoordinator.push heroDocument).2.1 = heroDocument := by
  intro opened
  have hsound : heroDocument.Sound := Store.empty_sound.addElement _
  constructor
  · obtain ⟨c', props, hwrites, -⟩ := pushFiles_of_changed (c := opened) (s := heroDocument) nofun
    have hfiles : opened.buffer.files = some Dict.empty := rfl
    have hpush : opened.push heroDocument = opened.pushFiles heroDocument :=
      push_eq_pushFiles nofun nofun hfiles rfl
    have houtcome : (opened.push heroDocument).2.2 = .ok (.pushed true props) := by
      rw [hpush, hwrites]
      rfl
    exact ⟨props, houtcome, (push_effect opened (by decide) hsound).2 true props houtcome⟩
  · exact (push_effect heroCoordinator (by decide) hsound).1 nofun

end Coordinator

end DesignSync

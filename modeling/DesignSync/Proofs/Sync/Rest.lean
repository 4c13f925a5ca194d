import DesignSync.Proofs.Markup.TraceBlind
import DesignSync.Proofs.Sync.Inbound

/-!
Coming to rest. While nobody edits the buffer and nobody changes the document, one pull and one push
bring the two in step, and no push or pull after them writes anything. The main statement holds from
every state of a coordinator.
-/

namespace DesignSync

open Markup

/-- What can be called on a coordinator while nobody else does anything. -/
inductive SyncCall where
  | push
  | pull
deriving DecidableEq, Repr

namespace Coordinator

section Calls

variable {β : Type} [Buffer β]

/-- Coordinator and document after a call. -/
def call (state : Coordinator β × Store) : SyncCall → Coordinator β × Store
  | .push => let r := state.1.push state.2; (r.1, r.2.1)
  | .pull => let r := state.1.pull state.2; (r.1, r.2.1)

def calls (state : Coordinator β × Store) (cs : List SyncCall) : Coordinator β × Store :=
  cs.foldl call state

end Calls

variable {c : Coordinator MemoryBuffer} {s : Store}

/-! ### What a batch leaves -/

/-- A batch that removes nothing leaves at each path what it has there, or else what was there. -/
theorem file?_write_of_destroy_nil (b : MemoryBuffer) {d : FileDiff} (hd : d.destroy = [])
    (path : String) : (Buffer.write b d).1.file? path = (d.create.get? path).or (b.file? path) := by
  change ((((b.files.getD Dict.empty).filter fun p _ => !d.destroy.contains p).extend
    d.create).get? path) = _
  have hkept : ((b.files.getD Dict.empty).filter fun p _ => !d.destroy.contains p).get? path =
      b.file? path := by
    rw [hd, Dict.get?_filter, MemoryBuffer.file?]
    cases b.files with
    | none => rfl
    | some files =>
      change (files.get? path).filter (fun _ => true) = files.get? path
      cases files.get? path <;> rfl
  rw [Dict.get?_extend, hkept]

theorem get?_create_pushDiff (source props : Option String) (path : String) :
    (c.pushDiff source props).create.get? path =
      (if path = c.config.propsPath then props else none).or
        (if path = c.config.sourcePath then source else none) := by
  cases source <;> cases props <;> simp only [pushDiff, Option.elim, Dict.get?_insert] <;>
    split <;> simp

theorem file?_write (hpaths : c.config.sourcePath ≠ c.config.propsPath)
    (source props : Option String) :
    (Buffer.write c.buffer (c.pushDiff source props)).1.file? c.config.sourcePath =
      source.or (c.buffer.file? c.config.sourcePath) := by
  rw [file?_write_of_destroy_nil c.buffer rfl, get?_create_pushDiff, if_neg hpaths, if_pos rfl,
    Option.none_or]

/-! ### What a push does -/

theorem pushFiles_of_same (hlast : c.lastPushed = some (Text.collapsed (c.moduleOf s).text))
    (hprops : c.pendingProps? s = none) :
    c.pushFiles s = (c.report (c.moduleOf s).diagnostics, s, .ok .unchanged) := by
  have hsame : ((c.report (c.moduleOf s).diagnostics).lastPushed !=
      some (Text.collapsed (c.moduleOf s).text)) = false := by
    simp [report, hlast]
  have hpending : (c.report (c.moduleOf s).diagnostics).pendingProps? s = none := hprops
  simp [pushFiles, hsame, hpending]

/-- The source that a push writes, if it takes the module to have changed. -/
def writtenSource? (c : Coordinator MemoryBuffer) (s : Store) : Option String :=
  if c.lastPushed = some (Text.collapsed (c.moduleOf s).text) then none
  else some (c.moduleOf s).text

/-- The props module that a push writes: another one than last time, or the same again beside a
source. -/
def writtenProps? (c : Coordinator MemoryBuffer) (s : Store) : Option String :=
  (c.pendingProps? s).or (if (c.writtenSource? s).isSome then c.lastProps else none)

/-- What a push that writes leaves behind. -/
structure PushedFrom (c : Coordinator MemoryBuffer) (s : Store) (c' : Coordinator MemoryBuffer) :
    Prop where
  config : c'.config = c.config
  target : c'.target = c.target
  phase : c'.phase = .idle
  inboundRevision : c'.inboundRevision = c.inboundRevision
  lastPushed : c'.lastPushed = some (Text.collapsed (c.moduleOf s).text)
  lastObserved : c'.lastObserved = (c.writtenSource? s).or c.lastObserved
  lastProps : c'.lastProps = (c.pendingProps? s).or c.lastProps
  buffer : c'.buffer =
    (Buffer.write c.buffer (c.pushDiff (c.writtenSource? s) (c.writtenProps? s))).1
  changed : (c.writtenSource? s).isSome = true ∨ (c.pendingProps? s).isSome = true

namespace PushedFrom

variable {c' : Coordinator MemoryBuffer}

theorem writes (h : PushedFrom c s c') : c'.buffer.writes = c.buffer.writes + 1 := by
  rw [h.buffer]
  rfl

theorem file? (h : PushedFrom c s c') (path : String) :
    c'.buffer.file? path =
      ((if path = c.config.propsPath then c.writtenProps? s else none).or
        (if path = c.config.sourcePath then c.writtenSource? s else none)).or
          (c.buffer.file? path) := by
  rw [h.buffer, file?_write_of_destroy_nil c.buffer rfl, get?_create_pushDiff]

theorem source (h : PushedFrom c s c') (hpaths : c.config.sourcePath ≠ c.config.propsPath) :
    if c.lastPushed = some (Text.collapsed (c.moduleOf s).text) then
      c'.lastObserved = c.lastObserved ∧
        c'.buffer.file? c.config.sourcePath = c.buffer.file? c.config.sourcePath
    else
      c'.lastObserved = some (c.moduleOf s).text ∧
        c'.buffer.file? c.config.sourcePath = some (c.moduleOf s).text := by
  rw [h.lastObserved, h.file?, if_neg hpaths, if_pos rfl, Option.none_or, writtenSource?]
  split
  · exact ⟨Option.none_or, Option.none_or⟩
  · exact ⟨rfl, rfl⟩

end PushedFrom

theorem pushFiles_of_changed
    (h : ¬(c.lastPushed = some (Text.collapsed (c.moduleOf s).text) ∧ c.pendingProps? s = none)) :
    ∃ c' props,
      c.pushFiles s = (c', (s.recordPaths (c.moduleOf s).traced).1,
          .ok (.pushed (c.lastPushed != some (Text.collapsed (c.moduleOf s).text)) props)) ∧
        PushedFrom c s c' := by
  have hpending : (c.report (c.moduleOf s).diagnostics).pendingProps? s = c.pendingProps? s := rfl
  have hchanged : (!((c.report (c.moduleOf s).diagnostics).lastPushed !=
      some (Text.collapsed (c.moduleOf s).text)) && (c.pendingProps? s).isNone) = false := by
    cases hp : c.pendingProps? s with
    | some _ => simp
    | none =>
      have hne : c.lastPushed ≠ some (Text.collapsed (c.moduleOf s).text) := fun heq => h ⟨heq, hp⟩
      simp [report, hne]
  simp only [pushFiles, hpending, hchanged, Bool.false_eq_true, if_false]
  refine ⟨_, _, rfl, ?_⟩
  by_cases hlast : c.lastPushed = some (Text.collapsed (c.moduleOf s).text)
  · have hsame : ((c.report (c.moduleOf s).diagnostics).lastPushed !=
        some (Text.collapsed (c.moduleOf s).text)) = false := by
      simp [report, hlast]
    have hsource : c.writtenSource? s = none := if_pos hlast
    have hprops : (c.pendingProps? s).isSome = true := by
      rw [Option.isSome_iff_ne_none]
      exact fun hp => h ⟨hlast, hp⟩
    refine ⟨rfl, rfl, rfl, rfl, ?_, ?_, rfl, ?_, .inr hprops⟩
    · simp [report, hlast]
    · simp only [hsource, hsame, Bool.false_eq_true, if_false]
      rfl
    · simp only [writtenProps?, hsource, hsame, Option.isSome_none, Bool.false_eq_true, if_false]
      rfl
  · have hother : ((c.report (c.moduleOf s).diagnostics).lastPushed !=
        some (Text.collapsed (c.moduleOf s).text)) = true := by
      simp [report, hlast]
    have hsource : c.writtenSource? s = some (c.moduleOf s).text := if_neg hlast
    refine ⟨rfl, rfl, rfl, rfl, ?_, ?_, rfl, ?_, .inl (by rw [hsource]; rfl)⟩
    · simp [hother]
    · simp only [hsource, hother, if_true]
      rfl
    · simp only [writtenProps?, hsource, hother, Option.isSome_some, if_true]
      rfl

/-- A push that comes to the point of comparing. -/
theorem pushFinding_eq_pushFiles {files : Files} (hphase : c.phase ≠ .pullingIn)
    (hrevision : c.inboundRevision ≠ some s.revision) (hread : c.hasUnreadEdit files = false) :
    c.pushFinding s (.ok (some files)) = c.pushFiles s := by
  simp [pushFinding, hphase, hrevision, hread]

theorem push_eq_pushFinding {files : Files} (s : Store) (hfiles : c.buffer.files = some files) :
    c.push s = c.pushFinding s (.ok (some files)) :=
  congrArg (c.pushFinding s) (congrArg Except.ok hfiles)

theorem push_eq_pushFiles {files : Files} (hphase : c.phase ≠ .pullingIn)
    (hrevision : c.inboundRevision ≠ some s.revision) (hfiles : c.buffer.files = some files)
    (hread : c.hasUnreadEdit files = false) : c.push s = c.pushFiles s :=
  (push_eq_pushFinding s hfiles).trans (pushFinding_eq_pushFiles hphase hrevision hread)

/-- A push that finds an edit that was not pulled waits for it. -/
theorem pushFinding_of_unread {files : Files} (hrevision : c.inboundRevision ≠ some s.revision)
    (hunread : c.hasUnreadEdit files = true) :
    c.pushFinding s (.ok (some files)) = (c, s, .ok .deferred) := by
  simp [pushFinding, hrevision, hunread]

/-- What a push does that has found these files: it writes only what it takes to be a change, where
nothing unread stands. -/
inductive FindingCase (c : Coordinator MemoryBuffer) (s : Store) (files : Files) : Prop
  | deferred (hbusy : c.phase = .pullingIn ∨ c.hasUnreadEdit files = true)
      (hpush : c.pushFinding s (.ok (some files)) = (c, s, .ok .deferred))
  | echo (hrevision : c.inboundRevision = some s.revision)
      (hpush : c.pushFinding s (.ok (some files)) = (c, s, .ok .echo))
  | unchanged (hlast : c.lastPushed = some (Text.collapsed (c.moduleOf s).text))
      (hpush : c.pushFinding s (.ok (some files)) =
        (c.report (c.moduleOf s).diagnostics, s, .ok .unchanged))
  | pushed (c' : Coordinator MemoryBuffer) (props : Bool) (hread : c.hasUnreadEdit files = false)
      (hpush : c.pushFinding s (.ok (some files)) =
        (c', (s.recordPaths (c.moduleOf s).traced).1,
          .ok (.pushed (c.lastPushed != some (Text.collapsed (c.moduleOf s).text)) props)))
      (hfrom : PushedFrom c s c')

theorem findingCase (c : Coordinator MemoryBuffer) (s : Store) (files : Files) :
    FindingCase c s files := by
  by_cases hphase : c.phase = .pullingIn
  · exact .deferred (.inl hphase) (if_pos hphase)
  by_cases hrevision : c.inboundRevision = some s.revision
  · exact .echo hrevision ((if_neg hphase).trans (if_pos hrevision))
  cases hunread : c.hasUnreadEdit files with
  | true => exact .deferred (.inr hunread) (pushFinding_of_unread hrevision hunread)
  | false =>
    have hpush := pushFinding_eq_pushFiles hphase hrevision hunread
    by_cases hsame : c.lastPushed = some (Text.collapsed (c.moduleOf s).text) ∧
        c.pendingProps? s = none
    · exact .unchanged hsame.1 (hpush.trans (pushFiles_of_same hsame.1 hsame.2))
    · obtain ⟨c', props, hwrites, hfrom⟩ := pushFiles_of_changed hsame
      exact .pushed c' props hunread (hpush.trans hwrites) hfrom

/-- What a push does. -/
inductive PushCase (c : Coordinator MemoryBuffer) (s : Store) : Prop
  | deferred (hbusy : c.phase = .pullingIn ∨
      ∃ files, c.buffer.files = some files ∧ c.hasUnreadEdit files = true)
      (hpush : c.push s = (c, s, .ok .deferred))
  | echo (hrevision : c.inboundRevision = some s.revision) (hpush : c.push s = (c, s, .ok .echo))
  | notInitialized (hfiles : c.buffer.files = none) (hpush : c.push s = (c, s, .ok .notInitialized))
  | unchanged (hlast : c.lastPushed = some (Text.collapsed (c.moduleOf s).text))
      (hpush : c.push s = (c.report (c.moduleOf s).diagnostics, s, .ok .unchanged))
  | pushed (files : Files) (c' : Coordinator MemoryBuffer) (props : Bool)
      (hfiles : c.buffer.files = some files) (hread : c.hasUnreadEdit files = false)
      (hpush : c.push s = (c', (s.recordPaths (c.moduleOf s).traced).1,
        .ok (.pushed (c.lastPushed != some (Text.collapsed (c.moduleOf s).text)) props)))
      (hfrom : PushedFrom c s c')

theorem pushCase (c : Coordinator MemoryBuffer) (s : Store) : PushCase c s := by
  cases hfiles : c.buffer.files with
  | none =>
    by_cases hphase : c.phase = .pullingIn
    · exact .deferred (.inl hphase) (if_pos hphase)
    by_cases hrevision : c.inboundRevision = some s.revision
    · exact .echo hrevision ((if_neg hphase).trans (if_pos hrevision))
    have hreadAll : Buffer.readAll c.buffer = .ok none := congrArg _ hfiles
    exact .notInitialized hfiles (by simp [push, pushFinding, hphase, hrevision, hreadAll])
  | some files =>
    have hfound := push_eq_pushFinding s hfiles
    cases c.findingCase s files with
    | deferred hbusy hpush =>
      exact .deferred (hbusy.imp id fun hunread => ⟨files, hfiles, hunread⟩) (hfound.trans hpush)
    | echo hrevision hpush => exact .echo hrevision (hfound.trans hpush)
    | unchanged hlast hpush => exact .unchanged hlast (hfound.trans hpush)
    | pushed c' props hread hpush hfrom =>
      exact .pushed files c' props hfiles hread (hfound.trans hpush) hfrom

/-! ### What a pull does -/

theorem observeFinding_cases (c : Coordinator MemoryBuffer)
    (found : Except BufferError (Option String)) :
    (c.observeFinding found).1 = c ∨ (c.observeFinding found).1 = { c with phase := .pullingIn } := by
  unfold observeFinding
  split
  · exact .inl rfl
  · exact .inl rfl
  · split
    · exact .inl rfl
    · exact .inr rfl

theorem observe_cases (c : Coordinator MemoryBuffer) :
    c.observe.1 = c ∨ c.observe.1 = { c with phase := .pullingIn } :=
  c.observeFinding_cases c.currentSource

/-- Writing the props module leaves all but the buffer and the memory of that module. -/
theorem refreshProps_cases (c : Coordinator MemoryBuffer) (s : Store) :
    c.refreshProps s = c ∨ ∃ props, c.pendingProps? s = some props ∧
      c.refreshProps s = { c with
        buffer := (Buffer.write c.buffer (c.pushDiff none (some props))).1
        lastProps := some props } := by
  unfold refreshProps
  cases hprops : c.pendingProps? s with
  | none => exact .inl rfl
  | some props => exact .inr ⟨props, rfl, rfl⟩

/-- What taking a source in leaves behind. -/
structure PulledFrom (c : Coordinator MemoryBuffer) (source : String)
    (c' : Coordinator MemoryBuffer) : Prop where
  config : c'.config = c.config
  phase : c'.phase = .idle
  lastObserved : c'.lastObserved = some source
  writes : c'.buffer.writes ≤ c.buffer.writes + 1
  source : c.config.sourcePath ≠ c.config.propsPath →
    c'.buffer.file? c.config.sourcePath = c.buffer.file? c.config.sourcePath

/-- Taking a source in writes the props at most. -/
theorem buffer_applySource (c : Coordinator MemoryBuffer) (s : Store) (source : String) :
    (c.applySource s source).1.buffer = c.buffer ∨ ∃ props,
      (c.applySource s source).1.buffer
        = (Buffer.write c.buffer ⟨Dict.empty.insert c.config.propsPath props, []⟩).1 := by
  unfold applySource
  cases read source c.config.sourcePath (c.target.bindingContext s) with
  | error e => exact .inl rfl
  | ok tree =>
    obtain ⟨c', s', updated, removed, htaken, hbuffer, hconfig, -⟩ := c.applyTree_eq s tree
    simp only [htaken]
    obtain hkept | ⟨props, -, hwritten⟩ := c'.refreshProps_cases s'
    · rw [hkept]
      exact .inl hbuffer
    · rw [hwritten, ← hbuffer, ← hconfig]
      exact .inr ⟨props, rfl⟩

theorem applySource_pulledFrom (c : Coordinator MemoryBuffer) (s : Store) (source : String) :
    PulledFrom c source (c.applySource s source).1 := by
  unfold applySource
  cases read source c.config.sourcePath (c.target.bindingContext s) with
  | error e => exact ⟨rfl, rfl, rfl, Nat.le_succ _, fun _ => rfl⟩
  | ok tree =>
    obtain ⟨c', s', updated, removed, htaken, hbuffer, hconfig, -⟩ := c.applyTree_eq s tree
    simp only [htaken]
    obtain hkept | ⟨props, -, hwritten⟩ := c'.refreshProps_cases s'
    · rw [hkept]
      exact ⟨hconfig, rfl, rfl, hbuffer ▸ Nat.le_succ _, fun _ => hbuffer ▸ rfl⟩
    · rw [hwritten]
      refine ⟨hconfig, rfl, rfl, hbuffer ▸ Nat.le_refl _, fun hpaths => ?_⟩
      rw [← hconfig] at hpaths ⊢
      rw [← hbuffer]
      exact file?_write hpaths none _

/-! ### At rest -/

/-- Whether the source in the buffer, if there is one, has been seen. -/
def HasSeen (c : Coordinator MemoryBuffer) : Prop :=
  ∀ source, c.buffer.file? c.config.sourcePath = some source → c.lastObserved = some source

/-- Whether a push has a reason to write nothing. -/
def HasPushed (c : Coordinator MemoryBuffer) (s : Store) : Prop :=
  c.phase = .pullingIn ∨ c.inboundRevision = some s.revision ∨ c.buffer.files = none ∨
    c.lastPushed = some (Text.collapsed (c.moduleOf s).text) ∧ c.pendingProps? s = none

structure AtRest (c : Coordinator MemoryBuffer) (s : Store) : Prop where
  seen : c.HasSeen
  pushed : c.HasPushed s

theorem HasSeen.observe (h : c.HasSeen) : c.observe = (c, .ok none) := by
  have hcurrent : c.currentSource = .ok (c.buffer.file? c.config.sourcePath) := rfl
  unfold Coordinator.observe
  rw [hcurrent]
  cases hfile : c.buffer.file? c.config.sourcePath with
  | none => rfl
  | some source => exact if_pos (h source hfile)

theorem HasSeen.hasUnreadEdit (h : c.HasSeen) {files : Files} (hfiles : c.buffer.files = some files) :
    c.hasUnreadEdit files = false := by
  unfold Coordinator.hasUnreadEdit
  split
  · next observed current hobserved hcurrent =>
    have hseen := h current (by rw [MemoryBuffer.file?, hfiles]; exact hcurrent)
    rw [hobserved] at hseen
    cases hseen
    simp
  · rfl

/-- A pull of a source that has been seen does nothing. -/
theorem HasSeen.pull (h : c.HasSeen) (s : Store) : ∃ outcome, c.pull s = (c, s, .ok outcome) := by
  have hread : Buffer.readAll c.buffer = .ok c.buffer.files := rfl
  unfold Coordinator.pull
  rw [hread]
  cases c.buffer.files with
  | none => exact ⟨_, rfl⟩
  | some files =>
    dsimp only
    rw [h.observe]
    exact ⟨_, rfl⟩

/-- A push at rest does nothing but report what it could not write. -/
theorem AtRest.push (h : AtRest c s) :
    ∃ found outcome, c.push s = ({ c with diagnostics := found }, s, .ok outcome) := by
  by_cases hphase : c.phase = .pullingIn
  · exact ⟨_, _, if_pos hphase⟩
  by_cases hrevision : c.inboundRevision = some s.revision
  · exact ⟨_, _, (if_neg hphase).trans (if_pos hrevision)⟩
  cases hfiles : c.buffer.files with
  | none =>
    have hread : Buffer.readAll c.buffer = .ok none := congrArg _ hfiles
    exact ⟨c.diagnostics, .notInitialized, by simp [Coordinator.push, pushFinding, hphase, hrevision, hread]⟩
  | some files =>
    obtain hphase' | hrevision' | hnone | ⟨hlast, hprops⟩ := h.pushed
    · exact absurd hphase' hphase
    · exact absurd hrevision' hrevision
    · rw [hfiles] at hnone
      cases hnone
    refine ⟨(c.report (c.moduleOf s).diagnostics).diagnostics, .unchanged, ?_⟩
    exact (push_eq_pushFiles hphase hrevision hfiles (h.seen.hasUnreadEdit hfiles)).trans
      (pushFiles_of_same hlast hprops)

/-- From rest on no call changes the buffer or the document. -/
theorem AtRest.calls (h : AtRest c s) (cs : List SyncCall) :
    ∃ found, Coordinator.calls (c, s) cs = ({ c with diagnostics := found }, s) := by
  induction cs generalizing c with
  | nil => exact ⟨_, rfl⟩
  | cons a cs ih =>
    have hstep : ∃ found, Coordinator.call (c, s) a = ({ c with diagnostics := found }, s) := by
      cases a with
      | push =>
        obtain ⟨found, outcome, hpush⟩ := h.push
        exact ⟨found, by simp only [call, hpush]⟩
      | pull =>
        obtain ⟨outcome, hpull⟩ := h.seen.pull s
        exact ⟨c.diagnostics, by simp only [call, hpull]⟩
    obtain ⟨found, hstep⟩ := hstep
    -- what is reported has no part in being at rest
    have hrest : AtRest { c with diagnostics := found } s := ⟨h.seen, h.pushed⟩
    obtain ⟨found', hcalls⟩ := ih hrest
    refine ⟨found', ?_⟩
    rw [Coordinator.calls, List.foldl_cons, hstep]
    exact hcalls

/-! ### Coming to rest -/

/-- A pull takes the source in the buffer in, unless it has been seen. -/
theorem pull_cases (c : Coordinator MemoryBuffer) (s : Store) :
    (c.HasSeen ∧ ∃ outcome, c.pull s = (c, s, .ok outcome)) ∨
      ∃ source, c.buffer.file? c.config.sourcePath = some source ∧
        c.pull s = ((({ c with phase := .pullingIn } : Coordinator MemoryBuffer).applySource s
            source).1,
          (({ c with phase := .pullingIn } : Coordinator MemoryBuffer).applySource s source).2.1,
          .ok (({ c with phase := .pullingIn } : Coordinator MemoryBuffer).applySource s
            source).2.2) := by
  by_cases hseen : c.HasSeen
  · exact .inl ⟨hseen, hseen.pull s⟩
  · unfold HasSeen at hseen
    push Not at hseen
    obtain ⟨source, hfile, hother⟩ := hseen
    refine .inr ⟨source, hfile, ?_⟩
    obtain ⟨files, hfiles, -⟩ := Option.bind_eq_some_iff.1 hfile
    have hread : Buffer.readAll c.buffer = .ok (some files) := congrArg _ hfiles
    have hcurrent : c.currentSource = .ok (some source) := congrArg _ hfile
    simp [Coordinator.pull, hread, Coordinator.observe, observeFinding, hcurrent, hother]

/-- After a pull the source in the buffer has been seen. -/
theorem hasSeen_pull (hpaths : c.config.sourcePath ≠ c.config.propsPath) (h : s.Sound) :
    (c.pull s).1.HasSeen ∧ (c.pull s).1.config = c.config ∧ (c.pull s).2.1.Sound ∧
      (c.pull s).1.buffer.writes ≤ c.buffer.writes + 1 := by
  obtain ⟨hseen, outcome, hpull⟩ | ⟨source, hfile, hpull⟩ := c.pull_cases s
  · rw [hpull]
    exact ⟨hseen, rfl, h, Nat.le_succ _⟩
  · rw [hpull]
    have hpulled := applySource_pulledFrom { c with phase := .pullingIn } s source
    refine ⟨fun source' hfile' => ?_, hpulled.config, sound_applySource _ h source, hpulled.writes⟩
    rw [hpulled.config, hpulled.source hpaths] at hfile'
    rw [hpulled.lastObserved]
    exact hfile.symm.trans hfile'

/-- What bindings can refer to does not depend on traces. -/
theorem bindingContext_of_retraced {named : List String} {s' : Store}
    (h : Store.Retraced named s s') (target : SyncTarget) :
    target.bindingContext s' = target.bindingContext s := by
  have hcomponent (id : String) : s'.component? id = s.component? id := by
    rw [Store.component?, h.components]
    rfl
  have hscope : target.component? s' = target.component? s := by
    unfold SyncTarget.component?
    cases target.scope with
    | none => rfl
    | component id => exact hcomponent id
    | inst id =>
      obtain ⟨hnone, hnone'⟩ | ⟨e, e', he, he', -, href⟩ := h.element?_cases id
      · simp only [hnone, hnone']
        rfl
      · simp only [he, he', Option.bind_some, href]
        exact bind_congr hcomponent
  rw [SyncTarget.bindingContext, hscope]
  rfl

/-- Nor do the props of a scope. -/
theorem project_of_retraced {named : List String} {s' : Store} (h : Store.Retraced named s s')
    (scope : Scope) : s'.project scope = s.project scope := by
  have hcomponent (id : String) : s'.component? id = s.component? id := by
    rw [Store.component?, h.components]
    rfl
  have hoverrides (id : String) : s'.instanceOverrides? id = s.instanceOverrides? id := by
    rw [Store.instanceOverrides?, h.overrides]
    rfl
  cases scope with
  | none => rfl
  | component id => simp only [Store.project, hcomponent]
  | inst id =>
    obtain ⟨hnone, hnone'⟩ | ⟨e, e', he, he', hkind, href⟩ := h.element?_cases id
    · simp only [Store.project, hnone, hnone']
    · simp only [Store.project, he, he', hkind, href, hcomponent, hoverrides]

theorem moduleOf_recordPaths (h : s.Sound) :
    c.moduleOf (s.recordPaths (c.moduleOf s).traced).1 = c.moduleOf s := by
  have hcontext := bindingContext_of_retraced (s.retraced_recordPaths (c.moduleOf s).traced) c.target
  unfold moduleOf at hcontext ⊢
  rw [hcontext]
  exact h.writeModule_recordPaths c.target.root c.target.moduleName

/-- A push that writes leaves the module as it was. -/
theorem PushedFrom.moduleOf_recordPaths {c' : Coordinator MemoryBuffer} (h : PushedFrom c s c')
    (hs : s.Sound) : c'.moduleOf (s.recordPaths (c.moduleOf s).traced).1 = c.moduleOf s := by
  have hsame := Coordinator.moduleOf_recordPaths (c := c) hs
  unfold moduleOf at hsame ⊢
  rw [h.target]
  exact hsame

theorem PushedFrom.pendingProps?_eq_none {c' : Coordinator MemoryBuffer} (h : PushedFrom c s c')
    {named : List String} {s' : Store} (hretraced : Store.Retraced named s s') :
    c'.pendingProps? s' = none := by
  unfold pendingProps?
  rw [h.target, project_of_retraced hretraced, h.lastProps]
  unfold pendingProps? Artifact.pending?
  cases s.project c.target.scope with
  | error e => rfl
  | ok artifact =>
    dsimp only
    by_cases hlast : c.lastProps = some artifact.render
    · simp [hlast]
    · simp [hlast]

/-- After a push that follows a pull, coordinator and document are at rest. -/
theorem atRest_push (hpaths : c.config.sourcePath ≠ c.config.propsPath) (h : s.Sound)
    (hseen : c.HasSeen) :
    AtRest (c.push s).1 (c.push s).2.1 ∧ (c.push s).1.buffer.writes ≤ c.buffer.writes + 1 := by
  by_cases hpushed : c.HasPushed s
  · obtain ⟨found, outcome, hpush⟩ := AtRest.push ⟨hseen, hpushed⟩
    rw [hpush]
    exact ⟨⟨hseen, hpushed⟩, Nat.le_succ _⟩
  · unfold HasPushed at hpushed
    push Not at hpushed
    obtain ⟨hphase, hrevision, hfiles, hchanged⟩ := hpushed
    obtain ⟨files, hfiles⟩ := Option.ne_none_iff_exists'.1 hfiles
    obtain ⟨c', props, hpush, hfrom⟩ := pushFiles_of_changed (not_and.2 hchanged)
    rw [push_eq_pushFiles hphase hrevision hfiles (hseen.hasUnreadEdit hfiles), hpush]
    have hretraced := s.retraced_recordPaths (c.moduleOf s).traced
    refine ⟨⟨fun source hfile => ?_, .inr (.inr (.inr ⟨?_, ?_⟩))⟩, Nat.le_of_eq hfrom.writes⟩
    · have hsource := hfrom.source hpaths
      rw [hfrom.config] at hfile
      split at hsource
      · rw [hsource.1]
        exact hseen source (hsource.2.symm.trans hfile)
      · rw [hsource.1]
        exact hsource.2.symm.trans hfile
    · rw [hfrom.moduleOf_recordPaths h]
      exact hfrom.lastPushed
    · exact hfrom.pendingProps?_eq_none hretraced

/-- While nobody edits the buffer and nobody changes the document, one pull and one push bring the
two to rest with two batches at most, and no call after them writes anything or changes the
document. -/
theorem calls_after_pull_push (c : Coordinator MemoryBuffer)
    (hpaths : c.config.sourcePath ≠ c.config.propsPath) (h : s.Sound) (cs : List SyncCall) :
    let settled := calls (c, s) [.pull, .push]
    settled.1.buffer.writes ≤ c.buffer.writes + 2 ∧
      (calls settled cs).1.buffer = settled.1.buffer ∧ (calls settled cs).2 = settled.2 := by
  obtain ⟨hseen, hconfig, hsound, hpulled⟩ := hasSeen_pull hpaths h
  obtain ⟨hrest, hpushed⟩ := atRest_push (hconfig ▸ hpaths) hsound hseen
  obtain ⟨found, hcalls⟩ := hrest.calls cs
  have hsettled : calls (c, s) [.pull, .push] =
      (((c.pull s).1.push (c.pull s).2.1).1, ((c.pull s).1.push (c.pull s).2.1).2.1) := rfl
  dsimp only
  rw [hsettled, hcalls]
  exact ⟨by dsimp only; omega, rfl, rfl⟩

theorem calls_after_pull_push_hero :
    let edited : Coordinator MemoryBuffer :=
      { heroCoordinator with buffer := MemoryBuffer.fresh.setFile "App.jsx" "<section" }
    let settled := calls (edited, heroDocument) [.pull, .push]
    settled.1.buffer.writes ≤ 0 + 2 ∧
      (calls settled [.push, .pull, .push]).1.buffer = settled.1.buffer ∧
        (calls settled [.push, .pull, .push]).2 = settled.2 :=
  calls_after_pull_push { heroCoordinator with buffer := MemoryBuffer.fresh.setFile "App.jsx" "<section" }
    (by decide) (Store.empty_sound.addElement _) [.push, .pull, .push]

end Coordinator

end DesignSync

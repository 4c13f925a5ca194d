import DesignSync.Proofs.Sync.Pushing
import DesignSync.Proofs.Sync.Unread
import DesignSync.Sync.Timeline

/-!
Changes of the document in a session. The task is told of a change once and answers with one push.
If that push goes through, the buffer has what the document says by the time the task is at rest
again. If the push is put off for the sake of an edit in the buffer, it is the edit that has to
bring document and buffer together: should the edit be undone before a poll sees it, or turn out to
be unreadable, then nothing pushes the change until the next one comes.
-/

namespace DesignSync

open Markup

namespace Coordinator

variable {c : Coordinator MemoryBuffer} {s : Store}

/-- Whether the buffer was brought in step with the document as it is: it is as the last pull left
it, or its module has the words of the source that the buffer was last brought in step with. -/
def Reflects (c : Coordinator MemoryBuffer) (s : Store) : Prop :=
  c.inboundRevision = some s.revision ∨ c.lastPushed = some (Text.collapsed (c.moduleOf s).text)

/-- Whether a push was put off for the sake of an edit. -/
def isDeferred : Except BufferError PushOutcome → Bool
  | .ok .deferred => true
  | _ => false

/-! ### Pushing -/

/-- What a push keeps and does, whatever became of the files that it has found. -/
structure Pushing (c : Coordinator MemoryBuffer) (s : Store) (files : Files) : Prop where
  opened : (c.pushFinding s (.ok (some files))).1.buffer.files.isSome = true
  sound : (c.pushFinding s (.ok (some files))).2.1.Sound
  reflects : isDeferred (c.pushFinding s (.ok (some files))).2.2 = false →
    (c.pushFinding s (.ok (some files))).1.Reflects (c.pushFinding s (.ok (some files))).2.1

/-- A push leaves an open buffer and a sound document; if it was not put off, the buffer has what
the document says. -/
theorem pushing (hopened : c.buffer.files.isSome = true) (hs : s.Sound) (files : Files) :
    Pushing c s files := by
  cases c.findingCase s files with
  | deferred _ hpush =>
    refine ⟨?_, ?_, fun hdone => ?_⟩ <;> rw [hpush] at *
    · exact hopened
    · exact hs
    · cases hdone
  | echo hrevision hpush =>
    refine ⟨?_, ?_, fun _ => ?_⟩ <;> rw [hpush]
    · exact hopened
    · exact hs
    · exact .inl hrevision
  | unchanged hlast hpush =>
    refine ⟨?_, ?_, fun _ => ?_⟩ <;> rw [hpush]
    · exact hopened
    · exact hs
    · exact .inr hlast
  | pushed c' props _ hpush hfrom =>
    refine ⟨?_, ?_, fun _ => ?_⟩ <;> rw [hpush]
    · rw [hfrom.buffer]
      rfl
    · exact hs.recordPaths _
    · refine .inr ?_
      rw [hfrom.moduleOf_recordPaths hs]
      exact hfrom.lastPushed

/-- A push is put off for the sake of what it has found only. -/
theorem isDeferred_pushFinding {files : Files} (hphase : c.phase ≠ .pullingIn)
    (hread : c.hasUnreadEdit files = false) :
    isDeferred (c.pushFinding s (.ok (some files))).2.2 = false := by
  cases c.findingCase s files with
  | deferred hbusy _ =>
    obtain hphase' | hunread := hbusy
    · exact absurd hphase' hphase
    · rw [hread] at hunread
      cases hunread
  | echo _ hpush | unchanged _ hpush | pushed _ _ _ hpush _ =>
    rw [hpush]
    rfl

/-! ### Taking in -/

theorem opened_applySource (hopened : c.buffer.files.isSome = true) (s : Store) (source : String) :
    (c.applySource s source).1.buffer.files.isSome = true := by
  obtain hsame | ⟨props, hwritten⟩ := c.buffer_applySource s source
  · rw [hsame]
    exact hopened
  · rw [hwritten]
    rfl

theorem inboundRevision_refreshProps (c : Coordinator MemoryBuffer) (s : Store) :
    (c.refreshProps s).inboundRevision = c.inboundRevision := by
  obtain hkept | ⟨props, -, hwritten⟩ := c.refreshProps_cases s
  · rw [hkept]
  · rw [hwritten]

/-- A tree that was taken in leaves its revision behind; recording paths does not move it on. -/
theorem inboundRevision_applyTree (c : Coordinator MemoryBuffer) (s : Store) (tree : ReadTree) :
    (c.applyTree s tree).1.inboundRevision = some (c.applyTree s tree).2.1.revision := by
  unfold applyTree
  dsimp only
  rw [inboundRevision_refreshProps, (Store.retraced_recordPaths _ _).revision]

/-- Taking a source in, or refusing it, leaves the buffer in step with the document if it was. -/
theorem Reflects.applySource (h : c.Reflects s) (source : String) :
    (c.applySource s source).1.Reflects (c.applySource s source).2.1 := by
  unfold Coordinator.applySource
  cases read source c.config.sourcePath (c.target.bindingContext s) with
  | error e => exact h
  | ok tree => exact .inl (c.inboundRevision_applyTree s tree)

/-- Once there was a source that was written or applied, there is one. -/
theorem hasSynced_applySource (h : c.hasSynced = true) (s : Store) (source : String) :
    (c.applySource s source).1.hasSynced = true := by
  unfold Coordinator.applySource
  cases read source c.config.sourcePath (c.target.bindingContext s) with
  | error e => exact h
  | ok tree =>
    change (c.applyTree s tree).1.lastPushed.isSome = true
    unfold applyTree
    dsimp only
    obtain hkept | ⟨props, -, hwritten⟩ := refreshProps_cases _ _
    · rw [hkept]
      rfl
    · rw [hwritten]
      rfl

end Coordinator

/-- The buffer after an editor has put files in the place of all that it had, if one did. -/
def MemoryBuffer.edited (files : Option Files) (b : MemoryBuffer) : MemoryBuffer :=
  { b with files := files.or b.files }

namespace Session

variable {s s' s'' : Session MemoryBuffer}

/-- An initialized buffer and a sound document. -/
structure Intact (s : Session MemoryBuffer) : Prop where
  opened : s.coordinator.buffer.files.isSome = true
  sound : s.store.Sound

def Reflects (s : Session MemoryBuffer) : Prop := s.coordinator.Reflects s.store

/-- Whether a change is on its way to the task. -/
def Announced (s : Session MemoryBuffer) : Prop := 0 < s.untold ∨ s.notified = true

/-- How a push of the task comes out. -/
def outcome (s : Session MemoryBuffer) (amid : MemoryBuffer → MemoryBuffer) :
    Except BufferError PushOutcome :=
  ((s.coordinator.editBuffer amid).pushFinding s.store
    (Buffer.readAll s.coordinator.buffer)).2.2

/-- A push that nobody comes between. -/
theorem push_id (s : Session MemoryBuffer) : s.push id = { s with
    coordinator := (s.coordinator.push s.store).1
    store := (s.coordinator.push s.store).2.1 } := rfl

theorem Intact.editBuffer (h : s.Intact) (files : Option Files) :
    (s.editBuffer (MemoryBuffer.edited files)).Intact where
  opened := by
    cases files with
    | none => exact h.opened
    | some files => rfl
  sound := h.sound

/-- A push, whatever others do to the buffer while it goes on. -/
theorem Intact.push (h : s.Intact) (amid : Option Files) :
    (s.push (MemoryBuffer.edited amid)).Intact ∧
      (Coordinator.isDeferred (s.outcome (MemoryBuffer.edited amid)) = false →
        (s.push (MemoryBuffer.edited amid)).Reflects) := by
  obtain ⟨files, hfiles⟩ := Option.isSome_iff_exists.1 h.opened
  have hread : Buffer.readAll s.coordinator.buffer = .ok (some files) := congrArg _ hfiles
  have hpushing := Coordinator.pushing (h.editBuffer amid).opened h.sound files
  unfold Session.push outcome
  rw [hread]
  exact ⟨⟨hpushing.opened, hpushing.sound⟩, hpushing.reflects⟩

/-- What a poll keeps, whatever it finds. -/
structure Steady (s s' : Session MemoryBuffer) : Prop where
  intact : s.Intact → s'.Intact
  announced : s.Announced → s'.Announced
  reflects : s.Reflects → s'.Reflects

theorem Steady.trans (h : s.Steady s') (h' : s'.Steady s'') : s.Steady s'' where
  intact hs := h'.intact (h.intact hs)
  announced hs := h'.announced (h.announced hs)
  reflects hs := h'.reflects (h.reflects hs)

theorem steady_apply (s : Session MemoryBuffer) (source : String) : s.Steady (s.apply source) where
  intact h := ⟨Coordinator.opened_applySource h.opened s.store source,
    Coordinator.sound_applySource s.coordinator h.sound source⟩
  announced := id
  reflects h := Coordinator.Reflects.applySource h source

theorem steady_settle (s : Session MemoryBuffer) (source : String) (rounds : Nat) :
    s.Steady (s.settle source rounds) := by
  cases rounds with
  | zero => exact s.steady_apply source
  | succ left => exact ⟨fun h => ⟨h.opened, h.sound⟩, id, id⟩

theorem steady_editBuffer (s : Session MemoryBuffer) (files : Option Files) :
    s.Steady (s.editBuffer (MemoryBuffer.edited files)) :=
  ⟨fun h => h.editBuffer files, id, id⟩

theorem steady_observeFinding (s : Session MemoryBuffer)
    (found : Except BufferError (Option String)) :
    s.Steady { s with coordinator := (s.coordinator.observeFinding found).1 } := by
  obtain hsame | hbegun := s.coordinator.observeFinding_cases found
  · rw [hsame]
    exact ⟨id, id, id⟩
  · rw [hbegun]
    exact ⟨fun h => ⟨h.opened, h.sound⟩, id, id⟩

theorem steady_look (s : Session MemoryBuffer) (amid : Option Files) :
    s.Steady (s.look (MemoryBuffer.edited amid)) := by
  have hobserve := (s.steady_editBuffer amid).trans
    (steady_observeFinding _ s.coordinator.currentSource)
  unfold look
  split
  · next c source heq =>
    change s.Steady { s with coordinator :=
      ((s.coordinator.editBuffer _).observeFinding s.coordinator.currentSource).1 } at hobserve
    rw [heq] at hobserve
    exact hobserve.trans (steady_settle _ _ _)
  · next c found _ heq =>
    change s.Steady { s with coordinator :=
      ((s.coordinator.editBuffer _).observeFinding s.coordinator.currentSource).1 } at hobserve
    rw [heq] at hobserve
    exact hobserve

theorem steady_reread (s : Session MemoryBuffer) (amid : Option Files) :
    s.Steady (s.reread (MemoryBuffer.edited amid)) := by
  have hedited := s.steady_editBuffer amid
  unfold reread
  split
  · exact ⟨id, id, id⟩
  · split
    · split
      · exact hedited.trans (steady_apply _ _)
      · exact hedited.trans (steady_settle _ _ _)
    · exact hedited.trans (steady_apply _ _)

theorem steady_tell (s : Session MemoryBuffer) : s.Steady s.tell := by
  unfold tell
  split
  · exact ⟨id, id, id⟩
  · exact ⟨fun h => ⟨h.opened, h.sound⟩, fun _ => .inr rfl, id⟩

/-- A look at a source that was seen leaves the session as it is. -/
theorem look_of_seen (h : s.coordinator.HasSeen) : s.look id = s := by
  have hobserve : (s.coordinator.editBuffer id).observeFinding s.coordinator.currentSource =
      (s.coordinator, .ok none) := h.observe
  unfold look
  rw [hobserve]

/-- A look at any other source finds it. -/
theorem look_of_new {source : String} {left : Nat}
    (hfile : s.coordinator.buffer.file? s.coordinator.config.sourcePath = some source)
    (hnew : s.coordinator.lastObserved ≠ some source)
    (hrounds : s.coordinator.config.maxDebounceRounds = left + 1) :
    s.look id = { s with
      coordinator := { s.coordinator with phase := .pullingIn }
      waiting := some ⟨source, left⟩ } := by
  have hcurrent : s.coordinator.currentSource = .ok (some source) := congrArg _ hfile
  have hobserve : (s.coordinator.editBuffer id).observeFinding s.coordinator.currentSource =
      ({ s.coordinator with phase := .pullingIn }, .ok (some source)) := by
    rw [hcurrent]
    exact if_neg hnew
  unfold look
  rw [hobserve]
  dsimp only
  rw [hrounds]
  rfl

/-- At the end of its wait a source that is still there is applied. -/
theorem reread_of_same {source : String} {left : Nat} (hwaiting : s.waiting = some ⟨source, left⟩)
    (hfile : s.coordinator.buffer.file? s.coordinator.config.sourcePath = some source) :
    s.reread id = s.apply source := by
  have hcurrent : s.coordinator.currentSource = .ok (some source) := congrArg _ hfile
  unfold reread
  rw [hwaiting]
  dsimp only
  rw [hcurrent]
  exact if_pos rfl

/-- A push that is put off leaves the session as it is, too. -/
theorem push_of_unread {files : Files} {source other : String}
    (hfiles : s.coordinator.buffer.files = some files)
    (hobserved : s.coordinator.lastObserved = some source)
    (hother : files.get? s.coordinator.config.sourcePath = some other) (hne : other ≠ source)
    (hrevision : s.coordinator.inboundRevision ≠ some s.store.revision) : s.push id = s := by
  have hunread : s.coordinator.hasUnreadEdit files = true := by
    simp [Coordinator.hasUnreadEdit, hobserved, hother, hne]
  rw [push_id, Coordinator.push_eq_pushFinding s.store hfiles,
    Coordinator.pushFinding_of_unread hrevision hunread]

end Session

/-- What happens around a session. -/
inductive SessionEvent where
  /-- Somebody changes the document. -/
  | change (ops : List Store.Operation)
  /-- Somebody who has changed the document tells the task. -/
  | tell
  /-- The files of the buffer become others. -/
  | edit (files : Files)
  | pass (ms : Nat)
  /-- The task does what is due, if anything is: one thing before another if both are. The files of
  the buffer may become others while it does. -/
  | task (first : Wakeup) (amid : Option Files)

namespace Timeline

variable {t : Timeline MemoryBuffer}

def next (t : Timeline MemoryBuffer) : SessionEvent → Timeline MemoryBuffer
  | .change ops => t.update fun s => (s.change fun d => (ops.foldl Store.perform d, ())).1
  | .tell => t.update Session.tell
  | .edit files => t.update fun s => s.editBuffer (MemoryBuffer.edited (some files))
  | .pass ms => { t with now := t.now + ms }
  | .task first amid => (t.step? first (MemoryBuffer.edited amid)).getD t

def after (t : Timeline MemoryBuffer) (events : List SessionEvent) : Timeline MemoryBuffer :=
  events.foldl next t

theorem after_cons (t : Timeline MemoryBuffer) (e : SessionEvent) (es : List SessionEvent) :
    t.after (e :: es) = (t.next e).after es := rfl

theorem after_append (t : Timeline MemoryBuffer) (es es' : List SessionEvent) :
    t.after (es ++ es') = (t.after es).after es' := List.foldl_append

/-- Whether the task is about to push. -/
def pushes (t : Timeline MemoryBuffer) : Bool :=
  !t.started || t.errand == some .push || t.errand == some .retry

/-- Whether the task has begun nothing and has no edit that waits. -/
structure Idle (t : Timeline MemoryBuffer) : Prop where
  started : t.started = true
  errand : t.errand = none
  waiting : t.session.waiting = none

/-- Whether the task has nothing to do before the next poll: all that was changed it was told of and
has begun to push. -/
structure AtRest (t : Timeline MemoryBuffer) : Prop where
  idle : t.Idle
  untold : t.session.untold = 0
  notified : t.session.notified = false

/-- A step of the task that pushes does nothing else to the session. -/
theorem session_of_pushes (h : t.pushes = true) (first : Wakeup) (amid : Option Files) :
    (t.next (.task first amid)).session = t.session.push (MemoryBuffer.edited amid) ∧
      (t.next (.task first amid)).started = true := by
  unfold next step?
  cases hstarted : t.started with
  | false => exact ⟨rfl, rfl⟩
  | true =>
    unfold pushes at h
    cases herrand : t.errand with
    | none => simp [hstarted, herrand] at h
    | some errand =>
      cases errand with
      | push | retry => exact ⟨rfl, hstarted⟩
      | check | look =>
        rw [hstarted, herrand] at h
        cases h

/-- Any other step of the task leaves a change that was announced for a push to come, and what was
in step in step. -/
structure Quiet (t t' : Timeline MemoryBuffer) : Prop where
  started : t'.started = true
  intact : t.session.Intact → t'.session.Intact
  pushed : t.session.Announced ∨ t.session.Reflects →
    t'.session.Announced ∨ t'.errand = some .push ∨ t'.session.Reflects

theorem Quiet.of_steady {t' : Timeline MemoryBuffer} (hstarted : t'.started = true)
    (h : t.session.Steady t'.session) : Quiet t t' where
  started := hstarted
  intact := h.intact
  pushed := Or.imp h.announced fun hreflects => .inr (h.reflects hreflects)

/-- Whatever comes first, what is taken up is the push of a change, or a poll. -/
theorem begin?_cases {t' : Timeline MemoryBuffer} {first : Wakeup} (h : t.begin? first = some t') :
    t' = t.beginPush ∨ t' = t.beginPoll := by
  unfold begin? at h
  split at h
  · cases h
    cases first with
    | change => exact .inl rfl
    | poll => exact .inr rfl
  · split at h
    · cases h
      cases first with
      | change => exact .inr rfl
      | poll => exact .inl rfl
    · cases h

theorem not_pushes_iff : t.pushes = false ↔
    t.started = true ∧ t.errand ≠ some .push ∧ t.errand ≠ some .retry := by
  simp [pushes, and_assoc]

theorem quiet_of_not_pushes (h : t.pushes = false) (first : Wakeup) (amid : Option Files) :
    Quiet t (t.next (.task first amid)) := by
  have hsame : t.session.Steady t.session := ⟨id, id, id⟩
  obtain ⟨hstarted, hpush, hretry⟩ := not_pushes_iff.1 h
  unfold next step?
  simp only [hstarted, Bool.not_true, Bool.false_eq_true, if_false]
  cases herrand : t.errand with
  | some errand =>
    cases errand with
    | push => exact absurd herrand hpush
    | retry => exact absurd herrand hretry
    | check => exact .of_steady hstarted hsame
    | look => exact .of_steady hstarted (t.session.steady_look amid)
  | none =>
    simp only
    split
    · split
      · exact .of_steady hstarted (t.session.steady_reread amid)
      · exact .of_steady hstarted hsame
    · cases hbegun : t.begin? first with
      | none => exact .of_steady hstarted hsame
      | some t' =>
        obtain rfl | rfl := begin?_cases hbegun
        · exact ⟨hstarted, fun hs => ⟨hs.opened, hs.sound⟩, fun _ => .inr (.inl rfl)⟩
        · exact .of_steady hstarted hsame

/-! ### What a poll does -/

/-- The turn of what the task has begun, with nobody else writing. -/
theorem next_of_errand {errand : Errand} (hstarted : t.started = true)
    (herrand : t.errand = some errand) (first : Wakeup) :
    t.next (.task first none) = t.perform id errand := by
  simp only [next, step?, hstarted, herrand, Bool.not_true, Bool.false_eq_true, if_false]
  rfl

theorem Idle.next (h : t.Idle) (first : Wakeup) (amid : Option Files) :
    t.next (.task first amid) = (t.begin? first).getD t := by
  simp [Timeline.next, step?, h.started, h.errand, h.waiting]

/-- The end of a wait, with nobody else writing. -/
theorem next_of_waiting (hstarted : t.started = true) (herrand : t.errand = none)
    (hwaiting : t.session.waiting.isSome = true) (hwake : t.wakeAt ≤ t.now) (first : Wakeup) :
    t.next (.task first none) = t.wake id := by
  simp only [next, step?, hstarted, herrand, hwaiting, hwake, Bool.not_true, Bool.false_eq_true,
    if_false, if_true]
  rfl

/-- The beginning of a poll, whether or not the task was told of a change. -/
theorem Idle.beginPoll (h : t.Idle) (hdue : t.nextTick ≤ t.now)
    (hsynced : t.session.coordinator.hasSynced = true) :
    t.after [.task .poll none, .task .poll none] =
      { t with nextTick := t.tickAfter, errand := some .look } := by
  have hbegun : t.next (.task .poll none) = t.beginPoll := by
    simp [h.next, begin?, isDue, takeUp, hdue]
  have hchecked : t.beginPoll.next (.task .poll none) = t.beginPoll.perform id .check :=
    next_of_errand (t := t.beginPoll) h.started rfl _
  have hlooks : t.beginPoll.perform id .check =
      { t with nextTick := t.tickAfter, errand := some .look } := by
    simp [perform, Timeline.beginPoll, hsynced]
  rw [after_cons, hbegun, after_cons, hchecked, hlooks]
  rfl

/-- A poll that finds nothing new leaves the session as it is. -/
theorem Idle.poll (h : t.Idle) (hdue : t.nextTick ≤ t.now)
    (hsynced : t.session.coordinator.hasSynced = true) (hseen : t.session.coordinator.HasSeen) :
    t.after [.task .poll none, .task .poll none, .task .poll none] =
      { t with nextTick := t.tickAfter, wakeAt := t.now + t.config.debounceMs } := by
  have hlooked := next_of_errand (t := { t with nextTick := t.tickAfter, errand := some .look })
    h.started rfl .poll
  refine (after_append t [.task .poll none, .task .poll none] [.task .poll none]).trans ?_
  rw [h.beginPoll hdue hsynced, after_cons, hlooked, perform, Session.look_of_seen hseen,
    ← h.errand]
  rfl

/-- A poll that finds a new source, with the wait for it: the source is applied. -/
theorem Idle.takeIn (h : t.Idle) (hdue : t.nextTick ≤ t.now)
    (hsynced : t.session.coordinator.hasSynced = true) {source : String} {left : Nat}
    (hfile : t.session.coordinator.buffer.file? t.config.sourcePath = some source)
    (hnew : t.session.coordinator.lastObserved ≠ some source)
    (hrounds : t.config.maxDebounceRounds = left + 1) :
    t.after [.task .poll none, .task .poll none, .task .poll none, .pass t.config.debounceMs,
        .task .poll none] =
      { t with
        session := Session.apply { t.session with
          coordinator := { t.session.coordinator with phase := .pullingIn } } source
        now := t.now + t.config.debounceMs
        nextTick := t.tickAfter
        wakeAt := t.now + t.config.debounceMs + t.config.debounceMs } := by
  let found : Session MemoryBuffer := { t.session with
    coordinator := { t.session.coordinator with phase := .pullingIn }
    waiting := some ⟨source, left⟩ }
  let waits : Timeline MemoryBuffer := { t with
    session := found
    now := t.now + t.config.debounceMs
    nextTick := t.tickAfter
    wakeAt := t.now + t.config.debounceMs }
  have hlooked := next_of_errand (t := { t with nextTick := t.tickAfter, errand := some .look })
    h.started rfl .poll
  have hwoken : waits.next (.task .poll none) = waits.wake id :=
    next_of_waiting (t := waits) h.started h.errand rfl (Nat.le_refl _) _
  have happlied : found.reread id = found.apply source := Session.reread_of_same rfl hfile
  refine (after_append t [.task .poll none, .task .poll none]
    [.task .poll none, .pass t.config.debounceMs, .task .poll none]).trans ?_
  rw [h.beginPoll hdue hsynced, after_cons, hlooked, perform,
    Session.look_of_new hfile hnew hrounds, ← h.errand]
  change waits.next (.task .poll none) = _
  rw [hwoken, wake, happlied]
  rfl

/-- What is told at rest waits for the task. -/
theorem AtRest.told (h : t.AtRest) (ops : List Store.Operation) :
    t.after [.change ops, .tell] = { t with session := { t.session with
      store := ops.foldl Store.perform t.session.store
      notified := true } } := by
  obtain ⟨⟨c, store, untold, notified, waiting⟩, now, started, nextTick, wakeAt, errand⟩ := t
  obtain ⟨-, rfl, rfl⟩ := h
  rfl

/-- A poll that is due as well may be taken up before a change; the change goes on waiting. -/
theorem AtRest.poll_before_change (h : t.AtRest) (ops : List Store.Operation) (ms : Nat)
    (hdue : t.nextTick ≤ t.now + ms) (hsynced : t.session.coordinator.hasSynced = true)
    (hseen : t.session.coordinator.HasSeen) :
    t.after ([.change ops, .tell] ++
        [.pass ms, .task .poll none, .task .poll none, .task .poll none]) =
      { t with
        session := { t.session with
          store := ops.foldl Store.perform t.session.store
          notified := true }
        now := t.now + ms
        nextTick := tickAfter { t with now := t.now + ms }
        wakeAt := t.now + ms + t.config.debounceMs } := by
  rw [after_append, h.told ops]
  exact Idle.poll (t := { t with
      session := { t.session with
        store := ops.foldl Store.perform t.session.store
        notified := true }
      now := t.now + ms })
    ⟨h.idle.started, h.idle.errand, h.idle.waiting⟩ hdue hsynced hseen

/-- A session with a heading, before its task starts. -/
def titled (title : String) : Timeline MemoryBuffer :=
  init (.init (Store.empty.addElement (Coordinator.titled title)).1 MemoryBuffer.fresh.opened
    .default Coordinator.heroCoordinator.target)

/-- The task pushes the heading, and its first poll finds what it has pushed. -/
theorem after_titled (title : String) :
    let c := Coordinator.start MemoryBuffer.fresh.opened .default Coordinator.heroCoordinator.target
    let s := (Store.empty.addElement (Coordinator.titled title)).1
    ∃ c', (titled title).after
        [.task .change none, .task .poll none, .task .poll none, .task .poll none] =
        ⟨⟨c', s, 0, false, none⟩, 0, true, 2000, 300, none⟩ ∧
      Coordinator.PushedFrom c s c' ∧ c'.lastObserved = some (c.moduleOf s).text ∧
      c'.buffer.file? "App.jsx" = some (c.moduleOf s).text := by
  intro c s
  obtain ⟨c', outcome, hpush, hfrom, hobserved, hfile⟩ := Coordinator.push_start_titled title
  have hconfig : c'.config = .default := hfrom.config
  have hsynced : c'.hasSynced = true := by
    rw [Coordinator.hasSynced, hfrom.lastPushed]
    rfl
  have hseen : c'.HasSeen := by
    intro found hfound
    rw [hconfig] at hfound
    exact hobserved.trans (hfile.symm.trans hfound)
  have hstart : (titled title).next (.task .change none) =
      ⟨⟨c', s, 0, false, none⟩, 0, true, 0, 0, none⟩ := by
    change Timeline.mk (Session.push ⟨c, s, 0, false, none⟩ id) 0 true 0 0 none = _
    rw [Session.push_id, hpush]
  refine ⟨c', ?_, hfrom, hobserved, hfile⟩
  rw [after_cons, hstart, Idle.poll ⟨rfl, rfl, rfl⟩ (Nat.le_refl _) hsynced hseen]
  simp only [tickAfter, config, hconfig]
  rfl

/-- Then the editor turns it into another heading, and the next poll takes that in. -/
theorem after_titled_edited (title title' : String)
    (hne : (writeModule .empty [Coordinator.titled title] "hero" "Home").text ≠
      (writeModule .empty [Coordinator.titled title'] "hero" "Home").text) :
    ∃ c s, (titled title).after
        ([.task .change none, .task .poll none, .task .poll none, .task .poll none] ++
          ([.edit (Dict.empty.insert "App.jsx"
              (writeModule .empty [Coordinator.titled title'] "hero" "Home").text), .pass 2000] ++
            [.task .poll none, .task .poll none, .task .poll none, .pass 300, .task .poll none])) =
        ⟨⟨c, s, 0, false, none⟩, 2300, true, 4000, 2600, none⟩ ∧
      c.config = .default ∧ c.phase = .idle ∧ c.hasSynced = true ∧ c.HasSeen ∧
      c.buffer.files.isSome = true := by
  obtain ⟨c, hpushed, hfrom, hobserved, -⟩ := after_titled title
  have hconfig : c.config = .default := hfrom.config
  have hsynced : c.hasSynced = true := by
    rw [Coordinator.hasSynced, hfrom.lastPushed]
    rfl
  obtain ⟨buffer, config, target, phase, lastPushed, lastObserved, inboundRevision, lastProps,
    diagnostics⟩ := c
  obtain rfl : config = .default := hconfig
  set text := (writeModule .empty [Coordinator.titled title'] "hero" "Home").text
  set s := (Store.empty.addElement (Coordinator.titled title)).1
  let edited : MemoryBuffer := { buffer with files := some (Dict.empty.insert "App.jsx" text) }
  let found : Coordinator MemoryBuffer := ⟨edited, .default, target, .pullingIn, lastPushed,
    lastObserved, inboundRevision, lastProps, diagnostics⟩
  let waits : Timeline MemoryBuffer :=
    ⟨⟨{ found with phase := phase }, s, 0, false, none⟩, 2000, true, 2000, 300, none⟩
  have hfile : found.buffer.file? "App.jsx" = some text := Dict.get?_insert_self _ _ _
  have hnew : lastObserved ≠ some text := fun h => hne (Option.some.inj (hobserved.symm.trans h))
  have htaken := Idle.takeIn (t := waits) ⟨rfl, rfl, rfl⟩ (Nat.le_refl _) hsynced hfile hnew rfl
  have hpulled := Coordinator.applySource_pulledFrom found s text
  have hconfig : (found.applySource s text).1.config = .default := hpulled.config
  have hkept := Coordinator.hasSynced_applySource (c := found) hsynced s text
  have hopened := Coordinator.opened_applySource (c := found) rfl s text
  refine ⟨(found.applySource s text).1, (found.applySource s text).2.1, ?_, hconfig,
    hpulled.phase, hkept, ?_, hopened⟩
  · rw [after_append, hpushed, after_append]
    exact htaken
  · have hpaths : SyncConfig.default.sourcePath ≠ SyncConfig.default.propsPath := by decide
    intro source hsource
    rw [hpulled.config] at hsource
    exact hpulled.lastObserved.trans ((hpulled.source hpaths).trans hfile |>.symm.trans hsource)

end Timeline

/-- A session, and whether the last push of its task was put off and no source has been taken in
since. -/
structure Watched where
  line : Timeline MemoryBuffer
  putOff : Bool

namespace Watched

/-- What a step of the task says about pushes that were put off: a push says it itself, and after
any other step a document that is as the last pull left it has nothing to push. -/
def putOffAfter (w : Watched) (first : Wakeup) (amid : Option Files) : Bool :=
  let s' := (w.line.next (.task first amid)).session
  if w.line.pushes then
    Coordinator.isDeferred (w.line.session.outcome (MemoryBuffer.edited amid))
  else w.putOff && s'.coordinator.inboundRevision != some s'.store.revision

def next (w : Watched) (e : SessionEvent) : Watched where
  line := w.line.next e
  putOff :=
    match e with
    | .task first amid => w.putOffAfter first amid
    | _ => w.putOff

def run (w : Watched) (events : List SessionEvent) : Watched := events.foldl next w

/-- What every event keeps: the task still has to push a change that the buffer does not have,
unless a push was put off. -/
structure Pending (w : Watched) : Prop where
  intact : w.line.session.Intact
  pushed : w.line.started = true → w.putOff = false →
    w.line.session.Announced ∨ w.line.errand = some .push ∨ w.line.session.Reflects

variable {w : Watched}

theorem putOff_of_pushes (h : w.line.pushes = true) (first : Wakeup) (amid : Option Files) :
    (w.next (.task first amid)).putOff =
      Coordinator.isDeferred (w.line.session.outcome (MemoryBuffer.edited amid)) := by
  simp [next, putOffAfter, h]

theorem Pending.task (h : w.Pending) (first : Wakeup) (amid : Option Files) :
    (w.next (.task first amid)).Pending := by
  cases hpushes : w.line.pushes with
  | true =>
    obtain ⟨hsession, -⟩ := Timeline.session_of_pushes hpushes first amid
    obtain ⟨hintact, hreflects⟩ := h.intact.push amid
    refine ⟨hsession ▸ hintact, fun _ hdone => .inr (.inr ?_)⟩
    rw [putOff_of_pushes hpushes] at hdone
    exact hsession ▸ hreflects hdone
  | false =>
    have hquiet := Timeline.quiet_of_not_pushes hpushes first amid
    refine ⟨hquiet.intact h.intact, fun _ hdone => ?_⟩
    have hdone : w.putOff = false ∨
        (w.line.next (.task first amid)).session.coordinator.inboundRevision =
          some (w.line.next (.task first amid)).session.store.revision := by
      simpa [next, putOffAfter, hpushes, or_iff_not_imp_left] using hdone
    rcases hdone with hdone | hpulled
    · obtain ⟨hstarted, hnone, -⟩ := Timeline.not_pushes_iff.1 hpushes
      refine hquiet.pushed ?_
      obtain hannounced | herrand | hreflects := h.pushed hstarted hdone
      · exact .inl hannounced
      · exact absurd herrand hnone
      · exact .inr hreflects
    · exact .inr (.inr (.inl hpulled))

theorem Pending.next (h : w.Pending) (e : SessionEvent) : (w.next e).Pending := by
  cases e with
  | task first amid => exact h.task first amid
  | change ops =>
    exact ⟨⟨h.intact.opened, h.intact.sound.foldl_perform ops⟩,
      fun _ _ => .inl (.inl (Nat.succ_pos _))⟩
  | tell =>
    have htold := w.line.session.steady_tell
    exact ⟨htold.intact h.intact, fun hstarted hdone =>
      (h.pushed hstarted hdone).imp htold.announced (Or.imp id htold.reflects)⟩
  | edit files => exact ⟨h.intact.editBuffer (some files), h.pushed⟩
  | pass ms => exact ⟨h.intact, h.pushed⟩

theorem line_next (w : Watched) (e : SessionEvent) : (w.next e).line = w.line.next e := rfl

theorem line_run (w : Watched) (events : List SessionEvent) :
    (w.run events).line = w.line.after events := by
  induction events generalizing w with
  | nil => rfl
  | cons e events ih => exact ih (w.next e)

theorem run_append (w : Watched) (events events' : List SessionEvent) :
    w.run (events ++ events') = (w.run events).run events' := List.foldl_append

theorem Pending.run (h : w.Pending) (events : List SessionEvent) : (w.run events).Pending :=
  List.foldlRecOn events Watched.next h fun _ h e _ => h.next e

def start (buffer : MemoryBuffer) (config : SyncConfig) (target : SyncTarget) (store : Store) :
    Watched :=
  ⟨.init (.init store buffer config target), false⟩

/-- In a session over an initialized buffer, whatever happens to document and buffer, also while the
task makes a step, and whenever the task gets to run and whatever it takes up first: at rest the
buffer has what the document says, unless the last push was put off and no source has been taken in
since. -/
theorem reflects_at_rest (buffer : MemoryBuffer) (config : SyncConfig) (target : SyncTarget)
    {store : Store} (hopened : buffer.files.isSome = true) (hs : store.Sound)
    (events : List SessionEvent) :
    let w := (start buffer config target store).run events
    w.line.AtRest → w.putOff = false → w.line.session.Reflects := by
  intro w hrest hdone
  have hstart : (start buffer config target store).Pending :=
    ⟨⟨hopened, hs⟩, fun hstarted => by cases hstarted⟩
  obtain hannounced | herrand | hreflects := (hstart.run events).pushed hrest.idle.started hdone
  · obtain huntold | hnotified := hannounced
    · rw [hrest.untold] at huntold
      cases huntold
    · rw [hrest.notified] at hnotified
      cases hnotified
  · rw [hrest.idle.errand] at herrand
    cases herrand
  · exact hreflects

/-- A heading is pushed; the editor turns it into another one, and a poll takes that in. Then the
title changes, and by the time the task gets to run a poll is due as well, which it takes up first. -/
theorem reflects_at_rest_titled :
    let step := SessionEvent.task .poll none
    let edited := Dict.empty.insert "App.jsx"
      (writeModule .empty [Coordinator.titled "two"] "hero" "Home").text
    let w := (start MemoryBuffer.fresh.opened .default Coordinator.heroCoordinator.target
      (Store.empty.addElement (Coordinator.titled "one")).1).run
      ([.task .change none, step, step, step] ++
        ([.edit edited, .pass 2000] ++ [step, step, step, .pass 300, step]) ++
        ([.change [.setAttributes "hero" (Dict.empty.insert "title" "three")], .tell] ++
          [.pass 2000, step, step, step]) ++ [step, step])
    w.line.AtRest ∧ w.putOff = false ∧ w.line.session.Reflects := by
  intro step edited w
  set ops : List Store.Operation := [.setAttributes "hero" (Dict.empty.insert "title" "three")]
  obtain ⟨c, s, htaken, hconfig, hphase, hsynced, hseen, hopened⟩ :=
    Timeline.after_titled_edited "one" "two"
      fun h => absurd ((Coordinator.collapsed_titled_iff "one" "two").1 (congrArg _ h)) (by decide)
  set front := [SessionEvent.task .change none, step, step, step] ++
    ([.edit edited, .pass 2000] ++ [step, step, step, .pass 300, step])
  let rest : Timeline MemoryBuffer := ⟨⟨c, s, 0, false, none⟩, 2300, true, 4000, 2600, none⟩
  let changed : Session MemoryBuffer := ⟨c, ops.foldl Store.perform s, 0, false, none⟩
  let opened := start MemoryBuffer.fresh.opened .default Coordinator.heroCoordinator.target
    (Store.empty.addElement (Coordinator.titled "one")).1
  let events := front ++ ([.change ops, .tell] ++ [.pass 2000, step, step, step])
  let polled := opened.run events
  have happend := opened.run_append events [step, step]
  have hw : w = (polled.next step).next step := happend
  have hpolled : polled.line =
      ⟨{ changed with notified := true }, 4300, true, 6300, 4600, none⟩ := by
    have hpoll := Timeline.AtRest.poll_before_change (t := rest)
      ⟨⟨rfl, rfl, rfl⟩, rfl, rfl⟩ ops 2000 (show 4000 ≤ 2300 + 2000 by decide) hsynced hseen
    have hlater : Timeline.tickAfter { rest with now := 2300 + 2000 } = 6300 := by
      change 4300 + c.config.pollPeriod = 6300
      rw [hconfig]
      rfl
    have hwake : 2300 + 2000 + rest.config.debounceMs = 4600 :=
      congrArg (2300 + 2000 + ·.debounceMs) hconfig
    have hstart : opened.line = Timeline.titled "one" := rfl
    rw [line_run, hstart, Timeline.after_append, htaken, hpoll, hlater, hwake]
  have hbegun : (polled.next step).line = ⟨changed, 4300, true, 6300, 4600, some .push⟩ := by
    rw [line_next, hpolled]
    rfl
  have hrest : w.line.AtRest := by
    rw [hw, line_next, hbegun]
    exact ⟨⟨rfl, rfl, rfl⟩, rfl, rfl⟩
  have hdone : w.putOff = false := by
    obtain ⟨files, hfiles⟩ := Option.isSome_iff_exists.1 hopened
    have hread : Buffer.readAll c.buffer = .ok (some files) := congrArg _ hfiles
    have houtcome : changed.outcome id = (c.pushFinding changed.store (.ok (some files))).2.2 :=
      congrArg (fun found => (c.pushFinding changed.store found).2.2) hread
    have hpush := putOff_of_pushes (w := polled.next step) (by rw [hbegun]; rfl) .poll none
    rw [hw, hpush, hbegun]
    refine (congrArg Coordinator.isDeferred houtcome).trans ?_
    exact Coordinator.isDeferred_pushFinding (by rw [hphase]; decide) (hseen.hasUnreadEdit hfiles)
  exact ⟨hrest, hdone, reflects_at_rest MemoryBuffer.fresh.opened .default
    Coordinator.heroCoordinator.target rfl (Store.empty_sound.addElement _) _ hrest hdone⟩

end Watched

end DesignSync

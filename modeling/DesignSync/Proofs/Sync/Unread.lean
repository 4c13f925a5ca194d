import DesignSync.Proofs.Document.Run
import DesignSync.Proofs.Sync.Rest

/-!
What a coordinator writes over. Others edit the buffer and change the document whenever they like,
also between looking at a source and taking it in. Still, once a source has been pushed or taken in,
a step of the coordinator puts another source only in the place of one that was pushed or taken in
before, or of none.
-/

namespace DesignSync

open Markup

/-- What a coordinator can be asked to do. The source that is taken in may have been read earlier
and be in the buffer no longer. -/
inductive SyncStep where
  | push
  | observe
  | pull
  | apply (source : String)

/-- What happens to a coordinator, its document and its buffer. -/
inductive SyncEvent where
  | step (a : SyncStep)
  | change (op : Store.Operation)
  /-- The files of the buffer become others, or are gone. -/
  | edit (files : Option Files)

namespace Coordinator

/-- The source that a push has written, from what it leaves and what it tells. -/
def written? (c : Coordinator MemoryBuffer) : Except BufferError PushOutcome → Option String
  | .ok (.pushed true _) => c.buffer.file? c.config.sourcePath
  | _ => none

/-- The source that a pull has taken in, from what it finds and what it tells. -/
def taken? (c : Coordinator MemoryBuffer) : Except BufferError PullOutcome → Option String
  | .ok (.applied _ _) | .ok (.rejected _) => c.buffer.file? c.config.sourcePath
  | _ => none

end Coordinator

structure SyncRun where
  coordinator : Coordinator MemoryBuffer
  document : Store
  /-- The sources that were pushed or taken in, the last one first. -/
  met : List String

namespace SyncRun

def start (buffer : MemoryBuffer) (config : SyncConfig) (target : SyncTarget) (document : Store) :
    SyncRun :=
  ⟨Coordinator.start buffer config target, document, []⟩

def step (r : SyncRun) : SyncStep → SyncRun
  | .push =>
    let (c, s, outcome) := r.coordinator.push r.document
    ⟨c, s, (c.written? outcome).toList ++ r.met⟩
  | .observe => { r with coordinator := r.coordinator.observe.1 }
  | .pull =>
    let (c, s, outcome) := r.coordinator.pull r.document
    ⟨c, s, (r.coordinator.taken? outcome).toList ++ r.met⟩
  | .apply source =>
    let (c, s, _) := r.coordinator.applySource r.document source
    ⟨c, s, source :: r.met⟩

def next (r : SyncRun) : SyncEvent → SyncRun
  | .step a => r.step a
  | .change op => { r with document := r.document.perform op }
  | .edit files =>
    { r with coordinator := { r.coordinator with
        buffer := { r.coordinator.buffer with files := files } } }

def run (r : SyncRun) (events : List SyncEvent) : SyncRun := events.foldl next r

/-- The source in the buffer. -/
def source? (r : SyncRun) : Option String :=
  r.coordinator.buffer.file? r.coordinator.config.sourcePath

/-- Whether a step has written nothing but, at most, the props. -/
def SparesSource (r r' : SyncRun) : Prop :=
  r'.coordinator.buffer = r.coordinator.buffer ∨ ∃ props, r'.coordinator.buffer =
    (Buffer.write r.coordinator.buffer
      ⟨Dict.empty.insert r.coordinator.config.propsPath props, []⟩).1

end SyncRun

/-! ### What a step takes in -/

namespace Coordinator

/-- Whatever comes of it, the source has been taken in. -/
theorem taken?_applySource (c c' : Coordinator MemoryBuffer) (s : Store) (source : String) :
    c'.taken? (.ok (c.applySource s source).2.2) = c'.buffer.file? c'.config.sourcePath := by
  unfold applySource
  cases read source c.config.sourcePath (c.target.bindingContext s) with
  | error e => rfl
  | ok tree => rfl

/-- Nothing else is taken in where the source has been seen. -/
theorem HasSeen.taken? {c : Coordinator MemoryBuffer} (h : c.HasSeen)
    (outcome : Except BufferError PullOutcome) :
    c.taken? outcome = none ∨ c.taken? outcome = c.lastObserved := by
  have hfile : c.buffer.file? c.config.sourcePath = none ∨
      c.buffer.file? c.config.sourcePath = c.lastObserved := by
    cases hfile : c.buffer.file? c.config.sourcePath with
    | none => exact .inl rfl
    | some source => exact .inr (h source hfile).symm
  unfold Coordinator.taken?
  split
  · exact hfile
  · exact hfile
  · exact .inl rfl

end Coordinator

namespace SyncRun

open Coordinator

variable {r r' : SyncRun}

theorem SparesSource.source?_eq (h : r.SparesSource r')
    (hconfig : r'.coordinator.config = r.coordinator.config)
    (hpaths : r.coordinator.config.sourcePath ≠ r.coordinator.config.propsPath) :
    r'.source? = r.source? := by
  unfold source?
  rw [hconfig]
  obtain hsame | ⟨props, hwritten⟩ := h
  · rw [hsame]
  · rw [hwritten]
    exact file?_write hpaths none (some props)

/-- No step but a push ever writes the source, and a push does not while a source is being taken
in. -/
theorem sparesSource_step {a : SyncStep}
    (h : r.coordinator.phase = .pullingIn ∨ a ≠ .push) : r.SparesSource (r.step a) := by
  obtain ⟨c, s, met⟩ := r
  cases a with
  | push =>
    have hphase : c.phase = .pullingIn := h.resolve_right fun hne => hne rfl
    have hpush : c.push s = (c, s, .ok .deferred) := if_pos hphase
    exact .inl (by simp only [step, hpush])
  | observe =>
    obtain hsame | hbegun := c.observe_cases
    · exact .inl (by simp only [step, hsame])
    · exact .inl (by simp only [step, hbegun])
  | pull =>
    obtain ⟨-, outcome, hpull⟩ | ⟨source, -, hpull⟩ := c.pull_cases s
    · exact .inl (by simp only [step, hpull])
    · obtain hsame | ⟨props, hwritten⟩ :=
        buffer_applySource { c with phase := .pullingIn } s source
      · exact .inl (by simp only [step, hpull, hsame])
      · exact .inr ⟨props, by simp only [step, hpull, hwritten]⟩
  | apply source => exact buffer_applySource c s source

/-! ### What is remembered -/

/-- The coordinator remembers the last source that it has met. -/
structure Remembers (config : SyncConfig) (r : SyncRun) : Prop where
  config : r.coordinator.config = config
  last : r.coordinator.lastObserved = r.met.head?

variable {config : SyncConfig}

theorem Remembers.step (h : Remembers config r)
    (hpaths : config.sourcePath ≠ config.propsPath) (a : SyncStep) :
    Remembers config (r.step a) := by
  obtain ⟨c, s, met⟩ := r
  have hc : c.config = config := h.config
  have hlast : c.lastObserved = met.head? := h.last
  rw [← hc] at hpaths
  cases a with
  | push =>
    cases c.pushCase s with
    | deferred _ hpush | echo _ hpush | notInitialized _ hpush | unchanged _ hpush =>
      simp only [SyncRun.step, hpush]
      exact ⟨hc, hlast⟩
    | pushed files c' props _ _ hpush hfrom =>
      simp only [SyncRun.step, hpush]
      refine ⟨hfrom.config.trans hc, ?_⟩
      have hsource := hfrom.source hpaths
      split at hsource
      · next hsame => simp [hsame, written?, hsource.1, hlast]
      · next hother =>
        have hchanged :
            (c.lastPushed != some (Text.collapsed (c.moduleOf s).text)) = true := by
          simpa using hother
        simp [hchanged, written?, hsource.1, hfrom.config, hsource.2]
  | observe =>
    obtain hsame | hbegun := c.observe_cases
    · simp only [SyncRun.step, hsame]
      exact h
    · simp only [SyncRun.step, hbegun]
      exact ⟨hc, hlast⟩
  | pull =>
    obtain ⟨hseen, outcome, hpull⟩ | ⟨source, hfile, hpull⟩ := c.pull_cases s
    · simp only [SyncRun.step, hpull]
      refine ⟨hc, ?_⟩
      obtain hnone | hsame := hseen.taken? (.ok outcome)
      · simpa [hnone] using hlast
      · rw [hsame]
        cases hobserved : c.lastObserved with
        | none => simpa [hobserved] using hlast
        | some source => simp
    · have hpulled := applySource_pulledFrom { c with phase := .pullingIn } s source
      have htaken := taken?_applySource { c with phase := .pullingIn } c s source
      simp only [SyncRun.step, hpull, htaken, hfile]
      exact ⟨hpulled.config.trans hc, hpulled.lastObserved⟩
  | apply source =>
    have hpulled := applySource_pulledFrom c s source
    exact ⟨hpulled.config.trans hc, hpulled.lastObserved⟩

theorem Remembers.next (h : Remembers config r)
    (hpaths : config.sourcePath ≠ config.propsPath) (e : SyncEvent) :
    Remembers config (r.next e) := by
  cases e with
  | step a => exact h.step hpaths a
  | change op => exact ⟨h.config, h.last⟩
  | edit files => exact ⟨h.config, h.last⟩

theorem Remembers.run (h : Remembers config r)
    (hpaths : config.sourcePath ≠ config.propsPath) (events : List SyncEvent) :
    Remembers config (r.run events) :=
  List.foldlRecOn events SyncRun.next h fun _ h e _ => h.next hpaths e

/-- What is written over was met before. -/
theorem Remembers.replaced (h : Remembers config r)
    (hpaths : config.sourcePath ≠ config.propsPath) (hmet : r.met ≠ []) {a : SyncStep}
    (hchanged : (r.step a).source? ≠ r.source?) {old : String} (hold : r.source? = some old) :
    old ∈ r.met := by
  have hkept := (h.step hpaths a).config.trans h.config.symm
  rw [← h.config] at hpaths
  -- only a push changes the source, and a push that goes on has found the one it remembers
  have hpush : a = .push := by
    by_contra hother
    exact hchanged ((sparesSource_step (.inr hother)).source?_eq hkept hpaths)
  subst hpush
  obtain ⟨c, s, met⟩ := r
  cases c.pushCase s with
  | deferred _ hpush | echo _ hpush | notInitialized _ hpush | unchanged _ hpush =>
    have hsame : SparesSource ⟨c, s, met⟩ (SyncRun.step ⟨c, s, met⟩ .push) :=
      .inl (by simp only [SyncRun.step, hpush, report])
    exact absurd (hsame.source?_eq hkept hpaths) hchanged
  | pushed files c' props hfiles hread _ _ =>
    obtain ⟨last, rest, rfl⟩ := List.exists_cons_of_ne_nil hmet
    have hlast : c.lastObserved = some last := h.last
    have hfile : files.get? c.config.sourcePath = some old := by
      rw [source?, MemoryBuffer.file?, hfiles] at hold
      exact hold
    have heq : old = last := by simpa [hasUnreadEdit, hlast, hfile] using hread
    exact heq ▸ List.mem_cons_self

/-- Nothing unread is written over, whatever the others do in between. Once a source was pushed or
taken in, a step that changes the source in the buffer puts it in the place of one that was pushed
or taken in before, or of none. And no step writes the source while one is being taken in. -/
theorem run_spares_unread (hpaths : config.sourcePath ≠ config.propsPath) (buffer : MemoryBuffer)
    (target : SyncTarget) (document : Store) (events : List SyncEvent) (a : SyncStep) :
    let r := (start buffer config target document).run events
    (r.met ≠ [] → (r.step a).source? ≠ r.source? → ∀ old, r.source? = some old → old ∈ r.met) ∧
      (r.coordinator.phase = .pullingIn ∨ a ≠ .push → r.SparesSource (r.step a)) := by
  intro r
  have hstart : Remembers config (start buffer config target document) := ⟨rfl, rfl⟩
  have hrun := hstart.run hpaths events
  exact ⟨fun hmet hchanged old hold => hrun.replaced hpaths hmet hchanged hold, sparesSource_step⟩

theorem run_spares_unread_hero :
    let edited := Dict.empty.insert "App.jsx" "<section"
    let r := (start .fresh heroCoordinator.config heroCoordinator.target heroDocument).run
      [.edit (some edited), .step .pull, .change (.removeElement "hero")]
    (r.met ≠ [] → (r.step .push).source? ≠ r.source? → ∀ old, r.source? = some old → old ∈ r.met) ∧
      (r.coordinator.phase = .pullingIn ∨ SyncStep.push ≠ .push →
        r.SparesSource (r.step .push)) :=
  run_spares_unread (by decide) .fresh heroCoordinator.target heroDocument
    [.edit (some (Dict.empty.insert "App.jsx" "<section")), .step .pull,
      .change (.removeElement "hero")] .push

end SyncRun

end DesignSync

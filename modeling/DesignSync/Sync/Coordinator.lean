import DesignSync.Buffer.Basic
import DesignSync.Markup.Elements
import DesignSync.Markup.Writer
import DesignSync.Sync.Config
import DesignSync.Sync.Target

/-!
Keeping a document and the source in a buffer in step. A push writes the document to the buffer, a
pull takes an edited source back into the document. What was pushed counts as seen, so that it is
not pulled; and a document that is as the last pull left it is not pushed.
-/

namespace DesignSync

open Markup

inductive SyncPhase where
  | idle
  | pushingOut
  | pullingIn
deriving DecidableEq, Repr

inductive PushOutcome where
  /-- The buffer is not initialized yet. -/
  | notInitialized
  /-- An edit is being applied, or waits to be pulled. -/
  | deferred
  /-- The document is as the last pull left it. -/
  | echo
  | unchanged
  | pushed (source props : Bool)
deriving DecidableEq, Repr

inductive PullOutcome where
  | notInitialized
  | unchanged
  | applied (updated removed : Nat)
  /-- The source could not be read; the document is as it was. -/
  | rejected (error : ReadError)
deriving DecidableEq, Repr

structure Coordinator (β : Type) where
  buffer : β
  config : SyncConfig
  target : SyncTarget
  phase : SyncPhase
  /-- The source that the buffer was last brought in step with, blanks collapsed. -/
  lastPushed : Option String
  /-- The source that was last written or read, as it was. -/
  lastObserved : Option String
  /-- The revision of the document after the last pull. -/
  inboundRevision : Option Nat
  /-- The props module that was last written. -/
  lastProps : Option String
  diagnostics : List Diagnostic

namespace Coordinator

variable {β : Type} [Buffer β]

def start (buffer : β) (config : SyncConfig) (target : SyncTarget) : Coordinator β where
  buffer := buffer
  config := config
  target := target
  phase := .idle
  lastPushed := none
  lastObserved := none
  inboundRevision := none
  lastProps := none
  diagnostics := []

/-- Whether the buffer has held a source that was written or applied. -/
def hasSynced (c : Coordinator β) : Bool := c.lastPushed.isSome

def report (c : Coordinator β) (ds : List Diagnostic) : Coordinator β :=
  { c with diagnostics := c.diagnostics ++ ds }

/-- The coordinator after somebody else has written to its buffer. -/
def editBuffer (c : Coordinator β) (edit : β → β) : Coordinator β :=
  { c with buffer := edit c.buffer }

/-- The module of the target as the store has it. -/
def moduleOf (c : Coordinator β) (s : Store) : Written :=
  writeModule (c.target.bindingContext s) s.elements c.target.root c.target.moduleName

/-- The props module of the target, if it has one that differs from the one last written. -/
def pendingProps? (c : Coordinator β) (s : Store) : Option String :=
  match s.project c.target.scope with
  | .ok artifact => artifact.pending? c.lastProps
  | .error _ => none

/-- Whether the buffer holds a source that has not been pulled. -/
def hasUnreadEdit (c : Coordinator β) (files : Files) : Bool :=
  match c.lastObserved, files.get? c.config.sourcePath with
  | some observed, some current => current != observed
  | _, _ => false

/-! ### Pushing -/

/-- The files of a push. Where source and props have one path, the props stay. -/
def pushDiff (c : Coordinator β) (source props : Option String) : FileDiff :=
  let add (files : Files) (path : String) (content : Option String) :=
    content.elim files (files.insert path)
  ⟨add (add Dict.empty c.config.sourcePath source) c.config.propsPath props, []⟩

/-- Writes the module and the props if one of them changed. A written source has the props module
    at its side. -/
def pushFiles (c : Coordinator β) (s : Store) :
    Coordinator β × Store × Except BufferError PushOutcome :=
  let written := c.moduleOf s
  let c := c.report written.diagnostics
  let collapsed := Text.collapsed written.text
  let sourceChanged := c.lastPushed != some collapsed
  let pending := c.pendingProps? s
  if !sourceChanged && pending.isNone then (c, s, .ok .unchanged)
  else
    let props := pending.or (if sourceChanged then c.lastProps else none)
    let source := if sourceChanged then some written.text else none
    match Buffer.write c.buffer (c.pushDiff source props) with
    | (buffer, some e) => ({ c with buffer := buffer, phase := .idle }, s, .error e)
    | (buffer, none) =>
      ({ c with
          buffer := buffer
          phase := .idle
          lastPushed := if sourceChanged then some collapsed else c.lastPushed
          lastObserved := source.or c.lastObserved
          lastProps := pending.or c.lastProps },
        (s.recordPaths written.traced).1, .ok (.pushed sourceChanged props.isSome))

/-- Brings the buffer in step with the document, unless an edit in what was found there comes
    first. -/
def pushFinding (c : Coordinator β) (s : Store) (found : Except BufferError (Option Files)) :
    Coordinator β × Store × Except BufferError PushOutcome :=
  if c.phase = .pullingIn then (c, s, .ok .deferred)
  else if c.inboundRevision = some s.revision then (c, s, .ok .echo)
  else
    match found with
    | .error e => (c, s, .error e)
    | .ok none => (c, s, .ok .notInitialized)
    | .ok (some files) =>
      if c.hasUnreadEdit files then (c, s, .ok .deferred) else c.pushFiles s

/-- Reads the buffer and brings it in step with the document. -/
def push (c : Coordinator β) (s : Store) : Coordinator β × Store × Except BufferError PushOutcome :=
  c.pushFinding s (Buffer.readAll c.buffer)

/-! ### Pulling -/

/-- The source in the buffer. -/
def currentSource (c : Coordinator β) : Except BufferError (Option String) :=
  Buffer.fileAt c.buffer c.config.sourcePath

/-- A source that was found in the buffer, if it is another one than was last seen; pulling it has
    begun then. -/
def observeFinding (c : Coordinator β) (found : Except BufferError (Option String)) :
    Coordinator β × Except BufferError (Option String) :=
  match found with
  | .error e => (c, .error e)
  | .ok none => (c, .ok none)
  | .ok (some source) =>
    if c.lastObserved = some source then (c, .ok none)
    else ({ c with phase := .pullingIn }, .ok (some source))

/-- Looks at the source in the buffer. -/
def observe (c : Coordinator β) : Coordinator β × Except BufferError (Option String) :=
  c.observeFinding c.currentSource

/-- Writes the props module if it changed. A failure is made up for by the next push. -/
def refreshProps (c : Coordinator β) (s : Store) : Coordinator β :=
  match c.pendingProps? s with
  | none => c
  | some props =>
    match Buffer.write c.buffer (c.pushDiff none (some props)) with
    | (buffer, none) => { c with buffer := buffer, lastProps := some props }
    | (buffer, some _) => { c with buffer := buffer }

/-- Puts elements in the place of the ones with their ids and counts those that changed. -/
def replaceAll (s : Store) (es : List Element) : Store × Nat :=
  es.foldl (fun (s, n) e =>
    let (s, changed) := s.replaceElement e
    (s, if changed then n + 1 else n)) (s, 0)

/-- Removes elements and counts those that were there. -/
def removeAll (s : Store) (ids : List String) : Store × Nat :=
  ids.foldl (fun (s, n) id =>
    let (s, changed) := s.removeElement id
    (s, if changed then n + 1 else n)) (s, 0)

/-- Puts a tree that was read in the place of the target's tree. -/
def applyTree (c : Coordinator β) (s : Store) (tree : ReadTree) :
    Coordinator β × Store × PullOutcome :=
  let gone := (s.subtree c.target.root).filter fun id => !tree.ids.contains id
  let (s, updated) := replaceAll s tree.elements
  let (s, removed) := removeAll s gone
  let c := { c.report tree.diagnostics with
    target := { c.target with root := tree.rootId }
    inboundRevision := some s.revision }
  let written := c.moduleOf s
  let s := (s.recordPaths written.traced).1
  let c := { c with lastPushed := some (Text.collapsed written.text) }
  (c.refreshProps s, s, .applied updated removed)

/-- Takes a source into the document: all of it, or nothing when it cannot be read. Either way it
    counts as seen. -/
def applySource (c : Coordinator β) (s : Store) (source : String) :
    Coordinator β × Store × PullOutcome :=
  let (c, s, outcome) :=
    match read source c.config.sourcePath (c.target.bindingContext s) with
    | .error e =>
      (c.report [(Finding.notParsed e.message).diagnostic e.span? none], s, PullOutcome.rejected e)
    | .ok tree => c.applyTree s tree
  ({ c with lastObserved := some source, phase := .idle }, s, outcome)

/-- Looks at the buffer once and takes its source into the document if it changed. -/
def pull (c : Coordinator β) (s : Store) : Coordinator β × Store × Except BufferError PullOutcome :=
  match Buffer.readAll c.buffer with
  | .error e => (c, s, .error e)
  | .ok none => (c, s, .ok .notInitialized)
  | .ok (some _) =>
    match c.observe with
    | (c, .error e) => (c, s, .error e)
    | (c, .ok none) => (c, s, .ok .unchanged)
    | (c, .ok (some source)) =>
      let (c, s, outcome) := c.applySource s source
      (c, s, .ok outcome)

end Coordinator

end DesignSync

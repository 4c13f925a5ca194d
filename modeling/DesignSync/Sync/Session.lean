import DesignSync.Sync.Coordinator

/-!
A live session: a document with its coordinator, and a task that pushes when the document changed
and polls the buffer. An edit that a poll finds has to stay as it is for a while before it is
applied. The steps of the task are functions here; the clock says when they happen. The buffer has
other writers: `amid` is what they do to it between the reading and the writing of one step.
-/

namespace DesignSync

/-- A source that waits to be applied, and how many more times it may be read again. -/
structure Waiting where
  source : String
  left : Nat
deriving DecidableEq, Repr

structure Session (β : Type) where
  coordinator : Coordinator β
  store : Store
  /-- How many have changed the document and are yet to tell the task. -/
  untold : Nat
  /-- Whether the task was told of a change since it looked last. -/
  notified : Bool
  waiting : Option Waiting

namespace Session

variable {β : Type} [Buffer β]

/-- A session whose task has not run yet. -/
def init (store : Store) (buffer : β) (config : SyncConfig) (target : SyncTarget) : Session β :=
  ⟨Coordinator.start buffer config target, store, 0, false, none⟩

def editBuffer (s : Session β) (edit : β → β) : Session β :=
  { s with coordinator := s.coordinator.editBuffer edit }

/-- Pushes; a failure waits for the next change. -/
def push (s : Session β) (amid : β → β) : Session β :=
  let found := Buffer.readAll s.coordinator.buffer
  let (c, store, _) := (s.coordinator.editBuffer amid).pushFinding s.store found
  { s with coordinator := c, store := store }

def apply (s : Session β) (source : String) : Session β :=
  let (c, store, _) := s.coordinator.applySource s.store source
  { s with coordinator := c, store := store, waiting := none }

/-- A source that was read: it waits while there are rounds left, and else is applied. -/
def settle (s : Session β) (source : String) : Nat → Session β
  | 0 => s.apply source
  | left + 1 => { s with waiting := some ⟨source, left⟩ }

/-- The look of a poll at the source. One that was not observed yet has to settle. -/
def look (s : Session β) (amid : β → β) : Session β :=
  match (s.coordinator.editBuffer amid).observeFinding s.coordinator.currentSource with
  | (c, .ok (some source)) =>
    settle { s with coordinator := c } source s.coordinator.config.maxDebounceRounds
  | (c, _) => { s with coordinator := c }

/-- The end of a wait: a source that changed meanwhile waits again, any other is applied. -/
def reread (s : Session β) (amid : β → β) : Session β :=
  match s.waiting with
  | none => s
  | some w =>
    match s.coordinator.currentSource with
    | .ok (some source) =>
      if source = w.source then (s.editBuffer amid).apply source
      else (s.editBuffer amid).settle source w.left
    | _ => (s.editBuffer amid).apply w.source

/-! ### From outside -/

/-- Changes the document. The task is to be told of it once others may look at the document. -/
def change {α : Type} (s : Session β) (f : Store → Store × α) : Session β × α :=
  let (store, result) := f s.store
  ({ s with store := store, untold := s.untold + 1 }, result)

/-- One of those who have changed the document tells the task. -/
def tell (s : Session β) : Session β :=
  if s.untold = 0 then s else { s with untold := s.untold - 1, notified := true }

/-- Changes the document and tells the task. -/
def mutate {α : Type} (s : Session β) (f : Store → Store × α) : Session β × α :=
  let (s, result) := s.change f
  (s.tell, result)

end Session

end DesignSync

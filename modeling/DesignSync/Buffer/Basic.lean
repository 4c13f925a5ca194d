import DesignSync.Dict

/-!
Buffers: files that somebody else edits. They can be read as a whole and written in batches, and
they tell nobody when they change.
-/

namespace DesignSync

/-- The content of each file by its path. -/
abbrev Files := Dict String

/-- A batch of changes: files to remove, then files to write. -/
structure FileDiff where
  create : Files
  destroy : List String
deriving DecidableEq

namespace FileDiff

def empty : FileDiff := ⟨Dict.empty, []⟩

def isEmpty (d : FileDiff) : Bool := d.create.isEmpty && d.destroy.isEmpty

end FileDiff

inductive BufferError where
  /-- The files cannot be read or written as asked. -/
  | io
  | invalidPath (path : String)
deriving DecidableEq, Repr

def BufferError.message : BufferError → String
  | io => "IO error"
  | invalidPath path => "Invalid buffer path: " ++ path

/-- What a buffer can do. All its files are none before it is initialized. A batch that fails may
    have been carried out in part. -/
class Buffer (β : Type) where
  readAll : β → Except BufferError (Option Files)
  write : β → FileDiff → β × Option BufferError
  fileAt : β → String → Except BufferError (Option String) := fun b path =>
    (readAll b).map fun files => files.bind (·.get? path)

end DesignSync

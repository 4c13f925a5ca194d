import DesignSync.Buffer.Basic

/-!
Buffers in memory, and buffers whose reading or writing is out of order.
-/

namespace DesignSync

structure MemoryBuffer where
  files : Option Files
  /-- How many batches have been written. -/
  writes : Nat

namespace MemoryBuffer

/-- A buffer that has not been initialized. -/
def fresh : MemoryBuffer := ⟨none, 0⟩

/-- Initialized, with the files that it has. -/
def opened (b : MemoryBuffer) : MemoryBuffer := { b with files := some (b.files.getD Dict.empty) }

/-- An edit from outside. -/
def setFile (b : MemoryBuffer) (path content : String) : MemoryBuffer :=
  { b with files := some ((b.files.getD Dict.empty).insert path content) }

def file? (b : MemoryBuffer) (path : String) : Option String := b.files.bind (·.get? path)

def apply (files : Files) (d : FileDiff) : Files :=
  (files.filter fun path _ => !d.destroy.contains path).extend d.create

instance : Buffer MemoryBuffer where
  readAll b := .ok b.files
  write b d := (⟨some (apply (b.files.getD Dict.empty) d), b.writes + 1⟩, none)

end MemoryBuffer

/-- A buffer that can be told to fail. Failing operations change nothing. -/
structure FaultyBuffer (β : Type) where
  buffer : β
  readFails : Bool
  writeFails : Bool

instance {β : Type} [Buffer β] : Buffer (FaultyBuffer β) where
  readAll b := if b.readFails then .error (.invalidPath "read") else Buffer.readAll b.buffer
  write b d :=
    if b.writeFails then (b, some (.invalidPath "write"))
    else
      let (buffer, failure) := Buffer.write b.buffer d
      ({ b with buffer := buffer }, failure)

end DesignSync

import DesignSync.Buffer.Directory
import DesignSync.Command.Run
import DesignSync.Sync.Timeline
import Std.Async.Signal

/-!
The program: the commands on the files of the machine. A sync runs by the clock until the user
interrupts it; before each of its steps the files that it deals with are read, and after it those
that the step changed are written.
-/

namespace DesignSync

private def FileError.ofMachine : IO.Error → FileError
  | .noFileOrDirectory .. => notFound
  | .alreadyExists .. => alreadyThere
  | .inappropriateType _ 20 _ => notFolder
  | .inappropriateType _ 21 _ => isFolder
  | e => refused (toString e)

private def attempt {α : Type} (x : IO α) : IO (Except FileError α) :=
  return (← x.toBaseIO).mapError .ofMachine

/-- What is at a path of the machine, as far as it can be read. -/
private def entryAt? (path : String) : IO (Option Entry) := do
  match ← attempt (IO.FS.readBinFile path) with
  | .ok bytes => return some (.ofBytes bytes)
  | .error .isFolder => return some .folder
  | .error _ => return none

/-- Where the folder of a sync is in the tree that stands for it. -/
private def mirrorRoot : String := "buffer"

private def mirrorRoute (path : String) : Route := (Route.ofText path).under mirrorRoot

private def syncedPaths (config : SyncConfig) : List String :=
  [config.sourcePath, config.propsPath].filter fun path => !(Route.ofText path).escapes

/-- The folder with the files that a sync deals with. -/
private def readMirror (folder : String) (config : SyncConfig) : IO FileTree := do
  if !(← entryAt? folder).any (·.isFolder) then return .empty
  let mut tree := FileTree.empty.put mirrorRoot .folder
  for path in syncedPaths config do
    if let some entry ← entryAt? (joinPath folder path) then
      let route := mirrorRoute path
      let around := (tree.createFolders route.parent).1
      tree := match around.writeFile route entry with
        | .ok tree => tree
        | .error _ => around
  return tree

/-- Writes the files in which one tree differs from another. -/
private def writeMirror (folder : String) (config : SyncConfig) (before after : FileTree) :
    IO Unit := do
  for path in syncedPaths config do
    let file := joinPath folder path
    let text? (t : FileTree) : Option String := (t.readText (mirrorRoute path)).toOption
    if let some content := text? after then
      if text? before != some content then
        IO.FS.createDirAll (Route.ofText file).parent.text
        IO.FS.writeFile file content

/-- All that is due at a time, on the files as they are. -/
private def advance (folder : String) (t : Timeline FolderBuffer) (now : Nat) :
    IO (Timeline FolderBuffer) := do
  let files ← readMirror folder t.config
  let onFiles (s : Session FolderBuffer) : Session FolderBuffer :=
    { s with coordinator := { s.coordinator with buffer := ⟨files, mirrorRoot⟩ } }
  let t := (t.update onFiles).run now now
  writeMirror folder t.config files t.session.coordinator.buffer.tree
  return t

/-- Runs a session until `stopped`, and then to the end of a wait. -/
private partial def live (folder : String) (stopped : IO Bool) (start : Nat)
    (t : Timeline FolderBuffer) : IO Store := do
  let t ← advance folder t ((← IO.monoMsNow) - start)
  if (← stopped) && t.session.waiting.isNone then return t.session.store
  IO.sleep 20
  live folder stopped start t

instance : Host IO where
  workingDir := return toString (← IO.currentDir)
  isPresent path := return (← entryAt? path).isSome
  readText path := do
    match ← attempt (IO.FS.readBinFile path) with
    | .error e => return .error e
    | .ok bytes => return match String.fromUTF8? bytes with
      | some text => .ok text
      | none => .error .notText
  writeText path content := attempt (IO.FS.writeFile path content)
  createFolders path := attempt (IO.FS.createDirAll path)
  out text := do
    (← IO.getStdout).putStr text
    (← IO.getStdout).flush
  err text := do (← IO.getStderr).putStr text
  keepInStep folder config target store := do
    let interrupt ← (← Std.Async.Signal.Waiter.mk .sigint false).wait
    let stopped : IO Bool := IO.hasFinished interrupt.run
    let session := Session.init store ⟨.empty, mirrorRoot⟩ config target
    live folder stopped (← IO.monoMsNow) (.init session)

end DesignSync

def main (arguments : List String) : IO UInt32 :=
  return (← DesignSync.runCommand arguments).toUInt32

import DesignSync.Buffer.Directory
import DesignSync.Command.Host
import DesignSync.Sync.Timeline

/-!
A host whose files are a tree in memory, and where a sync is stopped as soon as it has begun.
-/

namespace DesignSync

/-- A working directory with all that is in it, and what was shown so far. -/
structure Workspace where
  /-- The absolute path of the directory. -/
  path : String
  tree : FileTree
  out : String
  err : String

namespace Workspace

/-- A path as one from the working directory, if it leads there. -/
def route (w : Workspace) (path : String) : Route :=
  let r := Route.ofText path
  match (Route.ofText w.path).steps.isPrefixOf? r.steps with
  | some steps => ⟨false, steps⟩
  | none => r

/-- What a sync does that is stopped before its second poll: the first push and poll, and the end of
    a wait that they began. -/
def syncBriefly (w : Workspace) (folder : String) (config : SyncConfig) (target : SyncTarget)
    (store : Store) : Workspace × Store :=
  let buffer : FolderBuffer := ⟨w.tree, (w.route folder).text⟩
  let session := ((Timeline.init (Session.init store buffer config target)).run 0 0).dispose.session
  ({ w with tree := session.coordinator.buffer.tree }, session.store)

instance : Host (StateM Workspace) where
  workingDir := return (← get).path
  isPresent path := modifyGet fun w => (w.tree.isPresent (w.route path), w)
  readText path := modifyGet fun w => (w.tree.readText (w.route path), w)
  writeText path content := modifyGet fun w =>
    match w.tree.writeFile (w.route path) (.text content) with
    | .ok tree => (.ok (), { w with tree := tree })
    | .error e => (.error e, w)
  createFolders path := modifyGet fun w =>
    let (tree, failure) := w.tree.createFolders (w.route path)
    (failure.elim (.ok ()) .error, { w with tree := tree })
  out text := modify fun w => { w with out := w.out ++ text }
  err text := modify fun w => { w with err := w.err ++ text }
  keepInStep folder config target store := modifyGet fun w =>
    let (w, store) := w.syncBriefly folder config target store
    (store, w)

end Workspace

end DesignSync

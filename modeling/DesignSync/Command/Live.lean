import DesignSync.Command.Loading
import DesignSync.Command.Request

/-!
Keeping a document and a folder in step, from the command line.
-/

namespace DesignSync

variable {m : Type → Type} [Monad m] [Host m]

/-- Syncs until the host is told to stop, and saves the document if that is asked for. -/
def syncDocument (r : SyncRequest) : Action m Unit := do
  let config ← loadConfig
  let path ← snapshotPath config r.snapshot
  let store ← loadStore path
  let target ← targetOf store r.choice config
  let sync := r.pollMs.elim config.sync fun ms => { config.sync with pollIntervalMs := ms }
  let folder := r.dir.getD (joinPath (← Host.workingDir) config.bufferDir)
  if !(← Host.isPresent folder) then
    Action.line ("⚠️ " ++ folder ++ " does not exist yet, waiting for it to be created")
  Action.line ("🔄 Syncing " ++ target.root)
  Action.line ("   Snapshot: " ++ path)
  Action.line ("   Buffer:   " ++ joinPath folder sync.sourcePath)
  Action.line "   Press Ctrl+C to stop"
  Action.line ""
  let store ← Host.keepInStep folder sync target store
  if r.save then
    Action.orFail .file (Host.writeText path store.snapshot.text)
    Action.line ("  ✓ Saved " ++ path)
  Action.line "✨ Done Sync stopped"

end DesignSync

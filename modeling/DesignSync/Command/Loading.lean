import DesignSync.Command.Host
import DesignSync.Document.Encoding
import DesignSync.Markup.Diagnostic

/-!
What the commands begin with: the settings of the project and the document; and how they show what
was found on the way.
-/

namespace DesignSync

variable {m : Type → Type} [Monad m] [Host m]

/-- The settings of the project in the working directory, which are the defaults without a file. -/
def loadConfig : Action m ProjectConfig := do
  let path := joinPath (← Host.workingDir) ProjectConfig.fileName
  if ← Host.isPresent path then
    let text ← Action.orFail .file (Host.readText path)
    Action.ofExcept .badConfig (ProjectConfig.ofText text)
  else return .default

/-- The path of the document: the one that was given, or else the one of the settings. -/
def snapshotPath (config : ProjectConfig) : Option String → Action m String
  | some path => pure path
  | none => return joinPath (← Host.workingDir) config.snapshot

def loadStore (path : String) : Action m Store := do
  let text ← Action.orFail (fun _ => .unreadableSnapshot path) (Host.readText path)
  match Snapshot.ofText? text with
  | some snapshot => return Store.ofSnapshot snapshot
  | none => throw (.badSnapshot path)

def targetOf (store : Store) (choice : TargetChoice) (config : ProjectConfig) :
    Action m SyncTarget :=
  Action.ofExcept .target (store.target choice config)

private def showFinding (level : String) (d : Markup.Diagnostic) : Action m Unit :=
  Action.remark ("  " ++ level ++ " [" ++ d.rule ++ "] " ++ d.message)

/-- Shows what reading found; remarks only if all is asked for. -/
def showFindings (ds : List Markup.Diagnostic) (all : Bool) : Action m Unit :=
  (ds.filter fun d => all || d.level != .info).forM fun d => showFinding d.level.name d

/-- Shows what writing found. -/
def showWarnings (ds : List Markup.Diagnostic) : Action m Unit := ds.forM (showFinding "warning")

end DesignSync

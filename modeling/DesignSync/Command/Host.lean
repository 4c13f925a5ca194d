import DesignSync.Document.Invariant
import DesignSync.FileTree.Access
import DesignSync.Project.Target
import DesignSync.Sync.Config

/-!
What a command needs from the place where it runs, and how it can fail.
-/

namespace DesignSync

/-- A place where commands run. A path is relative to the working directory or absolute. -/
class Host (m : Type → Type) where
  /-- The absolute path of the working directory. -/
  workingDir : m String
  isPresent : String → m Bool
  readText : String → m (Except FileError String)
  writeText : String → String → m (Except FileError Unit)
  /-- Creates a folder and those around it. -/
  createFolders : String → m (Except FileError Unit)
  out : String → m Unit
  err : String → m Unit
  /-- Keeps a document and a folder in step until it is told to stop; the document as it is then. -/
  keepInStep : String → SyncConfig → SyncTarget → Store → m Store

inductive CommandError where
  | file (e : FileError)
  /-- Settings that cannot be read, with the reason. -/
  | badConfig (reason : String)
  | unreadableSnapshot (path : String)
  | badSnapshot (path : String)
  | target (e : TargetError)
  | scope (e : ScopeError)
  /-- A source that cannot be read, with the report on it. -/
  | source (report : String)
  | unknownFormat (name : String)
  | violation (v : Violation)
  | unstable (failures trees : Nat)
deriving DecidableEq

def CommandError.message : CommandError → String
  | file e => e.message
  | badConfig reason => reason
  | unreadableSnapshot path => "Cannot read snapshot " ++ path
  | badSnapshot path => "Invalid snapshot " ++ path
  | target e => e.message
  | scope e => e.message
  | source report => "\n" ++ report
  | unknownFormat name => "Unknown format: " ++ name
  | violation v => "Snapshot violates document invariants: " ++ v.message
  | unstable failures trees =>
    toString failures ++ " of " ++ toString trees ++ " trees failed the round trip"

/-- What a command does at a host. -/
abbrev Action (m : Type → Type) := ExceptT CommandError m

variable {m : Type → Type} [Monad m] [Host m]

instance {ε : Type} : Host (ExceptT ε m) where
  workingDir := ExceptT.lift Host.workingDir
  isPresent path := ExceptT.lift (Host.isPresent path)
  readText path := ExceptT.lift (Host.readText path)
  writeText path content := ExceptT.lift (Host.writeText path content)
  createFolders path := ExceptT.lift (Host.createFolders path)
  out text := ExceptT.lift (Host.out text)
  err text := ExceptT.lift (Host.err text)
  keepInStep folder config target store :=
    ExceptT.lift (Host.keepInStep folder config target store)

namespace Action

/-- An error ends the command, as the error that `f` makes of it. -/
def ofExcept {ε α : Type} (f : ε → CommandError) (x : Except ε α) : Action m α :=
  ExceptT.mk (pure (x.mapError f))

/-- The same for an error of the host. -/
def orFail {ε α : Type} (f : ε → CommandError) (x : Action m (Except ε α)) : Action m α :=
  x >>= ofExcept f

/-- A line of output. -/
def line (text : String) : Action m Unit := Host.out (text ++ "\n")

/-- A line for the user that is no output. -/
def remark (text : String) : Action m Unit := Host.err (text ++ "\n")

end Action

end DesignSync

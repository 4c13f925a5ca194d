import DesignSync.Command.Live
import DesignSync.Command.Setup
import DesignSync.Command.Source
import DesignSync.Command.Verification

/-!
Running a command line.
-/

namespace DesignSync

variable {m : Type → Type} [Monad m] [Host m]

namespace Request

/-- Does what is asked for. -/
def perform : Request → Action m Unit
  | init r => initProject r
  | serialize r => serializeTree r
  | parse r => showElements r
  | check r => checkDocument r
  | sync r => syncDocument r

end Request

/-- Runs a command line; the exit code. -/
def runCommand (arguments : List String) : m Nat := do
  match Request.ofArguments arguments with
  | .error e =>
    Host.err ("error: " ++ e.message ++ "\n")
    return 2
  | .ok request =>
    match ← (request.perform : Action m Unit).run with
    | .ok _ => return 0
    | .error e =>
      Host.err ("\nError: " ++ e.message ++ "\n\n")
      return 1

end DesignSync

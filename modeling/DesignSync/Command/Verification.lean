import DesignSync.Command.Loading
import DesignSync.Command.Request
import DesignSync.Project.RoundTrip

/-!
Checking the round trips of the trees of a document.
-/

namespace DesignSync

variable {m : Type → Type} [Monad m] [Host m]

/-- Shows how the round trip of a tree ended, and says whether the tree is as before. -/
def showRoundTrip (root : String) : RoundTrip → Action m Bool
  | .stable => do
    Action.line ("  ✓ " ++ root)
    return true
  | .diverged line expected actual => do
    Action.line ("  ✗ " ++ root ++ " - differs at line " ++ toString line)
    Action.line ("      - " ++ expected)
    Action.line ("      + " ++ actual)
    return false
  | .unreadable e => do
    Action.line ("  ✗ " ++ root ++ " - " ++ e.message)
    return false

/-- The trees that a check goes through: the one that is asked for, or else those of all elements
    that are no child of any. -/
def Store.checkedRoots (s : Store) (root : Option String) : List String :=
  root.elim s.topLevelIds ([·])

/-- Shows the round trip of one tree, and says whether the tree is as before. -/
def checkTree (store : Store) (config : ProjectConfig) (verbose : Bool) (root : String) :
    Action m Bool := do
  let target ← targetOf store { TargetChoice.any with root := some root } config
  let (result, findings) := store.roundTrip target config.sync.sourcePath
  showFindings findings verbose
  showRoundTrip root result

/-- Shows the round trips of some trees, and fails if one of them is not as before. -/
def checkTrees (store : Store) (config : ProjectConfig) (verbose : Bool) (roots : List String) :
    Action m Unit := do
  let results ← roots.mapM (checkTree store config verbose)
  Action.line ""
  let failures := results.count false
  if 0 < failures then throw (.unstable failures roots.length)
  Action.line ("✅ " ++ toString roots.length ++ " trees round-trip cleanly")

/-- Checks one tree of a document or all, once the document itself is sound. -/
def checkStore (path : String) (store : Store) (config : ProjectConfig) (r : CheckRequest) :
    Action m Unit := do
  Action.line ("🔍 Checking " ++ path)
  Action.line ""
  match store.violation? with
  | some v => throw (.violation v)
  | none => checkTrees store config r.verbose (store.checkedRoots r.root)

/-- The check of a document that is saved. -/
def checkDocument (r : CheckRequest) : Action m Unit := do
  let config ← loadConfig
  let path ← snapshotPath config r.snapshot
  let store ← loadStore path
  checkStore path store config r

end DesignSync

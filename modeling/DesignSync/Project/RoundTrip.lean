import DesignSync.Markup.Elements
import DesignSync.Markup.Writer
import DesignSync.Sync.Target

/-!
Checking that a tree survives being written, read, and written again.
-/

namespace DesignSync

inductive RoundTrip where
  | stable
  /-- The second text differs from the first in a line. -/
  | diverged (line : Nat) (expected actual : String)
  /-- The first text cannot be read. -/
  | unreadable (error : Markup.ReadError)
deriving DecidableEq, Repr

/-- The first line in which two texts differ, counted from `n`, as it is in both. -/
def firstDifference (n : Nat) : List String → List String → Nat × String × String
  | a :: as, b :: bs => if a = b then firstDifference (n + 1) as bs else (n, a, b)
  | as, bs => (n, as.headD "", bs.headD "")

/-- The round trip of a target's tree, and what reading it found. -/
def Store.roundTrip (s : Store) (t : SyncTarget) (path : String) :
    RoundTrip × List Markup.Diagnostic :=
  let ctx := t.bindingContext s
  let first := (Markup.writeModule ctx s.elements t.root t.moduleName).text
  match Markup.read first path ctx with
  | .error e => (.unreadable e, [])
  | .ok tree =>
    let second := (Markup.writeModule ctx tree.elements t.root t.moduleName).text
    if first = second then (.stable, tree.diagnostics)
    else
      let (n, expected, actual) := firstDifference 1 (Text.lines first) (Text.lines second)
      (.diverged n expected actual, tree.diagnostics)

end DesignSync

import DesignSync.Command.Arguments
import DesignSync.Project.Target

/-!
What can be asked for on the command line.
-/

namespace DesignSync

/-- Starts a project. -/
structure InitRequest where
  snapshot : String
  bufferDir : String
  /-- Whether existing settings are replaced. -/
  force : Bool
deriving DecidableEq, Repr

/-- Shows or writes the source of a tree. -/
structure SerializeRequest where
  snapshot : Option String
  choice : TargetChoice
  /-- Whether the module around the tree is left out. -/
  bare : Bool
  /-- The folder that gets source and props. -/
  outDir : Option String
deriving DecidableEq, Repr

/-- Shows the elements of a source. -/
structure ParseRequest where
  input : String
  /-- The document whose props are in scope. -/
  snapshot : Option String
  choice : TargetChoice
  format : String
  verbose : Bool
deriving DecidableEq, Repr

/-- Checks the round trips of trees. -/
structure CheckRequest where
  snapshot : Option String
  root : Option String
  verbose : Bool
deriving DecidableEq, Repr

/-- Keeps a document and a folder in step. -/
structure SyncRequest where
  snapshot : Option String
  choice : TargetChoice
  dir : Option String
  pollMs : Option Nat
  /-- Whether the document is saved at the end. -/
  save : Bool
deriving DecidableEq, Repr

inductive Request where
  | init (r : InitRequest)
  | serialize (r : SerializeRequest)
  | parse (r : ParseRequest)
  | check (r : CheckRequest)
  | sync (r : SyncRequest)
deriving DecidableEq, Repr

namespace Request

open Command

private def value (name : String) (letter : Option Char) : OptionForm := ⟨name, letter, true⟩

private def flag (name : String) (letter : Option Char) : OptionForm := ⟨name, letter, false⟩

private def rootForm : OptionForm := value "root" (some 'r')

private def verboseForm : OptionForm := flag "verbose" (some 'v')

private def choiceForms : List OptionForm :=
  [rootForm, value "module" (some 'm'), value "component" none, value "instance" none]

/-- The options of each command. -/
def forms? : String → Option (List OptionForm)
  | "init" =>
    some [value "snapshot" (some 's'), value "buffer-dir" (some 'b'), flag "force" (some 'f')]
  | "serialize" => some (choiceForms ++ [flag "bare" none, value "out-dir" (some 'o')])
  | "parse" =>
    some (choiceForms ++ [value "snapshot" (some 's'), value "format" (some 'f'), verboseForm])
  | "check" => some [rootForm, verboseForm]
  | "sync" =>
    some (choiceForms ++ [value "dir" (some 'd'), value "poll-ms" none, flag "save" none])
  | _ => none

/-- The path under a name, which is not empty. -/
private def path? (name : String) (value : Option String) :
    Except ArgumentError (Option String) :=
  if value = some "" then .error (.invalidValue name "") else .ok value

private def choiceOf (a : Arguments) : Except ArgumentError TargetChoice :=
  if a.flag "component" && a.flag "instance" then .error (.conflict "component" "instance")
  else
    .ok ⟨a.value? "root", a.value? "module", a.value? "component", a.value? "instance"⟩

/-- The only argument by position, if there is one. -/
private def single? (name : String) (a : Arguments) : Except ArgumentError (Option String) :=
  match a.positional with
  | [] => .ok none
  | [value] => path? name (some value)
  | _ :: value :: _ => .error (.unexpected value)

/-- A number of milliseconds, which has 64 bits. -/
def millis? (text : String) : Option Nat :=
  let digits := match text.toList with
    | '+' :: cs => cs
    | cs => cs
  let n := digits.foldl (fun n c => 10 * n + (c.toNat - '0'.toNat)) 0
  if !digits.isEmpty && digits.all Char.isDigit && n < UInt64.size then some n else none

private def millisOf (a : Arguments) : Except ArgumentError (Option Nat) :=
  match a.value? "poll-ms" with
  | none => .ok none
  | some text =>
    match millis? text with
    | some n => .ok (some n)
    | none => .error (.invalidValue "poll-ms" text)

private def ofOptions (name : String) (a : Arguments) : Except ArgumentError Request :=
  match name with
  | "init" =>
    match a.positional with
    | x :: _ => .error (.unexpected x)
    | [] =>
      .ok <| init
        { snapshot := (a.value? "snapshot").getD ProjectConfig.default.snapshot
          bufferDir := (a.value? "buffer-dir").getD ProjectConfig.default.bufferDir
          force := a.flag "force" }
  | "serialize" => do
    return serialize
      { snapshot := ← single? "SNAPSHOT" a
        choice := ← choiceOf a
        bare := a.flag "bare"
        outDir := ← path? "out-dir" (a.value? "out-dir") }
  | "parse" => do
    match ← single? "INPUT" a with
    | none => .error (.missing "INPUT")
    | some input =>
      return parse
        { input := input
          snapshot := ← path? "snapshot" (a.value? "snapshot")
          choice := ← choiceOf a
          format := (a.value? "format").getD "text"
          verbose := a.flag "verbose" }
  | "check" => do
    return check
      { snapshot := ← single? "SNAPSHOT" a
        root := a.value? "root"
        verbose := a.flag "verbose" }
  | "sync" => do
    return sync
      { snapshot := ← single? "SNAPSHOT" a
        choice := ← choiceOf a
        dir := ← path? "dir" (a.value? "dir")
        pollMs := ← millisOf a
        save := a.flag "save" }
  | _ => .error (.unknownCommand name)

/-- The request of a command line: the name of a command, and its arguments. -/
def ofArguments : List String → Except ArgumentError Request
  | [] => .error .missingCommand
  | name :: arguments =>
    match forms? name with
    | none => .error (.unknownCommand name)
    | some forms => Arguments.read forms .none none arguments >>= ofOptions name

end Request

end DesignSync

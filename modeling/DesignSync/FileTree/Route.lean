import DesignSync.Text.Blank

/-!
Paths as they are written: names with slashes between them.
-/

namespace DesignSync

/-- How a path ends. Anything but a name says that a folder is meant. -/
inductive Ending where
  | name
  /-- A name with a slash behind it. -/
  | slash
  /-- The step `.`, with a slash behind it or not. -/
  | dot
deriving DecidableEq, Repr

/-- A path that was read, as what stands between its slashes. -/
structure Route where
  absolute : Bool
  steps : List String
deriving DecidableEq, Repr

namespace Route

def ofText (path : String) : Route :=
  ⟨path.startsWith "/", (Text.splitWhere (· == '/') path.toList).map String.ofList⟩

/-- Whether a step is a name: `.` and nothing at all are none, `..` is one. -/
def isName (step : String) : Bool := step != "" && step != "."

def names (r : Route) : List String := r.steps.filter isName

def ending (r : Route) : Ending :=
  match r.steps.reverse with
  | "" :: steps => if steps.dropWhile (· == "") |>.head?.any (· == ".") then .dot else .slash
  | "." :: _ => .dot
  | _ => .name

/-- How many bytes the path has as it is written. -/
def size (r : Route) : Nat :=
  r.steps.foldr (fun step n => step.utf8ByteSize + n) (r.steps.length - 1)

/-- Whether the path has no character. It leads nowhere. -/
def isNothing (r : Route) : Bool := !r.absolute && r.size == 0

/-- A path that starts where another leads. A slash at the end of the other is the one between
    them. -/
def under (front : String) (r : Route) : Route :=
  let f := ofText front
  ⟨f.absolute, (if f.steps.getLast? = some "" then f.steps.dropLast else f.steps) ++ r.steps⟩

/-- The steps up to the last name. -/
def upToName (steps : List String) : List String :=
  (steps.reverse.dropWhile fun step => !isName step).reverse

/-- The way to the folder that holds what a path leads to. -/
def parent (r : Route) : Route := ⟨r.absolute, upToName (upToName r.steps).dropLast⟩

/-- A path that leads to the same place. -/
def text (r : Route) : String :=
  let names := "/".intercalate r.names
  if r.absolute then "/" ++ names else if r.names.isEmpty then "." else names

/-- Whether a path might lead out of the folder that it starts from. -/
def escapes (r : Route) : Bool := r.absolute || r.names.contains ".."

end Route

/-- A path behind another, which has no say if the path behind it is absolute. -/
def joinPath (front path : String) : String :=
  if path.startsWith "/" || front.isEmpty then path
  else if front.endsWith "/" then front ++ path
  else front ++ "/" ++ path

end DesignSync

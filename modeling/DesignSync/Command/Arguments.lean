/-!
Command lines: options by a long name behind two dashes or by a letter behind one, and arguments by
their position.
-/

namespace DesignSync.Command

/-- An option of a command. -/
structure OptionForm where
  name : String
  letter : Option Char
  takesValue : Bool
deriving DecidableEq, Repr

inductive ArgumentError where
  | unknownCommand (name : String)
  | missingCommand
  | unexpected (argument : String)
  | missing (name : String)
  | missingValue (name : String)
  | unwantedValue (name : String)
  | repeated (name : String)
  | conflict (name other : String)
  | invalidValue (name value : String)
deriving DecidableEq, Repr

def ArgumentError.message : ArgumentError → String
  | unknownCommand name => "unrecognized subcommand '" ++ name ++ "'"
  | missingCommand => "a subcommand is required"
  | unexpected argument => "unexpected argument '" ++ argument ++ "' found"
  | missing name => "the required argument '" ++ name ++ "' was not provided"
  | missingValue name => "a value is required for '--" ++ name ++ "' but none was supplied"
  | unwantedValue name => "no value is expected for '--" ++ name ++ "'"
  | repeated name => "the argument '--" ++ name ++ "' cannot be used multiple times"
  | conflict name other =>
    "the argument '--" ++ name ++ "' cannot be used with '--" ++ other ++ "'"
  | invalidValue name value => "invalid value '" ++ value ++ "' for '" ++ name ++ "'"

/-- What stands on a command line. -/
structure Arguments where
  /-- The options by their long names, each with its value if it takes one. -/
  options : List (String × Option String)
  positional : List String
deriving DecidableEq, Repr

namespace Arguments

def none : Arguments := ⟨[], []⟩

def addOption (a : Arguments) (name : String) (value : Option String) :
    Except ArgumentError Arguments :=
  if a.options.any (·.1 == name) then .error (.repeated name)
  else .ok { a with options := a.options ++ [(name, value)] }

def addPositional (a : Arguments) (value : String) : Arguments :=
  { a with positional := a.positional ++ [value] }

/-- Whether an argument stands for an option rather than for a value. -/
def isOption (argument : String) : Bool := argument.startsWith "-" && argument != "-"

private def splitAtEquals (cs : List Char) : String × Option String :=
  (String.ofList (cs.takeWhile (· != '=')),
    match cs.dropWhile (· != '=') with
    | [] => Option.none
    | _ :: value => some (String.ofList value))

/-- Reads letters behind one dash. The first that takes a value has the letters behind it as its
    value, or waits for the next argument if there are none. -/
def letters (forms : List OptionForm) (a : Arguments) :
    List Char → Except ArgumentError (Arguments × Option String)
  | [] => .ok (a, Option.none)
  | c :: cs =>
    match forms.find? (·.letter == some c) with
    | Option.none => .error (.unexpected (String.ofList ['-', c]))
    | some form =>
      if form.takesValue then
        match cs with
        | [] => .ok (a, some form.name)
        | '=' :: value => (a.addOption form.name (some (String.ofList value))).map (·, Option.none)
        | value => (a.addOption form.name (some (String.ofList value))).map (·, Option.none)
      else a.addOption form.name Option.none >>= fun a => letters forms a cs

/-- Reads one argument: what is known then, and the option that waits for its value. -/
def step (forms : List OptionForm) (a : Arguments) (argument : String) :
    Except ArgumentError (Arguments × Option String) :=
  match argument.toList with
  | '-' :: '-' :: cs =>
    let (name, value) := splitAtEquals cs
    match forms.find? (·.name == name) with
    | Option.none => .error (.unexpected ("--" ++ name))
    | some form =>
      match form.takesValue, value with
      | true, Option.none => .ok (a, some name)
      | false, some _ => .error (.unwantedValue name)
      | _, _ => (a.addOption name value).map (·, Option.none)
  | '-' :: c :: cs => letters forms a (c :: cs)
  | _ => .ok (a.addPositional argument, Option.none)

/-- Reads arguments, of which the first is the value of an option that waits for one. Behind `--`
    there are no more options. -/
def read (forms : List OptionForm) (a : Arguments) (waiting : Option String) :
    List String → Except ArgumentError Arguments
  | [] =>
    match waiting with
    | some name => .error (.missingValue name)
    | Option.none => .ok a
  | argument :: rest =>
    match waiting with
    | some name =>
      if isOption argument then .error (.missingValue name)
      else a.addOption name (some argument) >>= fun a => read forms a Option.none rest
    | Option.none =>
      if argument = "--" then .ok (rest.foldl addPositional a)
      else step forms a argument >>= fun (a, waiting) => read forms a waiting rest

def flag (a : Arguments) (name : String) : Bool := a.options.any (·.1 == name)

def value? (a : Arguments) (name : String) : Option String :=
  (a.options.lookup name).bind id

end Arguments

end DesignSync.Command

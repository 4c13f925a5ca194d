import DesignSync.FileTree.Basic
import DesignSync.FileTree.Route

/-!
Reading and changing the files of a tree by the paths to them.
-/

namespace DesignSync

/-- Why something cannot be done with the file at a path. -/
inductive FileError where
  | notFound
  | isFolder
  | notFolder
  /-- A file is where a folder is to be created. -/
  | alreadyThere
  | nameTooLong
  /-- A name with the character U+0000. -/
  | zeroInName
  /-- The bytes of a file are no text. -/
  | notText
  /-- What the machine says. -/
  | refused (message : String)
deriving DecidableEq, Repr

def FileError.message : FileError → String
  | notFound => "No such file or directory (os error 2)"
  | isFolder => "Is a directory (os error 21)"
  | notFolder => "Not a directory (os error 20)"
  | alreadyThere => "File exists (os error 17)"
  | nameTooLong => "File name too long (os error 36)"
  | zeroInName => "file name contained an unexpected NUL byte"
  | notText => "stream did not contain valid UTF-8"
  | refused message => message

namespace FileTree

/-- How many bytes a name may have. -/
def maxNameSize : Nat := 255

/-- How many bytes a path may have. -/
def maxPathSize : Nat := 4095

/-- Refuses the paths that lead nowhere in any tree. -/
def accept (r : Route) : Except FileError Unit :=
  if r.isNothing then .error .notFound
  else if r.names.any fun name => name.toList.contains '\x00' then .error .zeroInName
  else if maxPathSize < r.size then .error .nameTooLong
  else .ok ()

/-- The place that a path starts from. -/
def start (t : FileTree) (r : Route) : Place := if r.absolute then .top else t.home

/-- One name further from a folder. `..` leads to the folder around it, and from the top to the
    top. -/
def next (place : Place) (name : String) : Except FileError Place :=
  if name = ".." then .ok place.parent
  else if maxNameSize < name.utf8ByteSize then .error .nameTooLong
  else .ok (place.child name)

/-- The place where some names lead from a place. All but the last have to lead to folders. -/
def follow (t : FileTree) (place : Place) : List String → Except FileError Place
  | [] => .ok place
  | name :: names =>
    match t.entry? place with
    | some .folder => next place name >>= fun place => t.follow place names
    | some _ => .error .notFolder
    | none => .error .notFound

/-- The place that a path leads to, and what is there. -/
def locate (t : FileTree) (r : Route) : Except FileError (Place × Option Entry) := do
  accept r
  let place ← t.follow (t.start r) r.names
  match t.entry? place with
  | some .folder => return (place, some .folder)
  | some e => if r.ending = .name then return (place, some e) else .error .notFolder
  | none => return (place, none)

def isPresent (t : FileTree) (r : Route) : Bool :=
  match t.locate r with
  | .ok (_, some _) => true
  | _ => false

def isFolder (t : FileTree) (r : Route) : Bool :=
  match t.locate r with
  | .ok (_, some .folder) => true
  | _ => false

def readText (t : FileTree) (r : Route) : Except FileError String :=
  t.locate r >>= fun (_, e) =>
    match e with
    | some (.text content) => .ok content
    | some (.binary _) => .error .notText
    | some .folder => .error .isFolder
    | none => .error .notFound

/-- The tree without the file at a path. -/
def remove (t : FileTree) (r : Route) : Except FileError FileTree :=
  t.locate r >>= fun (place, e) =>
    match e with
    | some .folder => .error .isFolder
    | some _ => .ok (t.erase place)
    | none => .error .notFound

/-- The folder in which the last name of a path is looked for. -/
def folderAround (t : FileTree) (r : Route) : Except FileError Place := do
  let place ← t.follow (t.start r) r.names.dropLast
  match t.entry? place with
  | some .folder => return place
  | some _ => .error .notFolder
  | none => .error .notFound

/-- The tree with a file at a path, in place of the file that is there. A path that ends with a
    slash is taken for one to a folder without a look at what is there. -/
def writeFile (t : FileTree) (r : Route) (file : Entry) : Except FileError FileTree := do
  accept r
  if r.ending = .slash then t.folderAround r >>= fun _ => .error .isFolder
  else
    let (place, e) ← t.locate r
    match e with
    | some .folder => .error .isFolder
    | some _ => return t.put place file
    | none => if r.ending = .name then return t.put place file else .error .notFound

/-- Creates the folders on the way from a folder along some names, as far as it can. Up to the first
    one that is missing the whole way is tried at once, and a file on it is no folder; once one was
    made the others are made one by one, and a file in the way is there already. A last name with
    `.` behind it is not created. -/
def createAlong (t : FileTree) (place : Place) (made dot : Bool) :
    List String → FileTree × Option FileError
  | [] => (t, none)
  | name :: names =>
    match next place name with
    | .error e => (t, some e)
    | .ok place =>
      let last := names.isEmpty
      match t.entry? place with
      | some .folder => t.createAlong place made dot names
      | some _ =>
        (t, some (if last && dot || !made && !last then .notFolder else .alreadyThere))
      | none =>
        if last && dot then (t, some .notFound)
        else (t.put place .folder).createAlong place true dot names

/-- Creates the folder at a path and those around it. For the path without a character nothing is to
    be created. -/
def createFolders (t : FileTree) (r : Route) : FileTree × Option FileError :=
  if r.isNothing then (t, none)
  else
    match accept r with
    | .error e => (t, some e)
    | .ok () => t.createAlong (t.start r) false (r.ending = .dot) r.names

end FileTree

end DesignSync

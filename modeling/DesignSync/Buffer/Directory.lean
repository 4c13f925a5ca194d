import DesignSync.Buffer.Basic
import DesignSync.FileTree.Access

/-!
Buffers that are a folder of a file tree, with all that is below it. Such a buffer is initialized as
soon as its folder is there. A path leads on from the folder and may not leave it.
-/

namespace DesignSync

structure FolderBuffer where
  tree : FileTree
  /-- The path to the folder. -/
  root : String

namespace FolderBuffer

def isOpen (b : FolderBuffer) : Bool := b.tree.isFolder (.ofText b.root)

/-- Where a path of the buffer leads in the tree. -/
def route? (b : FolderBuffer) (path : String) : Except BufferError Route :=
  let r := Route.ofText path
  if r.escapes then .error (.invalidPath path) else .ok (r.under b.root)

/-- The text files below a place, by how their places are written from it. -/
def textsBelow (t : FileTree) (place : FileTree.Place) : Files :=
  Dict.ofList <| (t.below place).filterMap fun (path, e) => e.text?.map fun content => (path, content)

/-- Whether what is somewhere below the folder has a path that is too long for the machine. -/
def isTooDeep (b : FolderBuffer) (place : FileTree.Place) : Bool :=
  (b.tree.below place).any fun (path, _) =>
    FileTree.maxPathSize < ((Route.ofText path).under b.root).size

/-- The text files of the buffer; other files are passed over. Each is read by its path. -/
def files (b : FolderBuffer) : Except BufferError (Option Files) :=
  match b.tree.locate (.ofText b.root) with
  | .ok (place, some .folder) =>
    if b.isTooDeep place then .error .io else .ok (some (textsBelow b.tree place))
  | _ => .ok none

/-- Removes files; one that is missing is no error. -/
def removeAll (b : FolderBuffer) : List String → FolderBuffer × Option BufferError
  | [] => (b, none)
  | path :: paths =>
    match b.route? path with
    | .error e => (b, some e)
    | .ok r =>
      match b.tree.remove r with
      | .ok t => { b with tree := t }.removeAll paths
      | .error .notFound => b.removeAll paths
      | .error _ => (b, some .io)

/-- Writes a file and creates the folders around it. -/
def writeText (b : FolderBuffer) (path content : String) : FolderBuffer × Option BufferError :=
  match b.route? path with
  | .error e => (b, some e)
  | .ok r =>
    match b.tree.createFolders r.parent with
    | (t, some _) => ({ b with tree := t }, some .io)
    | (t, none) =>
      match t.writeFile r (.text content) with
      | .ok t => ({ b with tree := t }, none)
      | .error _ => ({ b with tree := t }, some .io)

def writeAll (b : FolderBuffer) : List (String × String) → FolderBuffer × Option BufferError
  | [] => (b, none)
  | (path, content) :: files =>
    match b.writeText path content with
    | (b, some e) => (b, some e)
    | (b, none) => b.writeAll files

/-- The text of the file at a path, if the file is there. -/
def textAt (b : FolderBuffer) (path : String) : Except BufferError (Option String) :=
  if b.isOpen then
    b.route? path >>= fun r =>
      match b.tree.readText r with
      | .ok content => .ok (some content)
      | .error .notFound => .ok none
      | .error _ => .error .io
  else .ok none

/-- A batch removes its files first, and stops where something fails. -/
instance : Buffer FolderBuffer where
  readAll := files
  write b d :=
    match b.removeAll d.destroy with
    | (b, some e) => (b, some e)
    | (b, none) => b.writeAll d.create.entries
  fileAt := textAt

end FolderBuffer

end DesignSync

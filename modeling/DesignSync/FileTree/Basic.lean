import DesignSync.Dict

/-!
Trees of files. A place in a tree is written as the names that lead to it from the top with a slash
between neighbours, and the tree says what is at each of its places.
-/

namespace DesignSync

/-- What is at a place: a folder, or a file with a text or with bytes that are no text. -/
inductive Entry where
  | folder
  | text (content : String)
  | binary (bytes : ByteArray)

def Entry.isFolder : Entry → Bool
  | folder => true
  | _ => false

theorem Entry.isFolder_iff {e : Entry} : e.isFolder = true ↔ e = folder := by
  cases e <;> simp [isFolder]

instance (e : Entry) : Decidable (e = .folder) := decidable_of_iff _ Entry.isFolder_iff

def Entry.text? : Entry → Option String
  | text content => some content
  | _ => none

/-- The file with some bytes. -/
def Entry.ofBytes (bytes : ByteArray) : Entry :=
  match String.fromUTF8? bytes with
  | some content => text content
  | none => binary bytes

namespace FileTree

/-- A place in a tree. No name is empty or has a slash, and no name leads to the top. -/
abbrev Place := String

namespace Place

def top : Place := ""

/-- The place of a name in the folder at a place. -/
def child (place : Place) (name : String) : Place :=
  if place = top then name else place ++ "/" ++ name

/-- The place of the folder that holds what is at a place. -/
def parent (place : Place) : Place :=
  String.ofList ((place.toList.reverse.dropWhile (· != '/')).drop 1).reverse

/-- How one place is written from another that is above it. -/
def below? (place other : Place) : Option String :=
  if place = top then some other
  else ((place ++ "/").toList.isPrefixOf? other.toList).map String.ofList

end Place

end FileTree

/-- What is at each place but the top, and where paths start. -/
structure FileTree where
  entries : Dict Entry
  /-- The folder that a path starts from if it does not start from the top. -/
  home : FileTree.Place

namespace FileTree

/-- Nothing but the top. -/
def empty : FileTree := ⟨.empty, .top⟩

/-- What is at a place, if anything is. The top is a folder. -/
def entry? (t : FileTree) (place : Place) : Option Entry :=
  if place = .top then some .folder else t.entries.get? place

/-- The tree without what is at a place. -/
def erase (t : FileTree) (place : Place) : FileTree := { t with entries := t.entries.erase place }

/-- The tree with an entry at a place, in place of what is there. -/
def put (t : FileTree) (place : Place) (e : Entry) : FileTree :=
  { t with entries := t.entries.insert place e }

/-- What is below a place: how each place there is written from it, and what is there. -/
def below (t : FileTree) (place : Place) : List (String × Entry) :=
  t.entries.entries.filterMap fun (other, e) => (place.below? other).map fun rest => (rest, e)

/-- The files below the folder that paths start from, and the folders there with nothing in
    them. -/
def leaves (t : FileTree) : List (String × Entry) :=
  let inside := t.below t.home
  let parents := inside.map fun (path, _) => Place.parent path
  inside.filter fun (path, e) => !e.isFolder || !parents.contains path

end FileTree

end DesignSync

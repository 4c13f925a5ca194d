import DesignSync.Document.Store

/-!
What every store keeps, as a check that names the first thing that is wrong: there are as many ids
as elements, each element is in the bucket of its owner and in no other, and no property is both
literal and bound.
-/

namespace DesignSync

inductive Violation where
  | idCount (ids elements : Nat)
  | foreignOwner (id : String) (owner : Ownership)
  | notStored (id : String)
  | occurrences (id : String) (count : Nat)
  | emptyBindings (id : String)
  | conflict (id property : String)
deriving DecidableEq, Repr

def Violation.message : Violation → String
  | idCount ids elements =>
    "Element list out of sync: " ++ toString ids ++ " ids for " ++ toString elements ++ " elements"
  | foreignOwner id owner =>
    "Ownership index out of sync for " ++ id ++ ": indexed under foreign owner "
      ++ owner.kind.name ++ ":" ++ owner.ownerId
  | notStored id => "Ownership index out of sync for " ++ id ++ ": indexed but not stored"
  | occurrences id count =>
    "Ownership index out of sync for " ++ id ++ ": found " ++ toString count
      ++ " times in its bucket"
  | emptyBindings id => "Element " ++ id ++ " carries an empty binding map"
  | conflict id property =>
    "Element " ++ id ++ " has both a literal and a binding for " ++ property

/-- What is wrong with the properties of an element. -/
def Element.violation? (e : Element) : Option Violation :=
  let style := e.properties.style
  let content := e.properties.content
  match style.bindings with
  | some b =>
    if b.isEmpty then some (.emptyBindings e.id)
    else
      match b.keys.find? style.literals.contains with
      | some key => some (.conflict e.id key)
      | none =>
        if content.binding.isSome && content.hasLiteral then some (.conflict e.id "content")
        else none
  | none =>
    if content.binding.isSome && content.hasLiteral then some (.conflict e.id "content") else none

namespace Store

/-- What is wrong with an entry of the owner index. -/
def entryViolation? (s : Store) (entry : Ownership × String) : Option Violation :=
  match s.element? entry.2 with
  | some e => if e.ownership = entry.1 then none else some (.foreignOwner entry.2 entry.1)
  | none => some (.notStored entry.2)

/-- What is wrong with an element: it is not just once in the bucket of its owner, or its
    properties are wrong. -/
def elementViolation? (s : Store) (e : Element) : Option Violation :=
  let count := (s.owners.ownedBy e.ownership).count e.id
  if count = 1 then e.violation? else some (.occurrences e.id count)

/-- The first thing that is wrong with a store. -/
def violation? (s : Store) : Option Violation :=
  if s.ids.length ≠ s.table.size then some (.idCount s.ids.length s.table.size)
  else
    (s.owners.entries.findSome? s.entryViolation?).or
      (s.table.values.findSome? s.elementViolation?)

end Store

end DesignSync

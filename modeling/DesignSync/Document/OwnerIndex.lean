import DesignSync.Document.Element

/-!
The owner index: which elements each owner has, in the order in which they came. A bucket stays
when it becomes empty.
-/

namespace DesignSync

structure OwnerIndex where
  screens : Dict (List String)
  components : Dict (List String)
  elements : Dict (List String)
deriving DecidableEq

namespace OwnerIndex

def empty : OwnerIndex := ⟨Dict.empty, Dict.empty, Dict.empty⟩

/-- The buckets of one kind of owner. -/
def buckets (ix : OwnerIndex) : OwnerKind → Dict (List String)
  | .screen => ix.screens
  | .component => ix.components
  | .element => ix.elements

def setBuckets (ix : OwnerIndex) (kind : OwnerKind) (b : Dict (List String)) : OwnerIndex :=
  match kind with
  | .screen => { ix with screens := b }
  | .component => { ix with components := b }
  | .element => { ix with elements := b }

def bucket? (ix : OwnerIndex) (owner : Ownership) : Option (List String) :=
  (ix.buckets owner.kind).get? owner.ownerId

/-- The elements of an owner, none if it has no bucket. -/
def ownedBy (ix : OwnerIndex) (owner : Ownership) : List String := (ix.bucket? owner).getD []

/-- Puts an element at the end of an owner's bucket, unless it is in it. -/
def add (ix : OwnerIndex) (owner : Ownership) (id : String) : OwnerIndex :=
  let ids := ix.ownedBy owner
  ix.setBuckets owner.kind
    ((ix.buckets owner.kind).insert owner.ownerId (if ids.contains id then ids else ids ++ [id]))

/-- Takes an element out of an owner's bucket. -/
def remove (ix : OwnerIndex) (owner : Ownership) (id : String) : OwnerIndex :=
  match ix.bucket? owner with
  | some ids =>
    ix.setBuckets owner.kind
      ((ix.buckets owner.kind).insert owner.ownerId (ids.filter (· != id)))
  | none => ix

def relocate (ix : OwnerIndex) (source target : Ownership) (id : String) : OwnerIndex :=
  if source = target then ix else (ix.remove source id).add target id

/-- Every element with its owner: screens, then components, then elements, each by owner id. -/
def entries (ix : OwnerIndex) : List (Ownership × String) :=
  [OwnerKind.screen, .component, .element].flatMap fun kind =>
    (ix.buckets kind).entries.flatMap fun (ownerId, ids) => ids.map fun id => (⟨kind, ownerId⟩, id)

def size (ix : OwnerIndex) : Nat := ix.entries.length

end OwnerIndex

end DesignSync

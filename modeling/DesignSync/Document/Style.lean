import DesignSync.Dict
import DesignSync.Number.Decimal
import DesignSync.Document.Binding

/-!
Style maps: for each key a literal or a binding. A reconciled style has no key with both and no
empty map of bindings; where a style has both, the literal stays.
-/

namespace DesignSync

/-- A style value that was written directly. -/
inductive Literal where
  | number (x : Binary64)
  | text (s : String)
deriving BEq

def Literal.display : Literal → String
  | number x => x.plainText
  | text s => s

structure Style where
  bindings : Option (Dict Binding)
  literals : Dict Literal
deriving BEq

namespace Style

def empty : Style := ⟨none, Dict.empty⟩

instance : Inhabited Style := ⟨empty⟩

def literal? (s : Style) (key : String) : Option Literal := s.literals.get? key

def binding? (s : Style) (key : String) : Option Binding := s.bindings.bind (·.get? key)

/-- The bindings, none when there is no map of them. -/
def bound (s : Style) : Dict Binding := s.bindings.getD Dict.empty

def hasBindings (s : Style) : Bool := !s.bound.isEmpty

def isEmpty (s : Style) : Bool := s.literals.isEmpty && !s.hasBindings

/-- Every key with a literal or a binding, in order. -/
def keys (s : Style) : List String :=
  ((s.literals.map fun _ => ()).extend (s.bound.map fun _ => ())).keys

/-- A map of bindings, unless it is empty. -/
def pruned (b : Dict Binding) : Option (Dict Binding) := if b.isEmpty then none else some b

/-- Takes away an empty map of bindings. -/
def prune (s : Style) : Style := { s with bindings := s.bindings.bind pruned }

/-- Takes away the binding of every key that has a literal, then the literal of every key that is
    still bound, and an empty map of bindings. -/
def reconcile (s : Style) : Style :=
  let s := match s.bindings with
    | none => s
    | some b =>
      let free := b.filter fun k _ => !s.literals.contains k
      ⟨some free, free.keys.foldl Dict.erase s.literals⟩
  s.prune

/-- Puts a literal under a key, in the place of its binding. -/
def putLiteral (s : Style) (x : String × Literal) : Style where
  bindings := s.bindings.map (·.erase x.1)
  literals := s.literals.insert x.1 x.2

/-- Puts a binding of a patch under a key, in the place of its literal, unless the patch has a
    literal there as well. -/
def putBinding (p s : Style) (x : String × Binding) : Style where
  bindings := some (s.bound.insert x.1 x.2)
  literals := if p.literals.contains x.1 then s.literals else s.literals.erase x.1

/-- Puts a patch over a style: all its literals, then all its bindings. -/
def merge (s p : Style) : Style :=
  let s := p.literals.entries.foldl putLiteral s
  let s := p.bound.entries.foldl (putBinding p) s
  s.reconcile

/-- Takes away what stands under a key. -/
def eraseKey (s : Style) (key : String) : Style where
  bindings := s.bindings.map (·.erase key)
  literals := s.literals.erase key

/-- Takes away the literals and bindings of some keys. -/
def eraseKeys (s : Style) (keys : List String) : Style := (keys.foldl eraseKey s).prune

end Style

end DesignSync

import DesignSync.Document.Binding

/-!
The content of an element: text, an expression kept as it was written, or a binding. In reconciled
content a binding stands alone; where there is a literal as well, the literal stays.
-/

namespace DesignSync

structure Content where
  text : Option String
  binding : Option Binding
  expression : Option String
deriving DecidableEq, Repr

namespace Content

def empty : Content := ⟨none, none, none⟩

instance : Inhabited Content := ⟨empty⟩

def hasLiteral (c : Content) : Bool := c.text.isSome || c.expression.isSome

def isEmpty (c : Content) : Bool := !c.hasLiteral && c.binding.isNone

/-- Takes away a binding beside a literal, then the literals beside a binding. -/
def reconcile (c : Content) : Content :=
  let c := if c.binding.isSome && c.hasLiteral then { c with binding := none } else c
  if c.binding.isSome then { c with text := none, expression := none } else c

/-- Puts a patch over content: its text, its expression and its binding, one after the other. Text
    and expression take the place of all that was there before them, a binding only if it comes
    alone. -/
def merge (c p : Content) : Content :=
  let c := if p.text.isSome then { text := p.text, expression := none, binding := none } else c
  let c :=
    if p.expression.isSome then { expression := p.expression, text := none, binding := none } else c
  let c :=
    if p.binding.isSome then
      let c := { c with binding := p.binding }
      if p.hasLiteral then c else { c with text := none, expression := none }
    else c
  c.reconcile

end Content

end DesignSync

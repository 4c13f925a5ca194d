import DesignSync.Text.Quoted

/-!
Bindings: references from a property of an element to a value outside it, and the member
expressions by which markup names them.
-/

namespace DesignSync

/-- What a binding points at. -/
inductive RefKind where
  | prop
  | token
  | data
deriving DecidableEq, Repr

namespace RefKind

def name : RefKind → String
  | prop => "prop"
  | token => "token"
  | data => "data"

def ofName? : String → Option RefKind
  | "prop" => some prop
  | "token" => some token
  | "data" => some data
  | _ => none

/-- The object that holds the values of a kind in markup. -/
def space : RefKind → String
  | prop => "props"
  | token => "tokens"
  | data => "data"

def ofSpace? : String → Option RefKind
  | "props" => some prop
  | "tokens" => some token
  | "data" => some data
  | _ => none

@[simp] theorem ofName?_name (k : RefKind) : ofName? k.name = some k := by cases k <;> rfl

@[simp] theorem ofSpace?_space (k : RefKind) : ofSpace? k.space = some k := by cases k <;> rfl

end RefKind

/-- A reference to a value of some kind by its id. -/
structure Binding where
  kind : RefKind
  refId : String
  /-- The member expression last written for it. -/
  path : Option String
  /-- What is shown while the value is not there. -/
  fallback : Option String
deriving DecidableEq, Repr

/-- Where on an element a binding stands. -/
inductive BindingSlot where
  | style (key : String)
  | content
deriving DecidableEq, Repr

/-- The member expression written for one binding. -/
structure TracedPath where
  element : String
  slot : BindingSlot
  path : String
  /-- The default of the target, for bound content. -/
  fallback : Option String
deriving DecidableEq, Repr

def isNameStart (c : Char) : Bool :=
  ('a' ≤ c && c ≤ 'z') || ('A' ≤ c && c ≤ 'Z') || c == '_' || c == '$'

def isNameChar (c : Char) : Bool := isNameStart c || ('0' ≤ c && c ≤ '9')

/-- Whether a text is a name as it stands, without quotes. -/
def isPlainName : List Char → Bool
  | [] => false
  | c :: cs => isNameStart c && cs.all isNameChar

/-- `props.label`, or `props["Button label"]` where the name is no plain one. -/
def memberExpression (space name : String) : String :=
  if isPlainName name.toList then space ++ "." ++ name
  else space ++ "[" ++ Text.Quoted.quoted name ++ "]"

end DesignSync

import DesignSync.Document.Binding
import DesignSync.Text.Blank
import DesignSync.Text.Checksum

/-!
Names in markup: which attributes carry the identity of an element, which names can be written at
all, which style keys are sizes, and how modules and elements without an id are named.
-/

namespace DesignSync.Markup

open Text

/-! ### Attributes -/

def idAttribute : String := "id"
def kindAttribute : String := "kind"
def instanceAttribute : String := "instance-ref"
def nameAttribute : String := "name"
def ownershipAttribute : String := "ownership-type"
def componentAttribute : String := "component-id"
def ownerAttribute : String := "owner-id"
def styleAttribute : String := "style"

/-- What the names of state flags begin with. -/
def stateMark : String := "data-state-"

/-- The attributes that say which element this is and whose. -/
def isMetadata (name : String) : Bool :=
  [idAttribute, kindAttribute, instanceAttribute, nameAttribute, ownershipAttribute,
    componentAttribute, ownerAttribute].contains name

/-- The flag that an attribute sets, if it is one for state. -/
def stateFlag? (name : String) : Option String :=
  if stateMark.toList.isPrefixOf name.toList then
    some (String.ofList (name.toList.drop stateMark.length))
  else none

/-- The names that a plain attribute or an event cannot have. -/
def isReserved (name : String) : Bool :=
  isMetadata name || name == styleAttribute || (stateFlag? name).isSome

/-- Whether there are two dashes next to each other. -/
def hasDoubleDash : List Char → Bool
  | [] => false
  | '-' :: '-' :: _ => true
  | _ :: cs => hasDoubleDash cs

/-- The attribute names that can be written: a name start, then name characters, dashes and colons,
    no dash at the end and no two in a row. -/
def isAttributeName (name : String) : Bool :=
  let cs := name.toList
  cs.head?.any isNameStart && cs.all (fun c => isNameChar c || c == '-' || c == ':')
    && cs.getLast? != some '-' && !hasDoubleDash cs

/-! ### Style keys and text -/

/-- Whether a text occurs in another one. -/
def occursIn (word : List Char) : List Char → Bool
  | [] => word.isEmpty
  | c :: cs => word.isPrefixOf (c :: cs) || occursIn word cs

/-- Style keys that hold a length, such as `minWidth` or `padding-top`. Only letters of the basic
    alphabet fold to letters that these words have. -/
def isSizeKey (key : String) : Bool :=
  let folded := (key.toList.filter (· != '-')).map Char.toLower
  ["width", "height", "padding", "margin", "gap", "fontsize"].any fun word =>
    occursIn word.toList folded

/-- Text that cannot stand between tags as it is. -/
def needsQuotes (text : String) : Bool :=
  let cs := text.toList
  cs.isEmpty || trim cs != cs
    || cs.any fun c => c == '{' || c == '}' || c == '<' || c == '>' || c == '\n' || c == '\r'

/-! ### Modules and ids -/

def isWordChar (c : Char) : Bool :=
  ('a' ≤ c && c ≤ 'z') || ('A' ≤ c && c ≤ 'Z') || ('0' ≤ c && c ≤ '9')

def capitalized : List Char → List Char
  | [] => []
  | c :: cs => c.toUpper :: cs

/-- The name of a module's function: the words of a name, each with a capital. -/
def moduleName (name : String) : String :=
  let joined := (splitWhere (fun c => !isWordChar c) name.toList).flatMap capitalized
  match joined with
  | [] => "Screen"
  | c :: _ => (if '0' ≤ c ∧ c ≤ '9' then "Screen" else "") ++ String.ofList joined

/-- The number that stands for a source path in generated ids. -/
def documentId (path : String) : String :=
  let url := if "file://".toList.isPrefixOf path.toList then path else "file://" ++ path
  hex (crc32 url).toNat

/-- The generated id with a number. -/
def freshId (seed : String) (n : Nat) : String := seed ++ "-" ++ toString n

/-- What the first child of an element with bindings says. -/
def bindingsMark : String := "/* has-bindings */"

end DesignSync.Markup

import DesignSync.Text.Span
import DesignSync.Document.Binding
import DesignSync.Json.Record

/-!
Diagnostics: findings that do not stop reading or writing.
-/

namespace DesignSync.Markup

open Text

inductive Level where
  | error
  | warning
  | info
deriving DecidableEq, Repr

namespace Level

def name : Level → String
  | error => "error"
  | warning => "warning"
  | info => "info"

def ofName? : String → Option Level
  | "error" => some error
  | "warning" => some warning
  | "info" => some info
  | _ => none

end Level

structure Diagnostic where
  level : Level
  /-- A short name of what was found. -/
  rule : String
  message : String
  span : Option Span
  element : Option String
deriving DecidableEq, Repr

namespace Diagnostic

open Json

def spanToJson (s : Span) : Json := object [("start", integer s.start), ("end", integer s.stop)]

/-- A span with both of its ends and no other member. -/
def spanOfJson? (j : Json) : Option Span := do
  let r ← record? ["start", "end"] j
  let word := nat? (UInt64.size - 1)
  let known := match j with
    | object members => members.length == 2
    | _ => true
  if known then
    return ⟨← r.required "start" word, ← r.required "end" word⟩
  else none

def toJson (d : Diagnostic) : Json :=
  object
    [("level", string d.level.name), ("rule", string d.rule), ("message", string d.message),
      ("span", d.span.elim null spanToJson), ("element_id", d.element.elim null string)]

def ofJson? (j : Json) : Option Diagnostic := do
  let r ← record? ["level", "rule", "message", "span", "element_id"] j
  return {
    level := ← r.required "level" fun j => name? j >>= Level.ofName?
    rule := ← r.required "rule" string?
    message := ← r.required "message" string?
    span := ← r.listed "span" spanOfJson?
    element := ← r.listed "element_id" string? }

end Diagnostic

/-- What can be found, with the parts that its message tells of. -/
inductive Finding where
  | generatedId (tag id : String)
  | unresolvedPath (path : String)
  | stateNotFlag (flag : String)
  | missingElement (id : String)
  | cycle (id : String)
  | voidContent (tag : String)
  | stateName (flag : String)
  | eventClash (name : String)
  | attributeName (name : String)
  | unresolvedBinding (kind : RefKind) (refId : String)
  | notParsed (message : String)
deriving DecidableEq, Repr

namespace Finding

def level : Finding → Level
  | generatedId .. => .info
  | cycle _ => .error
  | notParsed _ => .error
  | _ => .warning

def rule : Finding → String
  | generatedId .. => "generated-id"
  | unresolvedPath _ => "unresolved-binding"
  | unresolvedBinding .. => "unresolved-binding"
  | stateNotFlag _ => "unsupported-state"
  | stateName _ => "unsupported-state"
  | missingElement _ => "missing-child"
  | cycle _ => "cycle"
  | voidContent _ => "unsupported-attribute"
  | eventClash _ => "reserved-attribute"
  | attributeName _ => "reserved-attribute"
  | notParsed _ => "parse-failure"

def message : Finding → String
  | generatedId tag id => "<" ++ tag ++ "> has no id, generated '" ++ id ++ "'"
  | unresolvedPath path => "'" ++ path ++ "' does not resolve to a known binding target"
  | stateNotFlag flag => "state flag '" ++ flag ++ "' must be a boolean or string"
  | missingElement id => "element '" ++ id ++ "' is referenced but does not exist"
  | cycle id => "element '" ++ id ++ "' is its own ancestor"
  | voidContent tag => "<" ++ tag ++ "> cannot have content or children"
  | stateName flag =>
    "state flag '" ++ flag ++ "' is not a valid attribute name and was skipped"
  | eventClash name =>
    "event '" ++ name ++ "' clashes with an attribute of the same name and was skipped"
  | attributeName name => "attribute '" ++ name ++ "' cannot be written to source and was skipped"
  | unresolvedBinding kind refId =>
    "binding to " ++ kind.space ++ " '" ++ refId ++ "' has no target in scope"
  | notParsed message => message

def diagnostic (f : Finding) (span : Option Span) (element : Option String) : Diagnostic :=
  ⟨f.level, f.rule, f.message, span, element⟩

end Finding

end DesignSync.Markup

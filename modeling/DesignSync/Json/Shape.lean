import DesignSync.Json.Reader

/-!
The first fault of a text that has to be a value of some shape. A shape goes over one value and
tells where the text breaks the grammar or where the value is not as it should be. What decodes has
no fault.
-/

namespace DesignSync.Json

open Text

/-- What goes over one value of a kind. -/
abbrev Shape := Place → Passing

namespace Shape

/-- The string between two places: behind its first quote, and behind its last one. -/
def stringAt (p : Place) : String := String.ofList ((Quoted.decode? p.rest).elim [] Prod.fst)

/-- The number at a place. -/
def numberAt (p : Place) : Found :=
  match (readFigures p.rest).bind (·.1.value?) with
  | some (.integer n) => .integer n
  | some (.float x) => .float x
  | _ => .null

def startsNumber (c : Char) : Bool := c == '-' || Numeral.isDigit c

/-- The fault of a value of another kind than the wanted one. It is noticed behind the value, or in
    front of an array or object. -/
def wrongKind (wanted : String) (p : Place) : Passing :=
  let whole (found : Found) : Passing := do
    let q ← passScalar true p
    (Flaw.wrongKind found wanted).here q
  match p.rest with
  | '[' :: _ => (Flaw.wrongKind .array wanted).here p
  | '{' :: _ => (Flaw.wrongKind .object wanted).here p
  | 'n' :: _ => whole .null
  | 't' :: _ => whole (.bool true)
  | 'f' :: _ => whole (.bool false)
  | '"' :: _ => whole (.string (stringAt (p.skip 1)))
  | _ => whole (numberAt p)

/-- A string for which something else may be wrong. -/
def stringWith (wanted : String) (flaw? : String → Option Flaw) : Shape := fun p => do
  let p := passSpace p
  match p.rest with
  | '"' :: _ =>
    let q ← passString true (p.skip 1)
    match flaw? (stringAt (p.skip 1)) with
    | some flaw => flaw.here q
    | none => .ok q
  | _ => wrongKind wanted p

def string : Shape := stringWith "a string" fun _ => none

/-- A natural number up to a bound, as a kind with a name. -/
def natural (name : String) (bound : Nat) : Shape := fun p => do
  let p := passSpace p
  if p.rest.head?.any startsNumber then
    let q ← passNumber true p
    match numberAt p with
    | .integer n =>
      if 0 ≤ n ∧ n.toNat ≤ bound then .ok q else (Flaw.outOfRange n name).here q
    | found => (Flaw.wrongKind found name).here q
  else wrongKind name p

/-- A value or null. -/
def nullable (value : Shape) : Shape := fun p =>
  let p := passSpace p
  match p.rest with
  | 'n' :: _ => passScalar true p
  | _ => value p

/-- The place behind the bracket that closes an array which has as many items as it may have. -/
def passArrayEnd (p : Place) : Passing :=
  let p := passSpace p
  match p.rest with
  | [] => Flaw.endInArray.here p
  | ']' :: _ => .ok (p.skip 1)
  | ',' :: _ =>
    let p := passSpace (p.skip 1)
    if p.rest.head? = some ']' then Flaw.commaAtEnd.ahead p else Flaw.moreBehind.ahead p
  | _ => Flaw.moreBehind.ahead p

/-- The place of the next item of an array, if there is one, and else that of the bracket. -/
def nextItem (first : Bool) (p : Place) : Except Fault (Bool × Place) :=
  let p := passSpace p
  match p.rest with
  | [] => Flaw.endInArray.here p
  | ']' :: _ => .ok (false, p)
  | c :: _ =>
    if first then .ok (true, p)
    else if c = ',' then
      let p := passSpace (p.skip 1)
      match p.rest with
      | [] => Flaw.endInValue.here p
      | ']' :: _ => Flaw.commaAtEnd.ahead p
      | _ => .ok (true, p)
    else Flaw.noCommaInArray.ahead p

/-- The items of an array and its end, at most `limit` items. -/
def items (item : Shape) (first : Bool) : Nat → Shape
  | 0, p => .ok p
  | limit + 1, p =>
    match nextItem first p with
    | .error e => .error e
    | .ok (false, p) => .ok (p.skip 1)
    | .ok (true, p) =>
      match item p with
      | .error e => .error e
      | .ok p => items item false limit p

def list (item : Shape) : Shape := fun p =>
  let p := passSpace p
  match p.rest with
  | '[' :: _ => items item true (p.rest.length + 1) (p.skip 1)
  | _ => wrongKind "a sequence" p

/-- The place of the next key of an object, if there is one, and else that of the brace. -/
def nextKey (first : Bool) (p : Place) : Except Fault (Bool × Place) :=
  let p := passSpace p
  let key (p : Place) : Except Fault (Bool × Place) :=
    match p.rest with
    | [] => Flaw.endInValue.here p
    | '"' :: _ => .ok (true, p)
    | '}' :: _ => Flaw.commaAtEnd.ahead p
    | _ => Flaw.keyNoString.ahead p
  match p.rest with
  | [] => Flaw.endInObject.here p
  | '}' :: _ => .ok (false, p)
  | c :: _ =>
    if first then key p
    else if c = ',' then key (passSpace (p.skip 1))
    else Flaw.noCommaInObject.ahead p

/-- One of some names, as a string or as an object with it as the key of null. -/
def name (names : List String) : Shape := fun p => do
  let known := stringWith "variant identifier" fun name =>
    if names.contains name then none else some (.unknownName name names)
  let p := passSpace p
  match p.rest with
  | [] => Flaw.endInValue.here p
  | '"' :: _ => known p
  | '{' :: _ =>
    match ← nextKey true (p.skip 1) with
    | (false, p) => Flaw.noValue.ahead p
    | (true, p) =>
      let p := passSpace (← passColon (← known p))
      let p ← if p.rest.head? = some 'n' then passScalar true p else wrongKind "unit" p
      let p := passSpace p
      match p.rest with
      | [] => Flaw.endInObject.here p
      | '}' :: _ => .ok (p.skip 1)
      | _ => Flaw.noValue.here p
  | _ => Flaw.noValue.ahead p

/-- A field of a record. -/
structure Field where
  name : String
  required : Bool
  shape : Shape

/-- The name of a record and how many fields it has. -/
def sized (name : String) (fields : List Field) : String :=
  let count := fields.length
  name ++ " with " ++ toString count ++ (if count = 1 then " element" else " elements")

/-- The fields of a record in an array, after some others. -/
def positional (wanted : String) (done : Nat) : List Field → Shape
  | [], p => passArrayEnd p
  | field :: fields, p => do
    match ← nextItem (done = 0) p with
    | (true, p) => positional wanted (done + 1) fields (← field.shape p)
    | (false, p) =>
      match (field :: fields).findIdx? (·.required) with
      | some i => (Flaw.tooShort (done + i) wanted).here (p.skip 1)
      | none => .ok (p.skip 1)

/-- The fields of a record in an object and its end, after some others, at most `limit` members. A
    record with a fault of its own is gone over to its end if that is the next thing. -/
def named (fields : List Field) (seen : List String) (first : Bool) : Nat → Shape
  | 0, p => .ok p
  | limit + 1, p => do
    match ← nextKey first p with
    | (false, p) =>
      match fields.find? fun f => f.required && !seen.contains f.name with
      | some f => (Flaw.missingField f.name).here (p.skip 1)
      | none => .ok (p.skip 1)
    | (true, p) =>
      let key := stringAt (p.skip 1)
      let p ← passString true (p.skip 1)
      if seen.contains key then
        let p := passSpace p
        (Flaw.repeatedField key).here (if p.rest.head? = some '}' then p.skip 1 else p)
      else
        let p ← passColon p
        match fields.find? (·.name == key) with
        | some f => named fields (key :: seen) false limit (← f.shape p)
        | none => named fields seen false limit (← passValue p)

/-- An object with some fields, or an array of their values in order. -/
def record (name : String) (fields : List Field) : Shape := fun p =>
  let p := passSpace p
  match p.rest with
  | '[' :: _ => positional (sized name fields) 0 fields (p.skip 1)
  | '{' :: _ => named fields [] true (p.rest.length + 1) (p.skip 1)
  | _ => wrongKind name p

/-- The first fault of a whole text. -/
def fault? (shape : Shape) (text : String) : Option Fault :=
  match shape (Place.start text.toList) with
  | .error e => some e
  | .ok p =>
    let p := passSpace p
    if p.rest.isEmpty then none else some ⟨.moreBehind, p.offset + 1⟩

end Shape

end DesignSync.Json

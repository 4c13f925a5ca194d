import DesignSync.Json.Value

/-!
Decoding JSON values. A record is an object with some known fields, each at most once, or an array
that lists the fields in order. All other members of an object are left out of account.
-/

namespace DesignSync.Json

def string? : Json → Option String
  | string s => some s
  | _ => none

def bool? : Json → Option Bool
  | bool b => some b
  | _ => none

/-- A natural number up to a bound. -/
def nat? (bound : Nat) : Json → Option Nat
  | integer n => if 0 ≤ n ∧ n.toNat ≤ bound then some n.toNat else none
  | _ => none

/-- Any number, as the nearest binary64 number. -/
def number? : Json → Option Binary64
  | integer n => some (Binary64.ofInt n)
  | float x => some x
  | _ => none

def list? {α : Type} (decode : Json → Option α) : Json → Option (List α)
  | array items => items.mapM decode
  | _ => none

/-- The members of an object as a dictionary; of a repeated key the last value stays. -/
def dict? {α : Type} (decode : Json → Option α) : Json → Option (Dict α)
  | object members => do
    let es ← members.mapM fun m => do return (m.1, ← decode m.2)
    return Dict.ofList es
  | _ => none

/-- The absent value or one that decodes. -/
def nullable? {α : Type} (decode : Json → Option α) : Json → Option (Option α)
  | null => some none
  | j => (decode j).map some

/-- One of several names, written as a text or as an object `{"name": null}`. -/
def name? : Json → Option String
  | string s => some s
  | object [(s, null)] => some s
  | _ => none

/-- The fields of a record that are present. -/
structure Record where
  positional : Bool
  fields : List (String × Json)

/-- The fields of an object; a known one that is repeated is refused. -/
def ofMembers? (names : List String) (members : List (String × Json)) : Option Record :=
  let known := members.filter fun m => names.contains m.1
  if (known.map Prod.fst).Nodup then some ⟨false, known⟩ else none

/-- The fields of an object, or of an array with no more items than there are fields. -/
def record? (names : List String) : Json → Option Record
  | object members => ofMembers? names members
  | array items => if items.length ≤ names.length then some ⟨true, names.zip items⟩ else none
  | _ => none

namespace Record

variable {α : Type}

def get? (r : Record) (name : String) : Option Json := r.fields.lookup name

/-- A field that has to be present. -/
def required (r : Record) (name : String) (decode : Json → Option α) : Option α :=
  r.get? name >>= decode

/-- A field that has a value of its own when it is absent. -/
def withDefault (r : Record) (name : String) (default : α) (decode : Json → Option α) : Option α :=
  match r.get? name with
  | some j => decode j
  | none => some default

/-- A field that may be absent or null. -/
def optional (r : Record) (name : String) (decode : Json → Option α) : Option (Option α) :=
  r.withDefault name none (nullable? decode)

/-- A field that may be null, and absent from an object but not from an array. -/
def listed (r : Record) (name : String) (decode : Json → Option α) : Option (Option α) :=
  if r.positional then r.required name (nullable? decode) else r.optional name decode

end Record

/-- A member of an object that is written only if there is a value. -/
def member? {α : Type} (name : String) (encode : α → Json) : Option α → List (String × Json)
  | some x => [(name, encode x)]
  | none => []

def ofDict {α : Type} (encode : α → Json) (d : Dict α) : Json :=
  object (d.entries.map fun e => (e.1, encode e.2))

end DesignSync.Json

import DesignSync.Number.Binary64
import DesignSync.Dict

/-!
JSON values. Integers of the 64-bit ranges are kept apart from binary64 numbers. A value as it was
read keeps every member of an object in order; its canonical form has them sorted, each key once.

A text may also hold what the grammar allows though it has no value: a number beyond the finite
ones, a string with half of a surrogate pair, an array or object nested too deep. Such a part is
read as `unfit`. It does no harm where nothing looks at it, and has no canonical form.
-/

namespace DesignSync

inductive Json where
  | null
  | bool (b : Bool)
  | integer (n : Int)
  | float (x : Binary64)
  | string (s : String)
  | array (items : List Json)
  | object (members : List (String × Json))
  | unfit

namespace Json

instance : Inhabited Json := ⟨null⟩

mutual

/-- Equality of values: floats as numbers, objects member by member in order. -/
def same : Json → Json → Bool
  | null, null => true
  | bool a, bool b => a == b
  | integer m, integer n => m == n
  | float x, float y => x.same y
  | string s, string t => s == t
  | array xs, array ys => sameItems xs ys
  | object xs, object ys => sameMembers xs ys
  | unfit, unfit => true
  | _, _ => false

def sameItems : List Json → List Json → Bool
  | [], [] => true
  | x :: xs, y :: ys => same x y && sameItems xs ys
  | _, _ => false

def sameMembers : List (String × Json) → List (String × Json) → Bool
  | [], [] => true
  | (k, x) :: xs, (l, y) :: ys => k == l && same x y && sameMembers xs ys
  | _, _ => false

end

instance : BEq Json := ⟨same⟩

mutual

/-- The value with the members of every object sorted by key; of a repeated key the last stays.
    A value with an unfit part has no such form. -/
def canonical? : Json → Option Json
  | array items => (canonicalItems? items).map array
  | object members => (canonicalMembers? members).map fun ms => object (Dict.ofList ms).entries
  | unfit => none
  | j => some j

def canonicalItems? : List Json → Option (List Json)
  | [] => some []
  | j :: js => do return (← canonical? j) :: (← canonicalItems? js)

def canonicalMembers? : List (String × Json) → Option (List (String × Json))
  | [] => some []
  | (k, j) :: ms => do return (k, ← canonical? j) :: (← canonicalMembers? ms)

end

/-- The last value under a key of an object. -/
def get? (j : Json) (key : String) : Option Json :=
  match j with
  | object members => members.reverse.lookup key
  | _ => none

end Json

end DesignSync

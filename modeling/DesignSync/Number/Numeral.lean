import DesignSync.Number.Binary64

/-!
Numerals: reading decimal text as the nearest binary64 number, and telling which texts are
numerals at all.
-/

namespace DesignSync.Numeral

def isDigit (c : Char) : Bool := '0' ≤ c && c ≤ '9'

def digit (c : Char) : Nat := c.toNat - '0'.toNat

/-- The value of a list of digits. -/
def value (ds : List Char) : Nat := ds.foldl (fun n c => 10 * n + digit c) 0

/-- The parts of an unsigned decimal: digits before the mark, and behind it. -/
def decimal (whole fraction : List Char) (exponent : Int) (negative : Bool) : Binary64 :=
  Binary64.ofDecimal negative (value (whole ++ fraction)) (exponent - fraction.length)

/-- A digit string with an optional sign and an optional fraction, as a number. -/
def read (text : List Char) : Binary64 :=
  let (negative, body) := match text with
    | '-' :: rest => (true, rest)
    | _ => (false, text)
  decimal (body.takeWhile isDigit) ((body.dropWhile isDigit).drop 1) 0 negative

/-- Whether an exponent part, if there is any, has its mark, an optional sign and some digits. -/
def isExponent (cs : List Char) : Bool :=
  match cs with
  | [] => true
  | e :: rest =>
    let digits := match rest with
      | '+' :: ds => ds
      | '-' :: ds => ds
      | _ => rest
    (e == 'e' || e == 'E') && !digits.isEmpty && digits.all isDigit

/-- Whether a text is a numeral: an optional sign, then the word `inf`, `infinity` or `nan` in any
    case, or digits with an optional point, some digit on at least one side of it, and an optional
    exponent. -/
def isNumeral (text : List Char) : Bool :=
  let body := match text with
    | '+' :: rest => rest
    | '-' :: rest => rest
    | _ => text
  let lower := String.ofList (body.map Char.toLower)
  let whole := body.takeWhile isDigit
  let (fraction, rest) := match body.dropWhile isDigit with
    | '.' :: rest => (rest.takeWhile isDigit, rest.dropWhile isDigit)
    | rest => ([], rest)
  lower == "inf" || lower == "infinity" || lower == "nan"
    || (!(whole ++ fraction).isEmpty && isExponent rest)

end DesignSync.Numeral

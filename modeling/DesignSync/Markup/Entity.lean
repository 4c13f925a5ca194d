import DesignSync.Text.Quoted

/-!
Attribute strings: no backslash escapes, only entities. Writing replaces the four characters that
cannot stand in one line of a double-quoted string; reading knows some more entities and keeps what
is none.
-/

namespace DesignSync.Markup

open Text

def escapeChar (c : Char) : List Char :=
  if c = '&' then ['&', 'a', 'm', 'p', ';']
  else if c = '"' then ['&', 'q', 'u', 'o', 't', ';']
  else if c = '\n' then ['&', '#', '1', '0', ';']
  else if c = '\r' then ['&', '#', '1', '3', ';']
  else [c]

def escape (cs : List Char) : List Char := cs.flatMap escapeChar

/-- The digits of a number below `2 ^ 32` in a base, with an optional plus sign. -/
def codePoint? (base : Nat) (cs : List Char) : Option Nat :=
  let digits := match cs with
    | '+' :: ds => ds
    | _ => cs
  if digits.isEmpty then none
  else
    digits.foldl (fun acc c => do
      let n ← acc
      let d ← Quoted.hexValue? c
      if d < base ∧ n * base + d < UInt32.size then some (n * base + d) else none) (some 0)

/-- The character that an entity names, without its `&` and `;`. -/
def entity? (name : List Char) : Option Char :=
  let ofCode (n : Nat) : Option Char := if n.isValidChar then some (Char.ofNat n) else none
  match String.ofList name with
  | "amp" => some '&'
  | "quot" => some '"'
  | "apos" => some '\''
  | "lt" => some '<'
  | "gt" => some '>'
  | "nbsp" => some '\xa0'
  | _ =>
    match name with
    | '#' :: 'x' :: digits => codePoint? 16 digits >>= ofCode
    | '#' :: 'X' :: digits => codePoint? 16 digits >>= ofCode
    | '#' :: digits => codePoint? 10 digits >>= ofCode
    | _ => none

/-- The name of an entity and what follows it, when its semicolon is among the next bytes. -/
def entityName? (bytes : Nat) : List Char → Option (List Char × List Char)
  | [] => none
  | c :: cs =>
    if bytes = 0 then none
    else if c = ';' then some ([], cs)
    else (entityName? (bytes - c.utf8Size) cs).map fun (name, rest) => (c :: name, rest)

theorem length_entityName? {bytes : Nat} {cs name rest : List Char}
    (h : entityName? bytes cs = some (name, rest)) : rest.length < cs.length := by
  induction cs generalizing bytes name with
  | nil => simp [entityName?] at h
  | cons c cs ih =>
    unfold entityName? at h
    split at h
    · simp at h
    · split at h
      · simp_all
      · simp only [Option.map_eq_some_iff, Prod.exists, Prod.mk.injEq] at h
        obtain ⟨n, r, hr, _, rfl⟩ := h
        have := ih hr
        simp; omega

/-- Replaces entities by their characters. A semicolon ends one only within ten bytes behind the
    `&`; an `&` that starts no known entity stays. -/
def decodeEntities (cs : List Char) : List Char :=
  match cs with
  | [] => []
  | '&' :: rest =>
    match _h : entityName? 10 rest with
    | some (name, after) =>
      match entity? name with
      | some c => c :: decodeEntities after
      | none => '&' :: decodeEntities rest
    | none => '&' :: decodeEntities rest
  | c :: rest => c :: decodeEntities rest
termination_by cs.length
decreasing_by
  · have := length_entityName? _h
    simp; omega
  · simp
  · simp
  · simp

end DesignSync.Markup

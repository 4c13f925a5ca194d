/-!
Places in a text, counted in bytes of its UTF-8 form.
-/

namespace DesignSync.Text

/-- The number of bytes of a list of characters in UTF-8. -/
def width (cs : List Char) : Nat := cs.foldr (fun c n => c.utf8Size + n) 0

@[simp] theorem width_nil : width [] = 0 := rfl

@[simp] theorem width_cons (c : Char) (cs : List Char) :
    width (c :: cs) = c.utf8Size + width cs := rfl

@[simp] theorem width_append (a b : List Char) : width (a ++ b) = width a + width b := by
  induction a with
  | nil => simp
  | cons c a ih => simp [ih, Nat.add_assoc]

/-- The characters that lie within the first bytes of a text. -/
def takeBytes (count : Nat) : List Char → List Char
  | [] => []
  | c :: cs => if count < c.utf8Size then [] else c :: takeBytes (count - c.utf8Size) cs

/-- The bytes of a front of a text give that front. -/
theorem takeBytes_width (a b : List Char) : takeBytes (width a) (a ++ b) = a := by
  induction a with
  | nil =>
    cases b with
    | nil => rfl
    | cons c cs => simp [takeBytes, Char.utf8Size_pos]
  | cons c cs ih => simp [takeBytes, ih]

/-- The bytes from `start` up to, and not with, `stop`. -/
structure Span where
  start : Nat
  stop : Nat
deriving DecidableEq, Repr, Inhabited

/-- A span as messages write it: `3..8`. -/
def Span.text (s : Span) : String := toString s.start ++ ".." ++ toString s.stop

/-- A place in a source: the bytes before it and the characters from it on. -/
structure Place where
  offset : Nat
  rest : List Char
deriving DecidableEq, Repr

namespace Place

def start (source : List Char) : Place := ⟨0, source⟩

/-- The place some characters further on, or the end of the source if it has fewer. -/
def skip (p : Place) (count : Nat) : Place :=
  ⟨p.offset + width (p.rest.take count), p.rest.drop count⟩

/-- The span from one place to a later one. -/
def spanTo (p q : Place) : Span := ⟨p.offset, q.offset⟩

/-- The text from one place to a later one. -/
def textTo (p q : Place) : String := String.ofList (takeBytes (q.offset - p.offset) p.rest)

/-- Where the source ends. -/
def endOffset (p : Place) : Nat := p.offset + width p.rest

/-- Two moves are one. -/
theorem skip_skip (p : Place) (m n : Nat) : (p.skip m).skip n = p.skip (m + n) := by
  simp only [skip, List.take_add, width_append, List.drop_drop, Nat.add_assoc]

end Place

end DesignSync.Text

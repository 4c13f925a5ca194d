import DesignSync.Proofs.Text.Place

/-!
Offsets in bytes at which a text can be cut: its two ends, and the places between two characters.
The offset at which a character is found is one of them.
-/

namespace DesignSync.Text

variable {a b cs : List Char} {x : Char} {offset : Nat}

/-- What stands before an offset and behind it. Beyond the end of a text and inside a character
there is no cut. -/
def cutAt? (offset : Nat) (cs : List Char) : Option (List Char × List Char) :=
  if String.Pos.Raw.IsValid (String.ofList cs) ⟨offset⟩ then
    some (takeBytes offset cs, cs.drop (takeBytes offset cs).length)
  else none

/-- What stands behind an offset. -/
def behind? (offset : Nat) (cs : List Char) : Option (List Char) := (cutAt? offset cs).map (·.2)

/-- What stands between two offsets. -/
def between? (start stop : Nat) (cs : List Char) : Option (List Char) :=
  (cutAt? stop cs).bind fun parts => behind? start parts.1

theorem cutAt?_width (a b : List Char) : cutAt? (width a) (a ++ b) = some (a, b) := by
  have hvalid : String.Pos.Raw.IsValid (String.ofList (a ++ b)) ⟨width a⟩ := by
    refine String.Pos.Raw.isValid_iff_exists_append.2
      ⟨String.ofList a, String.ofList b, String.ofList_append, ?_⟩
    exact String.Pos.Raw.ext (utf8ByteSize_ofList a).symm
  rw [cutAt?, if_pos hvalid, takeBytes_width, List.drop_left]

/-- A cut goes between two characters. -/
theorem cutAt?_eq_some_iff : cutAt? offset cs = some (a, b) ↔ cs = a ++ b ∧ width a = offset := by
  constructor
  · intro h
    have hvalid : String.Pos.Raw.IsValid (String.ofList cs) ⟨offset⟩ :=
      (Option.ite_none_right_eq_some.1 h).1
    obtain ⟨s, t, hst, hoffset⟩ := String.Pos.Raw.isValid_iff_exists_append.1 hvalid
    have hcs : cs = s.toList ++ t.toList := by
      rw [← String.toList_append, ← hst, String.toList_ofList]
    have hwidth : width s.toList = offset := by
      rw [← utf8ByteSize_ofList, String.ofList_toList]
      exact (congrArg String.Pos.Raw.byteIdx hoffset).symm
    rw [hcs, ← hwidth, cutAt?_width] at h
    cases h
    exact ⟨hcs, hwidth⟩
  · rintro ⟨rfl, rfl⟩
    exact cutAt?_width a b

theorem behind?_eq_some_iff : behind? offset cs = some b ↔ ∃ a, cs = a ++ b ∧ width a = offset := by
  simp [behind?, cutAt?_eq_some_iff]

theorem behind?_width (a b : List Char) : behind? (width a) (a ++ b) = some b :=
  behind?_eq_some_iff.2 ⟨a, rfl, rfl⟩

theorem between?_width (a part b : List Char) :
    between? (width a) (width (a ++ part)) (a ++ part ++ b) = some part := by
  rw [between?, cutAt?_width (a ++ part) b, Option.bind_some]
  exact behind?_width a part

/-- Less of a text is behind an offset that is not its start. -/
theorem length_behind? (h : behind? offset cs = some b) (hoffset : 0 < offset) :
    b.length < cs.length := by
  obtain ⟨a, rfl, rfl⟩ := behind?_eq_some_iff.1 h
  cases a with
  | nil => cases hoffset
  | cons c a => simp only [List.length_append, List.length_cons]; omega

/-- The offset of a character where it comes first. -/
def offsetOf? (x : Char) : List Char → Option Nat
  | [] => none
  | c :: cs => if c = x then some 0 else (offsetOf? x cs).map (c.utf8Size + ·)

theorem offsetOf?_append (h : x ∉ a) (b : List Char) :
    offsetOf? x (a ++ x :: b) = some (width a) := by
  induction a with
  | nil => simp [offsetOf?]
  | cons c a ih =>
    rw [List.mem_cons, not_or] at h
    rw [List.cons_append, offsetOf?, if_neg (Ne.symm h.1), ih h.2]
    rfl

theorem offsetOf?_eq_none_iff : offsetOf? x cs = none ↔ x ∉ cs := by
  induction cs with
  | nil => simp [offsetOf?]
  | cons c cs ih =>
    rw [offsetOf?, List.mem_cons, not_or]
    split
    · next heq => simp [heq]
    · next hne => rw [Option.map_eq_none_iff, ih, and_iff_right (Ne.symm hne)]

/-- Where a character is found a text can be cut, in front of the first place where it stands. -/
theorem cutAt?_of_offsetOf? (h : offsetOf? x cs = some offset) :
    ∃ a b, cs = a ++ x :: b ∧ x ∉ a ∧ cutAt? offset cs = some (a, x :: b) := by
  have hmem : x ∈ cs := Classical.not_not.1 fun hnot => by
    rw [offsetOf?_eq_none_iff.2 hnot] at h
    cases h
  obtain ⟨a, b, rfl, ha⟩ := List.eq_append_cons_of_mem hmem
  rw [offsetOf?_append ha] at h
  obtain rfl : width a = offset := Option.some.inj h
  exact ⟨a, b, rfl, ha, cutAt?_width a (x :: b)⟩

end DesignSync.Text

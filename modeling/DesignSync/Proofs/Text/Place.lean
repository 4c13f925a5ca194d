import DesignSync.Text.Span

/-!
Places of a source, and the text on the way from one to another. An offset that is reached over the
characters of a source is the end of one of them, so that it can be cut there.
-/

namespace DesignSync.Text

theorem utf8ByteSize_ofList (cs : List Char) : (String.ofList cs).utf8ByteSize = width cs := by
  induction cs with
  | nil => rfl
  | cons c cs ih =>
    have hsplit : String.ofList (c :: cs) = String.singleton c ++ String.ofList cs := by
      rw [String.singleton_eq_ofList, ← String.ofList_append]
      rfl
    rw [hsplit, String.utf8ByteSize_append, String.utf8ByteSize_singleton, ih, width_cons]

/-- The two ends of a span are ends of characters of a source, in order. -/
structure Span.FitsIn (s : Span) (source : String) : Prop where
  le : s.start ≤ s.stop
  start : String.Pos.Raw.IsValid source ⟨s.start⟩
  stop : String.Pos.Raw.IsValid source ⟨s.stop⟩

namespace Place

variable {p q r : Place} {a b : List Char}

/-- From one place to another one over the characters between them. -/
structure Over (p : Place) (cs : List Char) (q : Place) : Prop where
  rest : p.rest = cs ++ q.rest
  offset : q.offset = p.offset + width cs

theorem Over.refl (p : Place) : p.Over [] p := ⟨rfl, rfl⟩

theorem Over.trans (h : p.Over a q) (h' : q.Over b r) : p.Over (a ++ b) r :=
  ⟨by rw [h.rest, h'.rest, List.append_assoc],
    by rw [h'.offset, h.offset, width_append, Nat.add_assoc]⟩

theorem over_skip (p : Place) (count : Nat) : p.Over (p.rest.take count) (p.skip count) :=
  ⟨(List.take_append_drop count p.rest).symm, rfl⟩

/-- Over a front of what stands at a place. -/
theorem over_skip_of_eq (h : p.rest = a ++ b) {count : Nat} (hcount : a.length = count) :
    p.Over a (p.skip count) := by
  have hskip := over_skip p count
  rwa [h, List.take_left' hcount] at hskip

/-- From one place to another one further on. -/
def Leads (p q : Place) : Prop := ∃ cs, p.Over cs q

theorem Over.leads (h : p.Over a q) : p.Leads q := ⟨a, h⟩

theorem Leads.refl (p : Place) : p.Leads p := (Over.refl p).leads

theorem Leads.trans (h : p.Leads q) (h' : q.Leads r) : p.Leads r := by
  obtain ⟨a, ha⟩ := h
  obtain ⟨b, hb⟩ := h'
  exact (ha.trans hb).leads

theorem leads_skip (p : Place) (count : Nat) : p.Leads (p.skip count) := (over_skip p count).leads

/-- The places of a source. -/
def In (source : String) (p : Place) : Prop := (start source.toList).Leads p

theorem start_in (source : String) : (start source.toList).In source := .refl _

variable {source : String}

theorem In.leads (h : p.In source) (h' : p.Leads q) : q.In source := Leads.trans h h'

/-- The offset of a place is within the source, and no character lies across it. -/
theorem In.isValid (h : p.In source) : String.Pos.Raw.IsValid source ⟨p.offset⟩ := by
  obtain ⟨front, hfront⟩ := h
  refine String.Pos.Raw.isValid_iff_exists_append.2
    ⟨String.ofList front, String.ofList p.rest, ?_, ?_⟩
  · rw [← String.ofList_append, ← hfront.rest]
    exact String.ofList_toList.symm
  · rw [hfront.offset]
    refine String.Pos.Raw.ext ?_
    exact (Nat.zero_add _).trans (utf8ByteSize_ofList front).symm

theorem In.fitsIn (h : p.In source) (h' : p.Leads q) : (p.spanTo q).FitsIn source where
  le := by
    obtain ⟨cs, hcs⟩ := h'
    simp [spanTo, hcs.offset]
  start := h.isValid
  stop := (h.leads h').isValid

end Place

end DesignSync.Text

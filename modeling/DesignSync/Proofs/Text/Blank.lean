import Mathlib.Data.List.TakeWhile
import DesignSync.Text.Blank

/-!
Trimming: a text is trimmed when no blank stands at either end of it, and trimming makes it so.
-/

namespace DesignSync.Text

theorem dropEndWhile_append_singleton {p : Char → Bool} {c : Char} (h : p c = false)
    (cs : List Char) : dropEndWhile p (cs ++ [c]) = cs ++ [c] := by
  simp [dropEndWhile, h]

theorem dropEndWhile_eq_self {p : Char → Bool} {cs : List Char}
    (h : ∀ c ∈ cs.getLast?, p c = false) : dropEndWhile p cs = cs := by
  rcases List.eq_nil_or_concat cs with rfl | ⟨front, c, rfl⟩
  · rfl
  · rw [List.concat_eq_append] at h ⊢
    exact dropEndWhile_append_singleton (h c (by simp)) front

theorem getLast?_dropEndWhile {p : Char → Bool} {cs : List Char} :
    ∀ c ∈ (dropEndWhile p cs).getLast?, p c = false := by
  intro c hc
  rw [dropEndWhile, List.getLast?_reverse] at hc
  have hhead := List.head?_dropWhile_not p cs.reverse
  rw [Option.mem_def.1 hc] at hhead
  simpa using hhead

theorem dropWhile_eq_self {p : Char → Bool} {cs : List Char} (h : ∀ c ∈ cs.head?, p c = false) :
    cs.dropWhile p = cs := by
  cases cs with
  | nil => rfl
  | cons c cs => simp [h c rfl]

theorem head?_dropWhile {p : Char → Bool} {cs : List Char} :
    ∀ c ∈ (cs.dropWhile p).head?, p c = false := by
  intro c hc
  have hhead := List.head?_dropWhile_not p cs
  rw [Option.mem_def.1 hc] at hhead
  simpa using hhead

theorem of_dropWhile_eq_cons {p : Char → Bool} {cs rest : List Char} {c : Char}
    (h : cs.dropWhile p = c :: rest) : p c = false :=
  head?_dropWhile c (by rw [h]; rfl)

/-- Dropping at the end leaves the first character, if it leaves any. -/
theorem head?_dropEndWhile {p : Char → Bool} {cs : List Char} :
    ∀ c ∈ (dropEndWhile p cs).head?, c ∈ cs.head? := by
  intro c hc
  have hprefix : dropEndWhile p cs <+: cs := by
    have hsuffix := List.dropWhile_suffix p (l := cs.reverse)
    rw [← List.reverse_prefix, List.reverse_reverse] at hsuffix
    exact hsuffix
  obtain ⟨rest, hrest⟩ := hprefix
  rw [← hrest]
  cases hd : dropEndWhile p cs with
  | nil => rw [hd] at hc; cases hc
  | cons d ds => rw [hd] at hc; exact hc

/-- What is dropped at the end of a list is a run. -/
theorem exists_dropEndWhile_append (p : Char → Bool) (cs : List Char) :
    ∃ run, dropEndWhile p cs ++ run = cs ∧ ∀ c ∈ run, p c = true := by
  refine ⟨(cs.reverse.takeWhile p).reverse, ?_, fun c hc => ?_⟩
  · rw [dropEndWhile, ← List.reverse_append, List.takeWhile_append_dropWhile, List.reverse_reverse]
  · exact List.all_eq_true.1 List.all_takeWhile c (List.mem_reverse.1 hc)

/-- What trimming drops at the front is a run of blanks. -/
theorem exists_append_trim (cs : List Char) :
    ∃ run, run ++ trim cs = trimEnd cs ∧ ∀ c ∈ run, isBlank c = true := by
  have hrun : ∀ c ∈ cs.takeWhile isBlank, isBlank c = true := List.all_eq_true.1 List.all_takeWhile
  have hend : trimEnd cs = dropEndWhile isBlank (cs.takeWhile isBlank ++ trimStart cs) := by
    rw [trimStart, List.takeWhile_append_dropWhile, trimEnd]
  rw [dropEndWhile, List.reverse_append, List.dropWhile_append] at hend
  split at hend
  · next hnil =>
    -- nothing but blanks: there is nothing left on either side
    have hempty : trim cs = [] := by
      rw [trim, trimEnd, dropEndWhile, List.isEmpty_iff.1 hnil, List.reverse_nil]
    have hall : (cs.takeWhile isBlank).reverse.dropWhile isBlank = [] :=
      List.dropWhile_eq_nil_iff.2 fun c hc => hrun c (List.mem_reverse.1 hc)
    exact ⟨[], by rw [hend, hall, hempty]; rfl, by simp⟩
  · rw [List.reverse_append, List.reverse_reverse] at hend
    exact ⟨_, hend.symm, hrun⟩

/-- A text without a blank at either end. -/
def IsTrimmed (cs : List Char) : Prop :=
  (∀ c ∈ cs.head?, isBlank c = false) ∧ ∀ c ∈ cs.getLast?, isBlank c = false

theorem IsTrimmed.trim_eq {cs : List Char} (h : IsTrimmed cs) : trim cs = cs := by
  rw [trim, trimStart, dropWhile_eq_self h.1, trimEnd, dropEndWhile_eq_self h.2]

theorem isTrimmed_enclosed {a b : Char} (ha : isBlank a = false) (hb : isBlank b = false)
    (cs : List Char) : IsTrimmed (a :: (cs ++ [b])) := by
  refine ⟨fun c hc => ?_, fun c hc => ?_⟩
  · exact Option.some.inj hc ▸ ha
  · rw [← List.cons_append, List.getLast?_append] at hc
    exact Option.some.inj hc ▸ hb

theorem isTrimmed_trim (cs : List Char) : IsTrimmed (trim cs) :=
  ⟨fun c hc => head?_dropWhile c (head?_dropEndWhile c hc), getLast?_dropEndWhile⟩

theorem trim_eq_self_iff {cs : List Char} : trim cs = cs ↔ IsTrimmed cs :=
  ⟨fun h => h ▸ isTrimmed_trim cs, IsTrimmed.trim_eq⟩

theorem trim_trim (cs : List Char) : trim (trim cs) = trim cs := (isTrimmed_trim cs).trim_eq

theorem trimmed_eq_self_iff {s : String} : trimmed s = s ↔ IsTrimmed s.toList := by
  rw [← trim_eq_self_iff, trimmed]
  constructor
  · intro h
    have htoList := congrArg String.toList h
    rwa [String.toList_ofList] at htoList
  · intro h
    rw [h, String.ofList_toList]

end DesignSync.Text

import DesignSync.Markup.Reader
import DesignSync.Proofs.Text.Quoted

/-!
Braces: how far a braced expression goes does not depend on what stands behind it, and texts that
open nothing which they do not close are passed over as a whole.
-/

namespace DesignSync.Markup

open Text

/-! ### Runs -/

theorem runSize_append {p : Char → Bool} {cs : List Char} (h : ∀ c ∈ cs, p c = true)
    (rest : List Char) : runSize p (cs ++ rest) = cs.length + runSize p rest := by
  rw [runSize, List.takeWhile_append_of_pos h, List.length_append]
  rfl

theorem runSize_eq_zero {p : Char → Bool} {c : Char} (h : p c = false) (rest : List Char) :
    runSize p (c :: rest) = 0 := by
  simp [runSize, h]

/-! ### Fronts of texts -/

/-- A count that stops within a front of a text stops there whatever stands behind that front. -/
def StopsWithin (size : List Char → Nat) : Prop :=
  ∀ ⦃u y : List Char⦄, size (u ++ y) < u.length → ∀ x, size (u ++ x) = size (u ++ y)

/-- What is counted up to an end is counted as well if only that much of the text is left, in front
of whatever else. -/
def LooksNoFurther (size? : List Char → Option Nat) : Prop :=
  ∀ ⦃cs : List Char⦄ ⦃n : Nat⦄, size? cs = some n →
    n ≤ cs.length ∧ ∀ more, size? (cs.take n ++ more) = some n

theorem StopsWithin.take_append {size : List Char → Nat} (hsize : StopsWithin size)
    {cs : List Char} {k : Nat} (hlt : size cs < k) (hle : k ≤ cs.length) (more : List Char) :
    size (cs.take k ++ more) = size cs := by
  have hcs : size (cs.take k ++ cs.drop k) < (cs.take k).length := by
    rwa [List.take_append_drop, List.length_take_of_le hle]
  rw [hsize hcs more, List.take_append_drop]

namespace LooksNoFurther

variable {size? : List Char → Option Nat} {cs : List Char} {n k : Nat}

theorem le_length (hsize : LooksNoFurther size?) (h : size? cs = some n) : n ≤ cs.length :=
  (hsize h).1

theorem take_append (hsize : LooksNoFurther size?) (h : size? cs = some n) (hk : n ≤ k)
    (more : List Char) : size? (cs.take k ++ more) = some n := by
  have hfront : cs.take n ++ (cs.take k).drop n = cs.take k := by
    rw [← Nat.min_eq_left hk, ← List.take_take, Nat.min_eq_left hk, List.take_append_drop]
  rw [← hfront, List.append_assoc]
  exact (hsize h).2 _

theorem append (hsize : LooksNoFurther size?) (h : size? cs = some n) (more : List Char) :
    size? (cs ++ more) = some n := by
  have hmore := hsize.take_append h (hsize.le_length h) more
  rwa [List.take_length] at hmore

theorem take (hsize : LooksNoFurther size?) (h : size? cs = some n) (hk : n ≤ k) :
    size? (cs.take k) = some n := by
  simpa using hsize.take_append h hk []

end LooksNoFurther

/-- Behind what is passed over, a front of a text is a front of the rest. -/
theorem drop_take_append {cs : List Char} {m n : Nat} (h : m ≤ cs.length) (more : List Char) :
    (cs.take (m + n) ++ more).drop m = (cs.drop m).take n ++ more := by
  rw [List.drop_append_of_le_length (by rw [List.length_take]; omega), List.drop_take,
    Nat.add_sub_cancel_left]

/-- Only the first character of a text stands behind what is in front of it. -/
theorem exists_cons_of_take_append {cs more tail : List Char} {c : Char} {k : Nat} (hcs : cs ≠ [])
    (hk : k ≠ 0) (h : cs.take k ++ more = c :: tail) : ∃ rest, cs = c :: rest := by
  obtain ⟨k, rfl⟩ := Nat.exists_eq_succ_of_ne_zero hk
  cases cs with
  | nil => exact absurd rfl hcs
  | cons d cs => exact ⟨cs, by rw [(List.cons.inj h).1]⟩

theorem runSize_front (p : Char → Bool) : StopsWithin (runSize p) := by
  intro u y h x
  induction u with
  | nil => cases h
  | cons c u ih =>
    by_cases hc : p c = true
    · simp only [runSize, List.cons_append, List.takeWhile_cons, hc, if_true, List.length_cons,
        Nat.add_lt_add_iff_right] at h ih ⊢
      rw [ih h]
    · simp [runSize, hc]

/-! ### Quoted parts and comments -/

theorem quotedSize_cons_of_ne {c : Char} (h : c ≠ '\\') (quote : Char) (cs : List Char) :
    quotedSize quote (c :: cs) = if c = quote then 1 else quotedSize quote cs + 1 := by
  rw [quotedSize]
  · exact fun h' => absurd h' h
  · exact fun _ _ h' => absurd h' h

/-- A character that is not `a`, be it the last one or in front of others. -/
theorem ne_of_behind {a c : Char} {cs : List Char} (hlast : c = a → cs = [] → False)
    (hmore : ∀ d rest, c = a → cs = d :: rest → False) : c ≠ a := by
  intro hc
  cases cs with
  | nil => exact hlast hc rfl
  | cons d rest => exact hmore d rest hc rfl

theorem quotedSize_front (quote : Char) : StopsWithin (quotedSize quote) := by
  intro u y h x
  fun_induction quotedSize quote u with
  | case1 => cases h
  | case2 => cases y <;> simp [quotedSize] at h
  | case3 d u ih =>
    rw [List.cons_append, List.cons_append, quotedSize] at h ⊢
    rw [List.cons_append, List.cons_append, quotedSize, ih (by simpa using h)]
  | case4 u hlast hpair =>
    have hne : quote ≠ '\\' := ne_of_behind hlast hpair
    rw [List.cons_append, List.cons_append, quotedSize_cons_of_ne hne, quotedSize_cons_of_ne hne,
      if_pos rfl, if_pos rfl]
  | case5 c u hlast hpair hc ih =>
    have hne : c ≠ '\\' := ne_of_behind hlast hpair
    rw [List.cons_append, quotedSize_cons_of_ne hne, if_neg hc] at h ⊢
    rw [List.cons_append, quotedSize_cons_of_ne hne, if_neg hc, ih (by simpa using h)]

/-- A quoted part goes up to the quote that closes it. -/
theorem quotedSize_escaped {body : List Char} (h : Quoted.Escaped '"' body) (rest : List Char) :
    quotedSize '"' (body ++ '"' :: rest) = body.length + 1 := by
  induction h with
  | nil => rfl
  | plain hquote hslash _ _ ih =>
    rw [List.cons_append, quotedSize_cons_of_ne hslash, if_neg hquote, ih, List.length_cons]
  | @pair c cs _ _ ih =>
    rw [List.cons_append, List.cons_append, quotedSize, ih]
    rfl

theorem commentSize?_front : LooksNoFurther commentSize? := by
  intro cs n h
  fun_induction commentSize? cs generalizing n with
  | case1 => cases h
  | case2 cs =>
    cases h
    exact ⟨by simp, fun _ => rfl⟩
  | case3 => cases h
  | case4 c cs hne ih =>
    obtain ⟨m, hm, rfl⟩ := Option.map_eq_some_iff.1 h
    obtain ⟨hle, hmore⟩ := ih hm
    refine ⟨by simpa using hle, fun more => ?_⟩
    rw [List.take_succ_cons, List.take_succ_cons, List.cons_append, List.cons_append,
      commentSize?, hmore, Option.map_some]
    exact hne
  | case5 c cs hclosed hlast hpair ih =>
    obtain ⟨m, hm, rfl⟩ := Option.map_eq_some_iff.1 h
    obtain ⟨hle, hmore⟩ := ih hm
    have hstar : c ≠ '*' := ne_of_behind hlast hpair
    refine ⟨by simpa using hle, fun more => ?_⟩
    rw [List.take_succ_cons, List.cons_append, commentSize?, hmore, Option.map_some]
    all_goals
      intros
      contradiction

theorem blockSize?_ne_nil {n : Nat} {cs : List Char} (h : blockSize? cs = some n) : cs ≠ [] := by
  rintro rfl
  cases h

theorem blockSize?_front : LooksNoFurther blockSize? := by
  intro cs n h
  fun_induction blockSize? cs generalizing n with
  | case1 => cases h
  | case2 cs =>
    cases h
    exact ⟨by simp, fun _ => rfl⟩
  | case3 c cs hne ih =>
    obtain ⟨m, hm, rfl⟩ := Option.map_eq_some_iff.1 h
    obtain ⟨hle, hmore⟩ := ih hm
    refine ⟨by simpa using hle, fun more => ?_⟩
    rw [List.take_succ_cons, List.cons_append, blockSize?, hmore, Option.map_some]
    intro tail hc hcs
    have hpos : m ≠ 0 := fun hzero => blockSize?_ne_nil (hmore []) (by simp [hzero])
    obtain ⟨rest, hrest⟩ := exists_cons_of_take_append (blockSize?_ne_nil hm) hpos hcs
    exact hne rest hc hrest

/-! ### Braces -/

/-- What is passed over behind a character inside braces: the rest of a quoted part. -/
def passedOver (c : Char) (rest : List Char) : Nat :=
  if c = '"' ∨ c = '\'' ∨ c = '\x60' then quotedSize c rest else 0

/-- A character that is no brace and opens no comment. -/
theorem braceSize?_cons (depth : Nat) {c : Char} {rest : List Char} (hopen : c ≠ '\x7b')
    (hclose : c ≠ '\x7d') (hline : ∀ tail, c = '/' → rest ≠ '/' :: tail)
    (hblock : ∀ tail, c = '/' → rest ≠ '*' :: tail) :
    braceSize? depth (c :: rest) =
      (braceSize? depth (rest.drop (passedOver c rest))).map (1 + passedOver c rest + ·) := by
  rw [braceSize?]
  · rfl
  · exact hopen
  · exact hclose
  · exact hline
  · exact hblock

theorem braceSize?_ne_nil {depth n : Nat} {cs : List Char} (h : braceSize? depth cs = some n) :
    cs ≠ [] := by
  rintro rfl
  rw [braceSize?] at h
  cases h

theorem lt_length_of_braceSize?_drop {depth size n : Nat} {rest : List Char}
    (h : braceSize? depth (rest.drop size) = some n) : size < rest.length := by
  have hpos := List.length_pos_iff.2 (braceSize?_ne_nil h)
  rw [List.length_drop] at hpos
  omega

theorem passedOver_front (c : Char) : StopsWithin (passedOver c) := by
  intro u y h x
  unfold passedOver at h ⊢
  split
  · next hquote =>
    rw [if_pos hquote] at h
    exact quotedSize_front c h x
  · rfl

/-- What closes a brace closes it whatever comes behind, also if nothing does. -/
theorem braceSize?_front (depth : Nat) : LooksNoFurther (braceSize? depth) := by
  intro cs n h
  fun_induction braceSize? depth cs generalizing n with
  | case1 => cases h
  | case2 depth rest ih =>
    obtain ⟨m, hm, rfl⟩ := Option.map_eq_some_iff.1 h
    obtain ⟨hle, hmore⟩ := ih hm
    refine ⟨by simp only [List.length_cons]; omega, fun more => ?_⟩
    rw [Nat.add_comm 1, List.take_succ_cons, List.cons_append, braceSize?, hmore, Option.map_some,
      Nat.add_comm 1]
  | case3 rest =>
    cases h
    refine ⟨by simp, fun more => ?_⟩
    rw [List.take_succ_cons, List.cons_append, braceSize?]
  | case4 rest depth ih =>
    obtain ⟨m, hm, rfl⟩ := Option.map_eq_some_iff.1 h
    obtain ⟨hle, hmore⟩ := ih hm
    refine ⟨by simp only [List.length_cons]; omega, fun more => ?_⟩
    rw [Nat.add_comm 1, List.take_succ_cons, List.cons_append, braceSize?, hmore, Option.map_some,
      Nat.add_comm 1]
  | case5 depth rest size =>
    rename_i ih
    obtain ⟨m, hm, rfl⟩ := Option.map_eq_some_iff.1 h
    obtain ⟨hle, hmore⟩ := ih hm
    have hin : size < rest.length := lt_length_of_braceSize?_drop hm
    have hpos : m ≠ 0 := fun hzero => braceSize?_ne_nil (hmore []) (by simp [hzero])
    rw [List.length_drop] at hle
    refine ⟨by simp only [List.length_cons]; omega, fun more => ?_⟩
    have hsize : runSize (· != '\n') (rest.take (size + m) ++ more) = runSize (· != '\n') rest :=
      (runSize_front _).take_append (by omega) (by omega) more
    rw [Nat.add_assoc, Nat.add_comm 2, List.take_succ_cons, List.take_succ_cons, List.cons_append,
      List.cons_append, braceSize?, hsize, drop_take_append (Nat.le_of_lt hin), hmore]
    dsimp only [Option.map_some]
    congr 1
    omega
  | case6 depth rest size hblock ih =>
    obtain ⟨m, hm, rfl⟩ := Option.map_eq_some_iff.1 h
    obtain ⟨hle, hmore⟩ := ih hm
    have hin := blockSize?_front.le_length hblock
    rw [List.length_drop] at hle
    refine ⟨by simp only [List.length_cons]; omega, fun more => ?_⟩
    rw [Nat.add_assoc, Nat.add_comm 2, List.take_succ_cons, List.take_succ_cons, List.cons_append,
      List.cons_append, braceSize?, blockSize?_front.take_append hblock (Nat.le_add_right _ _)]
    dsimp only
    rw [drop_take_append hin, hmore]
    dsimp only [Option.map_some]
    congr 1
    omega
  | case7 => cases h
  | case8 depth c rest hopen hclose hline hblock size =>
    rename_i ih
    have hpassed : size = passedOver c rest := dite_eq_ite
    rw [hpassed] at h ih
    obtain ⟨m, hm, rfl⟩ := Option.map_eq_some_iff.1 h
    obtain ⟨hle, hmore⟩ := ih hm
    have hin : passedOver c rest < rest.length := lt_length_of_braceSize?_drop hm
    have hpos : m ≠ 0 := fun hzero => braceSize?_ne_nil (hmore []) (by simp [hzero])
    rw [List.length_drop] at hle
    refine ⟨by simp only [List.length_cons]; omega, fun more => ?_⟩
    have hsize : passedOver c (rest.take (passedOver c rest + m) ++ more) = passedOver c rest :=
      (passedOver_front c).take_append (by omega) (by omega) more
    have hhead {d : Char} {tail : List Char}
        (heq : rest.take (passedOver c rest + m) ++ more = d :: tail) : ∃ tail', rest = d :: tail' :=
      exists_cons_of_take_append (List.ne_nil_of_length_pos (by omega)) (by omega) heq
    rw [Nat.add_assoc, Nat.add_comm 1, List.take_succ_cons, List.cons_append,
      braceSize?_cons depth hopen hclose, hsize, drop_take_append (Nat.le_of_lt hin), hmore]
    · dsimp only [Option.map_some]
      congr 1
      omega
    · intro tail hc heq
      obtain ⟨tail', htail⟩ := hhead heq
      exact hline tail' hc htail
    · intro tail hc heq
      obtain ⟨tail', htail⟩ := hhead heq
      exact hblock tail' hc htail

/-- A text that is passed over as a whole at any depth. -/
def Inert (cs : List Char) : Prop :=
  ∀ depth rest, braceSize? depth (cs ++ rest) = (braceSize? depth rest).map (cs.length + ·)

/-- A character that means nothing to braces. -/
def isInert (c : Char) : Bool :=
  c != '\x7b' && c != '\x7d' && c != '/' && c != '"' && c != '\'' && c != '\x60'

namespace Inert

theorem nil : Inert [] := by
  intro depth rest
  simp

theorem append {a b : List Char} (ha : Inert a) (hb : Inert b) : Inert (a ++ b) := by
  intro depth rest
  rw [List.append_assoc, ha, hb, Option.map_map]
  congr 1
  funext n
  simp only [Function.comp_apply, List.length_append]
  omega

theorem char {c : Char} (h : isInert c = true) : Inert [c] := by
  intro depth rest
  simp only [isInert, Bool.and_eq_true, bne_iff_ne] at h
  obtain ⟨⟨⟨⟨⟨hopen, hclose⟩, hslash⟩, hdouble⟩, hsingle⟩, htick⟩ := h
  have hpassed : passedOver c rest = 0 := by simp [passedOver, hdouble, hsingle, htick]
  rw [List.singleton_append, braceSize?_cons depth hopen hclose (fun _ h => absurd h hslash)
    (fun _ h => absurd h hslash), hpassed]
  rfl

theorem of_all {cs : List Char} (h : cs.all isInert = true) : Inert cs := by
  induction cs with
  | nil => exact nil
  | cons c cs ih =>
    rw [List.all_cons, Bool.and_eq_true] at h
    exact append (char h.1) (ih h.2)

theorem quoted (s : String) : Inert (Quoted.quoted s).toList := by
  intro depth rest
  rw [Quoted.toList_quoted]
  have hsize := quotedSize_escaped (Quoted.escaped_encode s.toList) rest
  generalize s.toList.flatMap Quoted.encodeChar = body at hsize ⊢
  have hpassed : passedOver '"' (body ++ '"' :: rest) = body.length + 1 := by
    simpa [passedOver] using hsize
  rw [List.cons_append, List.append_assoc, List.singleton_append,
    braceSize?_cons depth (by decide) (by decide) (by simp) (by simp), hpassed]
  have hdrop : (body ++ '"' :: rest).drop (body.length + 1) = rest := by
    rw [List.append_cons, show body.length + 1 = (body ++ ['"']).length by simp, List.drop_left]
  rw [hdrop]
  congr 1
  funext n
  simp only [List.length_cons, List.length_append, List.length_nil]
  omega

/-- Braces around a text that is passed over are closed behind it. -/
theorem braceSize?_close {cs : List Char} (h : Inert cs) (rest : List Char) :
    braceSize? 0 (cs ++ '\x7d' :: rest) = some (cs.length + 1) := by
  rw [h, braceSize?]
  rfl

theorem braced {cs : List Char} (h : Inert cs) : Inert ('\x7b' :: (cs ++ ['\x7d'])) := by
  intro depth rest
  rw [List.cons_append, List.append_assoc, List.singleton_append, braceSize?, h, braceSize?,
    Option.map_map, Option.map_map]
  congr 1
  funext n
  simp only [Function.comp_apply, List.length_cons, List.length_append, List.length_nil]
  omega

end Inert

/-- A text that braces around it hold exactly. -/
def Captured (s : String) : Prop :=
  braceSize? 0 (s.toList ++ ['\x7d']) = some (s.toList.length + 1)

instance (s : String) : Decidable (Captured s) := by unfold Captured; infer_instance

theorem Captured.braceSize?_close {s : String} (h : Captured s) (rest : List Char) :
    braceSize? 0 (s.toList ++ '\x7d' :: rest) = some (s.toList.length + 1) := by
  have hmore := (braceSize?_front 0).append h rest
  rwa [List.append_assoc, List.singleton_append] at hmore

theorem captured_of_inert {s : String} (h : Inert s.toList) : Captured s :=
  h.braceSize?_close []

end DesignSync.Markup

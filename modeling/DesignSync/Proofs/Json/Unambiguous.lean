import DesignSync.Proofs.Json.Figures

/-!
Printed values are unambiguous. What is printed in front of a text, unless this would go on with a
number, tells the value and the text: the first character tells the kind of the value, a number ends
with its figures, a string at its closing quote, and an array or object where no comma follows.
-/

namespace DesignSync.Json

open Text

/-- Whether a value has no infinite number and nothing unfit in it. -/
def Definite (j : Json) : Prop :=
  ∀ l ∈ j.scalars, l ≠ unfit ∧ ∀ x, l = float x → x.isFinite = true

@[simp] theorem definite_array {items : List Json} :
    (array items).Definite ↔ ∀ j ∈ items, j.Definite := by
  simp only [Definite, scalars_array, List.mem_flatMap]
  exact ⟨fun h j hj l hl => h l ⟨j, hj, hl⟩, fun h l ⟨j, hj, hl⟩ => h j hj l hl⟩

@[simp] theorem definite_object {members : List (String × Json)} :
    (object members).Definite ↔ ∀ m ∈ members, m.2.Definite := by
  simp only [Definite, scalars_object, List.mem_flatMap]
  exact ⟨fun h m hm l hl => h l ⟨m, hm, hl⟩, fun h l ⟨m, hm, hl⟩ => h m hm l hl⟩

@[simp] theorem definite_string (s : String) : (string s).Definite := by
  simp [Definite, scalars]

@[simp] theorem definite_bool (b : Bool) : (bool b).Definite := by
  simp [Definite, scalars]

/-! ### The kind of a value -/

/-- The kinds of values, as far as the first character tells them. -/
inductive Kind where
  | null
  | bool (b : Bool)
  | number
  | string
  | array
  | object

def kind : Json → Kind
  | null => .null
  | bool b => .bool b
  | integer _ => .number
  | float _ => .number
  | string _ => .string
  | array _ => .array
  | object _ => .object
  | unfit => .null

/-- The kind that a character tells. -/
def Kind.ofChar (c : Char) : Kind :=
  if c = 'n' then null
  else if c = 't' then bool true
  else if c = 'f' then bool false
  else if c = '"' then string
  else if c = '[' then array
  else if c = '\x7b' then object
  else number

private theorem ofChar_number {c : Char} (h : c = '-' ∨ Numeral.isDigit c = true) :
    Kind.ofChar c = .number := by
  have hne (d : Char) (hd : d ≠ '-' ∧ Numeral.isDigit d = false) := isNumberStart_of_readNumber h hd
  simp [Kind.ofChar, hne 'n' (by decide), hne 't' (by decide), hne 'f' (by decide),
    hne '"' (by decide), hne '[' (by decide), hne '\x7b' (by decide)]

/-- The figures of a number are those of its text. -/
theorem exists_figures {j : Json} (h : j.Definite) (hnumber : j.kind = .number) :
    ∃ f : Figures, readFigures (scalarText j) = some (f, []) ∧ f.Says j := by
  cases j with
  | integer n => exact ⟨_, readFigures_integer n, says_integer n⟩
  | float x => exact exists_figures_float ((h _ (List.mem_singleton_self _)).2 x rfl)
  | _ => cases hnumber

theorem exists_head {j : Json} (h : j.Definite) (level : Nat) (after : List Char) :
    ∃ c tail, prettyBefore level after j = c :: tail ∧ Kind.ofChar c = j.kind := by
  have hnumber (hkind : j.kind = .number) : ∃ c tail, scalarText j ++ after = c :: tail ∧
      Kind.ofChar c = j.kind := by
    obtain ⟨f, hf, -⟩ := exists_figures h hkind
    have hread : readNumber (scalarText j) = some (f.value?.getD unfit, []) := by
      rw [readNumber, hf]
      rfl
    obtain ⟨c, tail, heq, hc⟩ := head?_of_readNumber hread
    exact ⟨c, tail ++ after, by rw [heq, List.cons_append], (ofChar_number hc).trans hkind.symm⟩
  cases j with
  | integer n => exact hnumber rfl
  | float x => exact hnumber rfl
  | bool b => cases b <;> exact ⟨_, _, rfl, rfl⟩
  | array items => cases items <;> exact ⟨_, _, rfl, rfl⟩
  | object members => cases members <;> exact ⟨_, _, rfl, rfl⟩
  | _ => exact ⟨_, _, rfl, rfl⟩

/-- Values that are printed alike are of one kind. -/
theorem kind_eq {j k : Json} (hj : j.Definite) (hk : k.Definite) {level : Nat}
    {after after' : List Char} (h : prettyBefore level after j = prettyBefore level after' k) :
    j.kind = k.kind := by
  obtain ⟨c, tail, hc, hckind⟩ := exists_head hj level after
  obtain ⟨d, tail', hd, hdkind⟩ := exists_head hk level after'
  have hhead : c = d := by
    rw [hc, hd] at h
    exact (List.cons.inj h).1
  rw [← hckind, ← hdkind, hhead]

/-! ### Scalars -/

variable {after after' : List Char}

theorem number_unambiguous {j k : Json} (hj : j.Definite) (hk : k.Definite)
    (hjkind : j.kind = .number) (hkkind : k.kind = .number) (hafter : EndsNumber after)
    (hafter' : EndsNumber after') (h : scalarText j ++ after = scalarText k ++ after') :
    j = k ∧ after = after' := by
  obtain ⟨f, hf, hfj⟩ := exists_figures hj hjkind
  obtain ⟨g, hg, hgk⟩ := exists_figures hk hkkind
  have hread := readFigures_append hafter hf
  rw [h, readFigures_append hafter' hg] at hread
  obtain ⟨heq, hrest⟩ := Prod.mk.inj (Option.some.inj hread)
  exact ⟨(heq ▸ hfj).unique hgk, hrest.symm⟩

theorem encode_unambiguous {cs cs' : List Char}
    (h : Quoted.encode cs ++ after = Quoted.encode cs' ++ after') : cs = cs' ∧ after = after' := by
  simp only [Quoted.encode, List.cons_append, List.append_assoc, List.nil_append] at h
  have hread := Quoted.decode?_encode cs after
  rw [(List.cons.inj h).2, Quoted.decode?_encode] at hread
  obtain ⟨heq, hrest⟩ := Prod.mk.inj (Option.some.inj hread)
  exact ⟨heq.symm, hrest.symm⟩

theorem scalarText_unambiguous {j k : Json} (hj : j.Definite) (hk : k.Definite)
    (hscalar : IsScalar j) (hkind : j.kind = k.kind) (hafter : EndsNumber after)
    (hafter' : EndsNumber after') (h : scalarText j ++ after = scalarText k ++ after') :
    j = k ∧ after = after' := by
  have hfit : k ≠ unfit := by
    rintro rfl
    exact (hk unfit (List.mem_singleton_self _)).1 rfl
  have hsame (heq : j = k) : j = k ∧ after = after' := by
    rw [heq] at h
    exact ⟨heq, List.append_cancel_left h⟩
  cases j with
  | null =>
    refine hsame ?_
    cases k with
    | null => rfl
    | unfit => exact absurd rfl hfit
    | _ => cases hkind
  | bool b =>
    refine hsame ?_
    cases k with
    | bool c => exact congrArg bool (Kind.bool.inj hkind)
    | _ => cases hkind
  | integer n => exact number_unambiguous hj hk rfl hkind.symm hafter hafter' h
  | float x => exact number_unambiguous hj hk rfl hkind.symm hafter hafter' h
  | string s =>
    cases k with
    | string t =>
      obtain ⟨heq, hrest⟩ := encode_unambiguous h
      exact ⟨congrArg string (String.toList_inj.1 heq), hrest⟩
    | _ => cases hkind
  | array items => exact absurd rfl (hscalar.1 items)
  | object members => exact absurd rfl (hscalar.2 members)
  | unfit => exact absurd rfl (hj unfit (List.mem_singleton_self _)).1

/-! ### Sequences -/

section

variable {α : Type}

/-- Whether two items are one where they are printed alike, and what is behind them too. -/
def Unambiguous (print : List Char → α → List Char) (x y : α) : Prop :=
  ∀ after after', EndsNumber after → EndsNumber after' → print after x = print after' y →
    x = y ∧ after = after'

/-- What stands behind an item in front of some others. -/
def behind (gap : List Char) (print : List Char → α → List Char) (after : List Char)
    (xs : List α) : List Char :=
  if xs.isEmpty then after else ',' :: (gap ++ joined gap print after xs)

variable {print : List Char → α → List Char} {gap : List Char}

theorem joined_cons (after : List Char) (x : α) (xs : List α) :
    joined gap print after (x :: xs) = print (behind gap print after xs) x := by
  cases xs <;> rfl

theorem endsNumber_behind (hafter : EndsNumber after) (xs : List α) :
    EndsNumber (behind gap print after xs) := by
  cases xs with
  | nil => exact hafter
  | cons x xs => exact endsNumber_cons (by decide) _

/-- Items one behind the other end where no comma follows. -/
theorem behind_unambiguous {xs ys : List α} (hitems : ∀ x ∈ xs, ∀ y ∈ ys, Unambiguous print x y)
    (hafter : EndsNumber after) (hafter' : EndsNumber after')
    (hcomma : after.head? ≠ some ',') (hcomma' : after'.head? ≠ some ',')
    (h : behind gap print after xs = behind gap print after' ys) : xs = ys ∧ after = after' := by
  -- a comma or its absence tells whether there is another item, and the item where it ends
  induction xs generalizing ys with
  | nil =>
    cases ys with
    | nil => exact ⟨rfl, h⟩
    | cons y ys =>
      have hhead : after = ',' :: _ := h
      rw [hhead] at hcomma
      exact absurd rfl hcomma
  | cons x xs ih =>
    cases ys with
    | nil =>
      have hhead : _ = after' := h
      rw [← hhead] at hcomma'
      exact absurd rfl hcomma'
    | cons y ys =>
      have hjoined : joined gap print after (x :: xs) = joined gap print after' (y :: ys) :=
        List.append_cancel_left (List.cons.inj h).2
      rw [joined_cons, joined_cons] at hjoined
      obtain ⟨rfl, hrest⟩ := hitems x List.mem_cons_self y List.mem_cons_self _ _
        (endsNumber_behind hafter xs) (endsNumber_behind hafter' ys) hjoined
      obtain ⟨rfl, hend⟩ := ih
        (fun a ha b hb => hitems a (List.mem_cons_of_mem _ ha) b (List.mem_cons_of_mem _ hb)) hrest
      exact ⟨rfl, hend⟩

/-- What is printed between two brackets tells the items and what is behind. -/
theorem enclosed_unambiguous {close : Char} (hclose : (isSpace close = false ∧ close ≠ ',') ∧
      Numeral.isDigit close = false ∧ close ≠ '.' ∧ close ≠ 'e' ∧ close ≠ 'E') {level : Nat}
    {xs ys : List α} (hitems : ∀ x ∈ xs, ∀ y ∈ ys, Unambiguous print x y)
    (h : enclosed .lines close level print after xs = enclosed .lines close level print after' ys) :
    xs = ys ∧ after = after' := by
  have hline : close ≠ '\n' := by
    rintro rfl
    exact absurd hclose.1.1 (by decide)
  have hends (tail : List Char) : EndsNumber (lineGap level ++ close :: tail) :=
    endsNumber_gap (isSpace_lineGap level) (endsNumber_cons hclose.2 tail)
  have hcomma (tail : List Char) : (lineGap level ++ close :: tail).head? ≠ some ',' := by
    simp [lineGap]
  cases xs with
  | nil =>
    cases ys with
    | nil => exact ⟨rfl, (List.cons.inj h).2⟩
    | cons y ys => exact absurd (List.cons.inj h).1 hline
  | cons x xs =>
    cases ys with
    | nil => exact absurd (List.cons.inj h).1.symm hline
    | cons y ys =>
      have hjoined := List.append_cancel_left h
      have hbehind : behind (lineGap (level + 1)) print (lineGap level ++ close :: after) (x :: xs) =
          behind (lineGap (level + 1)) print (lineGap level ++ close :: after') (y :: ys) :=
        congrArg (fun cs => ',' :: (lineGap (level + 1) ++ cs)) hjoined
      obtain ⟨heq, hrest⟩ := behind_unambiguous hitems (hends after) (hends after') (hcomma after)
        (hcomma after') hbehind
      exact ⟨heq, (List.cons.inj (List.append_cancel_left hrest)).2⟩

end

/-! ### Values -/

theorem unambiguous_member {level : Nat} {m n : String × Json}
    (h : Unambiguous (prettyBefore level) m.2 n.2) :
    Unambiguous (Layout.lines.member (prettyBefore level)) m n := by
  intro after after' hafter hafter' heq
  obtain ⟨hkey, hrest⟩ := encode_unambiguous heq
  have hvalue := (List.cons.inj (List.cons.inj hrest).2).2
  obtain ⟨hjson, hend⟩ := h after after' hafter hafter' hvalue
  exact ⟨Prod.ext (String.toList_inj.1 hkey) hjson, hend⟩

/-- What is printed in front of a text that does not go on with a number tells the value and the
text. -/
theorem unambiguous_prettyBefore {j k : Json} (hj : j.Definite) (hk : k.Definite) (level : Nat) :
    Unambiguous (prettyBefore level) j k := by
  induction j using Json.induct generalizing k level with
  | scalar j hscalar =>
    intro after after' hafter hafter' h
    have hkind := kind_eq hj hk h
    -- the kind is told by the first character, so the other value has no parts either
    have hkscalar : IsScalar k := by
      constructor
      · rintro items rfl
        cases j <;> first | exact hscalar.1 _ rfl | cases hkind
      · rintro members rfl
        cases j <;> first | exact hscalar.2 _ rfl | cases hkind
    rw [prints_prettyBefore.scalar hscalar, prints_prettyBefore.scalar hkscalar] at h
    exact scalarText_unambiguous hj hk hscalar hkind hafter hafter' h
  | array items ih =>
    intro after after' hafter hafter' h
    have hkind := kind_eq hj hk h
    cases k with
    | array others =>
      rw [definite_array] at hj hk
      rw [prints_prettyBefore.array, prints_prettyBefore.array] at h
      have hitems : ∀ x ∈ items, ∀ y ∈ others, Unambiguous (prettyBefore (level + 1)) x y :=
        fun x hx y hy => ih x hx (hj x hx) (hk y hy) (level + 1)
      obtain ⟨rfl, hend⟩ := enclosed_unambiguous (by decide) hitems (List.cons.inj h).2
      exact ⟨rfl, hend⟩
    | _ => cases hkind
  | object members ih =>
    intro after after' hafter hafter' h
    have hkind := kind_eq hj hk h
    cases k with
    | object others =>
      rw [definite_object] at hj hk
      rw [prints_prettyBefore.object, prints_prettyBefore.object] at h
      have hmembers : ∀ m ∈ members, ∀ n ∈ others,
          Unambiguous (Layout.lines.member (prettyBefore (level + 1))) m n :=
        fun m hm n hn => unambiguous_member (ih m hm (hj m hm) (hk n hn) (level + 1))
      obtain ⟨rfl, hend⟩ := enclosed_unambiguous (by decide) hmembers (List.cons.inj h).2
      exact ⟨rfl, hend⟩
    | _ => cases hkind

/-! ### Texts -/

section

variable {α : Type}

/-- Whether an item is printed in the same way whatever comes behind it. -/
def PrintsApart (print : List Char → α → List Char) (x : α) : Prop :=
  ∀ after rest, print (after ++ rest) x = print after x ++ rest

variable {print : List Char → α → List Char} {xs : List α}

theorem joined_append (gap : List Char) (h : ∀ x ∈ xs, PrintsApart print x)
    (after rest : List Char) :
    joined gap print (after ++ rest) xs = joined gap print after xs ++ rest := by
  induction xs with
  | nil => rfl
  | cons x xs ih =>
    obtain ⟨hx, hxs⟩ := List.forall_mem_cons.1 h
    have hbehind : behind gap print (after ++ rest) xs = behind gap print after xs ++ rest := by
      cases xs with
      | nil => rfl
      | cons y ys => simp [behind, ih hxs]
    rw [joined_cons, joined_cons, hbehind, hx]

theorem enclosed_append (layout : Layout) (close : Char) (level : Nat)
    (h : ∀ x ∈ xs, PrintsApart print x) (after rest : List Char) :
    enclosed layout close level print (after ++ rest) xs =
      enclosed layout close level print after xs ++ rest := by
  cases xs with
  | nil => rfl
  | cons x xs =>
    have hstop : layout.gap level ++ close :: (after ++ rest) =
        (layout.gap level ++ close :: after) ++ rest := by simp
    rw [enclosed, hstop, joined_append _ h, enclosed, List.append_assoc]

end

theorem Layout.Prints.apart {layout : Layout} {print : Nat → List Char → Json → List Char}
    (hprints : layout.Prints print) (j : Json) (level : Nat) : PrintsApart (print level) j := by
  induction j using Json.induct generalizing level with
  | scalar j hj =>
    intro after rest
    rw [hprints.scalar hj, hprints.scalar hj, List.append_assoc]
  | array items ih =>
    intro after rest
    rw [hprints.array, hprints.array, List.cons_append,
      enclosed_append _ _ _ fun k hk => ih k hk (level + 1)]
  | object members ih =>
    intro after rest
    have hmember : ∀ m ∈ members, PrintsApart (layout.member (print (level + 1))) m := by
      intro m hm after rest
      rw [member, ih m hm (level + 1)]
      simp [member]
    rw [hprints.object, hprints.object, List.cons_append, enclosed_append _ _ _ hmember]

theorem toList_pretty_append (j : Json) (rest : List Char) :
    j.pretty.toList ++ rest = prettyBefore 0 rest j := by
  rw [pretty, String.toList_ofList]
  exact (prints_prettyBefore.apart j 0 [] rest).symm

/-- A text begins with that of one value only. -/
theorem pretty_unambiguous {j k : Json} (hj : j.Definite) (hk : k.Definite)
    (hafter : EndsNumber after) (hafter' : EndsNumber after')
    (h : j.pretty.toList ++ after = k.pretty.toList ++ after') : j = k ∧ after = after' := by
  rw [toList_pretty_append, toList_pretty_append] at h
  exact unambiguous_prettyBefore hj hk 0 after after' hafter hafter' h

end DesignSync.Json

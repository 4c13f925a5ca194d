import DesignSync.Proofs.Document.StyleKeys

/-!
Merging. What a patch has under a key takes the place of whatever was there, and content with
anything in it takes the place of other content. So patches may as well be merged into each other
first.
-/

namespace DesignSync

namespace Style

/-- What stands under a key: a literal, or else a binding. -/
def value? (s : Style) (key : String) : Option (Literal ⊕ Binding) :=
  ((s.literal? key).map .inl).or ((s.binding? key).map .inr)

theorem literal?_eq_value? (s : Style) (key : String) :
    s.literal? key = (s.value? key).bind Sum.getLeft? := by
  unfold value?
  cases s.literal? key with
  | some l => rfl
  | none => cases s.binding? key <;> rfl

theorem Exclusive.binding?_eq_value? {s : Style} (h : s.Exclusive) (key : String) :
    s.binding? key = (s.value? key).bind Sum.getRight? := by
  unfold value?
  cases hl : s.literal? key with
  | some l =>
    rw [h.unbound key (hl ▸ rfl)]
    rfl
  | none => cases s.binding? key <;> rfl

/-- Styles in which nothing is literal and bound at once are told apart by what stands under their
keys. -/
theorem Exclusive.ext {s t : Style} (hs : s.Exclusive) (ht : t.Exclusive)
    (h : ∀ key, s.value? key = t.value? key) : s = t := by
  have hliterals : s.literals = t.literals := by
    refine Dict.ext_get? fun key => ?_
    change s.literal? key = t.literal? key
    rw [literal?_eq_value?, literal?_eq_value?, h]
  have hbindings : s.bindings = t.bindings := by
    rw [hs.bindings_eq, ht.bindings_eq]
    refine congrArg pruned (Dict.ext_get? fun key => ?_)
    rw [get?_bound, get?_bound, hs.binding?_eq_value?, ht.binding?_eq_value?, h]
  cases s
  cases t
  simp_all

/-! ### The two loops -/

theorem literals_foldl_putLiteral (es : List (String × Literal)) (s : Style) :
    (es.foldl putLiteral s).literals = es.foldl (fun d x => d.insert x.1 x.2) s.literals := by
  induction es generalizing s with
  | nil => rfl
  | cons x es ih => exact ih (s.putLiteral x)

/-- The literals of a patch free their keys. -/
theorem binding?_foldl_putLiteral (es : List (String × Literal)) (s : Style) (key : String) :
    (es.foldl putLiteral s).binding? key =
      if key ∈ es.map Prod.fst then none else s.binding? key := by
  induction es generalizing s with
  | nil => rfl
  | cons x es ih =>
    have hput : (s.putLiteral x).binding? key = if key = x.1 then none else s.binding? key := by
      obtain ⟨_ | b, literals⟩ := s
      · exact (ite_self none).symm
      · exact Dict.get?_erase b x.1 key
    rw [List.foldl_cons, ih, hput]
    simp only [List.map_cons, List.mem_cons]
    by_cases hkey : key = x.1
    · simp only [hkey, true_or, if_true, ite_self]
    · simp only [hkey, false_or, if_false]

theorem bound_foldl_putBinding (p : Style) (es : List (String × Binding)) (s : Style) :
    (es.foldl (putBinding p) s).bound = es.foldl (fun d x => d.insert x.1 x.2) s.bound := by
  induction es generalizing s with
  | nil => rfl
  | cons x es ih => exact ih (putBinding p s x)

/-- The bindings of a patch take the literals of their keys away, but for its own. -/
theorem literal?_foldl_putBinding (p : Style) (es : List (String × Binding)) (s : Style)
    (key : String) : (es.foldl (putBinding p) s).literal? key =
      if key ∈ es.map Prod.fst ∧ p.literal? key = none then none else s.literal? key := by
  induction es generalizing s with
  | nil => simp
  | cons x es ih =>
    have hput : (putBinding p s x).literal? key =
        if key = x.1 ∧ p.literal? key = none then none else s.literal? key := by
      unfold putBinding literal? Dict.contains
      by_cases hown : (p.literals.get? x.1).isSome = true
      · by_cases hkey : key = x.1
        · subst hkey
          simp [hown, Option.isSome_iff_ne_none.1 hown]
        · simp [hown, hkey]
      · by_cases hkey : key = x.1
        · subst hkey
          simp [Dict.get?_erase, Option.not_isSome_iff_eq_none.1 hown]
        · simp [hown, hkey, Dict.get?_erase]
    rw [List.foldl_cons, ih, hput]
    simp only [List.map_cons, List.mem_cons]
    by_cases hnone : p.literal? key = none
    · by_cases hkey : key = x.1
      · subst hkey
        simp only [hnone, true_or, and_self, if_true, ite_self]
      · simp only [hkey, false_or, false_and, if_false]
    · simp only [hnone, and_false, if_false]

/-- The literal under a key after all literals of a patch and all its bindings. -/
theorem literal?_merge (s p : Style) (key : String) : (s.merge p).literal? key =
    (p.literal? key).or (if (p.binding? key).isSome then none else s.literal? key) := by
  have hput : (p.literals.entries.foldl putLiteral s).literal? key =
      (p.literal? key).or (s.literal? key) := by
    rw [literal?, literals_foldl_putLiteral]
    exact Dict.get?_extend s.literals p.literals key
  have hkeys : key ∈ p.bound.entries.map Prod.fst ↔ (p.binding? key).isSome = true := by
    rw [← get?_bound]
    exact Dict.mem_keys_iff
  unfold merge
  rw [literal?_reconcile, literal?_foldl_putBinding, hput]
  simp only [hkeys]
  cases p.literal? key <;> cases p.binding? key <;> rfl

theorem binding?_merge (s p : Style) (key : String) : (s.merge p).binding? key =
    if (p.literal? key).isSome then none
    else (p.binding? key).or (if (s.literal? key).isSome then none else s.binding? key) := by
  have hliteral := literal?_merge s p key
  have hkeys : key ∈ p.literals.entries.map Prod.fst ↔ (p.literal? key).isSome = true :=
    Dict.mem_keys_iff
  have hbound : (p.bound.entries.foldl (putBinding p)
      (p.literals.entries.foldl putLiteral s)).binding? key =
      (p.binding? key).or (if (p.literal? key).isSome then none else s.binding? key) := by
    rw [← get?_bound, bound_foldl_putBinding]
    refine (Dict.get?_extend _ p.bound key).trans ?_
    rw [get?_bound, get?_bound, binding?_foldl_putLiteral]
    simp only [hkeys]
  unfold merge at hliteral ⊢
  rw [literal?_reconcile] at hliteral
  rw [binding?_reconcile, hliteral, hbound]
  cases p.literal? key <;> cases p.binding? key <;> cases s.literal? key <;> rfl

theorem merge_exclusive (s p : Style) : (s.merge p).Exclusive := reconcile_exclusive _

/-- What stands under a key after a merge: what the patch has there, or else what was there. -/
theorem value?_merge (s p : Style) (key : String) :
    (s.merge p).value? key = (p.value? key).or (s.value? key) := by
  unfold value?
  rw [literal?_merge, binding?_merge]
  cases p.literal? key <;> cases p.binding? key <;> cases s.literal? key <;>
    cases s.binding? key <;> rfl

theorem merge_merge (s p q : Style) : (s.merge p).merge q = s.merge (p.merge q) := by
  refine (merge_exclusive _ _).ext (merge_exclusive _ _) fun key => ?_
  rw [value?_merge, value?_merge, value?_merge, value?_merge, Option.or_assoc]

/-- Of a patch only what stands under its keys counts. -/
theorem merge_congr {s p q : Style} (h : ∀ key, p.value? key = q.value? key) :
    s.merge p = s.merge q := by
  refine (merge_exclusive _ _).ext (merge_exclusive _ _) fun key => ?_
  rw [value?_merge, value?_merge, h]

theorem value?_reconcile (s : Style) (key : String) : s.reconcile.value? key = s.value? key := by
  unfold value?
  rw [binding?_reconcile, literal?_reconcile]
  cases s.literal? key <;> rfl

/-- A style that is merged with itself is only reconciled. -/
theorem merge_self (s : Style) : s.merge s = s.reconcile := by
  refine (merge_exclusive _ _).ext (reconcile_exclusive _) fun key => ?_
  rw [value?_merge, value?_reconcile, Option.or_self]

/-- A patch that has been merged in does nothing the next time. -/
theorem merge_again (s p : Style) : (s.merge p).merge p = s.merge p := by
  rw [merge_merge, merge_self]
  exact merge_congr p.value?_reconcile

end Style

namespace Content

/-- What counts of content, alone: its expression, or else its text, or else its binding. -/
def leading (c : Content) : Content :=
  match c.expression, c.text with
  | some e, _ => ⟨none, none, some e⟩
  | none, some t => ⟨some t, none, none⟩
  | none, none => ⟨none, c.binding, none⟩

theorem merge_of_isEmpty (c : Content) {p : Content} (h : p.isEmpty = true) :
    c.merge p = c.reconcile := by
  obtain ⟨_ | t, _ | b, _ | e⟩ := p
  case none.none.none => rfl
  all_goals cases h

theorem merge_of_not_isEmpty (c : Content) {p : Content} (h : p.isEmpty = false) :
    c.merge p = p.leading := by
  obtain ⟨_ | t, _ | b, _ | e⟩ := p
  case none.none.none => cases h
  all_goals rfl

theorem leading_leading (c : Content) : c.leading.leading = c.leading := by
  obtain ⟨_ | t, b, _ | e⟩ := c <;> rfl

theorem isEmpty_leading (c : Content) : c.leading.isEmpty = c.isEmpty := by
  obtain ⟨_ | t, _ | b, _ | e⟩ := c <;> rfl

theorem leading_reconcile (c : Content) : c.reconcile.leading = c.leading := by
  obtain ⟨_ | t, _ | b, _ | e⟩ := c <;> rfl

theorem isEmpty_reconcile (c : Content) : c.reconcile.isEmpty = c.isEmpty := by
  obtain ⟨_ | t, _ | b, _ | e⟩ := c <;> rfl

theorem reconcile_leading (c : Content) : c.leading.reconcile = c.leading := by
  obtain ⟨_ | t, _ | b, _ | e⟩ := c <;> rfl

theorem merge_reconcile (c p : Content) : c.merge p.reconcile = c.merge p := by
  cases hp : p.isEmpty with
  | false =>
    rw [merge_of_not_isEmpty c hp, merge_of_not_isEmpty c (p.isEmpty_reconcile.trans hp),
      leading_reconcile]
  | true => rw [merge_of_isEmpty c hp, merge_of_isEmpty c (p.isEmpty_reconcile.trans hp)]

theorem merge_exclusive (c p : Content) : (c.merge p).Exclusive := by
  cases hp : p.isEmpty with
  | false =>
    rw [merge_of_not_isEmpty c hp, ← reconcile_leading]
    exact reconcile_exclusive _
  | true =>
    rw [merge_of_isEmpty c hp]
    exact reconcile_exclusive c

theorem merge_merge (c p q : Content) : (c.merge p).merge q = c.merge (p.merge q) := by
  cases hq : q.isEmpty with
  | false =>
    have hmerged : (p.merge q).isEmpty = false := by
      rw [merge_of_not_isEmpty p hq, isEmpty_leading, hq]
    rw [merge_of_not_isEmpty _ hq, merge_of_not_isEmpty _ hmerged, merge_of_not_isEmpty p hq,
      leading_leading]
  | true =>
    rw [merge_of_isEmpty _ hq, merge_of_isEmpty p hq, merge_reconcile]
    exact (merge_exclusive c p).reconcile_eq

theorem merge_again (c p : Content) : (c.merge p).merge p = c.merge p := by
  cases hp : p.isEmpty with
  | false => rw [merge_of_not_isEmpty _ hp, merge_of_not_isEmpty _ hp]
  | true => rw [merge_of_isEmpty _ hp, (merge_exclusive c p).reconcile_eq]

end Content

/-- A merge is an override by the patch. Under each key of a style stands the literal of the patch,
or else its binding, or else what the style had, and never both; of content with anything in it one
part stays, alone. Merging one patch after the other is merging both at once. -/
theorem merge_override :
    (∀ s p q : Style,
      (∀ key, (s.merge p).value? key = (p.value? key).or (s.value? key)) ∧
        (s.merge p).Exclusive ∧ (s.merge p).merge q = s.merge (p.merge q)) ∧
    (∀ c p q : Content,
      (p.isEmpty = true → c.merge p = c.reconcile) ∧
        (p.isEmpty = false → c.merge p = p.leading) ∧
        (c.merge p).merge q = c.merge (p.merge q)) := by
  constructor
  · intro s p q
    exact ⟨s.value?_merge p, s.merge_exclusive p, s.merge_merge p q⟩
  · intro c p q
    exact ⟨c.merge_of_isEmpty, c.merge_of_not_isEmpty, c.merge_merge p q⟩

end DesignSync

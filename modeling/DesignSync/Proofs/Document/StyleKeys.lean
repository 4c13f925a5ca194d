import DesignSync.Proofs.Document.Exclusive

/-!
A style from its keys: taking what it has under each of them, one by one, builds it again.
-/

namespace DesignSync.Style

theorem get?_bound (s : Style) (key : String) : s.bound.get? key = s.binding? key := by
  cases s with
  | mk bindings literals => cases bindings <;> rfl

theorem mem_keys_iff {s : Style} {key : String} :
    key ∈ s.keys ↔ (s.literal? key).isSome = true ∨ (s.binding? key).isSome = true := by
  rw [keys, Dict.mem_keys_iff, Dict.get?_extend, Dict.get?_map, Dict.get?_map, get?_bound]
  cases hliteral : s.literals.get? key <;> cases hbinding : s.binding? key <;>
    simp [literal?, hliteral]

/-- A style with what another one has under a key. -/
def addFrom (target s : Style) (key : String) : Style :=
  match target.binding? key with
  | some b => { s with bindings := some (s.bound.insert key b) }
  | none =>
    match target.literal? key with
    | some l => { s with literals := s.literals.insert key l }
    | none => s

variable {target : Style}

theorem binding?_addFrom (s : Style) (k key : String) : (addFrom target s k).binding? key =
    if key = k then (target.binding? k).or (s.binding? key) else s.binding? key := by
  unfold addFrom
  cases htarget : target.binding? k with
  | some b =>
    change (s.bound.insert k b).get? key = _
    rw [Dict.get?_insert, get?_bound]
    simp
  | none =>
    cases target.literal? k with
    | some l => simp [binding?]
    | none => simp

theorem literal?_addFrom (s : Style) {k key : String} : (addFrom target s k).literal? key =
    if key = k ∧ target.binding? k = none then (target.literal? k).or (s.literal? key)
    else s.literal? key := by
  unfold addFrom
  cases htarget : target.binding? k with
  | some b => simp [literal?]
  | none =>
    cases hliteral : target.literal? k with
    | some l =>
      change (s.literals.insert k l).get? key = _
      rw [Dict.get?_insert]
      simp [literal?]
    | none => simp

theorem bindings_addFrom {s : Style} (h : s.bindings = pruned s.bound) (k : String) :
    (addFrom target s k).bindings = pruned (addFrom target s k).bound := by
  unfold addFrom
  cases target.binding? k with
  | some b =>
    change some (s.bound.insert k b) = pruned (s.bound.insert k b)
    rw [pruned, if_neg (by simp [Dict.isEmpty_insert])]
  | none =>
    cases target.literal? k with
    | some l => exact h
    | none => exact h

theorem bindings_foldl_addFrom (ks : List String) {s : Style} (h : s.bindings = pruned s.bound) :
    (ks.foldl (addFrom target) s).bindings = pruned (ks.foldl (addFrom target) s).bound := by
  induction ks generalizing s with
  | nil => exact h
  | cons k ks ih => exact ih (bindings_addFrom h k)

theorem binding?_foldl_addFrom (ks : List String) (s : Style) (key : String) :
    (ks.foldl (addFrom target) s).binding? key =
      if key ∈ ks then (target.binding? key).or (s.binding? key) else s.binding? key := by
  induction ks generalizing s with
  | nil => rfl
  | cons k ks ih =>
    rw [List.foldl_cons, ih, binding?_addFrom]
    by_cases hk : key = k
    · subst hk
      cases target.binding? key <;> simp
    · simp [hk]

theorem literal?_foldl_addFrom (ks : List String) (s : Style) (key : String) :
    (ks.foldl (addFrom target) s).literal? key =
      if key ∈ ks ∧ target.binding? key = none then (target.literal? key).or (s.literal? key)
      else s.literal? key := by
  induction ks generalizing s with
  | nil => simp
  | cons k ks ih =>
    rw [List.foldl_cons, ih, literal?_addFrom]
    by_cases hk : key = k
    · subst hk
      cases target.binding? key <;> cases target.literal? key <;> simp
    · simp [hk]

theorem Exclusive.bindings_eq {s : Style} (h : s.Exclusive) : s.bindings = pruned s.bound := by
  cases hb : s.bindings with
  | none => simp [bound, hb, pruned, Dict.isEmpty, Dict.empty]
  | some b =>
    have hne := h.bindings_ne b hb
    simp [bound, hb, pruned, hne]

/-- The keys of a style in which nothing is literal and bound at once build it from nothing. -/
theorem foldl_addFrom (htarget : target.Exclusive) {ks : List String}
    (hks : ∀ key ∈ target.keys, key ∈ ks) : ks.foldl (addFrom target) empty = target := by
  have hbinding (key : String) :
      (ks.foldl (addFrom target) empty).binding? key = target.binding? key := by
    rw [binding?_foldl_addFrom]
    by_cases hkey : key ∈ ks
    · rw [if_pos hkey]
      exact Option.or_none
    · have hout := mt (hks key) hkey
      rw [mem_keys_iff, not_or, Option.not_isSome_iff_eq_none, Option.not_isSome_iff_eq_none] at hout
      rw [if_neg hkey, hout.2]
      rfl
  have hliteral (key : String) :
      (ks.foldl (addFrom target) empty).literal? key = target.literal? key := by
    have hempty : empty.literal? key = none := rfl
    rw [literal?_foldl_addFrom]
    cases hbound : target.binding? key with
    | some b =>
      have hnone : target.literal? key = none := by
        cases hcase : target.literal? key with
        | none => rfl
        | some l =>
          have hunbound := htarget.unbound key (by rw [hcase]; rfl)
          rw [hbound] at hunbound
          cases hunbound
      simp [hnone, hempty]
    | none =>
      by_cases hkey : key ∈ ks
      · simp [hkey, hempty]
      · have hout := mt (hks key) hkey
        rw [mem_keys_iff, not_or, Option.not_isSome_iff_eq_none] at hout
        simp [hkey, hout.1, hempty]
  have hbindings : (ks.foldl (addFrom target) empty).bindings = target.bindings := by
    rw [bindings_foldl_addFrom ks rfl, htarget.bindings_eq]
    congr 1
    refine Dict.ext_get? fun key => ?_
    rw [get?_bound, get?_bound, hbinding]
  have hliterals : (ks.foldl (addFrom target) empty).literals = target.literals :=
    Dict.ext_get? hliteral
  generalize ks.foldl (addFrom target) empty = s at hbindings hliterals
  cases s
  cases target
  simp_all

end DesignSync.Style

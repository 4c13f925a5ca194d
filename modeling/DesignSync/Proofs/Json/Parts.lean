import DesignSync.Json.Value

/-!
The parts of a value: its scalars, and how deep arrays and objects are nested in it. What holds of
every scalar and is kept by arrays and objects holds of every value.
-/

namespace DesignSync.Json

def IsScalar (j : Json) : Prop :=
  (∀ items, j ≠ array items) ∧ ∀ members, j ≠ object members

/-- Induction over the parts of a value. -/
theorem induct {P : Json → Prop} (scalar : ∀ j, IsScalar j → P j)
    (array : ∀ items, (∀ j ∈ items, P j) → P (array items))
    (object : ∀ members, (∀ m ∈ members, P m.2) → P (object members)) (j : Json) : P j := by
  have hcons : ∀ {α : Type} {Q : α → Prop} (x : α) (xs : List α), Q x → (∀ y ∈ xs, Q y) →
      ∀ y ∈ x :: xs, Q y := fun x xs hx hxs => List.forall_mem_cons.2 ⟨hx, hxs⟩
  exact @Json.rec P (fun items => ∀ j ∈ items, P j) (fun members => ∀ m ∈ members, P m.2)
    (fun m => P m.2)
    (scalar _ ⟨nofun, nofun⟩) (fun _ => scalar _ ⟨nofun, nofun⟩) (fun _ => scalar _ ⟨nofun, nofun⟩)
    (fun _ => scalar _ ⟨nofun, nofun⟩) (fun _ => scalar _ ⟨nofun, nofun⟩) array object
    (scalar _ ⟨nofun, nofun⟩) nofun hcons nofun hcons (fun _ _ h => h) j

mutual

/-- All that is in a value and is no array and no object. -/
def scalars : Json → List Json
  | array items => itemScalars items
  | object members => memberScalars members
  | j => [j]

def itemScalars : List Json → List Json
  | [] => []
  | j :: js => scalars j ++ itemScalars js

def memberScalars : List (String × Json) → List Json
  | [] => []
  | (_, j) :: ms => scalars j ++ memberScalars ms

end

mutual

/-- How deep arrays and objects are nested in a value. -/
def nesting : Json → Nat
  | array items => itemNesting items + 1
  | object members => memberNesting members + 1
  | _ => 0

def itemNesting : List Json → Nat
  | [] => 0
  | j :: js => max (nesting j) (itemNesting js)

def memberNesting : List (String × Json) → Nat
  | [] => 0
  | (_, j) :: ms => max (nesting j) (memberNesting ms)

end

theorem itemScalars_eq (items : List Json) : itemScalars items = items.flatMap scalars := by
  induction items with
  | nil => rfl
  | cons j js ih => rw [itemScalars, ih, List.flatMap_cons]

theorem memberScalars_eq (members : List (String × Json)) :
    memberScalars members = members.flatMap fun m => m.2.scalars := by
  induction members with
  | nil => rfl
  | cons m ms ih => rw [memberScalars, ih, List.flatMap_cons]

theorem itemNesting_le {items : List Json} {depth : Nat} :
    itemNesting items ≤ depth ↔ ∀ j ∈ items, j.nesting ≤ depth := by
  induction items with
  | nil => simp [itemNesting]
  | cons j js ih => rw [itemNesting, Nat.max_le, ih, List.forall_mem_cons]

theorem memberNesting_le {members : List (String × Json)} {depth : Nat} :
    memberNesting members ≤ depth ↔ ∀ m ∈ members, m.2.nesting ≤ depth := by
  induction members with
  | nil => simp [memberNesting]
  | cons m ms ih => rw [memberNesting, Nat.max_le, ih, List.forall_mem_cons]

@[simp] theorem scalars_array (items : List Json) :
    (array items).scalars = items.flatMap scalars := itemScalars_eq items

@[simp] theorem scalars_object (members : List (String × Json)) :
    (object members).scalars = members.flatMap fun m => m.2.scalars := memberScalars_eq members

theorem IsScalar.scalars_eq {j : Json} (h : IsScalar j) : j.scalars = [j] := by
  cases j with
  | array items => exact absurd rfl (h.1 items)
  | object members => exact absurd rfl (h.2 members)
  | _ => rfl

end DesignSync.Json

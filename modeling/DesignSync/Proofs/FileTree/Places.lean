import Mathlib.Data.List.Basic
import Mathlib.Data.List.TakeWhile
import DesignSync.FileTree.Basic
import DesignSync.Proofs.FileTree.Steps

/-!
Places of a tree: a place tells the folder and the name that it was made of, and what is below a
folder is written from it with its last names.
-/

namespace DesignSync.FileTree.Place

open Route

variable {place other folder : Place} {name rest : String}

theorem child_top (name : String) : child top name = name := if_pos rfl

theorem child_of_ne_top (h : place ≠ top) (name : String) :
    child place name = place ++ "/" ++ name :=
  if_neg h

theorem child_ne_top (h : name ≠ "") (place : Place) : child place name ≠ top := by
  rw [child]
  split
  · exact h
  · simp [top]

theorem parent_child (h : IsWhole name) (place : Place) : parent (child place name) = place := by
  have hname : ∀ c ∈ name.toList.reverse, (c != '/') = true := by
    intro c hc
    refine bne_iff_ne.2 fun heq => h ?_
    rw [← heq]
    exact List.mem_reverse.1 hc
  rw [parent, child]
  split
  · next htop =>
    rw [htop, List.dropWhile_eq_nil_iff.2 hname]
    rfl
  · have htext : (place ++ "/" ++ name).toList.reverse =
        name.toList.reverse ++ '/' :: place.toList.reverse := by
      simp
    rw [htext, List.dropWhile_append_of_pos hname, List.dropWhile_cons_of_neg (by decide)]
    simp

theorem child_inj {name' : String} (h : IsWhole name) (h' : IsWhole name')
    (heq : child place name = child other name') : place = other ∧ name = name' := by
  have hplace : place = other := by rw [← parent_child h place, heq, parent_child h' other]
  subst hplace
  refine ⟨rfl, ?_⟩
  by_cases htop : place = top
  · rw [htop, child_top, child_top] at heq
    exact heq
  · rw [child_of_ne_top htop, child_of_ne_top htop] at heq
    exact String.append_right_inj _ |>.1 heq

theorem length_lt_child (h : name ≠ "") (place : Place) :
    place.length < (child place name).length := by
  have hpos : 0 < name.length :=
    Nat.pos_of_ne_zero fun hlength => h (String.length_eq_zero_iff.1 hlength)
  rw [child]
  split
  · next htop => rw [htop]; exact hpos
  · rw [String.length_append, String.length_append]
    omega

theorem steps_child (place : Place) (rest : String) :
    (ofText (child place rest)).steps =
      (if place = top then [] else (ofText place).steps) ++ (ofText rest).steps := by
  by_cases htop : place = top
  · rw [htop, child_top, if_pos rfl, List.nil_append]
  · rw [child_of_ne_top htop, steps_ofText_append, if_neg htop]

/-- What is below a folder is what is reached from it. -/
theorem below?_eq_some_iff : below? place other = some rest ↔ other = child place rest := by
  rw [below?]
  split
  · next htop => rw [htop, child_top, Option.some.injEq]
  · next htop =>
    rw [child_of_ne_top htop, Option.map_eq_some_iff]
    simp only [List.isPrefixOf?_eq_some_iff_append_eq]
    constructor
    · rintro ⟨cs, hprefix, rfl⟩
      apply String.toList_injective
      simp [← hprefix]
    · rintro rfl
      exact ⟨rest.toList, by simp, String.ofList_toList⟩

/-! ### Several names -/

/-- The place that some names lead to from a folder. -/
def along (place : Place) (names : List String) : Place := names.foldl child place

theorem along_concat (place : Place) (names : List String) (name : String) :
    along place (names ++ [name]) = child (along place names) name := by
  rw [along, List.foldl_append]
  rfl

theorem along_eq_child {names : List String} (hnames : ∀ name ∈ names, name ≠ "")
    (hne : names ≠ []) (place : Place) :
    along place names = child place ("/".intercalate names) := by
  induction names generalizing place with
  | nil => exact absurd rfl hne
  | cons name names ih =>
    have hname := hnames name List.mem_cons_self
    cases names with
    | nil =>
      rw [String.intercalate_singleton]
      rfl
    | cons next names =>
      have htail := ih (fun n hn => hnames n (List.mem_cons_of_mem _ hn)) (List.cons_ne_nil _ _)
        (child place name)
      have hfirst : along place (name :: next :: names) =
          along (child place name) (next :: names) := rfl
      rw [hfirst, htail, child_of_ne_top (child_ne_top hname place), String.intercalate_cons_cons]
      by_cases htop : place = top
      · rw [htop, child_top, child_top]
      · simp only [child_of_ne_top htop, String.append_assoc]

end DesignSync.FileTree.Place

import Mathlib.Data.List.Induction
import DesignSync.Proofs.FileTree.Access

/-!
Trees in which everything has a name in a folder. In such a tree what is at a place is reached along
the names of the place, and what is in a folder has the folder's names in front of its own.
-/

namespace DesignSync.FileTree

open Place Route

variable {t : FileTree} {place : Place} {names : List String} {e : Entry}

/-- A name that something in a folder can have. -/
structure IsFileName (name : String) : Prop where
  isWhole : IsWhole name
  isName : isName name = true
  ne_up : name ≠ ".."
  noZero : '\x00' ∉ name.toList
  size : name.utf8ByteSize ≤ maxNameSize

theorem IsFileName.ne_empty {name : String} (h : IsFileName name) : name ≠ "" := by
  have hname := h.isName
  simp only [Route.isName, Bool.and_eq_true, bne_iff_ne] at hname
  exact hname.1

/-- Everything in the tree has a name in a folder of the tree, and paths start from a folder. -/
structure Sound (t : FileTree) : Prop where
  inFolder : ∀ place e, t.entries.get? place = some e →
    ∃ folder name, IsFileName name ∧ place = child folder name ∧ t.entry? folder = some .folder
  home : t.entry? t.home = some .folder

namespace Sound

/-- The places of a sound tree are written as names with slashes between neighbours. -/
theorem isFileName_of_mem_steps (h : Sound t) (hentry : t.entries.get? place = some e) :
    ∀ step ∈ (ofText place).steps, IsFileName step := by
  induction hn : place.length using Nat.strong_induction_on generalizing place e with
  | _ n ih =>
    obtain ⟨folder, name, hname, rfl, hfolder⟩ := h.inFolder place e hentry
    intro step hstep
    rw [steps_child, steps_ofText_of_isWhole hname.isWhole, List.mem_append,
      List.mem_singleton] at hstep
    obtain hstep | rfl := hstep
    · have htop : folder ≠ top := by
        rintro rfl
        simp at hstep
      rw [if_neg htop] at hstep
      rw [entry?_of_ne_top htop] at hfolder
      exact ih _ (hn ▸ length_lt_child hname.ne_empty folder) hfolder rfl step hstep
    · exact hname

/-- What is at a place is reached along the names of the place. -/
theorem follow_along (h : Sound t) (hnames : ∀ name ∈ names, IsFileName name)
    (hentry : t.entry? (place.along names) = some e) :
    t.follow place names = .ok (place.along names) := by
  induction names using List.reverseRecOn generalizing e with
  | nil => rfl
  | append_singleton names name ih =>
    have hname := hnames name (List.mem_append_right _ List.mem_cons_self)
    have hinside := child_ne_top hname.ne_empty (place.along names)
    rw [along_concat] at hentry ⊢
    rw [entry?_of_ne_top hinside] at hentry
    obtain ⟨folder, other, hother, hplace, hfolder⟩ := h.inFolder _ e hentry
    obtain ⟨rfl, rfl⟩ := child_inj hname.isWhole hother.isWhole hplace
    rw [follow_append, ih (fun n hn => hnames n (List.mem_append_left _ hn)) hfolder]
    refine follow_cons_eq_ok_iff.2 ⟨hfolder, _, ?_, rfl⟩
    rw [next, if_neg hname.ne_up, if_neg (Nat.not_lt.2 hname.size)]

theorem entry?_of_get? (h : Sound t) (hentry : t.entries.get? place = some e) :
    t.entry? place = some e := by
  obtain ⟨folder, name, hname, rfl, -⟩ := h.inFolder place e hentry
  rw [entry?_of_ne_top (child_ne_top hname.ne_empty folder), hentry]

/-- How the place of something below a folder is written from there has nothing but names in it. -/
theorem names_of_below (h : Sound t) {path : String}
    (hentry : t.entries.get? (place.child path) = some e) :
    (∀ step ∈ (ofText path).steps, IsFileName step) ∧
      (ofText path).names = (ofText path).steps := by
  have hsteps : ∀ step ∈ (ofText path).steps, IsFileName step := by
    intro step hstep
    refine h.isFileName_of_mem_steps hentry step ?_
    rw [steps_child]
    exact List.mem_append_right _ hstep
  exact ⟨hsteps, List.filter_eq_self.2 fun step hstep => (hsteps step hstep).isName⟩

/-- What is below a folder is reached from there. -/
theorem follow_of_below (h : Sound t) {path : String}
    (hentry : t.entries.get? (place.child path) = some e) :
    t.follow place (ofText path).names = .ok (place.child path) := by
  obtain ⟨hsteps, hnames⟩ := h.names_of_below hentry
  have hplace : place.along (ofText path).names = place.child path := by
    rw [along_eq_child (fun _ hname => ne_empty_of_mem_names hname)
      (hnames ▸ steps_ofText_ne_nil path), hnames, intercalate_steps]
  rw [← hplace]
  refine h.follow_along (e := e) (fun name hname => hsteps name (hnames ▸ hname)) ?_
  rw [hplace, h.entry?_of_get? hentry]

end Sound

end DesignSync.FileTree

import DesignSync.Buffer.Directory
import DesignSync.Proofs.FileTree.Sound

/-!
The two ways to read a buffer that is a folder: all its files at once, by how their places are
written from the folder, and one file, by whatever path leads to it. The files are found under
plain paths only, so that the two agree about a path if and only if it is plain or nothing is there.
-/

namespace DesignSync.FolderBuffer

open FileTree Place Route

variable {b : FolderBuffer} {place : Place} {path content key : String} {files : Files}

/-! ### What is at a path -/

/-- A path of the buffer leads to a file with a text. -/
def Holds (b : FolderBuffer) (path content : String) : Prop :=
  ∃ r place, b.route? path = .ok r ∧ b.tree.locate r = .ok (place, some (.text content))

/-- A path of the buffer leads to a place where nothing is, or to none. -/
def Lacks (b : FolderBuffer) (path : String) : Prop :=
  ∃ r, b.route? path = .ok r ∧
    (b.tree.locate r = .error .notFound ∨ ∃ place, b.tree.locate r = .ok (place, none))

theorem route?_eq_ok_iff {r : Route} :
    b.route? path = .ok r ↔ (ofText path).escapes = false ∧ r = (ofText path).under b.root := by
  rw [route?]
  cases (ofText path).escapes <;> simp [eq_comm]

theorem isOpen_iff : b.isOpen = true ↔
    ∃ place, b.tree.locate (ofText b.root) = .ok (place, some .folder) := isFolder_iff

theorem textAt_eq_some_iff (hopen : b.isOpen = true) :
    b.textAt path = .ok (some content) ↔ b.Holds path content := by
  simp only [textAt, if_pos hopen, bind_eq_ok_iff, Holds, exists_and_left, ← readText_eq_ok_iff]
  refine exists_congr fun r => and_congr_right fun _ => ?_
  split
  · next hread => simp [hread]
  · next hread => simp [hread]
  · next hread => simp [hread]

theorem textAt_eq_none_iff (hopen : b.isOpen = true) :
    b.textAt path = .ok none ↔ b.Lacks path := by
  simp only [textAt, if_pos hopen, bind_eq_ok_iff, Lacks, ← readText_eq_notFound_iff]
  refine exists_congr fun r => and_congr_right fun _ => ?_
  split
  · next hread => simp [hread]
  · next hread => simp [hread]
  · next e hmissing hread =>
    rw [hread]
    refine iff_of_false (by simp) fun heq => hmissing ?_
    exact Except.error.inj heq

/-! ### All files -/

/-- All files are read where the folder is there, and nothing below it is too deep. -/
theorem files_eq_some_iff : b.files = .ok (some files) ↔
    ∃ place, b.tree.locate (ofText b.root) = .ok (place, some .folder) ∧
      b.isTooDeep place = false ∧ files = textsBelow b.tree place := by
  rw [FolderBuffer.files]
  split
  · next found hlocate =>
    constructor
    · intro hfiles
      split at hfiles
      · cases hfiles
      · next hdeep =>
        cases hfiles
        exact ⟨found, hlocate, Bool.eq_false_iff.2 hdeep, rfl⟩
    · rintro ⟨place, hplace, hdeep, rfl⟩
      rw [hlocate] at hplace
      cases hplace
      rw [hdeep]
      rfl
  · next h =>
    refine iff_of_false (by simp) ?_
    rintro ⟨place, hlocate, -⟩
    exact h place hlocate

theorem files_eq_none_iff : b.files = .ok none ↔ b.isOpen = false := by
  rw [← Bool.not_eq_true, isOpen_iff, FolderBuffer.files]
  split
  · next place hlocate => cases b.isTooDeep place <;> simp [hlocate]
  · next h => simpa using h

/-- The text files below a folder, each by how its place is written from there. -/
theorem get?_textsBelow {t : FileTree} : (textsBelow t place).get? key = some content ↔
    t.entries.get? (child place key) = some (.text content) := by
  have hentry (x : String × Entry) (k v : String) :
      ((below? place x.1).map fun rest => (rest, x.2)).bind
        (fun y => y.2.text?.map fun content => (y.1, content)) = some (k, v) ↔
      x = (child place k, .text v) := by
    obtain ⟨other, e⟩ := x
    cases e <;> simp [Option.bind_eq_some_iff, below?_eq_some_iff, Entry.text?]
  rw [textsBelow, FileTree.below, List.filterMap_filterMap, Dict.get?_ofList_filterMap,
    Dict.get?_eq_some_iff]
  · simp only [hentry, exists_eq_right]
  · intro x y k v w hx hy
    rw [(hentry x k v).1 hx, (hentry y k w).1 hy]

/-! ### One file and all files -/

/-- A file that is found at a path is among all files under the plain path. -/
theorem get?_text_of_holds (hfiles : b.files = .ok (some files)) (h : b.Holds path content) :
    files.get? (ofText path).text = some content := by
  obtain ⟨folder, hroot, -, rfl⟩ := files_eq_some_iff.1 hfiles
  obtain ⟨r, place, hroute, hlocate⟩ := h
  obtain ⟨hescapes, rfl⟩ := route?_eq_ok_iff.1 hroute
  obtain ⟨habsolute, hup⟩ := escapes_eq_false_iff.1 hescapes
  obtain ⟨⟨-, hfollow⟩, hentry, -⟩ := locate_eq_ok_iff.1 hlocate
  rw [follow_under hroot] at hfollow
  have hne : (ofText path).names ≠ [] := by
    intro hnil
    rw [hnil] at hfollow
    obtain rfl := Except.ok.inj hfollow
    rw [(locate_eq_folder_iff.1 hroot).2] at hentry
    cases hentry
  rw [eq_along_of_follow hup hfollow,
    along_eq_child (fun _ hname => ne_empty_of_mem_names hname) hne] at hentry
  rw [text_of_names_ne_nil habsolute hne, get?_textsBelow, ← hentry, entry?_of_ne_top]
  exact ne_top_of_ne_folder (by rw [hentry]; simp)

/-- The path to something below the folder is one that leads to it. -/
theorem accept_of_below (hsound : b.tree.Sound) {e : Entry}
    (hroot : b.tree.locate (ofText b.root) = .ok (place, some .folder))
    (hdeep : b.isTooDeep place = false) (hentry : b.tree.entries.get? (child place path) = some e) :
    accept ((ofText path).under b.root) = .ok () := by
  obtain ⟨hsteps, hnames⟩ := hsound.names_of_below hentry
  have hbelow : (path, e) ∈ b.tree.below place :=
    List.mem_filterMap.2 ⟨_, Dict.get?_eq_some_iff.1 hentry, by simp [below?_eq_some_iff.2 rfl]⟩
  refine accept_eq_ok_iff.2 ⟨Bool.eq_false_iff.2 fun hnothing => ?_, fun name hname => ?_, ?_⟩
  · have hnil := names_of_isNothing hnothing
    rw [names_under, hnames] at hnil
    exact steps_ofText_ne_nil path (List.append_eq_nil_iff.1 hnil).2
  · rw [names_under, hnames] at hname
    obtain hname | hname := List.mem_append.1 hname
    · exact (accept_eq_ok_iff.1 (locate_eq_folder_iff.1 hroot).1.1).2.1 name hname
    · exact (hsteps name hname).noZero
  · simpa using List.any_eq_false.1 hdeep _ hbelow

/-- All files of a sound tree have those that are found at plain paths, and no others. -/
theorem get?_eq_some_iff (hsound : b.tree.Sound) (hfiles : b.files = .ok (some files))
    (hescapes : (ofText path).escapes = false) :
    files.get? path = some content ↔ (ofText path).text = path ∧ b.Holds path content := by
  constructor
  · intro h
    obtain ⟨folder, hroot, hdeep, rfl⟩ := files_eq_some_iff.1 hfiles
    have hentry := get?_textsBelow.1 h
    obtain ⟨hsteps, hnames⟩ := hsound.names_of_below hentry
    have hne : (ofText path).names ≠ [] := hnames ▸ steps_ofText_ne_nil path
    have haccept := accept_of_below hsound hroot hdeep hentry
    have hfollow := hsound.follow_of_below hentry
    rw [← follow_under hroot] at hfollow
    refine ⟨?_, _, _, route?_eq_ok_iff.2 ⟨hescapes, rfl⟩, locate_eq_ok_iff.2
      ⟨⟨haccept, hfollow⟩, hsound.entry?_of_get? hentry, fun _ _ => .inr ?_⟩⟩
    · rw [text_of_names_ne_nil (escapes_eq_false_iff.1 hescapes).1 hne, hnames, intercalate_steps]
    · refine (ending_under _ (steps_ofText_ne_nil path)).2 fun step hstep => ?_
      exact (hsteps step (List.mem_of_getLast? hstep)).isName
  · rintro ⟨hplain, h⟩
    rw [← hplain]
    exact get?_text_of_holds hfiles h

/-- One file is read like an entry of all files if and only if nothing is there, or its path is
plain and leads to a text. -/
theorem textAt_eq_get?_iff (hsound : b.tree.Sound) (hfiles : b.files = .ok (some files))
    (hescapes : (ofText path).escapes = false) : b.textAt path = .ok (files.get? path) ↔
      b.Lacks path ∨ (ofText path).text = path ∧ ∃ content, b.Holds path content := by
  have hopen : b.isOpen = true := by
    obtain ⟨folder, hroot, -⟩ := files_eq_some_iff.1 hfiles
    exact isOpen_iff.2 ⟨folder, hroot⟩
  cases hget : files.get? path with
  | some content =>
    obtain ⟨hplain, hholds⟩ := (get?_eq_some_iff hsound hfiles hescapes).1 hget
    exact iff_of_true ((textAt_eq_some_iff hopen).2 hholds) (.inr ⟨hplain, content, hholds⟩)
  | none =>
    rw [textAt_eq_none_iff hopen, or_iff_left]
    rintro ⟨hplain, content, hholds⟩
    rw [(get?_eq_some_iff hsound hfiles hescapes).2 ⟨hplain, hholds⟩] at hget
    cases hget

end DesignSync.FolderBuffer

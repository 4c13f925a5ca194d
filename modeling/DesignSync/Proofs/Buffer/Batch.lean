import DesignSync.Proofs.Buffer.Reading
import DesignSync.Proofs.FileTree.Changes

/-!
Batches, change by change. A batch is carried out up to the first change that fails, and what was
done before stays done: an invalid path keeps its own change from being made and those behind it,
and no others.
-/

namespace DesignSync

/-- A change to one file. -/
inductive FileChange where
  | remove (path : String)
  | write (path content : String)

def FileChange.path : FileChange → String
  | remove path => path
  | write path _ => path

/-- The changes of a batch in the order in which they are made. -/
def FileDiff.changes (d : FileDiff) : List FileChange :=
  d.destroy.map .remove ++ d.create.entries.map fun file => .write file.1 file.2

namespace FolderBuffer

open FileTree Route

variable {b b' : FolderBuffer} {change : FileChange} {changes front back : List FileChange}
  {path content : String}

def perform (b : FolderBuffer) : FileChange → FolderBuffer × Option BufferError
  | .remove path => b.removeAll [path]
  | .write path content => b.writeText path content

/-- The changes up to the first one that fails. -/
def performAll (b : FolderBuffer) : List FileChange → FolderBuffer × Option BufferError
  | [] => (b, none)
  | change :: changes =>
    match b.perform change with
    | (b, some e) => (b, some e)
    | (b, none) => b.performAll changes

theorem performAll_append (b : FolderBuffer) (front back : List FileChange) :
    b.performAll (front ++ back) =
      match b.performAll front with
      | (b, some e) => (b, some e)
      | (b, none) => b.performAll back := by
  induction front generalizing b with
  | nil => rfl
  | cons change front ih =>
    rw [List.cons_append, performAll, performAll]
    split
    · rfl
    · exact ih _

theorem removeAll_eq (b : FolderBuffer) (paths : List String) :
    b.removeAll paths = b.performAll (paths.map .remove) := by
  induction paths generalizing b with
  | nil => rfl
  | cons path paths ih =>
    rw [List.map_cons, performAll, perform, removeAll, removeAll]
    cases b.route? path with
    | error => rfl
    | ok r =>
      simp only
      split
      · exact ih _
      · exact ih _
      · rfl

theorem writeAll_eq (b : FolderBuffer) (files : List (String × String)) :
    b.writeAll files = b.performAll (files.map fun file => .write file.1 file.2) := by
  induction files generalizing b with
  | nil => rfl
  | cons file files ih =>
    rw [List.map_cons, performAll, perform, writeAll]
    rcases b.writeText file.1 file.2 with ⟨b', _ | e⟩
    · exact ih b'
    · rfl

/-- Writing a batch is making its changes one by one. -/
theorem write_eq (b : FolderBuffer) (d : FileDiff) : Buffer.write b d = b.performAll d.changes := by
  rw [FileDiff.changes, performAll_append, ← removeAll_eq]
  simp only [← writeAll_eq]
  rfl

/-! ### What a change does to the tree -/

/-- Whatever is kept by removing and writing at its path and by creating folders around it is kept
by a change, whether it fails or not. -/
theorem perform_induction {P : FileTree → Prop} (b : FolderBuffer) (change : FileChange)
    (h : P b.tree)
    (hremove : ∀ t t', P t → t.remove ((ofText change.path).under b.root) = .ok t' → P t')
    (hcreate : ∀ t, P t → P (t.createFolders ((ofText change.path).under b.root).parent).1)
    (hwrite : ∀ t t' e, P t → t.writeFile ((ofText change.path).under b.root) e = .ok t' → P t') :
    P (b.perform change).1.tree ∧ (b.perform change).1.root = b.root := by
  cases change with
  | remove path =>
    rw [perform, removeAll]
    cases hroute : b.route? path with
    | error => exact ⟨h, rfl⟩
    | ok r =>
      obtain ⟨-, rfl⟩ := route?_eq_ok_iff.1 hroute
      simp only
      split
      · next t ht => exact ⟨hremove b.tree t h ht, rfl⟩
      · exact ⟨h, rfl⟩
      · exact ⟨h, rfl⟩
  | write path content =>
    rw [perform, writeText]
    cases hroute : b.route? path with
    | error => exact ⟨h, rfl⟩
    | ok r =>
      obtain ⟨-, rfl⟩ := route?_eq_ok_iff.1 hroute
      have ht := hcreate b.tree h
      simp only [FileChange.path] at ht
      simp only
      split
      · next heq => exact ⟨by rwa [heq] at ht, rfl⟩
      · next t heq =>
        rw [heq] at ht
        split
        · next t' ht' => exact ⟨hwrite t t' _ ht ht', rfl⟩
        · exact ⟨ht, rfl⟩

/-- Where a path of the buffer leads, whatever is on the way. -/
def aim (b : FolderBuffer) (path : String) : Place := b.tree.aim ((ofText path).under b.root)

/-- A change leaves everything alone but the place that its path leads to. -/
theorem keptAt_perform {place : Place} (h : place ≠ b.aim change.path) :
    (KeptAt place b.tree (b.perform change).1.tree ∧ (b.perform change).1.tree.home = b.tree.home) ∧
      (b.perform change).1.root = b.root := by
  have haim (t : FileTree) (ht : t.home = b.tree.home) :
      place ≠ t.aim ((ofText change.path).under b.root) := by
    rwa [FileTree.aim, FileTree.start, ht]
  refine perform_induction (P := fun t => KeptAt place b.tree t ∧ t.home = b.tree.home) b change
    ⟨.refl place b.tree, rfl⟩ ?_ ?_ ?_
  · intro t t' ht hremove
    obtain ⟨-, -, rfl⟩ := remove_eq_ok hremove
    exact ⟨ht.1.trans (keptAt_remove hremove (haim t ht.2)), ht.2⟩
  · intro t ht
    obtain ⟨hkept, hhome⟩ := keptAt_createFolders t ((ofText change.path).under b.root).parent place
    exact ⟨ht.1.trans hkept, hhome.trans ht.2⟩
  · intro t t' e ht hwrite
    exact ⟨ht.1.trans (keptAt_writeFile hwrite (haim t ht.2)), (home_writeFile hwrite).trans ht.2⟩

theorem sound_perform (h : b.tree.Sound) (change : FileChange) :
    (b.perform change).1.tree.Sound := by
  refine (perform_induction b change h (fun _ _ ht => ht.remove) (fun t ht => ?_)
    (fun _ _ _ ht => ht.writeFile fun _ => isWhole_of_mem_names_under)).1
  exact ht.createFolders fun _ hname => isWhole_of_mem_names_under (mem_names_of_parent hname)

/-- Whatever each change keeps is kept by all of them, also where one fails on the way. -/
theorem performAll_induction {P : FolderBuffer → Prop} (h : P b)
    (hstep : ∀ b, ∀ change ∈ changes, P b → P (b.perform change).1) :
    P (b.performAll changes).1 := by
  induction changes generalizing b with
  | nil => exact h
  | cons change changes ih =>
    have hfirst := hstep b change List.mem_cons_self h
    rw [performAll]
    generalize b.perform change = result at hfirst
    obtain ⟨b₁, _ | e⟩ := result
    · exact ih hfirst fun b change hmem => hstep b change (List.mem_cons_of_mem _ hmem)
    · exact hfirst

/-- Changes, made or not, leave everything alone but the places that their paths lead to. -/
theorem keptAt_performAll {place : Place} (h : ∀ change ∈ changes, place ≠ b.aim change.path) :
    KeptAt place b.tree (b.performAll changes).1.tree := by
  refine (performAll_induction (P := fun b₁ => (KeptAt place b.tree b₁.tree ∧
    b₁.tree.home = b.tree.home) ∧ b₁.root = b.root) ⟨⟨.refl place b.tree, rfl⟩, rfl⟩ ?_).1.1
  rintro b₁ change hmem ⟨⟨hkept, hhome⟩, hroot⟩
  have haim : b₁.aim change.path = b.aim change.path := by
    rw [aim, aim, FileTree.aim, FileTree.aim, FileTree.start, FileTree.start, hroot, hhome]
  obtain ⟨⟨hkept', hhome'⟩, hroot'⟩ := keptAt_perform (haim ▸ h change hmem)
  exact ⟨⟨hkept.trans hkept', hhome'.trans hhome⟩, hroot'.trans hroot⟩

/-- A batch keeps the tree sound, also one that fails on the way. -/
theorem sound_write (h : b.tree.Sound) (d : FileDiff) : (Buffer.write b d).1.tree.Sound := by
  rw [write_eq]
  exact performAll_induction (P := fun b => b.tree.Sound) h fun _ change _ hb =>
    sound_perform hb change

/-- An open buffer without files. -/
def bare : FolderBuffer := ⟨FileTree.empty.put "root" .folder, "root"⟩

theorem sound_bare : bare.tree.Sound where
  inFolder place e h := by
    obtain ⟨rfl, rfl⟩ : place = "root" ∧ e = .folder := by
      have hmem : (place, e) ∈ [("root", Entry.folder)] := Dict.get?_eq_some_iff.1 h
      simpa using hmem
    exact ⟨Place.top, "root", ⟨by decide, by decide, by decide, by decide, by decide⟩, rfl, rfl⟩
  home := rfl

/-! ### Invalid paths -/

theorem route?_eq_error_iff {e : BufferError} :
    b.route? path = .error e ↔ (ofText path).escapes = true ∧ e = .invalidPath path := by
  rw [route?]
  cases (ofText path).escapes <;> simp [eq_comm]

/-- A change fails with an invalid path if and only if the path is its own, and then it does
nothing. -/
theorem perform_eq_invalidPath_iff : b.perform change = (b', some (.invalidPath path)) ↔
    (change.path = path ∧ (ofText path).escapes = true) ∧ b' = b := by
  have hinvalid {p : String} (hp : (ofText p).escapes = true) :
      (b, some (BufferError.invalidPath p)) = (b', some (.invalidPath path)) ↔
        (p = path ∧ (ofText path).escapes = true) ∧ b' = b := by
    constructor
    · intro h
      cases h
      exact ⟨⟨rfl, hp⟩, rfl⟩
    · rintro ⟨⟨rfl, -⟩, rfl⟩
      rfl
  have hvalid {p : String} {result : FolderBuffer × Option BufferError}
      (hp : (ofText p).escapes = false) (hresult : ∀ q, result.2 ≠ some (.invalidPath q)) :
      result = (b', some (.invalidPath path)) ↔
        (p = path ∧ (ofText path).escapes = true) ∧ b' = b := by
    refine iff_of_false (fun h => hresult path (h ▸ rfl)) ?_
    rintro ⟨⟨rfl, hpath⟩, -⟩
    rw [hp] at hpath
    cases hpath
  cases change with
  | remove p =>
    rw [perform, removeAll]
    cases hroute : b.route? p with
    | error e =>
      obtain ⟨hp, rfl⟩ := route?_eq_error_iff.1 hroute
      exact hinvalid hp
    | ok r =>
      refine hvalid (route?_eq_ok_iff.1 hroute).1 fun q => ?_
      simp only
      split <;> simp [removeAll]
  | write p content =>
    rw [perform, writeText]
    cases hroute : b.route? p with
    | error e =>
      obtain ⟨hp, rfl⟩ := route?_eq_error_iff.1 hroute
      exact hinvalid hp
    | ok r =>
      refine hvalid (route?_eq_ok_iff.1 hroute).1 fun q => ?_
      simp only
      split
      · simp
      · split <;> simp

/-- Changes fail with an invalid path if and only if one of them has it and those in front of that
one are made. -/
theorem performAll_eq_invalidPath_iff : b.performAll changes = (b', some (.invalidPath path)) ↔
    ∃ front change back, changes = front ++ change :: back ∧
      (change.path = path ∧ (ofText path).escapes = true) ∧ b.performAll front = (b', none) := by
  constructor
  · intro h
    induction changes generalizing b with
    | nil => cases h
    | cons change changes ih =>
      rw [performAll] at h
      split at h
      · next b₁ e hperform =>
        cases h
        obtain ⟨hpath, rfl⟩ := perform_eq_invalidPath_iff.1 hperform
        exact ⟨[], change, changes, rfl, hpath, rfl⟩
      · next b₁ hperform =>
        obtain ⟨front, bad, back, rfl, hpath, hfront⟩ := ih h
        refine ⟨change :: front, bad, back, rfl, hpath, ?_⟩
        rw [performAll, hperform]
        exact hfront
  · rintro ⟨front, change, back, rfl, hpath, hfront⟩
    rw [performAll_append, hfront]
    simp only
    rw [performAll, perform_eq_invalidPath_iff.2 ⟨hpath, rfl⟩]

/-- Removing a file that is missing does nothing. -/
theorem perform_remove_of_lacks (h : b.Lacks path) : b.perform (.remove path) = (b, none) := by
  obtain ⟨r, hroute, hlocate⟩ := h
  have hremove : b.tree.remove r = .error .notFound := by
    obtain hlocate | ⟨place, hlocate⟩ := hlocate
    · rw [FileTree.remove, hlocate]
      rfl
    · rw [FileTree.remove, hlocate]
      rfl
  rw [perform, removeAll, hroute]
  simp only [hremove]
  rfl

/-- A change that asks for nothing: a file is to be removed that is missing. -/
def IsIdle (b : FolderBuffer) (change : FileChange) : Prop :=
  ∃ path, change = .remove path ∧ b.Lacks path

theorem performAll_of_isIdle (h : ∀ change ∈ changes, b.IsIdle change) :
    b.performAll changes = (b, none) := by
  induction changes with
  | nil => rfl
  | cons change changes ih =>
    obtain ⟨path, rfl, hlacks⟩ := h change List.mem_cons_self
    rw [performAll, perform_remove_of_lacks hlacks]
    exact ih fun change hmem => h change (List.mem_cons_of_mem _ hmem)

/-- What a batch did that stopped at an invalid path: it made the changes in front of the first one
with such a path. If those asked for nothing it did nothing; and what none of them leads to is as it
was, but that folders may be new. -/
structure StoppedAt (b : FolderBuffer) (d : FileDiff) (path : String) (b' : FolderBuffer)
    (front : List FileChange) : Prop where
  next : ∃ change back, d.changes = front ++ change :: back ∧ change.path = path
  escapes : (ofText path).escapes = true
  made : b.performAll front = (b', none)
  idle : (∀ change ∈ front, b.IsIdle change) → b' = b
  others : ∀ place, (∀ change ∈ front, place ≠ b.aim change.path) → KeptAt place b.tree b'.tree

theorem stoppedAt_of_write {d : FileDiff} (h : Buffer.write b d = (b', some (.invalidPath path))) :
    ∃ front, b.StoppedAt d path b' front := by
  rw [write_eq, performAll_eq_invalidPath_iff] at h
  obtain ⟨front, change, back, hchanges, ⟨hpath, hescapes⟩, hfront⟩ := h
  refine ⟨front, ⟨change, back, hchanges, hpath⟩, hescapes, hfront, fun hidle => ?_,
    fun place h => ?_⟩
  · rw [performAll_of_isIdle hidle] at hfront
    exact (congrArg Prod.fst hfront).symm
  · have hkept := keptAt_performAll h
    rwa [hfront] at hkept

/-! ### Reading what was written -/

/-- A file that was written into an open buffer is read as it was written. -/
theorem textAt_of_writeText (hopen : b.isOpen = true)
    (h : b.writeText path content = (b', none)) : b'.textAt path = .ok (some content) := by
  rw [writeText] at h
  cases hroute : b.route? path with
  | error e =>
    rw [hroute] at h
    cases h
  | ok r =>
    obtain ⟨hescapes, rfl⟩ := route?_eq_ok_iff.1 hroute
    rw [hroute] at h
    simp only at h
    split at h
    · cases h
    next t _ =>
    split at h
    · next t' hwrite =>
      cases h
      obtain ⟨folder, hroot⟩ := isOpen_iff.1 hopen
      have haccept := (locate_eq_folder_iff.1 hroot).1.1
      obtain ⟨-, -, -, hending, -⟩ := writeFile_eq_ok hwrite
      have hne : (ofText path).names ≠ [] := by
        have hlast := (ending_under b.root (steps_ofText_ne_nil path)).1 hending _
          (List.getLast?_eq_some_getLast (steps_ofText_ne_nil path))
        exact List.ne_nil_of_mem (List.mem_filter.2 ⟨List.getLast_mem _, hlast⟩)
      have hopen' : ({ b with tree := t' } : FolderBuffer).isOpen = true :=
        isOpen_iff.2 (locate_folder_of_writeFile haccept hne hwrite)
      obtain ⟨place, hlocate⟩ := locate_of_writeFile hwrite
      exact (textAt_eq_some_iff hopen').2
        ⟨_, place, route?_eq_ok_iff.2 ⟨hescapes, rfl⟩, hlocate⟩
    · cases h

theorem isOpen_of_writeText (hopen : b.isOpen = true)
    (h : b.writeText path content = (b', none)) : b'.isOpen = true := by
  have hread := textAt_of_writeText hopen h
  rw [textAt] at hread
  split at hread
  · next hopen' => exact hopen'
  · cases hread

theorem textAt_of_escapes (hopen : b.isOpen = true) (h : (ofText path).escapes = true) :
    b.textAt path = .error (.invalidPath path) := by
  rw [textAt, if_pos hopen, route?_eq_error_iff.2 ⟨h, rfl⟩]
  rfl

end FolderBuffer

end DesignSync

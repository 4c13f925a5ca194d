import DesignSync.Proofs.Buffer.Batch
import DesignSync.Sync.Coordinator

/-!
Where the source is looked for. A push looks for an edit among all files, a poll reads the one file
at the source path. They see the same if the source path is plain; at any other path that leads to
the source, a push sees no edit whatever a poll sees.
-/

namespace DesignSync

namespace Coordinator

variable {β : Type} [Buffer β] {b : FolderBuffer} {path : String} {snapshot : Option Files}

/-- What is observed depends on the source in the buffer and on the one that was seen last. -/
theorem observe_snd (c : Coordinator β) : c.observe.2 = c.currentSource.map fun source =>
    source.filter fun text => c.lastObserved ≠ some text := by
  unfold observe observeFinding
  cases c.currentSource with
  | error => rfl
  | ok source =>
    cases source with
    | none => rfl
    | some text =>
      by_cases hseen : c.lastObserved = some text
      · simp [hseen, Except.map, Option.filter]
      · simp [hseen, Except.map, Option.filter]

/-- An edit is observed if there is a source that was not seen last. -/
theorem observe_eq_some_iff {c : Coordinator β} {source : String} :
    c.observe.2 = .ok (some source) ↔
      c.currentSource = .ok (some source) ∧ c.lastObserved ≠ some source := by
  rw [observe_snd, map_eq_ok_iff]
  constructor
  · rintro ⟨found, hcurrent, hfilter⟩
    obtain ⟨rfl, hnew⟩ := Option.filter_eq_some_iff.1 hfilter
    exact ⟨hcurrent, by simpa using hnew⟩
  · rintro ⟨hcurrent, hnew⟩
    exact ⟨some source, hcurrent, Option.filter_eq_some_iff.2 ⟨rfl, by simpa using hnew⟩⟩

omit [Buffer β] in
/-- An edit is found among all files if the source there is another one than was seen last. -/
theorem hasUnreadEdit_iff {c : Coordinator β} {files : Files} :
    c.hasUnreadEdit files = true ↔ ∃ observed source, c.lastObserved = some observed ∧
      files.get? c.config.sourcePath = some source ∧ source ≠ observed := by
  unfold hasUnreadEdit
  split
  · next observed source hobserved hsource => simp [hobserved, hsource]
  · next h =>
    refine iff_of_false (by simp) ?_
    rintro ⟨observed, source, hobserved, hsource, -⟩
    exact h observed source hobserved hsource

/-- One file of an open buffer is read as it stands among all files, if and only if nothing is at
the path, or the path is plain. And a push sees an edit if and only if a poll does and the path of
the source is plain, where a source was seen before. -/
theorem fileAt_eq_entry_iff (hsound : b.tree.Sound) (hread : Buffer.readAll b = .ok snapshot)
    (hescapes : (Route.ofText path).escapes = false) :
    (Buffer.fileAt b path = (Buffer.readAll b).map (fun files => files.bind (·.get? path)) ↔
      snapshot = none ∨ b.Lacks path ∨
        (Route.ofText path).text = path ∧ ∃ content, b.Holds path content) ∧
    ∀ c : Coordinator FolderBuffer, c.buffer = b → c.config.sourcePath = path →
      ∀ files, snapshot = some files → (c.hasUnreadEdit files = true ↔
        (Route.ofText path).text = path ∧ c.lastObserved.isSome = true ∧
          ∃ source, c.observe.2 = .ok (some source)) := by
  constructor
  · rw [hread]
    cases snapshot with
    | none =>
      refine iff_of_true ?_ (.inl rfl)
      exact if_neg (Bool.eq_false_iff.1 (FolderBuffer.files_eq_none_iff.1 hread))
    | some files =>
      rw [or_iff_right (by simp)]
      exact FolderBuffer.textAt_eq_get?_iff hsound hread hescapes
  · rintro c rfl rfl files rfl
    have hentry (source : String) : files.get? c.config.sourcePath = some source ↔ _ :=
      FolderBuffer.get?_eq_some_iff hsound hread hescapes
    have hopen : c.buffer.isOpen = true := by
      obtain ⟨folder, hroot, -⟩ := FolderBuffer.files_eq_some_iff.1 hread
      exact FolderBuffer.isOpen_iff.2 ⟨folder, hroot⟩
    have hcurrent {source : String} : c.currentSource = .ok (some source) ↔
        c.buffer.Holds c.config.sourcePath source := FolderBuffer.textAt_eq_some_iff hopen
    simp only [hasUnreadEdit_iff, observe_eq_some_iff, hentry, hcurrent]
    constructor
    · rintro ⟨observed, source, hobserved, ⟨hplain, hholds⟩, hne⟩
      refine ⟨hplain, by rw [hobserved]; rfl, source, hholds, ?_⟩
      rw [hobserved]
      exact fun heq => hne (Option.some.inj heq).symm
    · rintro ⟨hplain, hseen, source, hholds, hne⟩
      obtain ⟨observed, hobserved⟩ := Option.isSome_iff_exists.1 hseen
      refine ⟨observed, source, hobserved, ⟨hplain, hholds⟩, ?_⟩
      rintro rfl
      exact hne hobserved

/-- A buffer with a source that somebody has edited. -/
def edited : FolderBuffer :=
  (Buffer.write FolderBuffer.bare ⟨Dict.empty.insert "App.jsx" "new", []⟩).1

theorem sound_edited : edited.tree.Sound := FolderBuffer.sound_write FolderBuffer.sound_bare _

theorem readAll_edited :
    Buffer.readAll edited = .ok (some (Dict.empty.insert "App.jsx" "new")) := by
  decide +kernel

/-- A coordinator that has seen another source than the one in the buffer. -/
def editedCoordinator (path : String) : Coordinator FolderBuffer :=
  { start edited { SyncConfig.default with sourcePath := path } ⟨"a", "Home", .none, []⟩ with
    lastObserved := some "old" }

theorem fileAt_eq_entry_edited :
    Buffer.fileAt edited "App.jsx" =
        (Buffer.readAll edited).map (fun files => files.bind (·.get? "App.jsx")) ∧
      (editedCoordinator "App.jsx").hasUnreadEdit (Dict.empty.insert "App.jsx" "new") = true := by
  have hplain : (Route.ofText "App.jsx").text = "App.jsx" := by decide +kernel
  have hholds : edited.Holds "App.jsx" "new" :=
    (FolderBuffer.textAt_eq_some_iff (by decide +kernel)).1 (by decide +kernel)
  have hescapes : (Route.ofText "App.jsx").escapes = false := by decide +kernel
  obtain ⟨hread, hedit⟩ := fileAt_eq_entry_iff sound_edited readAll_edited hescapes
  refine ⟨hread.2 (.inr (.inr ⟨hplain, "new", hholds⟩)), ?_⟩
  exact (hedit (editedCoordinator "App.jsx") rfl rfl _ rfl).2
    ⟨hplain, rfl, "new", by decide +kernel⟩

/-- The path `./App.jsx` leads to the source, but it is not the one under which it stands among all
files: a poll sees the edit and a push sees none. -/
theorem fileAt_ne_entry_edited :
    (edited.tree.Sound ∧ (Route.ofText "./App.jsx").escapes = false) ∧
      (Buffer.fileAt edited "./App.jsx" = .ok (some "new") ∧
        (Buffer.readAll edited).map (fun files => files.bind (·.get? "./App.jsx")) = .ok none) ∧
      (editedCoordinator "./App.jsx").observe.2 = .ok (some "new") ∧
        (editedCoordinator "./App.jsx").hasUnreadEdit (Dict.empty.insert "App.jsx" "new") = false := by
  refine ⟨⟨sound_edited, ?_⟩, ⟨?_, ?_⟩, ?_, ?_⟩
  all_goals decide +kernel

end Coordinator

end DesignSync

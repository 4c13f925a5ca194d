import DesignSync.FileTree.Access
import DesignSync.Proofs.Dict
import DesignSync.Proofs.Except
import DesignSync.Proofs.FileTree.Places

/-!
Where paths lead: along their names, from folder to folder, and no change but one to a folder on
the way makes a difference. A file that was written is found by the path that it was written to.
-/

namespace DesignSync.FileTree

variable {t t' : FileTree} {place other found : Place} {name : String} {names : List String}
  {r : Route} {e : Entry} {entry : Option Entry}

/-! ### Entries -/

theorem entry?_of_ne_top (h : place ≠ .top) : t.entry? place = t.entries.get? place := if_neg h

theorem ne_top_of_ne_folder (h : t.entry? place ≠ some .folder) : place ≠ .top := by
  rintro rfl
  exact h (if_pos rfl)

theorem entry?_put_self (h : place ≠ .top) (t : FileTree) (e : Entry) :
    entry? (t.put place e) place = some e := by
  rw [entry?_of_ne_top h]
  exact Dict.get?_insert_self t.entries place e

theorem entry?_put_of_ne (h : other ≠ place) (t : FileTree) (e : Entry) :
    entry? (t.put place e) other = t.entry? other := by
  unfold entry?
  rw [put, Dict.get?_insert_of_ne t.entries e h]

/-! ### Following names -/

theorem follow_cons_eq_ok_iff : t.follow place (name :: names) = .ok found ↔
    t.entry? place = some .folder ∧ ∃ inner, next place name = .ok inner ∧
      t.follow inner names = .ok found := by
  rw [follow]
  cases hentry : t.entry? place with
  | none => simp
  | some e =>
    cases e with
    | folder => cases next place name <;> simp [bind, Except.bind]
    | text => simp
    | binary => simp

theorem follow_append (t : FileTree) (place : Place) (names more : List String) :
    t.follow place (names ++ more) = t.follow place names >>= fun inner => t.follow inner more := by
  induction names generalizing place with
  | nil => rfl
  | cons name names ih =>
    rw [List.cons_append, follow, follow]
    split
    · cases next place name with
      | error => rfl
      | ok inner => exact ih inner
    · rfl
    · rfl

theorem next_of_ne_up (hup : name ≠ "..") (h : next place name = .ok found) :
    found = place.child name := by
  rw [next, if_neg hup] at h
  split at h
  · cases h
  · exact (Except.ok.inj h).symm

/-- Names that do not lead up lead along themselves, in whatever tree. -/
theorem eq_along_of_follow (hup : ∀ name ∈ names, name ≠ "..")
    (h : t.follow place names = .ok found) : found = place.along names := by
  induction names generalizing place with
  | nil => exact (Except.ok.inj h).symm
  | cons name names ih =>
    obtain ⟨-, inner, hnext, hfollow⟩ := follow_cons_eq_ok_iff.1 h
    have hinner := next_of_ne_up (hup name List.mem_cons_self) hnext
    rw [ih (fun n hn => hup n (List.mem_cons_of_mem _ hn)) hfollow, hinner]
    rfl

/-- Where there was no folder no way leads on. -/
theorem follow_put (hplace : t.entry? place ≠ some .folder) (e : Entry)
    (h : t.follow other names = .ok found) : (t.put place e).follow other names = .ok found := by
  induction names generalizing other with
  | nil => exact h
  | cons name names ih =>
    obtain ⟨hfolder, inner, hnext, hfollow⟩ := follow_cons_eq_ok_iff.1 h
    have hne : other ≠ place := by
      rintro rfl
      exact hplace hfolder
    refine follow_cons_eq_ok_iff.2 ⟨?_, inner, hnext, ih hfollow⟩
    rw [entry?_put_of_ne hne, hfolder]

/-! ### Locating -/

/-- What is at a path is what is where its names lead, unless a folder is meant and it is none. -/
theorem locate_eq_ok_iff : t.locate r = .ok (place, entry) ↔
    (accept r = .ok () ∧ t.follow (t.start r) r.names = .ok place) ∧ t.entry? place = entry ∧
      ∀ e ∈ entry, e = .folder ∨ r.ending = .name := by
  unfold locate
  cases haccept : accept r with
  | error => simp [bind, Except.bind]
  | ok =>
    cases hfollow : t.follow (t.start r) r.names with
    | error => simp [bind, Except.bind]
    | ok inner =>
      simp only [bind, Except.bind, pure, Except.pure, true_and, Except.ok.injEq]
      constructor
      · intro h
        split at h
        · next hentry =>
          cases h
          exact ⟨rfl, hentry, by simp⟩
        · next e _ hentry =>
          split at h
          · next hending =>
            cases h
            exact ⟨rfl, hentry, fun _ _ => .inr hending⟩
          · cases h
        · next hentry =>
          cases h
          exact ⟨rfl, hentry, by simp⟩
      · rintro ⟨rfl, hentry, hending⟩
        rw [hentry]
        split
        · rfl
        · next e hfolder =>
          rw [if_pos ((hending e rfl).resolve_left fun h => hfolder (h ▸ rfl))]
        · rfl

theorem locate_eq_folder_iff : t.locate r = .ok (place, some .folder) ↔
    (accept r = .ok () ∧ t.follow (t.start r) r.names = .ok place) ∧
      t.entry? place = some .folder := by
  rw [locate_eq_ok_iff]
  simp

/-- The paths that are accepted. -/
theorem accept_eq_ok_iff : accept r = .ok () ↔ r.isNothing = false ∧
    (∀ name ∈ r.names, '\x00' ∉ name.toList) ∧ r.size ≤ maxPathSize := by
  unfold accept
  split
  · next h => simp [h]
  next hnothing =>
  split
  · next hzero => simpa [hnothing] using fun h => absurd h (by simpa using hzero)
  next hzero =>
  split
  · next hsize => simp [Nat.not_le.2 hsize]
  · next hsize =>
    simp only [true_iff]
    exact ⟨Bool.eq_false_iff.2 hnothing, by simpa using hzero, Nat.not_lt.1 hsize⟩

theorem isFolder_iff : t.isFolder r = true ↔ ∃ place, t.locate r = .ok (place, some .folder) := by
  rw [isFolder]
  split
  · next place h => simp [h]
  · next h =>
    refine iff_of_false (by simp) ?_
    rintro ⟨place, hlocate⟩
    exact h place hlocate

theorem readText_eq_ok_iff {content : String} : t.readText r = .ok content ↔
    ∃ place, t.locate r = .ok (place, some (.text content)) := by
  unfold readText
  match t.locate r with
  | .error e => simp [bind, Except.bind]
  | .ok (place, none) => simp [bind, Except.bind]
  | .ok (place, some .folder) => simp [bind, Except.bind]
  | .ok (place, some (.text other)) => simp [bind, Except.bind]
  | .ok (place, some (.binary bytes)) => simp [bind, Except.bind]

theorem readText_eq_notFound_iff : t.readText r = .error .notFound ↔
    t.locate r = .error .notFound ∨ ∃ place, t.locate r = .ok (place, none) := by
  unfold readText
  match t.locate r with
  | .error e => simp [bind, Except.bind]
  | .ok (place, none) => simp [bind, Except.bind]
  | .ok (place, some .folder) => simp [bind, Except.bind]
  | .ok (place, some (.text other)) => simp [bind, Except.bind]
  | .ok (place, some (.binary bytes)) => simp [bind, Except.bind]

/-- From a folder that is found, a path behind it leads on. -/
theorem follow_under {front : String} (h : t.locate (.ofText front) = .ok (place, some .folder))
    (r : Route) :
    t.follow (t.start (r.under front)) (r.under front).names = t.follow place r.names := by
  obtain ⟨⟨-, hfollow⟩, -⟩ := locate_eq_folder_iff.1 h
  have hstart : t.start (r.under front) = t.start (.ofText front) := rfl
  rw [Route.names_under, follow_append, hstart, hfollow]
  rfl

/-! ### Writing -/

theorem writeFile_eq_ok (h : t.writeFile r e = .ok t') :
    ∃ place, (accept r = .ok () ∧ t.follow (t.start r) r.names = .ok place) ∧
      t.entry? place ≠ some .folder ∧ r.ending = .name ∧ t' = t.put place e := by
  unfold writeFile at h
  cases haccept : accept r with
  | error => simp [haccept, bind, Except.bind] at h
  | ok =>
    simp only [haccept, bind, Except.bind] at h
    split at h
    · cases hfolder : t.folderAround r <;> simp [hfolder] at h
    · cases hlocate : t.locate r with
      | error => simp [hlocate] at h
      | ok x =>
        obtain ⟨place, entry⟩ := x
        obtain ⟨hway, hentry, hending⟩ := locate_eq_ok_iff.1 hlocate
        simp only [hlocate, pure, Except.pure] at h
        refine ⟨place, ⟨rfl, hway.2⟩, ?_⟩
        split at h
        · cases h
        · next e' hfolder =>
          cases h
          rw [hentry]
          refine ⟨fun heq => hfolder (Option.some.inj heq), ?_, rfl⟩
          exact (hending e' rfl).resolve_left fun heq => hfolder heq
        · split at h
          · next hname =>
            cases h
            rw [hentry]
            exact ⟨by simp, hname, rfl⟩
          · cases h

/-- A file that was written is found where it was written. -/
theorem locate_of_writeFile (h : t.writeFile r e = .ok t') :
    ∃ place, t'.locate r = .ok (place, some e) := by
  obtain ⟨place, ⟨haccept, hfollow⟩, hentry, hending, rfl⟩ := writeFile_eq_ok h
  refine ⟨place, locate_eq_ok_iff.2 ⟨⟨haccept, follow_put hentry e hfollow⟩, ?_, ?_⟩⟩
  · exact entry?_put_self (ne_top_of_ne_folder hentry) t e
  · exact fun _ _ => .inr hending

/-- A folder on the way to a file that was written is still found. -/
theorem locate_folder_of_writeFile {front : String} (haccept : accept (.ofText front) = .ok ())
    (hnames : r.names ≠ []) (h : t.writeFile (r.under front) e = .ok t') :
    ∃ place, t'.locate (.ofText front) = .ok (place, some .folder) := by
  obtain ⟨place, ⟨-, hfollow⟩, hentry, -, rfl⟩ := writeFile_eq_ok h
  have hstart : t.start (r.under front) = t.start (.ofText front) := rfl
  rw [Route.names_under, follow_append, hstart] at hfollow
  obtain ⟨folder, hfront, hrest⟩ := bind_eq_ok_iff.1 hfollow
  obtain ⟨name, names, hcons⟩ := List.exists_cons_of_ne_nil hnames
  rw [hcons] at hrest
  have hfolder := (follow_cons_eq_ok_iff.1 hrest).1
  have hne : folder ≠ place := by
    rintro rfl
    exact hentry hfolder
  refine ⟨folder, locate_eq_folder_iff.2 ⟨⟨haccept, follow_put hentry e hfront⟩, ?_⟩⟩
  rw [entry?_put_of_ne hne, hfolder]

end DesignSync.FileTree

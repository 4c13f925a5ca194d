import DesignSync.Proofs.FileTree.Sound

/-!
What a change to a tree leaves alone. Creating folders adds folders and nothing else, a file is
written or removed where its path leads, and a sound tree stays sound.
-/

namespace DesignSync.FileTree

open Place Route

variable {t t' t'' : FileTree} {place other found : Place} {name : String} {names : List String}
  {r : Route} {e : Entry}

/-- One name further from a place. -/
def further (place : Place) (name : String) : Place :=
  if name = ".." then place.parent else place.child name

theorem eq_further_of_next (h : next place name = .ok found) : found = further place name := by
  unfold next at h
  unfold further
  split at h
  · next hup => rw [if_pos hup, Except.ok.inj h]
  · next hup =>
    split at h
    · cases h
    · rw [if_neg hup, Except.ok.inj h]

/-- Where the names of a path lead, whatever is on the way. -/
def aim (t : FileTree) (r : Route) : Place := r.names.foldl further (t.start r)

theorem eq_foldl_of_follow (h : t.follow place names = .ok found) :
    found = names.foldl further place := by
  induction names generalizing place with
  | nil => exact (Except.ok.inj h).symm
  | cons name names ih =>
    obtain ⟨-, inner, hnext, hfollow⟩ := follow_cons_eq_ok_iff.1 h
    rw [ih hfollow, eq_further_of_next hnext]
    rfl

/-! ### What is left alone -/

/-- At a place is what was there, or a folder where nothing was. -/
def KeptAt (place : Place) (t t' : FileTree) : Prop :=
  t'.entry? place = t.entry? place ∨ t.entry? place = none ∧ t'.entry? place = some .folder

theorem KeptAt.refl (place : Place) (t : FileTree) : KeptAt place t t := .inl rfl

theorem KeptAt.trans (h : KeptAt place t t') (h' : KeptAt place t' t'') : KeptAt place t t'' := by
  obtain h | ⟨hnone, hfolder⟩ := h
  · rwa [KeptAt, h] at h'
  · obtain h' | ⟨hnone', -⟩ := h'
    · exact .inr ⟨hnone, h'.trans hfolder⟩
    · rw [hnone'] at hfolder
      cases hfolder

theorem entry?_erase_of_ne (h : other ≠ place) (t : FileTree) :
    entry? (t.erase place) other = t.entry? other := by
  unfold entry?
  rw [erase, Dict.get?_erase, if_neg h]

theorem keptAt_put_folder (h : t.entry? place = none) (other : Place) :
    KeptAt other t (t.put place .folder) := by
  by_cases heq : other = place
  · subst heq
    have htop : other ≠ top := ne_top_of_ne_folder (by rw [h]; nofun)
    exact .inr ⟨h, entry?_put_self htop t .folder⟩
  · exact .inl (entry?_put_of_ne heq t .folder)

/-- Creating folders goes along the names of the path, and adds a folder where nothing is. -/
theorem createAlong_induction {P : FileTree → Place → Prop} (names : List String) (place : Place)
    (made dot : Bool) (hbase : P t place)
    (hfolder : ∀ t place name inner, P t place → next place name = .ok inner →
      t.entry? inner = some .folder → P t inner)
    (hnew : ∀ t place name inner, name ∈ names → P t place → next place name = .ok inner →
      t.entry? inner = none → P (t.put inner .folder) inner) :
    ∃ last, P (t.createAlong place made dot names).1 last := by
  induction names generalizing t place made with
  | nil => exact ⟨place, hbase⟩
  | cons name names ih =>
    have hrest (t : FileTree) (inner : Place) (made : Bool) (h : P t inner) :=
      ih inner made h fun t p n i hn => hnew t p n i (List.mem_cons_of_mem _ hn)
    rw [createAlong]
    cases hnext : next place name with
    | error => exact ⟨place, hbase⟩
    | ok inner =>
      simp only
      split
      · next hentry => exact hrest t inner made (hfolder t place name inner hbase hnext hentry)
      · exact ⟨place, hbase⟩
      · next hentry =>
        split
        · exact ⟨place, hbase⟩
        · exact hrest _ inner true
            (hnew t place name inner List.mem_cons_self hbase hnext hentry)

theorem keptAt_createFolders (t : FileTree) (r : Route) (other : Place) :
    KeptAt other t (t.createFolders r).1 ∧ (t.createFolders r).1.home = t.home := by
  unfold createFolders
  split
  · exact ⟨.refl other t, rfl⟩
  split
  · exact ⟨.refl other t, rfl⟩
  · obtain ⟨-, h⟩ := createAlong_induction
      (P := fun u _ => KeptAt other t u ∧ u.home = t.home) r.names (t.start r) false
      (r.ending = .dot) ⟨.refl other t, rfl⟩ (fun _ _ _ _ h _ _ => h)
      (fun u _ _ inner _ h _ hnone => ⟨h.1.trans (keptAt_put_folder hnone other), h.2⟩)
    exact h

theorem eq_aim_of_follow (h : t.follow (t.start r) r.names = .ok place) : place = t.aim r :=
  eq_foldl_of_follow h

theorem keptAt_writeFile (h : t.writeFile r e = .ok t') (hother : other ≠ t.aim r) :
    KeptAt other t t' := by
  obtain ⟨place, ⟨-, hfollow⟩, -, -, rfl⟩ := writeFile_eq_ok h
  rw [← eq_aim_of_follow hfollow] at hother
  exact .inl (entry?_put_of_ne hother t e)

theorem home_writeFile (h : t.writeFile r e = .ok t') : t'.home = t.home := by
  obtain ⟨place, -, -, -, rfl⟩ := writeFile_eq_ok h
  rfl

theorem remove_eq_ok (h : t.remove r = .ok t') :
    t.follow (t.start r) r.names = .ok (t.aim r) ∧ t.entry? (t.aim r) ≠ some .folder ∧
      t' = t.erase (t.aim r) := by
  obtain ⟨⟨place, entry⟩, hlocate, h⟩ := bind_eq_ok_iff.1 h
  obtain ⟨⟨-, hfollow⟩, hentry, -⟩ := locate_eq_ok_iff.1 hlocate
  rw [← eq_aim_of_follow hfollow, hentry]
  simp only at h
  split at h
  · cases h
  · next e hfolder =>
    cases h
    exact ⟨hfollow, fun heq => hfolder (Option.some.inj heq), rfl⟩
  · cases h

theorem keptAt_remove (h : t.remove r = .ok t') (hother : other ≠ t.aim r) : KeptAt other t t' := by
  obtain ⟨-, -, rfl⟩ := remove_eq_ok h
  exact .inl (entry?_erase_of_ne hother t)

/-! ### Soundness -/

theorem Sound.start (h : Sound t) (r : Route) : t.entry? (t.start r) = some .folder := by
  rw [FileTree.start]
  split
  · rfl
  · exact h.home

theorem Sound.isFolder_parent (h : Sound t) (hentry : t.entry? place = some e) :
    t.entry? place.parent = some .folder := by
  by_cases htop : place = top
  · rw [htop]
    rfl
  · rw [entry?_of_ne_top htop] at hentry
    obtain ⟨folder, name, hname, rfl, hfolder⟩ := h.inFolder place e hentry
    rw [parent_child hname.isWhole, hfolder]

/-- One name further from a folder of a sound tree, where no folder is, a file can be. -/
theorem Sound.exists_child_of_next (h : Sound t) (hplace : t.entry? place = some .folder)
    (hname : isName name = true) (hwhole : IsWhole name) (hzero : '\x00' ∉ name.toList)
    (hnext : next place name = .ok found) (hfound : t.entry? found ≠ some .folder) :
    IsFileName name ∧ found = place.child name := by
  have hup : name ≠ ".." := by
    rintro rfl
    rw [next, if_pos rfl] at hnext
    obtain rfl := Except.ok.inj hnext
    exact hfound (h.isFolder_parent hplace)
  rw [next, if_neg hup] at hnext
  split at hnext
  · cases hnext
  · next hsize =>
    obtain rfl := Except.ok.inj hnext
    exact ⟨⟨hwhole, hname, hup, hzero, Nat.not_lt.1 hsize⟩, rfl⟩

theorem Sound.put (h : Sound t) (hname : IsFileName name) (hplace : t.entry? place = some .folder)
    (he : t.entry? (place.child name) ≠ some .folder) (e : Entry) :
    Sound (t.put (place.child name) e) := by
  have hfolder (folder : Place) (hfolder : t.entry? folder = some .folder) :
      entry? (t.put (place.child name) e) folder = some .folder := by
    rw [entry?_put_of_ne, hfolder]
    rintro rfl
    exact he hfolder
  refine ⟨fun other e' hother => ?_, hfolder t.home h.home⟩
  rw [FileTree.put, Dict.get?_insert] at hother
  split at hother
  · next heq => exact ⟨place, name, hname, heq, hfolder place hplace⟩
  · obtain ⟨folder, name', hname', heq, hin⟩ := h.inFolder other e' hother
    exact ⟨folder, name', hname', heq, hfolder folder hin⟩

theorem Sound.erase (h : Sound t) (hplace : t.entry? place ≠ some .folder) :
    Sound (t.erase place) := by
  have hfolder (folder : Place) (hfolder : t.entry? folder = some .folder) :
      entry? (t.erase place) folder = some .folder := by
    rw [entry?_erase_of_ne, hfolder]
    rintro rfl
    exact hplace hfolder
  refine ⟨fun other e hother => ?_, hfolder t.home h.home⟩
  rw [FileTree.erase, Dict.get?_erase] at hother
  split at hother
  · cases hother
  · obtain ⟨folder, name, hname, heq, hin⟩ := h.inFolder other e hother
    exact ⟨folder, name, hname, heq, hfolder folder hin⟩

theorem Sound.createFolders (h : Sound t) (hwhole : ∀ name ∈ r.names, IsWhole name) :
    Sound (t.createFolders r).1 := by
  unfold FileTree.createFolders
  split
  · exact h
  split
  · exact h
  · next haccept =>
    have hzero := (accept_eq_ok_iff.1 haccept).2.1
    obtain ⟨-, hsound, -⟩ := createAlong_induction
      (P := fun u place => Sound u ∧ u.entry? place = some .folder) r.names (t.start r) false
      (r.ending = .dot) ⟨h, h.start r⟩ (fun _ _ _ _ hu _ hinner => ⟨hu.1, hinner⟩) (by
        intro u place name inner hmem hu hnext hnone
        obtain ⟨hname, rfl⟩ := hu.1.exists_child_of_next hu.2 (List.mem_filter.1 hmem).2
          (hwhole name hmem) (hzero name hmem) hnext (by rw [hnone]; nofun)
        refine ⟨hu.1.put hname hu.2 (by rw [hnone]; nofun) .folder, ?_⟩
        exact entry?_put_self (child_ne_top hname.ne_empty place) u .folder)
    exact hsound

theorem Sound.writeFile (h : Sound t) (hwhole : ∀ name ∈ r.names, IsWhole name)
    (hwrite : t.writeFile r e = .ok t') : Sound t' := by
  obtain ⟨place, ⟨haccept, hfollow⟩, hplace, -, rfl⟩ := writeFile_eq_ok hwrite
  have hzero := (accept_eq_ok_iff.1 haccept).2.1
  rcases List.eq_nil_or_concat r.names with hnil | ⟨front, name, hnames⟩
  · rw [hnil] at hfollow
    obtain rfl := Except.ok.inj hfollow
    exact absurd (h.start r) hplace
  · rw [List.concat_eq_append] at hnames
    have hmem : name ∈ r.names := hnames ▸ List.mem_append_right _ List.mem_cons_self
    rw [hnames, follow_append] at hfollow
    obtain ⟨folder, -, hlast⟩ := bind_eq_ok_iff.1 hfollow
    obtain ⟨hfolder, inner, hnext, hinner⟩ := follow_cons_eq_ok_iff.1 hlast
    obtain rfl := Except.ok.inj hinner
    obtain ⟨hname, rfl⟩ := h.exists_child_of_next hfolder (List.mem_filter.1 hmem).2
      (hwhole name hmem) (hzero name hmem) hnext hplace
    exact h.put hname hfolder hplace e

theorem Sound.remove (h : Sound t) (hremove : t.remove r = .ok t') : Sound t' := by
  obtain ⟨-, hentry, rfl⟩ := remove_eq_ok hremove
  exact h.erase hentry

end DesignSync.FileTree

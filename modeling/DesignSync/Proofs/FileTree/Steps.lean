import DesignSync.FileTree.Route
import DesignSync.Proofs.Text.Split

/-!
The steps of a path and its text tell each other, and so do its names and the plain text that has
nothing else in it.
-/

namespace DesignSync.Route

open Text

/-- A step without a slash in it. Those of a path are such, and a name that stands alone is. -/
def IsWhole (step : String) : Prop := '/' ∉ step.toList

instance (step : String) : Decidable (IsWhole step) := inferInstanceAs (Decidable (¬ _))

theorem isWhole_of_mem_steps {path step : String} (h : step ∈ (ofText path).steps) :
    IsWhole step := by
  obtain ⟨piece, hpiece, rfl⟩ := List.mem_map.1 h
  intro hslash
  rw [String.toList_ofList] at hslash
  exact absurd (eq_false_of_mem_splitWhere hpiece _ hslash) (by decide)

theorem steps_ofText_ne_nil (path : String) : (ofText path).steps ≠ [] := by
  simp [ofText, splitWhere_ne_nil]

theorem steps_ofText_of_isWhole {step : String} (h : IsWhole step) :
    (ofText step).steps = [step] := by
  have hnone : ∀ c ∈ step.toList, (c == '/') = false := by
    intro c hc
    exact beq_eq_false_iff_ne.2 fun heq => h (heq ▸ hc)
  rw [ofText, splitWhere_of_none hnone, List.map_singleton, String.ofList_toList]

theorem steps_ofText_append (front path : String) :
    (ofText (front ++ "/" ++ path)).steps = (ofText front).steps ++ (ofText path).steps := by
  have htext : (front ++ "/" ++ path).toList = front.toList ++ '/' :: path.toList := by simp
  rw [ofText, htext, splitWhere_append (by rfl), List.map_append]
  rfl

theorem intercalate_steps (path : String) : "/".intercalate (ofText path).steps = path := by
  have hpieces (pieces : List (List Char)) :
      (pieces.map String.ofList).map String.toList = pieces := by
    simp [Function.comp_def]
  apply String.toList_injective
  rw [String.toList_intercalate, ofText, hpieces]
  exact intercalate_splitWhere '/' path.toList

/-- A path with names in it that does not start from the top has its names as its plain text. -/
theorem text_of_names_ne_nil {r : Route} (habsolute : r.absolute = false) (hne : r.names ≠ []) :
    r.text = "/".intercalate r.names := by
  simp [text, habsolute, hne]

theorem ne_empty_of_mem_names {r : Route} {name : String} (h : name ∈ r.names) : name ≠ "" := by
  have hname := (List.mem_filter.1 h).2
  simp only [isName, Bool.and_eq_true, bne_iff_ne] at hname
  exact hname.1

theorem escapes_eq_false_iff {r : Route} :
    r.escapes = false ↔ r.absolute = false ∧ ∀ name ∈ r.names, name ≠ ".." := by
  have hnames : (".." ∉ r.names) ↔ ∀ name ∈ r.names, name ≠ ".." :=
    ⟨fun h name hname heq => h (heq ▸ hname), fun h hup => h _ hup rfl⟩
  simp [escapes, ← hnames]

/-- A path that ends with a name is one whose last step is. -/
theorem ending_eq_name_iff {r : Route} :
    r.ending = .name ↔ ∀ step ∈ r.steps.getLast?, isName step = true := by
  rw [ending, ← List.head?_reverse]
  split
  · next heq => split <;> simp [heq, isName]
  · next heq => simp [heq, isName]
  · next hempty hdot =>
    refine iff_of_true rfl fun step hstep => ?_
    obtain ⟨steps, hsteps⟩ := List.head?_eq_some_iff.1 hstep
    simp only [isName, Bool.and_eq_true, bne_iff_ne]
    exact ⟨fun heq => hempty steps (heq ▸ hsteps), fun heq => hdot steps (heq ▸ hsteps)⟩

theorem ending_under (front : String) {r : Route} (h : r.steps ≠ []) :
    (r.under front).ending = .name ↔ ∀ step ∈ r.steps.getLast?, isName step = true := by
  rw [ending_eq_name_iff, under, List.getLast?_append, List.getLast?_eq_some_getLast h,
    Option.some_or]

theorem names_of_isNothing {r : Route} (h : r.isNothing = true) : r.names = [] := by
  have hsteps (steps : List String) (n : Nat)
      (hsize : steps.foldr (fun step n => step.utf8ByteSize + n) n = 0) :
      ∀ step ∈ steps, step = "" := by
    induction steps with
    | nil => simp
    | cons step steps ih =>
      rw [List.foldr_cons, Nat.add_eq_zero_iff, String.utf8ByteSize_eq_zero_iff] at hsize
      intro s hs
      rcases List.mem_cons.1 hs with rfl | hs
      · exact hsize.1
      · exact ih hsize.2 s hs
  simp only [isNothing, size, Bool.and_eq_true, beq_iff_eq] at h
  refine List.filter_eq_nil_iff.2 fun step hstep => ?_
  simp [isName, hsteps _ _ h.2 step hstep]

theorem names_under (front : String) (r : Route) :
    (r.under front).names = (ofText front).names ++ r.names := by
  have hfront : (if (ofText front).steps.getLast? = some "" then (ofText front).steps.dropLast
      else (ofText front).steps).filter isName = (ofText front).names := by
    split
    · next hlast =>
      obtain ⟨steps, hsteps⟩ := List.getLast?_eq_some_iff.1 hlast
      rw [names, hsteps, List.dropLast_concat, List.filter_append]
      simp [isName]
    · rfl
  rw [names, under, List.filter_append, hfront]
  rfl

theorem isWhole_of_mem_names_under {front path name : String}
    (h : name ∈ ((ofText path).under front).names) : IsWhole name := by
  rw [names_under] at h
  obtain h | h := List.mem_append.1 h
  · exact isWhole_of_mem_steps (List.mem_filter.1 h).1
  · exact isWhole_of_mem_steps (List.mem_filter.1 h).1

/-- The folder around has no other names than the path. -/
theorem mem_names_of_parent {r : Route} {name : String} (h : name ∈ r.parent.names) :
    name ∈ r.names := by
  have hsublist (steps : List String) : (upToName steps).Sublist steps := by
    have hdrop := List.dropWhile_sublist (fun step => !isName step) (l := steps.reverse)
    simpa [upToName] using hdrop.reverse
  obtain ⟨hstep, hname⟩ := List.mem_filter.1 h
  refine List.mem_filter.2 ⟨?_, hname⟩
  exact (hsublist _).subset ((List.dropLast_sublist _).subset ((hsublist _).subset hstep))

end DesignSync.Route

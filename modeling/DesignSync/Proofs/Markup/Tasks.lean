import DesignSync.Markup.Writer

/-!
Writing a tree off a list of tasks. Opening an element puts its children and its closing tag in
front of what was still to be written. This is the same text as from one call for each element,
and an induction over it has no second kind of call.
-/

namespace DesignSync.Markup

namespace Written

theorem append_assoc (a b c : Written) : a ++ b ++ c = a ++ (b ++ c) := by
  change mk _ _ _ = mk _ _ _
  congr 1
  · exact String.append_assoc
  · exact List.append_assoc _ _ _
  · exact List.append_assoc _ _ _

@[simp] theorem nothing_append (a : Written) : nothing ++ a = a := by
  change mk _ _ _ = a
  cases a
  simp [nothing]

@[simp] theorem append_nothing (a : Written) : a ++ nothing = a := by
  change mk _ _ _ = a
  cases a
  simp [nothing]

end Written

/-- What is still to be written: an element with all below it, or a closing tag. -/
inductive Task where
  | element (id : String) (depth : Nat)
  | closing (tag : String) (depth : Nat)

/-- What follows the opening part of an element. -/
def innerTasks (ctx : BindingContext) (depth : Nat) (e : Element) : List Task :=
  if (writeOpening ctx depth e).2 then
    e.children.map (Task.element · (depth + 1)) ++ [.closing e.tag depth]
  else []

/-- Writes what is still to be written. An element that does not exist, or that has been written
    before, is only reported. -/
def writeTasks (ctx : BindingContext) (es : List Element) (seen : List String)
    (tasks : List Task) : Written :=
  match tasks with
  | [] => .nothing
  | .closing tag depth :: tasks =>
    .ofText (line depth ("</" ++ tag ++ ">")) ++ writeTasks ctx es seen tasks
  | .element id depth :: tasks =>
    match _hfind : Element.find? es id with
    | none => .finding (.missingElement id) none ++ writeTasks ctx es seen tasks
    | some e =>
      if _hseen : seen.contains id then
        .finding (.cycle id) (some id) ++ writeTasks ctx es seen tasks
      else
        (writeOpening ctx depth e).1
          ++ writeTasks ctx es (id :: seen) (innerTasks ctx depth e ++ tasks)
termination_by (Element.unseen es seen, tasks.length)
decreasing_by
  · exact Prod.Lex.right _ (Nat.lt_succ_self _)
  · exact Prod.Lex.right _ (Nat.lt_succ_self _)
  · exact Prod.Lex.right _ (Nat.lt_succ_self _)
  · exact Prod.Lex.left _ _ (Element.unseen_cons_lt _hfind (by simpa using _hseen))

variable {ctx : BindingContext} {es : List Element} {seen : List String} {id : String}

theorem writeTasks_missing (hnone : Element.find? es id = none) (depth : Nat) (tasks : List Task) :
    writeTasks ctx es seen (.element id depth :: tasks) =
      .finding (.missingElement id) none ++ writeTasks ctx es seen tasks := by
  rw [writeTasks]
  split
  · rfl
  · next e he => rw [hnone] at he; cases he

theorem writeTasks_again {e : Element} (hfind : Element.find? es id = some e) (hmem : id ∈ seen)
    (depth : Nat) (tasks : List Task) :
    writeTasks ctx es seen (.element id depth :: tasks) =
      .finding (.cycle id) (some id) ++ writeTasks ctx es seen tasks := by
  rw [writeTasks]
  split
  · next hnone => rw [hfind] at hnone; cases hnone
  · rw [dif_pos (by simpa using hmem)]

theorem writeTasks_element {e : Element} (hfind : Element.find? es id = some e) (hnew : id ∉ seen)
    (depth : Nat) (tasks : List Task) :
    writeTasks ctx es seen (.element id depth :: tasks) =
      (writeOpening ctx depth e).1
        ++ writeTasks ctx es (id :: seen) (innerTasks ctx depth e ++ tasks) := by
  have hfalse : ¬ seen.contains id = true := by simpa using hnew
  rw [writeTasks]
  split
  · next hnone => rw [hfind] at hnone; cases hnone
  · next e' he' =>
    rw [hfind] at he'
    cases he'
    rw [dif_neg hfalse]

/-! ### One call for each element -/

/-- Whether tasks in front of others come out as a text that was written by itself. -/
def Opens (ctx : BindingContext) (es : List Element) (seen : List String) (front : List Task)
    (w : Written × SeenSince es seen) : Prop :=
  ∀ tasks, writeTasks ctx es seen (front ++ tasks) = w.1 ++ writeTasks ctx es w.2 tasks

/-- Elements, and lists of elements, come out the same off their tasks. -/
theorem opens_writeElements (ctx : BindingContext) (es : List Element) :
    (∀ seen id depth,
      Opens ctx es seen [.element id depth] (writeElement ctx es seen id depth)) ∧
    (∀ seen ids depth,
      Opens ctx es seen (ids.map (Task.element · depth)) (writeElements ctx es seen ids depth)) := by
  apply writeElement.mutual_induct_unfolding ctx es
    (fun seen id depth w => Opens ctx es seen [.element id depth] w)
    (fun seen ids depth w => Opens ctx es seen (ids.map (Task.element · depth)) w)
  case case1 => -- an element that does not exist
    intro seen id depth hnone tasks
    exact writeTasks_missing hnone depth tasks
  case case2 => -- one that was written before
    intro seen id depth e hfind hseen tasks
    exact writeTasks_again hfind (by simpa using hseen) depth tasks
  case case3 => -- one with a closing tag
    intro seen id depth e hfind hseen _ opening inner seen' hinner hopening ih tasks
    have hchildren := ih (.closing e.tag depth :: tasks)
    rw [hinner, writeTasks] at hchildren
    rw [List.singleton_append, writeTasks_element hfind (by simpa using hseen), innerTasks, hopening]
    simp only [if_true, List.append_assoc, List.singleton_append, hchildren, Written.append_assoc]
  case case4 => -- one that closes itself
    intro seen id depth e hfind hseen _ opening isOpen hopening hclosed tasks
    rw [List.singleton_append, writeTasks_element hfind (by simpa using hseen), innerTasks, hopening,
      if_neg hclosed, List.nil_append]
  case case5 => -- no elements
    intro seen depth tasks
    simp
  case case6 => -- one element in front of others
    intro seen depth id ids first seen₁ hfirst others seen₂ hothers ih₁ ih₂ tasks
    have hone := ih₁ (ids.map (Task.element · depth) ++ tasks)
    rw [hfirst] at hone
    rw [hothers] at ih₂
    rw [List.map_cons, List.cons_append, ← List.singleton_append, hone, ih₂ tasks,
      Written.append_assoc]

/-- One call for an element writes its task. -/
theorem writeElement_eq (ctx : BindingContext) (es : List Element) (seen : List String)
    (id : String) (depth : Nat) :
    (writeElement ctx es seen id depth).1 = writeTasks ctx es seen [.element id depth] := by
  have hopens := (opens_writeElements ctx es).1 seen id depth []
  rwa [List.append_nil, writeTasks, Written.append_nothing, eq_comm] at hopens

theorem write_eq (ctx : BindingContext) (es : List Element) (root : String) :
    write ctx es root = writeTasks ctx es [] [.element root 0] :=
  writeElement_eq ctx es [] root 0

end DesignSync.Markup

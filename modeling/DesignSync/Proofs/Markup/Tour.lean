import DesignSync.Proofs.Document.Reaching
import DesignSync.Proofs.Document.Traces
import DesignSync.Proofs.Markup.Silent
import Mathlib.Data.List.Flatten
import Mathlib.Data.List.Perm.Subperm

/-!
The way of a writer through a graph of elements. Wherever an element refers to a child, the writer
either opens the child there, or reports once that it is missing or was written before. What it opens
is what a walk over the same graph meets, in the same order, if no element with a void tag has
children. Both end on every graph, since each new element leaves fewer unseen.
-/

namespace DesignSync

namespace Markup

/-! ### Visits -/

/-- A place at which an element is referred to: as the root, or among the children of another. -/
structure Reference where
  parent : Option String
  place : Nat
  child : String
deriving DecidableEq, Repr

/-- The references to children that a writer follows. From a void tag it follows none. -/
def references (e : Element) : List Reference :=
  (writtenChildren e).zipIdx.map fun x => ⟨some e.id, x.2, x.1⟩

/-- What a writer does on its way. -/
inductive Visit where
  | opened (r : Reference) (e : Element) (depth : Nat)
  | missing (r : Reference)
  | again (r : Reference)
  | closed (tag : String) (depth : Nat)

namespace Visit

def written (ctx : BindingContext) : Visit → Written
  | opened _ e depth => (writeOpening ctx depth e).1
  | missing r => .finding (.missingElement r.child) none
  | again r => .finding (.cycle r.child) (some r.child)
  | closed tag depth => .ofText (line depth ("</" ++ tag ++ ">"))

def reference? : Visit → Option Reference
  | opened r _ _ => some r
  | missing r => some r
  | again r => some r
  | closed _ _ => none

def element? : Visit → Option Element
  | opened _ e _ => some e
  | _ => none

/-- Whether a visit is one that can be made where elements are found in some way. -/
def Fits (find : String → Option Element) : Visit → Prop
  | opened r e _ => find r.child = some e
  | missing r => find r.child = none
  | again r => (find r.child).isSome = true
  | closed _ _ => True

/-- What is reported about the reference. -/
def reports : Visit → List Diagnostic
  | missing r => [(Finding.missingElement r.child).diagnostic none none]
  | again r => [(Finding.cycle r.child).diagnostic none (some r.child)]
  | _ => []

end Visit

/-- What is still to be visited: an element that is referred to, or the end of one that was opened. -/
inductive Stop where
  | element (r : Reference) (depth : Nat)
  | closing (tag : String) (depth : Nat)

namespace Stop

def task : Stop → Task
  | element r depth => .element r.child depth
  | closing tag depth => .closing tag depth

def reference? : Stop → Option Reference
  | element r _ => some r
  | closing _ _ => none

end Stop

/-- What follows the opening part of an element. -/
def innerStops (depth : Nat) (e : Element) : List Stop :=
  if isVoidTag e.tag || isBare e then []
  else (references e).map (.element · (depth + 1)) ++ [.closing e.tag depth]

/-- The visits of a writer, in order. -/
def tour (es : List Element) (seen : List String) (stops : List Stop) : List Visit :=
  match stops with
  | [] => []
  | .closing tag depth :: stops => .closed tag depth :: tour es seen stops
  | .element r depth :: stops =>
    match _hfind : Element.find? es r.child with
    | none => .missing r :: tour es seen stops
    | some e =>
      if _hseen : seen.contains r.child then .again r :: tour es seen stops
      else .opened r e depth :: tour es (r.child :: seen) (innerStops depth e ++ stops)
termination_by (Element.unseen es seen, stops.length)
decreasing_by
  · exact Prod.Lex.right _ (Nat.lt_succ_self _)
  · exact Prod.Lex.right _ (Nat.lt_succ_self _)
  · exact Prod.Lex.right _ (Nat.lt_succ_self _)
  · exact Prod.Lex.left _ _ (Element.unseen_cons_lt _hfind (by simpa using _hseen))

/-- The visits of a writer that starts at a root. -/
def tourFrom (es : List Element) (root : String) : List Visit :=
  tour es [] [.element ⟨none, 0, root⟩ 0]

variable {es : List Element} {seen : List String} {r : Reference} {e : Element}

theorem tour_missing (hnone : Element.find? es r.child = none) (depth : Nat) (stops : List Stop) :
    tour es seen (.element r depth :: stops) = .missing r :: tour es seen stops := by
  rw [tour]
  split
  · rfl
  · next e he => rw [hnone] at he; cases he

theorem tour_again (hfind : Element.find? es r.child = some e) (hmem : r.child ∈ seen) (depth : Nat)
    (stops : List Stop) :
    tour es seen (.element r depth :: stops) = .again r :: tour es seen stops := by
  rw [tour]
  split
  · next hnone => rw [hfind] at hnone; cases hnone
  · rw [dif_pos (by simpa using hmem)]

theorem tour_opened (hfind : Element.find? es r.child = some e) (hnew : r.child ∉ seen)
    (depth : Nat) (stops : List Stop) :
    tour es seen (.element r depth :: stops) =
      .opened r e depth :: tour es (r.child :: seen) (innerStops depth e ++ stops) := by
  rw [tour]
  split
  · next hnone => rw [hfind] at hnone; cases hnone
  · next e' he' =>
    obtain rfl : e = e' := Option.some.inj (hfind.symm.trans he')
    rw [dif_neg (by simpa using hnew)]

/-! ### References -/

theorem map_child_references (e : Element) :
    (references e).map (·.child) = writtenChildren e := by
  rw [references, List.map_map]
  exact List.zipIdx_map_fst 0 _

theorem reference?_innerStops (depth : Nat) (e : Element) :
    (innerStops depth e).filterMap Stop.reference? = references e := by
  have hclosed : isVoidTag e.tag || isBare e → references e = [] := by
    intro h
    have hnone : writtenChildren e = [] := by
      rcases Bool.or_eq_true_iff.1 h with hvoid | hbare
      · exact if_pos hvoid
      · have hchildren : e.children = [] := by
          simp only [isBare, Bool.and_eq_true, List.isEmpty_iff] at hbare
          exact hbare.2
        simp [writtenChildren, hchildren]
    simp [references, hnone]
  unfold innerStops
  split
  · next h => rw [hclosed h]; rfl
  · rw [List.filterMap_append, List.filterMap_map]
    change (references e).filterMap some ++ [] = _
    rw [List.filterMap_some, List.append_nil]

theorem nodup_references (e : Element) : (references e).Nodup := by
  apply List.Nodup.of_map (·.place)
  rw [references, List.map_map]
  change ((writtenChildren e).zipIdx.map Prod.snd).Nodup
  rw [List.zipIdx_map_snd]
  exact List.nodup_range'

theorem parent_of_mem_references (h : r ∈ references e) : r.parent = some e.id := by
  obtain ⟨x, -, rfl⟩ := List.mem_map.1 h
  rfl

theorem nodup_flatMap_references {opened : List Element} (h : (opened.map (·.id)).Nodup) :
    (opened.flatMap references).Nodup := by
  rw [List.nodup_flatMap]
  refine ⟨fun e _ => nodup_references e, (List.pairwise_map.1 h).imp ?_⟩
  intro e f hne r he hf
  apply hne
  exact Option.some.inj ((parent_of_mem_references he).symm.trans (parent_of_mem_references hf))

theorem mem_references_of_place {place : Nat} (hopen : isVoidTag e.tag = false)
    (hplace : place < e.children.length) : ⟨some e.id, place, e.children[place]⟩ ∈ references e := by
  have hwritten : writtenChildren e = e.children := by simp [writtenChildren, hopen]
  refine List.mem_map.2 ⟨(e.children[place], place), ?_, rfl⟩
  rw [hwritten, List.mem_zipIdx_iff_getElem?]
  exact List.getElem?_eq_getElem hplace

/-! ### The way and what is written on it -/

theorem task_innerStops (ctx : BindingContext) (depth : Nat) (e : Element) :
    (innerStops depth e).map Stop.task = innerTasks ctx depth e := by
  have hopen : (writeOpening ctx depth e).2 = !(isVoidTag e.tag || isBare e) := by
    unfold writeOpening
    cases isVoidTag e.tag <;> cases isBare e <;> rfl
  unfold innerStops innerTasks
  rw [hopen]
  cases hclosed : isVoidTag e.tag || isBare e with
  | true => rfl
  | false =>
    have hwritten : writtenChildren e = e.children := by
      simp only [Bool.or_eq_false_iff] at hclosed
      simp [writtenChildren, hclosed.1]
    have hchildren : (references e).map (fun r => Task.element r.child (depth + 1)) =
        e.children.map (Task.element · (depth + 1)) := by
      rw [← hwritten, ← map_child_references, List.map_map]
      rfl
    rw [← hchildren]
    simp [Stop.task, Function.comp_def]

/-- A text is what is written at each visit. -/
theorem writeTasks_eq_tour (ctx : BindingContext) (seen : List String) (stops : List Stop) :
    writeTasks ctx es seen (stops.map Stop.task) =
      .concat ((tour es seen stops).map (Visit.written ctx)) := by
  induction seen, stops using tour.induct es with
  | case1 seen =>
    rw [tour, List.map_nil, writeTasks]
    rfl
  | case2 seen tag depth stops ih =>
    rw [tour, List.map_cons, Stop.task, writeTasks, ih]
    rfl
  | case3 seen r depth stops hnone ih =>
    rw [tour_missing hnone, List.map_cons, Stop.task, writeTasks_missing hnone, ih]
    rfl
  | case4 seen r depth stops e hfind hseen ih =>
    have hmem : r.child ∈ seen := by simpa using hseen
    rw [tour_again hfind hmem, List.map_cons, Stop.task, writeTasks_again hfind hmem, ih]
    rfl
  | case5 seen r depth stops e hfind hseen ih =>
    have hnew : r.child ∉ seen := by simpa using hseen
    rw [tour_opened hfind hnew, List.map_cons, Stop.task, writeTasks_element hfind hnew,
      ← task_innerStops, ← List.map_append, ih]
    rfl

/-- The elements that are opened are those that a walk meets, if none of these keeps its children
from being written. -/
theorem map_id_opened_tour (seen : List String) (stops : List Stop)
    (hwritten : ∀ id ∈ Element.walk es seen ((stops.filterMap Stop.reference?).map (·.child)),
      ∀ e, Element.find? es id = some e → writtenChildren e = e.children) :
    ((tour es seen stops).filterMap Visit.element?).map (·.id) =
      Element.walk es seen ((stops.filterMap Stop.reference?).map (·.child)) := by
  induction seen, stops using tour.induct es with
  | case1 seen => simp [tour, Element.walk]
  | case2 seen tag depth stops ih =>
    rw [tour]
    exact ih hwritten
  | case3 seen r depth stops hnone ih =>
    have hskip := Element.walk_missing hnone seen ((stops.filterMap Stop.reference?).map (·.child))
    rw [tour_missing hnone]
    exact (ih (hskip ▸ hwritten)).trans hskip.symm
  | case4 seen r depth stops e hfind hseen ih =>
    have hmem : r.child ∈ seen := by simpa using hseen
    have hskip : Element.walk es seen (r.child :: _) = _ :=
      Element.walk_again hmem ((stops.filterMap Stop.reference?).map (·.child))
    rw [tour_again hfind hmem]
    exact (ih (hskip ▸ hwritten)).trans hskip.symm
  | case5 seen r depth stops e hfind hseen ih =>
    have hnew : r.child ∉ seen := by simpa using hseen
    have hmeet := Element.walk_cons hfind hnew ((stops.filterMap Stop.reference?).map (·.child))
    have hchildren : writtenChildren e = e.children := by
      refine hwritten r.child ?_ e hfind
      exact hmeet ▸ List.mem_cons_self
    have hstack : ((innerStops depth e ++ stops).filterMap Stop.reference?).map (·.child) =
        e.children ++ (stops.filterMap Stop.reference?).map (·.child) := by
      rw [List.filterMap_append, reference?_innerStops, List.map_append, map_child_references,
        hchildren]
    rw [hstack] at ih
    have hrest := ih fun id hid => hwritten id (hmeet ▸ List.mem_cons_of_mem _ hid)
    rw [tour_opened hfind hnew]
    change e.id :: ((tour es (r.child :: seen) (innerStops depth e ++ stops)).filterMap
      Visit.element?).map (·.id) = _
    rw [hrest, Element.id_of_find? hfind]
    exact hmeet.symm

/-- No element is opened twice, and none that was seen before. -/
theorem nodup_opened_tour (es : List Element) (seen : List String) (stops : List Stop) :
    (((tour es seen stops).filterMap Visit.element?).map (·.id)).Nodup ∧
      ∀ e ∈ (tour es seen stops).filterMap Visit.element?, e.id ∉ seen := by
  induction seen, stops using tour.induct es with
  | case1 seen => simp [tour]
  | case2 seen tag depth stops ih =>
    rw [tour]
    exact ih
  | case3 seen r depth stops hnone ih =>
    rw [tour_missing hnone]
    exact ih
  | case4 seen r depth stops e hfind hseen ih =>
    rw [tour_again hfind (by simpa using hseen)]
    exact ih
  | case5 seen r depth stops e hfind hseen ih =>
    have hnew : r.child ∉ seen := by simpa using hseen
    have hid := Element.id_of_find? hfind
    obtain ⟨hnodup, hunseen⟩ := ih
    rw [tour_opened hfind hnew]
    constructor
    · refine List.nodup_cons.2 ⟨?_, hnodup⟩
      intro hmem
      obtain ⟨f, hf, heq⟩ := List.mem_map.1 hmem
      exact hunseen f hf (List.mem_cons.2 (.inl (heq.trans hid)))
    · intro f hf
      rcases List.mem_cons.1 hf with rfl | hf
      · rwa [hid]
      · exact fun hmem => hunseen f hf (List.mem_cons_of_mem _ hmem)

theorem fits_of_mem_tour (seen : List String) (stops : List Stop) :
    ∀ v ∈ tour es seen stops, v.Fits (Element.find? es) := by
  induction seen, stops using tour.induct es with
  | case1 seen => simp [tour]
  | case2 seen tag depth stops ih =>
    rw [tour]
    exact List.forall_mem_cons.2 ⟨trivial, ih⟩
  | case3 seen r depth stops hnone ih =>
    rw [tour_missing hnone]
    exact List.forall_mem_cons.2 ⟨hnone, ih⟩
  | case4 seen r depth stops e hfind hseen ih =>
    rw [tour_again hfind (by simpa using hseen)]
    exact List.forall_mem_cons.2 ⟨Option.isSome_of_eq_some hfind, ih⟩
  | case5 seen r depth stops e hfind hseen ih =>
    rw [tour_opened hfind (by simpa using hseen)]
    exact List.forall_mem_cons.2 ⟨hfind, ih⟩

/-- Visits are made to what is still to be visited and to the children of what is opened: to each of
these once. -/
theorem references_tour (es : List Element) (seen : List String) (stops : List Stop) :
    ((tour es seen stops).filterMap Visit.reference?).Perm
      (stops.filterMap Stop.reference? ++
        ((tour es seen stops).filterMap Visit.element?).flatMap references) := by
  induction seen, stops using tour.induct es with
  | case1 seen => simp [tour]
  | case2 seen tag depth stops ih =>
    rw [tour]
    exact ih
  | case3 seen r depth stops hnone ih =>
    rw [tour_missing hnone]
    exact ih.cons r
  | case4 seen r depth stops e hfind hseen ih =>
    rw [tour_again hfind (by simpa using hseen)]
    exact ih.cons r
  | case5 seen r depth stops e hfind hseen ih =>
    rw [List.filterMap_append, reference?_innerStops] at ih
    rw [tour_opened hfind (by simpa using hseen)]
    -- the children of the new element go behind what was still to be visited
    apply (ih.cons r).trans
    apply List.Perm.cons
    change (references e ++ _ ++ _).Perm (_ ++ (references e ++ _))
    rw [← List.append_assoc]
    exact List.perm_append_comm.append_right _

theorem length_innerStops_le (depth : Nat) (e : Element) :
    (innerStops depth e).length ≤ e.children.length + 1 := by
  have hwritten : (writtenChildren e).length ≤ e.children.length := by
    unfold writtenChildren
    split
    · exact Nat.zero_le _
    · exact Nat.le_refl _
  unfold innerStops references
  split
  · exact Nat.zero_le _
  · simp only [List.length_append, List.length_map, List.length_zipIdx, List.length_singleton]
    omega

/-- There are no more visits than stops at first, and those that the elements add that are opened. -/
theorem length_tour_le (es : List Element) (seen : List String) (stops : List Stop) :
    (tour es seen stops).length ≤
      stops.length + ((tour es seen stops).filterMap Visit.element?).length +
        (((tour es seen stops).filterMap Visit.element?).flatMap Element.children).length := by
  induction seen, stops using tour.induct es with
  | case1 seen => simp [tour]
  | case2 seen tag depth stops ih =>
    rw [tour]
    simp only [List.filterMap_cons, Visit.element?, List.length_cons]
    omega
  | case3 seen r depth stops hnone ih =>
    rw [tour_missing hnone]
    simp only [List.filterMap_cons, Visit.element?, List.length_cons]
    omega
  | case4 seen r depth stops e hfind hseen ih =>
    rw [tour_again hfind (by simpa using hseen)]
    simp only [List.filterMap_cons, Visit.element?, List.length_cons]
    omega
  | case5 seen r depth stops e hfind hseen ih =>
    have hinner := length_innerStops_le depth e
    rw [tour_opened hfind (by simpa using hseen)]
    simp only [List.filterMap_cons, Visit.element?, List.length_cons, List.flatMap_cons,
      List.length_append] at ih ⊢
    omega

/-- From a root there is one visit to it, one to each child and one to the end of each element, at
most. -/
theorem length_tourFrom_le (es : List Element) (root : String) :
    (tourFrom es root).length ≤ 1 + es.length + (es.flatMap Element.children).length := by
  have hvisits := length_tour_le es [] [.element ⟨none, 0, root⟩ 0]
  have hopened : ((tourFrom es root).filterMap Visit.element?).Subperm es := by
    apply List.Nodup.subperm
    · exact (nodup_opened_tour es [] [.element ⟨none, 0, root⟩ 0]).1.of_map _
    · intro e he
      obtain ⟨v, hv, helement⟩ := List.mem_filterMap.1 he
      have hfits := fits_of_mem_tour [] [.element ⟨none, 0, root⟩ 0] v hv
      cases v with
      | opened r e' depth =>
        obtain rfl : e' = e := Option.some.inj helement
        exact Element.mem_of_find? hfits
      | _ => cases helement
  have hlength := hopened.length_le
  obtain ⟨opened, hperm, hsublist⟩ := hopened
  have hchildren := (hperm.flatMap_right Element.children).length_eq
  have hchildren' := (hsublist.flatMap Element.children).length_le
  unfold tourFrom at hlength hchildren ⊢
  simp only [List.length_singleton] at hvisits
  omega

/-! ### Reports -/

/-- Whether a report is that an element could not be written where it is referred to. -/
def Diagnostic.isOfReference (d : Diagnostic) : Bool :=
  d.rule == "missing-child" || d.rule == "cycle"

theorem Finding.isOfReference_diagnostic (f : Finding) (span : Option Text.Span)
    (element : Option String) : (f.diagnostic span element).isOfReference = f.isOfReference := by
  cases f <;> rfl

/-- What is written at a visit reports about the reference what the visit does, and nothing else. -/
theorem filter_diagnostics_written (ctx : BindingContext) (v : Visit) :
    (v.written ctx).diagnostics.filter Diagnostic.isOfReference = v.reports := by
  cases v with
  | opened r e depth =>
    change (writeOpening ctx depth e).1.diagnostics.filter _ = []
    rw [List.filter_eq_nil_iff]
    intro d hd
    obtain ⟨f, hf, rfl⟩ := reportedFor_writeOpening depth d hd
    rw [Finding.isOfReference_diagnostic, hf]
    exact Bool.false_ne_true
  | missing r => rfl
  | again r => rfl
  | closed tag depth => rfl

theorem filter_diagnostics_concat (ctx : BindingContext) (visits : List Visit) :
    (Written.concat (visits.map (Visit.written ctx))).diagnostics.filter Diagnostic.isOfReference =
      visits.flatMap Visit.reports := by
  rw [Written.diagnostics_concat, List.filter_flatMap, List.flatMap_map]
  exact congrArg (List.flatMap · visits) (funext (filter_diagnostics_written ctx))

/-- A reference that comes once among those of some visits is the one of a single visit. -/
theorem exists_filter_reference {visits : List Visit}
    (hnodup : (visits.filterMap Visit.reference?).Nodup)
    (hmem : r ∈ visits.filterMap Visit.reference?) :
    ∃ v, visits.filter (fun v => v.reference? == some r) = [v] ∧ v.reference? = some r := by
  have hlength : (visits.filter fun v => v.reference? == some r).length = 1 := by
    rw [← List.countP_eq_length_filter, ← List.count_filterMap]
    exact List.count_eq_one_of_mem hnodup hmem
  obtain ⟨v, hv⟩ := List.length_eq_one_iff.1 hlength
  have hmem : v ∈ visits.filter fun v => v.reference? == some r := hv ▸ List.mem_singleton_self v
  exact ⟨v, hv, by simpa using (List.mem_filter.1 hmem).2⟩

end Markup

namespace Store

open Markup

variable {s : Store} {ctx : BindingContext} {root : String}

/-- What the visits of a writer come to: the text with its reports, and each reference of an element
that was opened settled at one visit, which opens the child there or reports that it does not. Their
number is bounded by that of the elements and children that there are. -/
structure IsTour (s : Store) (ctx : BindingContext) (root : String) (visits : List Visit) : Prop where
  length_le : visits.length ≤ 1 + s.elements.length + (s.elements.flatMap Element.children).length
  written : write ctx s.elements root = .concat (visits.map (Visit.written ctx))
  reports : (write ctx s.elements root).diagnostics.filter Diagnostic.isOfReference =
    visits.flatMap Visit.reports
  fits : ∀ v ∈ visits, v.Fits s.element?
  once : ((visits.filterMap Visit.element?).map (·.id)).Nodup
  opened : (∀ id e, Element.Reaches s.element? root id → s.element? id = some e →
      isVoidTag e.tag = true → e.children = []) →
    (visits.filterMap Visit.element?).map (·.id) = s.subtree root
  settled : ∀ e ∈ visits.filterMap Visit.element?, isVoidTag e.tag = false →
    ∀ place (hplace : place < e.children.length),
      let r : Reference := ⟨some e.id, place, e.children[place]⟩
      ∃ v, visits.filter (fun v => v.reference? == some r) = [v] ∧
        ((∃ child depth, v = .opened r child depth) ∨ v = .missing r ∨ v = .again r)

theorem Sound.isTour (h : s.Sound) (ctx : BindingContext) (root : String) :
    IsTour s ctx root (tourFrom s.elements root) := by
  have hwritten : write ctx s.elements root =
      .concat ((tourFrom s.elements root).map (Visit.written ctx)) :=
    (write_eq ctx s.elements root).trans (writeTasks_eq_tour ctx [] [.element ⟨none, 0, root⟩ 0])
  have hfind : Element.find? s.elements = s.element? := funext h.find?_elements
  have honce := (nodup_opened_tour s.elements [] [.element ⟨none, 0, root⟩ 0]).1
  refine ⟨length_tourFrom_le _ _, hwritten, ?_, ?_, honce, ?_, ?_⟩
  · rw [hwritten]
    exact filter_diagnostics_concat ctx _
  · exact hfind ▸ fits_of_mem_tour [] [.element ⟨none, 0, root⟩ 0]
  · intro hvoid
    refine map_id_opened_tour [] [.element ⟨none, 0, root⟩ 0] ?_
    intro id hid e he
    have hreaches : Element.Reaches s.element? root id := hfind ▸ Element.mem_subtree_iff.1 hid
    rw [hfind] at he
    unfold writtenChildren
    split
    · next htag => exact (hvoid id e hreaches he htag).symm
    · rfl
  · intro e he hopen place hplace r
    have hperm := references_tour s.elements [] [.element ⟨none, 0, root⟩ 0]
    have hnodup : ((tourFrom s.elements root).filterMap Visit.reference?).Nodup := by
      rw [tourFrom, hperm.nodup_iff]
      refine List.nodup_cons.2 ⟨?_, nodup_flatMap_references honce⟩
      -- the root is referred to by no element
      intro hmem
      obtain ⟨e, -, hroot⟩ := List.mem_flatMap.1 hmem
      cases parent_of_mem_references hroot
    have hmem : r ∈ (tourFrom s.elements root).filterMap Visit.reference? := by
      apply hperm.mem_iff.2
      apply List.mem_append_right
      exact List.mem_flatMap.2 ⟨e, he, mem_references_of_place hopen hplace⟩
    obtain ⟨v, hv, hreference⟩ := exists_filter_reference hnodup hmem
    refine ⟨v, hv, ?_⟩
    cases v with
    | opened r' child depth =>
      obtain rfl : r' = r := Option.some.inj hreference
      exact .inl ⟨child, depth, rfl⟩
    | missing r' =>
      obtain rfl : r' = r := Option.some.inj hreference
      exact .inr (.inl rfl)
    | again r' =>
      obtain rfl : r' = r := Option.some.inj hreference
      exact .inr (.inr rfl)
    | closed tag depth => cases hreference

/-- On every graph the subtree of a root has no id twice and is what can be come to from the root
through elements that are there. Unless one of these has a void tag and children, its elements are
the ones that the writer opens, in order; and where the writer opens an element, each reference to a
child is either where the child is opened, or is reported once. -/
theorem subtree_isTour (h : s.Sound) (ctx : BindingContext) (root : String) :
    (s.subtree root).Nodup ∧
      (∀ id, id ∈ s.subtree root ↔ Element.Reaches s.element? root id) ∧
      IsTour s ctx root (tourFrom s.elements root) := by
  refine ⟨(Element.nodup_walk _ _ _).1, ?_, h.isTour ctx root⟩
  intro id
  rw [← funext h.find?_elements]
  exact Element.mem_subtree_iff

/-- A document in which children are shared, missing and lead back. -/
def tangle : Store :=
  let box (id : String) (children : List String) : Element :=
    ⟨id, "div", .element, none, ⟨.screen, "home"⟩,
      { Properties.empty with children := children }, none⟩
  (((Store.empty.addElement (box "a" ["b", "a", "gone", "c"])).1.addElement
    (box "b" ["c"])).1.addElement (box "c" ["a"])).1

theorem subtree_isTour_tangle :
    ((tourFrom tangle.elements "a").filterMap Visit.element?).map (·.id) = tangle.subtree "a" := by
  have hsound : tangle.Sound :=
    ((Store.empty_sound.addElement _).addElement _).addElement _
  apply (subtree_isTour hsound .empty "a").2.2.opened
  intro id e _ he htag
  -- no element of the document has a void tag
  have hmem : e ∈ tangle.elements := by
    rw [hsound.mem_elements_iff, hsound.named id e he]
    exact he
  have htags : ∀ e ∈ tangle.elements, isVoidTag e.tag = false := by decide +kernel
  rw [htags e hmem] at htag
  cases htag

end Store

end DesignSync

import DesignSync.Proofs.Document.Decoding
import DesignSync.Proofs.Document.Values
import DesignSync.Proofs.Json.Printed
import DesignSync.Proofs.Markup.Leaf
import DesignSync.Proofs.Sync.Repeated

/-!
Saved documents. What loading, operations on decoded values and pulls lead to can be loaded again
once it is saved, just when no style has a literal in the place of its bindings. Decoding puts none
there, but a source that is pulled can.
-/

namespace DesignSync

open Json

/-! ### Texts of documents -/

/-- Whether each number in a value is what its text is read as. -/
structure Json.NumbersReadBack (j : Json) : Prop where
  integers : ∀ n, integer n ∈ j.scalars → ReadsBack (integer n)
  floats : ∀ x, float x ∈ j.scalars → ReadsBack (float x)

def Json.isNumber : Json → Bool
  | integer _ | float _ => true
  | _ => false

/-- What is said of all numbers in a value is said of those among its scalars. -/
theorem Json.numbersReadBack_of_filter {j : Json}
    (h : ∀ x ∈ j.scalars.filter isNumber, ReadsBack x) : j.NumbersReadBack :=
  ⟨fun _ hn => h _ (List.mem_filter.2 ⟨hn, rfl⟩), fun _ hx => h _ (List.mem_filter.2 ⟨hx, rfl⟩)⟩

theorem Json.NumbersReadBack.readsBack {j : Json} (h : j.NumbersReadBack) (hfit : j.Fit) :
    ∀ l ∈ j.scalars, ReadsBack l := by
  intro l hl
  cases l with
  | integer n => exact h.integers n hl
  | float x => exact h.floats x hl
  | unfit => exact absurd hl hfit
  | _ => trivial

/-- The text of a document is read as its JSON form. -/
theorem Snapshot.ofText?_text {x : Snapshot} (h : x.IsCanonical)
    (hnumbers : x.toJson.NumbersReadBack) (hdepth : x.toJson.nesting ≤ maxDepth) :
    ofText? x.text = ofJson? x.toJson := by
  have hread : Json.read x.text = some x.toJson :=
    read_pretty (hnumbers.readsBack (Snapshot.fit_toJson h)) hdepth
  rw [ofText?, hread]
  rfl

namespace Store

/-! ### Reachable stores -/

/-- Whether the values that an operation takes were decoded. -/
def Operation.IsDecoded : Operation → Prop
  | addComponent c => ∃ j, Component.ofJson? j = some c
  | setPropValues _ _ values => ∀ v ∈ values, ∃ j, PropValue.ofJson? j = some v
  | setOverride _ _ value => ∃ j, Override.ofJson? j = some value
  | _ => True

/-- The stores that are there after loading a document, and then any operations on decoded values
and any pulls, of whatever source, in any order. -/
inductive Reachable : Store → Prop
  | load {j : Json} {x : Snapshot} (h : Snapshot.ofJson? j = some x) : Reachable (ofSnapshot x)
  | perform {s : Store} (h : Reachable s) {op : Operation} (hop : op.IsDecoded) :
      Reachable (s.perform op)
  | pull {β : Type} [Buffer β] {s : Store} (h : Reachable s) (c : Coordinator β) :
      Reachable (c.pull s).2.1

theorem Operation.IsDecoded.takesCanonical {op : Operation} (h : op.IsDecoded) :
    op.TakesCanonical := by
  cases op with
  | addComponent c =>
    obtain ⟨j, hj⟩ := h
    exact Component.isCanonical_of_ofJson? hj
  | setPropValues componentId propId values =>
    intro v hv
    obtain ⟨j, hj⟩ := h v hv
    exact PropValue.isCanonical_of_ofJson? hj
  | setOverride instanceId propId value =>
    obtain ⟨j, hj⟩ := h
    exact Override.isCanonical_of_ofJson? hj
  | _ => trivial

namespace HoldsCanonical

variable {s : Store}

theorem replaceAll (h : s.HoldsCanonical) (es : List Element) :
    (Coordinator.replaceAll s es).1.HoldsCanonical := by
  rw [Coordinator.replaceAll_eq]
  exact List.foldlRecOn es _ h fun s' hs' e _ => hs'.of_sameValues (s'.sameValues_replaceElement e)

theorem removeAll (h : s.HoldsCanonical) (ids : List String) :
    (Coordinator.removeAll s ids).1.HoldsCanonical := by
  rw [Coordinator.removeAll_eq]
  exact List.foldlRecOn ids _ h fun _ hs' id _ => hs'.removeElement id

variable {β : Type} [Buffer β]

theorem applySource (h : s.HoldsCanonical) (c : Coordinator β) (source : String) :
    (c.applySource s source).2.1.HoldsCanonical := by
  unfold Coordinator.applySource
  cases Markup.read source c.config.sourcePath (c.target.bindingContext s) with
  | error e => exact h
  | ok tree =>
    exact ((h.replaceAll tree.elements).removeAll _).of_sameValues (sameValues_recordPaths _ _)

theorem pull (h : s.HoldsCanonical) (c : Coordinator β) : (c.pull s).2.1.HoldsCanonical := by
  unfold Coordinator.pull
  split
  · exact h
  · exact h
  · split
    · exact h
    · exact h
    · exact h.applySource _ _

end HoldsCanonical

theorem Reachable.holdsCanonical {s : Store} (h : Reachable s) : s.HoldsCanonical := by
  induction h with
  | load h => exact .ofSnapshot (Snapshot.isCanonical_of_ofJson? h)
  | perform _ hop ih => exact ih.perform hop.takesCanonical
  | pull _ c ih => exact ih.pull c

theorem Reachable.snapshot_isCanonical {s : Store} (h : Reachable s) : s.snapshot.IsCanonical :=
  h.holdsCanonical.snapshot

/-- A document that is reachable can be loaded from its text just when none of its styles has a
literal in the place of the bindings, if its numbers are what their texts are read as and it is not
nested too deep. Both conditions leave out documents that do not come back either: an infinite number
is written as `null`, and of a text that is nested too deep nothing is read. -/
theorem ofText?_snapshot_iff {s : Store} (h : Reachable s)
    (hnumbers : s.snapshot.toJson.NumbersReadBack) (hdepth : s.snapshot.toJson.nesting ≤ maxDepth) :
    Snapshot.ofText? s.snapshot.text = some s.snapshot ↔
      ∀ e ∈ s.elements, e.properties.style.Unreserved := by
  rw [Snapshot.ofText?_text h.snapshot_isCanonical hnumbers hdepth]
  exact Snapshot.ofJson?_toJson_iff h.snapshot_isCanonical

end Store

/-! ### A document that comes back -/

open Markup

/-- A document with one element, the width of which is a number. -/
def wide : Snapshot :=
  ⟨[leaf (Dict.empty.insert "width" (.number (Binary64.ofInt 16))) Dict.empty], [], []⟩

private theorem decoded_wide : Snapshot.ofJson? wide.toJson = some wide := by
  refine (Snapshot.ofJson?_toJson_iff ⟨fun c hc => ?_, fun o ho => ?_⟩).2 fun e he => ?_
  · cases hc
  · cases ho
  · rw [List.mem_singleton.1 he]
    rfl

/-- A coordinator that finds the source of a card in its buffer. -/
def cardCoordinator : Coordinator MemoryBuffer :=
  .start (MemoryBuffer.fresh.setFile "App.jsx" (write cardContext cardTree "card").text) .default
    ⟨"card", "Home", .none, cardContext.targets⟩

/-- The card is put beside the element that was there. -/
theorem pull_card : (cardCoordinator.pull (Store.ofSnapshot wide)).2.1.snapshot =
    ⟨wide.elements ++ cardTree.map (conveyed cardContext), [], []⟩ := by
  let c : Coordinator MemoryBuffer := { cardCoordinator with phase := .pullingIn }
  let tree : ReadTree := ⟨"card", cardTree.map (conveyed cardContext), []⟩
  have hpull : (cardCoordinator.pull (Store.ofSnapshot wide)).2.1 =
      (c.applySource (Store.ofSnapshot wide) (write cardContext cardTree "card").text).2.1 := rfl
  have hsound : (Store.ofSnapshot wide).Sound := by
    rw [Store.ofSnapshot_eq_run]
    exact Store.empty_sound.foldl_perform _
  have hgone : Coordinator.goneIds (Store.ofSnapshot wide) "card" tree = [] := by
    have hsubtree : (Store.ofSnapshot wide).subtree "card" = [] := by
      unfold Store.subtree Element.subtree
      rw [Element.walk_missing rfl, Element.walk]
    rw [Coordinator.goneIds, hsubtree]
    rfl
  have hscope : ∀ id, c.target.scope ≠ .inst id := by
    intro id h
    cases h
  rw [hpull, c.applySource_eq_placeTree hsound hscope (by decide) (read_cardTree "App.jsx")]
  change (Coordinator.placeTree (Store.ofSnapshot wide) "card" tree).snapshot = _
  rw [Coordinator.placeTree, hgone]
  rfl

/-- A card that was pulled into a loaded document is saved with it. -/
theorem ofText?_snapshot_card :
    let s := (cardCoordinator.pull (Store.ofSnapshot wide)).2.1
    s.snapshot.elements.map Element.id = ["a", "card", "icon"] ∧
      (Snapshot.ofText? s.snapshot.text = some s.snapshot ↔
        ∀ e ∈ s.elements, e.properties.style.Unreserved) := by
  intro s
  have hreachable : s.Reachable := .pull (.load decoded_wide) cardCoordinator
  have hsnapshot : s.snapshot = ⟨wide.elements ++ cardTree.map (conveyed cardContext), [], []⟩ :=
    pull_card
  have hnumbers : s.snapshot.toJson.NumbersReadBack := by
    have hwidth : s.snapshot.toJson.scalars.filter isNumber = [float (Binary64.ofInt 16)] := by
      rw [hsnapshot]
      rfl
    refine numbersReadBack_of_filter fun x hx => ?_
    rw [hwidth, List.mem_singleton] at hx
    exact hx ▸ readsBack_of_readsBackFloat (by decide +kernel)
  have hdepth : s.snapshot.toJson.nesting ≤ maxDepth := by
    rw [hsnapshot]
    decide +kernel
  exact ⟨by rw [hsnapshot]; rfl, Store.ofText?_snapshot_iff hreachable hnumbers hdepth⟩

/-! ### A document that does not -/

/-- An element with a literal in the place of its bindings. -/
def reserved : Element := leaf (Dict.empty.insert "binding" (.text "none")) Dict.empty

/-- The source of such an element. -/
def reservedSource : String :=
  "<div id=\"a\" ownership-type=\"screen\" owner-id=\"S1\" style=" ++
    "\x7b\x7b binding: \"none\" \x7d\x7d />"

/-- A coordinator that finds it in its buffer. -/
def reservedCoordinator : Coordinator MemoryBuffer :=
  .start (MemoryBuffer.fresh.setFile "App.jsx" reservedSource) .default ⟨"a", "Home", .none, []⟩

theorem pull_reserved :
    (reservedCoordinator.pull Store.empty).2.1 = (Store.empty.replaceElement reserved).1 := by
  let c : Coordinator MemoryBuffer := { reservedCoordinator with phase := .pullingIn }
  have hread : read reservedSource c.config.sourcePath (c.target.bindingContext Store.empty) =
      .ok ⟨"a", [reserved], []⟩ := by
    have hleaf : readsLeaf reservedSource "App.jsx"
        (Dict.empty.insert "binding" (.text "none")) Dict.empty = true := by decide +kernel
    exact read_of_readsLeaf hleaf
  have hpull : (reservedCoordinator.pull Store.empty).2.1 =
      (c.applySource Store.empty reservedSource).2.1 := rfl
  have happlied : (c.applySource Store.empty reservedSource).2.1 =
      (c.applyTree Store.empty ⟨"a", [reserved], []⟩).2.1 := by
    rw [Coordinator.applySource, hread]
  obtain ⟨ts, hts⟩ : ∃ ts, (c.applyTree Store.empty ⟨"a", [reserved], []⟩).2.1 =
      ((Coordinator.removeAll (Store.empty.replaceElement reserved).1
        ((Store.empty.subtree "a").filter fun id => !(["a"].contains id))).1.recordPaths ts).1 :=
    ⟨_, rfl⟩
  have hgone : (Store.empty.subtree "a").filter (fun id => !(["a"].contains id)) = [] := by
    simp [Store.subtree, Store.elements, Store.empty, Element.subtree, Element.walk, Element.find?]
  have hunbound : ∀ id e, (Store.empty.replaceElement reserved).1.element? id = some e →
      ∀ slot, Store.binding? e.properties slot = none := by
    intro id e he slot
    have hget : (Dict.empty.insert "a" reserved).get? id = some e := he
    rw [Dict.get?_insert] at hget
    split at hget
    · cases hget
      cases slot <;> rfl
    · cases hget
  rw [hpull, happlied, hts, hgone]
  exact Store.recordPaths_of_unbound hunbound ts

/-- The style of an element that was pulled has the key under which the JSON form has the bindings.
The saved document has a text there and cannot be loaded. -/
theorem ofText?_text_reserved :
    Store.Reachable (reservedCoordinator.pull Store.empty).2.1 ∧
      (reservedCoordinator.pull Store.empty).2.1.snapshot.toJson.NumbersReadBack ∧
      Snapshot.ofText? (reservedCoordinator.pull Store.empty).2.1.snapshot.text = none := by
  have hempty : Snapshot.ofJson? (.object []) = some Snapshot.empty := rfl
  have hreachable : Store.Reachable (reservedCoordinator.pull Store.empty).2.1 :=
    .pull (.load hempty) reservedCoordinator
  have hsnapshot : (reservedCoordinator.pull Store.empty).2.1.snapshot = ⟨[reserved], [], []⟩ := by
    rw [pull_reserved]
    rfl
  have hcanonical := hreachable.snapshot_isCanonical
  rw [hsnapshot] at hcanonical ⊢
  have hnone : (Snapshot.mk [reserved] [] []).toJson.scalars.filter isNumber = [] := rfl
  have hnumbers : (Snapshot.mk [reserved] [] []).toJson.NumbersReadBack :=
    numbersReadBack_of_filter fun x hx => by simp [hnone] at hx
  refine ⟨hreachable, hnumbers, ?_⟩
  rw [Snapshot.ofText?_text hcanonical hnumbers (by decide +kernel)]
  rfl

end DesignSync

import DesignSync.Proofs.Document.Lookup
import DesignSync.Proofs.Markup.Tasks

/-!
What a text was traced for: the bindings of the elements that were written, as far as their targets
are there.
-/

namespace DesignSync.Markup

namespace Written

@[simp] theorem text_append (a b : Written) : (a ++ b).text = a.text ++ b.text := rfl

@[simp] theorem traced_append (a b : Written) : (a ++ b).traced = a.traced ++ b.traced := rfl

@[simp] theorem traced_ofText (s : String) : (ofText s).traced = [] := rfl

@[simp] theorem traced_nothing : nothing.traced = [] := rfl

@[simp] theorem traced_finding (f : Finding) (id : Option String) : (finding f id).traced = [] :=
  rfl

/-- What two written parts have together, many have together. -/
theorem of_concat {α : Type} {f : Written → List α} (hnothing : f nothing = [])
    (happend : ∀ a b, f (a ++ b) = f a ++ f b) (ws : List Written) :
    f (concat ws) = ws.flatMap f := by
  induction ws with
  | nil => exact hnothing
  | cons w ws ih =>
    change f (w ++ concat ws) = _
    rw [happend, ih, List.flatMap_cons]

theorem traced_concat (ws : List Written) : (concat ws).traced = ws.flatMap (·.traced) :=
  of_concat rfl traced_append ws

end Written

/-- Whether a traced path is the member expression for a binding of an element. For content it comes
with the default of the target. -/
structure IsTraceOf (ctx : BindingContext) (e : Element) (t : TracedPath) : Prop where
  element : t.element = e.id
  bound : ∃ b, Store.binding? e.properties t.slot = some b ∧ ctx.reference? b = some t.path ∧
    (t.slot = .content → t.fallback = (ctx.byId? b.kind b.refId).bind (·.display))

/-- Whether a text was traced for one element only. -/
def TracedFor (ctx : BindingContext) (e : Element) (w : Written) : Prop :=
  ∀ t ∈ w.traced, IsTraceOf ctx e t

variable {ctx : BindingContext} {e : Element}

theorem TracedFor.of_nil {w : Written} (h : w.traced = []) : TracedFor ctx e w := by
  intro t ht
  rw [h] at ht
  cases ht

theorem TracedFor.append {a b : Written} (ha : TracedFor ctx e a) (hb : TracedFor ctx e b) :
    TracedFor ctx e (a ++ b) := by
  intro t ht
  rw [Written.traced_append, List.mem_append] at ht
  exact ht.elim (ha t) (hb t)

theorem TracedFor.concat {ws : List Written} (h : ∀ w ∈ ws, TracedFor ctx e w) :
    TracedFor ctx e (.concat ws) := by
  intro t ht
  rw [Written.traced_concat, List.mem_flatMap] at ht
  obtain ⟨w, hw, ht⟩ := ht
  exact h w hw t ht

theorem reference_tracedFor (slot : BindingSlot) {b : Binding}
    (hb : Store.binding? e.properties slot = some b) :
    TracedFor ctx e (reference ctx e.id b slot).2 := by
  unfold reference
  split
  · next path hpath =>
    intro t ht
    obtain rfl := List.mem_singleton.1 ht
    refine ⟨rfl, b, hb, hpath, ?_⟩
    rintro rfl
    rfl
  · exact .of_nil rfl

theorem writeEntry_tracedFor (ctx : BindingContext) (e : Element) (key : String) :
    TracedFor ctx e (writeEntry ctx e.id e.properties.style key).2 := by
  unfold writeEntry
  cases hb : e.properties.style.binding? key with
  | some b => exact reference_tracedFor (.style key) hb
  | none => exact .of_nil rfl

theorem writeStyle_tracedFor (ctx : BindingContext) (e : Element) :
    TracedFor ctx e (writeStyle ctx e.id e.properties.style) := by
  refine .append (.concat fun w hw => ?_) (.of_nil rfl)
  rw [List.map_map] at hw
  obtain ⟨key, -, rfl⟩ := List.mem_map.1 hw
  exact writeEntry_tracedFor ctx e key

theorem writeFlag_tracedFor (id flag : String) (value : StateFlag) :
    TracedFor ctx e (writeFlag id flag value) := by
  unfold writeFlag
  dsimp only
  split <;> exact .of_nil rfl

theorem writeNamed_tracedFor (id name text : String) :
    TracedFor ctx e (writeNamed id name text) := by
  unfold writeNamed
  split <;> exact .of_nil rfl

theorem writeEvent_tracedFor (id : String) (attributes : Dict String) (name handler : String) :
    TracedFor ctx e (writeEvent id attributes name handler) := by
  unfold writeEvent
  split
  · exact .of_nil rfl
  · exact writeNamed_tracedFor id name _

theorem writeHeader_tracedFor (ctx : BindingContext) (e : Element) :
    TracedFor ctx e (writeHeader ctx e) := by
  refine .append (.append (.append (.append (.of_nil rfl) ?_) ?_) ?_) (writeStyle_tracedFor ctx e)
  · refine .concat fun w hw => ?_
    obtain ⟨⟨flag, value⟩, -, rfl⟩ := List.mem_map.1 hw
    exact writeFlag_tracedFor e.id flag value
  · refine .concat fun w hw => ?_
    obtain ⟨⟨name, value⟩, -, rfl⟩ := List.mem_map.1 hw
    exact writeNamed_tracedFor e.id name _
  · refine .concat fun w hw => ?_
    obtain ⟨⟨name, handler⟩, -, rfl⟩ := List.mem_map.1 hw
    exact writeEvent_tracedFor e.id _ name handler

theorem writeContent_tracedFor (ctx : BindingContext) (depth : Nat) (e : Element) :
    TracedFor ctx e (writeContent ctx depth e) := by
  unfold writeContent
  refine .append ?_ (.of_nil rfl)
  split
  · next b hb => exact .append (reference_tracedFor .content hb) (.of_nil rfl)
  · exact .of_nil rfl

theorem writeOpening_tracedFor (ctx : BindingContext) (depth : Nat) (e : Element) :
    TracedFor ctx e (writeOpening ctx depth e).1 := by
  have hheader : TracedFor ctx e (.ofText (indent depth) ++ writeHeader ctx e) :=
    .append (.of_nil rfl) (writeHeader_tracedFor ctx e)
  unfold writeOpening
  dsimp only
  split
  · refine .append (.append hheader (.of_nil ?_)) (.of_nil rfl)
    split <;> rfl
  · split
    · exact .append hheader (.of_nil rfl)
    · exact .append (.append hheader (.of_nil rfl)) (writeContent_tracedFor ctx _ e)

/-- Tasks that only lead to elements in a set are traced only for these. -/
theorem traced_writeTasks {ctx : BindingContext} {es : List Element} {reached : List String}
    (hclosed : ∀ id ∈ reached, ∀ e, Element.find? es id = some e → ∀ c ∈ e.children, c ∈ reached)
    (seen : List String) (tasks : List Task)
    (htasks : ∀ id depth, Task.element id depth ∈ tasks → id ∈ reached) :
    ∀ t ∈ (writeTasks ctx es seen tasks).traced, t.element ∈ reached := by
  induction seen, tasks using writeTasks.induct ctx es with
  | case1 seen =>
    rw [writeTasks]
    simp
  | case2 seen tag depth tasks ih =>
    rw [writeTasks]
    exact ih fun id d hid => htasks id d (List.mem_cons_of_mem _ hid)
  | case3 seen id depth tasks hnone ih =>
    rw [writeTasks_missing hnone]
    exact ih fun id d hid => htasks id d (List.mem_cons_of_mem _ hid)
  | case4 seen id depth tasks e hfind hseen ih =>
    rw [writeTasks_again hfind (by simpa using hseen)]
    exact ih fun id d hid => htasks id d (List.mem_cons_of_mem _ hid)
  | case5 seen id depth tasks e hfind hseen ih =>
    have hid : id ∈ reached := htasks id depth List.mem_cons_self
    rw [writeTasks_element hfind (by simpa using hseen)]
    intro t ht
    rw [Written.traced_append, List.mem_append] at ht
    rcases ht with ht | ht
    · rw [(writeOpening_tracedFor ctx depth e t ht).element, Element.id_of_find? hfind]
      exact hid
    · refine ih (fun c d hc => ?_) t ht
      rcases List.mem_append.1 hc with hc | hc
      · have hchild : c ∈ e.children := by
          unfold innerTasks at hc
          split at hc
          · simp only [List.mem_append, List.mem_map, List.mem_singleton, Task.element.injEq,
              reduceCtorEq, or_false] at hc
            obtain ⟨x, hx, rfl, -⟩ := hc
            exact hx
          · cases hc
        exact hclosed id hid e hfind c hchild
      · exact htasks c d (List.mem_cons_of_mem _ hc)

/-- Every traced path belongs to a binding of an element that was looked up. -/
theorem exists_of_traced_writeTasks {ctx : BindingContext} {es : List Element}
    (seen : List String) (tasks : List Task) :
    ∀ t ∈ (writeTasks ctx es seen tasks).traced,
      ∃ e, Element.find? es t.element = some e ∧ IsTraceOf ctx e t := by
  induction seen, tasks using writeTasks.induct ctx es with
  | case1 seen =>
    rw [writeTasks]
    simp
  | case2 seen tag depth tasks ih =>
    rw [writeTasks]
    exact ih
  | case3 seen id depth tasks hnone ih =>
    rw [writeTasks_missing hnone]
    exact ih
  | case4 seen id depth tasks e hfind hseen ih =>
    rw [writeTasks_again hfind (by simpa using hseen)]
    exact ih
  | case5 seen id depth tasks e hfind hseen ih =>
    rw [writeTasks_element hfind (by simpa using hseen)]
    intro t ht
    rw [Written.traced_append, List.mem_append] at ht
    rcases ht with ht | ht
    · have htrace := writeOpening_tracedFor ctx depth e t ht
      refine ⟨e, ?_, htrace⟩
      rwa [htrace.element, Element.id_of_find? hfind]
    · exact ih t ht

/-- A module is traced for what its tree is. -/
theorem traced_writeModule (ctx : BindingContext) (es : List Element) (root name : String) :
    (writeModule ctx es root name).traced = (writeTasks ctx es [] [.element root 2]).traced := by
  simp [writeModule, writeElement_eq]

end DesignSync.Markup

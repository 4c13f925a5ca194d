import DesignSync.Proofs.Document.Traces
import DesignSync.Proofs.Markup.Traced

/-!
A writer looks at the trace of a binding only when its target is gone. So recording what was traced
leaves everything that is written as it was.
-/

namespace DesignSync

open Markup

variable {ctx : BindingContext}

/-! ### What a writer does not look at -/

/-- A binding without the parts of its trace that a writer does not look at. -/
def Binding.untracedIn (ctx : BindingContext) (b : Binding) : Binding :=
  { b with path := if (ctx.reference? b).isSome then none else b.path, fallback := none }

/-- An element without the parts of its traces that a writer does not look at. -/
def Element.untracedIn (ctx : BindingContext) (e : Element) : Element :=
  { e with properties := e.properties.mapBindings (Binding.untracedIn ctx) }

theorem Binding.reference?_untracedIn (b : Binding) :
    ctx.reference? (b.untracedIn ctx) = ctx.reference? b := rfl

theorem Element.binding?_untracedIn (e : Element) (slot : BindingSlot) :
    Store.binding? (e.untracedIn ctx).properties slot
      = (Store.binding? e.properties slot).map (Binding.untracedIn ctx) := by
  cases slot with
  | content => rfl
  | style key =>
    change (e.properties.style.bindings.map (·.map (Binding.untracedIn ctx))).bind (·.get? key) =
      (e.properties.style.bindings.bind (·.get? key)).map _
    cases e.properties.style.bindings with
    | none => rfl
    | some m => exact Dict.get?_map _ _ _

namespace Markup

theorem reference_untracedIn (id : String) (b : Binding) (slot : BindingSlot) :
    reference ctx id (b.untracedIn ctx) slot = reference ctx id b slot := by
  unfold reference
  rw [Binding.reference?_untracedIn]
  cases href : ctx.reference? b with
  | some path => rfl
  | none => simp [Binding.untracedIn, href]

private theorem bound_untracedIn (e : Element) :
    (e.untracedIn ctx).properties.style.bound
      = e.properties.style.bound.map (Binding.untracedIn ctx) := by
  change (e.properties.style.bindings.map (·.map (Binding.untracedIn ctx))).getD Dict.empty = _
  unfold Style.bound
  cases e.properties.style.bindings <;> rfl

theorem keys_untracedIn (e : Element) :
    (e.untracedIn ctx).properties.style.keys = e.properties.style.keys := by
  have hmap : (e.properties.style.bound.map (Binding.untracedIn ctx)).map (fun _ => ())
      = e.properties.style.bound.map fun _ => () :=
    Dict.ext (by simp [Dict.map])
  unfold Style.keys
  rw [bound_untracedIn, hmap]
  rfl

theorem hasBindings_untracedIn (e : Element) :
    (e.untracedIn ctx).properties.hasBindings = e.properties.hasBindings := by
  have hstyle : (e.untracedIn ctx).properties.style.hasBindings
      = e.properties.style.hasBindings := by
    unfold Style.hasBindings
    rw [bound_untracedIn]
    simp [Dict.isEmpty, Dict.map]
  have hcontent : (e.untracedIn ctx).properties.content.binding.isSome
      = e.properties.content.binding.isSome := Option.isSome_map
  unfold Properties.hasBindings
  rw [hstyle, hcontent]

theorem isEmpty_content_untracedIn (e : Element) :
    (e.untracedIn ctx).properties.content.isEmpty = e.properties.content.isEmpty := by
  change (!e.properties.content.hasLiteral && (e.properties.content.binding.map _).isNone) = _
  rw [Option.isNone_map]
  rfl

theorem writeStyle_untracedIn (e : Element) :
    writeStyle ctx e.id (e.untracedIn ctx).properties.style
      = writeStyle ctx e.id e.properties.style := by
  have hentry : writeEntry ctx e.id (e.untracedIn ctx).properties.style
      = writeEntry ctx e.id e.properties.style := by
    funext key
    have hbinding : (e.untracedIn ctx).properties.style.binding? key =
        (e.properties.style.binding? key).map (Binding.untracedIn ctx) :=
      e.binding?_untracedIn (.style key)
    unfold writeEntry
    rw [hbinding]
    cases e.properties.style.binding? key with
    | none => rfl
    | some b => simp only [Option.map_some, reference_untracedIn]
  unfold writeStyle
  rw [hentry, keys_untracedIn]

theorem writeHeader_untracedIn (e : Element) :
    writeHeader ctx (e.untracedIn ctx) = writeHeader ctx e := by
  unfold writeHeader
  exact congrArg (_ ++ ·) (writeStyle_untracedIn e)

theorem writeContent_untracedIn (depth : Nat) (e : Element) :
    writeContent ctx depth (e.untracedIn ctx) = writeContent ctx depth e := by
  have hbinding : (e.untracedIn ctx).properties.content.binding =
      e.properties.content.binding.map (Binding.untracedIn ctx) := rfl
  unfold writeContent
  dsimp only
  rw [hbinding]
  cases e.properties.content.binding with
  | none => rfl
  | some b =>
    simp only [Option.map_some]
    rw [show (e.untracedIn ctx).id = e.id from rfl, reference_untracedIn]
    rfl

theorem writeOpening_untracedIn (depth : Nat) (e : Element) :
    writeOpening ctx depth (e.untracedIn ctx) = writeOpening ctx depth e := by
  have hbare : isBare (e.untracedIn ctx) = isBare e := by
    unfold isBare
    rw [hasBindings_untracedIn, isEmpty_content_untracedIn]
    rfl
  unfold writeOpening
  rw [writeHeader_untracedIn, isEmpty_content_untracedIn, hbare, hasBindings_untracedIn,
    writeContent_untracedIn]
  rfl

/-- A text is the same for elements that differ only in what a writer does not look at. -/
theorem writeTasks_untracedIn (es : List Element) (seen : List String) (tasks : List Task) :
    writeTasks ctx (es.map (Element.untracedIn ctx)) seen tasks = writeTasks ctx es seen tasks := by
  have hfind (id : String) : Element.find? (es.map (Element.untracedIn ctx)) id =
      (Element.find? es id).map (Element.untracedIn ctx) := Element.find?_map es id fun _ => rfl
  induction seen, tasks using writeTasks.induct ctx es with
  | case1 seen => rw [writeTasks, writeTasks]
  | case2 seen tag depth tasks ih => rw [writeTasks, writeTasks, ih]
  | case3 seen id depth tasks hnone ih =>
    have hnone' : Element.find? (es.map (Element.untracedIn ctx)) id = none := by
      rw [hfind, hnone]
      rfl
    rw [writeTasks_missing hnone', writeTasks_missing hnone, ih]
  | case4 seen id depth tasks e he hseen ih =>
    have he' : Element.find? (es.map (Element.untracedIn ctx)) id = some (e.untracedIn ctx) := by
      rw [hfind, he]
      rfl
    have hmem : id ∈ seen := by simpa using hseen
    rw [writeTasks_again he' hmem, writeTasks_again he hmem, ih]
  | case5 seen id depth tasks e he hseen ih =>
    have he' : Element.find? (es.map (Element.untracedIn ctx)) id = some (e.untracedIn ctx) := by
      rw [hfind, he]
      rfl
    have hnew : id ∉ seen := by simpa using hseen
    have hinner : innerTasks ctx depth (e.untracedIn ctx) = innerTasks ctx depth e := by
      unfold innerTasks
      rw [writeOpening_untracedIn]
      rfl
    rw [writeTasks_element he' hnew, writeTasks_element he hnew, writeOpening_untracedIn, hinner,
      ih]

end Markup

/-! ### Recording what was traced -/

namespace Store

variable {s s' : Store} {t : TracedPath}

/-- Whether a traced path is for a binding with a target. -/
def HasTarget (ctx : BindingContext) (s : Store) (t : TracedPath) : Prop :=
  ∃ e b, s.element? t.element = some e ∧ binding? e.properties t.slot = some b ∧
    (ctx.reference? b).isSome = true

/-- Whether the elements of two stores differ only in what a writer does not look at. -/
def SameUntraced (ctx : BindingContext) (s s' : Store) : Prop :=
  ∀ id, (s'.element? id).map (Element.untracedIn ctx)
    = (s.element? id).map (Element.untracedIn ctx)

theorem HasTarget.of_same (h : HasTarget ctx s t) (hsame : SameUntraced ctx s s') :
    HasTarget ctx s' t := by
  obtain ⟨e, b, he, hb, htarget⟩ := h
  have helement := hsame t.element
  rw [he, Option.map_some, Option.map_eq_some_iff] at helement
  obtain ⟨e', he', heq⟩ := helement
  have hbinding := (e'.binding?_untracedIn t.slot).symm.trans
    (heq ▸ e.binding?_untracedIn t.slot)
  rw [hb, Option.map_some, Option.map_eq_some_iff] at hbinding
  obtain ⟨b', hb', hbeq⟩ := hbinding
  refine ⟨e', b', he', hb', ?_⟩
  rw [← Binding.reference?_untracedIn, hbeq]
  exact htarget

theorem sameUntraced_recordPath (h : HasTarget ctx s t) :
    SameUntraced ctx s (s.recordPath t).1 := by
  obtain hkept | ⟨e, b, b', he, hb, hkind, href, hnew⟩ := s.recordPath_cases t
  · rw [hkept]
    exact fun _ => rfl
  · have htarget : (ctx.reference? b).isSome = true := by
      obtain ⟨e₀, b₀, he₀, hb₀, htarget⟩ := h
      cases he.symm.trans he₀
      cases hb.symm.trans hb₀
      exact htarget
    have hreference : ctx.reference? b' = ctx.reference? b := by
      unfold BindingContext.reference?
      rw [hkind, href]
    have hsame : b'.untracedIn ctx = b.untracedIn ctx := by
      simp [Binding.untracedIn, hreference, htarget, hkind, href]
    intro id
    rw [element?_of_insert hnew]
    by_cases hid : id = t.element
    · simp [hid, he, Element.untracedIn, Properties.mapBindings_setBinding hb hsame]
    · rw [if_neg hid]

theorem sameUntraced_recordPaths {ts : List TracedPath} (h : ∀ t ∈ ts, HasTarget ctx s t) :
    SameUntraced ctx s (s.recordPaths ts).1 := by
  rw [recordPaths_eq]
  induction ts generalizing s with
  | nil => exact fun _ => rfl
  | cons t ts ih =>
    have hstep := sameUntraced_recordPath (h t List.mem_cons_self)
    have hrest := ih fun u hu => (h u (List.mem_cons_of_mem _ hu)).of_same hstep
    exact fun id => (hrest id).trans (hstep id)

theorem map_untracedIn_elements (hids : s'.ids = s.ids) (hsame : SameUntraced ctx s s') :
    s'.elements.map (Element.untracedIn ctx) = s.elements.map (Element.untracedIn ctx) := by
  unfold elements
  rw [List.map_filterMap, List.map_filterMap, hids]
  exact congrArg (List.filterMap · s.ids) (funext hsame)

/-- Recording the traces of a text leaves the text of every tree as it was. -/
theorem Sound.writeTasks_recordPaths (h : s.Sound) {ts : List TracedPath}
    (hts : ∀ t ∈ ts, ∃ e, Element.find? s.elements t.element = some e ∧ IsTraceOf ctx e t)
    (seen : List String) (tasks : List Task) :
    writeTasks ctx (s.recordPaths ts).1.elements seen tasks
      = writeTasks ctx s.elements seen tasks := by
  have htargets : ∀ t ∈ ts, HasTarget ctx s t := by
    intro t ht
    obtain ⟨e, he, htrace⟩ := hts t ht
    obtain ⟨b, hb, hreference, -⟩ := htrace.bound
    rw [h.find?_elements] at he
    exact ⟨e, b, he, hb, by simp [hreference]⟩
  rw [← writeTasks_untracedIn, ← writeTasks_untracedIn s.elements,
    map_untracedIn_elements (retraced_recordPaths s ts).ids (sameUntraced_recordPaths htargets)]

/-- Recording what was traced for a module leaves the module as it was. -/
theorem Sound.writeModule_recordPaths (h : s.Sound) (root name : String) :
    writeModule ctx (s.recordPaths (writeModule ctx s.elements root name).traced).1.elements root name
      = writeModule ctx s.elements root name := by
  have htraces : ∀ t ∈ (writeModule ctx s.elements root name).traced,
      ∃ e, Element.find? s.elements t.element = some e ∧ IsTraceOf ctx e t := by
    rw [traced_writeModule]
    exact exists_of_traced_writeTasks [] _
  simp only [writeModule, writeElement_eq] at htraces ⊢
  rw [h.writeTasks_recordPaths htraces]

end Store

end DesignSync

import DesignSync.Proofs.Markup.ReadElements
import DesignSync.Proofs.Markup.Settled

/-!
A writer reports what it leaves out: where it reports nothing about an element that was read, all
that the element has comes back, and only sizes change.
-/

namespace DesignSync.Markup

open Text

namespace Written

@[simp] theorem diagnostics_append (a b : Written) :
    (a ++ b).diagnostics = a.diagnostics ++ b.diagnostics := rfl

@[simp] theorem diagnostics_ofText (s : String) : (ofText s).diagnostics = [] := rfl

@[simp] theorem diagnostics_nothing : nothing.diagnostics = [] := rfl

theorem diagnostics_concat (ws : List Written) :
    (concat ws).diagnostics = ws.flatMap (·.diagnostics) :=
  of_concat rfl diagnostics_append ws

end Written

variable {ctx : BindingContext} {e : Element}

/-! ### Elements that reports are about -/

/-- Whether a finding is that an element could not be written where it is referred to. -/
def Finding.isOfReference : Finding → Bool
  | .missingElement _ => true
  | .cycle _ => true
  | _ => false

/-- Whether all that is reported is about one element, and not about a reference to one. -/
def ReportedFor (id : String) (w : Written) : Prop :=
  ∀ d ∈ w.diagnostics, ∃ f : Finding, f.isOfReference = false ∧ d = f.diagnostic none (some id)

theorem ReportedFor.of_nil {id : String} {w : Written} (h : w.diagnostics = []) :
    ReportedFor id w := by
  intro d hd
  rw [h] at hd
  cases hd

theorem ReportedFor.finding {f : Finding} (hf : f.isOfReference = false) (id : String) :
    ReportedFor id (.finding f (some id)) := by
  intro d hd
  exact ⟨f, hf, List.mem_singleton.1 hd⟩

theorem ReportedFor.element {id : String} {w : Written} (h : ReportedFor id w) :
    ∀ d ∈ w.diagnostics, d.element = some id := by
  intro d hd
  obtain ⟨f, -, rfl⟩ := h d hd
  rfl

theorem ReportedFor.append {id : String} {a b : Written} (ha : ReportedFor id a)
    (hb : ReportedFor id b) : ReportedFor id (a ++ b) := by
  intro d hd
  rw [Written.diagnostics_append, List.mem_append] at hd
  exact hd.elim (ha d) (hb d)

theorem ReportedFor.concat {id : String} {ws : List Written} (h : ∀ w ∈ ws, ReportedFor id w) :
    ReportedFor id (.concat ws) := by
  intro d hd
  rw [Written.diagnostics_concat, List.mem_flatMap] at hd
  obtain ⟨w, hw, hd⟩ := hd
  exact h w hw d hd

theorem reportedFor_writeNamed (id name text : String) :
    ReportedFor id (writeNamed id name text) := by
  unfold writeNamed
  split
  · exact .of_nil rfl
  · exact .finding rfl id

theorem reportedFor_reference (id : String) (b : Binding) (slot : BindingSlot) :
    ReportedFor id (reference ctx id b slot).2 := by
  unfold reference
  split
  · exact .of_nil rfl
  · exact .finding rfl id

theorem reportedFor_writeHeader : ReportedFor e.id (writeHeader ctx e) := by
  refine .append (.append (.append (.append (.of_nil rfl) ?_) ?_) ?_) ?_
  · refine .concat fun w hw => ?_
    obtain ⟨x, -, rfl⟩ := List.mem_map.1 hw
    unfold writeFlag
    dsimp only
    split
    · exact .of_nil rfl
    · exact .finding rfl e.id
  · refine .concat fun w hw => ?_
    obtain ⟨x, -, rfl⟩ := List.mem_map.1 hw
    exact reportedFor_writeNamed _ _ _
  · refine .concat fun w hw => ?_
    obtain ⟨x, -, rfl⟩ := List.mem_map.1 hw
    unfold writeEvent
    dsimp only
    split
    · exact .finding rfl e.id
    · exact reportedFor_writeNamed _ _ _
  · refine .append (.concat fun w hw => ?_) (.of_nil rfl)
    simp only [List.map_map, List.mem_map, Function.comp_apply] at hw
    obtain ⟨key, -, rfl⟩ := hw
    unfold writeEntry
    cases e.properties.style.binding? key with
    | some b => exact reportedFor_reference e.id b (.style key)
    | none => exact .of_nil rfl

theorem reportedFor_writeContent (depth : Nat) : ReportedFor e.id (writeContent ctx depth e) := by
  unfold writeContent
  dsimp only
  refine .append ?_ (.of_nil rfl)
  split
  · exact .append (reportedFor_reference _ _ _) (.of_nil rfl)
  · exact .of_nil rfl

/-- What is reported while an element is written is about this element. -/
theorem reportedFor_writeOpening (depth : Nat) : ReportedFor e.id (writeOpening ctx depth e).1 := by
  have hheader : ReportedFor e.id (.ofText (indent depth) ++ writeHeader ctx e) :=
    .append (.of_nil rfl) reportedFor_writeHeader
  unfold writeOpening
  dsimp only
  split
  · refine .append (.append hheader ?_) (.of_nil rfl)
    split
    · exact .of_nil rfl
    · exact .finding rfl e.id
  · split
    · exact .append hheader (.of_nil rfl)
    · exact .append (.append hheader (.of_nil rfl)) (reportedFor_writeContent (depth + 1))

variable (ctx) in
/-- What is reported for an element of a grove is reported for the grove. -/
theorem mem_diagnostics_writtenGrove {g : Grove}
    (hleaves : g.Follows writtenChildren) (he : e ∈ g.preorder) (depth : Nat) :
    ∃ depth', ∀ d ∈ (writeOpening ctx depth' e).1.diagnostics,
      d ∈ (writtenGrove ctx depth g).diagnostics := by
  induction g generalizing depth with
  | nil => cases he
  | cons x below beside ihb ihs =>
    obtain ⟨hroots, hbelow, hbeside⟩ := hleaves
    simp only [writtenGrove, Written.diagnostics_append, List.mem_append]
    simp only [Grove.preorder, List.mem_cons, List.mem_append] at he
    rcases he with rfl | he | he
    · exact ⟨depth, fun d hd => .inl (.inl hd)⟩
    · obtain ⟨depth', hmem⟩ := ihb hbelow he (depth + 1)
      have hopen : (writeOpening ctx depth x).2 = true := by
        rw [isOpen_writeOpening]
        cases hinner : (lookOf ctx x).inner with
        | some inner => rfl
        | none =>
          rw [writtenChildren_of_isNone hinner] at hroots
          cases below with
          | nil => cases he
          | cons => cases hroots
      rw [hopen]
      exact ⟨depth', fun d hd => .inl (.inr (List.mem_append_left _ (hmem d hd)))⟩
    · obtain ⟨depth', hmem⟩ := ihs hbeside he depth
      exact ⟨depth', fun d hd => .inr (hmem d hd)⟩

/-! ### Elements that nothing is reported about -/

/-- An element that is written as a whole. -/
structure Whole (e : Element) : Prop where
  flags : ∀ x ∈ e.properties.state.entries, isWritableFlag x.1 = true
  attributes : ∀ x ∈ e.properties.attributes.entries, isWritableName x.1 = true
  events : ∀ x ∈ e.properties.events.entries,
    (!e.properties.attributes.contains x.1 && isWritableName x.1) = true
  inside : isVoidTag e.tag = true → e.properties.content = Content.empty ∧ e.children = []

theorem isWritableName_of_silent {id name text : String}
    (h : (writeNamed id name text).diagnostics = []) : isWritableName name = true := by
  unfold writeNamed at h
  split at h
  · next hname => exact hname
  · cases h

theorem whole_of_silent {depth : Nat} (h : (writeOpening ctx depth e).1.diagnostics = []) :
    Whole e := by
  have hheader : (writeHeader ctx e).diagnostics = [] := by
    unfold writeOpening at h
    dsimp only at h
    split at h
    · simp only [Written.diagnostics_append, List.append_eq_nil_iff] at h
      exact h.1.1.2
    · split at h
      · simp only [Written.diagnostics_append, List.append_eq_nil_iff] at h
        exact h.1.2
      · simp only [Written.diagnostics_append, List.append_eq_nil_iff] at h
        exact h.1.1.2
  simp only [writeHeader, Written.diagnostics_append, Written.diagnostics_concat,
    List.append_eq_nil_iff, List.flatMap_eq_nil_iff, List.mem_map, forall_exists_index, and_imp,
    forall_apply_eq_imp_iff₂] at hheader
  obtain ⟨⟨⟨⟨-, hflags⟩, hattributes⟩, hevents⟩, -⟩ := hheader
  refine ⟨fun x hx => ?_, fun x hx => isWritableName_of_silent (hattributes x hx), fun x hx => ?_,
    fun hvoid => ?_⟩
  · have hflag := hflags x hx
    unfold writeFlag at hflag
    dsimp only at hflag
    split at hflag
    · next hname => exact hname
    · cases hflag
  · have hevent := hevents x hx
    unfold writeEvent at hevent
    split at hevent
    · cases hevent
    · next hfree =>
      rw [isWritableName_of_silent hevent, Bool.and_true, Bool.not_eq_true']
      simpa using hfree
  · unfold writeOpening at h
    simp only [hvoid, if_true, Written.diagnostics_append, List.append_eq_nil_iff] at h
    have hnote := h.1.2
    split at hnote
    · next hempty =>
      simp only [Content.isEmpty, Content.hasLiteral, Bool.and_eq_true, Bool.not_eq_true',
        Bool.or_eq_false_iff, Option.isSome_eq_false_iff, Option.isNone_iff_eq_none,
        List.isEmpty_iff] at hempty
      obtain ⟨⟨⟨htext, hexpression⟩, hbinding⟩, hchildren⟩ := hempty
      refine ⟨?_, hchildren⟩
      cases hcontent : e.properties.content
      simp_all [Content.empty]
    · cases hnote

/-- An element with units on its sizes. -/
def sized (e : Element) : Element :=
  { e with properties := { e.properties with
      style := { e.properties.style with
        literals := e.properties.style.literals.mapKeyed conveyedLiteral } } }

theorem filter_eq_self {α : Type} {d : Dict α} {p : String → α → Bool}
    (h : ∀ x ∈ d.entries, p x.1 x.2 = true) : d.filter p = d :=
  Dict.ext (List.filter_eq_self.2 h)

theorem IsFound.conveyed_eq (hids : ctx.targets.Pairwise fun t u => ¬(t.kind = u.kind ∧ t.id = u.id))
    {fallback : BindingTarget → Option String} {b : Binding} (h : IsFound ctx fallback b) :
    ∃ t, ctx.byId? b.kind b.refId = some t ∧ conveyedBinding ctx (fallback t) b = b := by
  obtain ⟨t, hname, rfl⟩ := h
  have hid := byId?_of_ids hids (List.mem_of_find?_eq_some hname)
  refine ⟨t, hid, ?_⟩
  simp only [conveyedBinding, BindingContext.reference?, hid, Option.map_some]

/-- An element that is written as a whole comes back as it was read, but for the units of sizes. -/
theorem conveyed_of_whole (hids : ctx.targets.Pairwise fun t u => ¬(t.kind = u.kind ∧ t.id = u.id))
    (hread : IsRead ctx e) (h : Whole e) : conveyed ctx e = sized e := by
  have hbindings : e.properties.style.bindings.map (·.map (conveyedBinding ctx none)) =
      e.properties.style.bindings := by
    cases hcase : e.properties.style.bindings with
    | none => rfl
    | some d =>
      refine congrArg some (Dict.ext_get? fun key => ?_)
      rw [Dict.get?_map]
      cases hb : d.get? key with
      | none => rfl
      | some b =>
        have hbinding : e.properties.style.binding? key = some b := by
          rw [Style.binding?, hcase]
          exact hb
        obtain ⟨_, -, heq⟩ := (hread.properties.style key b hbinding).conveyed_eq hids
        exact congrArg some heq
  have hcontent : conveyedContent ctx e.properties.content = e.properties.content := by
    unfold conveyedContent
    cases hcase : e.properties.content.binding with
    | none =>
      rw [Option.map_none, ← hcase]
    | some b =>
      obtain ⟨t, hid, heq⟩ := (hread.content.binding b hcase).conveyed_eq hids
      rw [Option.map_some, hid, Option.bind_some, heq, ← hcase]
  have hinside : (if isVoidTag e.tag then Content.empty else conveyedContent ctx e.properties.content) =
      e.properties.content ∧ writtenChildren e = e.properties.children := by
    unfold writtenChildren
    cases hvoid : isVoidTag e.tag with
    | true => exact ⟨(h.inside hvoid).1.symm, (h.inside hvoid).2.symm⟩
    | false => exact ⟨hcontent, rfl⟩
  unfold conveyed sized conveyedStyle
  rw [hinside.1, hinside.2, hbindings,
    filter_eq_self (p := fun flag _ => isWritableFlag flag) h.flags,
    filter_eq_self (p := fun name _ => isWritableName name) h.attributes,
    filter_eq_self (p := fun name _ => !e.properties.attributes.contains name && isWritableName name)
      h.events]

end DesignSync.Markup

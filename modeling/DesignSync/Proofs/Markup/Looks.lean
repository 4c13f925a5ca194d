import DesignSync.Proofs.Markup.Source
import DesignSync.Proofs.Markup.Traced

/-!
What is written for an element: its attributes in order, and its content. The text of a tree is the
lines of a grove in which each element looks like that.
-/

namespace DesignSync.Markup

open Text

/-! ### Attributes -/

def metadataAttributes (e : Element) : List (String × Said) :=
  [(idAttribute, .text e.id), (kindAttribute, .text e.kind.name)]
    ++ (e.instanceRef.map fun s => (instanceAttribute, Said.text s)).toList
    ++ (e.name.map fun s => (nameAttribute, Said.text s)).toList
    ++ [(ownershipAttribute, .text e.ownership.kind.name),
      (if e.ownership.kind = .component then componentAttribute else ownerAttribute,
        .text e.ownership.ownerId)]

/-- Metadata is said as texts. -/
theorem mem_metadataAttributes {e : Element} {a : String × Said} (ha : a ∈ metadataAttributes e) :
    isMetadata a.1 = true ∧ ∃ s, a.2 = .text s := by
  have hnames : (metadataAttributes e).all (fun a => isMetadata a.1) = true := by
    unfold metadataAttributes
    cases e.instanceRef <;> cases e.name <;> cases e.ownership.kind <;> rfl
  refine ⟨List.all_eq_true.1 hnames a ha, ?_⟩
  unfold metadataAttributes at ha
  revert ha
  cases e.instanceRef <;> cases e.name <;> simp <;> grind

def flagSaid : StateFlag → Said
  | .bool b => .source (if b then "true" else "false")
  | .text s => .text s

def isWritableFlag (flag : String) : Bool := isAttributeName (stateMark ++ flag)

def isWritableName (name : String) : Bool := !isReserved name && isAttributeName name

/-- What is written for a literal under a key. -/
def literalValue (key : String) : Literal → StyleValue
  | .number x =>
    if !x.isFinite then .text x.positionalText
    else if isSizeKey key then .text (x.plainText ++ "px")
    else .number x
  | .text s =>
    if isSizeKey key && Numeral.isNumeral (trim s.toList) then .text (trimmed s ++ "px")
    else .text s

/-- What is written under a key of a style whose bindings resolve. -/
def styleValue? (ctx : BindingContext) (style : Style) (key : String) : Option StyleValue :=
  match style.binding? key with
  | some b => (ctx.byId? b.kind b.refId).map fun t => .member b.kind t.name
  | none => (style.literal? key).map (literalValue key)

def styleEntries (ctx : BindingContext) (style : Style) : List (String × StyleValue) :=
  style.keys.filterMap fun key => (styleValue? ctx style key).map (key, ·)

theorem isWritable_literalValue (key : String) (l : Literal) :
    (literalValue key l).IsWritable := by
  cases l with
  | number x =>
    simp only [literalValue]
    split
    · trivial
    · next hfinite =>
      split
      · trivial
      · simpa [StyleValue.IsWritable] using hfinite
  | text s =>
    simp only [literalValue]
    split <;> trivial

theorem isWritable_styleEntries (ctx : BindingContext) (s : Style) :
    ∀ x ∈ styleEntries ctx s, x.2.IsWritable := by
  intro x hx
  obtain ⟨key, -, hx⟩ := List.mem_filterMap.1 hx
  obtain ⟨v, hv, rfl⟩ := Option.map_eq_some_iff.1 hx
  unfold styleValue? at hv
  split at hv
  · obtain ⟨t, -, rfl⟩ := Option.map_eq_some_iff.1 hv
    trivial
  · obtain ⟨l, -, rfl⟩ := Option.map_eq_some_iff.1 hv
    exact isWritable_literalValue key l

def styleAttributes (ctx : BindingContext) (style : Style) : List (String × Said) :=
  if (styleEntries ctx style).isEmpty then []
  else [(styleAttribute, .source (styleText (styleEntries ctx style)))]

/-- The attributes that are written for the properties of an element. -/
def propertyAttributes (ctx : BindingContext) (p : Properties) : List (String × Said) :=
  (p.state.filter fun flag _ => isWritableFlag flag).entries.map
      (fun x => (stateMark ++ x.1, flagSaid x.2))
    ++ (p.attributes.filter fun name _ => isWritableName name).entries.map
      (fun x => (x.1, .text x.2))
    ++ (p.events.filter fun name _ => !p.attributes.contains name && isWritableName name).entries.map
      (fun x => (x.1, .source x.2))
    ++ styleAttributes ctx p.style

/-! ### Content -/

/-- What is written in an element in front of its children, if its bindings resolve. -/
def innerOf (ctx : BindingContext) (p : Properties) : Inner where
  before := (if p.hasBindings then [bindingsMark] else [])
    ++ (p.content.binding.bind ctx.reference?).toList
    ++ ((p.content.text.filter needsQuotes).map Quoted.quoted).toList
  text := p.content.text.filter fun s => !needsQuotes s
  behind := p.content.expression.toList

def lookOf (ctx : BindingContext) (e : Element) : Look where
  tag := e.tag
  attributes := metadataAttributes e ++ propertyAttributes ctx e.properties
  inner := if isVoidTag e.tag || isBare e then none else some (innerOf ctx e.properties)

/-- Whether a binding has a target, to which the name of the target leads back. -/
def Resolves (ctx : BindingContext) (b : Binding) : Prop :=
  ∃ t, ctx.byId? b.kind b.refId = some t ∧ ctx.byName? b.kind t.name = some t

/-- Whether all bindings of an element have targets. -/
structure Resolved (ctx : BindingContext) (p : Properties) : Prop where
  style : ∀ key b, p.style.binding? key = some b → Resolves ctx b
  content : ∀ b, p.content.binding = some b → Resolves ctx b

/-! ### Headers -/

namespace Written

@[simp] theorem text_ofText (s : String) : (ofText s).text = s := rfl

@[simp] theorem text_nothing : nothing.text = "" := rfl

@[simp] theorem text_finding (f : Finding) (id : Option String) : (finding f id).text = "" := rfl

theorem text_concat (ws : List Written) : (concat ws).text = String.join (ws.map (·.text)) := by
  induction ws with
  | nil => rfl
  | cons w ws ih =>
    change w.text ++ (concat ws).text = _
    rw [ih, List.map_cons, String.join_cons]

end Written

theorem attributeSource_text (name value : String) :
    attributeSource (name, .text value) = attributeText name value := by
  rw [← String.toList_inj]
  simp [attributeSource, attributeText, Said.written]

/-- Texts of which those that are left out are empty. -/
theorem join_filter {α : Type} (xs : List α) (keep : α → Bool) (text source : α → String)
    (hkeep : ∀ x ∈ xs, keep x = true → text x = source x)
    (hdrop : ∀ x ∈ xs, keep x = false → text x = "") :
    String.join (xs.map text) = String.join ((xs.filter keep).map source) := by
  induction xs with
  | nil => rfl
  | cons x xs ih =>
    have ih := ih (fun y hy => hkeep y (List.mem_cons_of_mem _ hy))
      fun y hy => hdrop y (List.mem_cons_of_mem _ hy)
    rw [List.map_cons, String.join_cons, List.filter_cons, ih]
    cases hx : keep x with
    | true => simp [hkeep x List.mem_cons_self hx]
    | false => simp [hdrop x List.mem_cons_self hx]

theorem metadataText_eq (e : Element) :
    metadataText e = String.join ((metadataAttributes e).map attributeSource) := by
  unfold metadataText metadataAttributes
  cases e.ownership.kind <;> cases e.instanceRef <;> cases e.name <;>
    simp [attributeSource_text, String.append_assoc]

theorem text_writeFlags (id : String) (flags : Dict StateFlag) :
    (Written.concat (flags.entries.map fun (flag, value) => writeFlag id flag value)).text =
      String.join (((flags.filter fun flag _ => isWritableFlag flag).entries.map
        fun x => (stateMark ++ x.1, flagSaid x.2)).map attributeSource) := by
  rw [Written.text_concat, List.map_map, List.map_map]
  refine join_filter flags.entries (fun x => isWritableFlag x.1) _ _ (fun x _ hx => ?_)
    fun x _ hx => ?_
  · obtain ⟨flag, value⟩ := x
    have hname : isAttributeName (stateMark ++ flag) = true := hx
    cases value with
    | bool b => simp [writeFlag, hname, attributeSource, flagSaid, Said.written]
    | text s => simp [writeFlag, hname, attributeSource_text, flagSaid]
  · simp only [isWritableFlag] at hx
    simp [writeFlag, hx]

theorem text_writeNamed (id name text : String) :
    (writeNamed id name text).text = if isWritableName name then text else "" := by
  unfold writeNamed isWritableName
  split <;> rfl

theorem text_writeAttributes (id : String) (attributes : Dict String) :
    (Written.concat (attributes.entries.map fun (name, value) =>
        writeNamed id name (attributeText name value))).text =
      String.join (((attributes.filter fun name _ => isWritableName name).entries.map
        fun x => (x.1, Said.text x.2)).map attributeSource) := by
  rw [Written.text_concat, List.map_map, List.map_map]
  refine join_filter attributes.entries (fun x => isWritableName x.1) _ _ (fun x _ hx => ?_)
    fun x _ hx => ?_
  · simp [text_writeNamed, hx, attributeSource_text]
  · simp [text_writeNamed, hx]

theorem text_writeEvents (id : String) (attributes events : Dict String) :
    (Written.concat (events.entries.map fun (name, handler) =>
        writeEvent id attributes name handler)).text =
      String.join (((events.filter fun name _ =>
        !attributes.contains name && isWritableName name).entries.map
          fun x => (x.1, Said.source x.2)).map attributeSource) := by
  rw [Written.text_concat, List.map_map, List.map_map]
  refine join_filter events.entries (fun x => !attributes.contains x.1 && isWritableName x.1) _ _
    (fun x _ hx => ?_) fun x _ hx => ?_
  · simp only [Bool.and_eq_true, Bool.not_eq_true'] at hx
    simp [writeEvent, text_writeNamed, hx.1, hx.2, attributeSource, Said.written]
  · cases hclash : attributes.contains x.1 with
    | true => simp [writeEvent, hclash]
    | false =>
      have hname : isWritableName x.1 = false := by simpa [hclash] using hx
      simp [writeEvent, hclash, text_writeNamed, hname]

theorem text_reference (ctx : BindingContext) (id : String) (b : Binding) (slot : BindingSlot) :
    (reference ctx id b slot).2.text = "" := by
  unfold reference
  split <;> rfl

theorem reference_of_resolves {ctx : BindingContext} {b : Binding} (h : Resolves ctx b)
    (id : String) (slot : BindingSlot) : (reference ctx id b slot).1 = ctx.reference? b := by
  obtain ⟨t, hfind, -⟩ := h
  simp [reference, BindingContext.reference?, hfind]

theorem source_literalValue (key : String) (l : Literal) :
    (literalValue key l).source = literalText key l := by
  cases l with
  | number x =>
    simp only [literalValue, literalText]
    split
    · rfl
    · split <;> rfl
  | text s =>
    simp only [literalValue, literalText]
    split <;> rfl

theorem writeEntry_value {ctx : BindingContext} {style : Style}
    (h : ∀ key b, style.binding? key = some b → Resolves ctx b) (id key : String) :
    (writeEntry ctx id style key).1 =
      (styleValue? ctx style key).map fun v => entryText (key, v) := by
  unfold writeEntry styleValue?
  cases hbinding : style.binding? key with
  | some b =>
    simp only [reference_of_resolves (h key b hbinding), BindingContext.reference?, Option.map_map]
    rfl
  | none =>
    simp only [Option.map_map]
    congr 1
    funext l
    simp [entryText, keyText, source_literalValue]

theorem text_writeStyle {ctx : BindingContext} {style : Style}
    (h : ∀ key b, style.binding? key = some b → Resolves ctx b) (id : String) :
    (writeStyle ctx id style).text =
      String.join ((styleAttributes ctx style).map attributeSource) := by
  have hnone : ∀ keys : List String,
      (Written.concat ((keys.map (writeEntry ctx id style)).map (·.2))).text = "" := by
    intro keys
    induction keys with
    | nil => rfl
    | cons key keys ih =>
      rw [Written.text_concat] at ih ⊢
      rw [List.map_cons, List.map_cons, List.map_cons, String.join_cons, ih]
      have hentry : (writeEntry ctx id style key).2.text = "" := by
        unfold writeEntry
        cases style.binding? key with
        | some b => exact text_reference ctx id b _
        | none => rfl
      rw [hentry]
      rfl
  have hentries : (style.keys.map (writeEntry ctx id style)).filterMap (·.1) =
      (styleEntries ctx style).map entryText := by
    rw [List.filterMap_map, styleEntries, List.map_filterMap]
    refine List.filterMap_congr fun key _ => ?_
    simp only [Function.comp_apply, writeEntry_value h, Option.map_map]
    rfl
  unfold writeStyle
  rw [Written.text_append, hnone]
  simp only [hentries, Written.text_ofText, List.isEmpty_map, styleAttributes]
  split
  · rfl
  · simp [attributeSource, Said.written, styleText, entriesText]

/-- The header of an element holds the attributes of its look. -/
theorem text_writeHeader {ctx : BindingContext} {e : Element} (h : Resolved ctx e.properties) :
    (writeHeader ctx e).text =
      "<" ++ e.tag ++ String.join ((lookOf ctx e).attributes.map attributeSource) := by
  unfold writeHeader
  simp only [Written.text_append, Written.text_ofText, text_writeFlags, text_writeAttributes,
    text_writeEvents, text_writeStyle h.style, metadataText_eq, lookOf, propertyAttributes,
    List.map_append, String.join_append, String.append_assoc]

/-! ### Lines -/

theorem bracedLines_append (depth : Nat) (ss ts : List String) :
    bracedLines depth (ss ++ ts) = bracedLines depth ss ++ bracedLines depth ts := by
  simp [bracedLines]

theorem text_writeContent {ctx : BindingContext} {e : Element} (h : Resolved ctx e.properties)
    (depth : Nat) :
    (if e.properties.hasBindings then line depth (braced bindingsMark) else "")
      ++ (writeContent ctx depth e).text = (innerOf ctx e.properties).source depth := by
  have hmark : (if e.properties.hasBindings then line depth (braced bindingsMark) else "") =
      bracedLines depth (if e.properties.hasBindings then [bindingsMark] else []) := by
    split <;> simp [bracedLines]
  have htext : (e.properties.content.text.elim "" fun s =>
      line depth (if needsQuotes s then braced (Quoted.quoted s) else s)) =
      bracedLines depth ((e.properties.content.text.filter needsQuotes).map Quoted.quoted).toList
        ++ (e.properties.content.text.filter fun s => !needsQuotes s).elim "" (line depth) := by
    cases e.properties.content.text with
    | none => rfl
    | some s => cases hquotes : needsQuotes s <;> simp [bracedLines, Option.filter, hquotes]
  have hexpression : (e.properties.content.expression.elim "" fun s => line depth (braced s)) =
      bracedLines depth e.properties.content.expression.toList := by
    cases e.properties.content.expression <;> simp [bracedLines]
  unfold writeContent
  dsimp only
  rw [Written.text_append, Written.text_ofText, htext, hexpression, hmark, Inner.source, innerOf,
    bracedLines_append, bracedLines_append]
  cases hcase : e.properties.content.binding with
  | none => simp [bracedLines, String.append_assoc]
  | some b =>
    simp only [Written.text_append, text_reference, reference_of_resolves (h.content b hcase),
      Written.text_ofText, Option.bind_some]
    cases ctx.reference? b <;> simp [bracedLines, String.append_assoc]

/-- The ids of the elements that are written below an element. -/
def writtenChildren (e : Element) : List String := if isVoidTag e.tag then [] else e.children

/-- What is written up to the children of an element. -/
theorem text_writeOpening {ctx : BindingContext} {e : Element} (h : Resolved ctx e.properties)
    (depth : Nat) :
    (writeOpening ctx depth e).1.text =
      line depth ("<" ++ headerSource e.tag (lookOf ctx e).attributes (lookOf ctx e).inner.isNone)
        ++ (lookOf ctx e).inner.elim "" (Inner.source (depth + 1)) := by
  have hheader := text_writeHeader h
  unfold writeOpening
  simp only [lookOf] at hheader ⊢
  split
  · next hvoid =>
    have hnote : (if e.properties.content.isEmpty && e.children.isEmpty then Written.nothing
        else Written.finding (.voidContent e.tag) (some e.id)).text = "" := by
      split <;> rfl
    simp only [Written.text_append, hnote]
    simp [hheader, hvoid, line, headerSource, headerEnd, String.append_assoc]
  · next hvoid =>
    split
    · next hbare => simp [hheader, hbare, line, headerSource, headerEnd, String.append_assoc]
    · next hbare =>
      have hcontent := text_writeContent h (depth + 1)
      simp [hheader, hvoid, hbare, line, headerSource, headerEnd, String.append_assoc] at hcontent ⊢
      rw [hcontent]

/-! ### Trees -/

variable {ctx : BindingContext} {es : List Element}

theorem isOpen_writeOpening {e : Element} (depth : Nat) :
    (writeOpening ctx depth e).2 = (lookOf ctx e).inner.isSome := by
  simp only [writeOpening, lookOf]
  cases isVoidTag e.tag <;> cases isBare e <;> rfl

theorem writtenChildren_of_isSome {e : Element} (h : (lookOf ctx e).inner.isSome = true) :
    writtenChildren e = e.children := by
  simp only [lookOf] at h
  split at h
  · cases h
  · next hopen =>
    simp only [Bool.or_eq_true, not_or, Bool.not_eq_true] at hopen
    simp [writtenChildren, hopen.1]

theorem writtenChildren_of_isNone {e : Element} (h : (lookOf ctx e).inner = none) :
    writtenChildren e = [] := by
  simp only [lookOf] at h
  split at h
  · next hclosed =>
    cases hvoid : isVoidTag e.tag with
    | true => simp [writtenChildren, hvoid]
    | false =>
      have hbare : isBare e = true := by simpa [hvoid] using hclosed
      simp only [isBare, Bool.and_eq_true, List.isEmpty_iff] at hbare
      simp [writtenChildren, hbare.2]
  · cases h

/-- What is written for a grove. -/
def writtenGrove (ctx : BindingContext) (depth : Nat) : Grove → Written
  | .nil => .nothing
  | .cons e below beside =>
    (writeOpening ctx depth e).1
      ++ (if (writeOpening ctx depth e).2 then
          writtenGrove ctx (depth + 1) below ++ .ofText (closingLine depth e.tag)
        else .nothing)
      ++ writtenGrove ctx depth beside

/-- Writing from the roots of a grove writes the grove, and goes on having seen its elements. -/
theorem writeTasks_roots {g : Grove} (hfollows : g.Follows writtenChildren)
    (hstored : g.StoredIn es) (seen : List String) (hunseen : g.Unseen seen) (depth : Nat)
    (tasks : List Task) :
    ∃ seen', g.Adds seen seen' ∧
      writeTasks ctx es seen (g.roots.map (Task.element · depth) ++ tasks) =
        writtenGrove ctx depth g ++ writeTasks ctx es seen' tasks := by
  induction g generalizing seen depth tasks with
  | nil => exact ⟨seen, Grove.adds_nil seen, by simp [Grove.roots, writtenGrove]⟩
  | cons e below beside ihb ihs =>
    obtain ⟨hroots, hbelow, hbeside⟩ := hfollows
    obtain ⟨hfind, hsb, hss⟩ := hstored.of_cons
    obtain ⟨hnew, hub, hus⟩ := hunseen.of_cons
    -- What follows the opening is the grove below, if the element does not close itself.
    obtain ⟨seen₁, hseen₁, hinside⟩ : ∃ seen₁, below.Adds (e.id :: seen) seen₁ ∧
        writeTasks ctx es (e.id :: seen) (innerTasks ctx depth e
            ++ (beside.roots.map (Task.element · depth) ++ tasks)) =
          (if (writeOpening ctx depth e).2 then
              writtenGrove ctx (depth + 1) below ++ .ofText (closingLine depth e.tag)
            else .nothing)
          ++ writeTasks ctx es seen₁ (beside.roots.map (Task.element · depth) ++ tasks) := by
      unfold innerTasks
      rw [isOpen_writeOpening]
      cases hinner : (lookOf ctx e).inner with
      | none =>
        obtain rfl : below = .nil :=
          Grove.eq_nil_of_roots (hroots.symm.trans (writtenChildren_of_isNone hinner))
        exact ⟨e.id :: seen, Grove.adds_nil _, by simp⟩
      | some inner =>
        obtain ⟨seen₁, hseen₁, hwritten⟩ := ihb hbelow hsb (e.id :: seen) hub (depth + 1)
          (.closing e.tag depth :: (beside.roots.map (Task.element · depth) ++ tasks))
        refine ⟨seen₁, hseen₁, ?_⟩
        have hopen : (lookOf ctx e).inner.isSome = true := by
          rw [hinner]
          rfl
        have hchildren : e.children = below.roots := (writtenChildren_of_isSome hopen).symm.trans hroots
        simp only [Option.isSome_some, if_true]
        rw [hchildren, List.append_assoc, List.singleton_append, hwritten, writeTasks,
          Written.append_assoc]
        rfl
    obtain ⟨seen₂, hseen₂, hrest⟩ := ihs hbeside hss seen₁ (hus hseen₁) depth tasks
    refine ⟨seen₂, hseen₁.cons hseen₂, ?_⟩
    rw [Grove.roots, List.map_cons, List.cons_append, writeTasks_element hfind hnew, hinside, hrest,
      writtenGrove]
    simp only [Written.append_assoc]

/-- The text of a grove is its lines. -/
theorem text_writtenGrove {g : Grove}
    (hresolved : ∀ e ∈ g.preorder, Resolved ctx e.properties) (depth : Nat) :
    (writtenGrove ctx depth g).text = groveText (lookOf ctx) depth g := by
  induction g generalizing depth with
  | nil => rfl
  | cons e below beside ihb ihs =>
    have hopening := text_writeOpening (hresolved e (by simp [Grove.preorder])) depth
    have hbelow := ihb (fun x hx => hresolved x (by simp [Grove.preorder, hx])) (depth + 1)
    have hbeside := ihs (fun x hx => hresolved x (by simp [Grove.preorder, hx])) depth
    rw [writtenGrove, isOpen_writeOpening, groveText, Written.text_append, Written.text_append, hopening,
      hbeside]
    cases (lookOf ctx e).inner with
    | none => simp [lookOf]
    | some inner => simp [lookOf, hbelow, String.append_assoc]

/-- What is written for a tree, as it would be for its grove. -/
theorem writeTasks_root {e : Element} {below : Grove}
    (hfollows : (Grove.cons e below .nil).Follows writtenChildren)
    (hstored : (Grove.cons e below .nil).StoredIn es)
    (hnodup : (Grove.cons e below .nil).ids.Nodup) (depth : Nat) :
    writeTasks ctx es [] [.element e.id depth] = writtenGrove ctx depth (.cons e below .nil) := by
  obtain ⟨seen, -, hwritten⟩ := writeTasks_roots hfollows hstored [] ⟨hnodup, by simp⟩ depth []
  rw [writeTasks, Written.append_nothing] at hwritten
  exact hwritten

/-- The text of a tree is the lines of its grove. -/
theorem text_write {e : Element} {below : Grove}
    (hfollows : (Grove.cons e below .nil).Follows writtenChildren)
    (hstored : (Grove.cons e below .nil).StoredIn es) (hnodup : (Grove.cons e below .nil).ids.Nodup)
    (hresolved : ∀ x ∈ (Grove.cons e below .nil).preorder, Resolved ctx x.properties) :
    (write ctx es e.id).text = groveText (lookOf ctx) 0 (.cons e below .nil) := by
  rw [write_eq, writeTasks_root hfollows hstored hnodup, text_writtenGrove hresolved]

/-- The text of a module is that of its tree, with the module around it. -/
theorem text_writeModule {e : Element} {below : Grove}
    (hfollows : (Grove.cons e below .nil).Follows writtenChildren)
    (hstored : (Grove.cons e below .nil).StoredIn es) (hnodup : (Grove.cons e below .nil).ids.Nodup)
    (hresolved : ∀ x ∈ (Grove.cons e below .nil).preorder, Resolved ctx x.properties)
    (name : String) : (writeModule ctx es e.id name).text =
      moduleText name (groveText (lookOf ctx) 2 (.cons e below .nil)) := by
  rw [writeModule, writeElement_eq, writeTasks_root hfollows hstored hnodup]
  simp only [Written.text_append, Written.text_ofText, text_writtenGrove hresolved, moduleText,
    moduleStart, String.append_assoc]

end DesignSync.Markup

import DesignSync.Proofs.Document.Nesting
import DesignSync.Proofs.Json.Figures
import DesignSync.Proofs.Json.Printed

/-!
Decoding and encoding lose nothing. Whatever text a document or a patch is decoded from, its JSON form
is printed as a text that is decoded as the same document or patch.
-/

namespace DesignSync

open Json

/-! ### Styles that were decoded -/

/-- The members of a decoded style that are no bindings have other keys. -/
theorem Style.unreserved_of_decoded {j : Json} {s : Style} (h : ofJson? j = some s) :
    s.Unreserved := by
  cases j with
  | object members =>
    simp only [ofJson?, Option.bind_eq_bind, Option.bind_eq_some_iff] at h
    obtain ⟨r, -, bindings, -, literals, hliterals, h⟩ := h
    cases h
    refine Option.eq_none_iff_forall_ne_some.2 fun l hl => ?_
    have hentry : ("binding", l) ∈ literals.entries := Dict.get?_eq_some_iff.1 hl
    obtain ⟨m, hm, hkey, -⟩ := exists_of_dict? hliterals _ hentry
    have hother := (List.mem_filter.1 hm).2
    rw [hkey] at hother
    cases hother
  | _ => cases h

theorem Properties.unreserved_of_decoded {j : Json} {p : Properties} (h : ofJson? j = some p) :
    p.style.Unreserved := by
  simp only [ofJson?, Option.bind_eq_bind, Option.bind_eq_some_iff] at h
  obtain ⟨r, -, style, hstyle, content, -, attributes, -, events, -, state, -, children, -, h⟩ := h
  cases h
  obtain rfl | ⟨k, hk⟩ := Record.exists_of_withDefault hstyle
  · rfl
  · exact Style.unreserved_of_decoded hk

theorem Element.unreserved_of_decoded {j : Json} {e : Element} (h : ofJson? j = some e) :
    e.properties.style.Unreserved := by
  simp only [ofJson?, Option.bind_eq_bind, Option.bind_eq_some_iff] at h
  obtain ⟨r, -, id, -, tag, -, kind, -, name, -, ownership, -, properties, hproperties,
    ref, -, h⟩ := h
  cases h
  obtain rfl | ⟨k, hk⟩ := Record.exists_of_withDefault hproperties
  · rfl
  · exact Properties.unreserved_of_decoded hk

theorem Snapshot.unreserved_of_decoded {j : Json} {x : Snapshot} (h : ofJson? j = some x) :
    ∀ e ∈ x.elements, e.properties.style.Unreserved := by
  simp only [ofJson?, Option.bind_eq_bind, Option.bind_eq_some_iff] at h
  obtain ⟨r, -, elements, helements, components, -, overrides, -, h⟩ := h
  cases h
  intro e he
  obtain ⟨k, hk⟩ := Record.exists_of_list helements e he
  exact Element.unreserved_of_decoded hk

/-! ### Patches -/

/-- Whether no literal of a patch is where the bindings are in the JSON form. -/
def PropertiesPatch.Unreserved (p : PropertiesPatch) : Prop :=
  ∀ s, p.style = some s → s.Unreserved

def ElementPatch.Unreserved (p : ElementPatch) : Prop :=
  ∀ q, p.properties = some q → q.Unreserved

theorem PropertiesPatch.ofJson?_toJson {p : PropertiesPatch} (h : p.Unreserved) :
    ofJson? p.toJson = some p := by
  obtain ⟨r, hr, hget⟩ := exists_record p.toJson Properties.fieldNames
    [("style", p.style.map Style.toJson), ("content", p.content.map Content.toJson),
      ("attributes", p.attributes.map (ofDict string)), ("events", p.events.map (ofDict string)),
      ("state", p.state.map (ofDict StateFlag.toJson)),
      ("children", p.children.map fun ids => array (ids.map string))]
    (by simp [toJson]) rfl (by decide)
  have hstrings : ∀ d : Dict String, dict? string? (ofDict string d) = some d :=
    fun d => dict?_ofDict fun s => (rfl : string? (string s) = some s)
  have hids : ∀ ids : List String, list? string? (array (ids.map string)) = some ids :=
    fun ids => list?_map fun id _ => (rfl : string? (string id) = some id)
  have hstyle : r.optional "style" Style.ofJson? = some p.style :=
    Record.optional_of_map (hget _ _ rfl) (fun _ h => by cases h)
      fun s hs => Style.ofJson?_toJson (h s hs)
  have hcontent : r.optional "content" Content.ofJson? = some p.content :=
    Record.optional_of_map (hget _ _ rfl) (fun _ h => by cases h) fun c _ => c.ofJson?_toJson
  have hattributes : r.optional "attributes" (dict? string?) = some p.attributes :=
    Record.optional_of_map (hget _ _ rfl) (fun _ h => by cases h) fun d _ => hstrings d
  have hevents : r.optional "events" (dict? string?) = some p.events :=
    Record.optional_of_map (hget _ _ rfl) (fun _ h => by cases h) fun d _ => hstrings d
  have hstate : r.optional "state" (dict? StateFlag.ofJson?) = some p.state :=
    Record.optional_of_map (hget _ _ rfl) (fun _ h => by cases h)
      fun _ _ => dict?_ofDict StateFlag.ofJson?_toJson
  have hchildren : r.optional "children" (list? string?) = some p.children :=
    Record.optional_of_map (hget _ _ rfl) (fun _ h => by cases h) fun ids _ => hids ids
  simp only [ofJson?, hr, hstyle, hcontent, hattributes, hevents, hstate, hchildren,
    Option.bind_eq_bind, Option.bind_some]
  rfl

theorem ElementPatch.ofJson?_toJson {p : ElementPatch} (h : p.Unreserved) :
    ofJson? p.toJson = some p := by
  obtain ⟨r, hr, hget⟩ := exists_record p.toJson
    ["tag", "kind", "name", "ownership", "instanceRef", "properties"]
    [("tag", p.tag.map string), ("kind", p.kind.map fun k => string k.name),
      ("name", p.name.map string), ("ownership", p.ownership.map Ownership.toJson),
      ("instanceRef", p.instanceRef.map string),
      ("properties", p.properties.map PropertiesPatch.toJson)]
    (by simp [toJson]) rfl (by decide)
  have htag : r.optional "tag" string? = some p.tag :=
    Record.optional_of_map (hget _ _ rfl) (fun _ h => by cases h) fun _ _ => rfl
  have hkind : r.optional "kind" (fun j => (name? j).bind ElementKind.ofName?) = some p.kind :=
    Record.optional_of_map (hget _ _ rfl) (fun _ h => by cases h) fun k _ => by simp [name?]
  have hname : r.optional "name" string? = some p.name :=
    Record.optional_of_map (hget _ _ rfl) (fun _ h => by cases h) fun _ _ => rfl
  have hownership : r.optional "ownership" Ownership.ofJson? = some p.ownership :=
    Record.optional_of_map (hget _ _ rfl) (fun _ h => by cases h) fun o _ => o.ofJson?_toJson
  have hinstance : r.optional "instanceRef" string? = some p.instanceRef :=
    Record.optional_of_map (hget _ _ rfl) (fun _ h => by cases h) fun _ _ => rfl
  have hproperties : r.optional "properties" PropertiesPatch.ofJson? = some p.properties :=
    Record.optional_of_map (hget _ _ rfl) (fun _ h => by cases h)
      fun q hq => PropertiesPatch.ofJson?_toJson (h q hq)
  simp only [ofJson?, hr, htag, hkind, hname, hownership, hinstance, hproperties,
    Option.bind_eq_bind, Option.bind_some]
  rfl

theorem PropertiesPatch.unreserved_of_decoded {j : Json} {p : PropertiesPatch}
    (h : ofJson? j = some p) : p.Unreserved := by
  simp only [ofJson?, Option.bind_eq_bind, Option.bind_eq_some_iff] at h
  obtain ⟨r, -, style, hstyle, content, -, attributes, -, events, -, state, -, children, -, h⟩ := h
  cases h
  rintro s rfl
  obtain ⟨k, hk⟩ := Record.exists_of_optional hstyle
  exact Style.unreserved_of_decoded hk

theorem ElementPatch.unreserved_of_decoded {j : Json} {p : ElementPatch} (h : ofJson? j = some p) :
    p.Unreserved := by
  simp only [ofJson?, Option.bind_eq_bind, Option.bind_eq_some_iff] at h
  obtain ⟨r, -, tag, -, kind, -, name, -, ownership, -, ref, -, properties, hproperties, h⟩ := h
  cases h
  rintro q rfl
  obtain ⟨k, hk⟩ := Record.exists_of_optional hproperties
  exact PropertiesPatch.unreserved_of_decoded hk

theorem ElementPatch.fit_toJson (p : ElementPatch) : p.toJson.Fit := by
  simp [toJson, PropertiesPatch.toJson, Ownership.toJson, or_imp, forall_and, -Prod.forall]

/-! ### Texts -/

/-- A patch from a text. -/
def ElementPatch.ofText? (text : String) : Option ElementPatch := Json.read text >>= ofJson?

/-- Whether each float in a value is what its text is read as. -/
def Json.FloatsReadBack (j : Json) : Prop := ∀ x, float x ∈ j.scalars → ReadsBack (float x)

/-- A value that is within the depth of a text is read from its texts. -/
theorem Json.Within.read_text {j : Json} (h : j.Within maxDepth) (hfit : j.Fit)
    (hfloats : j.FloatsReadBack) : read j.pretty = some j ∧ read j.compact = some j := by
  have hscalars : ∀ l ∈ j.scalars, ReadsBack l := by
    intro l hl
    cases l with
    | integer n => exact readsBack_integer (h.integers n hl)
    | float x => exact hfloats x hl
    | unfit => exact absurd hl hfit
    | _ => trivial
  exact ⟨read_pretty hscalars h.nesting, read_compact hscalars h.nesting⟩

/-- What was decoded from a text has a JSON form with nothing unfit in it, and is decoded again from
the text of this form, with one item a line as documents are saved or without white space, if the
numbers in it are read as they were written. -/
theorem decoded_again :
    (∀ (text : String) (x : Snapshot), Snapshot.ofText? text = some x → x.toJson.FloatsReadBack →
      x.toJson.Fit ∧ Snapshot.ofText? x.text = some x ∧
        Snapshot.ofText? x.toJson.compact = some x) ∧
    ∀ (text : String) (p : ElementPatch), ElementPatch.ofText? text = some p →
      p.toJson.FloatsReadBack →
      p.toJson.Fit ∧ ElementPatch.ofText? p.toJson.pretty = some p ∧
        ElementPatch.ofText? p.toJson.compact = some p := by
  constructor
  · intro text x h hfloats
    obtain ⟨j, hread, hdecoded⟩ := Option.bind_eq_some_iff.1 h
    have hcanonical := Snapshot.isCanonical_of_ofJson? hdecoded
    have hfit := Snapshot.fit_toJson hcanonical
    have hwithin := Snapshot.within_toJson hdecoded (within_of_read hread) (by decide)
    have hagain := (Snapshot.ofJson?_toJson_iff hcanonical).2 (Snapshot.unreserved_of_decoded hdecoded)
    obtain ⟨hpretty, hcompact⟩ := hwithin.read_text hfit hfloats
    refine ⟨hfit, ?_, ?_⟩
    · rw [Snapshot.ofText?, Snapshot.text, hpretty]
      exact hagain
    · rw [Snapshot.ofText?, hcompact]
      exact hagain
  · intro text p h hfloats
    obtain ⟨j, -, hdecoded⟩ := Option.bind_eq_some_iff.1 h
    have hwithin : p.toJson.Within maxDepth := (p.within_toJson 0).mono (by decide)
    have hagain := ElementPatch.ofJson?_toJson (ElementPatch.unreserved_of_decoded hdecoded)
    obtain ⟨hpretty, hcompact⟩ := hwithin.read_text p.fit_toJson hfloats
    refine ⟨p.fit_toJson, ?_, ?_⟩
    · rw [ElementPatch.ofText?, hpretty]
      exact hagain
    · rw [ElementPatch.ofText?, hcompact]
      exact hagain

/-! ### A document and a patch in unusual forms -/

private def floatsReadBack? (j : Json) : Bool :=
  j.scalars.all fun l =>
    match l with
    | float x => readsBackFloat x
    | _ => true

private theorem floatsReadBack_of_floatsReadBack? {j : Json} (h : floatsReadBack? j = true) :
    j.FloatsReadBack :=
  fun x hx => readsBack_of_readsBackFloat (List.all_eq_true.1 h (float x) hx)

/-- A document with an element as an array, an unknown member, and an override of both kinds. -/
def unusualText : String :=
  "\x7b\"elements\":[[\"a\",\"div\",\"element\",null,[\"screen\",\"S1\"]," ++
      "[\x7b\"width\":16.5\x7d]]]," ++
    "\"overrides\":[\x7b\"instanceId\":\"i\",\"propId\":\"p\"," ++
      "\"propValueId\":\"v\",\"value\":null\x7d]," ++
    "\"more\":[]\x7d"

/-- A patch with an absent name and a style. -/
def unusualPatch : String :=
  "\x7b\"name\":null,\"properties\":[\x7b\"width\":16\x7d],\"more\":1\x7d"

theorem decoded_again_unusual :
    (∃ x, Snapshot.ofText? unusualText = some x ∧ Snapshot.ofText? x.text = some x ∧
      Snapshot.ofText? x.toJson.compact = some x) ∧
    ∃ p, ElementPatch.ofText? unusualPatch = some p ∧
      ElementPatch.ofText? p.toJson.pretty = some p ∧
      ElementPatch.ofText? p.toJson.compact = some p := by
  have hdocument : (Snapshot.ofText? unusualText).any (floatsReadBack? ·.toJson) = true := by
    decide +kernel
  have hpatch : (ElementPatch.ofText? unusualPatch).any (floatsReadBack? ·.toJson) = true := by
    decide +kernel
  obtain ⟨x, hx, hxfloats⟩ := (Option.any_eq_true _ _).1 hdocument
  obtain ⟨p, hp, hpfloats⟩ := (Option.any_eq_true _ _).1 hpatch
  exact ⟨⟨x, hx, (decoded_again.1 _ x hx (floatsReadBack_of_floatsReadBack? hxfloats)).2⟩,
    p, hp, (decoded_again.2 _ p hp (floatsReadBack_of_floatsReadBack? hpfloats)).2⟩

end DesignSync

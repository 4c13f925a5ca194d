import DesignSync.Proofs.Document.Canonical

/-!
What is encoded can be decoded: every part of a document comes back from its JSON form, if its styles
have no literal in the place of their bindings and its values are canonical.
-/

namespace DesignSync

open Json

theorem Binding.ofJson?_toJson (b : Binding) : ofJson? b.toJson = some b := by
  obtain ⟨r, hr, hget⟩ := exists_record b.toJson ["refKind", "refId", "path", "fallback"]
    [("refKind", some (string b.kind.name)), ("refId", some (string b.refId)),
      ("path", b.path.map string), ("fallback", b.fallback.map string)]
    (by simp [toJson]) rfl (by decide)
  have hkind : r.required "refKind" (fun j => (name? j).bind RefKind.ofName?) = some b.kind :=
    Record.required_of_some (hget _ _ rfl) (by simp [name?])
  have hid : r.required "refId" string? = some b.refId :=
    Record.required_of_some (hget _ _ rfl) rfl
  have hpath : r.optional "path" string? = some b.path :=
    Record.optional_of_map (hget _ _ rfl) (fun _ h => by cases h) fun _ _ => rfl
  have hfallback : r.optional "fallback" string? = some b.fallback :=
    Record.optional_of_map (hget _ _ rfl) (fun _ h => by cases h) fun _ _ => rfl
  simp only [ofJson?, hr, hkind, hid, hpath, hfallback, Option.bind_eq_bind, Option.bind_some]
  rfl

theorem Literal.ofJson?_toJson (l : Literal) : ofJson? l.toJson = some l := by
  cases l <;> rfl

/-! ### Styles -/

namespace Style

/-- Whether no literal is where the bindings are in the JSON form. -/
def Unreserved (s : Style) : Prop := s.literal? "binding" = none

/-- The literals of a style in its JSON form. -/
def literalMembers (s : Style) : List (String × Json) :=
  s.literals.entries.map fun e => (e.1, e.2.toJson)

theorem mem_literalMembers {s : Style} {m : String × Json} :
    m ∈ s.literalMembers ↔ ∃ l, s.literal? m.1 = some l ∧ m.2 = l.toJson := by
  simp only [literalMembers, literal?, List.mem_map, Dict.get?_eq_some_iff, Prod.exists]
  constructor
  · rintro ⟨key, l, hmem, rfl⟩
    exact ⟨l, hmem, rfl⟩
  · rintro ⟨l, hmem, heq⟩
    exact ⟨m.1, l, hmem, heq ▸ rfl⟩

theorem toJson_eq (s : Style) : s.toJson =
    object (member? "binding" (ofDict Binding.toJson) s.bindings ++ s.literalMembers) := rfl

/-- A style comes back, if none of its literals is in the place of the bindings. -/
theorem ofJson?_toJson {s : Style} (h : s.Unreserved) : ofJson? s.toJson = some s := by
  have hne : ∀ m ∈ s.literalMembers, m.1 ≠ "binding" := by
    intro m hm heq
    obtain ⟨l, hl, -⟩ := mem_literalMembers.1 hm
    rw [heq, h] at hl
    cases hl
  have hnone : s.literalMembers.filter (fun m => ["binding"].contains m.1) = [] :=
    List.filter_eq_nil_iff.2 fun m hm => by simpa using hne m hm
  have hall : s.literalMembers.filter (fun m => m.1 != "binding") = s.literalMembers :=
    List.filter_eq_self.2 fun m hm => by simpa using hne m hm
  rw [toJson_eq]
  generalize hfirst : member? "binding" (ofDict Binding.toJson) s.bindings = first
  have hknown : (first ++ s.literalMembers).filter (fun m => ["binding"].contains m.1) = first := by
    rw [List.filter_append, hnone, List.append_nil, ← hfirst]
    cases s.bindings <;> rfl
  have hothers : (first ++ s.literalMembers).filter (fun m => m.1 != "binding") =
      s.literalMembers := by
    rw [List.filter_append, hall, ← hfirst]
    cases s.bindings <;> rfl
  have hnodup : (first.map Prod.fst).Nodup := by
    rw [← hfirst]
    cases s.bindings <;> simp [member?]
  have hget : (Record.mk false first).get? "binding" = s.bindings.map (ofDict Binding.toJson) := by
    rw [← hfirst]
    cases s.bindings <;> rfl
  have hbindings : (Record.mk false first).optional "binding" (dict? Binding.ofJson?) =
      some s.bindings :=
    Record.optional_of_map hget (fun _ h => by cases h) fun d _ => dict?_ofDict Binding.ofJson?_toJson
  have hliterals : dict? Literal.ofJson? (object s.literalMembers) = some s.literals :=
    dict?_ofDict Literal.ofJson?_toJson
  simp only [ofJson?, ofMembers?, hknown, hothers, if_pos hnodup, hbindings, hliterals,
    Option.bind_eq_bind, Option.bind_some]
  rfl

/-- A style does not come back, if one of its literals is in the place of the bindings: beside them
    the member is there twice, and alone it is no map of bindings. -/
theorem ofJson?_toJson_of_reserved {s : Style} (h : ¬ s.Unreserved) : ofJson? s.toJson = none := by
  obtain ⟨l, hl⟩ := Option.ne_none_iff_exists'.1 h
  have hmem : ("binding", l.toJson) ∈ s.literalMembers.filter (fun m => ["binding"].contains m.1) :=
    List.mem_filter.2 ⟨mem_literalMembers.2 ⟨l, hl, rfl⟩, rfl⟩
  have hrefused : ∀ l : Literal, nullable? (dict? Binding.ofJson?) l.toJson = none := by
    intro l
    cases l <;> rfl
  rw [toJson_eq, ofJson?]
  obtain ⟨bindings, literals⟩ := s
  cases bindings with
  | none =>
    rw [member?, List.nil_append, ofMembers?]
    split
    · obtain ⟨j, hj⟩ := Option.isSome_iff_exists.1 (List.lookup_isSome_iff.2
        ⟨_, hmem, beq_self_eq_true "binding"⟩)
      obtain ⟨front, behind, hsplit, -⟩ := List.lookup_eq_some_iff.1 hj
      have hknown := hsplit ▸ List.mem_append_right front List.mem_cons_self
      obtain ⟨l', -, heq⟩ := mem_literalMembers.1 (List.mem_filter.1 hknown).1
      have hget : (Record.mk false ((literalMembers ⟨none, literals⟩).filter
          fun m => ["binding"].contains m.1)).get? "binding" = some l'.toJson := by
        rw [Record.get?, hj]
        exact congrArg some heq
      simp only [Option.bind_eq_bind, Option.bind_some, Record.optional, Record.withDefault, hget,
        hrefused]
      rfl
    · rfl
  | some d =>
    have htwice : ¬ ((List.filter (fun m => ["binding"].contains m.1)
        (("binding", ofDict Binding.toJson d) :: literalMembers ⟨some d, literals⟩)).map
          Prod.fst).Nodup := by
      intro hnodup
      exact (List.nodup_cons.1 hnodup).1 (List.mem_map.2 ⟨_, hmem, rfl⟩)
    simp only [member?, List.singleton_append, ofMembers?, htwice, if_false]
    rfl

end Style

/-! ### Elements -/

theorem Content.ofJson?_toJson (c : Content) : ofJson? c.toJson = some c := by
  obtain ⟨r, hr, hget⟩ := exists_record c.toJson ["text", "binding", "expression"]
    [("text", c.text.map string), ("binding", c.binding.map Binding.toJson),
      ("expression", c.expression.map string)]
    (by simp [toJson]) rfl (by decide)
  have htext : r.optional "text" string? = some c.text :=
    Record.optional_of_map (hget _ _ rfl) (fun _ h => by cases h) fun _ _ => rfl
  have hbinding : r.optional "binding" Binding.ofJson? = some c.binding :=
    Record.optional_of_map (hget _ _ rfl) (fun _ h => by cases h) fun b _ => b.ofJson?_toJson
  have hexpression : r.optional "expression" string? = some c.expression :=
    Record.optional_of_map (hget _ _ rfl) (fun _ h => by cases h) fun _ _ => rfl
  simp only [ofJson?, hr, htext, hbinding, hexpression, Option.bind_eq_bind, Option.bind_some]
  rfl

theorem StateFlag.ofJson?_toJson (f : StateFlag) : ofJson? f.toJson = some f := by
  cases f <;> rfl

theorem Ownership.ofJson?_toJson (o : Ownership) : ofJson? o.toJson = some o := by
  obtain ⟨r, hr, hget⟩ := exists_record o.toJson ["type", "ownerId"]
    [("type", some (string o.kind.name)), ("ownerId", some (string o.ownerId))]
    (by simp [toJson]) rfl (by decide)
  have hkind : r.required "type" (fun j => (name? j).bind OwnerKind.ofName?) = some o.kind :=
    Record.required_of_some (hget _ _ rfl) (by simp [name?])
  have hid : r.required "ownerId" string? = some o.ownerId :=
    Record.required_of_some (hget _ _ rfl) rfl
  simp only [ofJson?, hr, hkind, hid, Option.bind_eq_bind, Option.bind_some]
  rfl

/-- Whether properties come back is up to their style. -/
theorem Properties.ofJson?_toJson (p : Properties) :
    ofJson? p.toJson = (Style.ofJson? p.style.toJson).map fun style => { p with style := style } := by
  obtain ⟨r, hr, hget⟩ := exists_record p.toJson fieldNames
    [("style", some p.style.toJson), ("content", some p.content.toJson),
      ("attributes", some (ofDict string p.attributes)), ("events", some (ofDict string p.events)),
      ("state", some (ofDict StateFlag.toJson p.state)),
      ("children", some (array (p.children.map string)))]
    (by simp [toJson]) rfl (by decide)
  have hstrings : ∀ d : Dict String, dict? string? (ofDict string d) = some d :=
    fun d => dict?_ofDict fun s => (rfl : string? (string s) = some s)
  have hids : list? string? (array (p.children.map string)) = some p.children :=
    list?_map fun id _ => (rfl : string? (string id) = some id)
  have hstyle : r.withDefault "style" Style.empty Style.ofJson? = Style.ofJson? p.style.toJson :=
    Record.withDefault_of_get (hget _ _ rfl) _
  have hcontent := Record.withDefault_of_some (hget "content" _ rfl) p.content.ofJson?_toJson
    Content.empty
  have hattributes := Record.withDefault_of_some (hget "attributes" _ rfl) (hstrings _) Dict.empty
  have hevents := Record.withDefault_of_some (hget "events" _ rfl) (hstrings _) Dict.empty
  have hstate : r.withDefault "state" Dict.empty (dict? StateFlag.ofJson?) = some p.state :=
    Record.withDefault_of_some (hget _ _ rfl) (dict?_ofDict StateFlag.ofJson?_toJson) _
  have hchildren := Record.withDefault_of_some (hget "children" _ rfl) hids []
  simp only [ofJson?, hr, hstyle, hcontent, hattributes, hevents, hstate, hchildren,
    Option.bind_eq_bind, Option.bind_some]
  cases Style.ofJson? p.style.toJson <;> rfl

/-- Whether an element comes back is up to its style. -/
theorem Element.ofJson?_toJson (e : Element) :
    ofJson? e.toJson = (Style.ofJson? e.properties.style.toJson).map fun style =>
      { e with properties := { e.properties with style := style } } := by
  obtain ⟨r, hr, hget⟩ := exists_record e.toJson
    ["id", "tag", "kind", "name", "ownership", "properties", "instanceRef"]
    [("id", some (string e.id)), ("tag", some (string e.tag)), ("kind", some (string e.kind.name)),
      ("name", e.name.map string), ("ownership", some e.ownership.toJson),
      ("properties", some e.properties.toJson), ("instanceRef", e.instanceRef.map string)]
    (by simp [toJson]) rfl (by decide)
  have hid : r.required "id" string? = some e.id := Record.required_of_some (hget _ _ rfl) rfl
  have htag : r.required "tag" string? = some e.tag := Record.required_of_some (hget _ _ rfl) rfl
  have hkind : r.withDefault "kind" .element (fun j => (name? j).bind ElementKind.ofName?) =
      some e.kind := Record.withDefault_of_some (hget _ _ rfl) (by simp [name?]) _
  have hname : r.optional "name" string? = some e.name :=
    Record.optional_of_map (hget _ _ rfl) (fun _ h => by cases h) fun _ _ => rfl
  have hownership := Record.required_of_some (hget "ownership" _ rfl) e.ownership.ofJson?_toJson
  have hproperties : r.withDefault "properties" Properties.empty Properties.ofJson? = _ :=
    (Record.withDefault_of_get (hget _ _ rfl) _).trans e.properties.ofJson?_toJson
  have hinstance : r.optional "instanceRef" string? = some e.instanceRef :=
    Record.optional_of_map (hget _ _ rfl) (fun _ h => by cases h) fun _ _ => rfl
  simp only [ofJson?, hr, hid, htag, hkind, hname, hownership, hproperties, hinstance,
    Option.bind_eq_bind, Option.bind_some]
  cases Style.ofJson? e.properties.style.toJson <;> rfl

theorem Element.ofJson?_toJson_of_unreserved {e : Element} (h : e.properties.style.Unreserved) :
    ofJson? e.toJson = some e := by
  rw [ofJson?_toJson, Style.ofJson?_toJson h]
  rfl

theorem Element.unreserved_of_ofJson? {e e' : Element} (h : ofJson? e.toJson = some e') :
    e.properties.style.Unreserved := by
  by_contra hreserved
  rw [ofJson?_toJson, Style.ofJson?_toJson_of_reserved hreserved] at h
  cases h

/-! ### Components -/

theorem PropValue.ofJson?_toJson {v : PropValue} (h : v.IsCanonical) : ofJson? v.toJson = some v := by
  obtain ⟨r, hr, hget⟩ := exists_record v.toJson ["id", "name", "value", "isDefault"]
    [("id", some (string v.id)), ("name", v.name.map string), ("value", some v.value),
      ("isDefault", some (.bool v.isDefault))]
    (by simp [toJson]) rfl (by decide)
  have hid : r.required "id" string? = some v.id := Record.required_of_some (hget _ _ rfl) rfl
  have hname : r.optional "name" string? = some v.name :=
    Record.optional_of_map (hget _ _ rfl) (fun _ h => by cases h) fun _ _ => rfl
  have hvalue : r.required "value" canonical? = some v.value :=
    Record.required_of_some (hget _ _ rfl) h
  have hbool : bool? (.bool v.isDefault) = some v.isDefault := rfl
  have hdefault := Record.withDefault_of_some (hget "isDefault" _ rfl) hbool false
  simp only [ofJson?, hr, hid, hname, hvalue, hdefault, Option.bind_eq_bind, Option.bind_some]
  rfl

theorem ComponentProp.ofJson?_toJson {p : ComponentProp} (h : p.IsCanonical) :
    ofJson? p.toJson = some p := by
  obtain ⟨r, hr, hget⟩ := exists_record p.toJson ["id", "name", "type", "defaultValue", "values"]
    [("id", some (string p.id)), ("name", some (string p.name)), ("type", some (string p.type)),
      ("defaultValue", some p.defaultValue),
      ("values", some (array (p.values.map PropValue.toJson)))]
    (by simp [toJson]) rfl (by decide)
  have hid : r.required "id" string? = some p.id := Record.required_of_some (hget _ _ rfl) rfl
  have hname : r.required "name" string? = some p.name := Record.required_of_some (hget _ _ rfl) rfl
  have htype : r.required "type" string? = some p.type := Record.required_of_some (hget _ _ rfl) rfl
  have hdefault : r.withDefault "defaultValue" .null canonical? = some p.defaultValue :=
    Record.withDefault_of_some (hget _ _ rfl) h.defaultValue _
  have hvalues : r.withDefault "values" [] (list? PropValue.ofJson?) = some p.values :=
    Record.withDefault_of_some (hget _ _ rfl)
      (list?_map fun v hv => PropValue.ofJson?_toJson (h.values v hv)) _
  simp only [ofJson?, hr, hid, hname, htype, hdefault, hvalues, Option.bind_eq_bind,
    Option.bind_some]
  rfl

theorem Component.ofJson?_toJson {c : Component} (h : c.IsCanonical) : ofJson? c.toJson = some c := by
  obtain ⟨r, hr, hget⟩ := exists_record c.toJson ["id", "name", "props"]
    [("id", some (string c.id)), ("name", some (string c.name)),
      ("props", some (array (c.props.map ComponentProp.toJson)))]
    (by simp [toJson]) rfl (by decide)
  have hid : r.required "id" string? = some c.id := Record.required_of_some (hget _ _ rfl) rfl
  have hname : r.required "name" string? = some c.name := Record.required_of_some (hget _ _ rfl) rfl
  have hprops : r.withDefault "props" [] (list? ComponentProp.ofJson?) = some c.props :=
    Record.withDefault_of_some (hget _ _ rfl)
      (list?_map fun p hp => ComponentProp.ofJson?_toJson (h p hp)) _
  simp only [ofJson?, hr, hid, hname, hprops, Option.bind_eq_bind, Option.bind_some]
  rfl

theorem Override.ofMembers?_of_canonical {o : Override} (h : o.IsCanonical) (instanceId propId : String) :
    ofMembers? [("instanceId", string instanceId), ("propId", string propId), o.member] = some o := by
  cases o with
  | direct value =>
    have hvalue : canonical? value = some value := h
    simp only [ofMembers?, member, canonicalMembers?, canonical?, hvalue, Option.bind_eq_bind,
      Option.bind_some]
    rfl
  | named valueId => rfl

theorem InstanceOverride.ofJson?_toJson {o : InstanceOverride} (h : o.value.IsCanonical) :
    ofJson? o.toJson = some o := by
  obtain ⟨instanceId, propId, value⟩ := o
  have hvalue := Override.ofMembers?_of_canonical h instanceId propId
  simp only [toJson, ofJson?, hvalue, Option.bind_eq_bind, Option.bind_some]
  cases value <;> rfl

/-! ### Documents -/

/-- A document comes back just when no style has a literal in the place of its bindings. -/
theorem Snapshot.ofJson?_toJson_iff {x : Snapshot} (h : x.IsCanonical) :
    ofJson? x.toJson = some x ↔ ∀ e ∈ x.elements, e.properties.style.Unreserved := by
  obtain ⟨r, hr, hget⟩ := exists_record x.toJson ["elements", "components", "overrides"]
    [("elements", some (array (x.elements.map Element.toJson))),
      ("components", some (array (x.components.map Component.toJson))),
      ("overrides", some (array (x.overrides.map InstanceOverride.toJson)))]
    (by simp [toJson]) rfl (by decide)
  have helements : r.withDefault "elements" [] (list? Element.ofJson?) =
      list? Element.ofJson? (array (x.elements.map Element.toJson)) :=
    Record.withDefault_of_get (hget _ _ rfl) _
  have hcomponents : r.withDefault "components" [] (list? Component.ofJson?) = some x.components :=
    Record.withDefault_of_some (hget _ _ rfl)
      (list?_map fun c hc => Component.ofJson?_toJson (h.components c hc)) _
  have hoverrides : r.withDefault "overrides" [] (list? InstanceOverride.ofJson?) =
      some x.overrides :=
    Record.withDefault_of_some (hget _ _ rfl)
      (list?_map fun o ho => InstanceOverride.ofJson?_toJson (h.overrides o ho)) _
  have hall : ofJson? x.toJson =
      (list? Element.ofJson? (array (x.elements.map Element.toJson))).map fun elements =>
        { x with elements := elements } := by
    simp only [ofJson?, hr, helements, hcomponents, hoverrides, Option.bind_eq_bind,
      Option.bind_some]
    cases list? Element.ofJson? (array (x.elements.map Element.toJson)) <;> rfl
  rw [hall]
  constructor
  · intro hback e he
    obtain ⟨es, hes, -⟩ := Option.map_eq_some_iff.1 hback
    obtain ⟨e', -, he'⟩ := (exists_of_mapM hes).1 e.toJson (List.mem_map_of_mem he)
    exact Element.unreserved_of_ofJson? he'
  · intro hstyles
    rw [list?_map fun e he => Element.ofJson?_toJson_of_unreserved (hstyles e he)]
    rfl

end DesignSync

import DesignSync.Proofs.Document.Revision
import DesignSync.Proofs.Document.Values

/-!
Loading what was saved. A saved document has each element, component and override once, and in the
form in which a store keeps it, so that loading puts one after the other in its place and never
merges two of them. The main statement says that the loaded store is the one that was saved, up to
the order in which an owner lists its elements and to instances without overrides, and that a
document which was loaded and saved once stays as it is from then on.
-/

namespace DesignSync

/-! ### What loading leaves as it is -/

private theorem PropValue.oneDefault_eq_self {seen : Bool} {vs : List PropValue}
    (h : (vs.filter (·.isDefault)).length ≤ if seen then 0 else 1) : oneDefault seen vs = vs := by
  induction vs generalizing seen with
  | nil => rfl
  | cons v vs ih =>
    obtain ⟨id, name, value, isDefault⟩ := v
    cases isDefault with
    | false =>
      have hrest : oneDefault seen vs = vs := by
        apply ih
        simpa using h
      simp [oneDefault, hrest]
    | true =>
      -- a default leaves no room for another one, and there is none before it
      cases seen with
      | true => simp at h
      | false =>
        have hrest : oneDefault true vs = vs := by
          apply ih
          simpa using h
        simp [oneDefault, hrest]

theorem Component.SingleDefaults.normalize_eq {c : Component} (h : c.SingleDefaults) :
    c.normalize = c := by
  have hprop : ∀ p ∈ c.props, p.normalize = p := by
    intro p hp
    rw [ComponentProp.normalize, PropValue.oneDefault_eq_self (by simpa using h p hp)]
  rw [Component.normalize, List.map_congr_left hprop, List.map_id']

/-- The entries of a dictionary, in any order and each once, build it. -/
theorem Dict.ofList_eq_of_mem_iff {α : Type} {d : Dict α} {es : List (String × α)}
    (hes : (es.map Prod.fst).Nodup) (hmem : ∀ k v, (k, v) ∈ es ↔ d.get? k = some v) :
    ofList es = d := by
  apply ext_get?
  intro k
  cases hk : d.get? k with
  | some v => exact get?_ofList_of_mem hes ((hmem k v).2 hk)
  | none =>
    rw [get?_ofList, List.lookup_eq_none_iff]
    intro x hx
    rw [List.mem_reverse] at hx
    have hx' := (hmem x.1 x.2).1 hx
    rw [bne_iff_ne]
    rintro rfl
    rw [hk] at hx'
    cases hx'

namespace Store

variable {s s' : Store}

/-! ### Components -/

/-- Whether each component is stored under its own id. -/
def NamesComponents (s : Store) : Prop := ∀ id c, s.component? id = some c → c.id = id

namespace NamesComponents

theorem of_components (h : s.NamesComponents) (hsame : s'.components = s.components) :
    s'.NamesComponents := by
  intro id c hc
  rw [component?, hsame] at hc
  exact h id c hc

theorem addComponent (h : s.NamesComponents) (c : Component) :
    (s.addComponent c).1.NamesComponents := by
  unfold Store.addComponent
  simp only
  split
  · exact h
  · intro id c' hc'
    simp only [component?, Dict.get?_insert] at hc'
    split at hc'
    · next hid =>
      cases hc'
      exact hid.symm
    · exact h id c' hc'

theorem perform (h : s.NamesComponents) (op : Operation) : (s.perform op).NamesComponents := by
  cases op with
  | addElement e => exact h.of_components (s.sameValues_addElement e).components
  | addElements es => exact h.of_components (s.sameValues_addElements es).components
  | replaceElement e => exact h.of_components (s.sameValues_replaceElement e).components
  | setElements es => exact h.of_components (s.sameValues_setElements es).components
  | recordPaths ts => exact h.of_components (s.sameValues_recordPaths ts).components
  | removeElement id =>
    apply h.of_components
    simp only [Store.perform, Store.removeElement]
    split <;> rfl
  | addComponent c => exact h.addComponent c
  | removeComponent id =>
    simp only [Store.perform, Store.removeComponent]
    split
    · intro other c hc
      simp only [component?, Dict.get?_erase] at hc
      split at hc
      · cases hc
      · exact h other c hc
    · exact h
  | setPropValues componentId propId values =>
    simp only [Store.perform, Store.setPropValues]
    split
    · exact h
    · split
      · exact h
      · exact h.addComponent _
  | setOverride instanceId propId value =>
    apply h.of_components
    simp only [Store.perform, Store.setOverride]
    split <;> rfl
  | clearOverride instanceId propId =>
    apply h.of_components
    simp only [Store.perform, Store.clearOverride]
    split
    · rfl
    · split <;> rfl
  -- all others change one element and reconcile it
  | _ => exact h.of_components (s.sameValues_transact _ _).components

theorem run (ops : List Operation) : (Store.run ops).NamesComponents :=
  List.foldlRecOn ops _ (fun _ _ hc => by cases hc) fun _ hs op _ => hs.perform op

end NamesComponents

/-! ### Putting in what is new -/

theorem addComponent_of_new {c : Component} (hc : c.SingleDefaults)
    (hnew : s.component? c.id = none) :
    (s.addComponent c).1 =
      { s with components := s.components.insert c.id c, revision := s.revision + 1 } := by
  have hother : (s.component? c.id == some c) = false := by
    rw [hnew]
    rfl
  simp only [addComponent, hc.normalize_eq, hother, Bool.false_eq_true, if_false]

theorem addElement_of_new {e : Element} (he : e.Exclusive) (hnew : s.element? e.id = none) :
    (s.addElement e).1 =
      { s with
        table := s.table.insert e.id e
        ids := s.ids ++ [e.id]
        owners := s.owners.add e.ownership e.id
        revision := s.revision + 1 } := by
  have habsent : s.contains e.id = false := by simp [contains, hnew]
  simp only [addElement, habsent, he.reconcile_eq, commit, hnew, Bool.false_eq_true, if_false]

theorem foldl_addComponent {cs : List Component} (hcs : ∀ c ∈ cs, c.SingleDefaults)
    (hids : (cs.map (·.id)).Nodup) (hnew : ∀ c ∈ cs, s.component? c.id = none) :
    cs.foldl (fun s c => (s.addComponent c).1) s =
      { s with
        components := (cs.map fun c => (c.id, c)).foldl (fun d x => d.insert x.1 x.2) s.components
        revision := s.revision + cs.length } := by
  induction cs generalizing s with
  | nil => rfl
  | cons c cs ih =>
    obtain ⟨hc, hcs⟩ := List.forall_mem_cons.1 hcs
    obtain ⟨hout, hids⟩ := List.nodup_cons.1 hids
    obtain ⟨hfree, hnew⟩ := List.forall_mem_cons.1 hnew
    rw [List.foldl_cons, addComponent_of_new hc hfree, ih hcs hids]
    · simp only [List.map_cons, List.foldl_cons, List.length_cons]
      congr 1
      omega
    · intro c' hc'
      have hne : c'.id ≠ c.id := fun heq => hout (List.mem_map.2 ⟨c', hc', heq⟩)
      rw [component?, Dict.get?_insert_of_ne _ _ hne]
      exact hnew c' hc'

theorem foldl_addElement {es : List Element} (hes : ∀ e ∈ es, e.Exclusive)
    (hids : (es.map (·.id)).Nodup) (hnew : ∀ e ∈ es, s.element? e.id = none) :
    es.foldl (fun s e => (s.addElement e).1) s =
      { s with
        table := (es.map fun e => (e.id, e)).foldl (fun d x => d.insert x.1 x.2) s.table
        ids := s.ids ++ es.map (·.id)
        owners := es.foldl (fun ix e => ix.add e.ownership e.id) s.owners
        revision := s.revision + es.length } := by
  induction es generalizing s with
  | nil => simp
  | cons e es ih =>
    obtain ⟨he, hes⟩ := List.forall_mem_cons.1 hes
    obtain ⟨hout, hids⟩ := List.nodup_cons.1 hids
    obtain ⟨hfree, hnew⟩ := List.forall_mem_cons.1 hnew
    rw [List.foldl_cons, addElement_of_new he hfree, ih hes hids]
    · simp only [List.map_cons, List.foldl_cons, List.length_cons, List.append_assoc,
        List.singleton_append]
      congr 1
      omega
    · intro e' he'
      have hne : e'.id ≠ e.id := fun heq => hout (List.mem_map.2 ⟨e', he', heq⟩)
      rw [element?, Dict.get?_insert_of_ne _ _ hne]
      exact hnew e' he'

/-! ### Overrides -/

/-- Whether every instance with an entry has an override. -/
def SlotsFilled (s : Store) : Prop :=
  ∀ id slot, s.instanceOverrides? id = some slot → slot.isEmpty = false

/-- The overrides without the instances that have none left. -/
def filledSlots (s : Store) : Dict (Dict Override) := s.overrides.filter fun _ slot => !slot.isEmpty

private theorem get?_getD_instanceOverrides? (s : Store) (instanceId propId : String) :
    ((s.instanceOverrides? instanceId).getD Dict.empty).get? propId =
      s.override? instanceId propId := by
  unfold override?
  cases s.instanceOverrides? instanceId <;> rfl

/-- Single overrides tell all that is in the slots. -/
theorem SlotsFilled.overrides_eq (h : s'.SlotsFilled)
    (hsame : ∀ instanceId propId, s'.override? instanceId propId = s.override? instanceId propId) :
    s'.overrides = s.filledSlots := by
  -- an entry is the slot it holds, unless this is empty
  have hentry : ∀ entry : Option (Dict Override), entry.filter (fun slot => !slot.isEmpty) =
      if (entry.getD Dict.empty).isEmpty then none else some (entry.getD Dict.empty) := by
    intro entry
    cases entry with
    | none => rfl
    | some slot => cases hslot : slot.isEmpty <;> simp [Option.filter, hslot]
  apply Dict.ext_get?
  intro id
  have hslot : (s'.instanceOverrides? id).getD Dict.empty =
      (s.instanceOverrides? id).getD Dict.empty := by
    apply Dict.ext_get?
    intro propId
    rw [get?_getD_instanceOverrides?, get?_getD_instanceOverrides?, hsame]
  have hfilled : (s'.instanceOverrides? id).filter (fun slot => !slot.isEmpty) =
      s'.instanceOverrides? id := by
    cases hid : s'.instanceOverrides? id with
    | none => rfl
    | some slot => simp [Option.filter, h id slot hid]
  rw [filledSlots, Dict.get?_filter]
  change s'.instanceOverrides? id = (s.instanceOverrides? id).filter _
  rw [← hfilled, hentry, hentry, hslot]

/-- What setting overrides where none are yet does. -/
structure OverridesSet (os : List InstanceOverride) (s s' : Store) : Prop where
  override? : ∀ instanceId propId value, s'.override? instanceId propId = some value ↔
    s.override? instanceId propId = some value ∨ ⟨instanceId, propId, value⟩ ∈ os
  filled : s.SlotsFilled → s'.SlotsFilled
  table : s'.table = s.table
  ids : s'.ids = s.ids
  components : s'.components = s.components

theorem overridesSet_setOverride {o : InstanceOverride}
    (hnew : s.override? o.instanceId o.propId = none) :
    OverridesSet [o] s (s.setOverride o.instanceId o.propId o.value).1 := by
  obtain ⟨oi, op, ov⟩ := o
  have hother : (((s.instanceOverrides? oi).getD Dict.empty).get? op == some ov) = false := by
    rw [get?_getD_instanceOverrides?, hnew]
    rfl
  simp only [setOverride, hother, Bool.false_eq_true, if_false]
  refine ⟨?_, ?_, rfl, rfl, rfl⟩
  · intro instanceId propId value
    simp only [List.mem_singleton, InstanceOverride.mk.injEq]
    rw [override?, instanceOverrides?, Dict.get?_insert]
    by_cases hid : instanceId = oi
    · subst hid
      rw [if_pos rfl, Option.bind_some, Dict.get?_insert, get?_getD_instanceOverrides?]
      by_cases hprop : propId = op
      · subst hprop
        simp [hnew, eq_comm]
      · simp [hprop]
    · rw [if_neg hid]
      simp [hid, override?, instanceOverrides?]
  · intro hfilled id slot hslot
    rw [instanceOverrides?, Dict.get?_insert] at hslot
    split at hslot
    · cases hslot
      exact Dict.isEmpty_insert _ _ _
    · exact hfilled id slot hslot

theorem overridesSet_foldl {os : List InstanceOverride}
    (hkeys : (os.map fun o => (o.instanceId, o.propId)).Nodup)
    (hnew : ∀ o ∈ os, s.override? o.instanceId o.propId = none) :
    OverridesSet os s (os.foldl (fun s o => (s.setOverride o.instanceId o.propId o.value).1) s) := by
  induction os generalizing s with
  | nil => exact ⟨by simp, fun h => h, rfl, rfl, rfl⟩
  | cons o os ih =>
    obtain ⟨hout, hkeys⟩ := List.nodup_cons.1 hkeys
    obtain ⟨hfree, hnew⟩ := List.forall_mem_cons.1 hnew
    have hstep := overridesSet_setOverride hfree
    have hstill : ∀ o' ∈ os,
        (s.setOverride o.instanceId o.propId o.value).1.override? o'.instanceId o'.propId =
          none := by
      intro o' ho'
      rw [Option.eq_none_iff_forall_ne_some]
      intro value hvalue
      rcases (hstep.override? _ _ _).1 hvalue with hold | hsame
      · rw [hnew o' ho'] at hold
        cases hold
      · rw [List.mem_singleton] at hsame
        exact hout (List.mem_map.2 ⟨o', ho', by rw [← hsame]⟩)
    have hrest := ih hkeys hstill
    refine ⟨?_, fun h => hrest.filled (hstep.filled h), hrest.table.trans hstep.table,
      hrest.ids.trans hstep.ids, hrest.components.trans hstep.components⟩
    intro instanceId propId value
    rw [List.foldl_cons, hrest.override?, hstep.override?, List.mem_singleton, List.mem_cons,
      or_assoc]

/-! ### Saved documents -/

theorem nodup_snapshot_components (h : s.NamesComponents) :
    (s.snapshot.components.map (·.id)).Nodup := by
  have hids : s.snapshot.components.map (·.id) = s.components.keys := by
    rw [snapshot, Dict.values, Dict.keys, List.map_map]
    apply List.map_congr_left
    intro x hx
    exact h x.1 x.2 (Dict.get?_eq_some_iff.2 hx)
  rw [hids]
  exact s.components.nodup_keys

theorem nodup_snapshot_overrides (s : Store) :
    (s.snapshot.overrides.map fun o => (o.instanceId, o.propId)).Nodup := by
  simp only [snapshot, List.map_flatMap, List.map_map, Function.comp_def]
  rw [List.nodup_flatMap]
  constructor
  · -- the props of one instance are the keys of its slot
    intro x _
    have hprops := x.2.nodup_keys.map fun a b (heq : (x.1, a) = (x.1, b)) => (Prod.mk.inj heq).2
    rwa [Dict.keys, List.map_map] at hprops
  · -- two instances have no pair in common
    refine (List.pairwise_map.1 s.overrides.nodup_keys).imp ?_
    intro x y hne a hx hy
    obtain ⟨_, -, rfl⟩ := List.mem_map.1 hx
    obtain ⟨_, -, heq⟩ := List.mem_map.1 hy
    exact hne (congrArg Prod.fst heq).symm

theorem snapshot_overrides_eq (s : Store) :
    s.snapshot.overrides = s.filledSlots.entries.flatMap fun x =>
      x.2.entries.map fun y => ⟨x.1, y.1, y.2⟩ := by
  change s.overrides.entries.flatMap _ = (s.overrides.entries.filter _).flatMap _
  induction s.overrides.entries with
  | nil => rfl
  | cons x xs ih =>
    rw [List.flatMap_cons, ih]
    cases hslot : x.2.isEmpty with
    | false =>
      rw [List.filter_cons_of_pos (by simp [hslot])]
      rfl
    | true =>
      have hnil : x.2.entries = [] := List.isEmpty_iff.1 hslot
      rw [List.filter_cons_of_neg (by simp [hslot])]
      simp [hnil]

/-! ### Loading what was saved -/

/-- A store that was loaded from what another one has saved. -/
structure Reloaded (s s' : Store) : Prop where
  ids : s'.ids = s.ids
  table : s'.table = s.table
  components : s'.components = s.components
  overrides : s'.overrides = s.filledSlots
  owned : ∀ owner, (s'.owners.ownedBy owner).Perm (s.owners.ownedBy owner)

theorem Reloaded.snapshot_eq (h : Reloaded s s') : s'.snapshot = s.snapshot := by
  have hfind : s'.element? = s.element? := by
    funext id
    rw [element?, element?, h.table]
  have helements : s'.elements = s.elements := by
    rw [elements, elements, h.ids, hfind]
  have hslots : s'.filledSlots = s'.overrides := by
    rw [filledSlots, h.overrides]
    exact Dict.filter_filter_of_imp fun _ _ hslot => hslot
  have hoverrides : s'.snapshot.overrides = s.snapshot.overrides := by
    rw [snapshot_overrides_eq, snapshot_overrides_eq, hslots, h.overrides]
  rw [snapshot, snapshot, Snapshot.mk.injEq, helements, h.components]
  exact ⟨rfl, rfl, hoverrides⟩

/-- Two sound stores with the same elements give each owner the same ones. -/
theorem Sound.perm_ownedBy (h : s.Sound) (h' : s'.Sound) (htable : s'.table = s.table)
    (owner : Ownership) : (s'.owners.ownedBy owner).Perm (s.owners.ownedBy owner) := by
  rw [List.perm_iff_count]
  intro id
  rw [h.indexed, h'.indexed, element?, element?, htable]

theorem Sound.ofList_elements (h : s.Sound) :
    Dict.ofList (s.elements.map fun e => (e.id, e)) = s.table := by
  apply Dict.ofList_eq_of_mem_iff
  · rw [List.map_map]
    change (s.elements.map (·.id)).Nodup
    rw [h.map_id_elements]
    exact h.nodup_ids
  · intro id e
    rw [List.mem_map]
    constructor
    · rintro ⟨e', he', heq⟩
      cases heq
      exact h.mem_elements_iff.1 he'
    · intro hfind
      have hid := h.named id e hfind
      exact ⟨e, h.mem_elements_iff.2 (hid ▸ hfind), by rw [hid]⟩

theorem NamesComponents.ofList_components (h : s.NamesComponents) :
    Dict.ofList (s.components.values.map fun c => (c.id, c)) = s.components := by
  have hentries : s.components.values.map (fun c => (c.id, c)) = s.components.entries := by
    rw [Dict.values, List.map_map]
    refine (List.map_congr_left fun x hx => ?_).trans (List.map_id' _)
    exact Prod.ext (h x.1 x.2 (Dict.get?_eq_some_iff.2 hx)) rfl
  rw [hentries]
  exact s.components.foldl_insert_entries

/-- Components and elements of a saved document come where none are yet. -/
theorem Sound.addElements_snapshot (h : s.Sound) (hnamed : s.NamesComponents) :
    ∃ owners revision,
      ((s.snapshot.components.foldl (fun s c => (s.addComponent c).1) empty).addElements
        s.snapshot.elements).1 = ⟨s.table, s.ids, owners, s.components, Dict.empty, revision⟩ := by
  have hsingle : ∀ c ∈ s.snapshot.components, c.SingleDefaults := by
    intro c hc
    obtain ⟨id, hid⟩ := Dict.mem_values_iff.1 hc
    exact h.defaults id c hid
  have hexclusive : ∀ e ∈ s.elements, e.Exclusive := by
    intro e he
    exact h.exclusive e.id e (h.mem_elements_iff.1 he)
  have hids : (s.elements.map (·.id)).Nodup := h.map_id_elements ▸ h.nodup_ids
  have helements (s' : Store) (hnew : s'.table = Dict.empty) :=
    foldl_addElement (s := s') hexclusive hids fun e _ => by rw [element?, hnew]; rfl
  rw [addElements_eq,
    foldl_addComponent hsingle (nodup_snapshot_components hnamed) fun _ _ => rfl]
  refine ⟨s.elements.foldl (fun ix e => ix.add e.ownership e.id) OwnerIndex.empty,
    empty.revision + s.snapshot.components.length + s.elements.length,
    (helements _ rfl).trans ?_⟩
  have htable := h.ofList_elements
  have hlist := hnamed.ofList_components
  rw [Dict.ofList] at htable hlist
  simp only [empty, snapshot, htable, hlist, h.map_id_elements, List.nil_append]

/-- A document of a sound store is loaded without merging anything. -/
theorem Sound.reloaded (h : s.Sound) (hnamed : s.NamesComponents) :
    Reloaded s (ofSnapshot s.snapshot) := by
  obtain ⟨owners, revision, hbefore⟩ := h.addElements_snapshot hnamed
  have hsound : (ofSnapshot s.snapshot).Sound := by
    rw [ofSnapshot_eq_run]
    exact (run_sound _).1
  have hset : OverridesSet s.snapshot.overrides
      ⟨s.table, s.ids, owners, s.components, Dict.empty, revision⟩ (ofSnapshot s.snapshot) := by
    rw [ofSnapshot, hbefore]
    exact overridesSet_foldl s.nodup_snapshot_overrides fun _ _ => rfl
  -- no override was there before, so those of the document are all
  have hfilled : (ofSnapshot s.snapshot).SlotsFilled := by
    apply hset.filled
    intro id slot hslot
    cases hslot
  refine ⟨hset.ids, hset.table, hset.components, ?_, h.perm_ownedBy hsound hset.table⟩
  apply hfilled.overrides_eq
  intro instanceId propId
  apply Option.ext
  intro value
  rw [hset.override?, mem_snapshot_overrides]
  apply or_iff_right
  intro hbefore
  cases hbefore

/-- A document that was loaded and saved is not changed by loading and saving it once more. Every
store that operations lead to has, when it is saved and loaded, its ids, elements and components, the
overrides of each instance that has any, and the same elements for each owner. -/
theorem ofSnapshot_snapshot (x : Snapshot) (ops : List Operation) :
    (ofSnapshot (ofSnapshot x).snapshot).snapshot = (ofSnapshot x).snapshot ∧
      Reloaded (run ops) (ofSnapshot (run ops).snapshot) := by
  have hreloaded (ops : List Operation) : Reloaded (run ops) (ofSnapshot (run ops).snapshot) :=
    (run_sound ops).1.reloaded (.run ops)
  constructor
  · rw [ofSnapshot_eq_run x]
    exact (hreloaded _).snapshot_eq
  · exact hreloaded ops

end Store

end DesignSync

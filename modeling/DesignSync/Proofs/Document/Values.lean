import Mathlib.Data.List.TakeDrop
import DesignSync.Proofs.Document.Canonical
import DesignSync.Proofs.Document.Run
import DesignSync.Proofs.Document.Traces

/-!
The JSON values in a store. Operations only move values, so that a store to which operations with
canonical values have led holds no others, and neither does its snapshot.
-/

namespace DesignSync

/-! ### Components -/

/-- Taking marks from values leaves what they say as it is. -/
theorem PropValue.exists_of_mem_oneDefault {seen : Bool} {vs : List PropValue} {v : PropValue}
    (h : v ∈ oneDefault seen vs) : ∃ w ∈ vs, v.value = w.value := by
  induction vs generalizing seen with
  | nil => cases h
  | cons w ws ih =>
    rcases List.mem_cons.1 h with rfl | h
    · exact ⟨w, List.mem_cons_self, rfl⟩
    · obtain ⟨u, hu, heq⟩ := ih h
      exact ⟨u, List.mem_cons_of_mem _ hu, heq⟩

theorem Component.IsCanonical.normalize {c : Component} (h : c.IsCanonical) :
    c.normalize.IsCanonical := by
  intro p hp
  obtain ⟨q, hq, rfl⟩ := List.mem_map.1 hp
  refine ⟨(h q hq).defaultValue, fun v hv => ?_⟩
  obtain ⟨w, hw, heq⟩ := PropValue.exists_of_mem_oneDefault hv
  rw [PropValue.IsCanonical, heq]
  exact (h q hq).values w hw

theorem Component.IsCanonical.alterProp? {c c' : Component} {propId : String}
    {f : ComponentProp → ComponentProp} (h : c.IsCanonical)
    (hf : ∀ p, p.IsCanonical → (f p).IsCanonical) (halter : c.alterProp? propId f = some c') :
    c'.IsCanonical := by
  rw [Component.alterProp?] at halter
  split at halter
  · rw [List.span_eq_takeWhile_dropWhile] at halter
    cases halter
    have hbehind : ∀ p ∈ c.props.dropWhile (·.id != propId), p.IsCanonical :=
      fun p hp => h p (List.dropWhile_subset _ hp)
    intro p hp
    simp only [List.mem_append, List.mem_map] at hp
    obtain (hp | ⟨q, hq, rfl⟩) | hp := hp
    · exact h p (List.takeWhile_subset _ hp)
    · exact hf q (hbehind q (List.mem_of_mem_take hq))
    · exact hbehind p (List.mem_of_mem_drop hp)
  · cases halter

namespace Store

/-- Whether all values in a store are canonical. -/
structure HoldsCanonical (s : Store) : Prop where
  components : ∀ id c, s.component? id = some c → c.IsCanonical
  overrides : ∀ id slot, s.instanceOverrides? id = some slot →
    ∀ propId o, slot.get? propId = some o → o.IsCanonical

/-- Whether all values that an operation takes are canonical. -/
def Operation.TakesCanonical : Operation → Prop
  | addComponent c => c.IsCanonical
  | setPropValues _ _ values => ∀ v ∈ values, v.IsCanonical
  | setOverride _ _ value => value.IsCanonical
  | _ => True

theorem empty_holdsCanonical : empty.HoldsCanonical := ⟨nofun, nofun⟩

/-! ### What leaves the values as they are -/

/-- Whether a store has the components and overrides of another one. -/
structure SameValues (s s' : Store) : Prop where
  components : s'.components = s.components
  overrides : s'.overrides = s.overrides

theorem SameValues.refl (s : Store) : SameValues s s := ⟨rfl, rfl⟩

theorem SameValues.trans {s s' s'' : Store} (h : SameValues s s') (h' : SameValues s' s'') :
    SameValues s s'' :=
  ⟨h'.components.trans h.components, h'.overrides.trans h.overrides⟩

theorem sameValues_commit (s : Store) (e : Element) : SameValues s (s.commit e) := by
  unfold commit
  split <;> exact ⟨rfl, rfl⟩

theorem sameValues_transact (s : Store) (id : String) (f : Element → Element) :
    SameValues s (s.transact id f).1 := by
  unfold transact
  split
  · exact .refl s
  · simp only
    split
    · exact .refl s
    · exact s.sameValues_commit _

theorem sameValues_addElement (s : Store) (e : Element) : SameValues s (s.addElement e).1 := by
  unfold addElement
  split
  · exact s.sameValues_transact _ _
  · exact s.sameValues_commit _

theorem sameValues_addElements (s : Store) (es : List Element) :
    SameValues s (s.addElements es).1 := by
  rw [addElements_eq]
  exact List.foldlRecOn es _ (.refl s) fun _ h e _ => h.trans (sameValues_addElement _ e)

theorem sameValues_replaceElement (s : Store) (e : Element) :
    SameValues s (s.replaceElement e).1 := by
  unfold replaceElement
  simp only
  split
  · exact .refl s
  · exact s.sameValues_commit _

theorem sameValues_setElements (s : Store) (es : List Element) : SameValues s (s.setElements es) := by
  have hcleared : SameValues s
      { s with table := Dict.empty, ids := [], owners := .empty, revision := s.revision + 1 } :=
    ⟨rfl, rfl⟩
  exact hcleared.trans (sameValues_addElements _ es)

/-- Paths of bindings change nothing where there are no bindings. -/
theorem recordPaths_of_unbound {s : Store}
    (h : ∀ id e, s.element? id = some e → ∀ slot, binding? e.properties slot = none)
    (ts : List TracedPath) : (s.recordPaths ts).1 = s := by
  apply recordPaths_eq_self
  intro t _
  unfold recordPath
  split
  · rfl
  · next e he => rw [h t.element e he]

theorem sameValues_recordPaths (s : Store) (ts : List TracedPath) :
    SameValues s (s.recordPaths ts).1 :=
  ⟨(s.retraced_recordPaths ts).components, (s.retraced_recordPaths ts).overrides⟩

namespace HoldsCanonical

variable {s : Store}

theorem of_sameValues {s' : Store} (h : s.HoldsCanonical) (hsame : SameValues s s') :
    s'.HoldsCanonical := by
  constructor
  · intro id c hc
    rw [component?, hsame.components] at hc
    exact h.components id c hc
  · intro id slot hslot
    rw [instanceOverrides?, hsame.overrides] at hslot
    exact h.overrides id slot hslot

/-! ### One operation -/

theorem removeElement (h : s.HoldsCanonical) (id : String) :
    (s.removeElement id).1.HoldsCanonical := by
  unfold Store.removeElement
  split
  · exact h
  · refine ⟨h.components, fun other slot hslot => ?_⟩
    simp only [instanceOverrides?, Dict.get?_erase] at hslot
    split at hslot
    · cases hslot
    · exact h.overrides other slot hslot

theorem addComponent (h : s.HoldsCanonical) {c : Component} (hc : c.IsCanonical) :
    (s.addComponent c).1.HoldsCanonical := by
  unfold Store.addComponent
  simp only
  split
  · exact h
  · refine ⟨fun id c' hc' => ?_, h.overrides⟩
    simp only [component?, Dict.get?_insert] at hc'
    split at hc'
    · cases hc'
      exact hc.normalize
    · exact h.components id c' hc'

theorem removeComponent (h : s.HoldsCanonical) (id : String) :
    (s.removeComponent id).1.HoldsCanonical := by
  unfold Store.removeComponent
  split
  · refine ⟨fun other c hc => ?_, h.overrides⟩
    simp only [component?, Dict.get?_erase] at hc
    split at hc
    · cases hc
    · exact h.components other c hc
  · exact h

theorem setPropValues (h : s.HoldsCanonical) (componentId propId : String)
    {values : List PropValue} (hvalues : ∀ v ∈ values, v.IsCanonical) :
    (s.setPropValues componentId propId values).1.HoldsCanonical := by
  unfold Store.setPropValues
  split
  · exact h
  · next c hc =>
    split
    · exact h
    · next c' halter =>
      refine h.addComponent ((h.components componentId c hc).alterProp? (fun p hp => ?_) halter)
      exact ⟨hp.defaultValue, hvalues⟩

/-- Setting a value in the slot of an instance, or taking one from it. -/
theorem insert_slot (h : s.HoldsCanonical) (instanceId : String) {slot : Dict Override}
    (hslot : ∀ propId o, slot.get? propId = some o → o.IsCanonical) (revision : Nat) :
    HoldsCanonical
      { s with overrides := s.overrides.insert instanceId slot, revision := revision } := by
  refine ⟨h.components, fun other slot' hslot' => ?_⟩
  simp only [instanceOverrides?, Dict.get?_insert] at hslot'
  split at hslot'
  · cases hslot'
    exact hslot
  · exact h.overrides other slot' hslot'

theorem setOverride (h : s.HoldsCanonical) (instanceId propId : String) {value : Override}
    (hvalue : value.IsCanonical) :
    (s.setOverride instanceId propId value).1.HoldsCanonical := by
  unfold Store.setOverride
  simp only
  split
  · exact h
  · refine h.insert_slot instanceId (fun other o ho => ?_) _
    rw [Dict.get?_insert] at ho
    split at ho
    · cases ho
      exact hvalue
    · cases hslot : s.instanceOverrides? instanceId with
      | none =>
        rw [hslot] at ho
        cases ho
      | some slot =>
        rw [hslot] at ho
        exact h.overrides instanceId slot hslot other o ho

theorem clearOverride (h : s.HoldsCanonical) (instanceId propId : String) :
    (s.clearOverride instanceId propId).1.HoldsCanonical := by
  unfold Store.clearOverride
  split
  · exact h
  · next slot hslot =>
    split
    · refine h.insert_slot instanceId (fun other o ho => ?_) _
      rw [Dict.get?_erase] at ho
      split at ho
      · cases ho
      · exact h.overrides instanceId slot hslot other o ho
    · exact h

theorem perform (h : s.HoldsCanonical) {op : Operation} (hop : op.TakesCanonical) :
    (s.perform op).HoldsCanonical := by
  cases op with
  | addElement e => exact h.of_sameValues (s.sameValues_addElement e)
  | addElements es => exact h.of_sameValues (s.sameValues_addElements es)
  | replaceElement e => exact h.of_sameValues (s.sameValues_replaceElement e)
  | removeElement id => exact h.removeElement id
  | setElements es => exact h.of_sameValues (s.sameValues_setElements es)
  | recordPaths ts => exact h.of_sameValues (s.sameValues_recordPaths ts)
  | addComponent c => exact h.addComponent hop
  | removeComponent id => exact h.removeComponent id
  | setPropValues componentId propId values => exact h.setPropValues componentId propId hop
  | setOverride instanceId propId value => exact h.setOverride instanceId propId hop
  | clearOverride instanceId propId => exact h.clearOverride instanceId propId
  -- all others change one element and reconcile it
  | _ => exact h.of_sameValues (s.sameValues_transact _ _)

/-! ### Snapshots -/

theorem ofSnapshot {x : Snapshot} (h : x.IsCanonical) : (Store.ofSnapshot x).HoldsCanonical := by
  have hcomponents : (x.components.foldl (fun s c => (s.addComponent c).1) empty).HoldsCanonical :=
    List.foldlRecOn x.components _ empty_holdsCanonical fun _ hs c hc =>
      hs.addComponent (h.components c hc)
  have helements := hcomponents.of_sameValues (sameValues_addElements _ x.elements)
  exact List.foldlRecOn x.overrides _ helements fun _ hs o ho =>
    hs.setOverride o.instanceId o.propId (h.overrides o ho)

theorem snapshot (h : s.HoldsCanonical) : s.snapshot.IsCanonical := by
  constructor
  · intro c hc
    obtain ⟨id, hid⟩ := Dict.mem_values_iff.1 hc
    exact h.components id c hid
  · intro o ho
    obtain ⟨⟨instanceId, slot⟩, hslot, ho⟩ := List.mem_flatMap.1 ho
    obtain ⟨⟨propId, value⟩, hvalue, rfl⟩ := List.mem_map.1 ho
    exact h.overrides instanceId slot (Dict.get?_eq_some_iff.2 hslot) propId value
      (Dict.get?_eq_some_iff.2 hvalue)

end HoldsCanonical

end Store

end DesignSync

import DesignSync.Proofs.Document.Soundness

/-!
Runs of a store: any operations, one after the other, from the empty store. The main statement says
that every store so reached is sound, so that the check never finds anything wrong with it.
-/

namespace DesignSync

namespace Store

/-- What can be done to a store. -/
inductive Operation where
  | addElement (e : Element)
  | addElements (es : List Element)
  | updateElement (id : String) (patch : ElementPatch)
  | replaceElement (e : Element)
  | mergeStyle (id : String) (delta : Style)
  | eraseStyle (id : String) (keys : List String)
  | setAttributes (id : String) (attributes : Dict String)
  | eraseAttributes (id : String) (names : List String)
  | mergeContent (id : String) (content : Content)
  | eraseContent (id : String)
  | setBindings (id : String) (bindings : ElementBindings)
  | eraseBindings (id : String)
  | removeElement (id : String)
  | setElements (es : List Element)
  | recordPaths (ts : List TracedPath)
  | addComponent (c : Component)
  | removeComponent (id : String)
  | setPropValues (componentId propId : String) (values : List PropValue)
  | setOverride (instanceId propId : String) (value : Override)
  | clearOverride (instanceId propId : String)

/-- The store after an operation. -/
def perform (s : Store) : Operation → Store
  | .addElement e => (s.addElement e).1
  | .addElements es => (s.addElements es).1
  | .updateElement id patch => (s.updateElement id patch).1
  | .replaceElement e => (s.replaceElement e).1
  | .mergeStyle id delta => (s.mergeStyle id delta).1
  | .eraseStyle id keys => (s.eraseStyle id keys).1
  | .setAttributes id attributes => (s.setAttributes id attributes).1
  | .eraseAttributes id names => (s.eraseAttributes id names).1
  | .mergeContent id content => (s.mergeContent id content).1
  | .eraseContent id => (s.eraseContent id).1
  | .setBindings id bindings => (s.setBindings id bindings).1
  | .eraseBindings id => (s.eraseBindings id).1
  | .removeElement id => (s.removeElement id).1
  | .setElements es => s.setElements es
  | .recordPaths ts => (s.recordPaths ts).1
  | .addComponent c => (s.addComponent c).1
  | .removeComponent id => (s.removeComponent id).1
  | .setPropValues componentId propId values => (s.setPropValues componentId propId values).1
  | .setOverride instanceId propId value => (s.setOverride instanceId propId value).1
  | .clearOverride instanceId propId => (s.clearOverride instanceId propId).1

/-- The store after operations on the empty one. -/
def run (ops : List Operation) : Store := ops.foldl perform empty

/-- Loading a document performs operations on the empty store. -/
theorem ofSnapshot_eq_run (x : Snapshot) :
    ofSnapshot x = run (x.components.map .addComponent ++ .addElements x.elements ::
      x.overrides.map fun o => .setOverride o.instanceId o.propId o.value) := by
  simp only [ofSnapshot, run, List.foldl_append, List.foldl_cons, List.foldl_map]
  rfl

theorem Sound.perform {s : Store} (h : s.Sound) (op : Operation) : (s.perform op).Sound := by
  cases op with
  | addElement e => exact h.addElement e
  | addElements es => exact h.addElements es
  | updateElement id patch => exact h.transact id _
  | replaceElement e => exact h.replaceElement e
  | mergeStyle id delta => exact h.transact id _
  | eraseStyle id keys => exact h.transact id _
  | setAttributes id attributes => exact h.transact id _
  | eraseAttributes id names => exact h.transact id _
  | mergeContent id content => exact h.transact id _
  | eraseContent id => exact h.transact id _
  | setBindings id bindings => exact h.transact id _
  | eraseBindings id => exact h.transact id _
  | removeElement id => exact h.removeElement id
  | setElements es => exact h.setElements es
  | recordPaths ts => exact h.recordPaths ts
  | addComponent c => exact h.addComponent c
  | removeComponent id => exact h.removeComponent id
  | setPropValues componentId propId values => exact h.setPropValues componentId propId values
  | setOverride instanceId propId value => exact h.setOverride instanceId propId value
  | clearOverride instanceId propId => exact h.clearOverride instanceId propId

theorem Sound.foldl_perform {s : Store} (h : s.Sound) (ops : List Operation) :
    (ops.foldl Store.perform s).Sound := by
  induction ops generalizing s with
  | nil => exact h
  | cons op ops ih => exact ih (h.perform op)

/-- Every store that operations lead to from the empty one is sound, and the check finds nothing
wrong with it. -/
theorem run_sound (ops : List Operation) : (run ops).Sound ∧ (run ops).violation? = none := by
  have hsound : (run ops).Sound := empty_sound.foldl_perform ops
  exact ⟨hsound, hsound.violation?_eq_none⟩

end Store

end DesignSync

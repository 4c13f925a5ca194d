import DesignSync.Proofs.Document.Run
import DesignSync.Proofs.Document.Traces

/-!
The revision as a stamp of the document. An operation that tells of a change moves the revision by
one and leaves another document; an operation that tells of none leaves everything as it was. Only
the traces in bindings change without it. Two moments of a run with the same revision therefore have
the same document, up to traces, which is what lets a revision stand for the document it was read
from.
-/

namespace DesignSync

/-! ### Equality as the store decides it

Documents are compared part by part, numbers as numbers, so that equal documents need not be the
same. Still every part of one has a partner in the other. -/

section

variable {α β : Type} {R : α → β → Prop} {xs : List α} {ys : List β}

private theorem exists_right_of_forall₂ (h : List.Forall₂ R xs ys) {x : α} (hx : x ∈ xs) :
    ∃ y ∈ ys, R x y := by
  induction h with
  | nil => cases hx
  | cons hhead _ ih =>
    rcases List.mem_cons.1 hx with rfl | hx
    · exact ⟨_, List.mem_cons_self, hhead⟩
    · obtain ⟨y, hy, hxy⟩ := ih hx
      exact ⟨y, List.mem_cons_of_mem _ hy, hxy⟩

private theorem exists_left_of_forall₂ (h : List.Forall₂ R xs ys) {y : β} (hy : y ∈ ys) :
    ∃ x ∈ xs, R x y :=
  exists_right_of_forall₂ (R := flip R) h.flip hy

end

private theorem forall₂_of_beq {α : Type} [BEq α] {xs ys : List α} (h : (xs == ys) = true) :
    List.Forall₂ (fun x y => (x == y) = true) xs ys := by
  induction xs generalizing ys with
  | nil =>
    cases ys with
    | nil => exact .nil
    | cons y ys => cases h
  | cons x xs ih =>
    cases ys with
    | nil => cases h
    | cons y ys =>
      obtain ⟨hhead, htail⟩ := Bool.and_eq_true_iff.1 h
      exact .cons hhead (ih htail)

theorem Literal.beq_comm (v w : Literal) : (v == w) = (w == v) := by
  cases v with
  | number x =>
    cases w with
    | number y =>
      change (x.rank == y.rank && (x.negative == y.negative || x.rank == 0))
        = (y.rank == x.rank && (y.negative == x.negative || y.rank == 0))
      by_cases h : x.rank = y.rank
      · rw [h, BEq.comm (a := x.negative)]
      · rw [beq_eq_false_iff_ne.2 h, beq_eq_false_iff_ne.2 (Ne.symm h)]
        rfl
    | text t => rfl
  | text s =>
    cases w with
    | number y => rfl
    | text t => exact BEq.comm (a := s)

theorem Dict.beq_comm {α : Type} [BEq α] (h : ∀ v w : α, (v == w) = (w == v)) (d e : Dict α) :
    (d == e) = (e == d) := by
  rw [beq_eq_entries, beq_eq_entries]
  generalize d.entries = xs
  generalize e.entries = ys
  induction xs generalizing ys with
  | nil => cases ys <;> rfl
  | cons x xs ih =>
    cases ys with
    | nil => rfl
    | cons y ys =>
      change ((x.1 == y.1 && x.2 == y.2) && xs == ys) = ((y.1 == x.1 && y.2 == x.2) && ys == xs)
      rw [ih, h x.2, BEq.comm (a := x.1)]

theorem Element.beq_comm (e f : Element) : (e == f) = (f == e) := by
  have hstyle : (e.properties.style == f.properties.style)
      = (f.properties.style == e.properties.style) := by
    rw [Bool.eq_iff_iff, Style.beq_iff, Style.beq_iff, Dict.beq_comm Literal.beq_comm, eq_comm]
  rw [Bool.eq_iff_iff, Element.beq_iff, Element.beq_iff, Properties.beq_iff, Properties.beq_iff,
    hstyle]
  grind

theorem Snapshot.beq_iff {x y : Snapshot} :
    (x == y) = true ↔ (x.elements == y.elements) = true ∧ (x.components == y.components) = true ∧
      (x.overrides == y.overrides) = true := by
  cases x; cases y
  change (_ == _ && (_ == _ && _ == _)) = true ↔ _
  simp

theorem InstanceOverride.beq_iff {x y : InstanceOverride} :
    (x == y) = true ↔ x.instanceId = y.instanceId ∧ x.propId = y.propId ∧
      (x.value == y.value) = true := by
  cases x; cases y
  change (_ == _ && (_ == _ && _ == _)) = true ↔ _
  simp

/-! ### Dictionaries with an entry more, less or replaced -/

namespace Dict

variable {α : Type}

theorem values_erase_length_lt {d : Dict α} {k : String} (h : d.contains k = true) :
    (d.erase k).values.length < d.values.length := by
  obtain ⟨v, hv⟩ := Option.isSome_iff_exists.1 h
  rw [values, values, List.length_map, List.length_map]
  refine List.length_filter_lt_length_iff_exists.2 ⟨(k, v), get?_eq_some_iff.1 hv, ?_⟩
  simp

private theorem mem_beq_of_insertEntry [BEq α] {es : List (String × α)} {k : String} {v : α}
    (h : List.Forall₂ (fun v w => (v == w) = true) (es.map Prod.snd)
      ((insertEntry k v es).map Prod.snd)) :
    ∃ old, (k, old) ∈ es ∧ (old == v) = true := by
  induction es with
  | nil => cases h
  | cons e es ih =>
    unfold insertEntry at h
    split at h
    · have hlength := h.length_eq
      simp at hlength
    · next hnlt =>
      split at h
      · obtain ⟨-, htail⟩ := List.forall₂_cons.1 h
        obtain ⟨old, hold, hbeq⟩ := ih htail
        exact ⟨old, List.mem_cons_of_mem _ hold, hbeq⟩
      · next hngt =>
        obtain ⟨hhead, -⟩ := List.forall₂_cons.1 h
        have hkey : k = e.1 := String.le_antisymm (String.not_lt.1 hngt) (String.not_lt.1 hnlt)
        exact ⟨e.2, hkey ▸ List.mem_cons_self, hhead⟩

/-- A value can be put in without a difference only over one that equals it. -/
theorem get?_beq_of_values_insert [BEq α] {d : Dict α} {k : String} {v : α}
    (h : (d.values == (d.insert k v).values) = true) :
    ∃ old, d.get? k = some old ∧ (old == v) = true := by
  obtain ⟨old, hold, hbeq⟩ := mem_beq_of_insertEntry (forall₂_of_beq h)
  exact ⟨old, get?_eq_some_iff.2 hold, hbeq⟩

end Dict

namespace Store

variable {s s' : Store}

/-! ### What an operation tells -/

/-- An operation that tells whether it changed something, with what it tells. -/
def attempt? (s : Store) : Operation → Option (Store × Bool)
  | .addElement e => some (s.addElement e)
  | .updateElement id patch => some (s.updateElement id patch)
  | .replaceElement e => some (s.replaceElement e)
  | .mergeStyle id delta => some (s.mergeStyle id delta)
  | .eraseStyle id keys => some (s.eraseStyle id keys)
  | .setAttributes id attributes => some (s.setAttributes id attributes)
  | .eraseAttributes id names => some (s.eraseAttributes id names)
  | .mergeContent id content => some (s.mergeContent id content)
  | .eraseContent id => some (s.eraseContent id)
  | .setBindings id bindings => some (s.setBindings id bindings)
  | .eraseBindings id => some (s.eraseBindings id)
  | .removeElement id => some (s.removeElement id)
  | .addComponent c => some (s.addComponent c)
  | .removeComponent id => some (s.removeComponent id)
  | .setPropValues componentId propId values => some (s.setPropValues componentId propId values)
  | .setOverride instanceId propId value => some (s.setOverride instanceId propId value)
  | .clearOverride instanceId propId => some (s.clearOverride instanceId propId)
  | .addElements _ | .setElements _ | .recordPaths _ => none

theorem perform_of_attempt? {op : Operation} {r : Store × Bool} (h : s.attempt? op = some r) :
    s.perform op = r.1 := by
  cases op <;> simp only [attempt?, Option.some.injEq, reduceCtorEq] at h <;> exact h ▸ rfl

/-- The revision moves by one with a change, and the document is another one then; without a change
all stays as it is. -/
structure Stamped (s : Store) (r : Store × Bool) : Prop where
  moved : r.2 = true → r.1.revision = s.revision + 1
  differs : r.2 = true → (s.snapshot == r.1.snapshot) = false
  kept : r.2 = false → r.1 = s

theorem stamped_unchanged (s : Store) : s.Stamped (s, false) where
  moved h := by cases h
  differs h := by cases h
  kept _ := rfl

theorem stamped_changed (hrev : s'.revision = s.revision + 1)
    (hne : (s.snapshot == s'.snapshot) = true → False) : s.Stamped (s', true) where
  moved _ := hrev
  differs _ := Bool.eq_false_iff.2 hne
  kept h := by cases h

theorem Stamped.changed_iff {r : Store × Bool} (h : s.Stamped r) :
    r.2 = true ↔ s.revision < r.1.revision := by
  cases hr : r.2 with
  | true => simp [h.moved hr]
  | false => simp [h.kept hr]

theorem revision_commit (s : Store) (e : Element) : (s.commit e).revision = s.revision + 1 := by
  unfold commit
  split <;> rfl

/-! ### Elements -/

/-- Equal documents have equal elements under an id. -/
theorem Sound.element?_of_beq (h : s.Sound) (h' : s'.Sound)
    (heq : (s.snapshot == s'.snapshot) = true) (id : String) :
    (s.element? id = none ∧ s'.element? id = none) ∨
      ∃ e e', s.element? id = some e ∧ s'.element? id = some e' ∧ (e == e') = true := by
  have hpartners : List.Forall₂ (fun e e' => (e == e') = true) s.elements s'.elements :=
    forall₂_of_beq (Snapshot.beq_iff.1 heq).1
  cases he : s.element? id with
  | some e =>
    have hid := h.named id e he
    obtain ⟨e', he', hbeq⟩ := exists_right_of_forall₂ hpartners (h.mem_elements_iff.2 (hid ▸ he))
    rw [h'.mem_elements_iff, ← (Element.beq_iff.1 hbeq).1, hid] at he'
    exact .inr ⟨e, e', rfl, he', hbeq⟩
  | none =>
    refine .inl ⟨rfl, Option.eq_none_iff_forall_not_mem.2 fun e' he' => ?_⟩
    have hid := h'.named id e' he'
    obtain ⟨e, hmem, hbeq⟩ := exists_left_of_forall₂ hpartners (h'.mem_elements_iff.2 (hid ▸ he'))
    rw [h.mem_elements_iff, (Element.beq_iff.1 hbeq).1, hid, he] at hmem
    cases hmem

/-- Putting an element in is a change unless one that equals it is there. -/
theorem Sound.stamped_commit (h : s.Sound) {e : Element} (he : e.Exclusive)
    (hnew : ∀ old, s.element? e.id = some old → (old == e) = false) :
    s.Stamped (s.commit e, true) := by
  refine stamped_changed (s.revision_commit e) fun heq => ?_
  have hthere : (s.commit e).element? e.id = some e := by simp [element?_commit]
  obtain ⟨-, habs⟩ | ⟨old, e', hold, he', hbeq⟩ := h.element?_of_beq (h.commit he) heq e.id
  · rw [hthere] at habs
    cases habs
  · cases hthere.symm.trans he'
    rw [hnew old hold] at hbeq
    cases hbeq

theorem Sound.stamped_transact (h : s.Sound) (id : String) (f : Element → Element) :
    s.Stamped (s.transact id f) := by
  unfold Store.transact
  cases hold : s.element? id with
  | none => exact s.stamped_unchanged
  | some old =>
    simp only
    split
    · exact s.stamped_unchanged
    · next hne =>
      refine h.stamped_commit (Element.reconcile_exclusive _) fun old' hold' => ?_
      have hsame : old' = old := by
        rw [show (Element.reconcile { f old with id := old.id }).id = id from
          h.named id old hold, hold] at hold'
        exact (Option.some.inj hold').symm
      rw [hsame, Element.beq_comm]
      exact Bool.eq_false_iff.2 hne

theorem Sound.stamped_addElement (h : s.Sound) (e : Element) : s.Stamped (s.addElement e) := by
  unfold Store.addElement
  split
  · exact h.stamped_transact _ _
  · next habs =>
    refine h.stamped_commit (Element.reconcile_exclusive _) fun old hold => absurd ?_ habs
    exact Option.isSome_iff_exists.2 ⟨old, hold⟩

theorem Sound.stamped_replaceElement (h : s.Sound) (e : Element) :
    s.Stamped (s.replaceElement e) := by
  unfold Store.replaceElement
  simp only
  split
  · exact s.stamped_unchanged
  · next hne =>
    refine h.stamped_commit (Element.reconcile_exclusive _) fun old hold => ?_
    rw [hold] at hne
    exact Bool.eq_false_iff.2 hne

theorem Sound.stamped_removeElement (h : s.Sound) (id : String) :
    s.Stamped (s.removeElement id) := by
  cases hold : s.element? id with
  | none =>
    rw [removeElement_of_absent hold]
    exact s.stamped_unchanged
  | some old =>
    have htells : s.removeElement id = ((s.removeElement id).1, true) := by
      simp [Store.removeElement, hold]
    have hgone : (s.removeElement id).1.element? id = none := by simp [element?_removeElement hold]
    have hrev : (s.removeElement id).1.revision = s.revision + 1 := by
      simp [Store.removeElement, hold]
    rw [htells]
    refine stamped_changed hrev fun heq => ?_
    obtain ⟨habs, -⟩ | ⟨-, e, -, he, -⟩ := h.element?_of_beq (h.removeElement id) heq id
    · rw [hold] at habs
      cases habs
    · rw [hgone] at he
      cases he

/-! ### Components and overrides -/

theorem stamped_addComponent (s : Store) (c : Component) : s.Stamped (s.addComponent c) := by
  unfold addComponent
  simp only
  split
  · exact s.stamped_unchanged
  · next hne =>
    refine stamped_changed rfl fun heq => hne ?_
    obtain ⟨old, hold, hbeq⟩ := Dict.get?_beq_of_values_insert (Snapshot.beq_iff.1 heq).2.1
    rw [component?, hold]
    exact hbeq

theorem stamped_removeComponent (s : Store) (id : String) : s.Stamped (s.removeComponent id) := by
  unfold removeComponent
  split
  · next hmem =>
    refine stamped_changed rfl fun heq => ?_
    have hlength := (forall₂_of_beq (Snapshot.beq_iff.1 heq).2.1).length_eq
    exact absurd hlength.symm (Nat.ne_of_lt (Dict.values_erase_length_lt hmem))
  · exact s.stamped_unchanged

theorem stamped_setPropValues (s : Store) (componentId propId : String) (values : List PropValue) :
    s.Stamped (s.setPropValues componentId propId values) := by
  unfold setPropValues
  split
  · exact s.stamped_unchanged
  · split
    · exact s.stamped_unchanged
    · exact s.stamped_addComponent _

/-- The override of a prop of an instance. -/
def override? (s : Store) (instanceId propId : String) : Option Override :=
  (s.instanceOverrides? instanceId).bind (·.get? propId)

theorem mem_snapshot_overrides {x : InstanceOverride} :
    x ∈ s.snapshot.overrides ↔ s.override? x.instanceId x.propId = some x.value := by
  obtain ⟨instanceId, propId, v⟩ := x
  simp only [snapshot, List.mem_flatMap, List.mem_map, override?, Option.bind_eq_some_iff,
    instanceOverrides?, Dict.get?_eq_some_iff]
  constructor
  · rintro ⟨⟨i, slot⟩, hslot, ⟨p, w⟩, hw, heq⟩
    cases heq
    exact ⟨slot, hslot, hw⟩
  · rintro ⟨slot, hslot, hv⟩
    exact ⟨(instanceId, slot), hslot, (propId, v), hv, rfl⟩

/-- Equal documents have equal overrides. -/
theorem override?_of_beq (heq : (s.snapshot == s'.snapshot) = true) (instanceId propId : String) :
    (s.override? instanceId propId = none ∧ s'.override? instanceId propId = none) ∨
      ∃ v v', s.override? instanceId propId = some v ∧ s'.override? instanceId propId = some v' ∧
        (v == v') = true := by
  have hpartners := forall₂_of_beq (Snapshot.beq_iff.1 heq).2.2
  cases hv : s.override? instanceId propId with
  | some v =>
    obtain ⟨x, hx, hbeq⟩ := exists_right_of_forall₂ hpartners
      (mem_snapshot_overrides (x := ⟨instanceId, propId, v⟩).2 hv)
    obtain ⟨hid, hprop, hvalue⟩ := InstanceOverride.beq_iff.1 hbeq
    rw [mem_snapshot_overrides, ← hid, ← hprop] at hx
    exact .inr ⟨v, x.value, rfl, hx, hvalue⟩
  | none =>
    refine .inl ⟨rfl, Option.eq_none_iff_forall_not_mem.2 fun v' hv' => ?_⟩
    obtain ⟨x, hx, hbeq⟩ := exists_left_of_forall₂ hpartners
      (mem_snapshot_overrides (x := ⟨instanceId, propId, v'⟩).2 hv')
    obtain ⟨hid, hprop, -⟩ := InstanceOverride.beq_iff.1 hbeq
    rw [mem_snapshot_overrides, hid, hprop, hv] at hx
    cases hx

theorem stamped_setOverride (s : Store) (instanceId propId : String) (value : Override) :
    s.Stamped (s.setOverride instanceId propId value) := by
  have hslot : ((s.instanceOverrides? instanceId).getD Dict.empty).get? propId
      = s.override? instanceId propId := by
    unfold override?
    cases s.instanceOverrides? instanceId <;> rfl
  unfold setOverride
  simp only [hslot]
  split
  · exact s.stamped_unchanged
  · next hne =>
    refine stamped_changed rfl fun heq => hne ?_
    obtain ⟨-, habs⟩ | ⟨v, v', hv, hv', hbeq⟩ := override?_of_beq heq instanceId propId
    · simp [override?, instanceOverrides?] at habs
    · simp only [override?, instanceOverrides?, Dict.get?_insert_self, Option.bind_some,
        Option.some.injEq] at hv'
      rw [hv]
      exact hv' ▸ hbeq

theorem stamped_clearOverride (s : Store) (instanceId propId : String) :
    s.Stamped (s.clearOverride instanceId propId) := by
  unfold clearOverride
  cases hslot : s.instanceOverrides? instanceId with
  | none => exact s.stamped_unchanged
  | some slot =>
    simp only
    split
    · next hmem =>
      refine stamped_changed rfl fun heq => ?_
      obtain ⟨habs, -⟩ | ⟨-, v', -, hv', -⟩ := override?_of_beq heq instanceId propId
      · rw [override?, hslot, Option.bind_some] at habs
        simp [Dict.contains, habs] at hmem
      · simp [override?, instanceOverrides?, Dict.get?_erase] at hv'
    · exact s.stamped_unchanged

/-- Every operation that tells whether it changed something tells the truth. -/
theorem Sound.stamped_attempt (h : s.Sound) {op : Operation} {r : Store × Bool}
    (hr : s.attempt? op = some r) : s.Stamped r := by
  cases op <;> simp only [attempt?, Option.some.injEq, reduceCtorEq] at hr <;> subst hr
  case addElement e => exact h.stamped_addElement e
  case replaceElement e => exact h.stamped_replaceElement e
  case removeElement id => exact h.stamped_removeElement id
  case addComponent c => exact s.stamped_addComponent c
  case removeComponent id => exact s.stamped_removeComponent id
  case setPropValues componentId propId values =>
    exact s.stamped_setPropValues componentId propId values
  case setOverride instanceId propId value => exact s.stamped_setOverride instanceId propId value
  case clearOverride instanceId propId => exact s.stamped_clearOverride instanceId propId
  -- All others change the properties of one element.
  all_goals exact h.stamped_transact _ _

/-! ### Several at once -/

private theorem revision_foldl_addElement (h : s.Sound) (es : List Element) (n : Nat) :
    let count := fun (r : Store × Nat) e =>
      ((r.1.addElement e).1, if (r.1.addElement e).2 then r.2 + 1 else r.2)
    (es.foldl count (s, n)).1.revision + n = s.revision + (es.foldl count (s, n)).2 := by
  intro count
  induction es generalizing s n with
  | nil => rfl
  | cons e es ih =>
    have hstamped := h.stamped_addElement e
    rw [List.foldl_cons]
    cases hchanged : (s.addElement e).2 with
    | true =>
      have hstep : count (s, n) e = ((s.addElement e).1, n + 1) := by simp [count, hchanged]
      have hrest := ih (h.addElement e) (n + 1)
      have hmoved := hstamped.moved hchanged
      rw [hstep]
      omega
    | false =>
      have hstep : count (s, n) e = (s, n) := by simp [count, hchanged, hstamped.kept hchanged]
      rw [hstep]
      exact ih h n

/-- Adding elements counts the steps of the revision. -/
theorem Sound.revision_addElements (h : s.Sound) (es : List Element) :
    (s.addElements es).1.revision = s.revision + (s.addElements es).2 :=
  revision_foldl_addElement h es 0

theorem Sound.revision_setElements (h : s.Sound) (es : List Element) :
    s.revision < (s.setElements es).revision := by
  have hgrown := h.cleared.revision_addElements es
  change s.revision < (Store.addElements _ es).1.revision
  rw [hgrown]
  change s.revision < s.revision + 1 + _
  omega

/-! ### Runs -/

/-- A store without the traces in its bindings. -/
def untraced (s : Store) : Store := { s with table := s.table.map Element.untraced }

/-- Recording paths keeps the revision and everything else but traces. -/
theorem untraced_recordPaths (s : Store) (ts : List TracedPath) :
    (s.recordPaths ts).1.untraced = s.untraced := by
  rw [recordPaths_eq]
  induction ts generalizing s with
  | nil => rfl
  | cons t ts ih =>
    rw [List.foldl_cons, ih]
    obtain hsame | ⟨e, b, b', he, hb, hkind, href, hnew⟩ := s.recordPath_cases t
    · rw [hsame]
    · have htable : (s.table.insert t.element
          { e with properties := setBinding e.properties t.slot b' }).map Element.untraced
          = s.table.map Element.untraced := by
        refine Dict.ext_get? fun id => ?_
        rw [Dict.get?_map, Dict.get?_map, Dict.get?_insert]
        by_cases hid : id = t.element
        · rw [if_pos hid, hid, show s.table.get? t.element = some e from he]
          simp [Element.untraced, Properties.untraced_setBinding hb hkind href]
        · rw [if_neg hid]
      rw [hnew]
      simp [untraced, htable]

end Store

/-- A document without the traces in its bindings. -/
def Snapshot.untraced (x : Snapshot) : Snapshot :=
  { x with elements := x.elements.map Element.untraced }

namespace Store

variable {s s' : Store}

theorem snapshot_untraced (s : Store) : s.untraced.snapshot = s.snapshot.untraced := by
  have helements : s.untraced.elements = s.elements.map Element.untraced := by
    rw [elements, elements, List.map_filterMap]
    refine congrArg (List.filterMap · s.ids) (funext fun id => ?_)
    exact Dict.get?_map _ _ _
  simp only [snapshot, Snapshot.untraced, helements]
  rfl

/-- What holds between a store and a later one: the revision has not gone back, and where it has not
moved, nothing but traces has changed. -/
structure Later (s s' : Store) : Prop where
  le : s.revision ≤ s'.revision
  untraced : s'.revision = s.revision → s'.untraced = s.untraced

theorem Later.refl (s : Store) : s.Later s := ⟨Nat.le_refl _, fun _ => rfl⟩

theorem Later.trans {s'' : Store} (h : s.Later s') (h' : s'.Later s'') : s.Later s'' where
  le := Nat.le_trans h.le h'.le
  untraced heq := by
    have hle := h.le
    have hle' := h'.le
    rw [h'.untraced (by omega), h.untraced (by omega)]

theorem Stamped.later {r : Store × Bool} (h : s.Stamped r) : s.Later r.1 := by
  cases hr : r.2 with
  | true =>
    have hmoved := h.moved hr
    exact ⟨by omega, fun heq => by omega⟩
  | false =>
    rw [h.kept hr]
    exact .refl s

theorem Sound.later_addElements (h : s.Sound) (es : List Element) :
    s.Later (s.addElements es).1 := by
  rw [addElements_eq]
  induction es generalizing s with
  | nil => exact .refl s
  | cons e es ih => exact (h.stamped_addElement e).later.trans (ih (h.addElement e))

theorem later_recordPaths (s : Store) (ts : List TracedPath) : s.Later (s.recordPaths ts).1 :=
  have hrev := congrArg Store.revision (s.untraced_recordPaths ts)
  ⟨Nat.le_of_eq hrev.symm, fun _ => s.untraced_recordPaths ts⟩

theorem Sound.later_perform (h : s.Sound) (op : Operation) : s.Later (s.perform op) := by
  cases hr : s.attempt? op with
  | some r =>
    rw [perform_of_attempt? hr]
    exact (h.stamped_attempt hr).later
  | none =>
    cases op <;> simp only [attempt?, reduceCtorEq] at hr
    case addElements es => exact h.later_addElements es
    case recordPaths ts => exact s.later_recordPaths ts
    case setElements es =>
      have hmoved := h.revision_setElements es
      exact ⟨Nat.le_of_lt hmoved, fun heq => absurd heq (Nat.ne_of_gt hmoved)⟩

theorem Sound.later_foldl_perform (h : s.Sound) (ops : List Operation) :
    s.Later (ops.foldl Store.perform s) := by
  induction ops generalizing s with
  | nil => exact .refl s
  | cons op ops ih => exact (h.later_perform op).trans (ih (h.perform op))

/-- The revision stamps the document, whatever was done before. An operation that tells of a change
moves it by one and leaves another document; one that tells of none leaves the store as it was.
Adding elements counts its steps, putting others in the place of all moves it in any case, and
recording paths changes nothing but traces. Where a later store has the same revision, it has the
same document up to traces. -/
theorem run_revision (ops : List Operation) :
    (∀ op s' changed, (run ops).attempt? op = some (s', changed) →
      (changed = true ↔ (run ops).revision < s'.revision) ∧
      (changed = true → s'.revision = (run ops).revision + 1 ∧
        ((run ops).snapshot == s'.snapshot) = false) ∧
      (changed = false → s' = run ops)) ∧
    (∀ es, ((run ops).addElements es).1.revision
      = (run ops).revision + ((run ops).addElements es).2) ∧
    (∀ es, (run ops).revision < ((run ops).setElements es).revision) ∧
    (∀ ts, ((run ops).recordPaths ts).1.revision = (run ops).revision ∧
      ((run ops).recordPaths ts).1.untraced = (run ops).untraced) ∧
    ∀ later, (run (ops ++ later)).revision = (run ops).revision →
      (run (ops ++ later)).snapshot.untraced = (run ops).snapshot.untraced := by
  have hsound : (run ops).Sound := empty_sound.foldl_perform ops
  refine ⟨fun op s' changed hr => ?_, hsound.revision_addElements, hsound.revision_setElements,
    fun ts => ?_, fun later heq => ?_⟩
  · have hstamped := hsound.stamped_attempt hr
    exact ⟨hstamped.changed_iff, fun h => ⟨hstamped.moved h, hstamped.differs h⟩, hstamped.kept⟩
  · have huntraced := (run ops).untraced_recordPaths ts
    have hrev := congrArg Store.revision huntraced
    exact ⟨hrev, huntraced⟩
  · have hrun : run (ops ++ later) = later.foldl perform (run ops) := List.foldl_append
    rw [hrun] at heq ⊢
    rw [← snapshot_untraced, ← snapshot_untraced, (hsound.later_foldl_perform later).untraced heq]

private def box : Element :=
  ⟨"box", "div", .element, none, ⟨.screen, "main"⟩, Properties.empty, none⟩

/-- Taking the one element away is a second change, and taking away what is not there is none. -/
theorem run_revision_box :
    let added := run [.addElement box]
    (∃ s', added.attempt? (.removeElement "box") = some (s', true) ∧ s'.revision = 2 ∧
      (added.snapshot == s'.snapshot) = false) ∧
    (∃ s', added.attempt? (.removeElement "bin") = some (s', false) ∧ s' = added) := by
  intro added
  obtain ⟨htells, -⟩ := run_revision [.addElement box]
  refine ⟨⟨(added.removeElement "box").1, rfl, ?_⟩, ⟨(added.removeElement "bin").1, rfl, ?_⟩⟩
  · exact (htells (.removeElement "box") _ true rfl).2.1 rfl
  · exact (htells (.removeElement "bin") _ false rfl).2.2 rfl

end Store

end DesignSync

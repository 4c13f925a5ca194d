import DesignSync.Document.Store
import DesignSync.Proofs.Dict

/-!
Finding elements by their ids: in a list of elements, and in a store after each of its writing steps.
-/

namespace DesignSync

/-- A member that no other one agrees with is the one that is found for it. -/
theorem find?_of_pairwise {α : Type} (agree : α → α → Bool) {xs : List α}
    (hrefl : ∀ x, agree x x = true) (hxs : xs.Pairwise fun x y => agree x y = false) {x : α}
    (hx : x ∈ xs) : xs.find? (agree · x) = some x := by
  induction xs with
  | nil => cases hx
  | cons y ys ih =>
    obtain ⟨hy, hys⟩ := List.pairwise_cons.1 hxs
    rcases List.mem_cons.1 hx with rfl | hx
    · exact List.find?_cons_of_pos (hrefl x)
    · rw [List.find?_cons, hy x hx]
      exact ih hys hx

namespace Element

variable {es : List Element} {id : String} {e : Element}

theorem mem_of_find? (h : find? es id = some e) : e ∈ es := List.mem_of_find?_eq_some h

theorem id_of_find? (h : find? es id = some e) : e.id = id := by
  simpa using List.find?_some h

theorem find?_isSome_iff : (find? es id).isSome = true ↔ id ∈ es.map (·.id) := by
  simp [find?, List.find?_isSome]

theorem find?_eq_none_iff : find? es id = none ↔ id ∉ es.map (·.id) := by
  rw [← find?_isSome_iff]
  simp

theorem find?_of_mem (hes : (es.map (·.id)).Nodup) (he : e ∈ es) : find? es e.id = some e := by
  cases hf : find? es e.id with
  | none => exact absurd (List.mem_map_of_mem he) (find?_eq_none_iff.1 hf)
  | some e' =>
    have heq := List.inj_on_of_nodup_map hes (mem_of_find? hf) he (id_of_find? hf)
    rw [heq]

theorem find?_map (es : List Element) (id : String) {f : Element → Element}
    (hf : ∀ e, (f e).id = e.id) : find? (es.map f) id = (find? es id).map f := by
  have hfun : ((fun e : Element => e.id == id) ∘ f) = fun e => e.id == id := by
    funext x
    simp [hf]
  rw [find?, List.find?_map, hfun]
  rfl

end Element

namespace Store

/-! ### Steps in a row -/

/-- Counting the steps that change something does not change what they do. -/
theorem foldl_counted {α : Type} (f : Store → α → Store × Bool) (xs : List α) (s : Store) (n : Nat) :
    (xs.foldl (fun (s, n) x =>
      let (s, changed) := f s x
      (s, if changed then n + 1 else n)) (s, n)).1 = xs.foldl (fun s x => (f s x).1) s := by
  induction xs generalizing s n with
  | nil => rfl
  | cons x xs ih => exact ih _ _

theorem addElements_eq (s : Store) (es : List Element) :
    (s.addElements es).1 = es.foldl (fun s e => (s.addElement e).1) s :=
  foldl_counted addElement es s 0

theorem recordPaths_eq (s : Store) (ts : List TracedPath) :
    (s.recordPaths ts).1 = ts.foldl (fun s t => (s.recordPath t).1) s :=
  foldl_counted recordPath ts s 0

/-- Paths none of which changes the store leave it as it is. -/
theorem recordPaths_eq_self {s : Store} {ts : List TracedPath}
    (h : ∀ t ∈ ts, (s.recordPath t).1 = s) : (s.recordPaths ts).1 = s := by
  rw [recordPaths_eq]
  refine List.foldlRecOn ts (motive := (· = s)) _ rfl ?_
  rintro _ rfl t ht
  exact h t ht

/-! ### Single steps -/

/-- A store with another element in the place of one is looked up so. -/
theorem element?_of_insert {s s' : Store} {place : String} {e : Element}
    (h : s' = { s with table := s.table.insert place e }) (id : String) :
    s'.element? id = if id = place then some e else s.element? id := by
  rw [h]
  exact Dict.get?_insert _ _ _ _

theorem element?_commit (s : Store) (e : Element) (id : String) :
    (s.commit e).element? id = if id = e.id then some e else s.element? id := by
  unfold commit
  split <;> exact Dict.get?_insert _ _ _ _

theorem ids_commit (s : Store) (e : Element) :
    (s.commit e).ids = if s.contains e.id then s.ids else s.ids ++ [e.id] := by
  unfold commit contains
  cases s.element? e.id <;> rfl

theorem removeElement_of_absent {s : Store} {gone : String} (h : s.element? gone = none) :
    s.removeElement gone = (s, false) := by
  simp [removeElement, h]

theorem element?_removeElement {s : Store} {gone : String} {old : Element}
    (h : s.element? gone = some old) (id : String) :
    (s.removeElement gone).1.element? id =
      if id = gone then none else (s.element? id).map (withoutChild gone) := by
  simp only [removeElement, h]
  change ((s.table.erase gone).map (withoutChild gone)).get? id = _
  rw [Dict.get?_map, Dict.get?_erase]
  by_cases hid : id = gone <;> simp [hid, element?]

theorem ids_removeElement {s : Store} {gone : String} {old : Element}
    (h : s.element? gone = some old) : (s.removeElement gone).1.ids = s.ids.filter (· != gone) := by
  simp [removeElement, h]

/-- Writing a path replaces at most one stored element, by one that differs in one binding only. -/
theorem recordPath_cases (s : Store) (t : TracedPath) :
    (s.recordPath t).1 = s ∨
      ∃ e b b', s.element? t.element = some e ∧ binding? e.properties t.slot = some b ∧
        b'.kind = b.kind ∧ b'.refId = b.refId ∧
        (s.recordPath t).1 = { s with
          table := s.table.insert t.element
            { e with properties := setBinding e.properties t.slot b' } } := by
  obtain ⟨id, slot, path, fallback⟩ := t
  unfold recordPath
  cases he : s.element? id with
  | none => exact .inl rfl
  | some e =>
    cases hb : binding? e.properties slot with
    | none => exact .inl (by simp only [hb])
    | some b =>
      cases slot <;> simp only [hb] <;> split
      · exact .inl rfl
      · exact .inr ⟨e, b, { b with path := some path }, rfl, hb, rfl, rfl, rfl⟩
      · exact .inl rfl
      · exact .inr ⟨e, b, { b with path := some path, fallback := fallback }, rfl, hb, rfl, rfl,
          rfl⟩

/-- A path that a binding has already, with the fallback that goes with it, changes nothing. -/
theorem recordPath_of_recorded {s : Store} {t : TracedPath} {e : Element} {b : Binding}
    (he : s.element? t.element = some e) (hb : binding? e.properties t.slot = some b)
    (hpath : b.path = some t.path) (hfallback : t.slot = .content → b.fallback = t.fallback) :
    s.recordPath t = (s, false) := by
  obtain ⟨id, slot, path, fallback⟩ := t
  unfold recordPath
  cases slot with
  | style key => simp_all
  | content => simp_all

end Store

end DesignSync

import Mathlib.Data.List.Basic
import Mathlib.Data.List.Induction
import DesignSync.Preview.Artifact
import DesignSync.Proofs.Json.Unambiguous

/-!
The text of an artifact tells its definitions and its values, also where these hold texts that look
like a props module. So a text is only taken for one that was written already if the artifact is the
one it was written for.
-/

namespace DesignSync

open Json

/-! ### JSON forms -/

/-- Whether the value of a prop has no infinite number and nothing unfit in it. -/
def PropValue.Definite (v : PropValue) : Prop := v.value.Definite

structure ComponentProp.Definite (p : ComponentProp) : Prop where
  defaultValue : p.defaultValue.Definite
  values : ∀ v ∈ p.values, v.Definite

/-- Whether an artifact has no infinite number and nothing unfit in it. -/
structure Artifact.Definite (a : Artifact) : Prop where
  definitions : ∀ p ∈ a.definitions, p.Definite
  values : ∀ e ∈ a.values.entries, e.2.Definite

theorem PropValue.Definite.toJson {v : PropValue} (h : v.Definite) : v.toJson.Definite := by
  have hvalue : v.value.Definite := h
  obtain ⟨id, name, value, isDefault⟩ := v
  cases name <;> simp [PropValue.toJson, member?, hvalue]

theorem ComponentProp.Definite.toJson {p : ComponentProp} (h : p.Definite) :
    p.toJson.Definite := by
  have hvalues : ∀ v ∈ p.values, v.toJson.Definite := fun v hv => (h.values v hv).toJson
  simpa [ComponentProp.toJson, h.defaultValue] using hvalues

theorem PropValue.toJson_inj {v w : PropValue} (h : v.toJson = w.toJson) : v = w := by
  obtain ⟨id, name, value, isDefault⟩ := v
  obtain ⟨id', name', value', isDefault'⟩ := w
  cases name <;> cases name' <;> simp_all [toJson, member?]

theorem ComponentProp.toJson_inj {p q : ComponentProp} (h : p.toJson = q.toJson) : p = q := by
  obtain ⟨id, name, type, defaultValue, values⟩ := p
  obtain ⟨id', name', type', defaultValue', values'⟩ := q
  have hvalues : Function.Injective (List.map PropValue.toJson) :=
    List.map_injective_iff.2 fun _ _ => PropValue.toJson_inj
  simp only [toJson, object.injEq, List.cons.injEq, Prod.mk.injEq, string.injEq, array.injEq,
    true_and, and_true] at h
  obtain ⟨rfl, rfl, rfl, rfl, hmapped⟩ := h
  rw [hvalues hmapped]

namespace Artifact

variable {a b : Artifact}

private theorem toList_append_four (s t u v w : String) : (s ++ t ++ u ++ v ++ w).toList =
    s.toList ++ (t.toList ++ (u.toList ++ (v.toList ++ w.toList))) := by
  simp only [String.toList_append, List.append_assoc]

private theorem toList_render (a : Artifact) : a.render.toList =
    "export const propDefinitions = ".toList ++
      ((Json.array (a.definitions.map ComponentProp.toJson)).pretty.toList ++
        (";\n\nexport const props = ".toList ++
          ((Json.ofDict id a.values).pretty.toList ++ ";\n".toList))) :=
  toList_append_four _ _ _ _ _

private theorem endsNumber_semicolon {s : String} (h : s.toList.head? = some ';') (tail : List Char) :
    EndsNumber (s.toList ++ tail) := by
  have hhead : (s.toList ++ tail).head? = some ';' := by rw [List.head?_append, h, Option.some_or]
  intro c hc
  rw [hhead] at hc
  cases hc
  decide

/-- The text of an artifact tells the artifact. -/
theorem render_inj (ha : a.Definite) (hb : b.Definite) (h : a.render = b.render) : a = b := by
  have hdefinitions : ∀ {c : Artifact}, c.Definite →
      (Json.array (c.definitions.map ComponentProp.toJson)).Definite := by
    intro c hc
    simpa using fun p hp => (hc.definitions p hp).toJson
  have hvalues : ∀ {c : Artifact}, c.Definite → (Json.ofDict id c.values).Definite := by
    intro c hc
    rw [Json.ofDict, definite_object, List.forall_mem_map]
    exact hc.values
  have hmiddle (tail : List Char) : EndsNumber (";\n\nexport const props = ".toList ++ tail) :=
    endsNumber_semicolon (by decide +kernel) tail
  have hend : EndsNumber (";\n".toList ++ []) := endsNumber_semicolon (by decide +kernel) []
  rw [List.append_nil] at hend
  -- whatever a string holds, each of the two values ends in front of its semicolon
  have htext := congrArg String.toList h
  rw [toList_render, toList_render] at htext
  obtain ⟨hfirst, hrest⟩ := pretty_unambiguous (hdefinitions ha) (hdefinitions hb)
    (hmiddle _) (hmiddle _) (List.append_cancel_left htext)
  obtain ⟨hsecond, -⟩ := pretty_unambiguous (hvalues ha) (hvalues hb) hend hend
    (List.append_cancel_left hrest)
  have hprops : Function.Injective (List.map ComponentProp.toJson) :=
    List.map_injective_iff.2 fun _ _ => ComponentProp.toJson_inj
  have hentries : a.values.entries = b.values.entries := by simpa [Json.ofDict] using hsecond
  obtain ⟨definitions, values⟩ := a
  obtain ⟨definitions', values'⟩ := b
  obtain rfl : definitions = definitions' := hprops (array.inj hfirst)
  obtain rfl : values = values' := Dict.ext hentries
  rfl

theorem pending?_eq_none_iff {last : Option String} :
    a.pending? last = none ↔ last = some a.render := by
  unfold pending?
  split <;> simp_all

/-! ### Artifacts one after the other -/

/-- What there is after some artifacts were offered: the text that was written last and, for the
record, the artifacts that were written, the last one first. -/
structure Offers where
  lastWritten : Option String
  written : List Artifact

namespace Offers

def start : Offers := ⟨none, []⟩

/-- An artifact that is pending is written. -/
def offer (s : Offers) (a : Artifact) : Offers :=
  match a.pending? s.lastWritten with
  | some text => ⟨some text, a :: s.written⟩
  | none => s

def offerAll (as : List Artifact) : Offers := as.foldl offer start

/-- Whether the text is that of the last artifact on record. -/
def Recorded (s : Offers) : Prop := s.lastWritten = s.written.head?.map render

theorem offer_cases (s : Offers) (a : Artifact) :
    s.lastWritten = some a.render ∧ s.offer a = s ∨
      s.offer a = ⟨some a.render, a :: s.written⟩ := by
  by_cases h : s.lastWritten = some a.render
  · exact .inl ⟨h, by rw [offer, pending?, if_pos h]⟩
  · exact .inr (by rw [offer, pending?, if_neg h])

theorem Recorded.offer {s : Offers} (h : s.Recorded) (a : Artifact) : (s.offer a).Recorded := by
  rcases s.offer_cases a with ⟨-, heq⟩ | heq
  · rw [heq]
    exact h
  · rw [heq]
    rfl

theorem lastWritten_offer (s : Offers) (a : Artifact) : (s.offer a).lastWritten = some a.render := by
  rcases s.offer_cases a with ⟨hlast, heq⟩ | heq
  · rw [heq, hlast]
  · rw [heq]

theorem mem_written_offer {s : Offers} {a b : Artifact} (h : b ∈ (s.offer a).written) :
    b = a ∨ b ∈ s.written := by
  rcases s.offer_cases a with ⟨-, heq⟩ | heq
  · rw [heq] at h
    exact .inr h
  · rw [heq] at h
    exact List.mem_cons.1 h

theorem offerAll_append (as : List Artifact) (a : Artifact) :
    offerAll (as ++ [a]) = (offerAll as).offer a := by
  rw [offerAll, List.foldl_append]
  rfl

theorem recorded_offerAll (as : List Artifact) : (offerAll as).Recorded :=
  List.foldlRecOn as _ rfl fun _ h a _ => h.offer a

/-- The text that was written last is that of the artifact that was offered last. -/
theorem lastWritten_offerAll (as : List Artifact) :
    (offerAll as).lastWritten = as.getLast?.map render := by
  induction as using List.reverseRecOn with
  | nil => rfl
  | append_singleton as a _ =>
    rw [offerAll_append, lastWritten_offer, List.getLast?_concat]
    rfl

theorem mem_of_mem_written {as : List Artifact} {b : Artifact} (h : b ∈ (offerAll as).written) :
    b ∈ as := by
  induction as using List.reverseRecOn with
  | nil => cases h
  | append_singleton as a ih =>
    rw [offerAll_append] at h
    rcases mem_written_offer h with rfl | h
    · exact List.mem_append_right _ (List.mem_singleton_self b)
    · exact List.mem_append_left _ (ih h)

end Offers

private theorem map_render_eq_iff {x : Option Artifact} (hx : ∀ b, x = some b → b.Definite)
    (ha : a.Definite) : x.map render = some a.render ↔ x = some a := by
  cases x with
  | none => simp
  | some b =>
    have hb := hx b rfl
    exact ⟨fun h => congrArg some (render_inj hb ha (Option.some.inj h)),
      fun h => congrArg (Option.map render) h⟩

/-- Artifacts with other definitions or other values have other texts. So, whatever artifacts were
offered, nothing is pending for one just when it was written last, and this is the one that was
offered last. -/
theorem pending?_offerAll :
    (∀ a b : Artifact, a.Definite → b.Definite →
      a.definitions ≠ b.definitions ∨ a.values ≠ b.values → a.render ≠ b.render) ∧
    ∀ (as : List Artifact) (a : Artifact), (∀ b ∈ a :: as, b.Definite) →
      (a.pending? (Offers.offerAll as).lastWritten = none ↔
        (Offers.offerAll as).written.head? = some a) ∧
      (Offers.offerAll as).written.head? = as.getLast? := by
  refine ⟨fun a b ha hb hother heq => ?_, fun as a hall => ⟨?_, ?_⟩⟩
  · obtain rfl := render_inj ha hb heq
    exact hother.elim (fun h => h rfl) fun h => h rfl
  · obtain ⟨ha, has⟩ := List.forall_mem_cons.1 hall
    rw [pending?_eq_none_iff, Offers.recorded_offerAll]
    exact map_render_eq_iff
      (fun b hb => has b (Offers.mem_of_mem_written (List.mem_of_mem_head? hb))) ha
  · have has := (List.forall_mem_cons.1 hall).2
    have htext := Offers.recorded_offerAll as
    rw [Offers.Recorded, Offers.lastWritten_offerAll] at htext
    cases hlast : as.getLast? with
    | none =>
      rw [hlast] at htext
      exact Option.map_eq_none_iff.1 htext.symm
    | some b =>
      rw [hlast] at htext
      exact (map_render_eq_iff
        (fun c hc => has c (Offers.mem_of_mem_written (List.mem_of_mem_head? hc)))
        (has b (List.mem_of_getLast? hlast))).1 htext.symm

/-! ### Two values of a prop -/

/-- The artifact of a component with a single prop. -/
def labelled (text : String) : Artifact := ⟨[], Dict.empty.insert "label" (.string text)⟩

private theorem definite_labelled (text : String) : (labelled text).Definite := by
  refine ⟨nofun, fun e he => ?_⟩
  rw [List.mem_singleton.1 he]
  exact definite_string text

theorem pending?_offerAll_labelled :
    (labelled "Old").render ≠ (labelled "New").render ∧
      (labelled "New").pending? (Offers.offerAll [labelled "Old", labelled "New"]).lastWritten = none ∧
      (labelled "Old").pending? (Offers.offerAll [labelled "Old", labelled "New"]).lastWritten ≠
        none := by
  obtain ⟨htexts, hoffers⟩ := pending?_offerAll
  have hvalues : (labelled "Old").values ≠ (labelled "New").values := by
    intro h
    have hentries : [("label", Json.string "Old")] = [("label", Json.string "New")] :=
      congrArg Dict.entries h
    simp at hentries
  have hall : ∀ text, ∀ b ∈ [labelled text, labelled "Old", labelled "New"], b.Definite := by
    intro text b hb
    simp only [List.mem_cons, List.not_mem_nil, or_false] at hb
    rcases hb with rfl | rfl | rfl <;> exact definite_labelled _
  obtain ⟨hnew, hlast⟩ := hoffers [labelled "Old", labelled "New"] (labelled "New") (hall "New")
  obtain ⟨hold, -⟩ := hoffers [labelled "Old", labelled "New"] (labelled "Old") (hall "Old")
  refine ⟨htexts _ _ (definite_labelled "Old") (definite_labelled "New") (.inr hvalues), hnew.2 hlast,
    fun h => ?_⟩
  have hsame := (hold.1 h).symm.trans hlast
  exact hvalues (congrArg Artifact.values (Option.some.inj hsame))

end Artifact

end DesignSync

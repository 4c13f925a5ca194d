import Mathlib.Data.List.TakeWhile
import DesignSync.Proofs.Markup.Opening

/-!
What comes back for an element looks the same when it is written once more: sizes have their units
already, names that cannot be written are gone, and bindings are told by their targets.
-/

namespace DesignSync

/-- Whether all numbers of a style are finite. -/
def Style.IsFinite (s : Style) : Prop :=
  ∀ key x, s.literal? key = some (.number x) → x.isFinite = true

namespace Markup

open Text

/-! ### Units -/

/-- Dropping at the start leaves the last character, if it is not dropped itself. -/
theorem getLast?_dropWhile {p : Char → Bool} {cs : List Char} {c : Char}
    (h : cs.getLast? = some c) (hc : p c = false) : (cs.dropWhile p).getLast? = some c := by
  have hne : cs.dropWhile p ≠ [] := by
    intro hnil
    have hall := List.dropWhile_eq_nil_iff.1 hnil c (List.mem_of_getLast? h)
    rw [hc] at hall
    cases hall
  obtain ⟨front, hfront⟩ := List.dropWhile_suffix p (l := cs)
  rw [← hfront, List.getLast?_append_of_ne_nil _ hne] at h
  exact h

theorem getLast?_of_cons {c d : Char} {cs : List Char} (h : (d :: cs).getLast? = some c)
    (hne : d ≠ c) : cs.getLast? = some c := by
  cases cs with
  | nil => exact absurd (Option.some.inj h) hne
  | cons e cs => rwa [List.getLast?_cons_cons] at h

theorem isExponent_of_unit {cs : List Char} (h : cs.getLast? = some 'x') :
    Numeral.isExponent cs = false := by
  have hdigits : ∀ ds : List Char, ds.getLast? = some 'x' → ds.all Numeral.isDigit = false := by
    intro ds hds
    rw [List.all_eq_false]
    exact ⟨'x', List.mem_of_getLast? hds, by decide⟩
  cases cs with
  | nil => cases h
  | cons e rest =>
    cases rest with
    | nil => simp [Numeral.isExponent]
    | cons d ds =>
      rw [List.getLast?_cons_cons] at h
      unfold Numeral.isExponent
      dsimp only
      split
      · next heq =>
        obtain ⟨rfl, rfl⟩ := List.cons.inj heq
        rw [hdigits _ (getLast?_of_cons h (by decide)), Bool.and_false]
      · next heq =>
        obtain ⟨rfl, rfl⟩ := List.cons.inj heq
        rw [hdigits _ (getLast?_of_cons h (by decide)), Bool.and_false]
      · rw [hdigits _ h, Bool.and_false]

/-- A text that ends with a letter that no numeral ends with is none. -/
theorem isNumeral_of_unit {cs : List Char} (h : cs.getLast? = some 'x') :
    Numeral.isNumeral cs = false := by
  unfold Numeral.isNumeral
  extract_lets body lower whole
  -- the sign in front leaves the end
  have hbody : body.getLast? = some 'x' := by
    unfold body
    split
    · exact getLast?_of_cons h (by decide)
    · exact getLast?_of_cons h (by decide)
    · exact h
  have hword : ∀ word : String, word.toList.getLast? ≠ some 'x' → (lower == word) = false := by
    intro word hword
    rw [beq_eq_false_iff_ne]
    rintro rfl
    refine hword ?_
    rw [String.toList_ofList, List.getLast?_map, hbody]
    rfl
  have hrest := getLast?_dropWhile (p := Numeral.isDigit) hbody (by decide)
  rw [hword "inf" (by decide), hword "infinity" (by decide), hword "nan" (by decide)]
  simp only [Bool.false_or]
  -- what stands behind the digits still ends with the letter, with a fraction or without
  split
  · next tail heq =>
    rw [heq] at hrest
    dsimp only
    rw [isExponent_of_unit (getLast?_dropWhile (getLast?_of_cons hrest (by decide)) (by decide)),
      Bool.and_false]
  · dsimp only
    rw [isExponent_of_unit hrest, Bool.and_false]

theorem isNumeral_px (cs : List Char) : Numeral.isNumeral (trim (cs ++ ['p', 'x'])) = false := by
  have hstart : (trimStart (cs ++ ['p', 'x'])).getLast? = some 'x' :=
    getLast?_dropWhile (by simp) (by decide)
  have hend : trim (cs ++ ['p', 'x']) = trimStart (cs ++ ['p', 'x']) := by
    refine dropEndWhile_eq_self fun c hc => ?_
    rw [hstart] at hc
    obtain rfl := Option.some.inj hc
    decide
  exact isNumeral_of_unit (hend ▸ hstart)

/-! ### Styles -/

theorem plainText_plain (x : Binary64) : x.plain.plainText = x.plainText := by
  unfold Binary64.plain
  split
  · next hzero =>
    have hone : Binary64.zero.isZero = true := rfl
    rw [Binary64.plainText, Binary64.plainText, if_pos hone, if_pos hzero]
  · rfl

theorem isFinite_plain {x : Binary64} (h : x.isFinite = true) : x.plain.isFinite = true := by
  unfold Binary64.plain
  split
  · rfl
  · exact h

/-- What comes back for a literal is written as the literal was. -/
theorem source_conveyedLiteral (key : String) {l : Literal}
    (hfinite : ∀ x, l = .number x → x.isFinite = true) :
    (literalValue key (conveyedLiteral key l)).source = (literalValue key l).source := by
  have hunit (s : String) : literalValue key (.text (s ++ "px")) = .text (s ++ "px") := by
    rw [literalValue, String.toList_append]
    rw [show "px".toList = ['p', 'x'] from rfl, isNumeral_px, Bool.and_false]
    rfl
  cases l with
  | number x =>
    have hx := hfinite x rfl
    simp only [conveyedLiteral, hx, Bool.not_true, Bool.false_eq_true, if_false]
    by_cases hsize : isSizeKey key = true
    · rw [if_pos hsize, hunit]
      simp only [literalValue, hx, hsize, Bool.not_true, Bool.false_eq_true, if_false, if_true]
    · simp only [hsize, literalValue, hx, isFinite_plain hx, Bool.not_true, Bool.false_eq_true,
        if_false, StyleValue.source, plainText_plain]
  | text s =>
    simp only [conveyedLiteral]
    split
    · next hbare => rw [hunit, literalValue, if_pos hbare]
    · rfl

variable {ctx : BindingContext}

theorem keys_conveyedStyle (s : Style) : (conveyedStyle ctx s).keys = s.keys := by
  unfold Style.keys
  congr 1
  refine Dict.ext_get? fun key => ?_
  have hliteral : (conveyedStyle ctx s).literal? key = _ := literal?_conveyedStyle s key
  have hbinding : (conveyedStyle ctx s).binding? key = _ := binding?_conveyedStyle s key
  unfold Style.literal? at hliteral
  rw [← Style.get?_bound, ← Style.get?_bound] at hbinding
  simp only [Dict.get?_extend, Dict.get?_map, hliteral, hbinding, Option.map_map, Function.comp_def]

theorem styleValue?_conveyedStyle {s : Style} (hfinite : s.IsFinite) (key : String) :
    (styleValue? ctx (conveyedStyle ctx s) key).map (fun v => entryText (key, v)) =
      (styleValue? ctx s key).map fun v => entryText (key, v) := by
  unfold styleValue?
  rw [binding?_conveyedStyle, literal?_conveyedStyle]
  cases s.binding? key with
  | some b => rfl
  | none =>
    cases hl : s.literal? key with
    | none => rfl
    | some l =>
      have hsource := source_conveyedLiteral key fun x hx => hfinite key x (hx ▸ hl)
      simp only [Option.map_none, Option.map_some, entryText, hsource]

/-- What comes back for a style is written as the style was. -/
theorem styleAttributes_conveyedStyle {s : Style} (hfinite : s.IsFinite) :
    styleAttributes ctx (conveyedStyle ctx s) = styleAttributes ctx s := by
  have hentries : (styleEntries ctx (conveyedStyle ctx s)).map entryText =
      (styleEntries ctx s).map entryText := by
    simp only [styleEntries, List.map_filterMap, keys_conveyedStyle, Option.map_map,
      Function.comp_def, styleValue?_conveyedStyle hfinite]
  have hempty := congrArg List.isEmpty hentries
  rw [List.isEmpty_map, List.isEmpty_map] at hempty
  simp only [styleAttributes, hempty, styleText, entriesText, hentries]

/-! ### Looks -/

theorem contains_filter_writable (d : Dict String) {name : String}
    (hname : isWritableName name = true) :
    (d.filter fun name _ => isWritableName name).contains name = d.contains name := by
  rw [Dict.contains, Dict.contains, Dict.get?_filter]
  cases d.get? name <;> simp [Option.filter, hname]

theorem hasBindings_conveyedStyle (s : Style) : (conveyedStyle ctx s).hasBindings = s.hasBindings := by
  unfold Style.hasBindings Style.bound conveyedStyle
  cases s.bindings with
  | none => rfl
  | some b => simp [Dict.isEmpty, Dict.map]

theorem propertyAttributes_conveyed {e : Element} (hfinite : e.properties.style.IsFinite) :
    propertyAttributes ctx (conveyed ctx e).properties = propertyAttributes ctx e.properties := by
  have hevents : ((e.properties.events.filter fun name _ =>
        !e.properties.attributes.contains name && isWritableName name).filter fun name _ =>
          !(e.properties.attributes.filter fun name _ => isWritableName name).contains name
            && isWritableName name) =
      e.properties.events.filter fun name _ =>
        !e.properties.attributes.contains name && isWritableName name := by
    refine Dict.filter_filter_of_imp fun name _ h => ?_
    rw [contains_filter_writable _ (Bool.and_eq_true_iff.1 h).2]
    exact h
  simp only [propertyAttributes, conveyed, styleAttributes_conveyedStyle hfinite, hevents]
  rw [Dict.filter_filter_of_imp fun _ _ h => h, Dict.filter_filter_of_imp fun _ _ h => h]

theorem innerOf_conveyed {e : Element} (hopen : isVoidTag e.tag = false) :
    isBare (conveyed ctx e) = isBare e ∧
      innerOf ctx (conveyed ctx e).properties = innerOf ctx e.properties := by
  have hchildren : (conveyed ctx e).children = e.children := by
    change writtenChildren e = _
    rw [writtenChildren, hopen]
    rfl
  have hcontent : (conveyed ctx e).properties.content = conveyedContent ctx e.properties.content := by
    simp only [conveyed, hopen, Bool.false_eq_true, if_false]
  have hbindings : (conveyed ctx e).properties.hasBindings = e.properties.hasBindings := by
    rw [Properties.hasBindings, Properties.hasBindings, hcontent]
    simp only [conveyed, hasBindings_conveyedStyle, conveyedContent, Option.isSome_map]
  constructor
  · simp only [isBare, hbindings, hchildren, hcontent, conveyedContent, Content.isEmpty,
      Content.hasLiteral, Option.isNone_map]
  · simp only [innerOf, hbindings, hcontent, conveyedContent]
    cases e.properties.content.binding <;> rfl

/-- What comes back for an element looks as the element did. -/
theorem lookOf_conveyed {e : Element} (hfinite : e.properties.style.IsFinite) :
    lookOf ctx (conveyed ctx e) = lookOf ctx e := by
  have hinner : (if isVoidTag e.tag || isBare (conveyed ctx e) then none
        else some (innerOf ctx (conveyed ctx e).properties)) =
      if isVoidTag e.tag || isBare e then none else some (innerOf ctx e.properties) := by
    cases hvoid : isVoidTag e.tag with
    | true => rfl
    | false => rw [(innerOf_conveyed hvoid).1, (innerOf_conveyed hvoid).2]
  have hmetadata : metadataAttributes (conveyed ctx e) = metadataAttributes e := rfl
  rw [lookOf, propertyAttributes_conveyed hfinite, hmetadata]
  exact congrArg (Look.mk e.tag _) hinner

theorem writtenChildren_conveyed (e : Element) :
    writtenChildren (conveyed ctx e) = writtenChildren e := by
  change (if isVoidTag e.tag then [] else writtenChildren e) = writtenChildren e
  unfold writtenChildren
  cases isVoidTag e.tag <;> rfl

theorem resolved_conveyed {e : Element} (h : Resolved ctx e.properties) :
    Resolved ctx (conveyed ctx e).properties where
  style key b hb := by
    change (conveyedStyle ctx e.properties.style).binding? key = some b at hb
    rw [binding?_conveyedStyle] at hb
    obtain ⟨d, hd, rfl⟩ := Option.map_eq_some_iff.1 hb
    exact h.style key d hd
  content b hb := by
    simp only [conveyed] at hb
    split at hb
    · cases hb
    · obtain ⟨d, hd, rfl⟩ := Option.map_eq_some_iff.1 hb
      exact h.content d hd

/-- What comes back for a grove has the lines of the grove. -/
theorem groveText_conveyed {g : Grove} (hfinite : ∀ e ∈ g.preorder, e.properties.style.IsFinite)
    (depth : Nat) : groveText (lookOf ctx) depth (g.map (conveyed ctx)) =
      groveText (lookOf ctx) depth g := by
  induction g generalizing depth with
  | nil => rfl
  | cons e below beside ihb ihs =>
    have hbelow := ihb (fun x hx => hfinite x (by simp [Grove.preorder, hx])) (depth + 1)
    have hbeside := ihs (fun x hx => hfinite x (by simp [Grove.preorder, hx])) depth
    simp only [Grove.map, groveText, lookOf_conveyed (hfinite e (by simp [Grove.preorder])), hbelow,
      hbeside]

/-- What comes back for a tree has the text of the tree. -/
theorem text_write_conveyed {es : List Element} {e : Element} {below : Grove}
    (hfollows : (Grove.cons e below .nil).Follows writtenChildren)
    (hstored : (Grove.cons e below .nil).StoredIn es) (hnodup : (Grove.cons e below .nil).ids.Nodup)
    (hresolved : ∀ x ∈ (Grove.cons e below .nil).preorder, Resolved ctx x.properties)
    (hfinite : ∀ x ∈ (Grove.cons e below .nil).preorder, x.properties.style.IsFinite) :
    (write ctx ((Grove.cons e below .nil).preorder.map (conveyed ctx)) e.id).text =
      (write ctx es e.id).text := by
  have hid : ∀ x : Element, (conveyed ctx x).id = x.id := fun _ => rfl
  have hnodup' := Grove.ids_map hid (.cons e below .nil) ▸ hnodup
  have hfollows' : ((Grove.cons e below .nil).map (conveyed ctx)).Follows writtenChildren :=
    hfollows.map hid fun x _ => writtenChildren_conveyed x
  rw [← Grove.preorder_map, text_write hfollows hstored hnodup hresolved]
  refine (text_write (e := conveyed ctx e) hfollows' (Grove.storedIn_preorder hnodup') hnodup'
    fun x hx => ?_).trans (groveText_conveyed hfinite 0)
  obtain ⟨d, hd, rfl⟩ := List.mem_map.1 (Grove.preorder_map _ (.cons e below .nil) ▸ hx)
  exact resolved_conveyed (hresolved d hd)

end Markup

end DesignSync

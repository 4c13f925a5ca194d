import DesignSync.Proofs.Markup.Leaf
import DesignSync.Proofs.Markup.RoundTrip
import DesignSync.Proofs.Markup.Silent

/-!
What was read can be written and read once more, as long as braces still hold what is kept as source
and all numbers are finite. The elements are then as before, but for what the writer reports and for
the units of sizes, and their text is the same from then on.
-/

namespace DesignSync.Markup

open Text

variable {ctx : BindingContext}

/-! ### What a writer comes to -/

/-- A grove without what is below tags that have no content. -/
def reached : Grove → Grove
  | .nil => .nil
  | .cons e below beside =>
    .cons e (if isVoidTag e.tag then .nil else reached below) (reached beside)

theorem roots_reached (g : Grove) : (reached g).roots = g.roots := by
  induction g with
  | nil => rfl
  | cons e below beside _ ihs => rw [reached, Grove.roots, Grove.roots, ihs]

theorem sublist_reached (g : Grove) : (reached g).preorder.Sublist g.preorder := by
  induction g with
  | nil => exact .slnil
  | cons e below beside ihb ihs =>
    refine .cons_cons e (.append ?_ ihs)
    split
    · exact List.nil_sublist _
    · exact ihb

theorem follows_reached {g : Grove} (h : g.Follows Element.children) :
    (reached g).Follows writtenChildren := by
  induction g with
  | nil => trivial
  | cons e below beside ihb ihs =>
    obtain ⟨hroots, hbelow, hbeside⟩ := h
    refine ⟨?_, ?_, ihs hbeside⟩
    · unfold writtenChildren
      split
      · rfl
      · rw [hroots, roots_reached]
    · split
      · trivial
      · exact ihb hbelow

/-- A writer comes to everything, if tags without content have no children. -/
theorem reached_eq_self {g : Grove} (hfollows : g.Follows Element.children)
    (h : ∀ e ∈ (reached g).preorder, isVoidTag e.tag = true → e.children = []) : reached g = g := by
  induction g with
  | nil => rfl
  | cons e below beside ihb ihs =>
    obtain ⟨hroots, hbelow, hbeside⟩ := hfollows
    simp only [reached, Grove.preorder, List.mem_cons, List.mem_append] at h
    have hrest := ihs hbeside fun x hx => h x (.inr (.inr hx))
    cases hvoid : isVoidTag e.tag with
    | true =>
      have hnil := h e (.inl rfl) hvoid
      rw [hroots] at hnil
      cases below with
      | nil => simp [reached, hrest]
      | cons => cases hnil
    | false =>
      simp only [hvoid, Bool.false_eq_true, if_false] at h
      have hinside := ihb hbelow fun x hx => h x (.inr (.inl hx))
      simp [reached, hvoid, hinside, hrest]

/-- The elements that a writer comes to are those of a grove, if it leads to each of them. -/
theorem written_eq_preorder {es : List Element} {e : Element} {below : Grove}
    (hfollows : (Grove.cons e below .nil).Follows writtenChildren)
    (hstored : (Grove.cons e below .nil).StoredIn es)
    (hnodup : (Grove.cons e below .nil).ids.Nodup) :
    written es e.id = (Grove.cons e below .nil).preorder := by
  have hid : ∀ x : Element, (pruned x).id = x.id := fun _ => rfl
  have hids := Grove.ids_map hid (.cons e below .nil)
  have hstored' : ((Grove.cons e below .nil).map pruned).StoredIn (es.map pruned) := by
    intro x hx
    rw [Grove.preorder_map] at hx
    obtain ⟨d, hd, rfl⟩ := List.mem_map.1 hx
    rw [Element.find?_map es _ hid, hid, hstored d hd]
    rfl
  have hfollows' : ((Grove.cons e below .nil).map pruned).Follows Element.children :=
    hfollows.map hid fun _ _ => rfl
  have hsubtree : Element.subtree (es.map pruned) (pruned e).id =
      ((Grove.cons e below .nil).map pruned).ids :=
    Element.subtree_eq_ids (e := pruned e) hfollows' hstored' (hids ▸ hnodup)
  rw [hid] at hsubtree
  rw [written, hsubtree, hids, filterMap_find?_of_stored hstored]

/-! ### Elements that were read -/

/-- Whether braces hold exactly what an element keeps as source. -/
structure Enclosable (e : Element) : Prop where
  handlers : ∀ name handler, e.properties.events.get? name = some handler → Captured handler
  expression : ∀ s, e.properties.content.expression = some s → Captured s

theorem IsRead.portable
    (hids : ctx.targets.Pairwise fun t u => ¬(t.kind = u.kind ∧ t.id = u.id)) {e : Element}
    (h : IsRead ctx e) (hexclusive : e.Exclusive) (henclosable : Enclosable e) : Portable ctx e where
  tag := h.tag
  flags flag hflag _ := h.properties.flags flag hflag
  attributes name hname _ := (h.properties.attributes name hname).1
  events name hname _ := by
    obtain ⟨handler, hget⟩ := Option.isSome_iff_exists.1 hname
    exact (h.properties.events name handler hget).1
  handlers name handler hget :=
    ⟨(h.properties.events name handler hget).2.2, henclosable.handlers name handler hget⟩
  expression s hs :=
    ⟨(h.content.expression s hs).1, henclosable.expression s hs, (h.content.expression s hs).2⟩
  exclusive := hexclusive
  resolved := ⟨fun key b hb => (h.properties.style key b hb).resolves hids,
    fun b hb => (h.content.binding b hb).resolves hids⟩

/-- What was read is written so that it can be read again: its text does not change any more, an
element that nothing is reported about comes back with units on its sizes, and if nothing is reported
at all then this is what comes back for the whole tree. -/
theorem read_write_read {source path : String} {t : ReadTree} (h : read source path ctx = .ok t)
    (hids : ctx.targets.Pairwise fun t u => ¬(t.kind = u.kind ∧ t.id = u.id))
    (henclosable : ∀ e ∈ t.elements, Enclosable e)
    (hfinite : ∀ e ∈ t.elements, e.properties.style.IsFinite) (path' : String) :
    ∃ again, read (write ctx t.elements t.rootId).text path' ctx = .ok ⟨t.rootId, again, []⟩ ∧
      (write ctx again t.rootId).text = (write ctx t.elements t.rootId).text ∧
      again = (written t.elements t.rootId).map (conveyed ctx) ∧
      (∀ e ∈ written t.elements t.rootId,
        (∀ d ∈ (write ctx t.elements t.rootId).diagnostics, d.element ≠ some e.id) →
          conveyed ctx e = sized e) ∧
      ((write ctx t.elements t.rootId).diagnostics = [] → again = t.elements.map sized) := by
  obtain ⟨root, below, hroot, helements, hfollows, hnodup, hexclusive⟩ := read_grove h
  have hread := isRead_of_read h
  rw [helements] at hread henclosable hfinite hexclusive ⊢
  rw [← hroot]
  have hsublist := sublist_reached (.cons root below .nil)
  have hstored := Grove.storedIn_preorder hnodup
  have hfollows' := follows_reached hfollows
  have hstored' : (reached (.cons root below .nil)).StoredIn (Grove.cons root below .nil).preorder :=
    fun x hx => hstored x (hsublist.subset hx)
  have hnodup' : (reached (.cons root below .nil)).ids.Nodup := (hsublist.map _).nodup hnodup
  have hportable : ∀ x ∈ (reached (.cons root below .nil)).preorder, Portable ctx x := fun x hx =>
    (hread x (hsublist.subset hx)).portable hids (hexclusive x (hsublist.subset hx))
      (henclosable x (hsublist.subset hx))
  have hwritten := written_eq_preorder hfollows' hstored' hnodup'
  have hsilent : ∀ e ∈ (reached (.cons root below .nil)).preorder,
      (∀ d ∈ (write ctx (Grove.cons root below .nil).preorder root.id).diagnostics,
        d.element ≠ some e.id) → Whole e := by
    intro e he hnone
    rw [write_eq, writeTasks_root hfollows' hstored' hnodup'] at hnone
    obtain ⟨depth, hmem⟩ := mem_diagnostics_writtenGrove ctx hfollows' he 0
    have hnothing : (writeOpening ctx depth e).1.diagnostics = [] :=
      List.eq_nil_iff_forall_not_mem.2 fun d hd =>
        hnone d (hmem d hd) ((reportedFor_writeOpening depth).element d hd)
    exact whole_of_silent hnothing
  refine ⟨_, (read_of_portable hportable hfollows' hstored' hnodup' path' "").1,
    text_write_conveyed hfollows' hstored' hnodup' (fun x hx => (hportable x hx).resolved)
      fun x hx => hfinite x (hsublist.subset hx), ?_, ?_, ?_⟩
  · exact congrArg (List.map (conveyed ctx)) hwritten.symm
  · intro e he hnone
    rw [hwritten] at he
    exact conveyed_of_whole hids (hread e (hsublist.subset he)) (hsilent e he hnone)
  · intro hnothing
    have hwhole : ∀ e ∈ (reached (.cons root below .nil)).preorder, Whole e := by
      refine fun e he => hsilent e he fun d hd => ?_
      rw [hnothing] at hd
      cases hd
    have hall := reached_eq_self hfollows fun e he hvoid => ((hwhole e he).inside hvoid).2
    change (reached (.cons root below .nil)).preorder.map (conveyed ctx) = _
    rw [hall] at hwhole ⊢
    exact List.map_congr_left fun e he => conveyed_of_whole hids (hread e he) (hwhole e he)

private theorem enclosable_cardTree :
    ∀ e ∈ cardTree.map (conveyed cardContext), Enclosable e := by
  intro e he
  obtain ⟨x, hx, rfl⟩ := List.mem_map.1 he
  have hspellable := spellable_cardTree x hx
  refine ⟨fun name handler h => ?_, fun expression h => ?_⟩
  · have hevents : (x.properties.events.filter fun name _ =>
        !x.properties.attributes.contains name && isWritableName name).get? name =
          some handler := h
    rw [Dict.get?_filter, Option.filter_eq_some_iff] at hevents
    exact (hspellable.handlers name handler hevents.1).2
  · simp only [cardTree, List.mem_cons, List.not_mem_nil, or_false] at hx
    rcases hx with rfl | rfl <;> cases h

theorem read_write_read_cardTree :
    let card := cardTree.map (conveyed cardContext)
    read (write cardContext cardTree "card").text "a.jsx" cardContext = .ok ⟨"card", card, []⟩ ∧
      ∃ again, read (write cardContext card "card").text "b.jsx" cardContext =
          .ok ⟨"card", again, []⟩ ∧
        (write cardContext again "card").text = (write cardContext card "card").text ∧
        again = (written card "card").map (conveyed cardContext) ∧
        (∀ e ∈ written card "card",
          (∀ d ∈ (write cardContext card "card").diagnostics, d.element ≠ some e.id) →
            conveyed cardContext e = sized e) ∧
        ((write cardContext card "card").diagnostics = [] → again = card.map sized) := by
  intro card
  refine ⟨read_cardTree "a.jsx", read_write_read (read_cardTree "a.jsx") (by decide)
    enclosable_cardTree (fun e he => ?_) "b.jsx"⟩
  obtain ⟨x, hx, rfl⟩ := List.mem_map.1 he
  simp only [cardTree, List.mem_cons, List.not_mem_nil, or_false] at hx
  rcases hx with rfl | rfl <;> exact fun _ _ h => (by cases h)

/-- An element with a handler and nothing else. -/
def clickable (handler : String) : Element :=
  ⟨"a", "div", .element, none, ⟨.screen, "S1"⟩,
    { Properties.empty with events := Dict.empty.insert "onClick" handler }, none⟩

/-- A source for such an element. -/
def clickableSource (handler : String) : String :=
  "<div id=\"a\" ownership-type=\"screen\" owner-id=\"S1\" onClick=" ++ braced handler ++ " />"

/-- Why a source has no tree, if it has none. -/
def treeError? (source : String) : Option ReadError :=
  match readTree source with
  | .ok _ => none
  | .error e => some e

theorem read_of_treeError? {source path : String} {e : ReadError} (h : treeError? source = some e) :
    read source path ctx = .error e := by
  unfold treeError? at h
  split at h
  · cases h
  · next heq =>
    rw [read, heq, Option.some.inj h]
    rfl

/-- A handler that ends in a comment is kept without the line feed behind the comment. Written back,
the comment takes the closing brace with it, and the text cannot be read again. -/
theorem write_comment_unreadable :
    read (clickableSource "go() // later\n") "a.jsx" .empty =
        .ok ⟨"a", [clickable "go() // later"], []⟩ ∧
      read (write .empty [clickable "go() // later"] "a").text "a.jsx" .empty =
        .error (.endOfInput (.symbol .rightBrace)) := by
  have hleaf : readsLeaf (clickableSource "go() // later\n") "a.jsx" .empty
      (Dict.empty.insert "onClick" "go() // later") = true := by decide +kernel
  refine ⟨read_of_readsLeaf hleaf, ?_⟩
  have htext : (write .empty [clickable "go() // later"] "a").text =
      groveText (lookOf .empty) 0 (.cons (clickable "go() // later") .nil .nil) := by
    refine text_write (e := clickable "go() // later") ⟨rfl, trivial, trivial⟩ (fun x hx => ?_)
      (List.nodup_singleton _) fun x hx => ?_
    · rw [List.mem_singleton.1 hx]
      rfl
    · rw [List.mem_singleton.1 hx]
      exact ⟨fun _ _ h => (by cases h), fun _ h => (by cases h)⟩
  have herror : treeError? (groveText (lookOf .empty) 0
      (.cons (clickable "go() // later") .nil .nil)) = some (.endOfInput (.symbol .rightBrace)) := by
    decide +kernel
  rw [htext]
  exact read_of_treeError? herror

end DesignSync.Markup

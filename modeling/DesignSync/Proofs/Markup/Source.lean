import DesignSync.Proofs.Markup.Layout

/-!
Whole sources: a root element by itself, or as what the function of a module returns. Reading passes
over the tokens of the module in front of its `return`.
-/

namespace DesignSync.Markup

open Text

variable {p : Place} {g cs rest more : List Char} {t : Token}

/-! ### The root element -/

theorem isGap_append {a b : List Char} (ha : IsGap a) (hb : IsGap b) : IsGap (a ++ b) := by
  intro c hc
  exact (List.mem_append.1 hc).elim (ha c) (hb c)

theorem isGap_spaces (n : Nat) : IsGap (spaces n) := fun _ hc => .inl (List.mem_replicate.1 hc).2

theorem lexes_angle (cs : List Char) : Lexes ('<' :: cs) (.symbol .leftAngle) cs :=
  Lexes.symbol (s := .leftAngle) (by decide) cs

/-- The text of a tree with nothing beside it, up to the end of the root's header. -/
private theorem toList_root (look : Element → Look) (depth : Nat) (e : Element) (below : Grove)
    (more : List Char) : (groveText look depth (.cons e below .nil)).toList ++ more =
      spaces (2 * depth) ++ '<' ::
        ((headerSource (look e).tag (look e).attributes (look e).inner.isNone).toList ++ '\n' ::
          (((look e).inner.elim "" fun inner => inner.source (depth + 1)
            ++ groveText look (depth + 1) below ++ closingLine depth (look e).tag).toList ++ more)) := by
  simp only [groveText, String.toList_append, List.append_assoc, String.toList_empty,
    List.nil_append, toList_line]
  rfl

/-- A tree with nothing beside it is read as the root. -/
theorem readElement_of_grove {look : Element → Look} {e : Element} {below : Grove}
    (hroot : ∀ x ∈ (Grove.cons e below .nil).preorder, (look x).IsReadable) (depth : Nat)
    (hgap : IsGap g)
    (hp : p.rest = g ++ ((groveText look depth (.cons e below .nil)).toList ++ more)) :
    ∃ tree q, readElement p = .ok (tree, q) ∧ q.rest = '\n' :: more ∧
      (look e).IsSaid (SaysGrove look below) tree.head tree.children := by
  have hlook := hroot e (by simp [Grove.preorder])
  have hbelow : ∀ x ∈ below.preorder, (look x).IsReadable := fun x hx =>
    hroot x (by simp [Grove.preorder, hx])
  rw [toList_root, ← List.append_assoc] at hp
  obtain ⟨start, stop, hpeek, -, hstop⟩ :=
    peekWanted_of_lexes .element hp (isGap_append hgap (isGap_spaces _)) (lexes_angle _)
  obtain ⟨bs, q, hheader, hsays, hq⟩ := readHeader_of_source (look e).inner.isNone hlook.tag
    hlook.names hlook.said hstop
  cases hinner : (look e).inner with
  | none =>
    rw [hinner] at hheader hq
    refine ⟨⟨⟨(look e).tag, bs, true, start.spanTo q⟩, []⟩, q, ?_, hq,
      ⟨rfl, hsays, by rw [hinner]⟩⟩
    rw [readElement, hpeek]
    simp only [hheader, Option.isNone_none, if_true]
  | some inner =>
    rw [hinner] at hheader hq
    obtain ⟨nodes, r, hr, hyields, hinside⟩ := yields_inside (hlook.inner inner hinner)
      (fun _ hcs => startsLine_groveText look below hcs) (yields_grove hbelow (depth + 1)) hq
    obtain ⟨t, ht, hclose⟩ := readContent_closing hlook.tag hr
    refine ⟨(OpenElement.pushAll ⟨start, (look e).tag, bs, []⟩ nodes).close t, t, ?_, ht,
      ⟨rfl, hsays, ?_⟩⟩
    · rw [readElement, hpeek]
      simp only [hheader, Option.isNone_some, Bool.false_eq_true, if_false]
      rw [hyields, (hclose _ rfl).1]
    · rw [hinner]
      simpa [OpenElement.close, OpenElement.pushAll] using hinside

/-- An element begins with an angle bracket. -/
theorem peek_of_grove {look : Element → Look} {depth : Nat} {e : Element} {below : Grove}
    (hgap : IsGap g)
    (hp : p.rest = g ++ ((groveText look depth (.cons e below .nil)).toList ++ more)) :
    ∃ start stop, peek p = .ok (some ⟨.symbol .leftAngle, start, stop⟩) := by
  rw [toList_root, ← List.append_assoc] at hp
  obtain ⟨start, stop, hpeek, -, -⟩ :=
    peek_of_lexes hp (isGap_append hgap (isGap_spaces _)) (lexes_angle _)
  exact ⟨start, stop, hpeek⟩

theorem readRootElement_of_grove {look : Element → Look} {e : Element} {below : Grove}
    (hroot : ∀ x ∈ (Grove.cons e below .nil).preorder, (look x).IsReadable) (depth : Nat)
    (hgap : IsGap g)
    (hp : p.rest = g ++ ((groveText look depth (.cons e below .nil)).toList ++ more)) :
    ∃ tree q, readRootElement p = .ok (tree, q) ∧ q.rest = '\n' :: more ∧
      (look e).IsSaid (SaysGrove look below) tree.head tree.children := by
  obtain ⟨tree, q, hread, hq, hsaid⟩ := readElement_of_grove hroot depth hgap hp
  obtain ⟨start, stop, hpeek⟩ := peek_of_grove hgap hp
  exact ⟨tree, q, by rw [readRootElement, hpeek]; exact hread, hq, hsaid⟩

/-- The root by itself, or in parentheses. -/
theorem readRoot_of_grove {look : Element → Look} {e : Element} {below : Grove}
    (hroot : ∀ x ∈ (Grove.cons e below .nil).preorder, (look x).IsReadable) (depth : Nat)
    (hgap : IsGap g)
    (hp : p.rest = g ++ ((groveText look depth (.cons e below .nil)).toList ++ more)) :
    ∃ tree, readRoot p = .ok tree ∧
      (look e).IsSaid (SaysGrove look below) tree.head tree.children := by
  obtain ⟨tree, q, hread, -, hsaid⟩ := readRootElement_of_grove hroot depth hgap hp
  obtain ⟨start, stop, hpeek⟩ := peek_of_grove hgap hp
  refine ⟨tree, ?_, hsaid⟩
  rw [readRoot, hpeek]
  simp only [hread]
  rfl

theorem readRoot_of_parentheses {look : Element → Look} {e : Element} {below : Grove}
    (hroot : ∀ x ∈ (Grove.cons e below .nil).preorder, (look x).IsReadable) (depth : Nat)
    {inner outer : List Char} (hgap : IsGap g) (hinner : IsGap inner) (houter : IsGap outer)
    (hp : p.rest = g ++ '(' :: (inner ++ ((groveText look depth (.cons e below .nil)).toList ++
      (outer ++ ')' :: rest)))) :
    ∃ tree, readRoot p = .ok tree ∧
      (look e).IsSaid (SaysGrove look below) tree.head tree.children := by
  obtain ⟨start, stop, hpeek, -, hstop⟩ :=
    peek_of_lexes hp hgap (Lexes.symbol (s := .leftParen) (by decide) _)
  obtain ⟨tree, q, hread, hq, hsaid⟩ := readRootElement_of_grove hroot depth hinner hstop
  have hline : IsGap ('\n' :: outer) := isGap_append (a := ['\n']) (by simp [IsGap]) houter
  obtain ⟨r, hexpect, -⟩ :=
    expect_of_lexes hq hline (Lexes.symbol (s := .rightParen) (by decide) _)
  refine ⟨tree, ?_, hsaid⟩
  rw [readRoot, hpeek]
  simp only [hread, hexpect]
  rfl

/-! ### Sources -/

theorem readTree_of_grove {look : Element → Look} {e : Element} {below : Grove}
    (hroot : ∀ x ∈ (Grove.cons e below .nil).preorder, (look x).IsReadable) :
    ∃ tree, readTree (groveText look 0 (.cons e below .nil)) = .ok tree ∧
      (look e).IsSaid (SaysGrove look below) tree.head tree.children := by
  have htext := toList_root look 0 e below []
  rw [List.append_nil] at htext
  set start := Place.start (groveText look 0 (.cons e below .nil)).toList with hstart
  obtain ⟨cs, hcs⟩ : ∃ cs, start.rest = '<' :: cs := ⟨_, htext⟩
  have hskip := skipGap_of_solid (by decide) (by decide) hcs
  obtain ⟨tree, hread, hsaid⟩ := readRoot_of_grove (p := start) (g := []) hroot 0 (by simp [IsGap])
    (List.append_nil _).symm
  refine ⟨tree, ?_, hsaid⟩
  unfold readTree
  simp only [← hstart, hskip, hcs]
  exact hread

/-- Tokens in front of the `return` of a module. -/
def Passes (cs rest : List Char) : Prop :=
  ∀ p : Place, p.rest = cs → ∃ q, q.rest = rest ∧ skipToReturn p = skipToReturn q

theorem peekLenient_of_lexes (hp : p.rest = g ++ cs) (hgap : IsGap g) (h : Lexes cs t rest) :
    ∃ x, peekLenient p = some x ∧ x.token = t ∧ x.stop.rest = rest := by
  obtain ⟨start, stop, hlex, -, hstop⟩ := lexFrom_of_lexes hp hgap h
  refine ⟨⟨t, start, stop⟩, ?_, rfl, hstop⟩
  rw [peekLenient_eq, hlex]

namespace Passes

theorem nil (cs : List Char) : Passes cs cs := fun p hp => ⟨p, hp, rfl⟩

theorem token (h : Lexes cs t rest) (ht : t ≠ .keyword .returnWord) (hrest : Passes rest more) :
    Passes cs more := by
  intro p hp
  obtain ⟨x, hpeek, rfl, hx⟩ := peekLenient_of_lexes (g := []) hp (by simp [IsGap]) h
  obtain ⟨q, hq, hmore⟩ := hrest x.stop hx
  refine ⟨q, hq, ?_⟩
  rw [← hmore, skipToReturn_eq, hpeek]
  exact if_neg ht

theorem blank {c : Char} (hc : c = ' ' ∨ c = '\n') (h : Passes cs more) :
    Passes (c :: cs) more := by
  intro p hp
  have hskip : (p.skip 1).rest = cs := by simp [Place.skip, hp]
  have hgap : IsGap [c] := by simpa [IsGap] using hc
  have hlex : lexFrom p = lexFrom (p.skip 1) := lexFrom_gap hp hgap
  obtain ⟨q, hq, hmore⟩ := h _ hskip
  refine ⟨q, hq, ?_⟩
  have hpeek : peekLenient p = peekLenient (p.skip 1) := by
    rw [peekLenient_eq, peekLenient_eq, hlex]
  rw [← hmore, skipToReturn_eq, skipToReturn_eq (p.skip 1), hpeek]

theorem symbol {s : Symbol} (h : isFirmSymbol s.char = true) (hrest : Passes rest more) :
    Passes (s.char :: rest) more :=
  token (Lexes.symbol h rest) (by simp) hrest

theorem word {w : String} (hword : isIdentifier w.toList = true) (hne : w ≠ "return")
    (hends : EndsWord rest) (hrest : Passes rest more) : Passes (w.toList ++ rest) more := by
  refine token (Lexes.word hword hends) (fun heq => hne ?_) hrest
  have hname := name?_wordToken (String.ofList w.toList) rest.head?
  rw [heq, String.ofList_toList] at hname
  exact (Option.some.inj hname).symm

end Passes

/-! ### Modules -/

theorem mem_of_mem_splitWhere {f : Char → Bool} {cs piece : List Char}
    (h : piece ∈ splitWhere f cs) {c : Char} (hc : c ∈ piece) : c ∈ cs ∧ f c = false := by
  induction cs generalizing piece with
  | nil =>
    obtain rfl := List.mem_singleton.1 h
    cases hc
  | cons d cs ih =>
    rw [splitWhere] at h
    split at h
    · next hnil => exact absurd hnil (splitWhere_ne_nil f cs)
    · next first pieces hsplit =>
      rw [hsplit] at ih
      have hrest (piece : List Char) (hpiece : piece ∈ first :: pieces) (hc : c ∈ piece) :
          c ∈ d :: cs ∧ f c = false :=
        ⟨List.mem_cons_of_mem _ (ih hpiece hc).1, (ih hpiece hc).2⟩
      split at h
      · rcases List.mem_cons.1 h with rfl | h
        · cases hc
        · exact hrest piece h hc
      · next hd =>
        rcases List.mem_cons.1 h with rfl | h
        · rcases List.mem_cons.1 hc with rfl | hc
          · exact ⟨List.mem_cons_self, by simpa using hd⟩
          · exact hrest first List.mem_cons_self hc
        · exact hrest piece (List.mem_cons_of_mem _ h) hc

/-- Whether a word character stays one, and can start a name, as a capital. -/
theorem toUpper_of_isWordChar {c : Char} (h : isWordChar c = true) :
    isNameChar c = true ∧ isNameChar c.toUpper = true ∧ c.toUpper ≠ 'r' ∧
      (('0' ≤ c.toUpper ∧ c.toUpper ≤ '9') ∨ isNameStart c.toUpper = true) := by
  have hall : ∀ n : Fin 128, isWordChar (Char.ofNat n) = true →
      isNameChar (Char.ofNat n) = true ∧ isNameChar (Char.ofNat n).toUpper = true ∧
      (Char.ofNat n).toUpper ≠ 'r' ∧
      (('0' ≤ (Char.ofNat n).toUpper ∧ (Char.ofNat n).toUpper ≤ '9') ∨
        isNameStart (Char.ofNat n).toUpper = true) := by decide
  have hsmall : c.toNat < 128 := by
    simp only [isWordChar, Bool.or_eq_true, Bool.and_eq_true, decide_eq_true_eq] at h
    rcases h with (⟨_, h⟩ | ⟨_, h⟩) | ⟨_, h⟩
    · have h' : c.toNat ≤ 122 := h
      omega
    · have h' : c.toNat ≤ 90 := h
      omega
    · have h' : c.toNat ≤ 57 := h
      omega
  have hc := hall ⟨c.toNat, hsmall⟩
  simp only [Char.ofNat_toNat] at hc
  exact hc h

private theorem isNameChar_of_mem_capitalized {piece : List Char}
    (hpiece : ∀ c ∈ piece, isWordChar c = true) {c : Char} (hc : c ∈ capitalized piece) :
    isNameChar c = true := by
  cases piece with
  | nil => cases hc
  | cons d piece =>
    rcases List.mem_cons.1 hc with rfl | hc
    · exact (toUpper_of_isWordChar (hpiece d List.mem_cons_self)).2.1
    · exact (toUpper_of_isWordChar (hpiece c (List.mem_cons_of_mem _ hc))).1

private theorem head?_of_capitalized {pieces : List (List Char)}
    (hpieces : ∀ piece ∈ pieces, ∀ c ∈ piece, isWordChar c = true) {c : Char}
    (hc : c ∈ (pieces.flatMap capitalized).head?) :
    c ≠ 'r' ∧ (('0' ≤ c ∧ c ≤ '9') ∨ isNameStart c = true) := by
  induction pieces with
  | nil => cases hc
  | cons piece pieces ih =>
    cases piece with
    | nil => exact ih (fun q hq => hpieces q (List.mem_cons_of_mem _ hq)) hc
    | cons d piece =>
      obtain rfl : d.toUpper = c := Option.some.inj hc
      exact (toUpper_of_isWordChar (hpieces _ List.mem_cons_self d List.mem_cons_self)).2.2

/-- The name of a module's function is an identifier and no `return`. -/
theorem isIdentifier_moduleName (name : String) :
    isIdentifier (moduleName name).toList = true ∧ moduleName name ≠ "return" := by
  have hwords : ∀ piece ∈ splitWhere (fun c => !isWordChar c) name.toList, ∀ c ∈ piece,
      isWordChar c = true := fun piece hpiece c hc => by
    simpa using (mem_of_mem_splitWhere hpiece hc).2
  unfold moduleName
  dsimp only
  split
  · decide
  · next c cs hjoined =>
    have hall : ∀ d ∈ c :: cs, isNameChar d = true := by
      intro d hd
      rw [← hjoined] at hd
      obtain ⟨piece, hpiece, hd⟩ := List.mem_flatMap.1 hd
      exact isNameChar_of_mem_capitalized (hwords piece hpiece) hd
    have hhead := head?_of_capitalized hwords (c := c) (by rw [hjoined]; rfl)
    rw [hjoined]
    have hreturn : "return".toList = ['r', 'e', 't', 'u', 'r', 'n'] := by decide
    split
    · have hletters : ∀ d ∈ ['c', 'r', 'e', 'e', 'n'] ++ (c :: cs), isNameChar d = true := by
        intro d hd
        rcases List.mem_append.1 hd with hd | hd
        · have hscreen : ['c', 'r', 'e', 'e', 'n'].all isNameChar = true := by decide
          exact List.all_eq_true.1 hscreen d hd
        · exact hall d hd
      have htext : ("Screen" ++ String.ofList (c :: cs)).toList
          = 'S' :: (['c', 'r', 'e', 'e', 'n'] ++ (c :: cs)) := by simp
      constructor
      · rw [htext, isIdentifier, isWordTail_of_all (List.all_eq_true.2 hletters)]
        rfl
      · intro heq
        rw [heq, hreturn] at htext
        cases htext
    · next hdigit =>
      have htext : ("" ++ String.ofList (c :: cs)).toList = c :: cs := by simp
      have hstart : isNameStart c = true := hhead.2.resolve_left hdigit
      constructor
      · rw [htext, isIdentifier, hstart, isWordTail_of_all]
        · rfl
        · exact List.all_eq_true.2 fun d hd => hall d (List.mem_cons_of_mem _ hd)
      · intro heq
        rw [heq, hreturn] at htext
        exact hhead.1 (List.cons.inj htext).1.symm

/-- What a module says in front of the name of its function. -/
def moduleStart : String :=
  "import \x7b props \x7d from \"./props\";\n\nexport default function "

/-- The text of a module around the tree that its function returns. -/
def moduleText (name tree : String) : String :=
  moduleStart ++ moduleName name ++ "() \x7b\n" ++ line 1 "return (" ++ tree
    ++ (line 1 ");" ++ "\x7d\n")

private theorem toList_moduleStart : moduleStart.toList =
    "import".toList ++ (' ' :: '\x7b' :: ' ' :: ("props".toList ++ (' ' :: '\x7d' :: ' ' ::
      ("from".toList ++ (' ' :: ((Quoted.quoted "./props").toList ++ (';' :: '\n' :: '\n' ::
        ("export".toList ++ (' ' :: ("default".toList ++ (' ' ::
          ("function".toList ++ [' '])))))))))))) := by decide

private theorem head?_moduleStart : moduleStart.toList.head? = some 'i' := by decide

private theorem endsWord_of_cons {c : Char} (hc : isNameChar c = false ∧ c ≠ '-')
    (cs : List Char) : EndsWord (c :: cs) :=
  fun _ hd => Option.some.inj hd ▸ hc

/-- What a module says in front of its `return`. -/
private theorem passes_module (name : String) (cs : List Char) :
    Passes (moduleStart.toList ++ ((moduleName name).toList ++ ("() \x7b\n".toList ++ cs))) cs := by
  have hopen : "() \x7b\n".toList = ['(', ')', ' ', '\x7b', '\n'] := by decide
  obtain ⟨hidentifier, hreturn⟩ := isIdentifier_moduleName name
  rw [toList_moduleStart, hopen]
  simp only [List.append_assoc, List.cons_append, List.nil_append]
  have hspace (cs : List Char) : EndsWord (' ' :: cs) := endsWord_of_cons (by decide) cs
  refine .word (by decide) (by decide) (hspace _) (.blank (.inl rfl) ?_)
  refine .symbol (s := .leftBrace) rfl (.blank (.inl rfl) ?_)
  refine .word (by decide) (by decide) (hspace _) (.blank (.inl rfl) ?_)
  refine .symbol (s := .rightBrace) rfl (.blank (.inl rfl) ?_)
  refine .word (by decide) (by decide) (hspace _) (.blank (.inl rfl) ?_)
  refine .token (Lexes.quoted "./props" _) (by simp) ?_
  refine .symbol (s := .semicolon) rfl (.blank (.inr rfl) (.blank (.inr rfl) ?_))
  refine .word (by decide) (by decide) (hspace _) (.blank (.inl rfl) ?_)
  refine .word (by decide) (by decide) (hspace _) (.blank (.inl rfl) ?_)
  refine .word (by decide) (by decide) (hspace _) (.blank (.inl rfl) ?_)
  refine .word hidentifier hreturn (endsWord_of_cons (by decide) _) ?_
  refine .symbol (s := .leftParen) rfl (.symbol (s := .rightParen) rfl (.blank (.inl rfl) ?_))
  exact .symbol (s := .leftBrace) rfl (.blank (.inr rfl) (.nil cs))

/-- A `return` in front of a parenthesis ends what is passed over. -/
private theorem skipToReturn_of_return (hgap : IsGap g)
    (hp : p.rest = g ++ ("return".toList ++ ' ' :: '(' :: rest)) :
    ∃ q, skipToReturn p = .ok q ∧ q.rest = ' ' :: '(' :: rest := by
  have hreturn : Lexes ("return".toList ++ ' ' :: '(' :: rest) (.keyword .returnWord)
      (' ' :: '(' :: rest) := Lexes.word (by decide) (endsWord_of_cons (by decide) _)
  obtain ⟨x, hpeek, hx, hstop⟩ := peekLenient_of_lexes hp hgap hreturn
  obtain ⟨start, stop, hnext, -, -⟩ := peek_of_lexes (g := [' ']) hstop (by simp [IsGap])
    (Lexes.symbol (s := .leftParen) rfl rest)
  refine ⟨x.stop, ?_, hstop⟩
  rw [skipToReturn_eq, hpeek]
  dsimp only
  rw [if_pos hx, hnext]

private theorem toList_moduleText (name tree : String) : (moduleText name tree).toList =
    moduleStart.toList ++ ((moduleName name).toList ++ ("() \x7b\n".toList ++
      (spaces 2 ++ ("return".toList ++ ' ' :: '(' :: (['\n'] ++ (tree.toList ++
        (spaces 2 ++ ')' :: [';', '\n', '\x7d', '\n']))))))) := by
  have hreturn : (line 1 "return (").toList = spaces 2 ++ ("return".toList ++ [' ', '(', '\n']) := by
    decide
  have hclose : (line 1 ");" ++ "\x7d\n").toList = spaces 2 ++ ')' :: [';', '\n', '\x7d', '\n'] := by
    decide
  rw [moduleText, String.toList_append, hclose, String.toList_append, String.toList_append, hreturn,
    String.toList_append, String.toList_append]
  simp only [List.append_assoc, List.cons_append, List.nil_append]

/-- A module is read as the tree that its function returns. -/
theorem readTree_of_module {look : Element → Look} {e : Element} {below : Grove}
    (hroot : ∀ x ∈ (Grove.cons e below .nil).preorder, (look x).IsReadable) (name : String) :
    ∃ tree, readTree (moduleText name (groveText look 2 (.cons e below .nil))) = .ok tree ∧
      (look e).IsSaid (SaysGrove look below) tree.head tree.children := by
  have htext := toList_moduleText name (groveText look 2 (.cons e below .nil))
  unfold readTree
  generalize (moduleText name (groveText look 2 (.cons e below .nil))).toList = text at htext ⊢
  obtain ⟨start, hstart⟩ : ∃ start, start = Place.start text := ⟨_, rfl⟩
  have hrest : start.rest = _ := (congrArg Place.rest hstart).trans htext
  obtain ⟨cs, hcs⟩ : ∃ cs, start.rest = 'i' :: cs := by
    have hhead := head?_moduleStart
    cases hcase : moduleStart.toList with
    | nil => rw [hcase] at hhead; cases hhead
    | cons c tail =>
      rw [hcase] at hhead hrest
      obtain rfl := Option.some.inj hhead
      exact ⟨_, hrest⟩
  have hskip := skipGap_of_solid (by decide) (by decide) hcs
  obtain ⟨q, hq, hpasses⟩ := passes_module name _ start hrest
  obtain ⟨r, hfound, hr⟩ := skipToReturn_of_return (isGap_spaces 2) hq
  obtain ⟨t, hread, hsaid⟩ := readRoot_of_parentheses (g := [' ']) hroot 2 (by simp [IsGap])
    (by simp [IsGap]) (isGap_spaces 2) hr
  refine ⟨t, ?_, hsaid⟩
  simp only [← hstart, hskip, hcs, hpasses, hfound]
  exact hread

end DesignSync.Markup

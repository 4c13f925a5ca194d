import DesignSync.Proofs.Markup.RoundTrip

/-!
Member expressions as references to targets. Whatever the name of a target is, its member expression
is one chain of its space and its name, so that a reference stands for one target only.
-/

namespace DesignSync.Markup

theorem tokens?_memberExpression (kind : RefKind) (name : String) :
    ∃ ts, tokens? (memberExpression kind.space name).toList = some ts ∧
      ts.map (·.token) = memberTokens kind name :=
  (lexesAll_whole_memberExpression kind name).tokens?_eq

theorem space_inj {kind kind' : RefKind} (h : kind.space = kind'.space) : kind = kind' := by
  have hkind := congrArg RefKind.ofSpace? h
  rw [RefKind.ofSpace?_space, RefKind.ofSpace?_space] at hkind
  exact Option.some.inj hkind

theorem memberExpression_inj {kind kind' : RefKind} {name name' : String} :
    memberExpression kind.space name = memberExpression kind'.space name' ↔
      kind = kind' ∧ name = name' := by
  constructor
  · intro h
    have hclassify := congrArg Expression.classify h
    rw [classify_memberExpression, classify_memberExpression] at hclassify
    obtain ⟨hspace, hname⟩ := List.cons.inj (Expression.member.inj hclassify)
    exact ⟨space_inj hspace, (List.cons.inj hname).1⟩
  · rintro ⟨rfl, rfl⟩
    rfl

/-- The target that the source of an expression refers to. -/
def referred? (ctx : BindingContext) (source : String) : Option BindingTarget :=
  (Expression.classify source).path?.bind ctx.resolve?

/-- The member expression for a name refers to the first target that has it. -/
theorem referred?_memberExpression (ctx : BindingContext) (kind : RefKind) (name : String) :
    referred? ctx (memberExpression kind.space name) = ctx.byName? kind name := by
  rw [referred?, classify_memberExpression]
  simp [Expression.path?, BindingContext.resolve?]

/-- The reference for a binding refers to the first target with the name of the one it points at. -/
theorem referred?_reference (ctx : BindingContext) (b : Binding) :
    (ctx.reference? b).bind (referred? ctx) =
      (ctx.byId? b.kind b.refId).bind fun t => ctx.byName? b.kind t.name := by
  rw [BindingContext.reference?]
  cases ctx.byId? b.kind b.refId with
  | none => rfl
  | some t => exact referred?_memberExpression ctx b.kind t.name

/-- Every name makes a reference of its own, of any kind: all of it is tokens, it is read as the
chain of the space and the name, and no other kind or name has the same one. Where no two targets of
a kind share a name, the reference for a binding refers to the target that the binding points at,
and it is the one that is written wherever there is such a target. -/
theorem references_unambiguous (kind kind' : RefKind) (name name' : String) :
    (∃ ts, tokens? (memberExpression kind.space name).toList = some ts ∧
        ts.map (·.token) = memberTokens kind name) ∧
      Expression.classify (memberExpression kind.space name) = .member [kind.space, name] ∧
      (memberExpression kind.space name = memberExpression kind'.space name' ↔
        kind = kind' ∧ name = name') ∧
      ∀ ctx : BindingContext,
        (ctx.targets.Pairwise fun t u => ¬(t.kind = u.kind ∧ t.name = u.name)) → ∀ b : Binding,
          (ctx.reference? b).bind (referred? ctx) = ctx.byId? b.kind b.refId ∧
            ∀ t id slot, ctx.byId? b.kind b.refId = some t →
              (reference ctx id b slot).1.bind (referred? ctx) = some t := by
  refine ⟨tokens?_memberExpression kind name, classify_memberExpression kind name,
    memberExpression_inj, fun ctx hnames b => ?_⟩
  have hpoints : (ctx.reference? b).bind (referred? ctx) = ctx.byId? b.kind b.refId := by
    rw [referred?_reference]
    cases hid : ctx.byId? b.kind b.refId with
    | none => rfl
    | some t =>
      obtain ⟨u, hu, hname⟩ := resolves_of_names hnames (Option.isSome_of_eq_some hid)
      obtain rfl : t = u := Option.some.inj (hid.symm.trans hu)
      exact hname
  refine ⟨hpoints, fun t id slot ht => ?_⟩
  have hresolves := resolves_of_names hnames (Option.isSome_of_eq_some ht)
  rw [reference_of_resolves hresolves id slot, hpoints, ht]

/-- Targets that are named like a keyword, by no character at all, and by characters that end a
string or a line. -/
def oddTargets : BindingContext where
  targets := [⟨.prop, "p", "return", none⟩, ⟨.prop, "q", "", none⟩, ⟨.token, "q", "", none⟩,
    ⟨.prop, "r", "a\"]\\\n", none⟩]

theorem references_unambiguous_odd :
    (oddTargets.targets.Pairwise fun t u => ¬(t.kind = u.kind ∧ t.name = u.name)) ∧
      ∀ slot,
        (reference oddTargets "e" ⟨.token, "q", none, none⟩ slot).1.bind (referred? oddTargets) =
            some ⟨.token, "q", "", none⟩ ∧
          (reference oddTargets "e" ⟨.prop, "r", none, none⟩ slot).1.bind (referred? oddTargets) =
            some ⟨.prop, "r", "a\"]\\\n", none⟩ := by
  have hnames : oddTargets.targets.Pairwise fun t u => ¬(t.kind = u.kind ∧ t.name = u.name) := by
    decide
  have hpoints := (references_unambiguous .token .prop "" "a\"]\\\n").2.2.2 oddTargets hnames
  exact ⟨hnames, fun slot => ⟨(hpoints ⟨.token, "q", none, none⟩).2 _ "e" slot (by decide),
    (hpoints ⟨.prop, "r", none, none⟩).2 _ "e" slot (by decide)⟩⟩

end DesignSync.Markup

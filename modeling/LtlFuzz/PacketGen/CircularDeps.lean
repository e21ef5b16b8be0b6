import LtlFuzz.PacketGen.SyntaxSoundness

/-! Circular dependencies. The search for cycles sees the nonterminals of an expression except
those in a cast; what it misses stays circular. -/

namespace LtlFuzz.PacketGen

section Walks

variable {α : Type} {step visible : α → α → Prop}

/-- Where every edge on a cycle is visible, cycles are visible. -/
private theorem visible_walk (seen : ∀ x y, step x y → Relation.ReflTransGen step y x → visible x y) {x y : α}
    (walk : Relation.TransGen step x y) (back : Relation.ReflTransGen step y x) : Relation.TransGen visible x y := by
  induction walk with
  | single edge => exact .single (seen _ _ edge back)
  | tail first edge ih =>
    refine .tail (ih (.head edge back)) (seen _ _ edge ?_)
    exact back.trans first.to_reflTransGen

/-- Induction along a relation without cycles that leads to finitely many things. -/
theorem acyclic_induction {nodes : Set α} (finite : nodes.Finite) (targets : ∀ x y, step x y → y ∈ nodes)
    (acyclic : ∀ x, ¬Relation.TransGen step x x) {p : α → Prop} (induct : ∀ x, (∀ y, step x y → p y) → p x) (x : α) : p x := by
  have order : IsStrictOrder α fun y x => Relation.TransGen step x y :=
    { irrefl := acyclic, trans := fun _ _ _ first second => second.trans first }
  have inside : ∀ y ∈ nodes, p y := by
    intro y member
    have founded : nodes.WellFoundedOn fun y x => Relation.TransGen step x y := finite.wellFoundedOn
    refine founded.induction member fun z _ ih => induct z fun w edge => ?_
    exact ih w (targets z w edge) (Relation.TransGen.single edge)
  exact induct x fun y edge => inside y (targets x y edge)

end Walks

section Mentions

/-- An expression names a nonterminal, anywhere in it. -/
def Expr.Mentions (expr : Expr) (nt : String) : Prop := ∃ nts ∈ expr.dotted, nt ∈ nts.map Prod.fst

/-- An expression names a nonterminal in a cast. -/
def Expr.MentionsInCast (expr : Expr) (nt : String) : Prop := ∃ nts ∈ expr.underCast, nt ∈ nts.map Prod.fst

/-- One dependent term is named in the expression of another. -/
def DependsOn (scs : List SemanticConstraint) (x y : String) : Prop :=
  (∃ expr, .dependency x expr ∈ scs ∧ expr.Mentions y) ∧ ∃ expr, .dependency y expr ∈ scs

/-- No dependent term depends on itself in the end. -/
def Acyclic (scs : List SemanticConstraint) : Prop := ∀ nt, ¬Relation.TransGen (DependsOn scs) nt nt

/-- Facts about the terms that a dependent term depends on carry over to it. -/
theorem Acyclic.induction {scs : List SemanticConstraint} (acyclic : Acyclic scs) {p : String → Prop}
    (step : ∀ nt, (∀ other, DependsOn scs nt other → p other) → p nt) (nt : String) : p nt := by
  have finite : {nt | ∃ expr, .dependency nt expr ∈ scs}.Finite := by
    refine (List.finite_toSet (scs.flatMap SemanticConstraint.lhs)).subset ?_
    rintro nt ⟨expr, member⟩
    exact List.mem_flatMap.mpr ⟨_, member, List.mem_singleton.mpr rfl⟩
  exact acyclic_induction finite (fun _ _ edge => edge.2) acyclic step nt

/-- No cycle of dependent terms goes through a cast. -/
def CastFree (scs : List SemanticConstraint) : Prop :=
  ∀ x y expr, .dependency x expr ∈ scs → expr.MentionsInCast y → DependsOn scs x y → ¬Relation.ReflTransGen (DependsOn scs) y x

/-- All that is named outside of casts is found. -/
theorem Expr.getNts_of_mentions {allowed : Reference → Prop} (expr : Expr) (checked : expr.Checked allowed) {nt : String}
    (mentioned : expr.Mentions nt) : nt ∈ expr.getNtsFromExpr ∨ expr.MentionsInCast nt := by
  match expr with
  | .ntExpr context nts =>
    obtain ⟨other, member, named⟩ := mentioned
    cases List.mem_singleton.mp member
    exact Or.inl named
  | .binOp left op right =>
    obtain ⟨nts, member, named⟩ := mentioned
    rcases List.mem_append.mp member with first | second
    · refine (left.getNts_of_mentions checked.1 ⟨nts, first, named⟩).imp (List.mem_append_left _) ?_
      rintro ⟨other, hidden, named⟩
      exact ⟨other, List.mem_append_left _ hidden, named⟩
    · refine (right.getNts_of_mentions checked.2 ⟨nts, second, named⟩).imp (List.mem_append_right _) ?_
      rintro ⟨other, hidden, named⟩
      exact ⟨other, List.mem_append_right _ hidden, named⟩
  | .compOp left op right =>
    obtain ⟨nts, member, named⟩ := mentioned
    rcases List.mem_append.mp member with first | second
    · refine (left.getNts_of_mentions checked.1 ⟨nts, first, named⟩).imp (List.mem_append_left _) ?_
      rintro ⟨other, hidden, named⟩
      exact ⟨other, List.mem_append_left _ hidden, named⟩
    · refine (right.getNts_of_mentions checked.2 ⟨nts, second, named⟩).imp (List.mem_append_right _) ?_
      rintro ⟨other, hidden, named⟩
      exact ⟨other, List.mem_append_right _ hidden, named⟩
  | .unOp op expr => exact expr.getNts_of_mentions checked mentioned
  | .strLength expr => exact expr.getNts_of_mentions checked mentioned
  | .length expr => exact expr.getNts_of_mentions checked mentioned
  | .bvCast len expr => exact Or.inr mentioned
  | .matching context nt cases => exact checked.elim
  | .bvConst len bits => exact absurd mentioned (by simp [Expr.Mentions, Expr.dotted])
  | .blConst bits => exact absurd mentioned (by simp [Expr.Mentions, Expr.dotted])
  | .bConst value => exact absurd mentioned (by simp [Expr.Mentions, Expr.dotted])
  | .intConst value => exact absurd mentioned (by simp [Expr.Mentions, Expr.dotted])
  | .phConst name => exact absurd mentioned (by simp [Expr.Mentions, Expr.dotted])
  | .strConst text => exact absurd mentioned (by simp [Expr.Mentions, Expr.dotted])

/-- The constraints of all right-hand sides. -/
def Ast.HasRhs (ast : Ast) (ges : List GrammarElement) (scs : List SemanticConstraint) : Prop :=
  ∃ nt rhss, .prodRule nt rhss ∈ ast ∧ .rhs ges scs ∈ rhss

/-- The dependencies that are left come from the grammar. -/
def DepsFrom (ast later : Ast) : Prop :=
  ∀ ges scs, later.HasRhs ges scs → ∃ before, ast.HasRhs ges before ∧
    ∀ nt expr, .dependency nt expr ∈ scs → .dependency nt expr ∈ before

private theorem dependency_of_convert {nts : List String} {sc : SemanticConstraint} {nt : String} {expr : Expr}
    (same : sc.convert nts = .dependency nt expr) : sc = .dependency nt expr := by
  cases sc with
  | syGuSExpr other => cases same
  | dependency other inner =>
    simp only [SemanticConstraint.convert] at same
    split at same
    · cases same
    · exact same

private theorem removeCircularScs_deps {walk : Iteration} {scs : List SemanticConstraint} {nt : String} {expr : Expr}
    (left : .dependency nt expr ∈ removeCircularScs walk scs) : .dependency nt expr ∈ scs := by
  rcases removeCircularScs_cases walk scs with ⟨_, same⟩ | ⟨cycle, _, same⟩
  · rw [same] at left
    rcases List.mem_append.mp left with first | last
    · exact (List.mem_filter.mp first).1
    · exact (List.mem_filter.mp last).1
  · rw [same] at left
    rcases List.mem_append.mp left with first | last
    · exact (List.mem_filter.mp first).1
    · obtain ⟨old, inside, turned⟩ := List.mem_map.mp (List.mem_reverse.mp last)
      rw [← dependency_of_convert turned]
      exact (List.mem_filter.mp inside).1

theorem checkScsForDepTerms_deps {scs : List SemanticConstraint} {nt : String} {expr : Expr}
    (left : .dependency nt expr ∈ checkScsForDepTerms scs) : .dependency nt expr ∈ scs := by
  obtain ⟨old, inside, turned⟩ := List.mem_map.mp left
  rw [← dependency_of_convert turned]
  exact inside

private theorem hasRhs_map {change : List SemanticConstraint → List SemanticConstraint} {element : Element → Element}
    (onRule : ∀ nt rhss, element (.prodRule nt rhss) = .prodRule nt (rhss.map (ProdRuleRhs.mapScs change)))
    (onAnnot : ∀ nt ty scs, ∃ later, element (.typeAnnot nt ty scs) = .typeAnnot nt ty later)
    (ast : Ast) (ges : List GrammarElement) (scs : List SemanticConstraint) (rhs : Ast.HasRhs (ast.map element) ges scs) :
    ∃ before, ast.HasRhs ges before ∧ scs = change before := by
  obtain ⟨nt, rhss, inside, member⟩ := rhs
  obtain ⟨old, known, same⟩ := List.mem_map.mp inside
  cases old with
  | typeAnnot other ty scs =>
    obtain ⟨later, turned⟩ := onAnnot other ty scs
    rw [turned] at same
    cases same
  | prodRule other rules =>
    rw [onRule] at same
    cases same
    obtain ⟨rule, listed, turned⟩ := List.mem_map.mp member
    cases rule with
    | stubbedRhs stub => cases turned
    | rhs others before =>
      cases turned
      exact ⟨before, ⟨_, rules, known, listed⟩, rfl⟩

private theorem depsFrom_removeCircular {walk : Iteration} {ast later : Ast} (held : DepsFrom ast later) :
    DepsFrom ast (removeCircularDeps walk later) := by
  intro ges scs rhs
  obtain ⟨middle, known, rfl⟩ := hasRhs_map (fun _ _ => rfl) (fun _ _ scs => ⟨scs, rfl⟩) later ges scs rhs
  obtain ⟨before, first, all⟩ := held ges middle known
  exact ⟨before, first, fun nt expr left => all nt expr (removeCircularScs_deps left)⟩

private theorem depsFrom_checkDepTerms {ast later : Ast} (held : DepsFrom ast later) :
    DepsFrom ast (checkSygusExprsForDepTerms later) := by
  intro ges scs rhs
  obtain ⟨middle, known, rfl⟩ := hasRhs_map (fun _ _ => rfl) (fun _ _ _ => ⟨_, rfl⟩) later ges scs rhs
  obtain ⟨before, first, all⟩ := held ges middle known
  exact ⟨before, first, fun nt expr left => all nt expr (checkScsForDepTerms_deps left)⟩

/-- When a round changes nothing, no cycle was found. -/
private theorem canonicalize_of_fixed {walk : Iteration} {scs : List SemanticConstraint} (fixed : scs = removeCircularScs walk scs) :
    canonicalizeScs walk (scs.filter SemanticConstraint.isDependency) = none := by
  rcases removeCircularScs_cases walk scs with ⟨none_, _⟩ | ⟨cycle, found, turned⟩
  · exact none_
  · obtain ⟨nt, expr, listed, member⟩ := canonicalizeScs_some found
    have still : .dependency nt expr ∈ removeCircularScs walk scs := by
      rw [← fixed]
      exact (List.mem_filter.mp member).1
    rw [turned] at still
    rcases List.mem_append.mp still with first | last
    · have wrong := (List.mem_filter.mp first).2
      cases wrong
    · obtain ⟨old, _, same⟩ := List.mem_map.mp (List.mem_reverse.mp last)
      have own := dependency_of_convert same
      rw [own] at same
      simp [SemanticConstraint.convert, listed] at same

/-- With fewer dependencies fewer terms depend on each other. -/
private theorem DependsOn.mono {before scs : List SemanticConstraint}
    (fewer : ∀ nt expr, .dependency nt expr ∈ scs → .dependency nt expr ∈ before) {x y : String} (edge : DependsOn scs x y) :
    DependsOn before x y := by
  obtain ⟨⟨expr, own, mentioned⟩, other, known⟩ := edge
  exact ⟨⟨expr, fewer x expr own, mentioned⟩, other, fewer y other known⟩

theorem Acyclic.mono {before scs : List SemanticConstraint} (acyclic : Acyclic before)
    (fewer : ∀ nt expr, .dependency nt expr ∈ scs → .dependency nt expr ∈ before) : Acyclic scs :=
  fun nt cycle => acyclic nt (Relation.TransGen.mono (fun _ _ (edge : DependsOn scs _ _) => edge.mono fewer) nt nt cycle)

private theorem CastFree.mono {before scs : List SemanticConstraint} (free : CastFree before)
    (fewer : ∀ nt expr, .dependency nt expr ∈ scs → .dependency nt expr ∈ before) : CastFree scs := by
  intro x y expr own hidden edge back
  refine free x y expr (fewer x expr own) hidden (edge.mono fewer) ?_
  exact Relation.ReflTransGen.mono (fun _ _ (edge : DependsOn scs _ _) => edge.mono fewer) y x back

/-- Cycles that no cast hides are found. -/
private theorem acyclic_of_missed {walk : Iteration} {scs : List SemanticConstraint} {allowed : Reference → Prop}
    (missed : canonicalizeScs walk (scs.filter SemanticConstraint.isDependency) = none) (free : CastFree scs)
    (checked : ∀ nt expr, .dependency nt expr ∈ scs → expr.Checked allowed) : Acyclic scs := by
  intro nt cycle
  apply canonicalizeScs_none missed nt
  refine visible_walk ?_ cycle .refl
  intro x y edge back
  obtain ⟨expr, own, mentioned⟩ := edge.1
  rcases expr.getNts_of_mentions (checked x expr own) mentioned with seen | hidden
  · exact ⟨expr, List.mem_filter.mpr ⟨own, rfl⟩, seen⟩
  · exact absurd back (free x y expr own hidden edge)

private theorem hasRhs_fixed {walk : Iteration} {ast : Ast} (fixed : ast = removeCircularDeps walk ast) {ges : List GrammarElement}
    {scs : List SemanticConstraint} (rhs : ast.HasRhs ges scs) : scs = removeCircularScs walk scs := by
  obtain ⟨nt, rhss, inside, member⟩ := rhs
  have elements : ∀ element ∈ ast, removeCircularElement walk element = element :=
    List.map_inj_left.mp (fixed.symm.trans (List.map_id ast).symm)
  have rules : ∀ rule ∈ rhss, ProdRuleRhs.mapScs (removeCircularScs walk) rule = rule :=
    List.map_inj_left.mp ((Element.prodRule.inj (elements _ inside)).2.trans (List.map_id rhss).symm)
  exact (ProdRuleRhs.rhs.inj (rules _ member)).2.symm

/-- The passes come to an end, and unless a cycle goes through a cast no cycle is left. -/
theorem settleDeps_acyclic (walk : Iteration) (prm : ProdRuleMap) (ntSet : List String) (ast checked : Ast)
    (accepted : checkSyntax walk prm ntSet ast = .ok checked) (free : ∀ ges scs, ast.HasRhs ges scs → CastFree scs) :
    ∀ ges scs, checked.HasRhs ges scs → Acyclic scs := by
  obtain ⟨settled, _, elements⟩ := (checkSyntax_ok_iff walk prm ntSet ast checked).mp accepted
  have itself : ∀ other : Ast, DepsFrom other other := fun _ ges scs rhs => ⟨scs, rhs, fun _ _ member => member⟩
  obtain ⟨middle, _, removed, fixed, _, fromInput, _⟩ := settleDeps_spec walk ast (DepsFrom ast) (itself ast)
    (fun _ => depsFrom_removeCircular) (fun _ => depsFrom_checkDepTerms)
  obtain ⟨last, ended, fromMiddle⟩ := checkDepTerms_spec middle (DepsFrom middle) (itself middle)
    (fun _ => depsFrom_checkDepTerms)
  rw [settleDeps, removed] at settled
  cases ended.symm.trans settled
  intro ges scs rhs
  obtain ⟨between, known, kept⟩ := fromMiddle ges scs rhs
  obtain ⟨before, ⟨nt, rhss, element, member⟩, input⟩ := fromInput ges between known
  have acyclic : Acyclic between := by
    refine @acyclic_of_missed walk between (ReferenceOk prm ntSet (ges.map GrammarElement.label))
      (canonicalize_of_fixed (hasRhs_fixed fixed known)) ((free ges before ⟨nt, rhss, element, member⟩).mono input) ?_
    intro nt expr own
    exact (elements _ element _ member _ (input nt expr own)).2.2
  exact acyclic.mono kept

end Mentions

end LtlFuzz.PacketGen

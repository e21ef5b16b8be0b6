import LtlFuzz.PacketGen.DpllInvariant

/-! Soundness of the search. A constraint of an expanded rule waits until everything it
names is sure to be reached, and is then asserted; a backtrack takes the assertions of the last
decision with it, also those of rules that stay in the tree. -/

namespace LtlFuzz.PacketGen.Dpll
open DerivationTree (Face OpenNode)
open Logic (AssertionStack Along run)

section Result

private theorem lowercase_append (first second : String) : lowercase (first ++ second) = lowercase first ++ lowercase second := by
  apply String.toList_injective
  simp [lowercase]

private theorem lowercase_intercalate (names : List String) :
    lowercase ("_".intercalate names) = "_".intercalate (names.map lowercase) := by
  induction names with
  | nil => rfl
  | cons first rest ih =>
    cases rest with
    | nil => simp
    | cons second rest =>
      rw [String.intercalate_cons_cons, lowercase_append, lowercase_append, ih]
      simp only [List.map_cons]
      rw [String.intercalate_cons_cons]
      rfl

theorem variableName_plain {nts : Reference} (plain : ∀ nt ∈ nts, nt.2 = none) : variableName nts = pathName (nts.map Prod.fst) := by
  rw [variableName, pathName, lowercase_intercalate, List.map_map]
  congr 1
  apply List.map_congr_left
  intro nt member
  simp [plain nt member]

variable {theory : Theory} {ast : Ast} {model : Model} {random : List Nat → IlType → ModelValue} {tree : DerivationTree}

/-- The tree that is returned for a last model. -/
def result (model : Model) (random : List Nat → IlType → ModelValue) (tree : DerivationTree) : DerivationTree :=
  (tree.instantiateTerminals model).fillUnconstrainedNonterminals random []

theorem mem_result {node : DerivationTree} (inside : node ∈ (result model random tree).subtrees) :
    ∃ before ∈ tree.subtrees, ∃ place, node = (before.instantiateTerminals model).fillUnconstrainedNonterminals random place := by
  obtain ⟨middle, member, place, rfl⟩ := DerivationTree.mem_subtrees_fill _ inside
  rw [DerivationTree.subtrees_instantiate] at member
  obtain ⟨before, listed, rfl⟩ := List.mem_map.mp member
  exact ⟨before, listed, place, rfl⟩

theorem face_result : (result model random tree).face = tree.face := by
  rw [result, DerivationTree.face_fill, DerivationTree.face_instantiate]

theorem reaches_result (names : List String) :
    DerivationTree.reaches ast (result model random tree) names = DerivationTree.reaches ast tree names := by
  rw [result, DerivationTree.reaches_fill, DerivationTree.reaches_instantiate]

theorem wellFormed_result (formed : WellFormed ast (tree.instantiateTerminals model)) :
    WellFormed ast (result model random tree) := by
  intro node inside
  obtain ⟨before, member, place, rfl⟩ := DerivationTree.mem_subtrees_fill _ inside
  have fine := formed _ member
  cases before with
  | node ref nt visited path children =>
    rw [DerivationTree.fillUnconstrainedNonterminals]
    obtain ⟨placed, rest⟩ := fine
    refine ⟨placed, rest.imp (fun empty => by rw [empty]; rfl) ?_⟩
    rintro ⟨option, earlier, isVisited, plain, expanded⟩
    refine ⟨option, earlier, isVisited, plain, ?_⟩
    rw [DerivationTree.map_face_fillAll]
    exact expanded
  | _ => trivial

theorem agrees_result : Agrees model (result model random tree) := by
  intro path value inside found known
  obtain ⟨before, _, place, same⟩ := mem_result inside
  have face := congrArg DerivationTree.face same
  rw [DerivationTree.face_fill, DerivationTree.face_instantiate] at face
  cases before with
  | node => cases face
  | dependentTermLeaf => cases face
  | symbolicLeaf ty other =>
    cases face
    rw [DerivationTree.instantiateTerminals, known] at same
    cases same
    rfl
  | concreteLeaf other old =>
    cases face
    rw [DerivationTree.instantiateTerminals, known] at same
    cases same
    rfl

theorem result_node {ref : Nat} {nt : String} {visited : List Nat} {path : List String} {children : List DerivationTree}
    (inside : DerivationTree.node ref nt visited path children ∈ (result model random tree).subtrees) (some_ : children ≠ []) :
    ∃ old, DerivationTree.node ref nt visited path old ∈ tree.subtrees ∧ old ≠ [] := by
  obtain ⟨before, member, place, same⟩ := mem_result inside
  have face := congrArg DerivationTree.face same
  rw [DerivationTree.face_fill, DerivationTree.face_instantiate] at face
  cases before with
  | node oldRef oldNt oldVisited oldPath oldChildren =>
    rw [DerivationTree.instantiateTerminals, DerivationTree.fillUnconstrainedNonterminals] at same
    cases same
    refine ⟨oldChildren, member, ?_⟩
    rintro rfl
    exact some_ rfl
  | _ => cases face

private theorem universalize_plain (isTypeAnnot : Bool) (path : List String) (expr : Expr) (plain : expr.plain = true) :
    ∃ universal, universalizeExpr isTypeAnnot path expr = some universal := by
  match expr with
  | .ntExpr context nts => exact ⟨_, rfl⟩
  | .binOp left op right =>
    simp only [Expr.plain, Bool.and_eq_true] at plain
    obtain ⟨first, leftDone⟩ := universalize_plain isTypeAnnot path left plain.1
    obtain ⟨second, rightDone⟩ := universalize_plain isTypeAnnot path right plain.2
    exact ⟨.binOp first op second, by rw [universalizeExpr, leftDone, rightDone]; rfl⟩
  | .compOp left op right =>
    simp only [Expr.plain, Bool.and_eq_true] at plain
    obtain ⟨first, leftDone⟩ := universalize_plain isTypeAnnot path left plain.1
    obtain ⟨second, rightDone⟩ := universalize_plain isTypeAnnot path right plain.2
    exact ⟨.compOp first op second, by rw [universalizeExpr, leftDone, rightDone]; rfl⟩
  | .unOp op expr =>
    obtain ⟨inner, done⟩ := universalize_plain isTypeAnnot path expr plain
    exact ⟨.unOp op inner, by rw [universalizeExpr, done]; rfl⟩
  | .length expr =>
    obtain ⟨inner, done⟩ := universalize_plain isTypeAnnot path expr plain
    exact ⟨.length inner, by rw [universalizeExpr, done]; rfl⟩
  | .strLength expr =>
    obtain ⟨inner, done⟩ := universalize_plain isTypeAnnot path expr plain
    exact ⟨.strLength inner, by rw [universalizeExpr, done]; rfl⟩
  | .bvCast len expr =>
    obtain ⟨inner, done⟩ := universalize_plain isTypeAnnot path expr plain
    exact ⟨.bvCast len inner, by rw [universalizeExpr, done]; rfl⟩
  | .matching context nt cases => cases plain
  | .bvConst len bits => exact ⟨_, rfl⟩
  | .blConst bits => exact ⟨_, rfl⟩
  | .bConst value => exact ⟨_, rfl⟩
  | .intConst value => exact ⟨_, rfl⟩
  | .phConst name => exact ⟨_, rfl⟩
  | .strConst text => exact ⟨_, rfl⟩

/-- A value a constraint refers to stands below its node, at the place the constraint names. -/
private theorem referent_place {ref : Nat} {nt : String} {visited : List Nat} {path : List String} {children : List DerivationTree}
    (formed : WellFormed ast (.node ref nt visited path children)) {reference : Reference} {value : ModelValue}
    (found : value ∈ (DerivationTree.node ref nt visited path children).referents ast reference) :
    ∃ rest, rest ⊆ reference ∧ value ∈ (DerivationTree.node ref nt visited path children).occurrences ast rest ∧
      (Expr.fromRoot (ast.annotated nt) path reference).map Prod.fst = path ++ rest.map Prod.fst ∧
      (ast.annotated nt = true → rest = []) := by
  obtain ⟨⟨base, rfl⟩, _⟩ := formed _ (DerivationTree.mem_subtrees_self _)
  simp only [DerivationTree.referents] at found
  split at found
  · rename_i annotated
    cases reference with
    | nil => cases found
    | cons entry rest =>
      simp only at found
      split at found
      · rename_i own
        refine ⟨rest, List.subset_cons_self _ _, found, ?_, ?_⟩
        · simp [Expr.fromRoot, annotated, own, Function.comp_def]
        · intro _
          cases rest with
          | nil => rfl
          | cons next rest =>
            obtain ⟨child, selected, below⟩ := List.mem_flatMap.mp found
            have leaf := annotated_leaf (formed _ (DerivationTree.mem_subtrees_self _)) annotated (mem_select selected).1
            obtain ⟨_, _, _, _, _, rfl, _⟩ := occurrences_node below
            cases leaf
      · cases found
  · rename_i production
    refine ⟨reference, List.Subset.refl _, found, ?_, fun annotated => (production annotated).elim⟩
    simp [Expr.fromRoot, production, Function.comp_def]

/-- A constraint that is still pending refers to something that is not there. -/
private theorem pending_vacuous (theory : Theory) {search : Search} {directory : Directory} (upright : Upright ast search directory)
    (formed : WellFormed ast (result model random search.derivationTree)) {ref : Nat} {nt : String} {visited : List Nat}
    {path : List String} {children : List DerivationTree}
    (inside : DerivationTree.node ref nt visited path children ∈ (result model random search.derivationTree).subtrees)
    {option : Nat} {expr universal : Expr} (listed : expr ∈ ast.constraints nt option) (plain : expr.plain = true)
    (done : universalizeExpr (ast.annotated nt) path expr = some universal) (stuck : Stuck ast search.derivationTree universal)
    {value : Reference → Option ModelValue}
    (referred : ∀ reference ∈ expr.references,
      ∃ found ∈ (DerivationTree.node ref nt visited path children).referents ast reference, value reference = some found) :
    False := by
  obtain ⟨head, tail, mentioned, missed⟩ := stuck
  rw [(expr.universalize_spec theory (fun _ => none) plain done).2] at mentioned
  obtain ⟨reference, own, isRoot⟩ := List.mem_map.mp mentioned
  obtain ⟨found, referent, _⟩ := referred reference (expr.getNts_subset reference own)
  have fine : WellFormed ast (.node ref nt visited path children) :=
    fun inner deeper => formed inner (DerivationTree.mem_subtrees_trans _ inside deeper)
  obtain ⟨rest, part, occurs, place, atLeaf⟩ := referent_place fine referent
  obtain ⟨name, root⟩ := upright.root
  obtain ⟨names, isPath, reached, further⟩ := reaches_subtree _ formed inside (face_result.trans root) (List.ne_nil_of_mem listed)
  have isTail : tail.map Prod.fst = names ++ rest.map Prod.fst := by
    rw [isRoot, isPath] at place
    have both : head.1 = name ∧ tail.map Prod.fst = names ++ rest.map Prod.fst := by simpa using place
    exact both.2
  rw [← reaches_result, isTail] at missed
  cases annotated : ast.annotated nt with
  | true =>
    rw [atLeaf annotated, List.map_nil, List.append_nil, reached] at missed
    cases missed
  | false =>
    have concerned : ∀ entry ∈ rest, ¬ast.Unconcerned entry.1 := fun entry member unconcerned =>
      unconcerned.unnamed nt option expr listed reference (expr.getNts_subset reference own) (List.mem_map.mpr ⟨entry, part member, rfl⟩)
    rw [further annotated, reaches_of_occurrence fine concerned occurs] at missed
    cases missed

/-- The returned tree of a search that kept all it owed. -/
theorem result_sound {search : Search} (invariant : Invariant theory ast search) (select : search.phase = .select)
    (satisfied : ∀ universal ∈ search.solver.live, Holds theory model universal) :
    (result model random search.derivationTree).Sound theory ast := by
  intro node inside expr listed value referred
  obtain ⟨directory, upright, _⟩ := invariant.upright
  have formed : WellFormed ast (result model random search.derivationTree) :=
    wellFormed_result (upright.grown.instantiate model).formed
  cases node with
  | node ref nt visited path children =>
    cases visited with
    | nil => cases listed
    | cons option earlier =>
      cases children with
      | nil => cases listed
      | cons child children =>
        change expr ∈ ast.constraints nt option at listed
        obtain ⟨_, empty | ⟨used, before, same, plainRule, _⟩⟩ := formed _ inside
        · cases empty
        cases same
        have plain := plainRule.constraints expr listed
        obtain ⟨universal, done⟩ := universalize_plain (ast.annotated nt) path expr plain
        obtain ⟨old, member, some_⟩ := result_node inside (List.cons_ne_nil child children)
        have tracked : search.Tracked universal := by
          apply invariant.paid
          rw [select]
          exact ⟨ref, nt, option, earlier, path, old, member, some_, by simp, expr, listed, done⟩
        have fine : WellFormed ast (.node ref nt (option :: earlier) path (child :: children)) :=
          fun inner deeper => formed inner (DerivationTree.mem_subtrees_trans _ inside deeper)
        rcases tracked with pending | live
        · exact (pending_vacuous theory upright formed inside listed plain done (invariant.stuck universal pending) referred).elim
        · have holds := satisfied universal live
          rw [Holds, (expr.universalize_spec theory _ plain done).1] at holds
          apply expr.eval_mono _ holds
          intro reference mentioned found known
          obtain ⟨other, referent, isValue⟩ := referred reference mentioned
          obtain ⟨rest, _, occurs, place, _⟩ := referent_place fine referent
          have unindexed : ∀ entry ∈ Expr.fromRoot (ast.annotated nt) path reference, entry.2 = none := by
            intro entry part
            rcases List.mem_append.mp part with first | second
            · obtain ⟨name, _, rfl⟩ := List.mem_map.mp first
              rfl
            · exact expr.plain_references plain reference mentioned entry second
          rw [variableName_plain unindexed, place] at known
          have agrees : Agrees model (.node ref nt (option :: earlier) path (child :: children)) :=
            fun leafPath leafValue deeper => agrees_result leafPath leafValue (DerivationTree.mem_subtrees_trans _ inside deeper)
          rw [isValue, occurrence_value fine agrees rfl occurs known]
  | _ => cases listed

theorem start_invariant {start : Search} (begun : Search.start ast = .ok start) : Invariant theory ast start := by
  cases ast with
  | nil => cases begun
  | cons element elements =>
    cases begun
    refine ⟨⟨fun _ => (⟨0, element.nt, [], [element.nt]⟩, true), ⟨⟨?_, ?_⟩, ⟨element.nt, rfl⟩, ?_, rfl, Nat.le_refl 0⟩, ?_⟩, ?_, ?_, ?_, ?_⟩
    · intro node inside
      cases List.mem_singleton.mp inside
      exact ⟨⟨[], rfl⟩, Or.inl rfl⟩
    · intro ref nt visited path children inside
      cases List.mem_singleton.mp inside
      exact ⟨Nat.zero_lt_one, rfl⟩
    · intro ref member
      cases member
    · intro node ty todo waiting
      cases waiting
    · intro universal member
      cases member
    · rintro universal ⟨ref, nt, option, earlier, path, children, inside, _⟩
      cases List.mem_singleton.mp inside
    · exact ⟨[], fun universal member => nomatch member⟩
    · exact fun _ => ⟨[], fun universal member => nomatch member⟩

end Result

theorem dpll_of_run {ast : Ast} {ctx : List (String × IlType)} {inputs : List Input} {last : Option Model}
    {random : List Nat → IlType → ModelValue} {start final : Search} {tree : DerivationTree}
    (begun : Search.start ast = .ok start) (executed : run (Search.step ast ctx) start inputs = .ok final)
    (returned : final.finish last random = .ok tree) : dpll ctx ast inputs last random = .ok tree.sygusAst := by
  rw [dpll, begun]
  change (run (Search.step ast ctx) start inputs >>= _) = _
  rw [executed]
  change (final.finish last random >>= _) = _
  rw [returned]
  rfl

/-- A search that never drops a constraint of a rule that stays returns a tree that meets all
constraints of its rules. -/
theorem dpll_sound (theory : Theory) (ast : Ast) (ctx : List (String × IlType)) (inputs : List Input) (last : Option Model)
    (random : List Nat → IlType → ModelValue) (start final : Search) (tree : DerivationTree)
    (begun : Search.start ast = .ok start) (executed : run (Search.step ast ctx) start inputs = .ok final)
    (returned : final.finish last random = .ok tree)
    (answers : Along (Search.step ast ctx) (fun search input => search.Answers theory input) start inputs)
    (lastAnswer : final.Answers theory (.answer last))
    (safe : Along (Search.step ast ctx) (fun search input => search.Safe ast input) start inputs) :
    dpll ctx ast inputs last random = .ok tree.sygusAst ∧ tree.Sound theory ast := by
  have invariant : Invariant theory ast final := by
    apply Logic.run_invariant_along (fun search input => search.Answers theory input ∧ search.Safe ast input) (Invariant theory ast)
      _ (start_invariant begun) _ executed
    · intro search input next held allowed stepped
      exact step_invariant held allowed.1 allowed.2 stepped
    · intro k input before found reached
      exact ⟨answers k input before found reached, safe k input before found reached⟩
  refine ⟨dpll_of_run begun executed returned, ?_⟩
  · simp only [Search.finish] at returned
    split at returned
    · rename_i complete
      cases last with
      | none =>
        obtain ⟨model, holds⟩ := invariant.satisfied complete.1
        obtain ⟨universal, live, fails⟩ := lastAnswer model
        exact absurd (holds universal live) fails
      | some model =>
        obtain ⟨instantiated, same, filled⟩ := Logic.bind_ok returned
        cases same
        split at filled
        · cases filled
          exact result_sound invariant complete.1 lastAnswer
        · cases filled
    · cases returned

section Examples

/-- Comparisons of integers, all that the grammars below use. -/
def integers : Theory where
  unary _ _ := none
  binary _ _ _ := none
  comparison
    | .lt, .int first, .int second => some (.bool (decide (first < second)))
    | .gt, .int first, .int second => some (.bool (decide (first > second)))
    | _, _, _ => none
  length _ := none
  strLength _ := none
  cast _ _ := none

/-- A nonterminal that is asserted to lie on both sides of zero. -/
private def contradicted (assertions : List Expr) : Bool :=
  assertions.any fun assertion =>
    match assertion with
    | .compOp (.ntExpr context nts) .gt (.intConst 0) => assertions.contains (.compOp (.ntExpr context nts) .lt (.intConst 0))
    | _ => false

private def checkAnswer (search : Search) : Input → Bool
  | .choose _ _ => true
  | .answer (some model) => search.solver.live.all fun universal =>
    universal.eval integers (fun nts => model.lookup (variableName nts)) = some (.bool true)
  | .answer none => contradicted search.solver.live

private theorem comparison_holds {context nts : Reference} {op : CompOperator} {model : Model}
    (holds : Holds integers model (.compOp (.ntExpr context nts) op (.intConst 0))) :
    ∃ found, model.lookup (variableName (context ++ nts)) = some found ∧
      integers.comparison op found (.int 0) = some (.bool true) := by
  obtain ⟨found, known, compared⟩ := Option.bind_eq_some_iff.mp holds
  exact ⟨found, known, compared⟩

private theorem contradicted_unsat {assertions : List Expr} (checked : contradicted assertions = true) (model : Model) :
    ∃ universal ∈ assertions, ¬Holds integers model universal := by
  obtain ⟨assertion, member, both⟩ := List.any_eq_true.mp checked
  split at both
  · rename_i context nts
    by_contra all
    push Not at all
    obtain ⟨found, known, above⟩ := comparison_holds (all _ member)
    obtain ⟨other, same, below⟩ := comparison_holds (all _ (List.contains_iff_mem.mp both))
    rw [known] at same
    cases same
    cases found with
    | int value =>
      have positive : 0 < value := by simpa [integers] using above
      have negative : value < 0 := by simpa [integers] using below
      omega
    | _ => cases above
  · cases both

private theorem checkAnswer_right (search : Search) (input : Input) (checked : checkAnswer search input = true) :
    search.Answers integers input := by
  cases input with
  | choose ref option => trivial
  | answer model =>
    cases model with
    | none => exact contradicted_unsat checked
    | some model =>
      intro universal live
      simpa [Holds] using List.all_eq_true.mp checked universal live

/-- A constraint that fails for the first values its references lead to. -/
private def refuted (ast : Ast) (tree : DerivationTree) : Bool :=
  tree.subtrees.any fun node => (node.constraints ast).any fun expr =>
    expr.references.all (fun reference => (node.referents ast reference).head?.isSome) &&
      expr.eval integers (fun reference => (node.referents ast reference).head?) ≠ some (.bool true)

private theorem refuted_unsound {ast : Ast} {tree : DerivationTree} (checked : refuted ast tree = true) :
    ¬tree.Sound integers ast := by
  intro sound
  obtain ⟨node, inside, some_⟩ := List.any_eq_true.mp checked
  obtain ⟨expr, listed, both⟩ := List.any_eq_true.mp some_
  simp only [Bool.and_eq_true, List.all_eq_true, decide_eq_true_eq] at both
  apply both.2
  apply sound node inside expr listed
  intro reference mentioned
  obtain ⟨found, first⟩ := Option.isSome_iff_exists.mp (both.1 reference mentioned)
  exact ⟨found, List.mem_of_mem_head? first, first⟩

/-- `<E> > 0` is asserted under a decision for `<A>` that has nothing to do with `<E>`. -/
def droppedAst : Ast := [
  .prodRule "S" [.rhs [.nonterminal "A", .nonterminal "B"] []],
  .prodRule "A" [.rhs [.nonterminal "C"] [], .rhs [.nonterminal "D"] []],
  .prodRule "B" [.rhs [.nonterminal "E"] [.syGuSExpr (comparison "E" .gt 0)]],
  .typeAnnot "C" .int [.syGuSExpr (comparison "C" .gt 0), .syGuSExpr (comparison "C" .lt 0)],
  .typeAnnot "D" .int [],
  .typeAnnot "E" .int []]

def droppedCtx : List (String × IlType) :=
  [("S", .adt [["A", "B"]]), ("A", .adt [["C"], ["D"]]), ("B", .adt [["E"]]), ("C", .int), ("D", .int), ("E", .int)]

def droppedInputs : List Input := [
  .choose 0 0, .answer (some []), .choose 1 0, .answer (some []), .choose 2 0, .answer (some [("s_b_e", .int 1)]),
  .choose 3 0, .answer (some [("s_b_e", .int 1), ("s_a_c", .int 1)]), .answer none,
  .choose 1 1, .answer (some []), .choose 5 0, .choose 4 0]

def minusFive (_ : List Nat) (_ : IlType) : ModelValue := .int (-5)

/-- The solver is right all along, and `<E>` is filled at random. -/
theorem dropped_constraint_unsound :
    ∃ start final tree, Search.start droppedAst = .ok start ∧
      run (Search.step droppedAst droppedCtx) start droppedInputs = .ok final ∧ final.finish (some []) minusFive = .ok tree ∧
      Along (Search.step droppedAst droppedCtx) (fun search input => search.Answers integers input) start droppedInputs ∧
      final.Answers integers (.answer (some [])) ∧
      dpll droppedCtx droppedAst droppedInputs (some []) minusFive = .ok tree.sygusAst ∧ ¬tree.Sound integers droppedAst := by
  have checked : (Search.start droppedAst).toOption.any (fun start =>
      Logic.checkAlong (Search.step droppedAst droppedCtx) checkAnswer start droppedInputs &&
        (run (Search.step droppedAst droppedCtx) start droppedInputs).toOption.any fun final =>
          checkAnswer final (.answer (some [])) && (final.finish (some []) minusFive).toOption.any (refuted droppedAst)) = true := by
    decide +kernel
  obtain ⟨start, begun, checked⟩ := Logic.checked_ok checked
  obtain ⟨along, checked⟩ := Bool.and_eq_true_iff.mp checked
  obtain ⟨final, executed, checked⟩ := Logic.checked_ok checked
  obtain ⟨right, checked⟩ := Bool.and_eq_true_iff.mp checked
  obtain ⟨tree, returned, wrong⟩ := Logic.checked_ok checked
  exact ⟨start, final, tree, begun, executed, returned, Logic.along_of_check checkAnswer_right along,
    checkAnswer_right final _ right, dpll_of_run begun executed returned, refuted_unsound wrong⟩

private def checkRule (ast : Ast) (nt : String) (option : Nat) : Bool :=
  (ast.constraints nt option).all Expr.plain &&
    match ast.rule nt with
    | some (.prodRule _ rhss) =>
      match rhss[option]? with
      | some (.rhs ges _) => ges.all fun ge => ge.annotated ast || (ges.map GrammarElement.label).count ge.label == 1
      | _ => true
    | _ => true

private theorem checkRule_right {ast : Ast} {nt : String} {option : Nat} (checked : checkRule ast nt option = true) :
    PlainRule ast nt option := by
  obtain ⟨plain, once⟩ := Bool.and_eq_true_iff.mp checked
  constructor
  · exact List.all_eq_true.mp plain
  · intro name rhss ges scs found chosen ge member
    rw [found] at once
    simp only [chosen] at once
    rcases Bool.or_eq_true_iff.mp (List.all_eq_true.mp once ge member) with annotated | one
    · exact Or.inl annotated
    · exact Or.inr (Or.inl (of_decide_eq_true one))

/-- What an expanded node owes. -/
private def debts (ast : Ast) : DerivationTree → List Expr
  | .node _ nt (option :: _) path (_ :: _) => (ast.constraints nt option).filterMap (universalizeExpr (ast.annotated nt) path)
  | _ => []

private def checkBacktrack (ast : Ast) (search : Search) : Bool :=
  search.phase == .checkRule &&
    match search.decisionStack with
    | [] => true
    | ref :: _ => (search.derivationTree.setChildren ref []).subtrees.all fun node => (debts ast node).all fun universal =>
      !search.solver.top.contains universal || (search.solver.pop 1).live.contains universal

private theorem checkBacktrack_right {ast : Ast} {search : Search} (checked : checkBacktrack ast search = true) :
    search.BacktrackSafe ast := by
  obtain ⟨waits, checked⟩ := Bool.and_eq_true_iff.mp checked
  intro ref decisions stack universal owed dropped
  rw [eq_of_beq waits] at owed
  obtain ⟨own, nt, option, earlier, path, children, inside, some_, _, expr, listed, done⟩ := owed
  rw [stack] at checked
  have all := List.all_eq_true.mp checked _ inside
  obtain ⟨child, rest, rfl⟩ := List.exists_cons_of_ne_nil some_
  have paid := List.all_eq_true.mp all universal (List.mem_filterMap.mpr ⟨expr, listed, done⟩)
  right
  simpa [dropped] using paid

private def checkSafe (ast : Ast) (search : Search) : Input → Bool
  | .choose ref option => search.derivationTree.frontier.all fun node => node.ref != ref || checkRule ast node.nt option
  | .answer (some _) => true
  | .answer none => checkBacktrack ast search

private theorem checkSafe_right (ast : Ast) (search : Search) (input : Input) (checked : checkSafe ast search input = true) :
    search.Safe ast input := by
  cases input with
  | choose ref option =>
    intro node found
    have same : node.ref = ref := by simpa using List.find?_some found
    have plain := List.all_eq_true.mp checked node (List.mem_of_find?_eq_some found)
    exact checkRule_right (by simpa [same] using plain)
  | answer model =>
    cases model with
    | none => exact checkBacktrack_right checked
    | some model => trivial

/-- The first rule of `<A>` leads to a contradiction. What `<S>` asserted before the decision stays. -/
def conflictAst : Ast := [
  .prodRule "S" [.rhs [.nonterminal "E", .nonterminal "A"] [.syGuSExpr (comparison "E" .gt 0)]],
  .prodRule "A" [.rhs [.nonterminal "B"] [], .rhs [.nonterminal "D"] []],
  .prodRule "B" [.rhs [.nonterminal "F"] [.syGuSExpr (comparison "F" .gt 0), .syGuSExpr (comparison "F" .lt 0)]],
  .prodRule "D" [.rhs [.nonterminal "G"] [.syGuSExpr (comparison "G" .gt 0)]],
  .typeAnnot "E" .int [],
  .typeAnnot "F" .int [],
  .typeAnnot "G" .int []]

def conflictCtx : List (String × IlType) :=
  [("S", .adt [["E", "A"]]), ("A", .adt [["B"], ["D"]]), ("B", .adt [["F"]]), ("D", .adt [["G"]]), ("E", .int), ("F", .int),
    ("G", .int)]

def conflictModel : Model := [("s_e", .int 1), ("s_a_d_g", .int 2)]

/-- A decision for `<A>`, an unsatisfiable rule below it, and the way back to the other rule. -/
def conflictInputs : List Input := [
  .choose 0 0, .answer (some conflictModel), .choose 2 0, .answer (some conflictModel), .choose 3 0, .answer none,
  .choose 2 1, .answer (some conflictModel), .choose 5 0, .answer (some conflictModel), .choose 6 0, .choose 1 0]

theorem conflictAst_sound :
    ∃ start final tree, Search.start conflictAst = .ok start ∧
      run (Search.step conflictAst conflictCtx) start conflictInputs = .ok final ∧
      final.finish (some conflictModel) minusFive = .ok tree ∧
      dpll conflictCtx conflictAst conflictInputs (some conflictModel) minusFive = .ok tree.sygusAst ∧
      tree.Sound integers conflictAst := by
  have checked : (Search.start conflictAst).toOption.any (fun start =>
      Logic.checkAlong (Search.step conflictAst conflictCtx) checkAnswer start conflictInputs &&
        (Logic.checkAlong (Search.step conflictAst conflictCtx) (checkSafe conflictAst) start conflictInputs &&
          (run (Search.step conflictAst conflictCtx) start conflictInputs).toOption.any fun final =>
            checkAnswer final (.answer (some conflictModel)) &&
              (final.finish (some conflictModel) minusFive).toOption.any fun _ => true)) = true := by
    decide +kernel
  obtain ⟨start, begun, checked⟩ := Logic.checked_ok checked
  obtain ⟨answers, checked⟩ := Bool.and_eq_true_iff.mp checked
  obtain ⟨safe, checked⟩ := Bool.and_eq_true_iff.mp checked
  obtain ⟨final, executed, checked⟩ := Logic.checked_ok checked
  obtain ⟨right, checked⟩ := Bool.and_eq_true_iff.mp checked
  obtain ⟨tree, returned, _⟩ := Logic.checked_ok checked
  exact ⟨start, final, tree, begun, executed, returned,
    dpll_sound integers conflictAst conflictCtx conflictInputs _ minusFive start final tree begun executed returned
      (Logic.along_of_check checkAnswer_right answers) (checkAnswer_right final _ right)
      (Logic.along_of_check (checkSafe_right conflictAst) safe)⟩

end Examples

end LtlFuzz.PacketGen.Dpll

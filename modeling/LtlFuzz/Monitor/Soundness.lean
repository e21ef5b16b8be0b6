import LtlFuzz.Monitor.PastTime

/-! What the type checker and `IsSane` promise the evaluator. Every operand of an
accepted comparison has a label of the right type, so a comparison by text always has a
result. Two gaps remain: a Boolean literal in formula position passes the checker, and a
sane label of an integer need not be one that `std::stoi` can convert. -/

namespace LtlFuzz.Monitor
open Text (Fault FitsInt)
open Logic Preprocessor ASTNode

namespace Grammar

/-- No `true` or `false` stands where a formula is expected. -/
def Formula.LiteralFree : Formula → Prop
  | .paren formula | .not formula | .o formula | .h formula | .y formula => formula.LiteralFree
  | .arrow left right | .and left right | .or left right | .s left right => left.LiteralFree ∧ right.LiteralFree
  | .true | .false => False
  | .predicates _ => True

def Formula.comparisons : Formula → List Predicates
  | .paren formula | .not formula | .o formula | .h formula | .y formula => formula.comparisons
  | .arrow left right | .and left right | .or left right | .s left right => left.comparisons ++ right.comparisons
  | .true | .false => []
  | .predicates body => [body]

def Term.identifiers : Term → List Identifier
  | .id identifier => [identifier]
  | _ => []

/-- The identifiers whose labels a comparison converts to integers. -/
def Predicates.converted (predicates : Predicates) : List Identifier :=
  match predicates.kind with
  | .eq | .neq => []
  | .gt | .gte | .lt | .lte => predicates.id :: predicates.term.identifiers

def Predicates.identifiers (predicates : Predicates) : List Identifier := predicates.id :: predicates.term.identifiers

/-- The identifiers that stand in the formulas of a specification. -/
def SpecTree.identifiers (tree : SpecTree) : List Identifier :=
  (tree.formula :: tree.formulas).flatMap fun formula => formula.comparisons.flatMap Predicates.identifiers

end Grammar

/-- A state the monitor may hand to the evaluator: every declared variable has a label
and `IsSane` accepts the labels. -/
structure State.Labels (state : State) (checker : TypeChecker) (declarations : List TypeAnnotation) : Prop where
  checked : state.tchecker = checker
  declared : ∀ declaration ∈ declarations, declaration.name ∈ state.labelingFunction
  sane : state.isSane = .ok true

/-- A sane state with a label for each of the identifiers. -/
structure State.Covers (state : State) (checker : TypeChecker) (identifiers : List Grammar.Identifier) : Prop where
  checked : state.tchecker = checker
  labelled : ∀ identifier ∈ identifiers, identifier.name ∈ state.labelingFunction
  sane : state.isSane = .ok true

section Comparison

variable {checker : TypeChecker} {declarations : List TypeAnnotation} {state : State}
  {identifiers : List Grammar.Identifier}

theorem State.Covers.mono {fewer : List Grammar.Identifier} (covers : state.Covers checker identifiers)
    (inside : fewer ⊆ identifiers) : state.Covers checker fewer :=
  ⟨covers.checked, fun identifier member => covers.labelled identifier (inside member), covers.sane⟩

/-- An identifier that passes the type checker is declared or a constant. -/
theorem State.Labels.covers (labels : state.Labels checker declarations)
    (loaded : TypeChecker.loadTypeContext declarations = .ok checker)
    (typed : ∀ identifier ∈ identifiers, ∃ type, checker.typeContext.lookup identifier.name = some type) :
    state.Covers checker identifiers := by
  refine ⟨labels.checked, ?_, labels.sane⟩
  intro identifier member
  obtain ⟨type, found⟩ := typed identifier member
  have known : identifier.name ∈ checker.typeContext := AList.lookup_isSome.mp (by rw [found]; rfl)
  have unreserved := identifier.not_reserved
  rcases TypeChecker.loadTypeContext_origin loaded known with same | same | declared | constant
  · exact absurd (show identifier.name ∈ Grammar.reserved by rw [same]; decide) unreserved
  · exact absurd (show identifier.name ∈ Grammar.reserved by rw [same]; decide) unreserved
  · obtain ⟨declaration, inside, same⟩ := List.mem_map.mp declared
    rw [← same]
    exact labels.declared declaration inside
  · rw [← labels.checked] at constant
    apply AList.lookup_isSome.mp
    rw [state.constants _ constant]
    rfl

theorem State.Covers.getLabel (covers : state.Covers checker identifiers) {identifier : Grammar.Identifier}
    (member : identifier ∈ identifiers) {type : Ty} (typed : checker.typeContext.lookup identifier.name = some type) :
    ∃ label, state.labelingFunction.lookup identifier.name = some label ∧
      state.getLabel identifier.name = .ok label ∧ (type = .int → State.isNumberFormat label = true) := by
  obtain ⟨label, found⟩ := Option.isSome_iff_exists.mp (AList.lookup_isSome.mpr (covers.labelled identifier member))
  refine ⟨label, found, by simp [State.getLabel, found], ?_⟩
  intro integer
  subst integer
  have sane := (State.isSane_iff state).mp covers.sane _ _ found
  rw [covers.checked] at sane
  exact State.labelSane_int sane typed

private theorem intOperand_identifier (covers : state.Covers checker identifiers) {identifier : Grammar.Identifier}
    (member : identifier ∈ identifiers) (typed : checker.typeContext.lookup identifier.name = some .int) :
    (∃ number, intOperand state (.id () identifier.name) = .ok number) ↔
      ∀ label, state.labelingFunction.lookup identifier.name = some label → FitsInt label.toList := by
  obtain ⟨label, found, labelled, format⟩ := covers.getLabel member typed
  have converted := State.stoi_isNumberFormat (format rfl)
  simp only [intOperand, labelled, found, Option.some.injEq, forall_eq']
  exact converted

private theorem stringOperand_identifier (covers : state.Covers checker identifiers) {identifier : Grammar.Identifier}
    (member : identifier ∈ identifiers) {type : Ty} (typed : checker.typeContext.lookup identifier.name = some type) :
    ∃ text, stringOperand state (.id () identifier.name) = .ok text := by
  obtain ⟨label, _, labelled, _⟩ := covers.getLabel member typed
  exact ⟨label, labelled⟩

private theorem stringOperand_term (term : Grammar.Term) (covers : state.Covers checker term.identifiers)
    {type : Ty} (typed : checker.typeCheck term.node = some type) :
    ∃ text, stringOperand state term.node = .ok text := by
  cases term with
  | id identifier => exact stringOperand_identifier covers List.mem_cons_self typed
  | int value => exact ⟨_, rfl⟩
  | true | false => exact ⟨_, rfl⟩

private theorem intOperand_term (term : Grammar.Term) (covers : state.Covers checker term.identifiers)
    (typed : checker.typeCheck term.node = some .int) :
    (∃ number, intOperand state term.node = .ok number) ↔
      ∀ identifier ∈ term.identifiers, ∀ label,
        state.labelingFunction.lookup identifier.name = some label → FitsInt label.toList := by
  cases term with
  | id identifier =>
    simpa [Grammar.Term.identifiers, Grammar.Term.node] using intOperand_identifier covers List.mem_cons_self typed
  | int value => simp [Grammar.Term.identifiers, Grammar.Term.node, intOperand]
  | true | false => simp [Grammar.Term.node, TypeChecker.typeCheck] at typed

private theorem both_ok_iff {α β γ : Type} {first : Except Fault α} {second : Except Fault β} (result : β → α → γ) :
    (∃ output : γ, (do let x ← first; let y ← second; return result y x : Except Fault γ) = .ok output) ↔
      (∃ x, first = .ok x) ∧ ∃ y, second = .ok y := by
  cases first <;> cases second <;> simp [bind, Except.bind, pure, Except.pure]

/-- The types the checker has found on both sides of an accepted comparison. -/
theorem typeCheck_predicates {predicates : Grammar.Predicates} {type : Ty}
    (accepted : checker.typeCheck predicates.node = some type) :
    ∃ left right, checker.typeContext.lookup predicates.id.name = some left ∧
      checker.typeCheck predicates.term.node = some right ∧
      (predicates.kind = .eq ∨ predicates.kind = .neq ∨ left = .int ∧ right = .int) := by
  simp only [Grammar.Predicates.node, TypeChecker.typeCheck] at accepted
  cases first : checker.typeContext.lookup predicates.id.name with
  | none => simp [first] at accepted
  | some left =>
    cases second : checker.typeCheck predicates.term.node with
    | none => simp [first, second] at accepted
    | some right =>
      refine ⟨left, right, rfl, rfl, ?_⟩
      rw [first, second] at accepted
      cases kind : predicates.kind with
      | eq => exact Or.inl rfl
      | neq => exact Or.inr (Or.inl rfl)
      | gt | gte | lt | lte =>
        simp only [kind, Option.ite_none_right_eq_some] at accepted
        obtain ⟨⟨rfl, rfl⟩, _⟩ := accepted
        exact Or.inr (Or.inr ⟨rfl, rfl⟩)

theorem typeCheck_identifiers {predicates : Grammar.Predicates} {type : Ty}
    (accepted : checker.typeCheck predicates.node = some type) :
    ∀ identifier ∈ predicates.identifiers, ∃ found, checker.typeContext.lookup identifier.name = some found := by
  obtain ⟨left, right, typedLeft, typedRight, _⟩ := typeCheck_predicates accepted
  refine List.forall_mem_cons.mpr ⟨⟨left, typedLeft⟩, ?_⟩
  cases same : predicates.term with
  | id identifier =>
    rw [same] at typedRight
    simpa [Grammar.Term.identifiers] using ⟨right, typedRight⟩
  | int _ | true | false => simp [Grammar.Term.identifiers]

theorem evaluatePredicate_ok_iff (predicates : Grammar.Predicates) (covers : state.Covers checker predicates.identifiers)
    {type : Ty} (accepted : checker.typeCheck predicates.node = some type) :
    (∃ result, evaluatePredicate state predicates.node = .ok result) ↔
      ∀ identifier ∈ predicates.converted, ∀ label,
        state.labelingFunction.lookup identifier.name = some label → FitsInt label.toList := by
  obtain ⟨left, right, typedLeft, typedRight, shape⟩ := typeCheck_predicates accepted
  have coversTerm : state.Covers checker predicates.term.identifiers := covers.mono (List.subset_cons_self _ _)
  have text := stringOperand_identifier covers List.mem_cons_self typedLeft
  have textTerm := stringOperand_term predicates.term coversTerm typedRight
  have ordering (integers : left = .int ∧ right = .int) :
      (∃ number, intOperand state predicates.term.node = .ok number) ∧
          (∃ number, intOperand state (.id () predicates.id.name) = .ok number) ↔
        ∀ identifier ∈ predicates.id :: predicates.term.identifiers, ∀ label,
          state.labelingFunction.lookup identifier.name = some label → FitsInt label.toList := by
    obtain ⟨rfl, rfl⟩ := integers
    rw [intOperand_term predicates.term coversTerm typedRight,
      intOperand_identifier covers List.mem_cons_self typedLeft, List.forall_mem_cons]
    exact and_comm
  cases kind : predicates.kind with
  | eq | neq =>
    simp only [Grammar.Predicates.node, kind, evaluatePredicate, Grammar.Predicates.converted]
    refine ⟨fun _ => by simp, fun _ => ?_⟩
    exact (both_ok_iff _).mpr ⟨text, textTerm⟩
  | gt | gte | lt | lte =>
    simp only [kind, reduceCtorEq, false_or] at shape
    simp only [Grammar.Predicates.node, kind, evaluatePredicate, Grammar.Predicates.converted]
    exact (both_ok_iff _).trans (ordering shape)

end Comparison

section Formula

variable {state : State}

/-- A formula has a value exactly when no literal stands in formula position and every
comparison in it has one. -/
theorem evaluates_node_iff (formula : Grammar.Formula) (snum : Nat) :
    Evaluates state (preProcess formula.node snum).1 ↔ formula.LiteralFree ∧
      ∀ predicates ∈ formula.comparisons, ∃ result, evaluatePredicate state predicates.node = .ok result := by
  induction formula generalizing snum with
  | paren formula ih => exact ih snum
  | not formula ih | o formula ih | h formula ih | y formula ih => exact ih (snum + 1)
  | true | false => simp [Grammar.Formula.node, preProcess, Evaluates, Grammar.Formula.LiteralFree]
  | predicates body =>
    have same := evaluatePredicate_preProcess state body.node snum
    simp only [Grammar.Formula.LiteralFree, Grammar.Formula.comparisons, List.forall_mem_singleton, true_and]
    rw [← same]
    exact Iff.rfl
  | arrow left right ihLeft ihRight | and left right ihLeft ihRight | or left right ihLeft ihRight
  | s left right ihLeft ihRight =>
    simp only [Grammar.Formula.node, preProcess, Evaluates, Grammar.Formula.LiteralFree, Grammar.Formula.comparisons,
      List.forall_mem_append, ihLeft, ihRight]
    exact and_and_and_comm

theorem typeCheck_comparisons {checker : TypeChecker} (formula : Grammar.Formula) {type : Ty}
    (accepted : checker.typeCheck formula.node = some type) :
    ∀ predicates ∈ formula.comparisons, ∃ found, checker.typeCheck predicates.node = some found := by
  induction formula generalizing type with
  | paren formula ih => exact ih accepted
  | not formula ih | o formula ih | h formula ih | y formula ih =>
    simp only [Grammar.Formula.node, TypeChecker.typeCheck] at accepted
    cases inner : checker.typeCheck formula.node with
    | none => simp [inner] at accepted
    | some found => exact ih inner
  | true | false => simp [Grammar.Formula.comparisons]
  | predicates body => simpa [Grammar.Formula.comparisons] using ⟨type, accepted⟩
  | arrow left right ihLeft ihRight | and left right ihLeft ihRight | or left right ihLeft ihRight
  | s left right ihLeft ihRight =>
    simp only [Grammar.Formula.node, TypeChecker.typeCheck] at accepted
    cases first : checker.typeCheck left.node with
    | none => simp [first] at accepted
    | some one =>
      cases second : checker.typeCheck right.node with
      | none => simp [first, second] at accepted
      | some two => exact List.forall_mem_append.mpr ⟨ihLeft first, ihRight second⟩

end Formula

section Trace

variable {asts : List (ASTNode Unit)} {states : List State}

theorem evaluateOneStep_evaluates {evaluator next : Evaluator} {state : State} {verdicts : List Bool}
    (ready : evaluator.Ready asts) (executed : evaluator.evaluateOneStep state = .ok (verdicts, next)) :
    ∀ ast ∈ asts, Evaluates state (preProcess ast 0).1 := by
  intro ast member
  obtain ⟨slot, found⟩ := List.getElem?_of_mem member
  obtain ⟨inner, _⟩ := Evaluator.evaluateOneStep_ok executed
  obtain ⟨_, _, _, slots⟩ := Evaluator.evaluateFormulas_slot inner ready.newLength ready.oldLength
  have inside : evaluator.formulas[slot]? = some (preProcess ast 0).1 := by simp [ready.formulas, found]
  obtain ⟨new, old, res, after, _, _, evaluated, _⟩ := slots slot _ inside
  exact (evaluates_iff _ new).mpr ⟨_, evaluated⟩

private theorem advance_completes {evaluator : Evaluator} {state : State} (ready : evaluator.Ready asts)
    (evaluates : ∀ ast ∈ asts, Evaluates state (preProcess ast 0).1) :
    ∃ next, evaluator.advance state = .ok next ∧ next.Ready asts := by
  have formulas : ∀ formula ∈ evaluator.formulas, Evaluates state formula := by
    rw [ready.formulas]
    exact List.forall_mem_map.mpr evaluates
  obtain ⟨verdicts, next, executed⟩ := Evaluator.evaluateOneStep_completes formulas
  exact ⟨next, by simp [Evaluator.advance, executed, Except.map], (Evaluator.ready_step ready executed).1⟩

/-- Whether a trace gets through depends on its states one by one. -/
theorem steps_return_iff {start : Evaluator} (ready : start.Ready asts) :
    (∀ (k : Nat) (state : State), states[k]? = some state → ∃ evaluator verdicts next,
        start.steps (states.take k) = .ok evaluator ∧ evaluator.evaluateOneStep state = .ok (verdicts, next)) ↔
      ∀ state ∈ states, ∀ ast ∈ asts, Evaluates state (preProcess ast 0).1 := by
  constructor
  · intro returns state member
    obtain ⟨k, here⟩ := List.getElem?_of_mem member
    obtain ⟨evaluator, verdicts, next, executed, stepped⟩ := returns k state here
    exact evaluateOneStep_evaluates (Evaluator.ready_steps ready executed) stepped
  · intro evaluates k state here
    obtain ⟨evaluator, executed, readyThere⟩ :=
      run_completes (fun state => ∀ ast ∈ asts, Evaluates state (preProcess ast 0).1) (Evaluator.Ready asts)
        (fun _ _ held admissible => advance_completes held admissible) ready
        fun other member => evaluates other (List.mem_of_mem_take member)
    obtain ⟨next, advanced, _⟩ := advance_completes readyThere (evaluates state (List.mem_of_getElem? here))
    obtain ⟨verdicts, stepped⟩ := Evaluator.advance_ok advanced
    exact ⟨evaluator, verdicts, next, executed, stepped⟩

end Trace

/-- The formulas of an accepted specification and their comparisons are well typed. -/
theorem typed_comparisons (tree : Grammar.SpecTree) {checker : TypeChecker}
    (accepted : TypeChecker.new tree.spec = .ok checker) :
    ∀ formula ∈ tree.formula :: tree.formulas, ∀ predicates ∈ formula.comparisons,
      ∃ type, checker.typeCheck predicates.node = some type := by
  obtain ⟨_, checked⟩ := TypeChecker.new_accepts accepted
  intro formula known predicates compared
  obtain ⟨type, typed⟩ := checked formula.node (Grammar.mem_pushAction.mpr ⟨formula, known, rfl⟩)
  exact typeCheck_comparisons formula typed predicates compared

theorem State.Labels.covers_specification (tree : Grammar.SpecTree) {checker : TypeChecker} {state : State}
    (accepted : TypeChecker.new tree.spec = .ok checker) (labels : state.Labels checker tree.spec.1) :
    state.Covers checker tree.identifiers := by
  apply labels.covers (TypeChecker.new_accepts accepted).1
  intro identifier member
  obtain ⟨formula, known, inside⟩ := List.mem_flatMap.mp member
  obtain ⟨predicates, compared, used⟩ := List.mem_flatMap.mp inside
  obtain ⟨type, typed⟩ := typed_comparisons tree accepted formula known predicates compared
  exact typeCheck_identifiers typed identifier used

/-- Whether every formula of an accepted specification has a value in a sane state. -/
theorem evaluates_specification_iff (tree : Grammar.SpecTree) {checker : TypeChecker} {state : State}
    (accepted : TypeChecker.new tree.spec = .ok checker) (covers : state.Covers checker tree.identifiers) :
    (∀ ast ∈ tree.spec.2, Evaluates state (preProcess ast 0).1) ↔
      ∀ formula ∈ tree.formula :: tree.formulas, formula.LiteralFree ∧
        ∀ predicates ∈ formula.comparisons, ∀ identifier ∈ predicates.converted, ∀ label,
          state.labelingFunction.lookup identifier.name = some label → FitsInt label.toList := by
  have perFormula : (∀ ast ∈ tree.spec.2, Evaluates state (preProcess ast 0).1) ↔
      ∀ formula ∈ tree.formula :: tree.formulas, Evaluates state (preProcess formula.node 0).1 := by
    simp only [Grammar.SpecTree.spec, Grammar.mem_pushAction, forall_exists_index, and_imp, forall_apply_eq_imp_iff₂]
  rw [perFormula]
  refine forall₂_congr fun formula known => ?_
  rw [evaluates_node_iff]
  refine and_congr_right fun _ => forall₂_congr fun predicates compared => ?_
  obtain ⟨type, typed⟩ := typed_comparisons tree accepted formula known predicates compared
  apply evaluatePredicate_ok_iff predicates (covers.mono ?_) typed
  intro identifier used
  exact List.mem_flatMap.mpr ⟨formula, known, List.mem_flatMap.mpr ⟨predicates, compared, used⟩⟩

/-- An accepted specification is evaluated to the end of every sane trace exactly when
its formulas hold no literal and no label that is converted is a lone minus sign or too
large for an `int`. -/
theorem evaluateOneStep_returns_iff (tree : Grammar.SpecTree) (checker : TypeChecker) (nodes : List (ASTNode Nat))
    (snums : List Nat) (start : Evaluator) (states : List State)
    (accepted : TypeChecker.new tree.spec = .ok checker) (numbered : doPreProcess tree.spec.2 = some (nodes, snums))
    (starts : Evaluator.Starts nodes snums start) (labelled : ∀ state ∈ states, state.Labels checker tree.spec.1) :
    (∀ (k : Nat) (state : State), states[k]? = some state → ∃ evaluator verdicts next,
        start.steps (states.take k) = .ok evaluator ∧ evaluator.evaluateOneStep state = .ok (verdicts, next)) ↔
      ∀ state ∈ states, ∀ formula ∈ tree.formula :: tree.formulas, formula.LiteralFree ∧
        ∀ predicates ∈ formula.comparisons, ∀ identifier ∈ predicates.converted, ∀ label,
          state.labelingFunction.lookup identifier.name = some label → FitsInt label.toList := by
  rw [Evaluator.starts_eq starts, steps_return_iff (Evaluator.new_ready numbered)]
  exact forall₂_congr fun state inside =>
    evaluates_specification_iff tree accepted ((labelled state inside).covers_specification tree accepted)

def counterVariable : Grammar.Identifier := ⟨"n", by decide⟩

/-- The specification `int n; n < 5;`. -/
def counterTree : Grammar.SpecTree where
  declaration := .int counterVariable
  declarations := []
  formula := .predicates ⟨counterVariable, .lt, .int 5⟩
  formulas := []

def counterChecker : TypeChecker :=
  ⟨((AList.singleton "n" Ty.int).insert "true" .bool).insert "false" .bool, []⟩

def counterState (label : String) : State where
  tchecker := counterChecker
  labelingFunction := AList.singleton "n" label
  constants := by simp [counterChecker]

/-- The specification `bool x; true;`. -/
def literalTree : Grammar.SpecTree where
  declaration := .bool flagSet.id
  declarations := []
  formula := .true
  formulas := []

/-- Two accepted specifications with a sane state each on which the first step dies: a
label too large for an `int`, and a literal in formula position. -/
theorem accepted_specifications_fail :
    (TypeChecker.new counterTree.spec = .ok counterChecker ∧
      doPreProcess counterTree.spec.2 = some ([.predicate 0 .lt (.id 1 "n") (.int 2 5)], [3]) ∧
      (counterState "99999999999").Labels counterChecker counterTree.spec.1 ∧
      (Evaluator.new [.predicate 0 .lt (.id 1 "n") (.int 2 5)] [3]).evaluateOneStep (counterState "99999999999") =
        .error .outOfRange) ∧
    (TypeChecker.new literalTree.spec = .ok flagChecker ∧
      doPreProcess literalTree.spec.2 = some ([.bool 0 true], [1]) ∧
      (flagState "true").Labels flagChecker literalTree.spec.1 ∧
      (Evaluator.new [.bool 0 true] [1]).evaluateOneStep (flagState "true") = .error .assertion) := by
  refine ⟨⟨rfl, by decide, ⟨rfl, by decide, by decide⟩, rfl⟩, ⟨rfl, by decide, ⟨rfl, by decide, by decide⟩, rfl⟩⟩

theorem counter_returns_iff :
    (∀ (k : Nat) (state : State), [counterState "7"][k]? = some state → ∃ evaluator verdicts next,
        (Evaluator.new [.predicate 0 .lt (.id 1 "n") (.int 2 5)] [3]).steps ([counterState "7"].take k) = .ok evaluator ∧
          evaluator.evaluateOneStep state = .ok (verdicts, next)) ↔
      ∀ state ∈ [counterState "7"], ∀ formula ∈ counterTree.formula :: counterTree.formulas, formula.LiteralFree ∧
        ∀ predicates ∈ formula.comparisons, ∀ identifier ∈ predicates.converted, ∀ label,
          state.labelingFunction.lookup identifier.name = some label → FitsInt label.toList := by
  apply evaluateOneStep_returns_iff counterTree counterChecker _ _ _ _ rfl rfl (Or.inl rfl)
  intro state member
  cases List.mem_singleton.mp member
  exact ⟨rfl, by decide, by decide⟩

end LtlFuzz.Monitor

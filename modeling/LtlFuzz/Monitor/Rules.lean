import LtlFuzz.Monitor.PastTime
import LtlFuzz.Monitor.Main

/-! What a comparison says about the labels of a state, and what the verdicts of rules of
the form `H(…)` say about a session. -/

namespace LtlFuzz.Monitor
open Preprocessor Logic

section Comparisons

variable {state : State} {identifier value : Grammar.Identifier}

theorem evaluatePredicate_is {label : String} (labelled : state.labelingFunction.lookup identifier.name = some label)
    (constant : state.labelingFunction.lookup value.name = some value.name) :
    evaluatePredicate state (Grammar.Predicates.node ⟨identifier, .eq, .id value⟩) = .ok (label == value.name) := by
  simp [Grammar.Predicates.node, Grammar.Term.node, evaluatePredicate, stringOperand, State.getLabel, labelled, constant,
    bind, Except.bind, pure, Except.pure]

theorem evaluatePredicate_isTrue {flag : Bool}
    (labelled : state.labelingFunction.lookup identifier.name = some (boolToString flag)) :
    evaluatePredicate state (Grammar.Predicates.node ⟨identifier, .eq, .true⟩) = .ok flag := by
  simp only [Grammar.Predicates.node, Grammar.Term.node, evaluatePredicate, stringOperand, State.getLabel, labelled,
    bind, Except.bind, pure, Except.pure]
  cases flag <;> rfl

theorem evaluatePredicate_isFalse {flag : Bool}
    (labelled : state.labelingFunction.lookup identifier.name = some (boolToString flag)) :
    evaluatePredicate state (Grammar.Predicates.node ⟨identifier, .eq, .false⟩) = .ok !flag := by
  simp only [Grammar.Predicates.node, Grammar.Term.node, evaluatePredicate, stringOperand, State.getLabel, labelled,
    bind, Except.bind, pure, Except.pure]
  cases flag <;> rfl

theorem evaluatePredicate_equals {number : Int}
    (labelled : state.labelingFunction.lookup identifier.name = some (toString number)) (bound : Int) :
    evaluatePredicate state (Grammar.Predicates.node ⟨identifier, .eq, .int bound⟩) = .ok (decide (number = bound)) := by
  have same : (toString number == toString bound) = decide (number = bound) := by
    by_cases equal : number = bound
    · simp [equal]
    · rw [decide_eq_false equal]
      exact beq_eq_false_iff_ne.mpr fun texts => equal (Text.toString_int_injective texts)
  simp only [Grammar.Predicates.node, Grammar.Term.node, evaluatePredicate, stringOperand, State.getLabel, labelled,
    bind, Except.bind, pure, Except.pure, same]

theorem evaluatePredicate_exceeds {number : Int}
    (labelled : state.labelingFunction.lookup identifier.name = some (toString number))
    (low : -(2 ^ 31) ≤ number) (high : number < 2 ^ 31) (bound : Int) :
    evaluatePredicate state (Grammar.Predicates.node ⟨identifier, .gt, .int bound⟩) = .ok (decide (number > bound)) := by
  simp only [Grammar.Predicates.node, Grammar.Term.node, evaluatePredicate, intOperand, State.getLabel, labelled,
    Text.stoi_toString low high, bind, Except.bind, pure, Except.pure]

end Comparisons

/-- The formula has this value whatever its serial numbers are. -/
def Grammar.Formula.Has (formula : Grammar.Formula) (index : Int32) (oldBv : BitVector) (state : State) (result : Bool) : Prop :=
  ∀ snum, value index oldBv state (preProcess formula.node snum).1 = .ok result

section Formulas

variable {index : Int32} {oldBv : BitVector} {state : State} {left right formula : Grammar.Formula} {one two result : Bool}

theorem Grammar.Formula.Has.predicates {body : Grammar.Predicates} (evaluated : evaluatePredicate state body.node = .ok result) :
    (Grammar.Formula.predicates body).Has index oldBv state result := by
  intro snum
  rw [← evaluated]
  exact value_atom index oldBv state body snum

theorem Grammar.Formula.Has.and (first : left.Has index oldBv state one) (second : right.Has index oldBv state two) :
    (Grammar.Formula.and left right).Has index oldBv state (one && two) := by
  intro snum
  exact value_binary (first _) (second _)

theorem Grammar.Formula.Has.arrow (first : left.Has index oldBv state one) (second : right.Has index oldBv state two) :
    (Grammar.Formula.arrow left right).Has index oldBv state (!one || two) := by
  intro snum
  exact value_binary (first _) (second _)

theorem Grammar.Formula.Has.not_historically (fails : formula.Has index oldBv state Bool.false) :
    (Grammar.Formula.h formula).Has index oldBv state Bool.false := by
  intro snum
  exact value_unary (fails _)

end Formulas

section Verdicts

variable {asts : List (ASTNode Unit)} {nodes : List (ASTNode Nat)} {snums : List Nat} {state : State}

/-- The first event of a session gives every formula its verdict. -/
theorem first_verdict (numbered : doPreProcess asts = some (nodes, snums))
    (evaluates : ∀ ast ∈ asts, Evaluates state (preProcess ast 0).1) {ast : ASTNode Unit} (member : ast ∈ asts)
    {result : Bool} (known : ∀ oldBv, value 0 oldBv state (preProcess ast 0).1 = .ok result) :
    ∃ verdicts next, (Evaluator.new nodes snums).evaluateOneStep state = .ok (verdicts, next) ∧ result ∈ verdicts := by
  have ready := Evaluator.new_ready numbered
  have all : ∀ formula ∈ (Evaluator.new nodes snums).formulas, Evaluates state formula := by
    rw [ready.formulas]
    intro formula inside
    obtain ⟨ast, listed, rfl⟩ := List.mem_map.mp inside
    exact evaluates ast listed
  obtain ⟨verdicts, next, executed⟩ := Evaluator.evaluateOneStep_completes all
  obtain ⟨_, _, slots⟩ := Evaluator.ready_step ready executed
  obtain ⟨slot, found⟩ := List.getElem?_of_mem member
  obtain ⟨old, _, res, _, _, verdict, evaluated, _⟩ := slots slot ast found
  cases (known old).symm.trans evaluated
  exact ⟨verdicts, next, executed, List.mem_of_getElem? verdict⟩

/-- What the formula in this slot is told to be at this position of a session. -/
def VerdictAt (start : Evaluator) (states : List State) (k slot : Nat) (verdict : Bool) : Prop :=
  ∃ evaluator state verdicts next, start.steps (states.take k) = .ok evaluator ∧ states[k]? = some state ∧
    evaluator.evaluateOneStep state = .ok (verdicts, next) ∧ verdicts[slot]? = some verdict

theorem VerdictAt.unique {start : Evaluator} {states : List State} {k slot : Nat} {verdict other : Bool}
    (left : VerdictAt start states k slot verdict) (right : VerdictAt start states k slot other) : verdict = other := by
  obtain ⟨evaluator, state, verdicts, next, reached, here, stepped, found⟩ := left
  obtain ⟨evaluator', state', verdicts', next', reached', here', stepped', found'⟩ := right
  cases reached.symm.trans reached'
  cases here.symm.trans here'
  cases stepped.symm.trans stepped'
  exact Option.some.inj (found.symm.trans found')

variable {bodies : List (PastLTL Grammar.Predicates)} {start : Evaluator} {states : List State}

/-- The verdict of `H(body)` says what `H(body)` says. -/
theorem historically_verdict (numbered : doPreProcess ((bodies.map .historically).map pastNode) = some (nodes, snums))
    (starts : Evaluator.Starts nodes snums start)
    (defined : ∀ state ∈ states, ∀ body ∈ bodies, ∀ predicates ∈ body.atoms,
      ∃ result, evaluatePredicate state predicates.node = .ok result)
    {k slot : Nat} (bound : k < states.length) {body : PastLTL Grammar.Predicates} (found : bodies[slot]? = some body) :
    ∃ verdict, VerdictAt start states k slot verdict ∧
      (verdict = true ↔ (preProcess (pastNode (.historically body)) 0).1.Says states k) := by
  have here : states[k]? = some states[k] := List.getElem?_eq_getElem bound
  obtain ⟨evaluator, verdicts, next, reached, stepped, _, said⟩ :=
    evaluateOneStep_says numbered starts (by simpa [PastLTL.atoms] using defined) here
  obtain ⟨verdict, verdictFound, meaning⟩ := said slot (.historically body) (by simp [found])
  exact ⟨verdict, ⟨evaluator, _, verdicts, next, reached, here, stepped, verdictFound⟩, meaning⟩

/-- Where every body holds no verdict becomes false. -/
theorem historically_kept (numbered : doPreProcess ((bodies.map .historically).map pastNode) = some (nodes, snums))
    (starts : Evaluator.Starts nodes snums start)
    (defined : ∀ state ∈ states, ∀ body ∈ bodies, ∀ predicates ∈ body.atoms,
      ∃ result, evaluatePredicate state predicates.node = .ok result)
    {k slot : Nat} (bound : k < states.length)
    (holds : ∀ body ∈ bodies, (preProcess (pastNode body) 1).1.Says states k)
    (slots : slot < bodies.length) (broken : VerdictAt start states k slot false) :
    ∃ before, k = before + 1 ∧ VerdictAt start states before slot false := by
  have found : bodies[slot]? = some bodies[slot] := List.getElem?_eq_getElem slots
  have now : (preProcess (pastNode bodies[slot]) 1).1.Says states k := holds _ (List.getElem_mem slots)
  obtain ⟨verdict, told, meaning⟩ := historically_verdict numbered starts defined bound found
  cases told.unique broken
  cases k with
  | zero =>
    have held : (preProcess (pastNode (.historically bodies[slot])) 0).1.Says states 0 := historically_here.mpr now
    exact absurd (meaning.mpr held) Bool.false_ne_true
  | succ before =>
    obtain ⟨earlier, last, previous⟩ := historically_verdict numbered starts defined (Nat.lt_of_succ_lt bound) found
    refine ⟨before, rfl, ?_⟩
    have failed : earlier = false := by
      by_contra kept
      refine Bool.false_ne_true (meaning.mpr ?_)
      exact (says_h_succ _ _).mpr ⟨now, fun _ => previous.mp (Bool.eq_true_of_not_eq_false kept)⟩
    rwa [failed] at last

end Verdicts

namespace Process

/-- Some formula is false on the event this line stands for. -/
def Violates (process : Process) (line : List Char) : Prop :=
  ∃ kv state verdicts eval, Command.parse line = .ok (.event kv) ∧ eventState process.typeChecker kv = .ok state ∧
    process.eval.evaluateOneStep state = .ok (verdicts, eval) ∧ false ∈ verdicts

/-- The line is counted as a violation and answered with `VIOLATION_DETECTED`. -/
def Reports (process : Process) (line : List Char) : Prop :=
  ∃ command next, Command.parse line = .ok command ∧
    process.handle command = .ok (next, [.violationDetected (process.totalViolations + 1)]) ∧
    next.totalViolations = process.totalViolations + 1

/-- A violation is reported exactly when the filter takes the event for a response. -/
theorem reports_iff {process : Process} {line : List Char} {kv : KeyValues} (violates : process.Violates line)
    (parsed : Command.parse line = .ok (.event kv)) (derived : deriveIdMismatch kv = .ok kv) :
    process.Reports line ↔ isValidResponse process.protoTag kv = true := by
  obtain ⟨other, state, verdicts, eval, event, read, stepped, violated⟩ := violates
  cases parsed.symm.trans event
  have labelled : labelledState process.typeChecker kv = .ok state := by
    simpa [eventState, derived, bind, Except.bind] using read
  have handled : process.handle (.event kv) = process.handleEvent kv := rfl
  simp only [Reports, parsed, Except.ok.injEq, exists_and_left, exists_eq_left']
  simp only [handled, handleEvent, derived, labelled, stepped, violated, bind, Except.bind, pure, Except.pure, true_and]
  split
  next valid => simp [valid]
  next invalid => simp [invalid]

end Process

end LtlFuzz.Monitor

import LtlFuzz.Monitor.PastTime

/-! `Y` answers with the bit its operand left behind one step earlier. An operand that
records its truth is repeated faithfully; a comparison records nothing, so `Y` of a
comparison is false at every step. -/

namespace LtlFuzz.Monitor
open Text (Fault)
open Logic Preprocessor ASTNode

/-- The value `EvaluateFormula` computes for a node of one slot at step `k` of a session. -/
def Evaluator.valueAt (start : Evaluator) (states : List State) (slot k : Nat) (node : ASTNode Nat) : Option Bool := do
  let evaluator ← (start.steps (states.take k)).toOption
  let oldBv ← evaluator.oldBv[slot]?
  let state ← states[k]?
  (value evaluator.index oldBv state node).toOption

/-- A bare comparison in formula position. -/
def ASTNode.IsComparison : ASTNode Nat → Prop
  | .predicate _ _ _ _ => True
  | _ => False

section Run

variable {asts : List (ASTNode Unit)} {start : Evaluator} {states : List State}

variable {final : Evaluator} {slot k : Nat} {ast : ASTNode Unit}

/-- In a completed session every node has a value at every step, which is what the node says there. -/
theorem valueAt_says (fresh : Tracks asts states 0 start) (executed : start.steps states = .ok final)
    (found : asts[slot]? = some ast) (bound : k < states.length) {node : ASTNode Nat}
    (inside : node ∈ (preProcess ast 0).1.formulaNodes) :
    ∃ truth, start.valueAt states slot k node = some truth ∧ (truth = true ↔ node.Says states k) := by
  have here : states[k]? = some states[k] := List.getElem?_eq_getElem bound
  obtain ⟨evaluator, next, before, advanced, _⟩ := run_at executed here
  obtain ⟨verdicts, stepped⟩ := Evaluator.advance_ok advanced
  have tracks := tracks_steps fresh (Nat.le_of_lt bound) before
  obtain ⟨old, foundOld, said, _⟩ := (tracks_step tracks here stepped).2 slot ast found
  obtain ⟨truth, evaluated, agrees⟩ := said node inside
  refine ⟨truth, ?_, agrees⟩
  have prior : start.steps (states.take k) = .ok evaluator := before
  simp [Evaluator.valueAt, prior, Except.toOption, foundOld, here, evaluated]

theorem recorded_eq_false_iff (node : ASTNode Nat) : recorded node = false ↔ node.IsComparison := by
  cases node <;> simp [recorded, IsComparison]

/-- A comparison of a completed session is true or false in every state. -/
theorem comparison_false_iff (fresh : Tracks asts states 0 start) (executed : start.steps states = .ok final)
    (found : asts[slot]? = some ast) {node : ASTNode Nat} (inside : node ∈ (preProcess ast 0).1.formulaNodes)
    (comparison : node.IsComparison) {state : State} (here : states[k]? = some state) :
    ¬ node.Says states k ↔ evaluatePredicate state node = .ok false := by
  obtain ⟨evaluator, next, before, advanced, _⟩ := run_at executed here
  obtain ⟨verdicts, stepped⟩ := Evaluator.advance_ok advanced
  have tracks := tracks_steps fresh (Nat.le_of_lt (List.getElem?_eq_some_iff.mp here).1) before
  obtain ⟨old, _, said, _⟩ := (tracks_step tracks here stepped).2 slot ast found
  obtain ⟨truth, evaluated, agrees⟩ := said node inside
  cases node with
  | predicate serial kind left right =>
    rw [value_predicate] at evaluated
    rw [← agrees, evaluated]
    simp
  | id | int | bool | unary | binary => cases comparison

/-- What `Y` repeats and what it does not. -/
theorem says_y_succ_iff (serial : Nat) (child : ASTNode Nat) :
    (child.Says states k ↔ (ASTNode.unary serial .y child).Says states (k + 1)) ↔
      (child.IsComparison ∨ (k + 1) % 2 ^ 32 = 0 → ¬ child.Says states k) := by
  rw [ASTNode.Says, Nat.add_sub_cancel, ← recorded_eq_false_iff, ← Bool.not_eq_true]
  tauto

/-- One step of `Y` in a completed session. -/
theorem valueAt_repeats_iff (fresh : Tracks asts states 0 start) (executed : start.steps states = .ok final)
    (found : asts[slot]? = some ast) {serial : Nat} {child : ASTNode Nat}
    (inside : .unary serial .y child ∈ (preProcess ast 0).1.formulaNodes) (later : k + 1 < states.length) :
    (∃ truth, start.valueAt states slot k child = some truth ∧
        start.valueAt states slot (k + 1) (.unary serial .y child) = some truth) ↔
      (child.IsComparison ∨ (k + 1) % 2 ^ 32 = 0 → ¬ child.Says states k) := by
  obtain ⟨one, valued, now⟩ := valueAt_says fresh executed found (Nat.lt_of_succ_lt later) (unary_child_mem inside)
  obtain ⟨two, answered, next⟩ := valueAt_says fresh executed found later inside
  rw [← says_y_succ_iff serial, ← now, ← next, valued, answered]
  cases one <;> cases two <;> simp

end Run

/-- `Y` repeats its operand exactly when the operand records its truth, or has no truth
to record: a comparison must have been false at every step but the last. Where a trace is so long
that the step index comes back to 0, nothing is repeated at these steps either. -/
theorem yesterday_repeats_operand_iff (formulas : List Grammar.Formula) (nodes : List (ASTNode Nat)) (snums : List Nat)
    (start final : Evaluator) (states : List State)
    (numbered : doPreProcess (formulas.map Grammar.Formula.node) = some (nodes, snums))
    (starts : Evaluator.Starts nodes snums start) (executed : start.steps states = .ok final)
    (slot serial : Nat) (root child : ASTNode Nat) (found : nodes[slot]? = some root)
    (inside : .unary serial .y child ∈ root.formulaNodes) :
    (∀ k, k + 1 < states.length → ∃ truth, start.valueAt states slot k child = some truth ∧
        start.valueAt states slot (k + 1) (.unary serial .y child) = some truth) ↔
      (child.IsComparison → ∀ (k : Nat) (state : State), k + 1 < states.length → states[k]? = some state →
        evaluatePredicate state child = .ok false) ∧
      ∀ k, k + 1 < states.length → (k + 1) % 2 ^ 32 = 0 → ¬ child.Says states k := by
  rw [Evaluator.starts_eq starts] at executed ⊢
  obtain ⟨rfl, _, _⟩ := doPreProcess_some numbered
  rw [List.getElem?_map] at found
  obtain ⟨ast, known, rfl⟩ := Option.map_eq_some_iff.mp found
  have tracks := new_tracks numbered states
  have repeats_iff {k : Nat} (later : k + 1 < states.length) := valueAt_repeats_iff tracks executed known inside later
  constructor
  · intro repeats
    refine ⟨fun comparison k state later here => ?_, fun k later again => ?_⟩
    · exact (comparison_false_iff tracks executed known (unary_child_mem inside) comparison here).mp
        ((repeats_iff later).mp (repeats k later) (Or.inl comparison))
    · exact (repeats_iff later).mp (repeats k later) (Or.inr again)
  · rintro ⟨silent, unasked⟩ k later
    refine (repeats_iff later).mpr ?_
    rintro (comparison | again)
    · have here : states[k]? = some states[k] := List.getElem?_eq_getElem (Nat.lt_of_succ_lt later)
      exact (comparison_false_iff tracks executed known (unary_child_mem inside) comparison here).mpr
        (silent comparison k _ later here)
    · exact unasked k later again

/-- `Y (x = true)` with `x` true at both steps: the operand holds at step 0 and `Y` says
at step 1 that it did not. -/
theorem yesterday_forgets_comparison :
    doPreProcess [(Grammar.Formula.y (.predicates flagSet)).node] = some ([.unary 0 .y (flagNode 1)], [4]) ∧
      (Evaluator.new [.unary 0 .y (flagNode 1)] [4]).valueAt
        [flagState "true", flagState "true"] 0 0 (flagNode 1) = some true ∧
      (Evaluator.new [.unary 0 .y (flagNode 1)] [4]).valueAt
        [flagState "true", flagState "true"] 0 1 (.unary 0 .y (flagNode 1)) = some false := by
  refine ⟨by decide, by decide, by decide⟩

theorem yesterday_repeats_negation :
    ∃ truth,
      (Evaluator.new [.unary 0 .y (.unary 1 .not (flagNode 2))] [5]).valueAt
          [flagState "false", flagState "true"] 0 0 (.unary 1 .not (flagNode 2)) = some truth ∧
        (Evaluator.new [.unary 0 .y (.unary 1 .not (flagNode 2))] [5]).valueAt
          [flagState "false", flagState "true"] 0 1
          (.unary 0 .y (.unary 1 .not (flagNode 2))) = some truth := by
  refine (yesterday_repeats_operand_iff [.y (.not (.predicates flagSet))] [.unary 0 .y (.unary 1 .not (flagNode 2))] [5]
    _ _ [flagState "false", flagState "true"] (by decide) (Or.inl rfl) rfl 0 0 _ _ rfl
    List.mem_cons_self).mpr ⟨?_, ?_⟩ 0 (by decide)
  · intro impossible
    cases impossible
  · intro k few again
    simp only [List.length_cons, List.length_nil] at few
    omega

end LtlFuzz.Monitor

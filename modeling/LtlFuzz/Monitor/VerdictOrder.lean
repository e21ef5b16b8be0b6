import LtlFuzz.Monitor.ViolationLog
import LtlFuzz.Monitor.Soundness

/-! Which formula a verdict is about. The evaluator keeps one slot a formula, in the
order the parser delivers them, and every slot behaves like an evaluator of its own. -/

namespace LtlFuzz.Monitor
open Text (Fault words)
open Logic Preprocessor Grammar

/-- What the owner of an evaluator does with it. -/
inductive Call where
  | evaluateOneStep (state : State)
  | resetEvaluator

namespace Evaluator

def call (evaluator : Evaluator) : Call → Except Fault Evaluator
  | .evaluateOneStep state => evaluator.advance state
  | .resetEvaluator => .ok evaluator.resetEvaluator

/-- One slot of an evaluator, as an evaluator of its own. -/
def slot (evaluator : Evaluator) (i : Nat) : Evaluator where
  newBv := evaluator.newBv[i]?.toList
  oldBv := evaluator.oldBv[i]?.toList
  formulas := evaluator.formulas[i]?.toList
  serialNumbers := evaluator.serialNumbers[i]?.toList
  index := evaluator.index

/-- Every formula has its slot. -/
structure Sized (evaluator : Evaluator) : Prop where
  newLength : evaluator.newBv.length = evaluator.formulas.length
  oldLength : evaluator.oldBv.length = evaluator.formulas.length
  serials : evaluator.serialNumbers.length = evaluator.formulas.length

private theorem blankBitVectors_slot (snums : List Nat) (i : Nat) :
    blankBitVectors (snums[i]?.toList) = ((blankBitVectors snums)[i]?).toList := by
  cases found : snums[i]? <;> simp [blankBitVectors, found]

theorem resetEvaluator_slot (evaluator : Evaluator) (i : Nat) :
    evaluator.resetEvaluator.slot i = (evaluator.slot i).resetEvaluator := by
  simp [resetEvaluator, slot, blankBitVectors_slot]

private theorem evaluateFormulas_at {index : Int32} {state : State} {formulas : List (ASTNode Nat)}
    {newBv oldBv newAfter oldAfter : List BitVector} {result : List Bool}
    (executed : evaluateFormulas index state formulas newBv oldBv = .ok (result, newAfter, oldAfter))
    (newLength : newBv.length = formulas.length) (oldLength : oldBv.length = formulas.length) (i : Nat) :
    evaluateFormulas index state formulas[i]?.toList newBv[i]?.toList oldBv[i]?.toList =
      .ok (result[i]?.toList, newAfter[i]?.toList, oldAfter[i]?.toList) := by
  obtain ⟨same, newSame, oldSame, slots⟩ := evaluateFormulas_slot executed newLength oldLength
  cases found : formulas[i]? with
  | none =>
    have beyond : formulas.length ≤ i := List.getElem?_eq_none_iff.mp found
    rw [List.getElem?_eq_none (by omega), List.getElem?_eq_none (by omega), List.getElem?_eq_none (by omega),
      List.getElem?_eq_none (by omega), List.getElem?_eq_none (by omega)]
    rfl
  | some formula =>
    obtain ⟨new, old, res, after, foundNew, foundOld, step, verdict, newThere, oldThere⟩ := slots i formula found
    simp only [foundNew, foundOld, verdict, newThere, oldThere, Option.toList_some, evaluateFormulas, step]
    rfl

/-- A step of the evaluator is a step of each of its slots. -/
theorem evaluateOneStep_slot {evaluator next : Evaluator} {state : State} {verdicts : List Bool} (sized : evaluator.Sized)
    (executed : evaluator.evaluateOneStep state = .ok (verdicts, next)) :
    next.Sized ∧ verdicts.length = evaluator.formulas.length ∧
      ∀ i, (evaluator.slot i).evaluateOneStep state = .ok (verdicts[i]?.toList, next.slot i) := by
  obtain ⟨inner, formulas, serials, index⟩ := evaluateOneStep_ok executed
  obtain ⟨same, newSame, oldSame, _⟩ := evaluateFormulas_slot inner sized.newLength sized.oldLength
  refine ⟨⟨by rw [newSame, formulas], by rw [oldSame, formulas], by rw [serials, formulas, sized.serials]⟩, same, ?_⟩
  intro i
  have alone := evaluateFormulas_at inner sized.newLength sized.oldLength i
  simp only [evaluateOneStep, slot, alone, formulas, serials, index]
  rfl

theorem call_slot {evaluator next : Evaluator} {call : Call} (sized : evaluator.Sized)
    (executed : evaluator.call call = .ok next) (i : Nat) :
    next.Sized ∧ (evaluator.slot i).call call = .ok (next.slot i) := by
  cases call with
  | evaluateOneStep state =>
    obtain ⟨verdicts, stepped⟩ := advance_ok executed
    obtain ⟨kept, _, alone⟩ := evaluateOneStep_slot sized stepped
    exact ⟨kept, by simp [Evaluator.call, advance, alone i, Except.map]⟩
  | resetEvaluator =>
    cases executed
    refine ⟨⟨?_, ?_, sized.serials⟩, by rw [resetEvaluator_slot]; rfl⟩
    · simp [resetEvaluator, blankBitVectors, sized.serials]
    · simp [resetEvaluator, blankBitVectors, sized.serials]

/-- So is a run. -/
theorem calls_slot {evaluator final : Evaluator} {calls : List Call} (sized : evaluator.Sized)
    (executed : run call evaluator calls = .ok final) (i : Nat) :
    final.Sized ∧ run call (evaluator.slot i) calls = .ok (final.slot i) :=
  run_projected (fun evaluator => evaluator.slot i) call Sized (fun _ _ _ held stepped => call_slot held stepped i) sized
    executed

private theorem call_formulas {evaluator next : Evaluator} {call : Call} (executed : evaluator.call call = .ok next) :
    next.formulas = evaluator.formulas := by
  cases call with
  | evaluateOneStep state =>
    obtain ⟨verdicts, stepped⟩ := advance_ok executed
    exact (evaluateOneStep_ok stepped).2.1
  | resetEvaluator => cases executed; rfl

theorem calls_formulas {evaluator final : Evaluator} {calls : List Call} (executed : run call evaluator calls = .ok final) :
    final.formulas = evaluator.formulas :=
  run_invariant (fun reached => reached.formulas = evaluator.formulas)
    (fun _ _ _ held stepped => (call_formulas stepped).trans held) rfl executed

theorem new_sized (asts : List (ASTNode Unit)) :
    (Evaluator.new (asts.map fun ast => (preProcess ast 0).1) (asts.map fun ast => (preProcess ast 0).2)).Sized :=
  ⟨by simp [new, blankBitVectors], by simp [new, blankBitVectors], by simp [new]⟩

end Evaluator

/-- The evaluator of a specification that holds this formula alone. -/
def Grammar.Formula.evaluator (formula : Formula) : Evaluator :=
  Evaluator.new [(preProcess formula.node 0).1] [(preProcess formula.node 0).2]

/-- After these calls the formula has this verdict on this event. -/
def Grammar.Formula.Verdict (formula : Formula) (calls : List Call) (state : State) (verdict : Bool) : Prop :=
  ∃ evaluator next, run Evaluator.call formula.evaluator calls = .ok evaluator ∧
    evaluator.evaluateOneStep state = .ok ([verdict], next)

theorem Grammar.Formula.verdict_unique {formula : Formula} {calls : List Call} {state : State} {first second : Bool}
    (one : formula.Verdict calls state first) (two : formula.Verdict calls state second) : first = second := by
  obtain ⟨evaluator, next, reached, executed⟩ := one
  obtain ⟨other, after, again, repeated⟩ := two
  cases reached.symm.trans again
  cases executed.symm.trans repeated
  rfl

/-- The first part of a record `runtime_monitor_dump` appends. -/
def violatedIndices (result : List Bool) : List Char :=
  (List.range result.length).flatMap fun i => if result[i]? = some false then decimal i ++ [' '] else []

/-- What `runtime_monitor_dump` appends to `runtime_monitor.txt`, for a trace that holds no
conversion of `fprintf`. -/
def runtimeMonitorDump (result : List Bool) (trace responseTrace : List (List Char)) : List Char :=
  if violatedIndices result = [] then []
  else violatedIndices result ++
    ((trace.zip responseTrace).flatMap fun entry => "(".toList ++ entry.1 ++ ", ".toList ++ entry.2 ++ ") ".toList) ++
    ['\n']

theorem prefix_runtimeMonitorDump (result : List Bool) (trace responseTrace : List (List Char)) :
    violatedIndices result <+: runtimeMonitorDump result trace responseTrace := by
  unfold runtimeMonitorDump
  split
  next empty => simp [empty]
  next => rw [List.append_assoc]; exact List.prefix_append _ _

private theorem words_indices (indices : List Nat) :
    words (indices.flatMap fun i => decimal i ++ [' ']) = indices.map decimal := by
  induction indices with
  | nil => rfl
  | cons i indices ih =>
    have nonempty : decimal i ≠ [] := by
      rw [decimal, Text.toList_toString_nat]
      exact Nat.toDigits_ne_nil
    have solid : ∀ c ∈ decimal i, Text.isSpace c = false :=
      fun c member => Text.digit_not_space (Text.toString_nat_digits i c member)
    simp only [List.flatMap_cons, List.map_cons, List.append_assoc, List.singleton_append]
    rw [Text.words_append_blank nonempty solid, ih]

private theorem flatMap_filter (indices : List Nat) (chosen : Nat → Prop) [DecidablePred chosen] (text : Nat → List Char) :
    (indices.flatMap fun i => if chosen i then text i else []) = (indices.filter chosen).flatMap text := by
  induction indices with
  | nil => rfl
  | cons i indices ih => by_cases here : chosen i <;> simp [here, ih]

/-- The record names the slots whose verdict is false. -/
theorem words_violatedIndices (result : List Bool) : words (violatedIndices result) = (badIndices result).map decimal := by
  rw [violatedIndices, flatMap_filter, words_indices, badIndices]
  simp only [beq_eq_decide]

theorem mem_badIndices (result : List Bool) (i : Nat) : i ∈ badIndices result ↔ result[i]? = some false := by
  simp only [badIndices, List.mem_filter, List.mem_range, beq_iff_eq, and_iff_right_iff_imp]
  exact fun found => (List.getElem?_eq_some_iff.mp found).1

private theorem new_slot {tree : SpecTree} {formula : Formula} {i : Nat}
    (found : (tree.formula :: tree.formulas).reverse[i]? = some formula) :
    (Evaluator.new (tree.spec.2.map fun ast => (preProcess ast 0).1)
      (tree.spec.2.map fun ast => (preProcess ast 0).2)).slot i = formula.evaluator := by
  have inside : tree.spec.2[i]? = some formula.node := by
    simp only [SpecTree.spec, pushAction_eq]
    rw [← List.map_reverse, List.getElem?_map, found, Option.map_some]
  simp [Evaluator.slot, Evaluator.new, Evaluator.blankBitVectors, Formula.evaluator, inside]

section Order

variable {tree : SpecTree} {nodes : List (ASTNode Nat)} {snums : List Nat} {calls : List Call}
  {evaluator next : Evaluator} {state : State} {verdicts : List Bool}

private theorem verdicts_length (numbered : doPreProcess tree.spec.2 = some (nodes, snums))
    (reached : run Evaluator.call (Evaluator.new nodes snums) calls = .ok evaluator)
    (executed : evaluator.evaluateOneStep state = .ok (verdicts, next)) :
    verdicts.length = (tree.formula :: tree.formulas).length := by
  obtain ⟨rfl, rfl, _⟩ := doPreProcess_some numbered
  have sized := (Evaluator.calls_slot (Evaluator.new_sized tree.spec.2) reached 0).1
  rw [(Evaluator.evaluateOneStep_slot sized executed).2.1, Evaluator.calls_formulas reached]
  simp [Evaluator.new, SpecTree.spec]

/-- A verdict is about the formula the parser delivered at its position. -/
private theorem verdict_at (numbered : doPreProcess tree.spec.2 = some (nodes, snums))
    (reached : run Evaluator.call (Evaluator.new nodes snums) calls = .ok evaluator)
    (executed : evaluator.evaluateOneStep state = .ok (verdicts, next)) {i : Nat} {formula : Formula} {verdict : Bool}
    (found : (tree.formula :: tree.formulas).reverse[i]? = some formula) (here : verdicts[i]? = some verdict) :
    formula.Verdict calls state verdict := by
  obtain ⟨rfl, rfl, _⟩ := doPreProcess_some numbered
  obtain ⟨sized, alone⟩ := Evaluator.calls_slot (Evaluator.new_sized tree.spec.2) reached i
  have stepped := (Evaluator.evaluateOneStep_slot sized executed).2.2 i
  rw [new_slot found] at alone
  rw [here] at stepped
  exact ⟨evaluator.slot i, next.slot i, alone, stepped⟩

end Order

/-- Verdicts count from the end of the text: the one at position `i` is about the formula
with `i` formulas behind it, and so is the number `i` in a record of violations. -/
theorem evaluateOneStep_verdict_order (tree : SpecTree) (nodes : List (ASTNode Nat)) (snums : List Nat) (calls : List Call)
    (evaluator next : Evaluator) (state : State) (verdicts : List Bool)
    (numbered : doPreProcess tree.spec.2 = some (nodes, snums))
    (reached : run Evaluator.call (Evaluator.new nodes snums) calls = .ok evaluator)
    (executed : evaluator.evaluateOneStep state = .ok (verdicts, next)) :
    verdicts.length = (tree.formula :: tree.formulas).length ∧
      (∀ i < verdicts.length, ∃ formula verdict,
        (tree.formula :: tree.formulas)[verdicts.length - 1 - i]? = some formula ∧ verdicts[i]? = some verdict ∧
          formula.Verdict calls state verdict) ∧
      (∀ trace responseTrace, violatedIndices verdicts <+: runtimeMonitorDump verdicts trace responseTrace) ∧
      words (violatedIndices verdicts) = (badIndices verdicts).map decimal ∧
      ∀ i, i ∈ badIndices verdicts ↔ i < verdicts.length ∧ ∃ formula,
        (tree.formula :: tree.formulas)[verdicts.length - 1 - i]? = some formula ∧ formula.Verdict calls state false := by
  have length := verdicts_length numbered reached executed
  have about (i : Nat) (inside : i < verdicts.length) : ∃ formula verdict,
      (tree.formula :: tree.formulas)[verdicts.length - 1 - i]? = some formula ∧ verdicts[i]? = some verdict ∧
        formula.Verdict calls state verdict := by
    have bound : verdicts.length - 1 - i < (tree.formula :: tree.formulas).length := by omega
    have mirrored : (tree.formula :: tree.formulas).reverse[i]? =
        (tree.formula :: tree.formulas)[verdicts.length - 1 - i]? := by
      rw [List.getElem?_reverse (by omega), length]
    refine ⟨_, _, List.getElem?_eq_getElem bound, List.getElem?_eq_getElem inside, ?_⟩
    apply verdict_at numbered reached executed _ (List.getElem?_eq_getElem inside)
    rw [mirrored, List.getElem?_eq_getElem bound]
  refine ⟨length, about, prefix_runtimeMonitorDump verdicts, words_violatedIndices verdicts, ?_⟩
  intro i
  rw [mem_badIndices]
  constructor
  · intro bad
    have inside : i < verdicts.length := (List.getElem?_eq_some_iff.mp bad).1
    obtain ⟨formula, verdict, found, here, verdictHere⟩ := about i inside
    cases bad.symm.trans here
    exact ⟨inside, formula, found, verdictHere⟩
  · rintro ⟨inside, formula, found, violated⟩
    obtain ⟨other, verdict, again, here, verdictHere⟩ := about i inside
    cases found.symm.trans again
    rw [here, Formula.verdict_unique verdictHere violated]

def flagCleared : Grammar.Predicates := ⟨flagSet.id, .eq, .false⟩

/-- The specification `bool x; x = true; x = false;`. -/
def flagPair : SpecTree where
  declaration := .bool flagSet.id
  declarations := []
  formula := .predicates flagSet
  formulas := [.predicates flagCleared]

def flagPairNodes : List (ASTNode Nat) :=
  [.predicate 0 .eq (.id 1 "x") (.bool 2 false), .predicate 0 .eq (.id 1 "x") (.bool 2 true)]

/-- Where `x` is true the verdict at position zero is false, and the first formula holds. -/
theorem first_verdict_about_last_formula :
    TypeChecker.new flagPair.spec = .ok flagChecker ∧ doPreProcess flagPair.spec.2 = some (flagPairNodes, [3, 3]) ∧
      (flagState "true").Labels flagChecker flagPair.spec.1 ∧
      ((Evaluator.new flagPairNodes [3, 3]).evaluateOneStep (flagState "true")).map Prod.fst = .ok [false, true] ∧
      flagPair.formula.Verdict [] (flagState "true") true ∧ ¬ flagPair.formula.Verdict [] (flagState "true") false := by
  have holds : flagPair.formula.Verdict [] (flagState "true") true := ⟨_, _, rfl, rfl⟩
  refine ⟨rfl, by decide, ⟨rfl, by decide, by decide⟩, rfl, holds, ?_⟩
  intro violated
  cases Formula.verdict_unique holds violated

theorem flagPair_verdict_order :
    ∃ verdicts next, (Evaluator.new flagPairNodes [3, 3]).evaluateOneStep (flagState "true") = .ok (verdicts, next) ∧
      verdicts.length = (flagPair.formula :: flagPair.formulas).length ∧
      (∀ i < verdicts.length, ∃ formula verdict,
        (flagPair.formula :: flagPair.formulas)[verdicts.length - 1 - i]? = some formula ∧ verdicts[i]? = some verdict ∧
          formula.Verdict [] (flagState "true") verdict) ∧
      (∀ trace responseTrace, violatedIndices verdicts <+: runtimeMonitorDump verdicts trace responseTrace) ∧
      words (violatedIndices verdicts) = (badIndices verdicts).map decimal ∧
      ∀ i, i ∈ badIndices verdicts ↔ i < verdicts.length ∧ ∃ formula,
        (flagPair.formula :: flagPair.formulas)[verdicts.length - 1 - i]? = some formula ∧
          formula.Verdict [] (flagState "true") false :=
  ⟨_, _, rfl, evaluateOneStep_verdict_order flagPair flagPairNodes [3, 3] [] _ _ (flagState "true") _ (by decide) rfl rfl⟩

end LtlFuzz.Monitor

import LtlFuzz.Monitor.VerdictOrder

/-! The numbers that the preprocessor gives to the nodes of a formula, and the bits that the
evaluator sets and tests under them. -/

namespace LtlFuzz.Monitor
open Logic Preprocessor

namespace ASTNode

variable {σ : Type}

/-- The nodes of a formula with the operands of its comparisons, parents first. -/
def allNodes : ASTNode σ → List (ASTNode σ)
  | .unary serial kind child => .unary serial kind child :: child.allNodes
  | .binary serial kind left right => .binary serial kind left right :: (left.allNodes ++ right.allNodes)
  | .predicate serial kind left right => .predicate serial kind left right :: (left.allNodes ++ right.allNodes)
  | node => [node]

def numbers (node : ASTNode Nat) : List Nat := node.allNodes.map serialNumber

/-- The formula as the parser made it. -/
def unnumbered : ASTNode σ → ASTNode Unit
  | .id _ name => .id () name
  | .int _ value => .int () value
  | .bool _ value => .bool () value
  | .unary _ kind child => .unary () kind child.unnumbered
  | .binary _ kind left right => .binary () kind left.unnumbered right.unnumbered
  | .predicate _ kind left right => .predicate () kind left.unnumbered right.unnumbered

end ASTNode

section Accesses

/-- A bit that is set or tested. -/
structure Access where
  vector : BitVector
  index : Nat

def Access.InRange (access : Access) : Prop := access.index < access.vector.sz

/-- What the operator itself tests, when its operand was evaluated. -/
def unaryTests (index : Int32) (oldBv : BitVector) (kind : UnaryKind) (serial childSerial : Nat) : List Access :=
  match kind with
  | .not => []
  | .o => [⟨oldBv, serial⟩]
  | .h => if index = 0 then [] else [⟨oldBv, serial⟩]
  | .y => if index = 0 then [] else [⟨oldBv, childSerial⟩]

def binaryTests (oldBv : BitVector) (kind : BinaryKind) (serial : Nat) : List Access :=
  match kind with
  | .and | .or | .arrow => []
  | .s => [⟨oldBv, serial⟩]

def recordSets (result : Bool) (serial : Nat) (newBv : BitVector) : List Access :=
  if result then [⟨newBv, serial⟩] else []

/-- The calls of `set` and `test` that `EvaluateFormula` makes, up to where it fails if it does. -/
def formulaAccesses (index : Int32) (oldBv : BitVector) (state : State) : ASTNode Nat → BitVector → List Access
  | .unary serial kind child, newBv =>
    formulaAccesses index oldBv state child newBv ++
      match evaluateFormula index oldBv state child newBv with
      | .error _ => []
      | .ok (result, newBv) =>
        unaryTests index oldBv kind serial child.serialNumber ++
          recordSets (unaryResult index oldBv kind serial child.serialNumber result) serial newBv
  | .binary serial kind left right, newBv =>
    formulaAccesses index oldBv state left newBv ++
      match evaluateFormula index oldBv state left newBv with
      | .error _ => []
      | .ok (r1, newBv) =>
        formulaAccesses index oldBv state right newBv ++
          match evaluateFormula index oldBv state right newBv with
          | .error _ => []
          | .ok (r2, newBv) => binaryTests oldBv kind serial ++ recordSets (binaryResult oldBv kind serial r1 r2) serial newBv
  | .id serial name, newBv => recordSets (decide (state.getLabel name = .ok "true")) serial newBv
  | .predicate _ _ _ _, _ | .int _ _, _ | .bool _ _, _ => []

def formulasAccesses (index : Int32) (state : State) : List (ASTNode Nat) → List BitVector → List BitVector → List Access
  | formula :: formulas, new :: newBv, old :: oldBv =>
    formulaAccesses index old state formula new ++
      match evaluateFormula index old state formula new with
      | .error _ => []
      | .ok _ => formulasAccesses index state formulas newBv oldBv
  | _, _, _ => []

def Evaluator.stepAccesses (evaluator : Evaluator) (state : State) : List Access :=
  formulasAccesses evaluator.index state evaluator.formulas evaluator.newBv evaluator.oldBv

end Accesses

namespace Preprocessor
open ASTNode

variable {σ : Type}

theorem preProcess_counter (ast : ASTNode σ) (snum : Nat) : (preProcess ast snum).2 = snum + ast.allNodes.length := by
  induction ast generalizing snum with
  | id | int | bool => rfl
  | unary serial kind child ih =>
    simp only [preProcess, allNodes, List.length_cons, ih]
    omega
  | binary serial kind left right ihLeft ihRight | predicate serial kind left right ihLeft ihRight =>
    simp only [preProcess, allNodes, List.length_cons, List.length_append, ihLeft, ihRight]
    omega

/-- Nodes are numbered in the order in which they are listed. -/
theorem preProcess_numbers (ast : ASTNode σ) (snum : Nat) :
    (preProcess ast snum).1.numbers = List.range' snum ast.allNodes.length := by
  induction ast generalizing snum with
  | id | int | bool => rfl
  | unary serial kind child ih =>
    have below : (preProcess child (snum + 1)).1.numbers = _ := ih (snum + 1)
    simp only [numbers] at below
    simp only [preProcess, numbers, allNodes, List.map_cons, serialNumber, below, List.length_cons, List.range'_succ]
  | binary serial kind left right ihLeft ihRight | predicate serial kind left right ihLeft ihRight =>
    have first := ihLeft (snum + 1)
    have second := ihRight (snum + 1 + left.allNodes.length)
    simp only [numbers] at first second
    simp only [preProcess, numbers, allNodes, List.map_cons, List.map_append, serialNumber, first, second, List.length_cons,
      List.length_append, List.range'_succ, preProcess_counter]
    rw [List.range'_append_1]

@[simp] theorem preProcess_unnumbered (ast : ASTNode Unit) (snum : Nat) : (preProcess ast snum).1.unnumbered = ast := by
  induction ast generalizing snum with
  | id | int | bool => rfl
  | unary serial kind child ih => simp only [preProcess, unnumbered, ih]
  | binary serial kind left right ihLeft ihRight | predicate serial kind left right ihLeft ihRight =>
    simp only [preProcess, unnumbered, ihLeft, ihRight]

end Preprocessor

section Ranges
open ASTNode

variable {index : Int32} {size : Nat} {oldBv : BitVector} {state : State}

private theorem sz_record (result : Bool) (serial : Nat) (newBv : BitVector) :
    (record result serial newBv).2.sz = newBv.sz := by
  cases result <;> simp [record]

theorem evaluateFormula_sz (node : ASTNode Nat) {newBv after : BitVector} {result : Bool}
    (executed : evaluateFormula index oldBv state node newBv = .ok (result, after)) : after.sz = newBv.sz := by
  induction node generalizing newBv after result with
  | int | bool => cases executed
  | predicate serial kind left right => exact congrArg BitVector.sz (evaluateFormula_predicate executed).2
  | id serial name =>
    obtain ⟨_, known, same⟩ := evaluateFormula_id executed
    rw [show after = _ from congrArg Prod.snd same, sz_record]
  | unary serial kind child ih =>
    obtain ⟨known, middle, inner, same⟩ := evaluateFormula_unary executed
    rw [show after = _ from congrArg Prod.snd same, sz_record, ih inner]
  | binary serial kind left right ihLeft ihRight =>
    obtain ⟨r1, first, r2, second, inner, outer, same⟩ := evaluateFormula_binary executed
    rw [show after = _ from congrArg Prod.snd same, sz_record, ihRight outer, ihLeft inner]

private theorem recordSets_inRange (result : Bool) {serial : Nat} {newBv : BitVector} (sized : newBv.sz = size)
    (inside : serial < size) : ∀ access ∈ recordSets result serial newBv, access.InRange := by
  intro access member
  cases result with
  | false => cases member
  | true =>
    cases List.mem_singleton.mp member
    exact Nat.lt_of_lt_of_eq inside sized.symm

private theorem unaryTests_inRange (kind : UnaryKind) {serial childSerial : Nat} (sized : oldBv.sz = size)
    (inside : serial < size) (child : childSerial < size) :
    ∀ access ∈ unaryTests index oldBv kind serial childSerial, access.InRange := by
  subst sized
  intro access member
  cases kind <;> simp only [unaryTests, List.mem_singleton, List.not_mem_nil] at member
  case o =>
    subst member
    exact inside
  all_goals
    split at member
    next => cases member
    next =>
      cases List.mem_singleton.mp member
      assumption

private theorem binaryTests_inRange (kind : BinaryKind) {serial : Nat} (sized : oldBv.sz = size) (inside : serial < size) :
    ∀ access ∈ binaryTests oldBv kind serial, access.InRange := by
  intro access member
  cases kind <;> simp only [binaryTests, List.mem_singleton, List.not_mem_nil] at member
  subst member
  exact Nat.lt_of_lt_of_eq inside sized.symm

/-- Vectors with room for every number of a formula are accessed inside. -/
theorem formulaAccesses_inRange (node : ASTNode Nat) {newBv : BitVector} (newSized : newBv.sz = size)
    (oldSized : oldBv.sz = size) (room : ∀ serial ∈ node.serials, serial < size) :
    ∀ access ∈ formulaAccesses index oldBv state node newBv, access.InRange := by
  induction node generalizing newBv with
  | int | bool | predicate => intro access member; cases member
  | id serial name => exact recordSets_inRange _ newSized (room _ (serial_mem _))
  | unary serial kind child ih =>
    have below := fun other (member : other ∈ child.serials) => room other (List.mem_cons_of_mem _ member)
    intro access member
    rw [formulaAccesses, List.mem_append] at member
    rcases member with inner | outer
    · exact ih newSized below access inner
    · cases executed : evaluateFormula index oldBv state child newBv with
      | error fault => simp [executed] at outer
      | ok output =>
        simp only [executed, List.mem_append] at outer
        rcases outer with tested | recorded
        · exact unaryTests_inRange kind oldSized (room _ (serial_mem _)) (below _ (serial_mem _)) access tested
        · have sized := (evaluateFormula_sz child executed).trans newSized
          exact recordSets_inRange _ sized (room _ (serial_mem _)) access recorded
  | binary serial kind left right ihLeft ihRight =>
    have below : ∀ other ∈ left.serials ++ right.serials, other < size := by
      intro other member
      apply room
      simpa [serials, formulaNodes] using Or.inr (List.mem_append.mp member)
    intro access member
    rw [formulaAccesses, List.mem_append] at member
    rcases member with first | rest
    · exact ihLeft newSized (fun other inside => below other (List.mem_append_left _ inside)) access first
    · cases executed : evaluateFormula index oldBv state left newBv with
      | error fault => simp [executed] at rest
      | ok output =>
        have middle := (evaluateFormula_sz left executed).trans newSized
        simp only [executed, List.mem_append] at rest
        rcases rest with second | outer
        · exact ihRight middle (fun other inside => below other (List.mem_append_right _ inside)) access second
        · cases continued : evaluateFormula index oldBv state right output.2 with
          | error fault => simp [continued] at outer
          | ok final =>
            simp only [continued, List.mem_append] at outer
            rcases outer with tested | recorded
            · exact binaryTests_inRange kind oldSized (room _ (serial_mem _)) access tested
            · have sized := (evaluateFormula_sz right continued).trans middle
              exact recordSets_inRange _ sized (room _ (serial_mem _)) access recorded

end Ranges

namespace Evaluator
open ASTNode

variable {index : Int32} {state : State} {asts : List (ASTNode Unit)}

/-- Between two steps every slot has two vectors with a bit for each node of its formula. -/
structure Fitted (asts : List (ASTNode Unit)) (evaluator : Evaluator) : Prop where
  formulas : evaluator.formulas = asts.map fun ast => (preProcess ast 0).1
  serials : evaluator.serialNumbers = asts.map fun ast => (preProcess ast 0).2
  newSizes : evaluator.newBv.map BitVector.sz = evaluator.serialNumbers
  oldSizes : evaluator.oldBv.map BitVector.sz = evaluator.serialNumbers

@[simp] theorem blankBitVectors_sz (snums : List Nat) : (blankBitVectors snums).map BitVector.sz = snums := by
  simp only [blankBitVectors, List.map_map]
  exact List.map_id snums

theorem resetEvaluator_fitted {evaluator : Evaluator} (fitted : evaluator.Fitted asts) :
    evaluator.resetEvaluator.Fitted asts :=
  ⟨fitted.formulas, fitted.serials, blankBitVectors_sz _, blankBitVectors_sz _⟩

private theorem evaluateFormulas_sz {formulas : List (ASTNode Nat)} {newBv oldBv newAfter oldAfter : List BitVector}
    {result : List Bool}
    (executed : evaluateFormulas index state formulas newBv oldBv = .ok (result, newAfter, oldAfter))
    (same : newBv.map BitVector.sz = oldBv.map BitVector.sz) :
    newAfter.map BitVector.sz = newBv.map BitVector.sz ∧ oldAfter.map BitVector.sz = newBv.map BitVector.sz := by
  induction formulas generalizing newBv oldBv newAfter oldAfter result with
  | nil =>
    cases executed
    exact ⟨rfl, same.symm⟩
  | cons formula formulas ih =>
    cases newBv with
    | nil => cases executed; exact ⟨rfl, same.symm⟩
    | cons new newBv =>
      cases oldBv with
      | nil => cases same
      | cons old oldBv =>
        obtain ⟨⟨res, recorded⟩, step, rest⟩ := bind_ok executed
        obtain ⟨⟨results, newRest, oldRest⟩, inner, returned⟩ := bind_ok rest
        cases returned
        obtain ⟨newKept, oldKept⟩ := ih inner (List.cons.inj same).2
        have kept : recorded.sz = new.sz := evaluateFormula_sz formula step
        simp [newKept, oldKept, kept]

theorem call_fitted {evaluator next : Evaluator} {input : Call} (fitted : evaluator.Fitted asts)
    (executed : evaluator.call input = .ok next) : next.Fitted asts := by
  cases input with
  | resetEvaluator =>
    cases executed
    exact resetEvaluator_fitted fitted
  | evaluateOneStep state =>
    obtain ⟨verdicts, stepped⟩ := advance_ok executed
    obtain ⟨inner, formulas, serials, _⟩ := evaluateOneStep_ok stepped
    obtain ⟨newKept, oldKept⟩ := evaluateFormulas_sz inner (fitted.newSizes.trans fitted.oldSizes.symm)
    exact ⟨formulas.trans fitted.formulas, serials.trans fitted.serials,
      by rw [newKept, fitted.newSizes, serials], by rw [oldKept, fitted.newSizes, serials]⟩

theorem calls_fitted {evaluator final : Evaluator} {calls : List Call} (fitted : evaluator.Fitted asts)
    (executed : run call evaluator calls = .ok final) : final.Fitted asts :=
  run_invariant (Fitted asts) (fun _ _ _ held stepped => call_fitted held stepped) fitted executed

private theorem formulasAccesses_inRange {newBv oldBv : List BitVector}
    (newSizes : newBv.map BitVector.sz = asts.map fun ast => (preProcess ast 0).2)
    (oldSizes : oldBv.map BitVector.sz = asts.map fun ast => (preProcess ast 0).2) :
    ∀ access ∈ formulasAccesses index state (asts.map fun ast => (preProcess ast 0).1) newBv oldBv, access.InRange := by
  induction asts generalizing newBv oldBv with
  | nil => intro access member; cases member
  | cons ast asts ih =>
    obtain ⟨new, newRest, rfl, newSized, newSame⟩ := List.map_eq_cons_iff.mp newSizes
    obtain ⟨old, oldRest, rfl, oldSized, oldSame⟩ := List.map_eq_cons_iff.mp oldSizes
    intro access member
    simp only [List.map_cons, formulasAccesses, List.mem_append] at member
    rcases member with first | rest
    · have room := fun serial inside => ((preProcess_serials ast 0).1 serial inside).2
      exact formulaAccesses_inRange _ newSized oldSized room access first
    · split at rest
      next => cases rest
      next => exact ih newSame oldSame access rest

theorem stepAccesses_inRange {evaluator : Evaluator} (fitted : evaluator.Fitted asts) (state : State) :
    ∀ access ∈ evaluator.stepAccesses state, access.InRange := by
  rw [stepAccesses, fitted.formulas]
  exact formulasAccesses_inRange (fitted.newSizes.trans fitted.serials) (fitted.oldSizes.trans fitted.serials)

end Evaluator

section Numbering
open ASTNode

theorem doPreProcess_eq {asts : List (ASTNode Unit)} (countable : ∀ ast ∈ asts, ast.allNodes.length ≤ intMax) :
    doPreProcess asts =
      some (asts.map fun ast => (preProcess ast 0).1, asts.map fun ast => (preProcess ast 0).2) := by
  have bounded : ∀ result ∈ asts.map (fun ast => preProcess ast 0), result.2 ≤ intMax := by
    rw [List.forall_mem_map]
    intro ast member
    simpa [preProcess_counter] using countable ast member
  simp only [doPreProcess, if_pos bounded, List.unzip_eq_map, List.map_map]
  rfl

theorem preProcess_zero_numbers (ast : ASTNode Unit) :
    (preProcess ast 0).1.numbers.Nodup ∧ ∀ serial, serial ∈ (preProcess ast 0).1.numbers ↔ serial < ast.allNodes.length := by
  rw [preProcess_numbers]
  exact ⟨List.nodup_range', by simp [List.mem_range'_1]⟩

/-- The nodes of a formula with as many nodes as an `int` can count get the numbers below their
count, and nothing the evaluator does with its vectors falls outside. -/
theorem doPreProcess_numbering (asts : List (ASTNode Unit)) (countable : ∀ ast ∈ asts, ast.allNodes.length ≤ intMax) :
    ∃ nodes snums, doPreProcess asts = some (nodes, snums) ∧ nodes.map unnumbered = asts ∧
      snums = asts.map (fun ast => ast.allNodes.length) ∧
      (∀ (i : Nat) (node : ASTNode Nat) (n : Nat), nodes[i]? = some node → snums[i]? = some n →
        node.numbers.Nodup ∧ ∀ serial, serial ∈ node.numbers ↔ serial < n) ∧
      ∀ (calls : List Call) (evaluator : Evaluator) (state : State),
        run Evaluator.call (Evaluator.new nodes snums) calls = .ok evaluator →
          ∀ access ∈ evaluator.stepAccesses state, access.InRange := by
  refine ⟨_, _, doPreProcess_eq countable, by simp [Function.comp_def], by simp [preProcess_counter], ?_, ?_⟩
  · intro i node n here counted
    simp only [List.getElem?_map, Option.map_eq_some_iff] at here counted
    obtain ⟨ast, found, rfl⟩ := here
    obtain ⟨other, again, rfl⟩ := counted
    cases found.symm.trans again
    rw [preProcess_counter, Nat.zero_add]
    exact preProcess_zero_numbers ast
  · intro calls evaluator state reached
    have start : (Evaluator.new (asts.map fun ast => (preProcess ast 0).1) (asts.map fun ast => (preProcess ast 0).2)).Fitted
        asts := ⟨rfl, rfl, Evaluator.blankBitVectors_sz _, Evaluator.blankBitVectors_sz _⟩
    exact Evaluator.stepAccesses_inRange (Evaluator.calls_fitted start reached) state

/-- A full tree of conjunctions over one label. -/
def conjunctions : Nat → ASTNode Unit
  | 0 => .id () "x"
  | depth + 1 => .binary () .and (conjunctions depth) (conjunctions depth)

theorem conjunctions_length (depth : Nat) : (conjunctions depth).allNodes.length + 1 = 2 ^ (depth + 1) := by
  induction depth with
  | zero => rfl
  | succ depth ih =>
    simp only [conjunctions, allNodes, List.length_cons, List.length_append]
    rw [Nat.pow_succ]
    omega

theorem conjunction_numbering :
    ∃ nodes snums, doPreProcess [.unary () .not (conjunctions 1)] = some (nodes, snums) ∧
      nodes.map unnumbered = [.unary () .not (conjunctions 1)] ∧ snums = [4] ∧
      (∀ (i : Nat) (node : ASTNode Nat) (n : Nat), nodes[i]? = some node → snums[i]? = some n →
        node.numbers.Nodup ∧ ∀ serial, serial ∈ node.numbers ↔ serial < n) ∧
      ∀ (calls : List Call) (evaluator : Evaluator) (state : State),
        run Evaluator.call (Evaluator.new nodes snums) calls = .ok evaluator →
          ∀ access ∈ evaluator.stepAccesses state, access.InRange :=
  doPreProcess_numbering [.unary () .not (conjunctions 1)] (by decide)

/-- One node more than an `int` can count. -/
theorem conjunctions_uncounted :
    (ASTNode.unary () .not (conjunctions 30)).allNodes.length = 2 ^ 31 ∧
      doPreProcess [.unary () .not (conjunctions 30)] = none := by
  have length := conjunctions_length 30
  have nodes : (ASTNode.unary () .not (conjunctions 30)).allNodes.length = 2 ^ 31 := by
    rw [allNodes, List.length_cons, length]
  refine ⟨nodes, ?_⟩
  simp only [doPreProcess, List.map_cons, List.map_nil, List.forall_mem_singleton, preProcess_counter, nodes]
  rfl

end Numbering

end LtlFuzz.Monitor

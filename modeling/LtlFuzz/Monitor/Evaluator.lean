import LtlFuzz.Monitor.BitVector
import LtlFuzz.Monitor.Preprocess
import LtlFuzz.Monitor.State
import LtlFuzz.Logic.Run

/-! `evaluator.cpp`: the one-pass evaluator. For every formula it keeps the bits its
nodes recorded at the previous step and the bits they record at the current one. -/

namespace LtlFuzz.Monitor
open Text (Fault stoi)
open Logic (bind_ok)

variable {σ : Type}

def boolToString (value : Bool) : String := if value then "true" else "false"

def intOperand (state : State) : ASTNode σ → Except Fault Int
  | .int _ value => .ok value
  | .id _ name => do stoi (← state.getLabel name)
  | _ => .error .assertion

def stringOperand (state : State) : ASTNode σ → Except Fault String
  | .int _ value => .ok (toString value)
  | .bool _ value => .ok (boolToString value)
  | .id _ name => state.getLabel name
  | _ => .error .assertion

/-- The right operand of an ordering is converted before the left one. Any node that is
not a comparison ends in one of the assertions. -/
def evaluatePredicate (state : State) : ASTNode σ → Except Fault Bool
  | .predicate _ kind left right =>
    match kind with
    | .eq => do
      let lStringVal ← stringOperand state left
      let rStringVal ← stringOperand state right
      return lStringVal == rStringVal
    | .neq => do
      let lStringVal ← stringOperand state left
      let rStringVal ← stringOperand state right
      return lStringVal != rStringVal
    | .gt => do
      let rIntVal ← intOperand state right
      let lIntVal ← intOperand state left
      return decide (lIntVal > rIntVal)
    | .gte => do
      let rIntVal ← intOperand state right
      let lIntVal ← intOperand state left
      return decide (lIntVal ≥ rIntVal)
    | .lt => do
      let rIntVal ← intOperand state right
      let lIntVal ← intOperand state left
      return decide (lIntVal < rIntVal)
    | .lte => do
      let rIntVal ← intOperand state right
      let lIntVal ← intOperand state left
      return decide (lIntVal ≤ rIntVal)
  | _ => .error .assertion

def unaryResult (index : Int32) (oldBv : BitVector) (kind : UnaryKind) (serial childSerial : Nat) (child : Bool) : Bool :=
  match kind with
  | .not => !child
  | .o => child || oldBv.test serial
  | .h => child && (if index = 0 then true else oldBv.test serial)
  | .y => if index = 0 then false else oldBv.test childSerial

def binaryResult (oldBv : BitVector) (kind : BinaryKind) (serial : Nat) (left right : Bool) : Bool :=
  match kind with
  | .and => left && right
  | .or => left || right
  | .arrow => !left || right
  | .s => right || (left && oldBv.test serial)

/-- What every explicit case of `EvaluateFormula` does with its result. -/
def record (result : Bool) (serial : Nat) (newBv : BitVector) : Bool × BitVector :=
  (result, if result then newBv.set serial else newBv)

/-- `EvaluateFormula` on the slot of one formula: `oldBv` is read, `newBv` is written.
A comparison falls through to the default case and records nothing. -/
def evaluateFormula (index : Int32) (oldBv : BitVector) (state : State) :
    ASTNode Nat → BitVector → Except Fault (Bool × BitVector)
  | .unary serial kind child, newBv => do
    let (result, newBv) ← evaluateFormula index oldBv state child newBv
    return record (unaryResult index oldBv kind serial child.serialNumber result) serial newBv
  | .binary serial kind left right, newBv => do
    let (r1, newBv) ← evaluateFormula index oldBv state left newBv
    let (r2, newBv) ← evaluateFormula index oldBv state right newBv
    return record (binaryResult oldBv kind serial r1 r2) serial newBv
  | .id serial name, newBv => do
    let val ← state.getLabel name
    if val = "true" then return record true serial newBv
    else if val = "false" then return record false serial newBv
    else .error .assertion
  | .predicate serial kind left right, newBv => do
    let result ← evaluatePredicate state (.predicate serial kind left right)
    return (result, newBv)
  | .int _ _, _ | .bool _ _, _ => .error .assertion

structure Evaluator where
  newBv : List BitVector
  oldBv : List BitVector
  formulas : List (ASTNode Nat)
  serialNumbers : List Nat
  index : Int32
  deriving DecidableEq

namespace Evaluator

def blankBitVectors (snums : List Nat) : List BitVector :=
  snums.map fun serial => (BitVector.new serial).clearBv

def new (formulas : List (ASTNode Nat)) (snums : List Nat) : Evaluator :=
  { newBv := blankBitVectors snums, oldBv := blankBitVectors snums, formulas, serialNumbers := snums, index := 0 }

def resetEvaluator (evaluator : Evaluator) : Evaluator :=
  { evaluator with
    newBv := blankBitVectors evaluator.serialNumbers
    oldBv := blankBitVectors evaluator.serialNumbers
    index := 0 }

def evaluateFormulas (index : Int32) (state : State) : List (ASTNode Nat) → List BitVector → List BitVector →
    Except Fault (List Bool × List BitVector × List BitVector)
  | formula :: formulas, new :: newBv, old :: oldBv => do
    let (res, recorded) ← evaluateFormula index old state formula new
    let (result, newBv, oldBv) ← evaluateFormulas index state formulas newBv oldBv
    return (res :: result, recorded.clearBv :: newBv, recorded :: oldBv)
  | _, newBv, oldBv => .ok ([], newBv, oldBv)

def evaluateOneStep (evaluator : Evaluator) (state : State) : Except Fault (List Bool × Evaluator) := do
  let (result, newBv, oldBv) ←
    evaluateFormulas evaluator.index state evaluator.formulas evaluator.newBv evaluator.oldBv
  return (result, { evaluator with newBv, oldBv, index := evaluator.index + 1 })

/-- The evaluator alone, without the verdicts it returns. -/
def advance (evaluator : Evaluator) (state : State) : Except Fault Evaluator :=
  (evaluator.evaluateOneStep state).map Prod.snd

def steps : Evaluator → List State → Except Fault Evaluator := Logic.run advance

theorem advance_ok {evaluator next : Evaluator} {state : State} (executed : evaluator.advance state = .ok next) :
    ∃ verdicts, evaluator.evaluateOneStep state = .ok (verdicts, next) := by
  unfold advance at executed
  cases stepped : evaluator.evaluateOneStep state with
  | error fault => simp [stepped, Except.map] at executed
  | ok output =>
    simp only [stepped, Except.map, Except.ok.injEq] at executed
    exact ⟨output.1, by rw [← executed]⟩

end Evaluator

/-- The Boolean `EvaluateFormula` returns for a node, whatever is being recorded. -/
def value (index : Int32) (oldBv : BitVector) (state : State) (node : ASTNode Nat) : Except Fault Bool :=
  (evaluateFormula index oldBv state node (BitVector.new 0)).map Prod.fst

/-- Every comparison below a node evaluates without an assertion or an exception. -/
def Evaluates (state : State) : ASTNode Nat → Prop
  | .unary _ _ child => Evaluates state child
  | .binary _ _ left right => Evaluates state left ∧ Evaluates state right
  | .id _ name => state.getLabel name = .ok "true" ∨ state.getLabel name = .ok "false"
  | .predicate serial kind left right => ∃ result, evaluatePredicate state (.predicate serial kind left right) = .ok result
  | .int _ _ | .bool _ _ => False

def recorded : ASTNode Nat → Bool
  | .predicate _ _ _ _ => false
  | _ => true

section Formula

variable {index : Int32} {oldBv : BitVector} {state : State}

private theorem evaluateFormula_fst (node : ASTNode Nat) (newBv other : BitVector) :
    (evaluateFormula index oldBv state node newBv).map Prod.fst =
      (evaluateFormula index oldBv state node other).map Prod.fst := by
  induction node generalizing newBv other with
  | int | bool => rfl
  | predicate serial kind left right =>
    simp only [evaluateFormula]
    cases evaluatePredicate state (.predicate serial kind left right) <;> rfl
  | id serial name =>
    simp only [evaluateFormula]
    cases state.getLabel name with
    | error fault => rfl
    | ok val =>
      by_cases isTrue : val = "true"
      · simp [isTrue, record, bind, Except.bind, pure, Except.pure, Except.map]
      · by_cases isFalse : val = "false" <;>
          simp [isTrue, isFalse, record, bind, Except.bind, pure, Except.pure, Except.map]
  | unary serial kind child ih =>
    have same := ih newBv other
    simp only [evaluateFormula]
    cases first : evaluateFormula index oldBv state child newBv <;>
      cases second : evaluateFormula index oldBv state child other <;>
      simp_all [record, bind, Except.bind, pure, Except.pure, Except.map]
  | binary serial kind left right ihLeft ihRight =>
    have same := ihLeft newBv other
    simp only [evaluateFormula]
    cases first : evaluateFormula index oldBv state left newBv with
    | error fault =>
      cases second : evaluateFormula index oldBv state left other <;>
        simp_all [bind, Except.bind, Except.map]
    | ok one =>
      cases second : evaluateFormula index oldBv state left other with
      | error fault => simp_all [Except.map]
      | ok two =>
        have agree := ihRight one.2 two.2
        cases third : evaluateFormula index oldBv state right one.2 <;>
          cases fourth : evaluateFormula index oldBv state right two.2 <;>
          simp_all [record, bind, Except.bind, pure, Except.pure, Except.map]

theorem value_eq (node : ASTNode Nat) (newBv : BitVector) :
    value index oldBv state node = (evaluateFormula index oldBv state node newBv).map Prod.fst :=
  evaluateFormula_fst node _ newBv

theorem value_of_ok {node : ASTNode Nat} {newBv after : BitVector} {result : Bool}
    (executed : evaluateFormula index oldBv state node newBv = .ok (result, after)) :
    value index oldBv state node = .ok result := by
  rw [value_eq node newBv, executed]
  rfl

/-- Each kind of node, by the results of its children. -/
theorem evaluateFormula_unary {serial : Nat} {kind : UnaryKind} {child : ASTNode Nat} {newBv : BitVector}
    {output : Bool × BitVector}
    (executed : evaluateFormula index oldBv state (.unary serial kind child) newBv = .ok output) :
    ∃ result middle, evaluateFormula index oldBv state child newBv = .ok (result, middle) ∧
      output = record (unaryResult index oldBv kind serial child.serialNumber result) serial middle := by
  obtain ⟨⟨result, middle⟩, inner, same⟩ := bind_ok executed
  cases same
  exact ⟨result, middle, inner, rfl⟩

theorem evaluateFormula_binary {serial : Nat} {kind : BinaryKind} {left right : ASTNode Nat} {newBv : BitVector}
    {output : Bool × BitVector}
    (executed : evaluateFormula index oldBv state (.binary serial kind left right) newBv = .ok output) :
    ∃ r1 first r2 second, evaluateFormula index oldBv state left newBv = .ok (r1, first) ∧
      evaluateFormula index oldBv state right first = .ok (r2, second) ∧
      output = record (binaryResult oldBv kind serial r1 r2) serial second := by
  obtain ⟨⟨r1, first⟩, inner, rest⟩ := bind_ok executed
  obtain ⟨⟨r2, second⟩, outer, same⟩ := bind_ok rest
  cases same
  exact ⟨r1, first, r2, second, inner, outer, rfl⟩

theorem evaluateFormula_id {serial : Nat} {name : String} {newBv : BitVector} {output : Bool × BitVector}
    (executed : evaluateFormula index oldBv state (.id serial name) newBv = .ok output) :
    (state.getLabel name = .ok "true" ∨ state.getLabel name = .ok "false") ∧
      ∃ result, output = record result serial newBv := by
  obtain ⟨val, label, rest⟩ := bind_ok executed
  by_cases isTrue : val = "true"
  · subst isTrue
    simp only [if_true, pure, Except.pure] at rest
    cases rest
    exact ⟨Or.inl label, true, rfl⟩
  · by_cases isFalse : val = "false"
    · subst isFalse
      simp only [if_neg isTrue, if_true, pure, Except.pure] at rest
      cases rest
      exact ⟨Or.inr label, false, rfl⟩
    · simp only [if_neg isTrue, if_neg isFalse] at rest
      cases rest

theorem evaluateFormula_predicate {serial : Nat} {kind : PredicateKind} {left right : ASTNode Nat} {newBv : BitVector}
    {output : Bool × BitVector}
    (executed : evaluateFormula index oldBv state (.predicate serial kind left right) newBv = .ok output) :
    evaluatePredicate state (.predicate serial kind left right) = .ok output.1 ∧ output.2 = newBv := by
  obtain ⟨result, inner, same⟩ := bind_ok executed
  cases same
  exact ⟨inner, rfl⟩

theorem value_unary {serial : Nat} {kind : UnaryKind} {child : ASTNode Nat} {result : Bool}
    (inner : value index oldBv state child = .ok result) :
    value index oldBv state (.unary serial kind child) =
      .ok (unaryResult index oldBv kind serial child.serialNumber result) := by
  unfold value at inner ⊢
  cases executed : evaluateFormula index oldBv state child (BitVector.new 0) with
  | error fault => simp [executed, Except.map] at inner
  | ok output =>
    simp only [executed, Except.map, Except.ok.injEq] at inner
    simp [evaluateFormula, executed, inner, record, bind, Except.bind, pure, Except.pure, Except.map]

theorem value_binary {serial : Nat} {kind : BinaryKind} {left right : ASTNode Nat} {r1 r2 : Bool}
    (first : value index oldBv state left = .ok r1) (second : value index oldBv state right = .ok r2) :
    value index oldBv state (.binary serial kind left right) = .ok (binaryResult oldBv kind serial r1 r2) := by
  unfold value at first ⊢
  cases executed : evaluateFormula index oldBv state left (BitVector.new 0) with
  | error fault => simp [executed, Except.map] at first
  | ok output =>
    rw [value_eq right output.2] at second
    cases continued : evaluateFormula index oldBv state right output.2 with
    | error fault => simp [continued, Except.map] at second
    | ok final =>
      simp only [executed, Except.map, Except.ok.injEq] at first
      simp only [continued, Except.map, Except.ok.injEq] at second
      simp [evaluateFormula, executed, continued, first, second, record, bind, Except.bind, pure, Except.pure, Except.map]

theorem value_id {serial : Nat} {name : String} {truth : Bool}
    (evaluated : value index oldBv state (.id serial name) = .ok truth) :
    state.getLabel name = .ok (if truth then "true" else "false") := by
  simp only [value, evaluateFormula] at evaluated
  cases label : state.getLabel name with
  | error fault => simp [label, bind, Except.bind, Except.map] at evaluated
  | ok val =>
    simp only [label, bind, Except.bind, pure, Except.pure] at evaluated
    split at evaluated
    next isTrue => cases evaluated; exact congrArg Except.ok isTrue
    next =>
      split at evaluated
      next isFalse => cases evaluated; exact congrArg Except.ok isFalse
      next => cases evaluated

theorem value_predicate (serial : Nat) (kind : PredicateKind) (left right : ASTNode Nat) :
    value index oldBv state (.predicate serial kind left right) =
      evaluatePredicate state (.predicate serial kind left right) := by
  simp only [value, evaluateFormula]
  cases evaluatePredicate state (.predicate serial kind left right) <;> rfl

/-- Whether evaluation fails depends on the formula and the labels only, never on the
memory of the evaluator. -/
theorem evaluates_iff (node : ASTNode Nat) (newBv : BitVector) :
    Evaluates state node ↔ ∃ output, evaluateFormula index oldBv state node newBv = .ok output := by
  induction node generalizing newBv with
  | int | bool => simp [Evaluates, evaluateFormula]
  | id serial name =>
    constructor
    · rintro (label | label) <;> simp [evaluateFormula, label, bind, Except.bind, pure, Except.pure]
    · intro ⟨output, executed⟩
      exact (evaluateFormula_id executed).1
  | predicate serial kind left right =>
    constructor
    · intro ⟨result, executed⟩
      exact ⟨(result, newBv), by simp only [evaluateFormula, executed]; rfl⟩
    · intro ⟨output, executed⟩
      exact ⟨output.1, (evaluateFormula_predicate executed).1⟩
  | unary serial kind child ih =>
    simp only [Evaluates, ih newBv]
    constructor
    · intro ⟨output, executed⟩
      exact ⟨_, by simp only [evaluateFormula, executed]; rfl⟩
    · intro ⟨output, executed⟩
      obtain ⟨result, middle, inner, _⟩ := evaluateFormula_unary executed
      exact ⟨_, inner⟩
  | binary serial kind left right ihLeft ihRight =>
    constructor
    · intro ⟨first, second⟩
      obtain ⟨one, executed⟩ := (ihLeft newBv).mp first
      obtain ⟨two, continued⟩ := (ihRight one.2).mp second
      refine ⟨record (binaryResult oldBv kind serial one.1 two.1) serial two.2, ?_⟩
      simp [evaluateFormula, executed, continued, bind, Except.bind, pure, Except.pure]
    · intro ⟨output, executed⟩
      obtain ⟨r1, first, r2, second, inner, outer, _⟩ := evaluateFormula_binary executed
      exact ⟨(ihLeft newBv).mpr ⟨_, inner⟩, (ihRight first).mpr ⟨_, outer⟩⟩

end Formula

end LtlFuzz.Monitor

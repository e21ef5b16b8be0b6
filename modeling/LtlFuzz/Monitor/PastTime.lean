import LtlFuzz.Monitor.Evaluator

/-! One step of memory is enough for past-time logic. After a step every visited node
that is not a comparison has its truth in the old bits, so the next step can unfold
each temporal operator once. Comparisons leave no bit behind. -/

namespace LtlFuzz.Monitor
open Text (Fault)
open Logic Preprocessor ASTNode

section Recording

variable {index : Int32} {oldBv : BitVector} {state : State}

/-- What evaluating a node leaves in the new bits: the truth of every node below it that
records, nothing for a comparison, and no change anywhere else. -/
structure Records (index : Int32) (oldBv : BitVector) (state : State) (node : ASTNode Nat) (newBv after : BitVector) :
    Prop where
  covered : after.Covered
  size : after.sz = newBv.sz
  bits : ∀ other ∈ node.formulaNodes, ∃ truth, value index oldBv state other = .ok truth ∧
    after.test other.serialNumber = (recorded other && truth)
  frame : ∀ serial, serial ∉ node.serials → after.test serial = newBv.test serial

private theorem test_record {newBv : BitVector} (covered : newBv.Covered) (result : Bool) (serial other : Nat) :
    (record result serial newBv).2.test other =
      (newBv.test other || (decide (other = serial) && result && decide (serial < newBv.sz))) := by
  cases result with
  | false => simp [record]
  | true => simpa [record] using BitVector.test_set covered serial other

private theorem covered_record {newBv : BitVector} (covered : newBv.Covered) (result : Bool) (serial : Nat) :
    (record result serial newBv).2.Covered ∧ (record result serial newBv).2.sz = newBv.sz := by
  cases result with
  | false => exact ⟨covered, rfl⟩
  | true => exact ⟨BitVector.covered_set covered serial, BitVector.sz_set newBv serial⟩

/-- Recording the root itself on top of what its children recorded. -/
private theorem record_root (node : ASTNode Nat) (children : List (ASTNode Nat)) {newBv middle : BitVector} {result : Bool}
    (shape : node.formulaNodes = node :: children) (records : recorded node = true)
    (covered : middle.Covered) (size : middle.sz = newBv.sz)
    (bits : ∀ other ∈ children, ∃ truth, value index oldBv state other = .ok truth ∧
      middle.test other.serialNumber = (recorded other && truth))
    (frame : ∀ serial, serial ∉ children.map serialNumber → middle.test serial = newBv.test serial)
    (distinct : node.serials.Nodup) (inside : node.serialNumber < newBv.sz)
    (blank : newBv.test node.serialNumber = false) (truth : value index oldBv state node = .ok result) :
    Records index oldBv state node newBv (record result node.serialNumber middle).2 := by
  have apart : node.serialNumber ∉ children.map serialNumber := by
    simp only [serials, shape, List.map_cons, List.nodup_cons] at distinct
    exact distinct.1
  obtain ⟨kept, same⟩ := covered_record covered result node.serialNumber
  refine ⟨kept, same.trans size, ?_, ?_⟩
  · intro other member
    rw [shape] at member
    rcases List.mem_cons.mp member with rfl | member
    · refine ⟨result, truth, ?_⟩
      rw [test_record covered, frame _ apart, blank, size]
      simp [inside, records]
    · obtain ⟨known, evaluated, bit⟩ := bits other member
      refine ⟨known, evaluated, ?_⟩
      have different : other.serialNumber ≠ node.serialNumber := by
        intro equal
        exact apart (equal ▸ List.mem_map_of_mem member)
      rw [test_record covered, bit]
      simp [different]
  · intro serial outside
    simp only [serials, shape, List.map_cons, List.mem_cons, not_or] at outside
    rw [test_record covered, frame serial outside.2]
    simp [outside.1]

theorem evaluateFormula_records (node : ASTNode Nat) {newBv after : BitVector} {result : Bool}
    (covered : newBv.Covered) (distinct : node.serials.Nodup) (inside : ∀ serial ∈ node.serials, serial < newBv.sz)
    (blank : ∀ serial ∈ node.serials, newBv.test serial = false)
    (executed : evaluateFormula index oldBv state node newBv = .ok (result, after)) :
    Records index oldBv state node newBv after := by
  have truth := value_of_ok executed
  induction node generalizing newBv after result with
  | int | bool => cases executed
  | predicate serial kind left right =>
    obtain ⟨evaluated, rfl⟩ := evaluateFormula_predicate executed
    refine ⟨covered, rfl, ?_, fun _ _ => rfl⟩
    intro other member
    cases List.mem_singleton.mp member
    exact ⟨result, truth, by simpa [recorded] using blank _ (serial_mem _)⟩
  | id serial name =>
    obtain ⟨_, known, same⟩ := evaluateFormula_id executed
    obtain ⟨rfl, rfl⟩ : result = known ∧ after = (record known serial newBv).2 := by
      simpa [record] using same
    exact record_root _ [] rfl rfl covered rfl (by simp) (fun _ _ => rfl) distinct
      (inside _ (serial_mem _)) (blank _ (serial_mem _)) truth
  | unary serial kind child ih =>
    obtain ⟨known, middle, inner, same⟩ := evaluateFormula_unary executed
    have apart : serial ∉ child.serials ∧ child.serials.Nodup := by
      simpa [serials, formulaNodes, serialNumber] using distinct
    have below : ∀ other ∈ child.serials, other ∈ (ASTNode.unary serial kind child).serials :=
      fun other member => List.mem_cons_of_mem _ member
    have records := ih covered apart.2 (fun other member => inside other (below other member))
      (fun other member => blank other (below other member)) inner (value_of_ok inner)
    obtain ⟨rfl, rfl⟩ := Prod.mk.inj same
    exact record_root (.unary serial kind child) child.formulaNodes rfl rfl records.covered records.size records.bits
      records.frame distinct (inside _ (serial_mem _)) (blank _ (serial_mem _)) truth
  | binary serial kind left right ihLeft ihRight =>
    obtain ⟨r1, first, r2, second, inner, outer, same⟩ := evaluateFormula_binary executed
    have parts : serial ∉ left.serials ++ right.serials ∧ (left.serials ++ right.serials).Nodup := by
      simpa [serials, formulaNodes, serialNumber] using distinct
    obtain ⟨distinctLeft, distinctRight, disjoint⟩ := List.nodup_append.mp parts.2
    have below : ∀ other ∈ left.serials ++ right.serials, other ∈ (ASTNode.binary serial kind left right).serials := by
      intro other member
      simpa [serials, formulaNodes] using Or.inr (List.mem_append.mp member)
    have fromLeft := ihLeft covered distinctLeft
      (fun other member => inside other (below other (List.mem_append_left _ member)))
      (fun other member => blank other (below other (List.mem_append_left _ member))) inner (value_of_ok inner)
    have notLeft : ∀ other ∈ right.serials, other ∉ left.serials :=
      fun other member inLeft => disjoint other inLeft other member rfl
    have fromRight := ihRight fromLeft.covered distinctRight
      (fun other member => by
        rw [fromLeft.size]
        exact inside other (below other (List.mem_append_right _ member)))
      (fun other member => by
        rw [fromLeft.frame other (notLeft other member)]
        exact blank other (below other (List.mem_append_right _ member)))
      outer (value_of_ok outer)
    obtain ⟨rfl, rfl⟩ := Prod.mk.inj same
    refine record_root (.binary serial kind left right) (left.formulaNodes ++ right.formulaNodes)
      rfl rfl fromRight.covered (fromRight.size.trans fromLeft.size) ?_ ?_ distinct
      (inside _ (serial_mem _)) (blank _ (serial_mem _)) truth
    · intro other member
      rcases List.mem_append.mp member with inLeft | inRight
      · obtain ⟨known, evaluated, bit⟩ := fromLeft.bits other inLeft
        have outside : other.serialNumber ∉ right.serials := by
          intro inRight
          exact notLeft _ inRight (List.mem_map_of_mem inLeft)
        exact ⟨known, evaluated, by rw [fromRight.frame _ outside, bit]⟩
      · exact fromRight.bits other inRight
    · intro other outside
      simp only [List.map_append, List.mem_append, not_or] at outside
      rw [fromRight.frame other outside.2, fromLeft.frame other outside.1]

end Recording

namespace Evaluator

/-- Every slot works on its own formula, whatever the other slots hold. -/
theorem evaluateFormulas_slot {index : Int32} {state : State} {formulas : List (ASTNode Nat)}
    {newBv oldBv newAfter oldAfter : List BitVector} {result : List Bool}
    (executed : evaluateFormulas index state formulas newBv oldBv = .ok (result, newAfter, oldAfter))
    (newLength : newBv.length = formulas.length) (oldLength : oldBv.length = formulas.length) :
    result.length = formulas.length ∧ newAfter.length = formulas.length ∧ oldAfter.length = formulas.length ∧
      ∀ (slot : Nat) (formula : ASTNode Nat), formulas[slot]? = some formula →
        ∃ new old res after, newBv[slot]? = some new ∧ oldBv[slot]? = some old ∧
          evaluateFormula index old state formula new = .ok (res, after) ∧ result[slot]? = some res ∧
          newAfter[slot]? = some after.clearBv ∧ oldAfter[slot]? = some after := by
  induction formulas generalizing newBv oldBv newAfter oldAfter result with
  | nil =>
    obtain rfl := List.length_eq_zero_iff.mp newLength
    obtain rfl := List.length_eq_zero_iff.mp oldLength
    cases executed
    simp
  | cons formula formulas ih =>
    obtain ⟨new, newBv, rfl⟩ := List.exists_cons_of_length_eq_add_one newLength
    obtain ⟨old, oldBv, rfl⟩ := List.exists_cons_of_length_eq_add_one oldLength
    obtain ⟨⟨res, after⟩, first, rest⟩ := bind_ok executed
    obtain ⟨⟨others, newRest, oldRest⟩, second, same⟩ := bind_ok rest
    cases same
    obtain ⟨same, newSame, oldSame, slots⟩ := ih second (by simpa using newLength) (by simpa using oldLength)
    refine ⟨by simp [same], by simp [newSame], by simp [oldSame], ?_⟩
    intro slot found inside
    cases slot with
    | zero =>
      cases inside
      exact ⟨new, old, res, after, rfl, rfl, first, rfl, rfl, rfl⟩
    | succ slot => exact slots slot found (by simpa using inside)

theorem evaluateFormulas_completes {state : State} {formulas : List (ASTNode Nat)} (index : Int32)
    (newBv oldBv : List BitVector) (evaluates : ∀ formula ∈ formulas, Evaluates state formula) :
    ∃ output, evaluateFormulas index state formulas newBv oldBv = .ok output := by
  induction formulas generalizing newBv oldBv with
  | nil => exact ⟨_, by unfold evaluateFormulas; rfl⟩
  | cons formula formulas ih =>
    cases newBv with
    | nil => exact ⟨_, by unfold evaluateFormulas; rfl⟩
    | cons new newBv =>
      cases oldBv with
      | nil => exact ⟨_, by unfold evaluateFormulas; rfl⟩
      | cons old oldBv =>
        obtain ⟨first, executed⟩ : ∃ output, evaluateFormula index old state formula new = .ok output :=
          (evaluates_iff formula new).mp (evaluates formula List.mem_cons_self)
        obtain ⟨rest, continued⟩ := ih newBv oldBv fun other member => evaluates other (List.mem_cons_of_mem _ member)
        exact ⟨_, by simp only [evaluateFormulas, executed, continued]; rfl⟩

theorem evaluateOneStep_ok {evaluator next : Evaluator} {state : State} {result : List Bool}
    (executed : evaluator.evaluateOneStep state = .ok (result, next)) :
    evaluateFormulas evaluator.index state evaluator.formulas evaluator.newBv evaluator.oldBv =
        .ok (result, next.newBv, next.oldBv) ∧
      next.formulas = evaluator.formulas ∧ next.serialNumbers = evaluator.serialNumbers ∧
      next.index = evaluator.index + 1 := by
  obtain ⟨⟨found, newBv, oldBv⟩, inner, same⟩ := bind_ok executed
  cases same
  exact ⟨inner, rfl, rfl, rfl⟩

theorem evaluateOneStep_completes {evaluator : Evaluator} {state : State}
    (evaluates : ∀ formula ∈ evaluator.formulas, Evaluates state formula) :
    ∃ result next, evaluator.evaluateOneStep state = .ok (result, next) := by
  obtain ⟨⟨result, newBv, oldBv⟩, executed⟩ :=
    evaluateFormulas_completes evaluator.index evaluator.newBv evaluator.oldBv evaluates
  exact ⟨result, _, by simp only [evaluateOneStep, executed]; rfl⟩

/-- Between two steps: one blank bit vector a slot, large enough for its formula. -/
structure Ready (asts : List (ASTNode Unit)) (evaluator : Evaluator) : Prop where
  formulas : evaluator.formulas = asts.map fun ast => (preProcess ast 0).1
  newLength : evaluator.newBv.length = evaluator.formulas.length
  oldLength : evaluator.oldBv.length = evaluator.formulas.length
  blank : ∀ (slot : Nat) (ast : ASTNode Unit) (new : BitVector), asts[slot]? = some ast → evaluator.newBv[slot]? = some new →
    new.Covered ∧ new.sz = (preProcess ast 0).2 ∧ ∀ serial, new.test serial = false

theorem new_ready {asts : List (ASTNode Unit)} {nodes : List (ASTNode Nat)} {snums : List Nat}
    (numbered : doPreProcess asts = some (nodes, snums)) : Ready asts (new nodes snums) := by
  obtain ⟨rfl, rfl, bounded⟩ := doPreProcess_some numbered
  refine ⟨rfl, by simp [new, blankBitVectors], by simp [new, blankBitVectors], ?_⟩
  intro slot ast vector found inside
  simp only [new, blankBitVectors, List.map_map, List.getElem?_map, found, Option.map_some, Option.some.injEq] at inside
  subst vector
  have small : (preProcess ast 0).2 + 31 < 2 ^ 32 := by
    have limit := bounded _ (List.mem_map_of_mem (List.mem_of_getElem? found))
    unfold intMax at limit
    omega
  exact ⟨BitVector.covered_clearBv (BitVector.covered_new small), rfl, BitVector.test_clearBv _⟩

theorem evaluateOneStep_length {asts : List (ASTNode Unit)} {evaluator next : Evaluator} {state : State}
    {result : List Bool} (ready : Ready asts evaluator) (executed : evaluator.evaluateOneStep state = .ok (result, next)) :
    result.length = evaluator.formulas.length := by
  obtain ⟨inner, _⟩ := evaluateOneStep_ok executed
  exact (evaluateFormulas_slot inner ready.newLength ready.oldLength).1

/-- One step, seen from one slot. -/
theorem ready_step {asts : List (ASTNode Unit)} {evaluator next : Evaluator} {state : State} {result : List Bool}
    (ready : Ready asts evaluator) (executed : evaluator.evaluateOneStep state = .ok (result, next)) :
    Ready asts next ∧ next.index = evaluator.index + 1 ∧
      ∀ (slot : Nat) (ast : ASTNode Unit), asts[slot]? = some ast →
        ∃ old after res, evaluator.oldBv[slot]? = some old ∧ next.oldBv[slot]? = some after ∧
          result[slot]? = some res ∧ value evaluator.index old state (preProcess ast 0).1 = .ok res ∧
          ∀ other ∈ (preProcess ast 0).1.formulaNodes, ∃ truth, value evaluator.index old state other = .ok truth ∧
            after.test other.serialNumber = (recorded other && truth) := by
  obtain ⟨inner, sameFormulas, sameNumbers, sameIndex⟩ := evaluateOneStep_ok executed
  obtain ⟨_, newSame, oldSame, slots⟩ := evaluateFormulas_slot inner ready.newLength ready.oldLength
  have perSlot : ∀ (slot : Nat) (ast : ASTNode Unit), asts[slot]? = some ast →
      ∃ old after res, evaluator.oldBv[slot]? = some old ∧ next.oldBv[slot]? = some after ∧
        next.newBv[slot]? = some after.clearBv ∧ result[slot]? = some res ∧
        value evaluator.index old state (preProcess ast 0).1 = .ok res ∧ after.Covered ∧
        after.sz = (preProcess ast 0).2 ∧
        ∀ other ∈ (preProcess ast 0).1.formulaNodes, ∃ truth, value evaluator.index old state other = .ok truth ∧
          after.test other.serialNumber = (recorded other && truth) := by
    intro slot ast found
    have member : evaluator.formulas[slot]? = some (preProcess ast 0).1 := by simp [ready.formulas, found]
    obtain ⟨new, old, res, after, foundNew, foundOld, step, verdict, newAfter, oldAfter⟩ := slots slot _ member
    obtain ⟨covered, size, blank⟩ := ready.blank slot ast new found foundNew
    obtain ⟨range, distinct⟩ := preProcess_serials ast 0
    have records := evaluateFormula_records _ covered distinct
      (fun serial inside => by rw [size]; exact (range serial inside).2) (fun serial _ => blank serial) step
    exact ⟨old, after, res, foundOld, oldAfter, newAfter, verdict, value_of_ok step, records.covered,
      records.size.trans size, records.bits⟩
  refine ⟨⟨sameFormulas.trans ready.formulas, by rw [newSame, sameFormulas], by rw [oldSame, sameFormulas], ?_⟩,
    sameIndex, ?_⟩
  · intro slot ast new found inside
    obtain ⟨old, after, res, _, _, newAfter, _, _, covered, size, _⟩ := perSlot slot ast found
    cases newAfter.symm.trans inside
    exact ⟨BitVector.covered_clearBv covered, size, BitVector.test_clearBv _⟩
  · intro slot ast found
    obtain ⟨old, after, res, foundOld, oldAfter, _, verdict, truth, _, _, bits⟩ := perSlot slot ast found
    exact ⟨old, after, res, foundOld, oldAfter, verdict, truth, bits⟩

private theorem ready_advance {asts : List (ASTNode Unit)} {evaluator next : Evaluator} {state : State}
    (ready : evaluator.Ready asts) (executed : evaluator.advance state = .ok next) : next.Ready asts := by
  obtain ⟨verdicts, stepped⟩ := advance_ok executed
  exact (ready_step ready stepped).1

/-- Before every step of a session the evaluator is ready. -/
theorem ready_steps {asts : List (ASTNode Unit)} {start evaluator : Evaluator} {states : List State}
    (ready : start.Ready asts) (executed : start.steps states = .ok evaluator) : evaluator.Ready asts :=
  run_invariant (Ready asts) (fun _ _ _ ready advanced => ready_advance ready advanced) ready executed

end Evaluator

/-- What the step index, a machine word, is taken for. -/
theorem index_eq_zero_iff (k : Nat) : Int32.ofNat k = 0 ↔ k % 2 ^ 32 = 0 := by
  constructor
  · intro zero
    have empty := congrArg (fun word : Int32 => word.toBitVec.toNat) zero
    simpa using empty
  · intro zero
    apply Int32.toBitVec_inj.mp
    apply BitVec.eq_of_toNat_eq
    simpa using zero

/-- What the evaluator computes for a node at a position, read off the trace alone. This is the
past-time meaning but for two things: `Y` of a comparison is false, and `Y` and `H` take every
position at which the step index is 0 again for the first one. -/
def ASTNode.Says (states : List State) : ASTNode Nat → Nat → Prop
  | .unary _ .not child, k => ¬ child.Says states k
  | .unary _ .h child, k => ∀ j, k - k % 2 ^ 32 ≤ j → j ≤ k → child.Says states j
  | .unary _ .o child, k => ∃ j ≤ k, child.Says states j
  | .unary _ .y child, k => k % 2 ^ 32 ≠ 0 ∧ recorded child = true ∧ child.Says states (k - 1)
  | .binary _ .and left right, k => left.Says states k ∧ right.Says states k
  | .binary _ .or left right, k => left.Says states k ∨ right.Says states k
  | .binary _ .arrow left right, k => left.Says states k → right.Says states k
  | .binary _ .s left right, k => ∃ j ≤ k, right.Says states j ∧ ∀ i, j < i → i ≤ k → left.Says states i
  | .id _ name, k => ∃ state, states[k]? = some state ∧ state.getLabel name = .ok "true"
  | .predicate serial kind left right, k =>
    ∃ state, states[k]? = some state ∧ evaluatePredicate state (.predicate serial kind left right) = .ok true
  | .int _ _, _ | .bool _ _, _ => False

section Semantics

/-- Which comparisons are true at which position of a trace. -/
def valuation (states : List State) (k : Nat) (predicates : Grammar.Predicates) : Prop :=
  ∃ state, states[k]? = some state ∧ evaluatePredicate state predicates.node = .ok true

private theorem intOperand_preProcess (state : State) (ast : ASTNode Unit) (snum : Nat) :
    intOperand state (preProcess ast snum).1 = intOperand state ast := by
  cases ast <;> rfl

private theorem stringOperand_preProcess (state : State) (ast : ASTNode Unit) (snum : Nat) :
    stringOperand state (preProcess ast snum).1 = stringOperand state ast := by
  cases ast <;> rfl

/-- Numbering does not change what a comparison says. -/
theorem evaluatePredicate_preProcess (state : State) (ast : ASTNode Unit) (snum : Nat) :
    evaluatePredicate state (preProcess ast snum).1 = evaluatePredicate state ast := by
  cases ast with
  | predicate _ kind left right =>
    cases kind <;>
      simp only [preProcess, evaluatePredicate, intOperand_preProcess, stringOperand_preProcess]
  | id | int | bool | unary | binary => rfl

theorem value_atom (index : Int32) (oldBv : BitVector) (state : State) (predicates : Grammar.Predicates) (snum : Nat) :
    value index oldBv state (preProcess predicates.node snum).1 = evaluatePredicate state predicates.node := by
  rw [← evaluatePredicate_preProcess state predicates.node snum]
  exact value_predicate _ _ _ _

theorem says_comparison (states : List State) (k : Nat) (predicates : Grammar.Predicates) (snum : Nat) :
    (preProcess predicates.node snum).1.Says states k ↔ valuation states k predicates := by
  simp only [valuation, ← fun state => evaluatePredicate_preProcess state predicates.node snum]
  rfl

theorem evaluates_pastNode {state : State} (f : PastLTL Grammar.Predicates) (snum : Nat)
    (defined : ∀ predicates ∈ f.atoms, ∃ result, evaluatePredicate state predicates.node = .ok result) :
    Evaluates state (preProcess (pastNode f) snum).1 := by
  induction f generalizing snum with
  | atom predicates =>
    obtain ⟨result, evaluated⟩ := defined predicates (List.mem_singleton.mpr rfl)
    exact ⟨result, (evaluatePredicate_preProcess state predicates.node snum).trans evaluated⟩
  | not f ih | historically f ih | once f ih | yesterday f ih => exact ih (snum + 1) defined
  | and f g ihF ihG | or f g ihF ihG | arrow f g ihF ihG | since f g ihF ihG =>
    exact ⟨ihF _ fun predicates member => defined predicates (List.mem_append_left _ member),
      ihG _ fun predicates member => defined predicates (List.mem_append_right _ member)⟩

/-- Before the first step the old bits are blank. Later they hold what every recorded node said
at the previous position. -/
structure Remembers (states : List State) (root : ASTNode Nat) (oldBv : BitVector) (k : Nat) : Prop where
  blank : k = 0 → ∀ serial, oldBv.test serial = false
  previous : ∀ node ∈ root.formulaNodes, ∀ before, k = before + 1 →
    (oldBv.test node.serialNumber = true ↔ recorded node = true ∧ node.Says states before)

variable {states : List State} {root : ASTNode Nat} {oldBv : BitVector} {k : Nat} {state : State}

private theorem unary_says {kind : UnaryKind} {serial : Nat} {child : ASTNode Nat} {meaning : Prop}
    (inner : ∃ truth, value (Int32.ofNat k) oldBv state child = .ok truth ∧ (truth = true ↔ child.Says states k))
    (agrees : ∀ truth, (truth = true ↔ child.Says states k) →
      (unaryResult (Int32.ofNat k) oldBv kind serial child.serialNumber truth = true ↔ meaning)) :
    ∃ truth, value (Int32.ofNat k) oldBv state (.unary serial kind child) = .ok truth ∧ (truth = true ↔ meaning) := by
  obtain ⟨truth, evaluated, same⟩ := inner
  exact ⟨_, value_unary evaluated, agrees truth same⟩

private theorem binary_says {kind : BinaryKind} {serial : Nat} {left right : ASTNode Nat} {meaning : Prop}
    (first : ∃ truth, value (Int32.ofNat k) oldBv state left = .ok truth ∧ (truth = true ↔ left.Says states k))
    (second : ∃ truth, value (Int32.ofNat k) oldBv state right = .ok truth ∧ (truth = true ↔ right.Says states k))
    (agrees : ∀ one two, (one = true ↔ left.Says states k) → (two = true ↔ right.Says states k) →
      (binaryResult oldBv kind serial one two = true ↔ meaning)) :
    ∃ truth, value (Int32.ofNat k) oldBv state (.binary serial kind left right) = .ok truth ∧ (truth = true ↔ meaning) := by
  obtain ⟨one, evaluatedLeft, sameLeft⟩ := first
  obtain ⟨two, evaluatedRight, sameRight⟩ := second
  exact ⟨_, value_binary evaluatedLeft evaluatedRight, agrees one two sameLeft sameRight⟩

/-- `H` starts afresh where the step index is 0, and looks back one step elsewhere. -/
theorem says_h_succ (serial : Nat) (child : ASTNode Nat) :
    (ASTNode.unary serial .h child).Says states (k + 1) ↔ child.Says states (k + 1) ∧
      ((k + 1) % 2 ^ 32 ≠ 0 → (ASTNode.unary serial .h child).Says states k) := by
  simp only [ASTNode.Says]
  by_cases again : (k + 1) % 2 ^ 32 = 0
  · rw [again, Nat.sub_zero, historically_here]
    simp only [ne_eq, not_true_eq_false, false_implies, and_true]
  · have started : k + 1 - (k + 1) % 2 ^ 32 = k - k % 2 ^ 32 := by omega
    rw [started, historically_succ (by omega)]
    simp only [ne_eq, again, not_false_eq_true, forall_const]

/-- If the old bits remember the previous position, the value at the current one is what the
node says there. -/
theorem value_says (here : states[k]? = some state) (memory : Remembers states root oldBv k)
    (total : ∀ other ∈ root.formulaNodes, ∃ truth, value (Int32.ofNat k) oldBv state other = .ok truth)
    (node : ASTNode Nat) (inside : node ∈ root.formulaNodes) :
    ∃ truth, value (Int32.ofNat k) oldBv state node = .ok truth ∧ (truth = true ↔ node.Says states k) := by
  induction node with
  | int | bool => obtain ⟨truth, evaluated⟩ := total _ inside; cases evaluated
  | predicate serial kind left right =>
    obtain ⟨truth, evaluated⟩ := total _ inside
    refine ⟨truth, evaluated, ?_⟩
    have same := (value_predicate serial kind left right).symm.trans evaluated
    simp [ASTNode.Says, here, same]
  | id serial name =>
    obtain ⟨truth, evaluated⟩ := total _ inside
    refine ⟨truth, evaluated, ?_⟩
    have same := value_id evaluated
    cases truth <;> simp [ASTNode.Says, here, same]
  | unary serial kind child ih =>
    apply unary_says (ih (unary_child_mem inside))
    intro truth now
    cases kind with
    | not => simp [unaryResult, ASTNode.Says, ← now]
    | o =>
      cases k with
      | zero => simp only [ASTNode.Says, once_zero, ← now]; simp [unaryResult, memory.blank rfl]
      | succ before =>
        have last := memory.previous _ inside before rfl
        simp only [recorded, true_and, ASTNode.serialNumber] at last
        simp only [ASTNode.Says, once_succ, ← now]
        simp [unaryResult, last, ASTNode.Says]
    | h =>
      simp only [unaryResult, index_eq_zero_iff]
      cases k with
      | zero => simp only [ASTNode.Says, Nat.zero_mod, Nat.sub_zero, historically_here, ← now]; simp
      | succ before =>
        have last := memory.previous _ inside before rfl
        simp only [recorded, true_and, ASTNode.serialNumber] at last
        rw [says_h_succ, ← now, ← last, Bool.and_eq_true]
        by_cases again : (before + 1) % 2 ^ 32 = 0
        · simp only [again, ne_eq, not_true_eq_false, false_implies, if_true]
        · simp only [again, ne_eq, not_false_eq_true, forall_const, if_false]
    | y =>
      simp only [unaryResult, index_eq_zero_iff]
      cases k with
      | zero => simp [ASTNode.Says]
      | succ before =>
        have last := memory.previous child (unary_child_mem inside) before rfl
        rw [ASTNode.Says, Nat.add_sub_cancel, ← last]
        by_cases again : (before + 1) % 2 ^ 32 = 0
        · simp only [again, ne_eq, not_true_eq_false, false_and, if_true, Bool.false_eq_true]
        · simp only [again, ne_eq, not_false_eq_true, true_and, if_false]
  | binary serial kind left right ihLeft ihRight =>
    apply binary_says (ihLeft (binary_left_mem inside)) (ihRight (binary_right_mem inside))
    intro one two nowLeft nowRight
    cases kind with
    | and => simp [binaryResult, ASTNode.Says, nowLeft, nowRight]
    | or => simp [binaryResult, ASTNode.Says, nowLeft, nowRight]
    | arrow =>
      rw [ASTNode.Says, ← nowLeft, ← nowRight]
      cases one <;> simp [binaryResult]
    | s =>
      cases k with
      | zero => simp only [ASTNode.Says, since_zero, ← nowRight]; simp [binaryResult, memory.blank rfl]
      | succ before =>
        have last := memory.previous _ inside before rfl
        simp only [recorded, true_and, ASTNode.serialNumber] at last
        simp only [ASTNode.Says, since_succ, ← nowLeft, ← nowRight]
        simp [binaryResult, last, ASTNode.Says]

/-- The evaluator stands before position `k` of the trace. -/
structure Tracks (asts : List (ASTNode Unit)) (states : List State) (k : Nat) (evaluator : Evaluator) : Prop where
  ready : evaluator.Ready asts
  index : evaluator.index = Int32.ofNat k
  memory : ∀ (slot : Nat) (ast : ASTNode Unit) (old : BitVector), asts[slot]? = some ast →
    evaluator.oldBv[slot]? = some old → Remembers states (preProcess ast 0).1 old k

variable {asts : List (ASTNode Unit)}

theorem new_tracks {nodes : List (ASTNode Nat)} {snums : List Nat} (numbered : doPreProcess asts = some (nodes, snums))
    (states : List State) : Tracks asts states 0 (Evaluator.new nodes snums) := by
  refine ⟨Evaluator.new_ready numbered, rfl, ?_⟩
  intro slot ast old found inside
  refine ⟨fun _ serial => ?_, fun _ _ _ impossible => absurd impossible (by simp)⟩
  obtain ⟨snum, _, rfl⟩ := List.mem_map.mp (List.mem_of_getElem? inside)
  exact BitVector.test_clearBv _ serial

/-- One step: every node has a value, which is what the node says, and the formulas' values are
the verdicts. -/
theorem tracks_step {evaluator next : Evaluator} {verdicts : List Bool} (tracks : Tracks asts states k evaluator)
    (here : states[k]? = some state) (executed : evaluator.evaluateOneStep state = .ok (verdicts, next)) :
    Tracks asts states (k + 1) next ∧ ∀ (slot : Nat) (ast : ASTNode Unit), asts[slot]? = some ast →
      ∃ old, evaluator.oldBv[slot]? = some old ∧
        (∀ node ∈ (preProcess ast 0).1.formulaNodes, ∃ truth, value evaluator.index old state node = .ok truth ∧
          (truth = true ↔ node.Says states k)) ∧
        ∃ verdict, verdicts[slot]? = some verdict ∧ (verdict = true ↔ (preProcess ast 0).1.Says states k) := by
  obtain ⟨ready, index, slots⟩ := Evaluator.ready_step tracks.ready executed
  have spoken : ∀ (slot : Nat) (ast : ASTNode Unit) (old : BitVector), asts[slot]? = some ast →
      evaluator.oldBv[slot]? = some old → ∀ node ∈ (preProcess ast 0).1.formulaNodes,
        ∃ truth, value evaluator.index old state node = .ok truth ∧ (truth = true ↔ node.Says states k) := by
    intro slot ast old found foundOld
    obtain ⟨again, _, _, foundAgain, _, _, _, bits⟩ := slots slot ast found
    cases foundOld.symm.trans foundAgain
    rw [tracks.index] at bits ⊢
    exact value_says here (tracks.memory slot ast old found foundOld)
      fun other inside => (bits other inside).imp fun _ both => both.1
  refine ⟨⟨ready, by rw [index, tracks.index, Int32.ofNat_add]; rfl, ?_⟩, ?_⟩
  · intro slot ast after found inside
    obtain ⟨old, recordedBv, _, foundOld, foundAfter, _, _, bits⟩ := slots slot ast found
    cases foundAfter.symm.trans inside
    refine ⟨fun impossible => absurd impossible (by simp), ?_⟩
    intro node member before same
    obtain rfl : k = before := Nat.succ.inj same
    obtain ⟨truth, evaluated, bit⟩ := bits node member
    obtain ⟨known, again, agrees⟩ := spoken slot ast old found foundOld node member
    cases evaluated.symm.trans again
    rw [bit, ← agrees]
    simp
  · intro slot ast found
    obtain ⟨old, _, res, foundOld, _, verdict, evaluated, _⟩ := slots slot ast found
    have said := spoken slot ast old found foundOld
    obtain ⟨known, again, agrees⟩ := said _ (mem_formulaNodes_self _)
    cases evaluated.symm.trans again
    exact ⟨old, foundOld, said, res, verdict, agrees⟩

theorem tracks_steps {start evaluator : Evaluator} (tracks : Tracks asts states 0 start) (bound : k ≤ states.length)
    (executed : start.steps (states.take k) = .ok evaluator) : Tracks asts states k evaluator := by
  induction k generalizing evaluator with
  | zero => cases executed; exact tracks
  | succ k ih =>
    have here : states[k]? = some states[k] := List.getElem?_eq_getElem bound
    rw [List.take_add_one, here, Option.toList_some] at executed
    obtain ⟨middle, before, last⟩ := run_prefix executed
    obtain ⟨next, advanced, same⟩ := run_cons_ok last
    cases same
    obtain ⟨verdicts, stepped⟩ := Evaluator.advance_ok advanced
    exact (tracks_step (ih (Nat.le_of_succ_le bound) before) here stepped).1

/-- A trace on which every comparison has a truth value is evaluated to its end. -/
theorem steps_complete {fs : List (PastLTL Grammar.Predicates)} {start : Evaluator}
    (ready : start.Ready (fs.map pastNode))
    (defined : ∀ state ∈ states, ∀ f ∈ fs, ∀ predicates ∈ f.atoms,
      ∃ result, evaluatePredicate state predicates.node = .ok result) :
    ∃ evaluator, start.steps states = .ok evaluator := by
  have progress : ∀ (evaluator : Evaluator) (state : State), evaluator.Ready (fs.map pastNode) →
      (∀ f ∈ fs, ∀ predicates ∈ f.atoms, ∃ result, evaluatePredicate state predicates.node = .ok result) →
      ∃ next, evaluator.advance state = .ok next ∧ next.Ready (fs.map pastNode) := by
    intro evaluator state ready defined
    have evaluates : ∀ formula ∈ evaluator.formulas, Evaluates state formula := by
      intro formula member
      rw [ready.formulas, List.map_map] at member
      obtain ⟨f, known, rfl⟩ := List.mem_map.mp member
      exact evaluates_pastNode f 0 (defined f known)
    obtain ⟨verdicts, next, stepped⟩ := Evaluator.evaluateOneStep_completes evaluates
    exact ⟨next, by simp [Evaluator.advance, stepped, Except.map], (Evaluator.ready_step ready stepped).1⟩
  obtain ⟨evaluator, executed, _⟩ := run_completes _ _ progress ready defined
  exact ⟨evaluator, executed⟩

private theorem recorded_pastNode {f : PastLTL Grammar.Predicates} (composite : ¬ f.IsAtom) (snum : Nat) :
    recorded (preProcess (pastNode f) snum).1 = true := by
  cases f with
  | atom predicates => exact absurd trivial composite
  | not | and | or | arrow | historically | once | since | yesterday => rfl

/-- Until the step index comes back to 0 the nodes say what past-time logic means. -/
theorem says_pastNode (f : PastLTL Grammar.Predicates) (snum : Nat) (guarded : f.Guarded) (few : k < 2 ^ 32) :
    (preProcess (pastNode f) snum).1.Says states k ↔ f.Holds (valuation states) k := by
  induction f generalizing snum k with
  | atom predicates => exact says_comparison states k predicates snum
  | not f ih => exact not_congr (ih _ guarded few)
  | historically f ih =>
    have whole : k - k % 2 ^ 32 = 0 := by omega
    simp only [pastNode, preProcess, ASTNode.Says, PastLTL.Holds, whole, Nat.zero_le, true_implies]
    exact forall₂_congr fun j before => ih _ guarded (Nat.lt_of_le_of_lt before few)
  | once f ih =>
    exact exists_congr fun j => and_congr_right fun before => ih _ guarded (Nat.lt_of_le_of_lt before few)
  | yesterday f ih =>
    simp only [pastNode, preProcess, ASTNode.Says, recorded_pastNode guarded.1, true_and]
    cases k with
    | zero => simp [PastLTL.Holds]
    | succ before =>
      rw [Nat.add_sub_cancel, ih _ guarded.2 (by omega)]
      have inside : (before + 1) % 2 ^ 32 ≠ 0 := by omega
      simp only [ne_eq, inside, not_false_eq_true, true_and, PastLTL.Holds, Nat.add_right_cancel_iff, exists_eq_left']
  | and f g ihF ihG => exact and_congr (ihF _ guarded.1 few) (ihG _ guarded.2 few)
  | or f g ihF ihG => exact or_congr (ihF _ guarded.1 few) (ihG _ guarded.2 few)
  | arrow f g ihF ihG => exact imp_congr (ihF _ guarded.1 few) (ihG _ guarded.2 few)
  | since f g ihF ihG =>
    refine exists_congr fun j => and_congr_right fun before => ?_
    exact and_congr (ihG _ guarded.2 (Nat.lt_of_le_of_lt before few))
      (forall₃_congr fun i _ bound => ihF _ guarded.1 (Nat.lt_of_le_of_lt bound few))

/-- How a monitor starts a session: on a new evaluator, or on one that was reset. -/
def Evaluator.Starts (nodes : List (ASTNode Nat)) (snums : List Nat) (start : Evaluator) : Prop :=
  start = Evaluator.new nodes snums ∨
    ∃ prior : Evaluator, prior.formulas = nodes ∧ prior.serialNumbers = snums ∧ start = prior.resetEvaluator

theorem Evaluator.starts_eq {nodes : List (ASTNode Nat)} {snums : List Nat} {start : Evaluator}
    (starts : Evaluator.Starts nodes snums start) : start = Evaluator.new nodes snums := by
  rcases starts with rfl | ⟨prior, rfl, rfl, rfl⟩
  · rfl
  · rfl

/-- The verdicts of every step are what the formulas say there. -/
theorem evaluateOneStep_says {fs : List (PastLTL Grammar.Predicates)} {nodes : List (ASTNode Nat)} {snums : List Nat}
    {start : Evaluator} (numbered : doPreProcess (fs.map pastNode) = some (nodes, snums))
    (starts : Evaluator.Starts nodes snums start)
    (defined : ∀ state ∈ states, ∀ f ∈ fs, ∀ predicates ∈ f.atoms,
      ∃ result, evaluatePredicate state predicates.node = .ok result)
    (here : states[k]? = some state) :
    ∃ evaluator verdicts next, start.steps (states.take k) = .ok evaluator ∧
      evaluator.evaluateOneStep state = .ok (verdicts, next) ∧ verdicts.length = fs.length ∧
      ∀ (i : Nat) (f : PastLTL Grammar.Predicates), fs[i]? = some f →
        ∃ verdict, verdicts[i]? = some verdict ∧ (verdict = true ↔ (preProcess (pastNode f) 0).1.Says states k) := by
  rw [Evaluator.starts_eq starts]
  have bound : k ≤ states.length := Nat.le_of_lt (List.getElem?_eq_some_iff.mp here).1
  obtain ⟨final, completed⟩ := steps_complete (Evaluator.new_ready numbered) defined
  obtain ⟨evaluator, next, executed, advanced, _⟩ := run_at completed here
  obtain ⟨verdicts, stepped⟩ := Evaluator.advance_ok advanced
  have tracks := tracks_steps (new_tracks numbered states) bound executed
  refine ⟨evaluator, verdicts, next, executed, stepped, ?_, ?_⟩
  · rw [Evaluator.evaluateOneStep_length tracks.ready stepped, tracks.ready.formulas]
    simp
  · intro i f found
    obtain ⟨_, _, _, said⟩ := (tracks_step tracks here stepped).2 i (pastNode f) (by simp [found])
    exact said

/-- The verdicts are the past-time meaning of the formulas, as long as the step index, an `int`,
does not come back to 0. -/
theorem evaluateOneStep_decides_past_time_formulas (fs : List (PastLTL Grammar.Predicates)) (nodes : List (ASTNode Nat))
    (snums : List Nat) (start : Evaluator) (states : List State)
    (guarded : ∀ f ∈ fs, f.Guarded) (numbered : doPreProcess (fs.map pastNode) = some (nodes, snums))
    (starts : Evaluator.Starts nodes snums start)
    (defined : ∀ state ∈ states, ∀ f ∈ fs, ∀ predicates ∈ f.atoms,
      ∃ result, evaluatePredicate state predicates.node = .ok result)
    (k : Nat) (state : State) (here : states[k]? = some state) (few : k < 2 ^ 32) :
    ∃ evaluator verdicts next, start.steps (states.take k) = .ok evaluator ∧
      evaluator.evaluateOneStep state = .ok (verdicts, next) ∧ verdicts.length = fs.length ∧
      ∀ (i : Nat) (f : PastLTL Grammar.Predicates), fs[i]? = some f →
        ∃ verdict, verdicts[i]? = some verdict ∧ (verdict = true ↔ f.Holds (valuation states) k) := by
  obtain ⟨evaluator, verdicts, next, executed, stepped, same, said⟩ := evaluateOneStep_says numbered starts defined here
  refine ⟨evaluator, verdicts, next, executed, stepped, same, ?_⟩
  intro i f found
  obtain ⟨verdict, there, agrees⟩ := said i f found
  exact ⟨verdict, there, agrees.trans (says_pastNode f 0 (guarded f (List.mem_of_getElem? found)) few)⟩

/-- The checker of a specification that declares `bool x` and nothing else. -/
def flagChecker : TypeChecker :=
  ⟨((AList.singleton "x" Ty.bool).insert "true" .bool).insert "false" .bool, []⟩

def flagState (label : String) : State where
  tchecker := flagChecker
  labelingFunction := AList.singleton "x" label
  constants := by simp [flagChecker]

def flagSet : Grammar.Predicates := ⟨⟨"x", by decide⟩, .eq, .true⟩

def flagNode (serial : Nat) : ASTNode Nat := (preProcess flagSet.node serial).1

theorem evaluateOneStep_decides_yesterday_not :
    (PastLTL.yesterday (.not (.atom flagSet))).Guarded ∧
      doPreProcess [pastNode (.yesterday (.not (.atom flagSet)))] = some ([.unary 0 .y (.unary 1 .not (flagNode 2))], [5]) ∧
      ∃ evaluator verdicts next,
        (Evaluator.new [.unary 0 .y (.unary 1 .not (flagNode 2))] [5]).steps [flagState "false"] = .ok evaluator ∧
          evaluator.evaluateOneStep (flagState "true") = .ok (verdicts, next) ∧ verdicts.length = 1 ∧
          ∀ (i : Nat) (f : PastLTL Grammar.Predicates), [PastLTL.yesterday (.not (.atom flagSet))][i]? = some f →
            ∃ verdict, verdicts[i]? = some verdict ∧
              (verdict = true ↔ f.Holds (valuation [flagState "false", flagState "true"]) 1) := by
  have guarded : (PastLTL.yesterday (.not (.atom flagSet))).Guarded := ⟨id, trivial⟩
  refine ⟨guarded, by decide, ?_⟩
  refine evaluateOneStep_decides_past_time_formulas [.yesterday (.not (.atom flagSet))] _ _ _
    [flagState "false", flagState "true"] (by simpa using guarded) (by decide) (Or.inl rfl) ?_ 1 _ rfl (by decide)
  intro state member f known predicates inside
  simp only [List.mem_cons, List.not_mem_nil, or_false] at member known
  subst known
  cases List.mem_singleton.mp inside
  rcases member with rfl | rfl
  · exact ⟨false, by decide⟩
  · exact ⟨true, by decide⟩

/-- `Y (!(x = true))` at the state after 2^32 others, with `x` false in all of them: the step index
is 0 again, so `Y` takes this state for the first. -/
theorem evaluateOneStep_starts_afresh :
    doPreProcess [pastNode (.yesterday (.not (.atom flagSet)))] = some ([.unary 0 .y (.unary 1 .not (flagNode 2))], [5]) ∧
    ¬ ∃ evaluator verdicts next,
      (Evaluator.new [.unary 0 .y (.unary 1 .not (flagNode 2))] [5]).steps
          ((List.replicate (2 ^ 32 + 1) (flagState "false")).take (2 ^ 32)) = .ok evaluator ∧
        evaluator.evaluateOneStep (flagState "false") = .ok (verdicts, next) ∧ verdicts.length = 1 ∧
        ∀ (i : Nat) (f : PastLTL Grammar.Predicates), [PastLTL.yesterday (.not (.atom flagSet))][i]? = some f →
          ∃ verdict, verdicts[i]? = some verdict ∧
            (verdict = true ↔ f.Holds (valuation (List.replicate (2 ^ 32 + 1) (flagState "false"))) (2 ^ 32)) := by
  have numbered : doPreProcess ([PastLTL.yesterday (.not (.atom flagSet))].map pastNode) =
      some ([.unary 0 .y (.unary 1 .not (flagNode 2))], [5]) := by decide
  refine ⟨numbered, ?_⟩
  rintro ⟨evaluator, verdicts, next, reached, stepped, _, decided⟩
  have last : (List.replicate (2 ^ 32 + 1) (flagState "false"))[2 ^ 32]? = some (flagState "false") := by
    rw [List.getElem?_replicate, if_pos (Nat.lt_succ_self _)]
  have defined : ∀ state ∈ List.replicate (2 ^ 32 + 1) (flagState "false"),
      ∀ f ∈ [PastLTL.yesterday (.not (.atom flagSet))], ∀ predicates ∈ f.atoms,
        ∃ result, evaluatePredicate state predicates.node = .ok result := by
    intro state member f known predicates inside
    cases List.eq_of_mem_replicate member
    cases List.mem_singleton.mp known
    cases List.mem_singleton.mp inside
    exact ⟨false, by decide⟩
  obtain ⟨evaluator', verdicts', next', reached', stepped', _, said⟩ :=
    evaluateOneStep_says numbered (Or.inl rfl) defined last
  cases reached.symm.trans reached'
  cases stepped.symm.trans stepped'
  obtain ⟨verdict, found, meaning⟩ := decided 0 _ rfl
  obtain ⟨again, foundAgain, spoken⟩ := said 0 _ rfl
  cases found.symm.trans foundAgain
  have silent : ¬ verdict = true := fun claimed => (spoken.mp claimed).1 (by decide)
  refine silent (meaning.mpr ⟨2 ^ 32 - 1, by decide, ?_⟩)
  rintro ⟨state, there, holds⟩
  cases List.eq_of_mem_replicate (List.mem_of_getElem? there)
  exact absurd holds (by decide)

end Semantics

end LtlFuzz.Monitor

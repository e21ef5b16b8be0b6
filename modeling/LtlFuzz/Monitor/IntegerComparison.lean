import LtlFuzz.Monitor.Soundness

/-! Comparisons of integers. An ordering converts the labels to numbers and an equality
compares their text, so the two agree exactly where a number has one spelling. -/

namespace LtlFuzz.Monitor
open Text (Fault FitsInt numeralValue)

variable {σ : Type}

/-- The text `=` compares: the label of a variable, the digits of a literal. -/
def spelling (state : State) : ASTNode σ → Option String
  | .int _ value => some (toString value)
  | .id _ name => state.labelingFunction.lookup name
  | _ => none

/-- The integer a term stands for. -/
def integer (state : State) : ASTNode σ → Option Int
  | .int _ value => some value
  | .id _ name => (state.labelingFunction.lookup name).map fun label => numeralValue label.toList
  | _ => none

/-- What the comparison of two terms evaluates to. -/
def comparison (state : State) (serial : σ) (left right : ASTNode σ) (kind : PredicateKind) : Except Fault Bool :=
  evaluatePredicate state (.predicate serial kind left right)

/-- The comparisons of two terms behave like those of two integers. -/
structure Coherent (state : State) (serial : σ) (left right : ASTNode σ) : Prop where
  trichotomy : ∃! kind, kind ∈ [PredicateKind.lt, .eq, .gt] ∧ comparison state serial left right kind = .ok true
  atMost : ∃ less equal, comparison state serial left right .lt = .ok less ∧
    comparison state serial left right .eq = .ok equal ∧ comparison state serial left right .lte = .ok (less || equal)
  equality : ∃ first second, integer state left = some first ∧ integer state right = some second ∧
    comparison state serial left right .eq = .ok (decide (first = second))

/-- The labels a state gives its integer variables fit in an `int`. -/
def State.IntegersFit (state : State) : Prop :=
  ∀ name label, state.labelingFunction.lookup name = some label →
    state.tchecker.typeContext.lookup name = some .int → FitsInt label.toList

section Operand

variable {state : State} {term : ASTNode σ} {text : String}

theorem integer_of_spelling (typed : state.tchecker.typeCheck term = some .int) :
    integer state term = (spelling state term).map fun text => numeralValue text.toList := by
  cases term with
  | id serial name => rfl
  | int serial value =>
    simp only [integer, spelling, Option.map_some, Text.numeralValue_toString]
  | bool | predicate | unary | binary => simp [integer, spelling]

theorem stringOperand_of_spelling (found : spelling state term = some text) : stringOperand state term = .ok text := by
  cases term with
  | id serial name => simp_all [spelling, stringOperand, State.getLabel]
  | int serial value => simp_all [spelling, stringOperand]
  | bool | predicate | unary | binary => cases found

theorem intOperand_of_spelling (sane : state.isSane = .ok true) (fits : state.IntegersFit)
    (typed : state.tchecker.typeCheck term = some .int) (found : spelling state term = some text) :
    intOperand state term = .ok (numeralValue text.toList) := by
  cases term with
  | int serial value =>
    cases found
    rw [intOperand, Text.numeralValue_toString]
  | id serial name =>
    have format := State.labelSane_int ((State.isSane_iff state).mp sane name text found) typed
    have converted := State.stoi_eq_numeralValue format (fits name text found typed)
    have labelled : state.getLabel name = .ok text := by
      simp only [State.getLabel, show state.labelingFunction.lookup name = some text from found]
    simpa [intOperand, labelled, bind, Except.bind] using converted
  | bool | predicate | unary | binary => cases found

end Operand

/-- Of three relations that answer as the order of two integers does, one holds. -/
private theorem one_of_order {answer : PredicateKind → Except Fault Bool} {x y : Int}
    (lt : answer .lt = .ok (decide (x < y))) (eq : answer .eq = .ok (decide (x = y)))
    (gt : answer .gt = .ok (decide (x > y))) :
    ∃! kind, kind ∈ [PredicateKind.lt, .eq, .gt] ∧ answer kind = .ok true := by
  have only (kind : PredicateKind) (held : kind ∈ [PredicateKind.lt, .eq, .gt] ∧ answer kind = .ok true) :
      kind = .lt ∧ x < y ∨ kind = .eq ∧ x = y ∨ kind = .gt ∧ x > y := by
    obtain ⟨listed, true⟩ := held
    simp only [List.mem_cons, List.not_mem_nil, or_false] at listed
    rcases listed with rfl | rfl | rfl
    · exact Or.inl ⟨rfl, by simpa [lt] using true⟩
    · exact Or.inr (Or.inl ⟨rfl, by simpa [eq] using true⟩)
    · exact Or.inr (Or.inr ⟨rfl, by simpa [gt] using true⟩)
  rcases lt_trichotomy x y with order | order | order
  · refine ⟨.lt, ⟨by simp, by simp [lt, order]⟩, fun kind held => ?_⟩
    rcases only kind held with ⟨same, _⟩ | ⟨_, other⟩ | ⟨_, other⟩
    · exact same
    · exact absurd other order.ne
    · exact absurd other order.not_gt
  · refine ⟨.eq, ⟨by simp, by simp [eq, order]⟩, fun kind held => ?_⟩
    rcases only kind held with ⟨_, other⟩ | ⟨same, _⟩ | ⟨_, other⟩
    · exact absurd order other.ne
    · exact same
    · exact absurd order.symm other.ne
  · refine ⟨.gt, ⟨by simp, by simp [gt, order]⟩, fun kind held => ?_⟩
    rcases only kind held with ⟨_, other⟩ | ⟨_, other⟩ | ⟨same, _⟩
    · exact absurd other order.not_gt
    · exact absurd other order.ne'
    · exact same

section Comparison

variable {state : State} {left right : ASTNode σ} {l r : String}

/-- Both ways to compare, by the spelling of the terms. -/
theorem comparison_of_spelling (serial : σ) (sane : state.isSane = .ok true) (fits : state.IntegersFit)
    (leftTyped : state.tchecker.typeCheck left = some .int) (rightTyped : state.tchecker.typeCheck right = some .int)
    (leftText : spelling state left = some l) (rightText : spelling state right = some r) :
    comparison state serial left right .lt = .ok (decide (numeralValue l.toList < numeralValue r.toList)) ∧
      comparison state serial left right .lte = .ok (decide (numeralValue l.toList ≤ numeralValue r.toList)) ∧
      comparison state serial left right .gt = .ok (decide (numeralValue l.toList > numeralValue r.toList)) ∧
      comparison state serial left right .eq = .ok (decide (l = r)) := by
  have first := intOperand_of_spelling sane fits leftTyped leftText
  have second := intOperand_of_spelling sane fits rightTyped rightText
  have one := stringOperand_of_spelling leftText
  have two := stringOperand_of_spelling rightText
  refine ⟨?_, ?_, ?_, ?_⟩
  · simp only [comparison, evaluatePredicate, first, second, bind, Except.bind, pure, Except.pure]
  · simp only [comparison, evaluatePredicate, first, second, bind, Except.bind, pure, Except.pure]
  · simp only [comparison, evaluatePredicate, first, second, bind, Except.bind, pure, Except.pure]
  · simp only [comparison, evaluatePredicate, one, two, bind, Except.bind, pure, Except.pure]
    rfl

/-- Integers may be compared by their text as long as neither is spelt in a way the other is not. -/
theorem coherent_of_spelling (serial : σ) (sane : state.isSane = .ok true) (fits : state.IntegersFit)
    (leftTyped : state.tchecker.typeCheck left = some .int) (rightTyped : state.tchecker.typeCheck right = some .int)
    (leftText : spelling state left = some l) (rightText : spelling state right = some r) :
    Coherent state serial left right ↔ (numeralValue l.toList = numeralValue r.toList → l = r) := by
  obtain ⟨lt, lte, gt, eq⟩ := comparison_of_spelling serial sane fits leftTyped rightTyped leftText rightText
  have first : integer state left = some (numeralValue l.toList) := by
    simp [integer_of_spelling leftTyped, leftText]
  have second : integer state right = some (numeralValue r.toList) := by
    simp [integer_of_spelling rightTyped, rightText]
  constructor
  · intro coherent same
    obtain ⟨x, y, valueLeft, valueRight, evaluated⟩ := coherent.equality
    rw [first] at valueLeft
    rw [second] at valueRight
    cases valueLeft
    cases valueRight
    rw [eq] at evaluated
    simpa [same] using evaluated
  · intro canonical
    have textual : l = r ↔ numeralValue l.toList = numeralValue r.toList :=
      ⟨fun same => by rw [same], canonical⟩
    refine ⟨?_, ⟨_, _, lt, eq, ?_⟩, ⟨_, _, first, second, ?_⟩⟩
    · exact one_of_order lt (by rw [eq]; simp [textual]) gt
    · rw [lte]
      simp [textual, le_iff_lt_or_eq]
    · rw [eq]
      simp [textual]

end Comparison

/-- In a sane state the comparisons of two integer terms behave like those of integers
exactly when the variables have labels and no number is spelt in two ways. -/
theorem comparison_coherent_iff (state : State) (serial : σ) (left right : ASTNode σ) (sane : state.isSane = .ok true)
    (fits : state.IntegersFit) (leftTyped : state.tchecker.typeCheck left = some .int)
    (rightTyped : state.tchecker.typeCheck right = some .int) :
    Coherent state serial left right ↔ ∃ l r, spelling state left = some l ∧ spelling state right = some r ∧
      (numeralValue l.toList = numeralValue r.toList → l = r) := by
  constructor
  · intro coherent
    obtain ⟨x, y, valueLeft, valueRight, _⟩ := coherent.equality
    rw [integer_of_spelling leftTyped] at valueLeft
    rw [integer_of_spelling rightTyped] at valueRight
    obtain ⟨l, leftText, _⟩ := Option.map_eq_some_iff.mp valueLeft
    obtain ⟨r, rightText, _⟩ := Option.map_eq_some_iff.mp valueRight
    exact ⟨l, r, leftText, rightText,
      (coherent_of_spelling serial sane fits leftTyped rightTyped leftText rightText).mp coherent⟩
  · rintro ⟨l, r, leftText, rightText, canonical⟩
    exact (coherent_of_spelling serial sane fits leftTyped rightTyped leftText rightText).mpr canonical

theorem counterState_integersFit {label : String} (fits : FitsInt label.toList) : (counterState label).IntegersFit := by
  intro name other found _
  by_cases same : name = "n"
  · subst same
    cases found
    exact fits
  · have missing : (counterState label).labelingFunction.lookup name = none := List.dlookup_cons_ne [] _ same
    rw [missing] at found
    cases found

/-- The specification `int n; n < 5;` and an event that spells five with a leading zero:
the event is neither below five, nor five, nor above it. -/
theorem leading_zero_incoherent :
    TypeChecker.new counterTree.spec = .ok counterChecker ∧
      (State.new counterChecker).addLabel "n" "05" = .ok (counterState "05") ∧
      (counterState "05").isSane = .ok true ∧ (counterState "05").IntegersFit ∧
      (counterState "05").tchecker.typeCheck (.id () "n") = some .int ∧
      (counterState "05").tchecker.typeCheck (.int () 5) = some .int ∧
      comparison (counterState "05") () (.id () "n") (.int () 5) .lt = .ok false ∧
      comparison (counterState "05") () (.id () "n") (.int () 5) .eq = .ok false ∧
      comparison (counterState "05") () (.id () "n") (.int () 5) .gt = .ok false ∧
      ¬ Coherent (counterState "05") () (.id () "n") (.int () 5) := by
  have unequal : comparison (counterState "05") () (.id () "n") (.int () 5) .eq = .ok false := by rfl
  refine ⟨rfl, rfl, by decide, counterState_integersFit ⟨by decide, by decide, by decide⟩, rfl, rfl, rfl, unequal, rfl, ?_⟩
  intro coherent
  obtain ⟨first, second, left, right, evaluated⟩ := coherent.equality
  cases left
  cases right
  rw [unequal] at evaluated
  cases evaluated

theorem counter_coherent :
    Coherent (counterState "-7") () (.id () "n") (.int () 5) ↔
      ∃ l r, spelling (counterState "-7") (.id () "n") = some l ∧ spelling (counterState "-7") (.int () 5) = some r ∧
        (numeralValue l.toList = numeralValue r.toList → l = r) :=
  comparison_coherent_iff (counterState "-7") () (.id () "n") (.int () 5) (by decide)
    (counterState_integersFit ⟨by decide, by decide, by decide⟩) rfl rfl

end LtlFuzz.Monitor

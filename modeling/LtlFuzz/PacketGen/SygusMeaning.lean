import LtlFuzz.PacketGen.Sygus

/-! What the solver reads in a printed constraint, compared with what `computeDeps.ml` computes
for it. -/

namespace LtlFuzz.PacketGen
open Logic

section Values

/-- The sort that a nonterminal of a type is declared with; there are no bit vectors without bits. -/
def IlType.smtSort : IlType → Option SmtSort
  | .bool => some .bool
  | .int => some .int
  | .placeholder => some .int
  | .string => some .string
  | .bitVector len => if len = 0 then none else some (.bitVec len)
  | .bitList => some .seq
  | .adt _ => none

def toExpr : SmtValue → Expr
  | .bool value => .bConst value
  | .int value => .intConst value
  | .string text => .strConst text
  | .bits digits => .bvConst digits.length digits
  | .seq items => .blConst items

/-- A value of a type. -/
def HasType : SmtValue → IlType → Prop
  | .bool _, .bool => True
  | .int _, .int => True
  | .string _, .string => True
  | .bits digits, .bitVector len => digits.length = len
  | .seq _, .bitList => True
  | _, _ => False

/-- The references of an expression that a constraint can hold, with their contexts. -/
def Expr.occurrences : Expr → List (Reference × Reference)
  | .ntExpr context nts => [(context, nts)]
  | .binOp left _ right => left.occurrences ++ right.occurrences
  | .compOp left _ right => left.occurrences ++ right.occurrences
  | .unOp _ expr => expr.occurrences
  | .length expr => expr.occurrences
  | .strLength expr => expr.occurrences
  | .bvCast _ expr => expr.occurrences
  | _ => []

def Expr.subexprs : Expr → List Expr
  | .binOp left op right => .binOp left op right :: (left.subexprs ++ right.subexprs)
  | .compOp left op right => .compOp left op right :: (left.subexprs ++ right.subexprs)
  | .unOp op expr => .unOp op expr :: expr.subexprs
  | .length expr => .length expr :: expr.subexprs
  | .strLength expr => .strLength expr :: expr.subexprs
  | .bvCast len expr => .bvCast len expr :: expr.subexprs
  | expr => [expr]

/-- No cast, no literal list of bits and no placeholder. -/
def Expr.isPlain : Expr → Bool
  | .binOp left _ right => left.isPlain && right.isPlain
  | .compOp left _ right => left.isPlain && right.isPlain
  | .unOp _ expr => expr.isPlain
  | .length expr => expr.isPlain
  | .strLength expr => expr.isPlain
  | .bvCast _ _ => false
  | .blConst _ => false
  | .phConst _ => false
  | _ => true

/-- No literal string, which is printed without its quotes. -/
def Expr.isUnquoted : Expr → Bool
  | .binOp left _ right => left.isUnquoted && right.isUnquoted
  | .compOp left _ right => left.isUnquoted && right.isUnquoted
  | .unOp _ expr => expr.isUnquoted
  | .length expr => expr.isUnquoted
  | .strLength expr => expr.isUnquoted
  | .strConst _ => false
  | _ => true

/-- What the solver has under the same name and with the same meaning: no exclusive or of bit
vectors, no division, no plus sign, no length of a bit vector, no comparison of strings, no
negative number, and names that can be declared. -/
def Expr.Printable (ctx : Context) : Expr → Prop
  | .ntExpr context nts =>
    isVariable (ntVariable (context ++ nts)) = true ∧ inferTypeExpr ctx .syGuS (.ntExpr context nts) ≠ .ok (some (.bitVector 0))
  | .binOp left op right => op ≠ .bvXor ∧ op ≠ .div ∧ left.Printable ctx ∧ right.Printable ctx
  | .compOp left op right =>
    (op = .eq → inferTypeExpr ctx .syGuS left ≠ .ok (some .string)) ∧ left.Printable ctx ∧ right.Printable ctx
  | .unOp op expr => op ≠ .uPlus ∧ expr.Printable ctx
  | .length expr => inferTypeExpr ctx .syGuS expr = .ok (some .bitList) ∧ expr.Printable ctx
  | .strLength expr => expr.Printable ctx
  | .bvConst _ bits => bits ≠ []
  | .intConst value => 0 ≤ value
  | _ => True

end Values


section Operators

private theorem compareBits_eq {first second : List Bool} (same : first.length = second.length) :
    compareBits first second = .ok (decide (bitsToNat first < bitsToNat second)) := by
  induction first generalizing second with
  | nil =>
    cases List.length_eq_zero_iff.mp same.symm
    rfl
  | cons bit bits ih =>
    cases second with
    | nil => cases same
    | cons other others =>
      have lengths : bits.length = others.length := by simpa using same
      have left := bitsToNat_lt bits
      have right := bitsToNat_lt others
      rw [← lengths] at right
      simp only [compareBits, bitsToNat, ← lengths]
      split
      · rename_i equal
        subst equal
        rw [ih lengths]
        simp
      · rename_i different
        cases bit <;> cases other
        · exact absurd rfl different
        · have below : false.toNat * 2 ^ bits.length + bitsToNat bits < true.toNat * 2 ^ bits.length + bitsToNat others := by
            simp
            omega
          rw [decide_eq_true below]
          rfl
        · have above : ¬true.toNat * 2 ^ bits.length + bitsToNat bits < false.toNat * 2 ^ bits.length + bitsToNat others := by
            simp
            omega
          rw [decide_eq_false above]
          rfl
        · exact absurd rfl different

theorem bvult_eq {first second : List Bool} (same : first.length = second.length) :
    bvult first second = .ok (decide (bitsToNat first < bitsToNat second)) := by
  rw [bvult, if_neg (not_not.mpr same), compareBits_eq same]

theorem map2_eq (f : Bool → Bool → Bool) {first second : List Bool} (same : first.length = second.length) :
    map2 f first second = .ok (first.zipWith f second) := by
  induction first generalizing second with
  | nil =>
    cases List.length_eq_zero_iff.mp same.symm
    rfl
  | cons bit bits ih =>
    cases second with
    | nil => cases same
    | cons other others =>
      rw [map2, ih (by simpa using same)]
      rfl

/-- A value that a native integer can hold, if it is an integer. -/
def Fits (value : SmtValue) : Prop := ∀ number, value = .int number → wrap number = number

/-- An operator of the solver that computes what the generator computes. -/
structure Computes (f : SmtSymbol) (first second result : IlType) (compute : List Expr → List Expr → Except Fault (List Expr)) :
    Prop where
  ranked : ∀ s1 s2, first.smtSort = some s1 → second.smtSort = some s2 →
    ∃ s, f.rank2 s1 s2 = some s ∧ result.smtSort = some s
  applied : ∀ v1 v2, HasType v1 first → HasType v2 second →
    ∃ v, f.apply2 v1 v2 = some v ∧ HasType v result ∧ (Fits v → compute [toExpr v1] [toExpr v2] = .ok [toExpr v])

private theorem computes_logic {f : SmtSymbol} {index : Nat} {g : Bool → Bool → Bool}
    (ranked : f.rank2 .bool .bool = some .bool) (applied : ∀ a b, f.apply2 (.bool a) (.bool b) = some (.bool (g a b))) :
    Computes f .bool .bool .bool (evalLogic g index) := by
  constructor
  · intro s1 s2 first second
    cases first
    cases second
    exact ⟨.bool, ranked, rfl⟩
  · intro v1 v2 has1 has2
    cases v1 <;> simp only [HasType] at has1
    cases v2 <;> simp only [HasType] at has2
    exact ⟨_, applied _ _, trivial, fun _ => rfl⟩

private theorem computes_arith {f : SmtSymbol} {index : Nat} {g : Int → Int → Int}
    (ranked : f.rank2 .int .int = some .int) (applied : ∀ a b, f.apply2 (.int a) (.int b) = some (.int (g a b))) :
    Computes f .int .int .int (evalArith (fun i j => .ok (g i j)) index) := by
  constructor
  · intro s1 s2 first second
    cases first
    cases second
    exact ⟨.int, ranked, rfl⟩
  · intro v1 v2 has1 has2
    cases v1 <;> simp only [HasType] at has1
    cases v2 <;> simp only [HasType] at has2
    rename_i a b
    refine ⟨_, applied a b, trivial, ?_⟩
    intro small
    have same := small _ rfl
    simp [evalArith, toExpr, bind, Except.bind, same]

private theorem computes_order {f : SmtSymbol} {index : Nat} {g : Int → Int → Bool}
    (ranked : f.rank2 .int .int = some .bool) (applied : ∀ a b, f.apply2 (.int a) (.int b) = some (.bool (g a b))) :
    Computes f .int .int .bool (evalOrder g index) := by
  constructor
  · intro s1 s2 first second
    cases first
    cases second
    exact ⟨.bool, ranked, rfl⟩
  · intro v1 v2 has1 has2
    cases v1 <;> simp only [HasType] at has1
    cases v2 <;> simp only [HasType] at has2
    exact ⟨_, applied _ _, trivial, fun _ => rfl⟩

private theorem bitVec_of_sort {len : Nat} {s : SmtSort} (sorted : (IlType.bitVector len).smtSort = some s) : s = .bitVec len := by
  simp only [IlType.smtSort, Option.ite_none_left_eq_some] at sorted
  exact (Option.some.inj sorted.2).symm

private theorem computes_bits {f : SmtSymbol} {index len : Nat} {g : Bool → Bool → Bool}
    (ranked : f.rank2 (.bitVec len) (.bitVec len) = some (.bitVec len))
    (applied : ∀ a b, f.apply2 (.bits a) (.bits b) = some (.bits (a.zipWith g b))) :
    Computes f (.bitVector len) (.bitVector len) (.bitVector len) (evalBits g index) := by
  constructor
  · intro s1 s2 first second
    cases bitVec_of_sort first
    cases bitVec_of_sort second
    exact ⟨_, ranked, first⟩
  · intro v1 v2 has1 has2
    cases v1 <;> simp only [HasType] at has1
    cases v2 <;> simp only [HasType] at has2
    rename_i a b
    refine ⟨_, applied a b, by simp [HasType, has1, has2], ?_⟩
    intro _
    simp [evalBits, toExpr, bind, Except.bind, map2_eq g (has1.trans has2.symm), has1, has2]

/-- The operators that are printed under their own name and keep their meaning. -/
theorem binOp_computes {op : BinOperator} {ty1 ty2 result : IlType} (fits : op.type ty1 ty2 = some result)
    (allowed : op ≠ .bvXor ∧ op ≠ .div) : ∃ f, ppPrintBinop op = .ok f ∧ Computes f ty1 ty2 result (evalBinOp op) := by
  cases operands : op.operands with
  | none =>
    simp only [BinOperator.type, operands] at fits
    obtain ⟨len, rfl, rfl, rfl⟩ := bitsType_some fits
    cases op <;> simp only [BinOperator.operands, reduceCtorEq] at operands
    · exact ⟨_, rfl, computes_bits (by simp [SmtSymbol.rank2]) fun _ _ => rfl⟩
    · exact ⟨_, rfl, computes_bits (by simp [SmtSymbol.rank2]) fun _ _ => rfl⟩
    · exact absurd rfl allowed.1
  | some types =>
    obtain ⟨expected, out⟩ := types
    simp only [BinOperator.type, operands, Option.ite_none_right_eq_some, Option.some.injEq] at fits
    obtain ⟨⟨rfl, rfl⟩, rfl⟩ := fits
    cases op <;> cases operands
    · exact ⟨_, rfl, computes_logic rfl fun _ _ => rfl⟩
    · exact ⟨_, rfl, computes_logic rfl fun _ _ => rfl⟩
    · exact ⟨_, rfl, computes_logic rfl fun _ _ => rfl⟩
    · exact ⟨_, rfl, computes_logic rfl fun a b => by cases a <;> cases b <;> rfl⟩
    · exact ⟨_, rfl, computes_logic rfl fun _ _ => rfl⟩
    · exact ⟨_, rfl, computes_arith rfl fun _ _ => rfl⟩
    · exact ⟨_, rfl, computes_arith rfl fun _ _ => rfl⟩
    · exact ⟨_, rfl, computes_arith rfl fun _ _ => rfl⟩
    · exact absurd rfl allowed.2
    · refine ⟨_, rfl, ?_, ?_⟩
      · intro s1 s2 first second
        cases first
        cases second
        exact ⟨.string, rfl, rfl⟩
      · intro v1 v2 has1 has2
        cases v1 <;> simp only [HasType] at has1
        cases v2 <;> simp only [HasType] at has2
        exact ⟨_, rfl, trivial, fun _ => rfl⟩

variable {signature : String → Option SmtSort} {env : String → Option SmtValue}

/-- A term of the solver stands for a value of a type. -/
structure Denotes (signature : String → Option SmtSort) (env : String → Option SmtValue) (term : SmtTerm) (ty : IlType)
    (value : SmtValue) : Prop where
  sorted : ∃ s, ty.smtSort = some s ∧ term.sort signature = some s
  valued : term.value env = some value
  typed : HasType value ty

theorem Computes.denotes {f : SmtSymbol} {first second result : IlType}
    {compute : List Expr → List Expr → Except Fault (List Expr)} {term1 term2 : SmtTerm} {v1 v2 : SmtValue}
    (computes : Computes f first second result compute) (left : Denotes signature env term1 first v1)
    (right : Denotes signature env term2 second v2) :
    ∃ v, Denotes signature env (.app2 f term1 term2) result v ∧ (Fits v → compute [toExpr v1] [toExpr v2] = .ok [toExpr v]) := by
  obtain ⟨s1, known1, sort1⟩ := left.sorted
  obtain ⟨s2, known2, sort2⟩ := right.sorted
  obtain ⟨s, ranked, known⟩ := computes.ranked s1 s2 known1 known2
  obtain ⟨v, applied, typed, same⟩ := computes.applied v1 v2 left.typed right.typed
  refine ⟨v, ⟨⟨s, known, ?_⟩, ?_, typed⟩, same⟩
  · simp [SmtTerm.sort, sort1, sort2, ranked]
  · simp [SmtTerm.value, left.valued, right.valued, applied]

theorem unOp_denotes {op : UnaryOperator} {ty result : IlType} {value : SmtValue} {term : SmtTerm}
    (fits : op.type ty = some result) (allowed : op ≠ .uPlus) (operand : Denotes signature env term ty value) :
    ∃ v, Denotes signature env (ppPrintUnop op term) result v ∧ (Fits v → evalUnOp op [toExpr value] = .ok [toExpr v]) := by
  obtain ⟨s, known, sorted⟩ := operand.sorted
  have has := operand.typed
  cases op <;> cases ty <;> cases fits
  · exact absurd rfl allowed
  · cases value <;> simp only [HasType] at has
    rename_i number
    cases known
    refine ⟨.int (-number), ⟨⟨.int, rfl, ?_⟩, ?_, trivial⟩, ?_⟩
    · simp [ppPrintUnop, SmtTerm.sort, sorted, SmtSymbol.rank1]
    · simp [ppPrintUnop, SmtTerm.value, operand.valued, SmtSymbol.apply1]
    · intro small
      have same := small _ rfl
      simp [evalUnOp, toExpr, same]
  · cases value <;> simp only [HasType] at has
    rename_i truth
    cases known
    refine ⟨.bool !truth, ⟨⟨.bool, rfl, ?_⟩, ?_, trivial⟩, fun _ => rfl⟩
    · simp [ppPrintUnop, SmtTerm.sort, sorted, SmtSymbol.rank1]
    · simp [ppPrintUnop, SmtTerm.value, operand.valued, SmtSymbol.apply1]
  · cases value <;> simp only [HasType] at has
    rename_i bits
    subst has
    refine ⟨.bits (bits.map Bool.not), ⟨⟨s, known, ?_⟩, ?_, by simp [HasType]⟩, fun _ => by simp [evalUnOp, toExpr]⟩
    · cases bitVec_of_sort known
      simp [ppPrintUnop, SmtTerm.sort, sorted, SmtSymbol.rank1]
    · simp [ppPrintUnop, SmtTerm.value, operand.valued, SmtSymbol.apply1]

private theorem computes_bvult {len : Nat} :
    Computes .bvult (.bitVector len) (.bitVector len) .bool (evalBvOrder bvult) := by
  constructor
  · intro s1 s2 first second
    cases bitVec_of_sort first
    cases bitVec_of_sort second
    exact ⟨.bool, by simp [SmtSymbol.rank2], rfl⟩
  · intro v1 v2 has1 has2
    cases v1 <;> simp only [HasType] at has1
    cases v2 <;> simp only [HasType] at has2
    refine ⟨_, rfl, trivial, fun _ => ?_⟩
    simp [evalBvOrder, toExpr, bind, Except.bind, bvult_eq (has1.trans has2.symm)]

private theorem computes_eq {ty : IlType} (comparable : ty ≠ .string) : Computes .eq ty ty .bool (evalCompOp .eq) := by
  constructor
  · intro s1 s2 first second
    cases first.symm.trans second
    exact ⟨.bool, by simp [SmtSymbol.rank2], rfl⟩
  · intro v1 v2 has1 has2
    refine ⟨.bool (decide (v1 = v2)), rfl, trivial, fun _ => ?_⟩
    cases ty <;> cases v1 <;> simp only [HasType] at has1 <;> cases v2 <;> simp only [HasType] at has2
    · simp [evalCompOp, toExpr]
    · simp [evalCompOp, toExpr]
    · exact absurd rfl comparable
    · simp [evalCompOp, toExpr]
    · simp [evalCompOp, toExpr]

private theorem fits_of_bool {v : SmtValue} (has : HasType v .bool) : Fits v := by
  rintro number rfl
  exact has.elim

private theorem computes_prefix : Computes .strPrefixof .string .string .bool (evalCompOp .strPrefix) := by
  constructor
  · intro s1 s2 first second
    cases first
    cases second
    exact ⟨.bool, rfl, rfl⟩
  · intro v1 v2 has1 has2
    cases v1 <;> simp only [HasType] at has1
    cases v2 <;> simp only [HasType] at has2
    exact ⟨_, rfl, trivial, fun _ => rfl⟩

/-- One of two bit vectors is less, or they are equal. -/
private theorem denotes_or_equal {len : Nat} {term1 term2 : SmtTerm} {a b : List Bool}
    (left : Denotes signature env term1 (.bitVector len) (.bits a)) (right : Denotes signature env term2 (.bitVector len) (.bits b)) :
    Denotes signature env (.app2 .or (.app2 .bvult term1 term2) (.app2 .eq term1 term2)) .bool
      (.bool (decide (bitsToNat a < bitsToNat b) || decide (a = b))) := by
  obtain ⟨s1, known1, sort1⟩ := left.sorted
  obtain ⟨s2, known2, sort2⟩ := right.sorted
  cases bitVec_of_sort known1
  cases bitVec_of_sort known2
  refine ⟨⟨.bool, rfl, ?_⟩, ?_, trivial⟩
  · simp [SmtTerm.sort, sort1, sort2, SmtSymbol.rank2]
  · simp [SmtTerm.value, left.valued, right.valued, SmtSymbol.apply2]

/-- Comparisons keep their meaning, except that strings cannot be compared. -/
theorem compOp_denotes {op : CompOperator} {ty1 ty2 result : IlType} {term1 term2 : SmtTerm} {v1 v2 : SmtValue}
    (fits : op.type ty1 ty2 = some result) (allowed : op = .eq → ty1 ≠ .string) (left : Denotes signature env term1 ty1 v1)
    (right : Denotes signature env term2 ty2 v2) :
    ∃ term v, ppPrintCompopTerm op term1 term2 = .ok term ∧ Denotes signature env term result v ∧
      evalCompOp op [toExpr v1] [toExpr v2] = .ok [toExpr v] := by
  cases operands : op.operands with
  | some types =>
    obtain ⟨expected, out⟩ := types
    simp only [CompOperator.type, operands, Option.ite_none_right_eq_some, Option.some.injEq] at fits
    obtain ⟨⟨rfl, rfl⟩, rfl⟩ := fits
    have single : ∃ f, ppPrintCompopTerm op term1 term2 = .ok (.app2 f term1 term2) ∧ out = .bool ∧
        Computes f ty2 ty2 .bool (evalCompOp op) := by
      cases op <;> cases operands
      · exact ⟨_, rfl, rfl, computes_order rfl fun _ _ => rfl⟩
      · exact ⟨_, rfl, rfl, computes_order rfl fun _ _ => rfl⟩
      · exact ⟨_, rfl, rfl, computes_order rfl fun _ _ => rfl⟩
      · exact ⟨_, rfl, rfl, computes_order rfl fun _ _ => rfl⟩
      · exact ⟨_, rfl, rfl, computes_prefix⟩
    obtain ⟨f, printed, rfl, computes⟩ := single
    obtain ⟨v, denotes, same⟩ := computes.denotes left right
    exact ⟨_, v, printed, denotes, same (fits_of_bool denotes.typed)⟩
  | none =>
    simp only [CompOperator.type, operands] at fits
    by_cases equality : op = .eq
    · rw [if_pos equality, Option.ite_none_right_eq_some, Option.some.injEq] at fits
      obtain ⟨rfl, rfl⟩ := fits
      have comparable := allowed equality
      subst equality
      obtain ⟨v, denotes, same⟩ := (computes_eq comparable).denotes left right
      exact ⟨_, v, rfl, denotes, same (fits_of_bool denotes.typed)⟩
    · rw [if_neg equality] at fits
      obtain ⟨len, rfl, rfl, rfl⟩ := bitsType_some fits
      have has1 := left.typed
      have has2 := right.typed
      cases v1 <;> simp only [HasType] at has1
      cases v2 <;> simp only [HasType] at has2
      rename_i a b
      have forward := bvult_eq (has1.trans has2.symm)
      have backward := bvult_eq (has2.trans has1.symm)
      cases op <;> simp only [CompOperator.operands, reduceCtorEq, not_true_eq_false] at operands equality
      · obtain ⟨v, denotes, same⟩ := computes_bvult.denotes left right
        exact ⟨_, v, rfl, denotes, same (fits_of_bool denotes.typed)⟩
      · refine ⟨_, _, rfl, denotes_or_equal left right, ?_⟩
        simp [evalCompOp, evalBvOrder, toExpr, bind, Except.bind, forward]
      · obtain ⟨v, denotes, same⟩ := computes_bvult.denotes right left
        refine ⟨_, v, rfl, denotes, ?_⟩
        exact same (fits_of_bool denotes.typed)
      · refine ⟨_, _, rfl, denotes_or_equal right left, ?_⟩
        simp [evalCompOp, evalBvOrder, toExpr, bind, Except.bind, backward, eq_comm]

end Operators

section Agreement

variable {ctx : Context} {signature : String → Option SmtSort} {env : String → Option SmtValue} {fuel : Nat} {ast : Ast}
  {sygusAst : SygusAst} {element : Element}

/-- Every reference of an expression leads to one value of its type, and the solver has the same
value for the variable of the reference, which is declared with the sort of the type. -/
def Assigned (ctx : Context) (signature : String → Option SmtSort) (env : String → Option SmtValue) (fuel : Nat) (ast : Ast)
    (sygusAst : SygusAst) (element : Element) (expr : Expr) : Prop :=
  ∀ context nts, (context, nts) ∈ expr.occurrences → ∃ nt ty v, nts.getLast? = some nt ∧ ctx.lookup nt.1 = some ty ∧
    HasType v ty ∧ evaluate fuel [] sygusAst ast element (.ntExpr context nts) = .ok [toExpr v] ∧
    signature (ntVariable (context ++ nts)) = (if isVariable (ntVariable (context ++ nts)) then ty.smtSort else none) ∧
    env (ntVariable (context ++ nts)) = some v

/-- No integer on the way leaves the range of native integers. -/
def InRange (ctx : Context) (env : String → Option SmtValue) (expr : Expr) : Prop :=
  ∀ sub ∈ expr.subexprs, ∀ term v, ppPrintExpr ctx "" sub = .ok term → term.value env = some v → Fits v

/-- What the solver reads is well sorted and has the value that is computed. -/
def Agrees (ctx : Context) (signature : String → Option SmtSort) (env : String → Option SmtValue) (fuel : Nat) (ast : Ast)
    (sygusAst : SygusAst) (element : Element) (expr : Expr) (ty : IlType) : Prop :=
  ∃ term v, ppPrintExpr ctx "" expr = .ok term ∧ Denotes signature env term ty v ∧
    evaluate fuel [] sygusAst ast element expr = .ok [toExpr v]

private theorem Expr.mem_subexprs_self (expr : Expr) : expr ∈ expr.subexprs := by
  cases expr <;> simp [Expr.subexprs]

private theorem InRange.fits {expr : Expr} {term : SmtTerm} {v : SmtValue} {ty : IlType} (range : InRange ctx env expr)
    (printed : ppPrintExpr ctx "" expr = .ok term) (denotes : Denotes signature env term ty v) : Fits v :=
  range expr expr.mem_subexprs_self term v printed denotes.valued

/-- What is asked of an expression apart from its operators. -/
structure Supported (ctx : Context) (signature : String → Option SmtSort) (env : String → Option SmtValue) (fuel : Nat) (ast : Ast)
    (sygusAst : SygusAst) (element : Element) (expr : Expr) : Prop where
  plain : expr.isPlain = true
  unquoted : expr.isUnquoted = true
  assigned : Assigned ctx signature env fuel ast sygusAst element expr
  range : InRange ctx env expr

private theorem Supported.part {whole expr : Expr} (supported : Supported ctx signature env fuel ast sygusAst element whole)
    (plain : whole.isPlain = true → expr.isPlain = true) (unquoted : whole.isUnquoted = true → expr.isUnquoted = true)
    (occurrences : ∀ occurrence ∈ expr.occurrences, occurrence ∈ whole.occurrences)
    (subexprs : ∀ sub ∈ expr.subexprs, sub ∈ whole.subexprs) : Supported ctx signature env fuel ast sygusAst element expr :=
  ⟨plain supported.plain, unquoted supported.unquoted, fun context nts member => supported.assigned context nts (occurrences _ member),
    fun sub member => supported.range sub (subexprs sub member)⟩

private theorem Supported.binOp {expr1 expr2 : Expr} {op : BinOperator}
    (supported : Supported ctx signature env fuel ast sygusAst element (.binOp expr1 op expr2)) :
    Supported ctx signature env fuel ast sygusAst element expr1 ∧ Supported ctx signature env fuel ast sygusAst element expr2 := by
  refine ⟨supported.part ?_ ?_ ?_ ?_, supported.part ?_ ?_ ?_ ?_⟩ <;>
    simp +contextual [Expr.isPlain, Expr.isUnquoted, Expr.occurrences, Expr.subexprs]

private theorem Supported.compOp {expr1 expr2 : Expr} {op : CompOperator}
    (supported : Supported ctx signature env fuel ast sygusAst element (.compOp expr1 op expr2)) :
    Supported ctx signature env fuel ast sygusAst element expr1 ∧ Supported ctx signature env fuel ast sygusAst element expr2 := by
  refine ⟨supported.part ?_ ?_ ?_ ?_, supported.part ?_ ?_ ?_ ?_⟩ <;>
    simp +contextual [Expr.isPlain, Expr.isUnquoted, Expr.occurrences, Expr.subexprs]

private theorem Supported.operand {whole expr : Expr} (supported : Supported ctx signature env fuel ast sygusAst element whole)
    (around : (∃ op, whole = .unOp op expr) ∨ whole = .length expr ∨ whole = .strLength expr) :
    Supported ctx signature env fuel ast sygusAst element expr := by
  obtain ⟨op, rfl⟩ | rfl | rfl := around
  · exact supported.part id id (fun _ => id) fun _ => List.mem_cons_of_mem _
  · exact supported.part id id (fun _ => id) fun _ => List.mem_cons_of_mem _
  · exact supported.part id id (fun _ => id) fun _ => List.mem_cons_of_mem _

private theorem evaluate_unOp (op : UnaryOperator) (expr : Expr) : evaluate fuel [] sygusAst ast element (.unOp op expr) =
    evaluate fuel [] sygusAst ast element expr >>= evalUnOp op := rfl

private theorem evaluate_binOp (expr1 expr2 : Expr) (op : BinOperator) :
    evaluate fuel [] sygusAst ast element (.binOp expr1 op expr2) =
      evaluate fuel [] sygusAst ast element expr1 >>= fun first =>
        evaluate fuel [] sygusAst ast element expr2 >>= evalBinOp op first := rfl

private theorem evaluate_compOp (expr1 expr2 : Expr) (op : CompOperator) :
    evaluate fuel [] sygusAst ast element (.compOp expr1 op expr2) =
      evaluate fuel [] sygusAst ast element expr1 >>= fun first =>
        evaluate fuel [] sygusAst ast element expr2 >>= evalCompOp op first := rfl

private theorem evaluate_strLength (expr : Expr) : evaluate fuel [] sygusAst ast element (.strLength expr) =
    evaluate fuel [] sygusAst ast element expr >>= evalStrLength := rfl

private theorem evaluate_length (expr : Expr) : evaluate fuel [] sygusAst ast element (.length expr) =
    evaluate fuel [] sygusAst ast element expr >>= evalLength 0 := rfl

theorem agrees_of_printable {expr : Expr} {ty : IlType} (typed : Typed ctx expr ty)
    (supported : Supported ctx signature env fuel ast sygusAst element expr) (printable : expr.Printable ctx) :
    Agrees ctx signature env fuel ast sygusAst element expr ty := by
  induction typed with
  | @ntExpr context nts nt ty last known primitive =>
    obtain ⟨nt', ty', v, last', known', has, evaluated, declared, same⟩ :=
      supported.assigned context nts (List.mem_singleton.mpr rfl)
    cases last.symm.trans last'
    cases known.symm.trans known'
    rw [if_pos printable.1] at declared
    have positive : ty ≠ .bitVector 0 := by
      rintro rfl
      exact printable.2 (Typed.ntExpr last known primitive).infer
    obtain ⟨s, sorted⟩ : ∃ s, ty.smtSort = some s := by
      cases ty with
      | adt rules => exact absurd rfl (primitive rules)
      | bitVector len => exact ⟨.bitVec len, if_neg fun zero => positive (by rw [zero])⟩
      | _ => exact ⟨_, rfl⟩
    refine ⟨.name (ntVariable (context ++ nts)), v, ?_, ⟨⟨s, sorted, declared.trans sorted⟩, same, has⟩, evaluated⟩
    cases nts with
    | nil => cases last
    | cons first rest => simp [ppPrintExpr]
  | @unOp op expr ty result operand fits ih =>
    obtain ⟨term, v, printed, denotes, evaluated⟩ := ih (supported.operand (.inl ⟨op, rfl⟩)) printable.2
    obtain ⟨out, outDenotes, computed⟩ := unOp_denotes fits printable.1 denotes
    have whole : ppPrintExpr ctx "" (.unOp op expr) = .ok (ppPrintUnop op term) := by
      rw [ppPrintExpr, printed]
      rfl
    refine ⟨_, out, whole, outDenotes, ?_⟩
    rw [evaluate_unOp, evaluated]
    exact computed (supported.range.fits whole outDenotes)
  | @binOp op expr1 expr2 ty1 ty2 result left right fits ih1 ih2 =>
    obtain ⟨notXor, notDiv, first, second⟩ := printable
    obtain ⟨term1, v1, printed1, denotes1, evaluated1⟩ := ih1 supported.binOp.1 first
    obtain ⟨term2, v2, printed2, denotes2, evaluated2⟩ := ih2 supported.binOp.2 second
    obtain ⟨f, symbol, computes⟩ := binOp_computes fits ⟨notXor, notDiv⟩
    obtain ⟨out, outDenotes, computed⟩ := computes.denotes denotes1 denotes2
    have whole : ppPrintExpr ctx "" (.binOp expr1 op expr2) = .ok (.app2 f term1 term2) := by
      rw [ppPrintExpr, printed1, printed2]
      change ppPrintBinopTerm op term1 term2 = _
      rw [ppPrintBinopTerm, if_neg notXor, symbol]
      rfl
    refine ⟨_, out, whole, outDenotes, ?_⟩
    rw [evaluate_binOp, evaluated1, evaluated2]
    exact computed (supported.range.fits whole outDenotes)
  | @compOp op expr1 expr2 ty1 ty2 result left right fits ih1 ih2 =>
    obtain ⟨comparable, first, second⟩ := printable
    obtain ⟨term1, v1, printed1, denotes1, evaluated1⟩ := ih1 supported.compOp.1 first
    obtain ⟨term2, v2, printed2, denotes2, evaluated2⟩ := ih2 supported.compOp.2 second
    have allowed : op = .eq → ty1 ≠ .string := by
      rintro equality rfl
      exact comparable equality left.infer
    obtain ⟨term, out, printed, outDenotes, computed⟩ := compOp_denotes fits allowed denotes1 denotes2
    refine ⟨term, out, ?_, outDenotes, ?_⟩
    · rw [ppPrintExpr, printed1, printed2]
      exact printed
    · rw [evaluate_compOp, evaluated1, evaluated2]
      exact computed
  | @strLength expr operand ih =>
    obtain ⟨term, v, printed, denotes, evaluated⟩ := ih (supported.operand (.inr (.inr rfl))) printable
    have has := denotes.typed
    cases v <;> simp only [HasType] at has
    rename_i text
    obtain ⟨s, known, sorted⟩ := denotes.sorted
    cases known
    have whole : ppPrintExpr ctx "" (.strLength expr) = .ok (.app1 .strLen term) := by
      rw [ppPrintExpr, printed]
      rfl
    refine ⟨_, .int text.utf8ByteSize, whole, ⟨⟨.int, rfl, ?_⟩, ?_, trivial⟩, ?_⟩
    · simp [SmtTerm.sort, sorted, SmtSymbol.rank1]
    · simp [SmtTerm.value, denotes.valued, SmtSymbol.apply1]
    · rw [evaluate_strLength, evaluated]
      rfl
  | @bitListLength expr operand ih =>
    obtain ⟨term, v, printed, denotes, evaluated⟩ := ih (supported.operand (.inr (.inl rfl))) printable.2
    have has := denotes.typed
    cases v <;> simp only [HasType] at has
    rename_i items
    obtain ⟨s, known, sorted⟩ := denotes.sorted
    cases known
    have whole : ppPrintExpr ctx "" (.length expr) = .ok (.app1 .seqLen term) := by
      rw [ppPrintExpr, printed]
      rfl
    have outDenotes : Denotes signature env (.app1 .seqLen term) .int (.int items.length) := by
      refine ⟨⟨.int, rfl, ?_⟩, ?_, trivial⟩
      · simp [SmtTerm.sort, sorted, SmtSymbol.rank1]
      · simp [SmtTerm.value, denotes.valued, SmtSymbol.apply1]
    refine ⟨_, _, whole, outDenotes, ?_⟩
    have small := supported.range.fits whole outDenotes _ rfl
    rw [evaluate_length, evaluated]
    simp [bind, Except.bind, toExpr, evalLength, small]
  | bitVectorLength operand ih =>
    cases operand.infer.symm.trans printable.1
  | bvCast operand ih => cases supported.plain
  | @bvConst bits =>
    have positive : bits.length ≠ 0 := fun zero => printable (List.length_eq_zero_iff.mp zero)
    refine ⟨.binary bits, .bits bits, rfl, ⟨⟨.bitVec bits.length, if_neg positive, if_neg printable⟩, rfl, rfl⟩, rfl⟩
  | blConst => cases supported.plain
  | @bConst value => exact ⟨.truth value, .bool value, rfl, ⟨⟨.bool, rfl, rfl⟩, rfl, trivial⟩, rfl⟩
  | @intConst value => exact ⟨.numeral value, .int value, rfl, ⟨⟨.int, rfl, if_pos printable⟩, rfl, trivial⟩, rfl⟩
  | strConst => cases supported.unquoted

private theorem app1_sort {f : SmtSymbol} {arg : SmtTerm} {s : SmtSort} (sorted : (SmtTerm.app1 f arg).sort signature = some s) :
    ∃ s1, arg.sort signature = some s1 ∧ f.rank1 s1 = some s := by
  simpa [SmtTerm.sort, Option.bind_eq_some_iff] using sorted

private theorem app2_sort {f : SmtSymbol} {left right : SmtTerm} {s : SmtSort}
    (sorted : (SmtTerm.app2 f left right).sort signature = some s) :
    ∃ s1 s2, left.sort signature = some s1 ∧ right.sort signature = some s2 ∧ f.rank2 s1 s2 = some s := by
  simpa [SmtTerm.sort, Option.bind_eq_some_iff] using sorted

/-- The operands of a printed comparison are well sorted. -/
private theorem compop_sorts {op : CompOperator} {term1 term2 term : SmtTerm} {s : SmtSort}
    (printed : ppPrintCompopTerm op term1 term2 = .ok term) (sorted : term.sort signature = some s) :
    (∃ s1, term1.sort signature = some s1) ∧ ∃ s2, term2.sort signature = some s2 := by
  cases op <;> cases printed <;> obtain ⟨s1, s2, sort1, sort2, _⟩ := app2_sort sorted
  case bvLte =>
    obtain ⟨s1, s2, sort1, sort2, _⟩ := app2_sort sort1
    exact ⟨⟨s1, sort1⟩, s2, sort2⟩
  case bvGte =>
    obtain ⟨s1, s2, sort1, sort2, _⟩ := app2_sort sort1
    exact ⟨⟨s2, sort2⟩, s1, sort1⟩
  case bvGt => exact ⟨⟨s2, sort2⟩, s1, sort1⟩
  all_goals exact ⟨⟨s1, sort1⟩, s2, sort2⟩

/-- An expression that is read and computed without an error has only operators that agree. -/
theorem printable_of_read {expr : Expr} {ty : IlType} (typed : Typed ctx expr ty)
    (supported : Supported ctx signature env fuel ast sygusAst element expr) {term : SmtTerm} {s : SmtSort} {values : List Expr}
    (printed : ppPrintExpr ctx "" expr = .ok term) (sorted : term.sort signature = some s)
    (evaluated : evaluate fuel [] sygusAst ast element expr = .ok values) : expr.Printable ctx := by
  induction typed generalizing term s values with
  | @ntExpr context nts nt ty last known primitive =>
    obtain ⟨nt', ty', v, last', known', has, _, declared, same⟩ :=
      supported.assigned context nts (List.mem_singleton.mpr rfl)
    cases last.symm.trans last'
    cases known.symm.trans known'
    have name : term = .name (ntVariable (context ++ nts)) := by
      cases nts with
      | nil => cases last
      | cons first rest => simpa [ppPrintExpr, eq_comm] using printed
    subst name
    rw [SmtTerm.sort, declared, Option.ite_none_right_eq_some] at sorted
    refine ⟨sorted.1, ?_⟩
    intro zero
    cases (Typed.ntExpr last known primitive).infer.symm.trans zero
    cases sorted.2
  | @unOp op expr ty result operand fits ih =>
    obtain ⟨inner, innerPrinted, same⟩ := bind_ok printed
    obtain ⟨innerValues, innerEvaluated, _⟩ := bind_ok evaluated
    cases same
    cases op with
    | uPlus => cases sorted
    | _ =>
      obtain ⟨s1, innerSorted, _⟩ := app1_sort sorted
      exact ⟨by simp, ih (supported.operand (.inl ⟨_, rfl⟩)) innerPrinted innerSorted innerEvaluated⟩
  | @binOp op expr1 expr2 ty1 ty2 result left right fits ih1 ih2 =>
    obtain ⟨term1, printed1, rest⟩ := bind_ok printed
    obtain ⟨term2, printed2, whole⟩ := bind_ok rest
    obtain ⟨values1, evaluated1, rest⟩ := bind_ok evaluated
    obtain ⟨values2, evaluated2, _⟩ := bind_ok rest
    by_cases exclusive : op = .bvXor
    · subst exclusive
      cases whole
      obtain ⟨_, _, inner, _, _⟩ := app2_sort sorted
      obtain ⟨s1, s2, sorted1, sorted2, ranked⟩ := app2_sort inner
      have first := ih1 supported.binOp.1 printed1 sorted1 evaluated1
      obtain ⟨term', v, printed', denotes, _⟩ := agrees_of_printable left supported.binOp.1 first
      cases printed1.symm.trans printed'
      obtain ⟨s', known, sorted'⟩ := denotes.sorted
      cases sorted1.symm.trans sorted'
      obtain ⟨len, rfl, rfl, rfl⟩ := bitsType_some fits
      cases bitVec_of_sort known
      cases ranked
    · rw [ppPrintBinopTerm, if_neg exclusive] at whole
      obtain ⟨f, symbol, same⟩ := bind_ok whole
      cases same
      obtain ⟨s1, s2, sorted1, sorted2, ranked⟩ := app2_sort sorted
      refine ⟨exclusive, ?_, ih1 supported.binOp.1 printed1 sorted1 evaluated1, ih2 supported.binOp.2 printed2 sorted2 evaluated2⟩
      rintro rfl
      cases symbol
      cases ranked
  | @compOp op expr1 expr2 ty1 ty2 result left right fits ih1 ih2 =>
    obtain ⟨term1, printed1, rest⟩ := bind_ok printed
    obtain ⟨term2, printed2, whole⟩ := bind_ok rest
    obtain ⟨values1, evaluated1, rest⟩ := bind_ok evaluated
    obtain ⟨values2, evaluated2, computed⟩ := bind_ok rest
    obtain ⟨⟨s1, sorted1⟩, s2, sorted2⟩ := compop_sorts whole sorted
    have first := ih1 supported.compOp.1 printed1 sorted1 evaluated1
    have second := ih2 supported.compOp.2 printed2 sorted2 evaluated2
    refine ⟨?_, first, second⟩
    rintro rfl strings
    cases left.infer.symm.trans strings
    obtain ⟨_, v1, _, denotes1, same1⟩ := agrees_of_printable left supported.compOp.1 first
    cases evaluated1.symm.trans same1
    have has := denotes1.typed
    cases v1 <;> simp only [HasType] at has
    cases computed
  | @strLength expr operand ih =>
    obtain ⟨inner, innerPrinted, same⟩ := bind_ok printed
    obtain ⟨innerValues, innerEvaluated, _⟩ := bind_ok evaluated
    cases same
    obtain ⟨s1, innerSorted, _⟩ := app1_sort sorted
    exact ih (supported.operand (.inr (.inr rfl))) innerPrinted innerSorted innerEvaluated
  | @bitListLength expr operand ih =>
    obtain ⟨inner, innerPrinted, same⟩ := bind_ok printed
    obtain ⟨innerValues, innerEvaluated, _⟩ := bind_ok evaluated
    cases same
    obtain ⟨s1, innerSorted, _⟩ := app1_sort sorted
    exact ⟨operand.infer, ih (supported.operand (.inr (.inl rfl))) innerPrinted innerSorted innerEvaluated⟩
  | @bitVectorLength expr len operand ih =>
    obtain ⟨inner, innerPrinted, same⟩ := bind_ok printed
    obtain ⟨innerValues, innerEvaluated, _⟩ := bind_ok evaluated
    cases same
    obtain ⟨s1, innerSorted, ranked⟩ := app1_sort sorted
    have inside := ih (supported.operand (.inr (.inl rfl))) innerPrinted innerSorted innerEvaluated
    obtain ⟨term', v, printed', denotes, _⟩ := agrees_of_printable operand (supported.operand (.inr (.inl rfl))) inside
    cases innerPrinted.symm.trans printed'
    obtain ⟨s', known, sorted'⟩ := denotes.sorted
    cases innerSorted.symm.trans sorted'
    cases bitVec_of_sort known
    cases ranked
  | bvCast operand ih => cases supported.plain
  | @bvConst bits =>
    cases printed
    rw [SmtTerm.sort, Option.ite_none_left_eq_some] at sorted
    exact sorted.1
  | blConst => cases supported.plain
  | bConst => trivial
  | @intConst value =>
    cases printed
    rw [SmtTerm.sort, Option.ite_none_right_eq_some] at sorted
    exact sorted.1
  | strConst => cases supported.unquoted

/-- The solver reads what is computed exactly where the operators agree. -/
theorem ppPrintExpr_agrees_iff (ctx : Context) (signature : String → Option SmtSort) (env : String → Option SmtValue) (fuel : Nat)
    (ast : Ast) (sygusAst : SygusAst) (element : Element) (expr : Expr) (ty : IlType)
    (typed : inferTypeExpr ctx .syGuS expr = .ok (some ty)) (plain : expr.isPlain = true) (unquoted : expr.isUnquoted = true)
    (assigned : Assigned ctx signature env fuel ast sygusAst element expr) (range : InRange ctx env expr) :
    Agrees ctx signature env fuel ast sygusAst element expr ty ↔ expr.Printable ctx := by
  obtain ⟨_, same, rules⟩ := infer_typed expr typed
  cases same
  have supported : Supported ctx signature env fuel ast sygusAst element expr := ⟨plain, unquoted, assigned, range⟩
  constructor
  · rintro ⟨term, v, printed, denotes, evaluated⟩
    obtain ⟨s, _, sorted⟩ := denotes.sorted
    exact printable_of_read rules supported printed sorted evaluated
  · exact agrees_of_printable rules supported

/-- `<S> ::= <A> <B>` with two bits each. -/
def pairAst : Ast := [
  .prodRule "S" [.rhs [.nonterminal "A", .nonterminal "B"] []],
  .typeAnnot "A" (.bitVector 2) [],
  .typeAnnot "B" (.bitVector 2) []]

def pairTree : SygusAst := .node "s_con0" [.bvLeaf 2 [true, false], .bvLeaf 2 [false, true]]

def pairRule : Element := .prodRule "S" [.rhs [.nonterminal "A", .nonterminal "B"] []]

def pairSignature (text : String) : Option SmtSort := if text = "a" ∨ text = "b" then some (.bitVec 2) else none

def pairEnv (text : String) : Option SmtValue :=
  if text = "a" then some (.bits [true, false]) else if text = "b" then some (.bits [false, true]) else none

/-- The two nonterminals under an operator, compared with a constant. -/
def pairExpr (op : BinOperator) : Expr :=
  .compOp (.binOp (.ntExpr [] [("A", none)]) op (.ntExpr [] [("B", none)])) .eq (.bvConst 2 [false, false])

private theorem pair_assigned (op : BinOperator) :
    Assigned (buildContext pairAst) pairSignature pairEnv 0 pairAst pairTree pairRule (pairExpr op) := by
  intro context nts member
  simp only [pairExpr, Expr.occurrences, List.append_nil, List.cons_append, List.nil_append, List.mem_cons, Prod.mk.injEq,
    List.not_mem_nil, or_false] at member
  obtain ⟨rfl, rfl⟩ | ⟨rfl, rfl⟩ := member
  · exact ⟨_, .bitVector 2, .bits [true, false], rfl, by decide, rfl, rfl, by decide, by decide⟩
  · exact ⟨_, .bitVector 2, .bits [false, true], rfl, by decide, rfl, rfl, by decide, by decide⟩

/-- Whether an expression is read as an integer. -/
private def isNumber (ctx : Context) (env : String → Option SmtValue) (expr : Expr) : Bool :=
  (ppPrintExpr ctx "" expr).toOption.any fun term => (term.value env).any fun v => decide (v.sort = .int)

private theorem inRange_of_none {ctx : Context} {env : String → Option SmtValue} {expr : Expr}
    (none_ : expr.subexprs.all (fun sub => !isNumber ctx env sub) = true) : InRange ctx env expr := by
  intro sub member term v printed valued number same
  have other := List.all_eq_true.mp none_ sub member
  subst same
  simp [isNumber, printed, valued, Except.toOption, SmtValue.sort] at other

theorem pairAst_agrees_iff :
    inferTypeExpr (buildContext pairAst) .syGuS (pairExpr .bvAnd) = .ok (some .bool) ∧
      (Agrees (buildContext pairAst) pairSignature pairEnv 0 pairAst pairTree pairRule (pairExpr .bvAnd) .bool ↔
        (pairExpr .bvAnd).Printable (buildContext pairAst)) := by
  have typed : inferTypeExpr (buildContext pairAst) .syGuS (pairExpr .bvAnd) = .ok (some .bool) := by decide
  exact ⟨typed, ppPrintExpr_agrees_iff _ _ _ _ _ _ _ _ _ typed rfl rfl (pair_assigned .bvAnd) (inRange_of_none (by decide))⟩

/-- Exclusive or of bit vectors is printed with operators of truth values, and no sort fits. -/
theorem bvxor_printed_ill_sorted :
    inferTypeExpr (buildContext pairAst) .syGuS (pairExpr .bvXor) = .ok (some .bool) ∧ (pairExpr .bvXor).isPlain = true ∧
      Assigned (buildContext pairAst) pairSignature pairEnv 0 pairAst pairTree pairRule (pairExpr .bvXor) ∧
      ¬Agrees (buildContext pairAst) pairSignature pairEnv 0 pairAst pairTree pairRule (pairExpr .bvXor) .bool := by
  refine ⟨by decide, rfl, pair_assigned .bvXor, ?_⟩
  rintro ⟨term, v, printed, denotes, _⟩
  obtain ⟨s, _, sorted⟩ := denotes.sorted
  cases printed
  have none_ : (SmtTerm.app2 .or (.name "a") (.name "b")).sort pairSignature = none := by decide
  obtain ⟨_, _, left, _, _⟩ := app2_sort sorted
  obtain ⟨_, _, left, _, _⟩ := app2_sort left
  cases none_.symm.trans left

end Agreement

end LtlFuzz.PacketGen

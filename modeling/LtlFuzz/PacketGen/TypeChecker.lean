import LtlFuzz.Logic.Run
import LtlFuzz.PacketGen.Ast

/-! `typeChecker.ml`: the type of every expression is inferred. In a constraint all types must
fit; in a dependency some that do not only bring a warning. -/

namespace LtlFuzz.PacketGen
open Logic (bind_ok)

section Text

def UnaryOperator.print : UnaryOperator → String
  | .uPlus => "+"
  | .uMinus => "-"
  | .lNot => "lnot"
  | .bvNot => "bvnot"

def BinOperator.print : BinOperator → String
  | .bvAnd => "bvand"
  | .bvOr => "bvor"
  | .bvXor => "bvxor"
  | .glAnd => "land"
  | .lAnd => "land"
  | .lOr => "lor"
  | .lXor => "lxor"
  | .lImplies => "=>"
  | .plus => "+"
  | .minus => "-"
  | .times => "*"
  | .div => "/"
  | .strConcat => "str.++"

def CompOperator.print : CompOperator → String
  | .lt => "<"
  | .lte => "<="
  | .gt => ">"
  | .gte => ">="
  | .eq => "="
  | .bvLt => "bvlt"
  | .bvLte => "bvlte"
  | .bvGt => "bvgt"
  | .bvGte => "bvgte"
  | .strPrefix => "str.prefixof"

/-- A nonterminal with its index, if it has one. -/
def ntWithIndex (nt : String × Option Nat) : String := nt.1 ++ (nt.2.map fun index => toString index).getD ""

def ntWithUnderscores (nts : Reference) : String := "<" ++ "_".intercalate (nts.map ntWithIndex) ++ ">"

def printBits (bits : List Bool) : String := String.ofList (bits.map fun bit => if bit then '1' else '0')

def printPattern (pattern : List (Reference × (String × Option Nat))) : String :=
  " ".intercalate (pattern.map fun entry => ntWithUnderscores (entry.1 ++ [entry.2]))

mutual

/-- `Ast.pp_print_expr`, the text of an expression in a message. -/
def Expr.print : Expr → String
  | .binOp left op right => "(" ++ left.print ++ " " ++ op.print ++ " " ++ right.print ++ ")"
  | .unOp op expr => "(" ++ op.print ++ " " ++ expr.print ++ ")"
  | .compOp left op right => "(" ++ left.print ++ " " ++ op.print ++ " " ++ right.print ++ ")"
  | .strLength expr => "str_length(" ++ expr.print ++ ")"
  | .length expr => "length(" ++ expr.print ++ ")"
  | .bvCast len expr => "int_to_bitvector(" ++ toString len ++ ", " ++ expr.print ++ ")"
  | .matching context nt cases => "(match " ++ ntWithUnderscores (context ++ [nt]) ++ " with " ++ cases.print ++ ")"
  | .ntExpr context [nt] => ntWithUnderscores (context ++ [nt])
  | .ntExpr [] nts => ntWithDots nts
  | .ntExpr context nts => ntWithUnderscores context ++ ":" ++ ntWithDots nts
  | .blConst bits => "(BitList 0b" ++ printBits bits ++ ")"
  | .bvConst _ bits => "0b" ++ printBits bits
  | .bConst value => toString value
  | .intConst value => toString value
  | .phConst name => name.quote
  | .strConst text => text

def Cases.print : Cases → String
  | .nil => ""
  | .case pattern expr .nil => "| " ++ printPattern pattern ++ " -> " ++ expr.print
  | .caseStub pattern .nil => "| " ++ printPattern pattern ++ " -> STUB"
  | .case pattern expr rest => "| " ++ printPattern pattern ++ " -> " ++ expr.print ++ " " ++ rest.print
  | .caseStub pattern rest => "| " ++ printPattern pattern ++ " -> STUB " ++ rest.print

end

def IlType.print : IlType → String
  | .bool => "Bool"
  | .int => "Int"
  | .placeholder => "Placeholder"
  | .string => "String"
  | .bitList => "BitList"
  | .bitVector width => "BitVector(" ++ toString width ++ ")"
  | .adt rules => "ADT: " ++ "; ".intercalate (rules.map fun rule => " ".intercalate rule)

end Text

section Inference

abbrev Context := List (String × IlType)

/-- Whether an expression is a constraint or computes a dependent term. -/
inductive Mode where
  | syGuS
  | dep
  deriving DecidableEq, Repr

def rhsOptions : ProdRuleRhs → List String
  | .rhs ges _ => ges.map fun ge =>
    match ge with
    | .nonterminal nt => nt
    | .stubbedNonterminal nt _ => nt
  | .stubbedRhs _ => []

def contextEntry : Element → String × IlType
  | .prodRule nt rhss => (nt, .adt (rhss.map rhsOptions))
  | .typeAnnot nt ty _ => (nt, ty)

/-- The last entry of a nonterminal counts. -/
def buildContext (ast : Ast) : Context := (ast.map contextEntry).reverse

/-- A warning in a dependency does not stop the checks. -/
def typeCheckerError (mode : Mode) (message : String) : Except Fault Unit :=
  match mode with
  | .syGuS => .error (.userError message)
  | .dep => .ok ()

def mistyped {α : Type} (expr : Expr) (inferred expected : String) : Except Fault α :=
  .error (.userError
    ("Type checking error: expression " ++ expr.print ++ " has type " ++ inferred ++ " but has expected type " ++ expected))

/-- The comparison of `check_type_expr`; where nothing was inferred there was a warning. -/
def checkInferred (expr : Expr) (expected : IlType) : Option IlType → Except Fault Unit
  | none => .ok ()
  | some inferred => if inferred = expected then .ok () else mistyped expr inferred.print expected.print

/-- Both operands are bit vectors of one length. -/
def inferBits (whole expr1 expr2 : Expr) (result : Nat → IlType) : Option IlType → Option IlType → Except Fault (Option IlType)
  | some (.bitVector len1), some (.bitVector len2) =>
    if len1 = len2 then .ok (some (result len1))
    else .error (.userError ("Type checking error: BitVector operation " ++ whole.print ++ " has one operand of type " ++
      (IlType.bitVector len1).print ++ " and another of type " ++ (IlType.bitVector len2).print))
  | some (.bitVector len), some ty => mistyped expr2 ty.print (IlType.bitVector len).print
  | some ty, some (.bitVector len) => mistyped expr1 ty.print (IlType.bitVector len).print
  | some ty, _ => mistyped expr1 ty.print "BitVector"
  | none, _ => .ok none

def inferEq (whole : Expr) : Option IlType → Option IlType → Except Fault (Option IlType)
  | some ty1, some ty2 =>
    if ty1 = ty2 then .ok (some .bool)
    else .error (.userError ("Type checking error: expression " ++ whole.print ++ " has one operand of type " ++ ty1.print ++
      " and another operand of type " ++ ty2.print))
  | _, _ => .ok none

def lengthError (expr : Expr) (ty : IlType) : String :=
  "Type checking error: Input to length function " ++ expr.print ++ " has type " ++ ty.print ++
    " but must have type Int or BitVector"

def inferLength (mode : Mode) (expr : Expr) : Option IlType → Except Fault (Option IlType)
  | some .bitList => .ok (some .int)
  | some (.bitVector _) => .ok (some .int)
  | some (.adt rules) => do
    typeCheckerError mode (lengthError expr (.adt rules))
    .ok (some .int)
  | some ty => .error (.userError (lengthError expr ty))
  | none => .ok none

def inferNt (ctx : Context) (mode : Mode) (nts : Reference) : Except Fault (Option IlType) :=
  match nts.getLast? with
  | none => .error (.failure "hd")
  | some nt =>
    match ctx.lookup nt.1 with
    | none => .error .notFound
    | some (.adt _) => do
      typeCheckerError mode ("Type checking error: Nonterminal '" ++ nt.1 ++
        "' has a composite type, but is used in some operation that requires a primitive type")
      .ok none
    | some ty => .ok (some ty)

def inferBvNot (expr : Expr) : Option IlType → Except Fault (Option IlType)
  | some (.bitVector len) => .ok (some (.bitVector len))
  | some ty => mistyped expr ty.print IlType.int.print
  | none => .ok none

/-- The type that both operands must have, and the type of the result. -/
def BinOperator.operands : BinOperator → Option (IlType × IlType)
  | .bvAnd | .bvOr | .bvXor => none
  | .glAnd | .lAnd | .lOr | .lXor | .lImplies => some (.bool, .bool)
  | .plus | .minus | .times | .div => some (.int, .int)
  | .strConcat => some (.string, .string)

def CompOperator.operands : CompOperator → Option (IlType × IlType)
  | .lt | .lte | .gt | .gte => some (.int, .bool)
  | .strPrefix => some (.string, .bool)
  | .bvLt | .bvLte | .bvGt | .bvGte | .eq => none

def inferTypeExpr (ctx : Context) (mode : Mode) : Expr → Except Fault (Option IlType)
  | .ntExpr _ nts => inferNt ctx mode nts
  | .unOp .uPlus expr => do
    checkInferred expr .int (← inferTypeExpr ctx mode expr)
    .ok (some .int)
  | .unOp .uMinus expr => do
    checkInferred expr .int (← inferTypeExpr ctx mode expr)
    .ok (some .int)
  | .unOp .lNot expr => do
    checkInferred expr .bool (← inferTypeExpr ctx mode expr)
    .ok (some .bool)
  | .unOp .bvNot expr => do inferBvNot expr (← inferTypeExpr ctx mode expr)
  | .strLength expr => do
    checkInferred expr .string (← inferTypeExpr ctx mode expr)
    .ok (some .int)
  | .binOp expr1 op expr2 => do
    let ty1 ← inferTypeExpr ctx mode expr1
    match op.operands with
    | none => inferBits (.binOp expr1 op expr2) expr1 expr2 .bitVector ty1 (← inferTypeExpr ctx mode expr2)
    | some (expected, result) =>
      checkInferred expr1 expected ty1
      checkInferred expr2 expected (← inferTypeExpr ctx mode expr2)
      .ok (some result)
  | .compOp expr1 op expr2 => do
    let ty1 ← inferTypeExpr ctx mode expr1
    match op.operands with
    | none =>
      let ty2 ← inferTypeExpr ctx mode expr2
      if op = .eq then inferEq (.compOp expr1 op expr2) ty1 ty2
      else inferBits (.compOp expr1 op expr2) expr1 expr2 (fun _ => .bool) ty1 ty2
    | some (expected, result) =>
      checkInferred expr1 expected ty1
      checkInferred expr2 expected (← inferTypeExpr ctx mode expr2)
      .ok (some result)
  | .matching _ _ _ => .error .assertFailure
  | .length expr => do inferLength mode expr (← inferTypeExpr ctx mode expr)
  | .bvCast len expr => do
    checkInferred expr .int (← inferTypeExpr ctx mode expr)
    .ok (some (.bitVector len))
  | .bvConst len bits =>
    if len ≠ bits.length then
      .error (.userError ("Type checking error: BitVector constant with expected length " ++ toString len ++
        " has actual length " ++ toString bits.length))
    else .ok (some (.bitVector len))
  | .blConst _ => .ok (some .bitList)
  | .bConst _ => .ok (some .bool)
  | .intConst _ => .ok (some .int)
  | .strConst _ => .ok (some .string)
  | .phConst _ =>
    if mode = .dep then .ok (some .placeholder)
    else .error (.userError "String constants can only be in dependencies (of the form 'nonterminal <- string_literal')")

def checkTypeExpr (ctx : Context) (mode : Mode) (expected : IlType) (expr : Expr) : Except Fault Expr := do
  checkInferred expr expected (← inferTypeExpr ctx mode expr)
  .ok expr

def checkConstraint (ctx : Context) : SemanticConstraint → Except Fault SemanticConstraint
  | .dependency nt expr =>
    match ctx.lookup nt with
    | none => .error (.userError "Dependency LHS must be a nonterminal with a primitive (non-inductive) type")
    | some expected => do .ok (.dependency nt (← checkTypeExpr ctx .dep expected expr))
  | .syGuSExpr expr => do .ok (.syGuSExpr (← checkTypeExpr ctx .syGuS .bool expr))

def checkProdRhs (ctx : Context) : ProdRuleRhs → Except Fault ProdRuleRhs
  | .rhs ges scs => do .ok (.rhs ges (← scs.mapM (checkConstraint ctx)))
  | .stubbedRhs _ => .error .assertFailure

def checkElement (ctx : Context) : Element → Except Fault Element
  | .prodRule nt rhss => do .ok (.prodRule nt (← rhss.mapM (checkProdRhs ctx)))
  | .typeAnnot nt ty scs => do .ok (.typeAnnot nt ty (← scs.mapM (checkConstraint ctx)))

def checkTypes (ctx : Context) (ast : Ast) : Except Fault Ast := ast.mapM (checkElement ctx)

end Inference

section Typing

def UnaryOperator.type : UnaryOperator → IlType → Option IlType
  | .uPlus, .int => some .int
  | .uMinus, .int => some .int
  | .lNot, .bool => some .bool
  | .bvNot, .bitVector len => some (.bitVector len)
  | _, _ => none

/-- Bit vectors of one length. -/
def bitsType (result : Nat → IlType) : IlType → IlType → Option IlType
  | .bitVector len1, .bitVector len2 => if len1 = len2 then some (result len1) else none
  | _, _ => none

def BinOperator.type (op : BinOperator) (ty1 ty2 : IlType) : Option IlType :=
  match op.operands with
  | some (expected, result) => if ty1 = expected ∧ ty2 = expected then some result else none
  | none => bitsType .bitVector ty1 ty2

def CompOperator.type (op : CompOperator) (ty1 ty2 : IlType) : Option IlType :=
  match op.operands with
  | some (expected, result) => if ty1 = expected ∧ ty2 = expected then some result else none
  | none =>
    if op = .eq then if ty1 = ty2 then some .bool else none
    else bitsType (fun _ => .bool) ty1 ty2

/-- The typing rules of constraints. -/
inductive Typed (ctx : Context) : Expr → IlType → Prop where
  | ntExpr {context nts nt ty} (last : nts.getLast? = some nt) (known : ctx.lookup nt.1 = some ty)
    (primitive : ∀ rules, ty ≠ .adt rules) : Typed ctx (.ntExpr context nts) ty
  | unOp {op expr ty result} (operand : Typed ctx expr ty) (fits : op.type ty = some result) :
    Typed ctx (.unOp op expr) result
  | binOp {op expr1 expr2 ty1 ty2 result} (left : Typed ctx expr1 ty1) (right : Typed ctx expr2 ty2)
    (fits : op.type ty1 ty2 = some result) : Typed ctx (.binOp expr1 op expr2) result
  | compOp {op expr1 expr2 ty1 ty2 result} (left : Typed ctx expr1 ty1) (right : Typed ctx expr2 ty2)
    (fits : op.type ty1 ty2 = some result) : Typed ctx (.compOp expr1 op expr2) result
  | strLength {expr} (operand : Typed ctx expr .string) : Typed ctx (.strLength expr) .int
  | bitListLength {expr} (operand : Typed ctx expr .bitList) : Typed ctx (.length expr) .int
  | bitVectorLength {expr len} (operand : Typed ctx expr (.bitVector len)) : Typed ctx (.length expr) .int
  | bvCast {len expr} (operand : Typed ctx expr .int) : Typed ctx (.bvCast len expr) (.bitVector len)
  | bvConst {bits} : Typed ctx (.bvConst bits.length bits) (.bitVector bits.length)
  | blConst {bits} : Typed ctx (.blConst bits) .bitList
  | bConst {value} : Typed ctx (.bConst value) .bool
  | intConst {value} : Typed ctx (.intConst value) .int
  | strConst {text} : Typed ctx (.strConst text) .string

private theorem checkInferred_ok {expr : Expr} {expected ty : IlType} (checked : checkInferred expr expected (some ty) = .ok ()) :
    ty = expected := by
  simp only [checkInferred, mistyped] at checked
  split at checked
  · assumption
  · cases checked

private theorem checkInferred_then {expr : Expr} {expected ty result : IlType} {inferred : Option IlType}
    (checked : (checkInferred expr expected (some ty) >>= fun _ => .ok (some result)) = .ok inferred) :
    ty = expected ∧ inferred = some result := by
  obtain ⟨_, fits, done⟩ := bind_ok checked
  exact ⟨checkInferred_ok fits, (Except.ok.inj done).symm⟩

private theorem inferBits_ok {whole expr1 expr2 : Expr} {result : Nat → IlType} {ty1 ty2 : IlType} {inferred : Option IlType}
    (checked : inferBits whole expr1 expr2 result (some ty1) (some ty2) = .ok inferred) :
    ∃ len, ty1 = .bitVector len ∧ ty2 = .bitVector len ∧ inferred = some (result len) := by
  cases ty1 <;> cases ty2 <;> simp only [inferBits, mistyped, reduceCtorEq] at checked
  rename_i len1 len2
  split at checked
  · rename_i same
    cases checked
    exact ⟨len1, rfl, by rw [same], rfl⟩
  · cases checked

private theorem inferEq_ok {whole : Expr} {ty1 ty2 : IlType} {inferred : Option IlType}
    (checked : inferEq whole (some ty1) (some ty2) = .ok inferred) : ty1 = ty2 ∧ inferred = some .bool := by
  simp only [inferEq] at checked
  split at checked
  · rename_i same
    cases checked
    exact ⟨same, rfl⟩
  · cases checked

/-- In a constraint a type is inferred only by the typing rules. -/
theorem infer_typed {ctx : Context} (expr : Expr) {inferred : Option IlType}
    (checked : inferTypeExpr ctx .syGuS expr = .ok inferred) : ∃ ty, inferred = some ty ∧ Typed ctx expr ty := by
  match expr with
  | .ntExpr context nts =>
    simp only [inferTypeExpr, inferNt] at checked
    cases last : nts.getLast? with
    | none => simp [last] at checked
    | some nt =>
      simp only [last] at checked
      cases known : ctx.lookup nt.1 with
      | none => simp [known] at checked
      | some ty =>
        cases ty <;> simp only [known] at checked <;> cases checked <;> exact ⟨_, rfl, .ntExpr last known (by simp)⟩
  | .unOp op expr =>
    cases op <;> obtain ⟨first, inner, checked⟩ := bind_ok checked <;> obtain ⟨ty, rfl, typed⟩ := infer_typed expr inner
    · obtain ⟨rfl, rfl⟩ := checkInferred_then checked
      exact ⟨_, rfl, .unOp typed rfl⟩
    · obtain ⟨rfl, rfl⟩ := checkInferred_then checked
      exact ⟨_, rfl, .unOp typed rfl⟩
    · obtain ⟨rfl, rfl⟩ := checkInferred_then checked
      exact ⟨_, rfl, .unOp typed rfl⟩
    · cases ty <;> cases checked
      exact ⟨_, rfl, .unOp typed rfl⟩
  | .strLength expr =>
    obtain ⟨first, inner, checked⟩ := bind_ok checked
    obtain ⟨ty, rfl, typed⟩ := infer_typed expr inner
    obtain ⟨rfl, rfl⟩ := checkInferred_then checked
    exact ⟨_, rfl, .strLength typed⟩
  | .binOp expr1 op expr2 =>
    obtain ⟨first, inner1, checked⟩ := bind_ok checked
    obtain ⟨ty1, rfl, typed1⟩ := infer_typed expr1 inner1
    cases operands : op.operands with
    | none =>
      simp only [operands] at checked
      obtain ⟨second, inner2, checked⟩ := bind_ok checked
      obtain ⟨ty2, rfl, typed2⟩ := infer_typed expr2 inner2
      obtain ⟨len, rfl, rfl, rfl⟩ := inferBits_ok checked
      exact ⟨_, rfl, .binOp typed1 typed2 (by simp [BinOperator.type, operands, bitsType])⟩
    | some types =>
      obtain ⟨expected, result⟩ := types
      simp only [operands] at checked
      obtain ⟨_, fits1, checked⟩ := bind_ok checked
      obtain ⟨second, inner2, checked⟩ := bind_ok checked
      obtain ⟨ty2, rfl, typed2⟩ := infer_typed expr2 inner2
      obtain ⟨rfl, rfl⟩ := checkInferred_then checked
      cases checkInferred_ok fits1
      exact ⟨_, rfl, .binOp typed1 typed2 (by simp [BinOperator.type, operands])⟩
  | .compOp expr1 op expr2 =>
    obtain ⟨first, inner1, checked⟩ := bind_ok checked
    obtain ⟨ty1, rfl, typed1⟩ := infer_typed expr1 inner1
    cases operands : op.operands with
    | none =>
      simp only [operands] at checked
      obtain ⟨second, inner2, checked⟩ := bind_ok checked
      obtain ⟨ty2, rfl, typed2⟩ := infer_typed expr2 inner2
      by_cases equality : op = .eq
      · rw [if_pos equality] at checked
        obtain ⟨rfl, rfl⟩ := inferEq_ok checked
        exact ⟨_, rfl, .compOp typed1 typed2 (by simp only [CompOperator.type, operands]; rw [if_pos equality, if_pos True.intro])⟩
      · rw [if_neg equality] at checked
        obtain ⟨len, rfl, rfl, rfl⟩ := inferBits_ok checked
        exact ⟨_, rfl, .compOp typed1 typed2 (by simp [CompOperator.type, operands, equality, bitsType])⟩
    | some types =>
      obtain ⟨expected, result⟩ := types
      simp only [operands] at checked
      obtain ⟨_, fits1, checked⟩ := bind_ok checked
      obtain ⟨second, inner2, checked⟩ := bind_ok checked
      obtain ⟨ty2, rfl, typed2⟩ := infer_typed expr2 inner2
      obtain ⟨rfl, rfl⟩ := checkInferred_then checked
      cases checkInferred_ok fits1
      exact ⟨_, rfl, .compOp typed1 typed2 (by simp [CompOperator.type, operands])⟩
  | .length expr =>
    obtain ⟨first, inner, checked⟩ := bind_ok checked
    obtain ⟨ty, rfl, typed⟩ := infer_typed expr inner
    cases ty <;> cases checked
    · exact ⟨_, rfl, .bitVectorLength typed⟩
    · exact ⟨_, rfl, .bitListLength typed⟩
  | .bvCast len expr =>
    obtain ⟨first, inner, checked⟩ := bind_ok checked
    obtain ⟨ty, rfl, typed⟩ := infer_typed expr inner
    obtain ⟨rfl, rfl⟩ := checkInferred_then checked
    exact ⟨_, rfl, .bvCast typed⟩
  | .bvConst len bits =>
    simp only [inferTypeExpr] at checked
    split at checked
    · cases checked
    · rename_i same
      cases checked
      cases not_not.mp same
      exact ⟨_, rfl, .bvConst⟩
  | .matching context nt cases => cases checked
  | .phConst name => cases checked
  | .blConst bits =>
    cases checked
    exact ⟨_, rfl, .blConst⟩
  | .bConst value =>
    cases checked
    exact ⟨_, rfl, .bConst⟩
  | .intConst value =>
    cases checked
    exact ⟨_, rfl, .intConst⟩
  | .strConst text =>
    cases checked
    exact ⟨_, rfl, .strConst⟩

theorem bitsType_some {result : Nat → IlType} {ty1 ty2 ty : IlType} (fits : bitsType result ty1 ty2 = some ty) :
    ∃ len, ty1 = .bitVector len ∧ ty2 = .bitVector len ∧ ty = result len := by
  cases ty1 <;> cases ty2 <;> simp only [bitsType, reduceCtorEq, Option.ite_none_right_eq_some] at fits
  obtain ⟨rfl, same⟩ := fits
  exact ⟨_, rfl, rfl, (Option.some.inj same).symm⟩

/-- The typing rules give the type that is inferred. -/
theorem Typed.infer {ctx : Context} {expr : Expr} {ty : IlType} (typed : Typed ctx expr ty) :
    inferTypeExpr ctx .syGuS expr = .ok (some ty) := by
  induction typed with
  | @ntExpr context nts nt ty last known primitive =>
    cases ty with
    | adt rules => exact absurd rfl (primitive rules)
    | _ => simp only [inferTypeExpr, inferNt, last, known]
  | @unOp op expr ty result _ fits ih =>
    cases op <;> cases ty <;> cases fits <;> rw [inferTypeExpr, ih] <;> rfl
  | @binOp op expr1 expr2 ty1 ty2 result _ _ fits ih1 ih2 =>
    rw [inferTypeExpr, ih1, ih2]
    cases operands : op.operands with
    | none =>
      simp only [BinOperator.type, operands] at fits
      obtain ⟨len, rfl, rfl, rfl⟩ := bitsType_some fits
      exact if_pos rfl
    | some types =>
      simp only [BinOperator.type, operands, Option.ite_none_right_eq_some] at fits
      obtain ⟨⟨rfl, rfl⟩, same⟩ := fits
      simp [checkInferred, bind, Except.bind, ← same]
  | @compOp op expr1 expr2 ty1 ty2 result _ _ fits ih1 ih2 =>
    rw [inferTypeExpr, ih1, ih2]
    cases operands : op.operands with
    | none =>
      simp only [CompOperator.type, operands] at fits
      by_cases equality : op = .eq
      · rw [if_pos equality, Option.ite_none_right_eq_some] at fits
        obtain ⟨rfl, same⟩ := fits
        cases same
        simp [bind, Except.bind, equality, inferEq]
      · rw [if_neg equality] at fits
        obtain ⟨len, rfl, rfl, rfl⟩ := bitsType_some fits
        simp [bind, Except.bind, equality, inferBits]
    | some types =>
      simp only [CompOperator.type, operands, Option.ite_none_right_eq_some] at fits
      obtain ⟨⟨rfl, rfl⟩, same⟩ := fits
      simp [checkInferred, bind, Except.bind, ← same]
  | strLength _ ih =>
    rw [inferTypeExpr, ih]
    rfl
  | bitListLength _ ih =>
    rw [inferTypeExpr, ih]
    rfl
  | bitVectorLength _ ih =>
    rw [inferTypeExpr, ih]
    rfl
  | bvCast _ ih =>
    rw [inferTypeExpr, ih]
    rfl
  | bvConst => simp [inferTypeExpr]
  | blConst => rfl
  | bConst => rfl
  | intConst => rfl
  | strConst => rfl

theorem Typed.unique {ctx : Context} {expr : Expr} {ty other : IlType} (typed : Typed ctx expr ty)
    (again : Typed ctx expr other) : ty = other :=
  Option.some.inj (Except.ok.inj (typed.infer.symm.trans again.infer))

end Typing

end LtlFuzz.PacketGen

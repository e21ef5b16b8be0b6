import LtlFuzz.Logic.SmtTerm
import LtlFuzz.PacketGen.ComputeDeps
import LtlFuzz.PacketGen.TypeChecker

/-! `sygus.ml`: constraints are printed for the solver. -/

namespace LtlFuzz.PacketGen
open Logic

section Printer

def ppPrintUnop (op : UnaryOperator) (arg : SmtTerm) : SmtTerm :=
  match op with
  | .uPlus => .paren arg
  | .uMinus => .app1 .minus arg
  | .lNot => .app1 .not arg
  | .bvNot => .app1 .bvnot arg

def ppPrintBinop : BinOperator → Except Fault SmtSymbol
  | .bvAnd => .ok .bvand
  | .bvOr => .ok .bvor
  | .bvXor => .error (.internalError "Should not reach this case in pp_print_binop")
  | .glAnd => .ok .and
  | .lAnd => .ok .and
  | .lOr => .ok .or
  | .lXor => .ok .xor
  | .lImplies => .ok .implies
  | .plus => .ok .plus
  | .minus => .ok .minus
  | .times => .ok .times
  | .div => .ok .slash
  | .strConcat => .ok .strConcat

def ppPrintCompop : CompOperator → Except Fault SmtSymbol
  | .lt => .ok .lt
  | .lte => .ok .le
  | .gt => .ok .gt
  | .gte => .ok .ge
  | .eq => .ok .eq
  | _ => .error .assertFailure

/-- Exclusive or of bit vectors is printed with the operators of truth values. -/
def ppPrintBinopTerm (op : BinOperator) (term1 term2 : SmtTerm) : Except Fault SmtTerm :=
  if op = .bvXor then .ok (.app2 .and (.app2 .or term1 term2) (.app1 .not (.app2 .and term1 term2)))
  else do .ok (.app2 (← ppPrintBinop op) term1 term2)

def ppPrintCompopTerm (op : CompOperator) (term1 term2 : SmtTerm) : Except Fault SmtTerm :=
  match op with
  | .bvLt => .ok (.app2 .bvult term1 term2)
  | .bvLte => .ok (.app2 .or (.app2 .bvult term1 term2) (.app2 .eq term1 term2))
  | .bvGt => .ok (.app2 .bvult term2 term1)
  | .bvGte => .ok (.app2 .or (.app2 .bvult term2 term1) (.app2 .eq term2 term1))
  | .strPrefix => .ok (.app2 .strPrefixof term1 term2)
  | op => do .ok (.app2 (← ppPrintCompop op) term1 term2)

/-- The variable of a reference. -/
def ntVariable (nts : Reference) : String := "_".intercalate (nts.map fun nt => lowercaseAscii (ntWithIndex nt))

/-- The right-hand sides of a composite nonterminal. -/
def adtCases (ctx : Context) (nt : String) : Except Fault (List (List String)) :=
  match ctx.lookup nt with
  | none => .error .notFound
  | some (.adt rules) => .ok rules
  | some _ => .error (.internalError "sygus.ml (pp_print_match)")

def ruleIndex (rules : List (List String)) (pattern : List (Reference × (String × Option Nat))) : Except Fault Nat :=
  match rules.findIdx? fun rule => pattern.map (fun entry => entry.2.1) = rule with
  | none => .error .notFound
  | some index => .ok index

def binderNames (pattern : List (Reference × (String × Option Nat))) : List String :=
  pattern.map fun entry => ntVariable (entry.1 ++ [entry.2])

mutual

/-- The prefix is only used by `dpll.ml`, and not under a `match`. -/
def ppPrintExpr (ctx : Context) (ntPrefix : String) : Expr → Except Fault SmtTerm
  | .ntExpr _ [] => .error (.failure "tl")
  | .ntExpr context nts =>
    .ok (.name ((if ntPrefix = "" then "" else ntPrefix ++ "_") ++ ntVariable (context ++ nts)))
  | .matching context nt cases => do
    let rules ← adtCases ctx nt.1
    .ok (.matching (ntVariable (context ++ [nt])) (← ppPrintOptions ctx nt.1 rules cases))
  | .binOp expr1 op expr2 => do
    let term1 ← ppPrintExpr ctx ntPrefix expr1
    let term2 ← ppPrintExpr ctx ntPrefix expr2
    ppPrintBinopTerm op term1 term2
  | .compOp expr1 op expr2 => do
    let term1 ← ppPrintExpr ctx ntPrefix expr1
    let term2 ← ppPrintExpr ctx ntPrefix expr2
    ppPrintCompopTerm op term1 term2
  | .unOp op expr => do .ok (ppPrintUnop op (← ppPrintExpr ctx ntPrefix expr))
  | .strLength expr => do .ok (.app1 .strLen (← ppPrintExpr ctx ntPrefix expr))
  | .length expr => do .ok (.app1 .seqLen (← ppPrintExpr ctx ntPrefix expr))
  | .bvConst _ bits => .ok (.binary bits)
  | .bConst value => .ok (.truth value)
  | .intConst value => .ok (.numeral value)
  | .strConst text => .ok (.name text)
  | .phConst _ =>
    .error (.internalError "Error: String constants can only be in dependencies (of the form 'nonterminal <- string_literal')")
  | .blConst _ => .error (.internalError "BitList literals not yet fully supported")
  | .bvCast _ _ =>
    .error (.internalError
      "Integer to bitvector casts in semantic constraints that aren't preprocessable are not supported")

def ppPrintOptions (ctx : Context) (nt : String) (rules : List (List String)) : Cases → Except Fault SmtCases
  | .nil => .ok .nil
  | .case pattern expr rest => do
    let index ← ruleIndex rules pattern
    let body ← ppPrintExpr ctx "" expr
    .ok (.case (lowercaseAscii nt ++ "_con" ++ toString index) (binderNames pattern) body (← ppPrintOptions ctx nt rules rest))
  | .caseStub pattern rest => do
    let index ← ruleIndex rules pattern
    .ok (.case (lowercaseAscii nt ++ "_con" ++ toString index) (binderNames pattern) (.truth true)
      (← ppPrintOptions ctx nt rules rest))

end

end Printer

end LtlFuzz.PacketGen

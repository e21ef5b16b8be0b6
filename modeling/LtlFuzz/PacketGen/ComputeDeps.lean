import LtlFuzz.PacketGen.Ast
import Mathlib

/-! `computeDeps.ml`: expressions are evaluated on the tree of a packet, and dependent terms are
filled in with the values of their expressions. An evaluation yields a list of constants, one for
every leaf of a composite term. -/

namespace LtlFuzz.PacketGen

section Names

def lowercaseAscii (text : String) : String := String.ofList (text.toList.map Char.toLower)

def uppercaseAscii (text : String) : String := String.ofList (text.toList.map Char.toUpper)

/-- What stands before `_con[0-9]*` at the end of a name. -/
def beforeCon (input : String) : Option String :=
  match input.toList.reverse.dropWhile Char.isDigit with
  | 'n' :: 'o' :: 'c' :: '_' :: rest => some (String.ofList rest.reverse)
  | _ => none

def removeSuffix (input : String) : String := uppercaseAscii ((beforeCon input).getD input)

/-- What stands before the last `_con`, read from the end. -/
def beforeLastCon : List Char → Option (List Char)
  | [] => none
  | 'n' :: 'o' :: 'c' :: '_' :: rest => some rest
  | _ :: rest => beforeLastCon rest

def processConstructorStr (input : String) : Except Fault String :=
  match beforeLastCon input.toList.reverse with
  | some rest => .ok (uppercaseAscii (String.ofList rest.reverse))
  | none =>
    .error (.internalError "Interal error (process_constructor_str): Input string does not match the required format")

/-- `_stub[0-9]+_` at the beginning of a name goes away. -/
def removeStub (input : String) : String :=
  match input.toList with
  | '_' :: 's' :: 't' :: 'u' :: 'b' :: digit :: rest =>
    if digit.isDigit then
      match rest.dropWhile Char.isDigit with
      | '_' :: name => String.ofList name
      | _ => input
    else input
  | _ => input

end Names

section Operators

def evalFail (index : Nat) : Except Fault (List Expr) := .error (.internalError ("evaluation error #" ++ toString index))

/-- A native integer has 63 bits. -/
def wrap (value : Int) : Int := value.bmod (2 ^ 63)

def compareBits : List Bool → List Bool → Except Fault Bool
  | [], [] => .ok false
  | b1 :: t1, b2 :: t2 => if b1 = b2 then compareBits t1 t2 else .ok (decide (b1 < b2))
  | _, _ => .error (.internalError "Evaluator error: Bit vector operands must be of equal length")

def bvult (bv1 bv2 : List Bool) : Except Fault Bool :=
  if bv1.length ≠ bv2.length then .error (.internalError "Evaluator error: Bit vector operands must be of equal length")
  else compareBits bv1 bv2

def map2 (f : Bool → Bool → Bool) : List Bool → List Bool → Except Fault (List Bool)
  | [], [] => .ok []
  | b1 :: t1, b2 :: t2 => do .ok (f b1 b2 :: (← map2 f t1 t2))
  | _, _ => .error (.invalidArgument "List.map2")

def toBits (acc : List Bool) : Nat → Nat → List Bool
  | 0, _ => acc
  | len + 1, n => toBits (decide (n % 2 = 1) :: acc) len (n / 2)

/-- `il_int_to_bitvector`: too large a number becomes the largest one. -/
def ilIntToBitvector (length : Nat) (n : Int) : Expr :=
  if n ≥ wrap (2 ^ length) then .bvConst length (List.replicate length true)
  else .bvConst length (toBits [] length (n % 2 ^ 63).toNat)

def evalUnOp : UnaryOperator → List Expr → Except Fault (List Expr)
  | .uPlus, [.intConst i] => .ok [.intConst i]
  | .uPlus, _ => evalFail 6
  | .uMinus, [.intConst i] => .ok [.intConst (wrap (-1 * i))]
  | .uMinus, _ => evalFail 7
  | .lNot, [.bConst b] => .ok [.bConst (!b)]
  | .lNot, _ => evalFail 8
  | .bvNot, [.bvConst len bits] => .ok [.bvConst len (bits.map not)]
  | .bvNot, _ => evalFail 9

def evalBits (f : Bool → Bool → Bool) (index : Nat) : List Expr → List Expr → Except Fault (List Expr)
  | [.bvConst len bv1], [.bvConst _ bv2] => do .ok [.bvConst len (← map2 f bv1 bv2)]
  | _, _ => evalFail index

def evalLogic (f : Bool → Bool → Bool) (index : Nat) : List Expr → List Expr → Except Fault (List Expr)
  | [.bConst b1], [.bConst b2] => .ok [.bConst (f b1 b2)]
  | _, _ => evalFail index

def evalArith (f : Int → Int → Except Fault Int) (index : Nat) : List Expr → List Expr → Except Fault (List Expr)
  | [.intConst i1], [.intConst i2] => do .ok [.intConst (wrap (← f i1 i2))]
  | _, _ => evalFail index

def evalBinOp : BinOperator → List Expr → List Expr → Except Fault (List Expr)
  | .bvAnd => evalBits and 10
  | .bvOr => evalBits or 11
  | .bvXor => evalBits (fun a b => (a || b) && !(a && b)) 12
  | .glAnd => evalLogic and 13
  | .lAnd => evalLogic and 13
  | .lOr => evalLogic or 14
  | .lXor => evalLogic (fun a b => (a || b) && !(a && b)) 15
  | .lImplies => evalLogic (fun a b => !a || b) 16
  | .plus => evalArith (fun i j => .ok (i + j)) 17
  | .minus => evalArith (fun i j => .ok (i - j)) 18
  | .times => evalArith (fun i j => .ok (i * j)) 19
  | .div => evalArith (fun i j => if j = 0 then .error .divisionByZero else .ok (i.tdiv j)) 20
  | .strConcat => fun first second =>
    match first, second with
    | [.strConst str1], [.strConst str2] => .ok [.strConst (str1 ++ str2)]
    | _, _ => evalFail 20

def evalOrder (f : Int → Int → Bool) (index : Nat) : List Expr → List Expr → Except Fault (List Expr)
  | [.intConst i1], [.intConst i2] => .ok [.bConst (f i1 i2)]
  | _, _ => evalFail index

def evalBvOrder (f : List Bool → List Bool → Except Fault Bool) : List Expr → List Expr → Except Fault (List Expr)
  | [.bvConst _ bv1], [.bvConst _ bv2] => do .ok [.bConst (← f bv1 bv2)]
  | _, _ => evalFail 12

def evalCompOp : CompOperator → List Expr → List Expr → Except Fault (List Expr)
  | .lt => evalOrder (fun i j => decide (i < j)) 21
  | .lte => evalOrder (fun i j => decide (i ≤ j)) 22
  | .gt => evalOrder (fun i j => decide (i > j)) 23
  | .gte => evalOrder (fun i j => decide (i ≥ j)) 24
  | .eq => fun first second =>
    match first, second with
    | [.intConst i1], [.intConst i2] => .ok [.bConst (decide (i1 = i2))]
    | [.bConst b1], [.bConst b2] => .ok [.bConst (decide (b1 = b2))]
    | [.bvConst _ bv1], [.bvConst _ bv2] => .ok [.bConst (decide (bv1 = bv2))]
    | [.blConst bl1], [.blConst bl2] => .ok [.bConst (decide (bl1 = bl2))]
    | _, _ => evalFail 25
  | .bvLt => evalBvOrder bvult
  | .bvLte => evalBvOrder fun bv1 bv2 => do .ok ((← bvult bv1 bv2) || decide (bv1 = bv2))
  | .bvGt => evalBvOrder fun bv1 bv2 => bvult bv2 bv1
  | .bvGte => evalBvOrder fun bv1 bv2 => do .ok ((← bvult bv2 bv1) || decide (bv1 = bv2))
  | .strPrefix => fun first second =>
    match first, second with
    | [.strConst str1], [.strConst str2] => .ok [.bConst (str1.toList.isPrefixOf str2.toList)]
    | _, _ => evalFail 12

def evalStrLength : List Expr → Except Fault (List Expr)
  | [.strConst str] => .ok [.intConst str.utf8ByteSize]
  | _ => evalFail 9

/-- The bits of all leaves; the length of a placeholder is known for three of them. -/
def evalLength (acc : Int) : List Expr → Except Fault (List Expr)
  | [] => .ok [.intConst acc]
  | .blConst bits :: exprs => evalLength (wrap (acc + bits.length)) exprs
  | .bvConst _ bits :: exprs => evalLength (wrap (acc + bits.length)) exprs
  | .phConst str :: exprs =>
    if str = "<AC_TOKEN>" ∨ str = "<SCALAR>" then evalLength (wrap (acc + 32 * 8)) exprs
    else if str = "<ELEMENT>" then evalLength (wrap (acc + 64 * 8)) exprs
    else .error (.internalError "Tried to compute length of unknown placeholder")
  | _ :: _ => evalFail 26

def evalCast (len : Nat) : List Expr → Except Fault (List Expr)
  | [.intConst i] => .ok [ilIntToBitvector len i]
  | _ => evalFail 27

end Operators

section Evaluation

/-- The dependency that stands for each stub. -/
abbrev DepMap := List (String × SemanticConstraint)

def exprToSygusAst : Expr → Except Fault SygusAst
  | .intConst i => .ok (.intLeaf i)
  | .phConst s => .ok (.varLeaf s)
  | .bvConst len bits => .ok (.bvLeaf len bits)
  | .blConst bits => .ok (.blLeaf bits)
  | _ => .error (.internalError "evaluation error #1")

mutual

def sygusAstToExpr : SygusAst → List Expr
  | .intLeaf i => [.intConst i]
  | .bvLeaf len bits => [.bvConst len bits]
  | .blLeaf bits => [.blConst bits]
  | .varLeaf s => [.phConst s]
  | .strLeaf s => [.strConst s]
  | .boolLeaf b => [.bConst b]
  | .node _ children => sygusAstsToExpr children

def sygusAstsToExpr : List SygusAst → List Expr
  | [] => []
  | child :: children => sygusAstToExpr child ++ sygusAstsToExpr children

end

/-- How a dependent term of a tree is computed: tree, rule and name of the term. -/
abbrev Resolve := SygusAst → Element → String → Except Fault SygusAst

variable (depMap : DepMap) (ast : Ast) (resolve : Resolve)

/-- A leaf that stands for a dependent term. -/
def isDependent (var : String) : Bool := (depMap.lookup (removeSuffix var)).isSome

mutual

def evaluateSygusAst (element : Element) : SygusAst → Except Fault SygusAst
  | .varLeaf var => if isDependent depMap var then resolve (.varLeaf var) element var else .ok (.varLeaf var)
  | .node constructor subterms => do .ok (.node constructor (← evaluateSygusAsts element subterms))
  | leaf => .ok leaf

def evaluateSygusAsts (element : Element) : List SygusAst → Except Fault (List SygusAst)
  | [] => .ok []
  | subterm :: subterms => do
    let first ← evaluateSygusAst element subterm
    .ok (first :: (← evaluateSygusAsts element subterms))

end

def GrammarElement.isNamed (id : String) : GrammarElement → Bool
  | .nonterminal nt => id = nt
  | .stubbedNonterminal nt _ => id = nt

/-- The place of a nonterminal in the first right-hand side of a rule. -/
def childIndex (element : Element) (id : String) : Except Fault Nat :=
  match element with
  | .typeAnnot _ _ _ => .error (.internalError "Unexpected case in evaluate")
  | .prodRule _ (.rhs ges _ :: _) =>
    match ges.findIdx? (GrammarElement.isNamed id) with
    | some index => .ok index
    | none => .error (.internalError ("Dangling identifier " ++ id ++ " in semantic constraint"))
  | .prodRule _ _ => .error (.internalError "Unexpected case in evaluate")

def Element.isRuleOf (id : String) : Element → Bool
  | .prodRule nt _ => id = nt
  | .typeAnnot _ _ _ => false

def evaluateNt (sygusAst : SygusAst) (element : Element) : Reference → Except Fault (List Expr)
  | [] => .error (.internalError "Unexpected case in evaluate")
  | (id, _) :: rest => do
    let index ← childIndex element id
    match sygusAst with
    | .node _ subterms =>
      match subterms[index]? with
      | none => .error (.failure "nth")
      | some (.varLeaf var) =>
        if isDependent depMap var then .ok (sygusAstToExpr (← resolve sygusAst element var))
        else .ok (sygusAstToExpr sygusAst)
      | some (.node constructor children) =>
        if rest = [] then .ok (sygusAstToExpr (← evaluateSygusAst depMap resolve element (.node constructor children)))
        else
          match ast.find? (Element.isRuleOf id) with
          | none => .error .notFound
          | some element => evaluateNt (.node constructor children) element rest
      | some leaf => .ok (sygusAstToExpr (← evaluateSygusAst depMap resolve element leaf))
    | leaf => .ok (sygusAstToExpr leaf)

def evaluateWith (sygusAst : SygusAst) (element : Element) : Expr → Except Fault (List Expr)
  | .ntExpr _ nts => evaluateNt depMap ast resolve sygusAst element nts
  | .unOp op expr => do evalUnOp op (← evaluateWith sygusAst element expr)
  | .strLength expr => do evalStrLength (← evaluateWith sygusAst element expr)
  | .binOp expr1 op expr2 => do
    let expr1 ← evaluateWith sygusAst element expr1
    evalBinOp op expr1 (← evaluateWith sygusAst element expr2)
  | .compOp expr1 op expr2 => do
    let expr1 ← evaluateWith sygusAst element expr1
    evalCompOp op expr1 (← evaluateWith sygusAst element expr2)
  | .length expr => do evalLength 0 (← evaluateWith sygusAst element expr)
  | .bvCast len expr => do evalCast len (← evaluateWith sygusAst element expr)
  | .matching _ _ _ => .error (.internalError "Match not yet supported in dependency computation")
  | expr => .ok [expr]

def computeDepWith (sygusAst : SygusAst) (element : Element) (var : String) : Except Fault SygusAst := do
  match depMap.lookup (← processConstructorStr var) with
  | none => .error (.internalError ("Hanging identifier '" ++ var ++ "' when computing dependencies"))
  | some (.syGuSExpr _) => .error (.internalError "Encountered SyGuSExpr when computing dependencies")
  | some (.dependency _ expr) =>
    match ← evaluateWith depMap ast resolve sygusAst element expr with
    | [] => .error (.failure "hd")
    | value :: _ => exprToSygusAst value

end Evaluation

/-- A dependent term that an evaluation comes across is computed, and so is the result again.
Nothing bounds how often this is repeated. -/
def resolveDep (depMap : DepMap) (ast : Ast) : Nat → Resolve
  | 0 => fun _ _ _ => .error .diverges
  | fuel + 1 => fun sygusAst element var => do
    let leaf ← computeDepWith depMap ast (resolveDep depMap ast fuel) sygusAst element var
    evaluateSygusAst depMap (resolveDep depMap ast fuel) element leaf

def evaluate (fuel : Nat) (depMap : DepMap) (sygusAst : SygusAst) (ast : Ast) (element : Element) (expr : Expr) :
    Except Fault (List Expr) :=
  evaluateWith depMap ast (resolveDep depMap ast fuel) sygusAst element expr

def computeDep (fuel : Nat) (depMap : DepMap) (sygusAst : SygusAst) (ast : Ast) (element : Element) (var : String) :
    Except Fault SygusAst :=
  computeDepWith depMap ast (resolveDep depMap ast fuel) sygusAst element var

mutual

/-- The whole tree. A leaf that is a variable but no dependent term gives way to the node above it. -/
def computeDeps (fuel : Nat) (depMap : DepMap) (ast : Ast) : SygusAst → Except Fault SygusAst
  | .varLeaf _ => .error (.internalError "evaluation error #28")
  | .node constructor subterms => do
    .ok (.node constructor (← computeSubterms fuel depMap ast (.node constructor subterms) constructor subterms))
  | leaf => .ok leaf

def computeSubterms (fuel : Nat) (depMap : DepMap) (ast : Ast) (parent : SygusAst) (constructor : String) :
    List SygusAst → Except Fault (List SygusAst)
  | [] => .ok []
  | .node inner children :: subterms => do
    let first ← computeDeps fuel depMap ast (.node inner children)
    .ok (first :: (← computeSubterms fuel depMap ast parent constructor subterms))
  | .varLeaf var :: subterms => do
    let first ←
      match ast.find? fun element => element.nt = removeSuffix (removeStub constructor) with
      | none => .error (.internalError "computeDeps.ml")
      | some element => if isDependent depMap var then computeDep fuel depMap parent ast element var else .ok parent
    .ok (first :: (← computeSubterms fuel depMap ast parent constructor subterms))
  | leaf :: subterms => do .ok (leaf :: (← computeSubterms fuel depMap ast parent constructor subterms))

end

end LtlFuzz.PacketGen

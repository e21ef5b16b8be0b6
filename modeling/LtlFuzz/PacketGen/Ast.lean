import Mathlib.Data.List.Basic

/-! `ast.ml`: grammars of packets, with constraints between the parts of a packet. -/

namespace LtlFuzz.PacketGen

inductive UnaryOperator where
  | uPlus
  | uMinus
  | lNot
  | bvNot
  deriving DecidableEq, Repr

inductive CompOperator where
  | lt
  | lte
  | gt
  | gte
  | eq
  | bvLt
  | bvLte
  | bvGt
  | bvGte
  | strPrefix
  deriving DecidableEq, Repr

inductive BinOperator where
  | bvAnd
  | bvOr
  | bvXor
  | lAnd
  | glAnd
  | lOr
  | lXor
  | lImplies
  | plus
  | minus
  | times
  | div
  | strConcat
  deriving DecidableEq, Repr

/-- Dot notation: the index tells one nonterminal of a name from the others. -/
abbrev Reference := List (String × Option Nat)

mutual

inductive Expr where
  | binOp (left : Expr) (op : BinOperator) (right : Expr)
  | unOp (op : UnaryOperator) (expr : Expr)
  | compOp (left : Expr) (op : CompOperator) (right : Expr)
  | length (expr : Expr)
  | strLength (expr : Expr)
  | bvCast (len : Nat) (expr : Expr)
  | matching (context : Reference) (nt : String × Option Nat) (cases : Cases)
  | ntExpr (context nts : Reference)
  | bvConst (len : Nat) (bits : List Bool)
  | blConst (bits : List Bool)
  | bConst (value : Bool)
  | intConst (value : Int)
  | phConst (name : String)
  | strConst (text : String)
  deriving DecidableEq, Repr

inductive Cases where
  | nil
  | case (pattern : List (Reference × (String × Option Nat))) (expr : Expr) (rest : Cases)
  | caseStub (pattern : List (Reference × (String × Option Nat))) (rest : Cases)
  deriving DecidableEq, Repr

end

inductive SemanticConstraint where
  | dependency (nt : String) (expr : Expr)
  | syGuSExpr (expr : Expr)
  deriving DecidableEq, Repr

inductive IlType where
  | bool
  | int
  | placeholder
  | string
  | bitVector (len : Nat)
  | bitList
  | adt (options : List (List String))
  deriving DecidableEq, Repr

inductive GrammarElement where
  | nonterminal (nt : String)
  | stubbedNonterminal (nt stub : String)
  deriving DecidableEq, Repr

/-- `grammar_element_to_string`. -/
def GrammarElement.label : GrammarElement → String
  | .nonterminal nt => nt
  | .stubbedNonterminal _ stub => stub

inductive ProdRuleRhs where
  | rhs (ges : List GrammarElement) (scs : List SemanticConstraint)
  | stubbedRhs (stub : String)
  deriving DecidableEq, Repr

inductive Element where
  | prodRule (nt : String) (rhss : List ProdRuleRhs)
  | typeAnnot (nt : String) (ty : IlType) (scs : List SemanticConstraint)
  deriving DecidableEq, Repr

def Element.nt : Element → String
  | .prodRule nt _ => nt
  | .typeAnnot nt _ _ => nt

abbrev Ast := List Element

/-- The first rule of a nonterminal, as `List.find` gives it. -/
def Ast.rule (ast : Ast) (nt : String) : Option Element := ast.find? fun element => element.nt = nt

def SemanticConstraint.syGuS? : SemanticConstraint → Option Expr
  | .syGuSExpr expr => some expr
  | .dependency _ _ => none

/-- `get_nts_from_expr2`, where nothing is looked for in a cast. -/
def Expr.getNts : Expr → List Reference
  | .ntExpr context nts => [context ++ nts]
  | .binOp left _ right => left.getNts ++ right.getNts
  | .compOp left _ right => left.getNts ++ right.getNts
  | .unOp _ expr => expr.getNts
  | .length expr => expr.getNts
  | .strLength expr => expr.getNts
  | _ => []

/-- How the generator stops short: with one of its own errors, with an exception of the library
or with a failed assertion. -/
inductive Fault where
  | userError (message : String)
  | internalError (message : String)
  | failure (message : String)
  | invalidArgument (message : String)
  | divisionByZero
  | notFound
  | assertFailure
  | diverges
  deriving DecidableEq, Repr

/-- A nonterminal as it is printed in a message. -/
def ntWithDots (nts : Reference) : String :=
  ".".intercalate (nts.map fun nt => "<" ++ nt.1 ++ (nt.2.map fun index => toString index).getD "" ++ ">")

/-- `sygus_ast`, the form in which every engine returns a packet. -/
inductive SygusAst where
  | node (constructor : String) (children : List SygusAst)
  | bvLeaf (len : Nat) (bits : List Bool)
  | intLeaf (value : Int)
  | blLeaf (bits : List Bool)
  | boolLeaf (value : Bool)
  | strLeaf (text : String)
  | varLeaf (name : String)
  deriving Repr

end LtlFuzz.PacketGen

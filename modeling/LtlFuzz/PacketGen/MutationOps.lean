import LtlFuzz.PacketGen.Ast

/-! `mutationOps.ml`: nonterminals are added to grammars, deleted from them or exchanged
between their rules, and constraints are changed.
What is left to chance is an argument: a number picks an element of a list. -/

namespace LtlFuzz.PacketGen

section Presence

/-- A random element of a list; every number picks one. -/
def randomElement {α : Type} (items : List α) (pick : Nat) : Except Fault α :=
  match items[pick % items.length]? with
  | none => .error (.internalError "Empty list")
  | some item => .ok item

def isNonTerminalPresent (nt : String) (productionOptions : List ProdRuleRhs) : Bool :=
  productionOptions.any fun rhs =>
    match rhs with
    | .rhs ges _ => .nonterminal nt ∈ ges
    | .stubbedRhs _ => false

mutual

def isPresentInCaseList (nt : String) : Cases → Bool
  | .nil => false
  | .case nte e rest => decide (nt ∈ nte.map fun entry => entry.2.1) || isPresentInExpr nt e || isPresentInCaseList nt rest
  | .caseStub nte rest => decide (nt ∈ nte.map fun entry => entry.2.1) || isPresentInCaseList nt rest

/-- Whether an expression names a nonterminal, as far as is looked: not in the length of a string. -/
def isPresentInExpr (nt : String) : Expr → Bool
  | .binOp e1 _ e2 => isPresentInExpr nt e1 || isPresentInExpr nt e2
  | .unOp _ e => isPresentInExpr nt e
  | .compOp e1 _ e2 => isPresentInExpr nt e1 || isPresentInExpr nt e2
  | .length e => isPresentInExpr nt e
  | .bvCast _ e => isPresentInExpr nt e
  | .ntExpr _ n => decide (nt ∈ n.map Prod.fst)
  | .matching _ nt2 caselist => decide (nt = nt2.1) || isPresentInCaseList nt caselist
  | _ => false

end

def isPresentInConstraint (nt : String) : SemanticConstraint → Bool
  | .dependency nonTerminal e => decide (nonTerminal = nt) || isPresentInExpr nt e
  | .syGuSExpr e => isPresentInExpr nt e

def removeConstraints (nt : String) (clist : List SemanticConstraint) : List SemanticConstraint :=
  clist.filter fun sc => !isPresentInConstraint nt sc

end Presence

section Delete

/-- Only the first right-hand side changes, and only if it is not left empty. -/
def applyDeleteToRule (nt : String) : List ProdRuleRhs → List ProdRuleRhs
  | [] => []
  | .rhs ges scs :: xs =>
    if ges.length > 1 then .rhs (ges.erase (.nonterminal nt)) (removeConstraints nt scs) :: xs else .rhs ges scs :: xs
  | .stubbedRhs s :: xs => .stubbedRhs s :: applyDeleteToRule nt xs

def mutationDelete (nt : String) : Ast → Ast × Bool
  | [] => ([], false)
  | .prodRule nonTerminal productionOptions :: xs =>
    if isNonTerminalPresent nt productionOptions then
      (.prodRule nonTerminal (applyDeleteToRule nt productionOptions) :: xs, true)
    else (.prodRule nonTerminal productionOptions :: (mutationDelete nt xs).1, (mutationDelete nt xs).2)
  | .typeAnnot v w x :: ys => (.typeAnnot v w x :: (mutationDelete nt ys).1, (mutationDelete nt ys).2)

end Delete

section Add

def grammarElementAddition (nt : String) : Nat → List GrammarElement → List GrammarElement
  | _, [] => [.nonterminal nt]
  | 0, xs => .nonterminal nt :: xs
  | count + 1, x :: xs => x :: grammarElementAddition nt count xs

/-- A nonterminal is put into the first right-hand side of the rule of another. -/
def addToRule (nt ntName : String) (pick : Nat) : Ast → Except Fault (Ast × Bool)
  | [] => .ok ([], false)
  | .prodRule nonterminal prRhs :: xs =>
    if nonterminal = ntName then
      match prRhs with
      | [] => .ok ([], false)
      | .rhs geList scList :: ys =>
        if geList = [] then .error (.invalidArgument "Random.int")
        else .ok (.prodRule nonterminal (.rhs (grammarElementAddition nt (pick % geList.length) geList) scList :: ys) :: xs, true)
      | .stubbedRhs x :: ys => .ok (.prodRule nonterminal (.stubbedRhs x :: ys) :: xs, false)
    else do
      let (gg, r) ← addToRule nt ntName pick xs
      .ok (.prodRule nonterminal prRhs :: gg, r)
  | .typeAnnot x y z :: xs => do
    let (gg, r) ← addToRule nt ntName pick xs
    .ok (.typeAnnot x y z :: gg, r)

def mutationAddS1 (nt : String) (pick : Nat) (g : Ast) : Option Element → Except Fault (Ast × Bool)
  | some (.prodRule ntName _) => addToRule nt ntName pick g
  | some (.typeAnnot ..) => .ok (g, false)
  | none => .ok (g, false)

end Add

section Update

/-- Only the first constraint changes. -/
def updateConstraint (nt : String) (operation : BinOperator) : List SemanticConstraint → List SemanticConstraint
  | [] => []
  | .dependency nonTerminal (.bvCast i expr) :: xs =>
    if operation = .plus then .dependency nonTerminal (.bvCast i (.binOp expr .plus (.intConst 1))) :: xs
    else if operation = .minus then .dependency nonTerminal (.bvCast i (.binOp expr .minus (.intConst 1))) :: xs
    else .dependency nonTerminal (.bvCast i expr) :: xs
  | .syGuSExpr (.unOp .lNot e) :: xs =>
    if isPresentInExpr nt e then .syGuSExpr e :: xs else .syGuSExpr (.unOp .lNot e) :: xs
  | .syGuSExpr e :: xs => if isPresentInExpr nt e then .syGuSExpr (.unOp .lNot e) :: xs else .syGuSExpr e :: xs
  | anything :: xs => anything :: xs

def applyUpdateToRule (nt : String) (operation : BinOperator) : List ProdRuleRhs → List ProdRuleRhs
  | [] => []
  | .rhs geList scList :: xs => .rhs geList (updateConstraint nt operation scList) :: xs
  | .stubbedRhs s :: xs => .stubbedRhs s :: applyUpdateToRule nt operation xs

def mutationUpdate (nt : String) (operation : BinOperator) : Ast → Ast × Bool
  | [] => ([], false)
  | .prodRule nonTerminal productionOptions :: xs =>
    if isNonTerminalPresent nt productionOptions then
      (.prodRule nonTerminal (applyUpdateToRule nt operation productionOptions) :: xs, true)
    else (.prodRule nonTerminal productionOptions :: (mutationUpdate nt operation xs).1, (mutationUpdate nt operation xs).2)
  | .typeAnnot v w x :: ys =>
    if v = nt then (.typeAnnot v w (updateConstraint nt operation x) :: ys, true)
    else (.typeAnnot v w x :: (mutationUpdate nt operation ys).1, (mutationUpdate nt operation ys).2)

end Update

section Crossover

def replaceElement (nt1 nt2 : GrammarElement) : List GrammarElement → Except Fault (List GrammarElement)
  | [] => .error (.internalError "error crossover")
  | x :: xs => if x = nt1 then .ok (nt2 :: xs) else do .ok (x :: (← replaceElement nt1 nt2 xs))

def replaceRhs (rhs1 crossoverRhs : ProdRuleRhs) : List ProdRuleRhs → List ProdRuleRhs
  | [] => []
  | x :: xs => if x = rhs1 then crossoverRhs :: xs else x :: replaceRhs rhs1 crossoverRhs xs

/-- What stands behind a right-hand side that is replaced is repeated. -/
def replaceGeList (rhs1 rhs2 : ProdRuleRhs) (crossoverPRs : ProdRuleRhs × ProdRuleRhs) : List ProdRuleRhs → List ProdRuleRhs
  | [] => []
  | x :: xss =>
    if x = rhs1 then replaceRhs rhs1 crossoverPRs.1 (x :: xss) ++ replaceGeList rhs1 rhs2 crossoverPRs xss
    else if x = rhs2 then replaceRhs rhs2 crossoverPRs.2 (x :: xss) ++ replaceGeList rhs1 rhs2 crossoverPRs xss
    else x :: replaceGeList rhs1 rhs2 crossoverPRs xss

def updateRule (nt : String) (rhs1 rhs2 : ProdRuleRhs) (crossoverPRs : ProdRuleRhs × ProdRuleRhs) : Element → Element
  | .prodRule a b => if a = nt then .prodRule a (replaceGeList rhs1 rhs2 crossoverPRs b) else .prodRule a b
  | .typeAnnot x y z => .typeAnnot x y z

def grammarUpdateAfterCrossover (nt : String) (g : Ast) (rhs1 rhs2 : ProdRuleRhs) (crossoverPRs : ProdRuleRhs × ProdRuleRhs) : Ast :=
  g.map (updateRule nt rhs1 rhs2 crossoverPRs)

def mutationCrossover (pick1 pick2 : Nat) : ProdRuleRhs → ProdRuleRhs → Except Fault (ProdRuleRhs × ProdRuleRhs)
  | .rhs [] [], .rhs [] [] => .ok (.rhs [] [], .rhs [] [])
  | .rhs geList1 scList1, .rhs geList2 scList2 => do
    let randomGe1 ← randomElement geList1 pick1
    let randomGe2 ← randomElement geList2 pick2
    let crossoverList1 ← replaceElement randomGe1 randomGe2 geList1
    let crossoverList2 ← replaceElement randomGe2 randomGe1 geList2
    match randomGe1, randomGe2 with
    | .nonterminal a, .nonterminal b =>
      .ok (.rhs crossoverList1 (removeConstraints a scList1), .rhs crossoverList2 (removeConstraints b scList2))
    | _, _ => .error (.internalError "unexpected crossover")
  | _, _ => .error (.internalError "unexpected crossover")

/-- The grammar after right-hand sides of two rules were crossed. -/
def crossoverGrammar (nt1 nt2 : String) (rhs1 rhs2 : ProdRuleRhs) (crossoverPRs : ProdRuleRhs × ProdRuleRhs) (g : Ast) : Ast :=
  grammarUpdateAfterCrossover nt2 (grammarUpdateAfterCrossover nt1 g rhs1 rhs2 crossoverPRs) rhs1 rhs2 crossoverPRs

end Crossover

end LtlFuzz.PacketGen

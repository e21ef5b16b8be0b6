import LtlFuzz.Logic.AssertionStack
import LtlFuzz.Logic.Run
import LtlFuzz.PacketGen.Ast

/-! `dpll.ml`: a derivation tree is expanded node by node while an incremental solver
watches the constraints. The places where the search waits are states of a machine; what it
cannot know, the node and rule it picks and the answers of the solver, are its inputs. -/

namespace LtlFuzz.PacketGen.Dpll
open Logic (AssertionStack)

inductive ModelValue where
  | bool (value : Bool)
  | int (value : Int)
  | placeholder (name : String)
  | string (text : String)
  | bitVector (len : Nat) (bits : List Bool)
  | bitList (bits : List Bool)
  deriving DecidableEq, Repr

abbrev Model := List (String × ModelValue)

/-- A node is mutable: `ref` tells it from all others, and the rule it was last expanded by
stands first among those visited. -/
inductive DerivationTree where
  | symbolicLeaf (ty : IlType) (path : List String)
  | dependentTermLeaf (nt : String)
  | concreteLeaf (path : List String) (value : ModelValue)
  | node (ref : Nat) (nt : String) (visited : List Nat) (path : List String) (children : List DerivationTree)
  deriving Repr

def lowercase (text : String) : String := String.ofList (text.toList.map Char.toLower)

/-- The variable a leaf takes its value from. -/
def pathName (path : List String) : String := lowercase ("_".intercalate path)

/-- The variable a reference is printed as. -/
def variableName (nts : Reference) : String :=
  "_".intercalate (nts.map fun nt => lowercase nt.1 ++ (nt.2.map fun index => toString index).getD "")

/-- References from the root of the derivation tree; a node of an annotated type has its
own name twice at the end of its path. -/
def universalizeExpr (isTypeAnnot : Bool) (path : List String) : Expr → Option Expr
  | .ntExpr nts1 nts2 =>
    some (.ntExpr nts1 ((if isTypeAnnot then path.dropLast else path).map (fun id => (id, none)) ++ nts2))
  | .bvCast len expr => do some (.bvCast len (← universalizeExpr isTypeAnnot path expr))
  | .binOp left op right => do
    some (.binOp (← universalizeExpr isTypeAnnot path left) op (← universalizeExpr isTypeAnnot path right))
  | .unOp op expr => do some (.unOp op (← universalizeExpr isTypeAnnot path expr))
  | .compOp left op right => do
    some (.compOp (← universalizeExpr isTypeAnnot path left) op (← universalizeExpr isTypeAnnot path right))
  | .strLength expr => do some (.strLength (← universalizeExpr isTypeAnnot path expr))
  | .length expr => do some (.length (← universalizeExpr isTypeAnnot path expr))
  | .matching _ _ _ => none
  | expr => some expr

/-- What can be written as an assertion. -/
def Expr.printable : Expr → Bool
  | .binOp left _ right => Expr.printable left && Expr.printable right
  | .compOp left _ right => Expr.printable left && Expr.printable right
  | .unOp _ expr => Expr.printable expr
  | .length expr => Expr.printable expr
  | .strLength expr => Expr.printable expr
  | .phConst _ => false
  | .blConst _ => false
  | .bvCast _ _ => false
  | .matching _ _ _ => false
  | _ => true

namespace DerivationTree

def label : DerivationTree → String
  | .node _ nt _ _ _ => nt
  | .symbolicLeaf _ path => path.getLastD ""
  | .concreteLeaf path _ => path.getLastD ""
  | .dependentTermLeaf nt => nt

mutual

def isComplete : DerivationTree → Bool
  | .node _ _ _ _ children => !children.isEmpty && allComplete children
  | _ => true

def allComplete : List DerivationTree → Bool
  | [] => true
  | child :: children => child.isComplete && allComplete children

end

/-- A node as it is found on the frontier. -/
structure OpenNode where
  ref : Nat
  nt : String
  visited : List Nat
  path : List String
  deriving DecidableEq, Repr

mutual

/-- `compute_new_frontier`. -/
def frontier : DerivationTree → List OpenNode
  | .node ref nt visited path children => if children.isEmpty then [⟨ref, nt, visited, path⟩] else frontierAll children
  | _ => []

def frontierAll : List DerivationTree → List OpenNode
  | [] => []
  | child :: children => child.frontier ++ frontierAll children

end

mutual

/-- Assignments to the two mutable fields of a node. -/
def write (ref : Nat) (visit : List Nat → List Nat) (assign : List DerivationTree → List DerivationTree) :
    DerivationTree → DerivationTree
  | .node other nt visited path children =>
    if other = ref then .node other nt (visit visited) path (assign children)
    else .node other nt visited path (writeAll ref visit assign children)
  | leaf => leaf

def writeAll (ref : Nat) (visit : List Nat → List Nat) (assign : List DerivationTree → List DerivationTree) :
    List DerivationTree → List DerivationTree
  | [] => []
  | child :: children => child.write ref visit assign :: writeAll ref visit assign children

end

def visit (ref option : Nat) (tree : DerivationTree) : DerivationTree :=
  tree.write ref (fun visited => if option ∈ visited then visited else option :: visited) id

def setChildren (ref : Nat) (children : List DerivationTree) (tree : DerivationTree) : DerivationTree :=
  tree.write ref id fun _ => children

mutual

def instantiateTerminals (model : Model) : DerivationTree → DerivationTree
  | .concreteLeaf path value =>
    match model.lookup (pathName path.dropLast) with
    | some found => .concreteLeaf path found
    | none => .symbolicLeaf (tyOfConcreteLeaf value) path
  | .symbolicLeaf ty path =>
    match model.lookup (pathName path.dropLast) with
    | some found => .concreteLeaf path found
    | none => .symbolicLeaf ty path
  | .dependentTermLeaf nt => .dependentTermLeaf nt
  | .node ref nt visited path children => .node ref nt visited path (instantiateAll model children)
where
  tyOfConcreteLeaf : ModelValue → IlType
    | .bool _ => .bool
    | .int _ => .int
    | .placeholder _ => .placeholder
    | .string _ => .string
    | .bitVector len _ => .bitVector len
    | .bitList _ => .bitList

def instantiateAll (model : Model) : List DerivationTree → List DerivationTree
  | [] => []
  | child :: children => child.instantiateTerminals model :: instantiateAll model children

end

mutual

/-- No leaf is left to a type that has no values of its own. -/
def fillable : DerivationTree → Bool
  | .symbolicLeaf (.adt _) _ => false
  | .node _ _ _ _ children => allFillable children
  | _ => true

def allFillable : List DerivationTree → Bool
  | [] => true
  | child :: children => child.fillable && allFillable children

end

mutual

/-- The random value of a leaf is named by its position in the tree. -/
def fillUnconstrainedNonterminals (random : List Nat → IlType → ModelValue) (position : List Nat) :
    DerivationTree → DerivationTree
  | .symbolicLeaf ty path => .concreteLeaf path (random position ty)
  | .node ref nt visited path children => .node ref nt visited path (fillAll random position 0 children)
  | leaf => leaf

def fillAll (random : List Nat → IlType → ModelValue) (position : List Nat) (index : Nat) :
    List DerivationTree → List DerivationTree
  | [] => []
  | child :: children =>
    child.fillUnconstrainedNonterminals random (index :: position) :: fillAll random position (index + 1) children

end

mutual

def sygusAst : DerivationTree → SygusAst
  | .dependentTermLeaf nt => .varLeaf (lowercase (nt ++ "_con"))
  | .symbolicLeaf _ path => .varLeaf (String.join path)
  | .concreteLeaf _ (.int value) => .intLeaf value
  | .concreteLeaf _ (.bitList bits) => .blLeaf bits
  | .concreteLeaf _ (.bitVector len bits) => .bvLeaf len bits
  | .concreteLeaf _ (.placeholder name) => .varLeaf name
  | .concreteLeaf _ (.string text) => .strLeaf text
  | .concreteLeaf _ (.bool value) => .boolLeaf value
  | .node _ nt _ _ children => .node nt (sygusAsts children)

def sygusAsts : List DerivationTree → List SygusAst
  | [] => []
  | child :: children => child.sygusAst :: sygusAsts children

end

end DerivationTree

open DerivationTree (OpenNode)

/-- How a search ends without a tree: `infeasible` is printed before `exit 0`, and an input
that names no choice of the search is refused. -/
inductive Halt where
  | infeasible
  | crash
  | refused
  deriving DecidableEq, Repr

def ntWillBeReachedAst (ast : Ast) : Reference → String → Except Halt Bool
  | [], _ => .ok true
  | (newHead, _) :: nts, head =>
    match ast.rule head with
    | none => .error .crash
    | some (.prodRule _ rhss) => if rhss.length ≠ 1 then .ok false else ntWillBeReachedAst ast nts newHead
    | some (.typeAnnot _ _ _) => .ok true

def ntWillBeReached (ast : Ast) : DerivationTree → Reference → Except Halt Bool
  | _, [] => .ok true
  | .node _ head _ _ children, (str, index) :: nts =>
    if children.isEmpty then ntWillBeReachedAst ast ((str, index) :: nts) head
    else
      match children.find? fun child => child.label = str with
      | some child => ntWillBeReached ast child nts
      | none => .ok false
  | _, _ :: _ => .ok true

def constraintIsApplicable (ast : Ast) (tree : DerivationTree) : List Reference → Except Halt Bool
  | [] => .ok true
  | [] :: _ => .error .crash
  | (_ :: nt) :: nts => do
    if ← ntWillBeReached ast tree nt then constraintIsApplicable ast tree nts else .ok false

/-- The constraints that apply to a tree for certain. -/
def applicableConstraints (ast : Ast) (tree : DerivationTree) : List Expr → Except Halt (List Expr)
  | [] => .ok []
  | expr :: exprs => do
    let applicable ← constraintIsApplicable ast tree expr.getNts
    let others ← applicableConstraints ast tree exprs
    .ok (if applicable then expr :: others else others)

/-- The commands that change what the solver knows. -/
inductive Command where
  | declareFun (name : String) (ty : IlType)
  | assert (expr : Expr)
  | push (levels : Nat)
  | pop (levels : Nat)
  deriving DecidableEq, Repr

def Command.execute (stack : AssertionStack Expr) : Command → AssertionStack Expr
  | .declareFun _ _ => stack
  | .assert expr => stack.assert expr
  | .push levels => stack.push levels
  | .pop levels => stack.pop levels

/-- Where the search waits: at the top of its loop, or for the solver's answer on the rule or
on the constraint of an annotation it has just asserted. -/
inductive Phase where
  | select
  | checkRule
  | checkAnnot (node : OpenNode) (ty : IlType) (todo : List SemanticConstraint)
  deriving DecidableEq, Repr

structure Search where
  derivationTree : DerivationTree
  fresh : Nat
  declaredVariables : List String := []
  constraintsToAssert : List Expr := []
  decisionStack : List Nat := []
  assertionLevel : Nat := 1
  /-- What was written to the solver, the last command first. -/
  sent : List Command := []
  phase : Phase := .select
  deriving Repr

namespace Search

/-- The solver after all commands sent so far. -/
def solver (search : Search) : AssertionStack Expr := search.sent.foldr (fun command stack => command.execute stack) {}

def start (ast : Ast) : Except Halt Search :=
  match ast with
  | [] => .error .crash
  | element :: _ => .ok { derivationTree := .node 0 element.nt [] [element.nt] [], fresh := 1 }

def newDecisionLevel (search : Search) : Search :=
  { search with
    sent := .push search.assertionLevel :: search.sent
    assertionLevel := search.assertionLevel + 1 }

def backtrackDecisionLevel (search : Search) : Except Halt Search :=
  if search.assertionLevel = 0 then .error .infeasible
  else .ok { search with sent := .pop 1 :: search.sent, assertionLevel := search.assertionLevel - 1 }

def backtrackDerivationTree (search : Search) : Except Halt Search :=
  match search.decisionStack with
  | [] => .error .infeasible
  | ref :: decisions =>
    .ok { search with decisionStack := decisions, derivationTree := search.derivationTree.setChildren ref [] }

def backtrack (search : Search) : Except Halt Search := do (← search.backtrackDecisionLevel).backtrackDerivationTree

def declareSmtVariables (search : Search) : List (String × IlType) → Except Halt Search
  | [] => .ok search
  | (_, .adt _) :: _ => .error .crash
  | (var, ty) :: vars =>
    if var ∈ search.declaredVariables then search.declareSmtVariables vars
    else
      declareSmtVariables { search with
        declaredVariables := var :: search.declaredVariables
        sent := .declareFun var ty :: search.sent } vars

def addConstraint (search : Search) (expr : Expr) : Search :=
  { search with constraintsToAssert := search.constraintsToAssert.insert expr }

def assertAndRemoveApplicableConstraints (ast : Ast) (search : Search) : Except Halt Search := do
  let applicable ← applicableConstraints ast search.derivationTree search.constraintsToAssert
  if applicable.all Expr.printable then
    .ok { search with
      constraintsToAssert := search.constraintsToAssert.filter fun expr => expr ∉ applicable
      sent := applicable.reverse.map .assert ++ search.sent }
  else .error .crash

/-- The variables of a rule's constraint, with the types of the nonterminals they end in. -/
def ruleVariables (ctx : List (String × IlType)) (path : List String) : List Reference → Except Halt (List (String × IlType))
  | [] => .ok []
  | nt :: nts => do
    match nt.getLast?.bind fun last => ctx.lookup last.1 with
    | none => .error .crash
    | some ty => .ok ((pathName path ++ "_" ++ variableName nt, ty) :: (← ruleVariables ctx path nts))

/-- The constraints of a rule are kept for later. -/
def addRuleConstraints (ctx : List (String × IlType)) (path : List String) (search : Search) :
    List SemanticConstraint → Except Halt Search
  | [] => .ok search
  | .dependency _ _ :: scs => addRuleConstraints ctx path search scs
  | .syGuSExpr expr :: scs => do
    let declared ← search.declareSmtVariables (← ruleVariables ctx path expr.getNts)
    match universalizeExpr false path expr with
    | none => .error .crash
    | some universal => addRuleConstraints ctx path (declared.addConstraint universal) scs

/-- The constraints of an annotation are asserted one after the other, with a question to
the solver after each, whatever became of the tree in the meantime. -/
def annotate (ast : Ast) (node : OpenNode) (ty : IlType) (search : Search) : List SemanticConstraint → Except Halt Search
  | [] => .ok { search with phase := .select }
  | .dependency _ _ :: scs => annotate ast node ty search scs
  | .syGuSExpr expr :: scs => do
    let declared ← search.declareSmtVariables [(pathName node.path, ty)]
    match universalizeExpr true node.path expr with
    | none => .error .crash
    | some universal =>
      let asserted ← (declared.addConstraint universal).assertAndRemoveApplicableConstraints ast
      .ok { asserted with phase := .checkAnnot node ty scs }

/-- The children of a node, each a new one. -/
def children (path : List String) (fresh : Nat) : List GrammarElement → List DerivationTree
  | [] => []
  | .nonterminal nt :: ges => .node fresh nt [] (path ++ [nt]) [] :: children path (fresh + 1) ges
  | .stubbedNonterminal _ stub :: ges => .dependentTermLeaf stub :: children path (fresh + 1) ges

/-- One rule of several is a decision as long as another is left to try. -/
def decides (node : OpenNode) (rhss : List ProdRuleRhs) : Bool := node.visited.length + 1 < rhss.length

def decide (node : OpenNode) (rhss : List ProdRuleRhs) (search : Search) : Search :=
  if decides node rhss then { search.newDecisionLevel with decisionStack := node.ref :: search.decisionStack } else search

/-- The rule a node is expanded by. -/
def applyRule (ast : Ast) (ctx : List (String × IlType)) (node : OpenNode) (search : Search) :
    ProdRuleRhs → Except Halt Search
  | .stubbedRhs stub =>
    .ok { search with derivationTree := search.derivationTree.setChildren node.ref [.dependentTermLeaf stub] }
  | .rhs ges scs => do
    let expanded : Search := { search with
      derivationTree := search.derivationTree.setChildren node.ref (children node.path search.fresh ges)
      fresh := search.fresh + ges.length }
    let pending ← addRuleConstraints ctx node.path expanded scs
    let asserted ← pending.assertAndRemoveApplicableConstraints ast
    .ok { asserted with phase := .checkRule }

def expand (ast : Ast) (ctx : List (String × IlType)) (search : Search) (node : OpenNode) (option : Nat) :
    Except Halt Search :=
  match ast.rule node.nt with
  | none => .error .crash
  | some (.typeAnnot _ ty []) =>
    .ok { search with
      derivationTree := (search.derivationTree.visit node.ref 0).setChildren node.ref
        [.symbolicLeaf ty (node.path ++ [node.nt])] }
  | some (.typeAnnot _ ty scs) =>
    annotate ast node ty { search with derivationTree := search.derivationTree.visit node.ref 0 } scs
  | some (.prodRule _ rhss) =>
    if option ∈ node.visited then .error .refused
    else
      match rhss[option]? with
      | none => .error .refused
      | some rhs =>
        let decided := search.decide node rhss
        applyRule ast ctx node { decided with derivationTree := decided.derivationTree.visit node.ref option } rhs

end Search

inductive Input where
  | choose (ref option : Nat)
  | answer (model : Option Model)
  deriving DecidableEq, Repr

namespace Search

def receive (ast : Ast) (search : Search) (model : Option Model) : Except Halt Search :=
  match search.phase with
  | .select => .error .refused
  | .checkRule =>
    match model with
    | some _ => .ok { search with phase := .select }
    | none => do .ok { (← search.backtrack) with phase := .select }
  | .checkAnnot node ty todo =>
    match model with
    | some model =>
      let expanded := search.derivationTree.setChildren node.ref [.symbolicLeaf ty (node.path ++ [node.nt])]
      annotate ast node ty { search with derivationTree := expanded.instantiateTerminals model } todo
    | none => do annotate ast node ty (← search.backtrack) todo

def step (ast : Ast) (ctx : List (String × IlType)) (search : Search) : Input → Except Halt Search
  | .choose ref option =>
    if search.phase = .select ∧ search.derivationTree.isComplete = false then
      match search.derivationTree.frontier.find? fun node => node.ref = ref with
      | none => .error .refused
      | some node => expand ast ctx search node option
    else .error .refused
  | .answer model => search.receive ast model

/-- What follows the loop, with the solver's last answer. -/
def finish (search : Search) (model : Option Model) (random : List Nat → IlType → ModelValue) : Except Halt DerivationTree := do
  if search.phase = .select ∧ search.derivationTree.isComplete then
    let tree ←
      match model with
      | some model => .ok (search.derivationTree.instantiateTerminals model)
      | none => do .ok (← search.backtrack).derivationTree
    if tree.fillable then .ok (tree.fillUnconstrainedNonterminals random []) else .error .crash
  else .error .refused

end Search

/-- The whole search on its inputs. -/
def dpll (ctx : List (String × IlType)) (ast : Ast) (inputs : List Input) (last : Option Model)
    (random : List Nat → IlType → ModelValue) : Except Halt SygusAst := do
  let final ← Logic.run (Search.step ast ctx) (← Search.start ast) inputs
  .ok (← final.finish last random).sygusAst

namespace Search

/-- Declarations are all that a search with these two states has sent in between. -/
def Declares (search next : Search) : Prop :=
  ∃ declared commands, next = { search with declaredVariables := declared, sent := commands ++ search.sent } ∧
    ∀ command ∈ commands, ∃ name ty, command = .declareFun name ty

theorem Declares.solver {search next : Search} (declares : Declares search next) : next.solver = search.solver := by
  obtain ⟨declared, commands, rfl, only⟩ := declares
  simp only [Search.solver, List.foldr_append]
  induction commands with
  | nil => rfl
  | cons command commands ih =>
    obtain ⟨name, ty, rfl⟩ := only command List.mem_cons_self
    exact ih fun other member => only other (List.mem_cons_of_mem _ member)

theorem Declares.of_declareSmtVariables {search next : Search} {vars : List (String × IlType)}
    (executed : search.declareSmtVariables vars = .ok next) : Declares search next := by
  induction vars generalizing search with
  | nil =>
    cases executed
    exact ⟨next.declaredVariables, [], rfl, by simp⟩
  | cons var vars ih =>
    obtain ⟨name, ty⟩ := var
    have rest : Declares search next ∨ Declares { search with
        declaredVariables := name :: search.declaredVariables, sent := .declareFun name ty :: search.sent } next := by
      cases ty with
      | adt options => cases executed
      | _ =>
        simp only [declareSmtVariables] at executed
        split at executed
        · exact Or.inl (ih executed)
        · exact Or.inr (ih executed)
    rcases rest with known | new
    · exact known
    · obtain ⟨declared, commands, rfl, only⟩ := new
      refine ⟨declared, commands ++ [.declareFun name ty], by simp, ?_⟩
      intro command member
      rcases List.mem_append.mp member with earlier | last
      · exact only command earlier
      · exact ⟨name, ty, List.mem_singleton.mp last⟩

end Search

end LtlFuzz.PacketGen.Dpll

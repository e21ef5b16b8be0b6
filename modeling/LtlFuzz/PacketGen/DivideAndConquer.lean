import LtlFuzz.PacketGen.Completion
import LtlFuzz.PacketGen.ConstraintMeaning
import LtlFuzz.PacketGen.DeadRules
import LtlFuzz.PacketGen.MergeOverlapping

/-! `divideAndConquer.ml` and `recombine.ml`: every rule with constraints becomes a problem of its own,
with a stub in its place, and the solutions are put together again by the numbers of the stubs. -/

namespace LtlFuzz.PacketGen

section Splitting

/-- The right-hand sides with constraints are cut out, the last one first. -/
def stubSubproblemsProdRuleRhss (nt : String) (elements : Ast) (k : Nat) : List ProdRuleRhs → List ProdRuleRhs × List Ast × Nat
  | [] => ([], [], k)
  | .rhs ges [] :: tl =>
    let below := stubSubproblemsProdRuleRhss nt elements k tl
    (.rhs ges [] :: below.1, below.2)
  | .stubbedRhs stub :: tl =>
    let below := stubSubproblemsProdRuleRhss nt elements k tl
    (.stubbedRhs stub :: below.1, below.2)
  | .rhs ges (sc :: scs) :: tl =>
    let below := stubSubproblemsProdRuleRhss nt elements k tl
    let stubId := mkFreshStubId below.2.2 nt
    (.stubbedRhs stubId :: below.1, (.prodRule stubId [.rhs ges (sc :: scs)] :: elements) :: below.2.1, below.2.2 + 1)

/-- `stub_subproblems'`. -/
def stubElements (k : Nat) : Ast → Ast × List Ast × Nat
  | [] => ([], [], k)
  | .prodRule nt rhss :: elements =>
    let below := stubElements k elements
    let here := stubSubproblemsProdRuleRhss nt elements below.2.2 rhss
    (.prodRule nt here.1 :: below.1, below.2.1 ++ here.2.1, here.2.2)
  | .typeAnnot nt ty [] :: elements =>
    let below := stubElements k elements
    (.typeAnnot nt ty [] :: below.1, below.2)
  | .typeAnnot nt ty (sc :: scs) :: elements =>
    let below := stubElements k elements
    (.prodRule nt [.stubbedRhs nt] :: below.1, (.typeAnnot nt ty (sc :: scs) :: elements) :: below.2.1, below.2.2)

/-- The constraints of the start symbol stay where they are. -/
def stubSubproblems (k : Nat) : Ast → Ast × List Ast × Nat
  | [] => ([], [], k)
  | element :: ast =>
    let below := stubElements k ast
    (element :: below.1, below.2)

/-- One problem after the other. -/
def splitAll (split : Nat → Ast → Except Fault (List Ast × Nat)) (k : Nat) : List Ast → Except Fault (List Ast × Nat)
  | [] => .ok ([], k)
  | ast :: asts => do
    let (first, k) ← split k ast
    let (rest, k) ← splitAll split k asts
    .ok (first ++ rest, k)

/-- `split_ast'`. -/
def splitNested : Nat → Nat → Ast → Except Fault (List Ast × Nat)
  | 0, _, _ => .error .diverges
  | fuel + 1, k, ast => do
    let stubbed := stubSubproblems k ast
    let (asts, k) ← splitAll (splitNested fuel) stubbed.2.2 stubbed.2.1
    .ok ((stubbed.1 :: asts).filter fun ast => ast ≠ [], k)

def reachableAst (lib : GraphLib) : Ast → Except Fault (Option Ast)
  | .prodRule sym rhss :: elements => deadRuleRemoval lib (.prodRule sym rhss :: elements) sym
  | .typeAnnot sym ty scs :: _ => .ok (some [.typeAnnot sym ty scs])
  | [] => .error (.internalError "Unexpected case in split_ast")

def sequenceOption {α : Type} : List (Option α) → Option (List α)
  | [] => some []
  | some x :: xs => (sequenceOption xs).map (x :: ·)
  | none :: _ => none

/-- `split_ast`, after `k` identifiers were made. A problem is shorter than the one it is cut out of. -/
def splitAst (lib : GraphLib) (k : Nat) (ast : Ast) : Except Fault (Option (List Ast)) := do
  let (asts, _) ← splitNested (ast.length + 1) k ast
  .ok (sequenceOption (← asts.mapM (reachableAst lib)))

end Splitting

section Recombining

/-- `_stub[0-9]+` at the beginning of a text. -/
def stubAt : List Char → Option (List Char)
  | '_' :: 's' :: 't' :: 'u' :: 'b' :: digit :: rest =>
    if digit.isDigit then some (['_', 's', 't', 'u', 'b'] ++ digit :: rest.takeWhile Char.isDigit) else none
  | _ => none

/-- The first `_stub[0-9]+` in a text. -/
def searchStub : List Char → List Char
  | [] => []
  | c :: rest => (stubAt (c :: rest)).getD (searchStub rest)

def extractStub (str : String) : String :=
  let str := lowercaseAscii str
  String.ofList (searchStub ((beforeCon str).getD str).toList)

def replaceStub (possibleStub : String) (sygusAsts : List SygusAst) : Option SygusAst :=
  sygusAsts.find? fun sygusAst =>
    match sygusAst with
    | .node constructor _ =>
      (extractStub possibleStub = extractStub constructor ∧ extractStub possibleStub ≠ "") ∨ possibleStub = constructor
    | _ => false

mutual

def recombineWith (replace : String → Except Fault SygusAst) : SygusAst → Except Fault SygusAst
  | .node constructor children => do .ok (.node constructor (← recombineChildren replace children))
  | .varLeaf possibleStub => replace possibleStub
  | leaf => .ok leaf

def recombineChildren (replace : String → Except Fault SygusAst) : List SygusAst → Except Fault (List SygusAst)
  | [] => .ok []
  | child :: children => do
    let first ← recombineWith replace child
    .ok (first :: (← recombineChildren replace children))

end

/-- A solution that takes the place of a stub is recombined as well. Nothing bounds how often this is
repeated. -/
def replaceLeaf (sygusAsts : List SygusAst) : Nat → String → Except Fault SygusAst
  | 0, _ => .error .diverges
  | fuel + 1, possibleStub =>
    match replaceStub possibleStub sygusAsts with
    | some sygusAst => recombineWith (replaceLeaf sygusAsts fuel) sygusAst
    | none => .ok (.varLeaf possibleStub)

/-- The first tree is the one that the others are put into. -/
def recombine (fuel : Nat) : List SygusAst → Except Fault SygusAst
  | [] => .error .assertFailure
  | first :: sygusAsts => recombineWith (replaceLeaf sygusAsts fuel) first

end Recombining

section Solutions
open Dpll (ModelValue)

/-- A derivation tree with the nonterminals its parts were derived from. A stub stands for a dependent
term or for the solution of another problem. -/
inductive ParseTree where
  | leaf (nt : String) (value : SygusAst)
  | stub (nt name : String)
  | node (nt constructor : String) (scs : List SemanticConstraint) (children : List ParseTree)

namespace ParseTree

def nt : ParseTree → String
  | .leaf nt _ => nt
  | .stub nt _ => nt
  | .node nt _ _ _ => nt

mutual

/-- The form in which an engine returns a tree. -/
def sygusAst : ParseTree → SygusAst
  | .leaf _ value => value
  | .stub _ name => .varLeaf name
  | .node _ constructor _ children => .node constructor (sygusAsts children)

def sygusAsts : List ParseTree → List SygusAst
  | [] => []
  | child :: children => child.sygusAst :: sygusAsts children

end

mutual

/-- The leaves that are values of annotated types. -/
def values : ParseTree → List SygusAst
  | .leaf _ value => [value]
  | .stub _ _ => []
  | .node _ _ _ children => allValues children

def allValues : List ParseTree → List SygusAst
  | [] => []
  | child :: children => child.values ++ allValues children

end

end ParseTree

/-- The value of a leaf. -/
def SygusAst.modelValue? : SygusAst → Option ModelValue
  | .node _ _ => none
  | .bvLeaf len bits => some (.bitVector len bits)
  | .intLeaf value => some (.int value)
  | .blLeaf bits => some (.bitList bits)
  | .boolLeaf value => some (.bool value)
  | .strLeaf text => some (.string text)
  | .varLeaf name => some (.placeholder name)

/-- The children that an entry of a reference names. -/
def ParseTree.select (entry : String × Option Nat) (children : List ParseTree) : List ParseTree :=
  let named := children.filter fun child => child.nt = entry.1
  match entry.2 with
  | none => named
  | some index => named[index]?.toList

/-- The values a reference leads to below a tree. -/
def ParseTree.occurrences : ParseTree → Reference → List ModelValue
  | .leaf _ value, [] => value.modelValue?.toList
  | .node _ _ _ children, entry :: rest => (ParseTree.select entry children).flatMap fun child => child.occurrences rest
  | _, _ => []

/-- A constraint as a formula. A dependency is the equation that it becomes when it is on a cycle. -/
def SemanticConstraint.formula : SemanticConstraint → Expr
  | .syGuSExpr expr => expr
  | .dependency nt expr => .compOp (.ntExpr [] [(nt, none)]) .eq expr

/-- A constraint holds whichever of the values its references lead to are taken. -/
def SemanticConstraint.Holds (theory : Theory) (occurrences : Reference → List ModelValue) (sc : SemanticConstraint) : Prop :=
  ∀ value : Reference → Option ModelValue,
    (∀ reference ∈ sc.formula.references, ∃ found ∈ occurrences reference, value reference = some found) →
    sc.formula.eval theory value = some (.bool true)

/-- The constraint of an annotation names the leaf itself. -/
def ownOccurrences (nt : String) (value : SygusAst) : Reference → List ModelValue
  | [entry] => if entry.1 = nt then value.modelValue?.toList else []
  | _ => []

/-- The name of the leaf for a right-hand side that was cut out. -/
def cutLeaf (stub : String) (index : Nat) : String := lowercaseAscii stub ++ "_con" ++ toString index

mutual

/-- Derivation trees of a grammar that satisfy the constraints of all rules and annotations they are
made of. Where a right-hand side was cut out there is a leaf for its stub. -/
inductive Solves (theory : Theory) (ast : Ast) : ParseTree → Prop where
  | leaf {nt ty scs value} (annot : .typeAnnot nt ty scs ∈ ast) (typed : value.HasType ty)
    (holds : ∀ sc ∈ scs, sc.Holds theory (ownOccurrences nt value)) : Solves theory ast (.leaf nt value)
  | stub {nt rhss index stub} (rule : .prodRule nt rhss ∈ ast) (rhs : rhss[index]? = some (.stubbedRhs stub)) :
    Solves theory ast (.stub nt (cutLeaf stub index))
  | node {nt rhss index ges scs constructor children} (rule : .prodRule nt rhss ∈ ast) (rhs : rhss[index]? = some (.rhs ges scs))
    (named : NamesNode nt constructor index) (below : SolvesAll theory ast ges children)
    (holds : ∀ sc ∈ scs, sc.Holds theory (ParseTree.node nt constructor scs children).occurrences) :
    Solves theory ast (.node nt constructor scs children)

inductive SolvesAll (theory : Theory) (ast : Ast) : List GrammarElement → List ParseTree → Prop where
  | nil : SolvesAll theory ast [] []
  | nonterminal {nt ges child children} (labelled : child.nt = nt) (first : Solves theory ast child)
    (rest : SolvesAll theory ast ges children) : SolvesAll theory ast (.nonterminal nt :: ges) (child :: children)
  | stub {nt stub ges children} (rest : SolvesAll theory ast ges children) :
    SolvesAll theory ast (.stubbedNonterminal nt stub :: ges) (.stub nt (stubLeaf stub) :: children)

end

/-- A solution of a problem: a tree for the nonterminal of its first element. -/
def IsSolution (theory : Theory) (ast : Ast) (tree : ParseTree) : Prop :=
  Solves theory ast tree ∧ ∃ element elements, ast = element :: elements ∧ tree.nt = element.nt

mutual

/-- A tree without the names of its nodes. -/
def SygusAst.shape : SygusAst → SygusAst
  | .node _ children => .node "" (shapes children)
  | leaf => leaf

def shapes : List SygusAst → List SygusAst
  | [] => []
  | child :: children => child.shape :: shapes children

end

mutual

/-- The names of the leaves that are no constants. -/
def SygusAst.variables : SygusAst → List String
  | .node _ children => allVariables children
  | .varLeaf name => [name]
  | _ => []

def allVariables : List SygusAst → List String
  | [] => []
  | child :: children => child.variables ++ allVariables children

end

end Solutions

end LtlFuzz.PacketGen

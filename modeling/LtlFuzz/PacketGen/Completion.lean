import LtlFuzz.PacketGen.AbstractDeps
import LtlFuzz.PacketGen.CheckSygusAst
import LtlFuzz.PacketGen.CircularDeps

/-! What dependent terms stand for. A derivation tree of a grammar without its dependent terms is
completed by values for them, and each value is that of an expression on the completed tree. -/

namespace LtlFuzz.PacketGen

section Trees

/-- Derivation trees. A node is labelled with the elements and the constraints it was made from. -/
inductive Derivation where
  | value (nt : String) (leaf : SygusAst)
  | dependent (nt stub : String)
  | node (nt constructor : String) (ges : List GrammarElement) (scs : List SemanticConstraint) (children : List Derivation)

namespace Derivation

def nt : Derivation → String
  | .value nt _ => nt
  | .dependent nt _ => nt
  | .node nt _ _ _ _ => nt

mutual

/-- The form in which an engine returns a tree. -/
def sygusAst : Derivation → SygusAst
  | .value _ leaf => leaf
  | .dependent _ stub => .varLeaf (stubLeaf stub)
  | .node _ constructor _ _ children => .node constructor (sygusAsts children)

def sygusAsts : List Derivation → List SygusAst
  | [] => []
  | child :: children => child.sygusAst :: sygusAsts children

end

mutual

/-- The nodes of a tree. -/
def nodes : Derivation → List Derivation
  | .node nt constructor ges scs children => .node nt constructor ges scs children :: allNodes children
  | _ => []

def allNodes : List Derivation → List Derivation
  | [] => []
  | child :: children => child.nodes ++ allNodes children

end

/-- The place of a child among those of the same name. -/
def place? : List Derivation → String → Nat → Option Nat
  | [], _, _ => none
  | child :: children, name, k =>
    if child.nt = name then if k = 0 then some 0 else (place? children name (k - 1)).map (· + 1)
    else (place? children name k).map (· + 1)

/-- The child that a nonterminal of a reference names. -/
def child? (children : List Derivation) (nt : String × Option Nat) : Option Derivation :=
  (children.filter fun child => child.nt = nt.1)[nt.2.getD 0]?

/-- The subtree that a dotted reference leads to. -/
def follow : Derivation → Reference → Option Derivation
  | tree, [] => some tree
  | .node _ _ _ _ children, nt :: rest =>
    match child? children nt with
    | none => none
    | some child => child.follow rest
  | _, _ :: _ => none

/-- The constants that a reference stands for. -/
def reading (tree : Derivation) : Reference → Except Fault (List Expr)
  | [] => .error (.internalError "Unexpected case in evaluate")
  | nt :: rest =>
    match tree.follow (nt :: rest) with
    | none => .error .notFound
    | some subtree => .ok (sygusAstToExpr subtree.sygusAst)

theorem place?_spec (children : List Derivation) (name : String) (k : Nat) :
    (children.filter fun child => child.nt = name)[k]? = (place? children name k).bind (children[·]?) := by
  induction children generalizing k with
  | nil => rfl
  | cons child children ih =>
    have later : ∀ found : Option Nat, (found.map (· + 1)).bind ((child :: children)[·]?) = found.bind (children[·]?) := by
      intro found
      cases found <;> rfl
    rw [place?, List.filter_cons]
    by_cases named : child.nt = name
    · rw [if_pos named, if_pos (by simpa using named)]
      cases k with
      | zero => rfl
      | succ k => rw [if_neg (Nat.succ_ne_zero k), Nat.add_sub_cancel, List.getElem?_cons_succ, ih, later]
    · rw [if_neg named, if_neg (by simpa using named), ih, later]

theorem sygusAsts_at (children : List Derivation) (place : Nat) : (sygusAsts children)[place]? = children[place]?.map sygusAst := by
  induction children generalizing place with
  | nil => rfl
  | cons child children ih =>
    cases place with
    | zero => rfl
    | succ place => exact ih place

end Derivation

/-- The value of an expression, given those of its references. -/
def Expr.value (reading : Reference → Except Fault (List Expr)) : Expr → Except Fault (List Expr)
  | .ntExpr _ nts => reading nts
  | .unOp op expr => do evalUnOp op (← expr.value reading)
  | .strLength expr => do evalStrLength (← expr.value reading)
  | .binOp expr1 op expr2 => do
    let expr1 ← expr1.value reading
    evalBinOp op expr1 (← expr2.value reading)
  | .compOp expr1 op expr2 => do
    let expr1 ← expr1.value reading
    evalCompOp op expr1 (← expr2.value reading)
  | .length expr => do evalLength 0 (← expr.value reading)
  | .bvCast len expr => do evalCast len (← expr.value reading)
  | .matching _ _ _ => .error (.internalError "Match not yet supported in dependency computation")
  | expr => .ok [expr]

/-- The references of an expression, as they are written. -/
def Expr.dottedReferences : Expr → List Reference
  | .ntExpr _ nts => [nts]
  | .unOp _ expr => expr.dottedReferences
  | .strLength expr => expr.dottedReferences
  | .binOp expr1 _ expr2 => expr1.dottedReferences ++ expr2.dottedReferences
  | .compOp expr1 _ expr2 => expr1.dottedReferences ++ expr2.dottedReferences
  | .length expr => expr.dottedReferences
  | .bvCast _ expr => expr.dottedReferences
  | _ => []

/-- The leaf that holds a constant. -/
def Expr.asLeaf : Expr → Option SygusAst
  | .intConst value => some (.intLeaf value)
  | .bConst value => some (.boolLeaf value)
  | .strConst text => some (.strLeaf text)
  | .phConst name => some (.varLeaf name)
  | .bvConst len bits => some (.bvLeaf len bits)
  | .blConst bits => some (.blLeaf bits)
  | _ => none

end Trees

section Grammars

/-- The names under which the engines return a node. -/
def NamesNode (nt constructor : String) (index : Nat) : Prop :=
  constructor = nt ∨ constructor = lowercaseAscii nt ++ "_con" ++ toString index

mutual

/-- The derivation trees of a grammar from which dependent terms were taken out, beside the grammar
from which they were. -/
inductive Generates (ast ast' : Ast) : Derivation → Prop where
  | value {nt ty scs scs' leaf} (annot : (.typeAnnot nt ty scs, .typeAnnot nt ty scs') ∈ ast.zip ast') (typed : leaf.HasType ty) :
    Generates ast ast' (.value nt leaf)
  | node {nt rhss rhss' index ges ges' scs scs' constructor children} (rule : (.prodRule nt rhss, .prodRule nt rhss') ∈ ast.zip ast')
    (rhs : rhss[index]? = some (.rhs ges scs)) (rhs' : rhss'[index]? = some (.rhs ges' scs')) (named : NamesNode nt constructor index)
    (below : GeneratesAll ast ast' ges' children) : Generates ast ast' (.node nt constructor ges' scs children)
  | annotated {nt ty scs rhss' index ges' scs' constructor children}
    (annot : (.typeAnnot nt ty scs, .prodRule nt rhss') ∈ ast.zip ast') (rhs' : rhss'[index]? = some (.rhs ges' scs'))
    (named : NamesNode nt constructor index) (below : GeneratesAll ast ast' ges' children) :
    Generates ast ast' (.node nt constructor ges' scs children)

inductive GeneratesAll (ast ast' : Ast) : List GrammarElement → List Derivation → Prop where
  | nil : GeneratesAll ast ast' [] []
  | nonterminal {ges child children} (first : Generates ast ast' child) (rest : GeneratesAll ast ast' ges children) :
    GeneratesAll ast ast' (.nonterminal child.nt :: ges) (child :: children)
  | stub {nt stub ges children} (rest : GeneratesAll ast ast' ges children) :
    GeneratesAll ast ast' (.stubbedNonterminal nt stub :: ges) (.dependent nt stub :: children)

end

/-- A leaf that is not taken for a dependent term. -/
def SygusAst.Settled (depMap : DepMap) (leaf : SygusAst) : Prop := ∀ name, leaf = .varLeaf name → isDependent depMap name = false

mutual

/-- A tree is completed by leaves of the annotated types, which hold the values of the expressions
that define them on the completed node. -/
inductive Completes (ast : Ast) (depMap : DepMap) : Derivation → Derivation → Prop where
  | value {nt leaf} : Completes ast depMap (.value nt leaf) (.value nt leaf)
  | node {nt constructor ges scs children completed}
    (below : CompletesAll ast depMap (.node nt constructor ges scs completed) scs children completed) :
    Completes ast depMap (.node nt constructor ges scs children) (.node nt constructor ges scs completed)

inductive CompletesAll (ast : Ast) (depMap : DepMap) : Derivation → List SemanticConstraint → List Derivation → List Derivation → Prop where
  | nil {whole scs} : CompletesAll ast depMap whole scs [] []
  | child {whole scs child child' children completed} (first : Completes ast depMap child child')
    (rest : CompletesAll ast depMap whole scs children completed) :
    CompletesAll ast depMap whole scs (child :: children) (child' :: completed)
  | dependent {whole scs nt stub expr constant leaf ty annots children completed}
    (defined : scs.find? (SemanticConstraint.defines nt) = some (.dependency nt expr))
    (evaluated : expr.value whole.reading = .ok [constant]) (held : constant.asLeaf = some leaf)
    (annot : .typeAnnot nt ty annots ∈ ast) (typed : leaf.HasType ty) (settled : leaf.Settled depMap)
    (rest : CompletesAll ast depMap whole scs children completed) :
    CompletesAll ast depMap whole scs (.dependent nt stub :: children) (.value nt leaf :: completed)

end

end Grammars

section Conditions

/-- The dependent terms of a tree are defined by expressions without references. -/
def Derivation.Closed (tree : Derivation) : Prop :=
  ∀ nt constructor ges scs children, .node nt constructor ges scs children ∈ tree.nodes →
    ∀ other stub expr, .dependent other stub ∈ children →
      scs.find? (SemanticConstraint.defines other) = some (.dependency other expr) → expr.dottedReferences = []

/-- A child stands where its nonterminal stands in the first right-hand side of a rule. -/
def Element.Locates (element : Element) (children : List Derivation) (nt : String × Option Nat) (child : Derivation) : Prop :=
  ∃ place, Derivation.place? children nt.1 (nt.2.getD 0) = some place ∧ childIndex element nt.1 = .ok place ∧
    children[place]? = some child

/-- A reference that is looked up where it leads. What it comes to may be a dependent term, if what this one refers to is
looked up where it leads from the same rule, and a composite term only if nothing in it depends on other terms. -/
inductive ReferenceSafe (ast' : Ast) : Element → Derivation → Reference → Prop where
  | whole {element nt constructor ges scs children entry child} (located : element.Locates children entry child)
    (known : ∀ other stub, child ≠ .dependent other stub) (closed : child.Closed) :
    ReferenceSafe ast' element (.node nt constructor ges scs children) [entry]
  | dependent {element nt constructor ges scs children entry other stub} (located : element.Locates children entry (.dependent other stub))
    (terms : ∀ expr, scs.find? (SemanticConstraint.defines other) = some (.dependency other expr) → ∀ nts ∈ expr.dottedReferences,
      ReferenceSafe ast' element (.node nt constructor ges scs children) nts) :
    ReferenceSafe ast' element (.node nt constructor ges scs children) [entry]
  | further {element rule nt constructor ges scs children entry child next rest} (located : element.Locates children entry child)
    (ruled : ast'.find? (Element.isRuleOf entry.1) = some rule) (inner : ReferenceSafe ast' rule child (next :: rest)) :
    ReferenceSafe ast' element (.node nt constructor ges scs children) (entry :: next :: rest)

/-- A node that is filled in as it should be. It has no placeholders below it; and where a dependent
term is below it, a rule is found under the name of the node in capitals, the term is neither a truth
value nor a string, and what it refers to is looked up where it is. -/
def NodeSafe (ast ast' : Ast) : Derivation → Prop
  | .node nt constructor ges scs children =>
    (∀ other name, .value other (.varLeaf name) ∉ children) ∧
    ∀ other stub, .dependent other stub ∈ children →
      (∀ ty annots, .typeAnnot other ty annots ∈ ast → ty ≠ .bool ∧ ty ≠ .string) ∧
      ∃ element, ast'.find? (fun element => element.nt = removeSuffix (removeStub constructor)) = some element ∧
        ∀ expr, scs.find? (SemanticConstraint.defines other) = some (.dependency other expr) →
          ∀ nts ∈ expr.dottedReferences, ReferenceSafe ast' element (.node nt constructor ges scs children) nts
  | _ => True

/-- A tree whose dependent terms are filled in as they should be. -/
structure TreeSafe (ast ast' : Ast) (tree : Derivation) : Prop where
  root : ∀ nt name, tree ≠ .value nt (.varLeaf name)
  nodes : ∀ node ∈ tree.nodes, NodeSafe ast ast' node

/-- No dependent term depends on itself. -/
def Ast.NonCircular (ast : Ast) : Prop :=
  (∀ ges scs, ast.HasRhs ges scs → Acyclic scs) ∧ ∀ nt ty scs, .typeAnnot nt ty scs ∈ ast → Acyclic scs

end Conditions

end LtlFuzz.PacketGen

import LtlFuzz.Logic.Elementwise
import LtlFuzz.PacketGen.ComputeDeps

/-! `checkSygusAst.ml`: whether a tree is an instance of a grammar. Only nodes are compared with
the grammar; a leaf may stand for any nonterminal. -/

namespace LtlFuzz.PacketGen

section Checker

/-- Names come with the constructor suffix of the solver or without it. -/
def extractPrefix (s : String) : String := (beforeCon s).getD s

def strEqCi (s1 s2 : String) : Bool := lowercaseAscii s1 = lowercaseAscii s2

def checkStartSymbol : Ast → SygusAst → Except Fault (Except String Unit)
  | .prodRule nt _ :: _, .node constructor _ =>
    if strEqCi nt (extractPrefix constructor) then .ok (.ok ())
    else
      .ok (.error
        ("Sygus AST root constructor '" ++ constructor ++ "' does not match the AST start symbol '" ++ nt ++ "'"))
  | .typeAnnot _ _ _ :: _, _ => .error (.internalError "Unexpected case in check_start_symbol")
  | _, _ => .ok (.error "Sygus AST root node is a leaf node")

/-- The production rules of the nonterminal that a constructor belongs to. -/
def rulesOf (ast : Ast) (constructor : String) : Option (String × List ProdRuleRhs) :=
  ast.findSome? fun element =>
    match element with
    | .typeAnnot _ _ _ => none
    | .prodRule nt rhss => if strEqCi (extractPrefix constructor) nt then some (nt, rhss) else none

def fits : SygusAst → GrammarElement → Bool
  | _, .stubbedNonterminal _ _ => false
  | .node constructor _, .nonterminal nt => strEqCi (extractPrefix constructor) nt
  | _, _ => true

def allFit : List SygusAst → List GrammarElement → Bool
  | [], [] => true
  | child :: children, ge :: ges => fits child ge && allFit children ges
  | _, _ => false

def ProdRuleRhs.fits (children : List SygusAst) : ProdRuleRhs → Bool
  | .stubbedRhs _ => false
  | .rhs ges _ => allFit children ges

def evaluateConstraint (sygusAst : SygusAst) (ast : Ast) (nt : String) (rhss : List ProdRuleRhs) :
    SemanticConstraint → Except Fault (List Expr)
  | .syGuSExpr expr => evaluate 0 [] sygusAst ast (.prodRule nt rhss) expr
  | .dependency dependent expr =>
    evaluate 0 [] sygusAst ast (.prodRule dependent rhss) (.compOp (.ntExpr [] [(dependent, none)]) .eq expr)

/-- Whether one of the values is false, as long as they are truth values. -/
def falsified : List (List Expr) → Except Fault Bool
  | [] => .ok false
  | [.bConst false] :: _ => .ok true
  | [.bConst true] :: values => falsified values
  | _ :: _ => .error (.failure "Unexpected pattern in check_syntax_semantics")

def seq : List (Except String Unit) → Except String Unit
  | [] => .ok ()
  | .ok () :: results => seq results
  | .error message :: _ => .error message

def checkNode (ast : Ast) (constructor : String) (children : List SygusAst) : Except Fault (Except String Unit) :=
  match rulesOf ast constructor with
  | none => .ok (.error ("Dangling constructor identifier " ++ constructor))
  | some (nt, rhss) =>
    match rhss.find? (ProdRuleRhs.fits children) with
    | none => .ok (.error ("Could not find an associated production rule for constructor '" ++ constructor ++ "'"))
    | some (.stubbedRhs _) => .error .assertFailure
    | some (.rhs _ scs) => do
      let values ← scs.mapM (evaluateConstraint (.node constructor children) ast nt rhss)
      if ← falsified values then .ok (.error ("Semantic constraint on constructor '" ++ constructor ++ " is falsified"))
      else .ok (.ok ())

mutual

def checkSyntaxSemantics (ast : Ast) : SygusAst → Except Fault (Except String Unit)
  | .node constructor children => do
    match seq (← checkChildren ast children) with
    | .error message => .ok (.error message)
    | .ok () => checkNode ast constructor children
  | _ => .ok (.ok ())

def checkChildren (ast : Ast) : List SygusAst → Except Fault (List (Except String Unit))
  | [] => .ok []
  | child :: children => do
    let first ← checkSyntaxSemantics ast child
    .ok (first :: (← checkChildren ast children))

end

def checkSygusAst (ast : Ast) (sygusAst : SygusAst) : Except Fault (Except String Unit) := do
  match ← checkStartSymbol ast sygusAst with
  | .error message => .ok (.error message)
  | .ok () => checkSyntaxSemantics ast sygusAst

end Checker

section Accepted

namespace SygusAst

mutual

/-- The nodes of a tree with their children. -/
def nodes : SygusAst → List (String × List SygusAst)
  | .node constructor children => (constructor, children) :: allNodes children
  | _ => []

def allNodes : List SygusAst → List (String × List SygusAst)
  | [] => []
  | child :: children => child.nodes ++ allNodes children

end

end SygusAst

/-- Children in the form of a right-hand side: where one of them is a node, it belongs to the
nonterminal in its place. -/
def InstanceOf (children : List SygusAst) (ges : List GrammarElement) : Prop :=
  List.Forall₂ (fun child ge => ∃ nt, ge = .nonterminal nt ∧
    ∀ constructor inner, child = .node constructor inner → strEqCi (extractPrefix constructor) nt = true) children ges

/-- A node is an instance of a right-hand side of its nonterminal all of whose constraints hold. -/
def NodeOk (ast : Ast) (constructor : String) (children : List SygusAst) : Prop :=
  ∃ nt rhss ges scs, .prodRule nt rhss ∈ ast ∧ strEqCi (extractPrefix constructor) nt = true ∧ .rhs ges scs ∈ rhss ∧
    InstanceOf children ges ∧
    ∀ sc ∈ scs, evaluateConstraint (.node constructor children) ast nt rhss sc = .ok [.bConst true]

private theorem instanceOf_of_allFit {children : List SygusAst} {ges : List GrammarElement} (all : allFit children ges = true) :
    InstanceOf children ges := by
  induction children generalizing ges with
  | nil =>
    cases ges with
    | nil => exact .nil
    | cons ge ges => cases all
  | cons child children ih =>
    cases ges with
    | nil => cases all
    | cons ge ges =>
      simp only [allFit, Bool.and_eq_true] at all
      refine .cons ?_ (ih all.2)
      cases ge with
      | stubbedNonterminal nt stub =>
        have wrong := all.1
        simp [fits] at wrong
      | nonterminal nt =>
        refine ⟨nt, rfl, ?_⟩
        rintro constructor inner rfl
        exact all.1

private theorem rulesOf_some {ast : Ast} {constructor nt : String} {rhss : List ProdRuleRhs}
    (found : rulesOf ast constructor = some (nt, rhss)) :
    .prodRule nt rhss ∈ ast ∧ strEqCi (extractPrefix constructor) nt = true := by
  obtain ⟨element, inside, chosen⟩ := List.exists_of_findSome?_eq_some found
  cases element with
  | typeAnnot other ty scs => cases chosen
  | prodRule other rules =>
    dsimp only at chosen
    split at chosen
    · rename_i named
      cases chosen
      exact ⟨inside, named⟩
    · cases chosen

private theorem falsified_none {values : List (List Expr)} (none_ : falsified values = .ok false) :
    ∀ own ∈ values, own = [.bConst true] := by
  induction values with
  | nil => exact fun own member => nomatch member
  | cons first rest ih =>
    have holds : first = [.bConst true] ∧ falsified rest = .ok false := by
      unfold falsified at none_
      split at none_
      · rename_i wrong
        cases wrong
      · cases none_
      · rename_i same
        cases same
        exact ⟨rfl, none_⟩
      · cases none_
    exact List.forall_mem_cons.mpr ⟨holds.1, ih holds.2⟩

private theorem mapM_falsified {scs : List SemanticConstraint} {value : SemanticConstraint → Except Fault (List Expr)}
    {values : List (List Expr)} (evaluated : scs.mapM value = .ok values) (none_ : falsified values = .ok false) :
    ∀ sc ∈ scs, value sc = .ok [.bConst true] := by
  intro sc member
  obtain ⟨own, listed, isOwn⟩ := Logic.related_left (Logic.mapM_ok_iff.mp evaluated) sc member
  rw [isOwn, falsified_none none_ own listed]

private theorem checkNode_ok {ast : Ast} {constructor : String} {children : List SygusAst}
    (accepted : checkNode ast constructor children = .ok (.ok ())) : NodeOk ast constructor children := by
  simp only [checkNode] at accepted
  split at accepted
  · cases accepted
  · rename_i nt rhss found
    obtain ⟨rule, named⟩ := rulesOf_some found
    split at accepted
    · cases accepted
    · cases accepted
    · rename_i ges scs chosen
      obtain ⟨values, evaluated, accepted⟩ := Logic.bind_ok accepted
      obtain ⟨wrong, counted, accepted⟩ := Logic.bind_ok accepted
      cases wrong with
      | true => cases accepted
      | false =>
        have fit : (ProdRuleRhs.rhs ges scs).fits children = true := List.find?_some chosen
        exact ⟨nt, rhss, ges, scs, rule, named, List.mem_of_find?_eq_some chosen, instanceOf_of_allFit fit,
          mapM_falsified evaluated counted⟩

private theorem seq_ok {result : Except String Unit} {results : List (Except String Unit)} (all : seq (result :: results) = .ok ()) :
    result = .ok () ∧ seq results = .ok () := by
  cases result with
  | error message => cases all
  | ok value => exact ⟨rfl, all⟩

mutual

private theorem checked_nodes (ast : Ast) : ∀ tree : SygusAst, checkSyntaxSemantics ast tree = .ok (.ok ()) →
    ∀ node ∈ tree.nodes, NodeOk ast node.1 node.2
  | .node constructor children, accepted, node, member => by
    simp only [checkSyntaxSemantics] at accepted
    obtain ⟨results, checked, accepted⟩ := Logic.bind_ok accepted
    split at accepted
    · cases accepted
    · rename_i fine
      rcases List.mem_cons.mp member with rfl | below
      · exact checkNode_ok accepted
      · exact checked_children ast children results checked fine node below
  | .bvLeaf _ _, _, _, member => nomatch member
  | .intLeaf _, _, _, member => nomatch member
  | .blLeaf _, _, _, member => nomatch member
  | .boolLeaf _, _, _, member => nomatch member
  | .strLeaf _, _, _, member => nomatch member
  | .varLeaf _, _, _, member => nomatch member

private theorem checked_children (ast : Ast) : ∀ (trees : List SygusAst) (results : List (Except String Unit)),
    checkChildren ast trees = .ok results → seq results = .ok () →
    ∀ node ∈ SygusAst.allNodes trees, NodeOk ast node.1 node.2
  | [], _, _, _, _, member => nomatch member
  | tree :: trees, results, checked, fine, node, member => by
    simp only [checkChildren] at checked
    obtain ⟨first, own, checked⟩ := Logic.bind_ok checked
    obtain ⟨rest, others, same⟩ := Logic.bind_ok checked
    cases same
    obtain ⟨good, fine⟩ := seq_ok fine
    rw [good] at own
    rcases List.mem_append.mp member with inside | below
    · exact checked_nodes ast tree own node inside
    · exact checked_children ast trees rest others fine node below

end

/-- An accepted tree starts with the start symbol of the grammar, and every node in it is an
instance of a right-hand side whose constraints evaluate to true on it. -/
theorem checkSygusAst_sound (ast : Ast) (tree : SygusAst) (accepted : checkSygusAst ast tree = .ok (.ok ())) :
    (∃ nt rhss elements constructor children, ast = .prodRule nt rhss :: elements ∧ tree = .node constructor children ∧
      strEqCi nt (extractPrefix constructor) = true) ∧
    ∀ node ∈ tree.nodes, NodeOk ast node.1 node.2 := by
  simp only [checkSygusAst] at accepted
  obtain ⟨started, isStart, accepted⟩ := Logic.bind_ok accepted
  cases started with
  | error message => cases accepted
  | ok value =>
    refine ⟨?_, checked_nodes ast tree accepted⟩
    cases ast with
    | nil => cases isStart
    | cons element elements =>
      cases element with
      | typeAnnot nt ty scs => cases isStart
      | prodRule nt rhss =>
        cases tree with
        | node constructor children =>
          simp only [checkStartSymbol] at isStart
          split at isStart
          · rename_i named
            exact ⟨nt, rhss, elements, constructor, children, rfl, rfl, named⟩
          · cases isStart
        | _ => cases isStart

private theorem accepted_of_isOk {result : Except Fault (Except String Unit)}
    (fine : result.toOption.any (fun value => value.isOk) = true) : result = .ok (.ok ()) := by
  obtain ⟨value, rfl, fine⟩ := Logic.checked_ok fine
  cases value with
  | error message => cases fine
  | ok value => rfl

/-- Two numbers, the second of which is one more than the first. -/
def successorAst : Ast := [
  .prodRule "S" [.rhs [.nonterminal "A", .nonterminal "B"] [
    .syGuSExpr (.compOp (.ntExpr [] [("A", none)]) .lt (.ntExpr [] [("B", none)])),
    .dependency "B" (.binOp (.ntExpr [] [("A", none)]) .plus (.intConst 1))]],
  .typeAnnot "A" .int [], .typeAnnot "B" .int []]

def successorTree (first second : Int) : SygusAst := .node "S_con0" [.intLeaf first, .intLeaf second]

theorem successorTree_sound : checkSygusAst successorAst (successorTree 3 4) = .ok (.ok ()) ∧
    ∀ node ∈ (successorTree 3 4).nodes, NodeOk successorAst node.1 node.2 := by
  have accepted : checkSygusAst successorAst (successorTree 3 4) = .ok (.ok ()) := accepted_of_isOk (by decide)
  exact ⟨accepted, (checkSygusAst_sound successorAst (successorTree 3 4) accepted).2⟩

example : (checkSygusAst successorAst (successorTree 3 5)).toOption.any (fun result => result.isOk) = false := by decide

/-- A leaf that is a value of a type. -/
def SygusAst.HasType : SygusAst → IlType → Prop
  | .intLeaf _, .int => True
  | .boolLeaf _, .bool => True
  | .strLeaf _, .string => True
  | .bvLeaf len bits, .bitVector width => len = width ∧ bits.length = width
  | .blLeaf _, .bitList => True
  | .varLeaf _, .placeholder => True
  | _, _ => False

mutual

/-- Derivation trees proper: the leaves are values of the annotated types. -/
inductive Derives (ast : Ast) : String → SygusAst → Prop where
  | leaf {nt ty scs leaf} (annot : .typeAnnot nt ty scs ∈ ast) (typed : leaf.HasType ty) : Derives ast nt leaf
  | node {nt rhss ges scs constructor children} (rule : .prodRule nt rhss ∈ ast) (rhs : .rhs ges scs ∈ rhss)
    (named : strEqCi (extractPrefix constructor) nt = true) (below : DerivesAll ast ges children) :
    Derives ast nt (.node constructor children)

inductive DerivesAll (ast : Ast) : List GrammarElement → List SygusAst → Prop where
  | nil : DerivesAll ast [] []
  | cons {nt ges child children} (first : Derives ast nt child) (rest : DerivesAll ast ges children) :
    DerivesAll ast (.nonterminal nt :: ges) (child :: children)

end

/-- The grammar of a test, where `<G>` is a number. -/
def untypedAst : Ast := [
  .prodRule "A" [.rhs [.nonterminal "B", .nonterminal "C"] [],
    .rhs [.nonterminal "D", .nonterminal "E", .nonterminal "F"] []],
  .prodRule "B" [.rhs [.nonterminal "G"] []],
  .prodRule "C" [.rhs [.nonterminal "G"] []],
  .prodRule "D" [.rhs [.nonterminal "G"] []],
  .prodRule "E" [.rhs [.nonterminal "G"] []],
  .prodRule "F" [.rhs [.nonterminal "G"] []],
  .typeAnnot "G" .int []]

def untypedTree : SygusAst := .node "A" [.node "B" [.varLeaf ""], .node "C" [.varLeaf ""]]

private theorem empty_not_number : ¬Derives untypedAst "G" (.varLeaf "") := by
  intro derived
  cases derived with
  | leaf annot typed =>
    simp only [untypedAst, List.mem_cons, Element.typeAnnot.injEq, reduceCtorEq, List.not_mem_nil, or_false, false_or,
      true_and] at annot
    obtain ⟨rfl, _⟩ := annot
    cases typed

/-- A leaf of any kind is accepted for a number. -/
theorem untyped_leaf_accepted : checkSygusAst untypedAst untypedTree = .ok (.ok ()) ∧ ¬Derives untypedAst "A" untypedTree := by
  refine ⟨accepted_of_isOk (by decide), ?_⟩
  intro derived
  cases derived with
  | leaf annot typed => cases typed
  | node rule rhs named below =>
    simp only [untypedAst, List.mem_cons, Element.prodRule.injEq, String.reduceEq, false_and, reduceCtorEq, List.not_mem_nil,
      or_false, true_and] at rule
    subst rule
    simp only [List.mem_cons, ProdRuleRhs.rhs.injEq, List.not_mem_nil, or_false] at rhs
    rcases rhs with ⟨rfl, rfl⟩ | ⟨rfl, rfl⟩
    · cases below with
      | cons first rest =>
        cases first with
        | leaf annot typed => cases typed
        | node rule rhs named below =>
          simp only [untypedAst, List.mem_cons, Element.prodRule.injEq, String.reduceEq, false_and, reduceCtorEq,
            List.not_mem_nil, or_false, false_or, true_and] at rule
          subst rule
          simp only [List.mem_singleton, ProdRuleRhs.rhs.injEq] at rhs
          obtain ⟨rfl, rfl⟩ := rhs
          cases below with
          | cons number rest => exact empty_not_number number
    · cases below with
      | cons first rest =>
        cases rest with
        | cons second rest => cases rest

end Accepted

end LtlFuzz.PacketGen

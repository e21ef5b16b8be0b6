import LtlFuzz.Logic.Outcomes
import LtlFuzz.PacketGen.DependentTerms

/-! Whether dependent terms are computed in finite time. Without circular dependencies an evaluation
comes to an end, with a value or an error, as long as every reference is looked up where it leads. -/

namespace LtlFuzz.PacketGen

open Logic (Meets eventually_succ eventually_all_mem)
open Filter (atTop)

-- The names of leaves are not to be computed wherever two terms are compared.
attribute [local irreducible] processConstructorStr

section Operators

/-- A failure that the program reports. -/
def Reported (fault : Fault) : Prop := fault ≠ .diverges

theorem internalError_reported (message : String) : Reported (.internalError message) := by
  simp [Reported]

theorem invalidArgument_reported (message : String) : Reported (.invalidArgument message) := by
  simp [Reported]

theorem failure_reported (message : String) : Reported (.failure message) := by
  simp [Reported]

theorem divisionByZero_reported : Reported .divisionByZero := by
  simp [Reported]

theorem notFound_reported : Reported .notFound := by
  simp [Reported]

/-- No placeholder is among the constants. -/
def Unplaced (constants : List Expr) : Prop := ∀ name, .phConst name ∉ constants

private theorem meets_ok {α : Type} {ε : Type} {post : α → Prop} {fails : ε → Prop} {value : α} (held : post value) :
    Meets post fails (.ok value) := held

private theorem evalFail_reported (index : Nat) (post : List Expr → Prop) : Meets post Reported (evalFail index) := internalError_reported _

private theorem compareBits_reported (bv1 bv2 : List Bool) : Meets (fun _ => True) Reported (compareBits bv1 bv2) := by
  induction bv1 generalizing bv2 with
  | nil =>
    cases bv2 with
    | nil => trivial
    | cons b bv2 => exact internalError_reported _
  | cons a bv1 ih =>
    cases bv2 with
    | nil => exact internalError_reported _
    | cons b bv2 =>
      rw [compareBits]
      split
      · exact ih bv2
      · trivial

private theorem bvult_reported (bv1 bv2 : List Bool) : Meets (fun _ => True) Reported (bvult bv1 bv2) := by
  rw [bvult]
  split
  · exact internalError_reported _
  · exact compareBits_reported bv1 bv2

private theorem map2_reported (f : Bool → Bool → Bool) (bv1 bv2 : List Bool) : Meets (fun _ => True) Reported (map2 f bv1 bv2) := by
  induction bv1 generalizing bv2 with
  | nil =>
    cases bv2 with
    | nil => trivial
    | cons b bv2 => exact invalidArgument_reported _
  | cons a bv1 ih =>
    cases bv2 with
    | nil => exact invalidArgument_reported _
    | cons b bv2 =>
      exact (ih bv2).bind fun value _ => (trivial : Meets (fun _ => True) Reported (.ok (f a b :: value)))

private theorem evalUnOp_reported (op : UnaryOperator) (constants : List Expr) : Meets Unplaced Reported (evalUnOp op constants) := by
  unfold evalUnOp
  split <;> first | exact evalFail_reported _ _ | simp [Meets, Unplaced]

private theorem evalBits_reported (f : Bool → Bool → Bool) (index : Nat) (left right : List Expr) :
    Meets Unplaced Reported (evalBits f index left right) := by
  unfold evalBits
  split
  · exact (map2_reported f _ _).bind fun _ _ => by simp [Meets, Unplaced]
  · exact evalFail_reported _ _

private theorem evalLogic_reported (f : Bool → Bool → Bool) (index : Nat) (left right : List Expr) :
    Meets Unplaced Reported (evalLogic f index left right) := by
  unfold evalLogic
  split
  · simp [Meets, Unplaced]
  · exact evalFail_reported _ _

private theorem evalArith_reported {f : Int → Int → Except Fault Int} (reported : ∀ i j, Meets (fun _ => True) Reported (f i j)) (index : Nat)
    (left right : List Expr) : Meets Unplaced Reported (evalArith f index left right) := by
  unfold evalArith
  split
  · exact (reported _ _).bind fun _ _ => by simp [Meets, Unplaced]
  · exact evalFail_reported _ _

private theorem evalBinOp_reported (op : BinOperator) (left right : List Expr) : Meets Unplaced Reported (evalBinOp op left right) := by
  cases op with
  | bvAnd => exact evalBits_reported _ _ left right
  | bvOr => exact evalBits_reported _ _ left right
  | bvXor => exact evalBits_reported _ _ left right
  | glAnd => exact evalLogic_reported _ _ left right
  | lAnd => exact evalLogic_reported _ _ left right
  | lOr => exact evalLogic_reported _ _ left right
  | lXor => exact evalLogic_reported _ _ left right
  | lImplies => exact evalLogic_reported _ _ left right
  | plus => exact evalArith_reported (fun _ _ => meets_ok trivial) _ left right
  | minus => exact evalArith_reported (fun _ _ => meets_ok trivial) _ left right
  | times => exact evalArith_reported (fun _ _ => meets_ok trivial) _ left right
  | div =>
    refine evalArith_reported (fun i j => ?_) _ left right
    split
    · exact divisionByZero_reported
    · trivial
  | strConcat =>
    simp only [evalBinOp]
    split
    · simp [Meets, Unplaced]
    · exact evalFail_reported _ _

private theorem evalOrder_reported (f : Int → Int → Bool) (index : Nat) (left right : List Expr) :
    Meets Unplaced Reported (evalOrder f index left right) := by
  unfold evalOrder
  split
  · simp [Meets, Unplaced]
  · exact evalFail_reported _ _

private theorem evalBvOrder_reported {f : List Bool → List Bool → Except Fault Bool}
    (reported : ∀ bv1 bv2, Meets (fun _ => True) Reported (f bv1 bv2)) (left right : List Expr) :
    Meets Unplaced Reported (evalBvOrder f left right) := by
  unfold evalBvOrder
  split
  · exact (reported _ _).bind fun _ _ => by simp [Meets, Unplaced]
  · exact evalFail_reported _ _

private theorem evalCompOp_reported (op : CompOperator) (left right : List Expr) : Meets Unplaced Reported (evalCompOp op left right) := by
  cases op with
  | lt => exact evalOrder_reported _ _ left right
  | lte => exact evalOrder_reported _ _ left right
  | gt => exact evalOrder_reported _ _ left right
  | gte => exact evalOrder_reported _ _ left right
  | bvLt => exact evalBvOrder_reported bvult_reported left right
  | bvGt => exact evalBvOrder_reported (fun bv1 bv2 => bvult_reported bv2 bv1) left right
  | bvLte => exact evalBvOrder_reported (fun bv1 bv2 => (bvult_reported bv1 bv2).bind fun _ _ => meets_ok trivial) left right
  | bvGte => exact evalBvOrder_reported (fun bv1 bv2 => (bvult_reported bv2 bv1).bind fun _ _ => meets_ok trivial) left right
  | eq =>
    simp only [evalCompOp]
    split <;> first | exact evalFail_reported _ _ | simp [Meets, Unplaced]
  | strPrefix =>
    simp only [evalCompOp]
    split
    · simp [Meets, Unplaced]
    · exact evalFail_reported _ _

private theorem evalStrLength_reported (constants : List Expr) : Meets Unplaced Reported (evalStrLength constants) := by
  unfold evalStrLength
  split
  · simp [Meets, Unplaced]
  · exact evalFail_reported _ _

private theorem evalLength_reported (acc : Int) (constants : List Expr) : Meets Unplaced Reported (evalLength acc constants) := by
  induction constants generalizing acc with
  | nil => simp [evalLength, Meets, Unplaced]
  | cons constant constants ih =>
    cases constant with
    | blConst bits => exact ih _
    | bvConst len bits => exact ih _
    | phConst str =>
      rw [evalLength]
      split
      · exact ih _
      · split
        · exact ih _
        · exact internalError_reported _
    | _ => exact evalFail_reported _ _

private theorem evalCast_reported (len : Nat) (constants : List Expr) : Meets Unplaced Reported (evalCast len constants) := by
  unfold evalCast
  split
  · unfold ilIntToBitvector
    split <;> simp [Meets, Unplaced]
  · exact evalFail_reported _ _

end Operators

section Expressions

variable {depMap : DepMap} {ast' : Ast} {resolve : Resolve} {tree : SygusAst} {element : Element}

/-- The placeholders that an expression writes out. -/
def Expr.placeholders : Expr → List String
  | .phConst name => [name]
  | .unOp _ expr => expr.placeholders
  | .strLength expr => expr.placeholders
  | .binOp expr1 _ expr2 => expr1.placeholders ++ expr2.placeholders
  | .compOp expr1 _ expr2 => expr1.placeholders ++ expr2.placeholders
  | .length expr => expr.placeholders
  | .bvCast _ expr => expr.placeholders
  | _ => []

/-- No constant is taken for a dependent term. -/
def Free (depMap : DepMap) (constants : List Expr) : Prop := ∀ name, .phConst name ∈ constants → isDependent depMap name = false

private theorem free_of_unplaced {constants : List Expr} (unplaced : Unplaced constants) : Free depMap constants :=
  fun name member => absurd member (unplaced name)

/-- An expression is evaluated in finite time if its references are. -/
private theorem evaluateWith_meets (expr : Expr)
    (references : ∀ nts ∈ expr.dottedReferences, Meets (Free depMap) Reported (evaluateNt depMap ast' resolve tree element nts))
    (literals : ∀ name ∈ expr.placeholders, isDependent depMap name = false) :
    Meets (Free depMap) Reported (evaluateWith depMap ast' resolve tree element expr) := by
  match expr with
  | .ntExpr context nts => exact references nts (List.mem_singleton.mpr rfl)
  | .unOp op expr =>
    exact (evaluateWith_meets expr references literals).bind fun value _ => (evalUnOp_reported op value).mono fun _ => free_of_unplaced
  | .strLength expr =>
    exact (evaluateWith_meets expr references literals).bind fun value _ => (evalStrLength_reported value).mono fun _ => free_of_unplaced
  | .length expr =>
    exact (evaluateWith_meets expr references literals).bind fun value _ => (evalLength_reported 0 value).mono fun _ => free_of_unplaced
  | .bvCast len expr =>
    exact (evaluateWith_meets expr references literals).bind fun value _ => (evalCast_reported len value).mono fun _ => free_of_unplaced
  | .binOp left op right =>
    refine (evaluateWith_meets left (fun nts member => references nts (List.mem_append_left _ member))
      (fun name member => literals name (List.mem_append_left _ member))).bind fun first _ => ?_
    refine (evaluateWith_meets right (fun nts member => references nts (List.mem_append_right _ member))
      (fun name member => literals name (List.mem_append_right _ member))).bind fun second _ => ?_
    exact (evalBinOp_reported op first second).mono fun _ => free_of_unplaced
  | .compOp left op right =>
    refine (evaluateWith_meets left (fun nts member => references nts (List.mem_append_left _ member))
      (fun name member => literals name (List.mem_append_left _ member))).bind fun first _ => ?_
    refine (evaluateWith_meets right (fun nts member => references nts (List.mem_append_right _ member))
      (fun name member => literals name (List.mem_append_right _ member))).bind fun second _ => ?_
    exact (evalCompOp_reported op first second).mono fun _ => free_of_unplaced
  | .matching context nt cases => exact internalError_reported _
  | .phConst name =>
    refine meets_ok fun other member => ?_
    cases List.mem_singleton.mp member
    exact literals name (List.mem_singleton.mpr rfl)
  | .bvConst len bits => exact meets_ok (free_of_unplaced (by simp [Unplaced]))
  | .blConst bits => exact meets_ok (free_of_unplaced (by simp [Unplaced]))
  | .bConst value => exact meets_ok (free_of_unplaced (by simp [Unplaced]))
  | .intConst value => exact meets_ok (free_of_unplaced (by simp [Unplaced]))
  | .strConst text => exact meets_ok (free_of_unplaced (by simp [Unplaced]))

/-- A leaf that is not taken for a dependent term. -/
def FreeLeaf (depMap : DepMap) (leaf : SygusAst) : Prop := leaf.Settled depMap ∧ ∀ constructor children, leaf ≠ .node constructor children

private theorem exprToSygusAst_meets {value : Expr} {values : List Expr} (free : Free depMap (value :: values)) :
    Meets (FreeLeaf depMap) Reported (exprToSygusAst value) := by
  unfold exprToSygusAst
  split
  · exact ⟨fun _ same => (nomatch same), fun _ _ same => (nomatch same)⟩
  · next name =>
    refine ⟨?_, fun _ _ same => (nomatch same)⟩
    rintro other ⟨⟩
    exact free name List.mem_cons_self
  · exact ⟨fun _ same => (nomatch same), fun _ _ same => (nomatch same)⟩
  · exact ⟨fun _ same => (nomatch same), fun _ _ same => (nomatch same)⟩
  · exact internalError_reported _

private theorem evaluate_freeLeaf {leaf : SygusAst} (free : FreeLeaf depMap leaf) :
    evaluateSygusAst depMap resolve element leaf = .ok leaf := by
  cases leaf with
  | node constructor children => exact absurd rfl (free.2 constructor children)
  | varLeaf name => rw [evaluateSygusAst, free.1 name rfl, if_neg (by simp)]
  | _ => rfl

private theorem free_of_freeLeaf {leaf : SygusAst} (free : FreeLeaf depMap leaf) : Free depMap (sygusAstToExpr leaf) := by
  cases leaf with
  | node constructor children => exact absurd rfl (free.2 constructor children)
  | varLeaf name =>
    intro other member
    cases List.mem_singleton.mp member
    exact free.1 name rfl
  | _ => exact free_of_unplaced (by simp [Unplaced, sygusAstToExpr])

/-- A dependent term is computed in finite time if its references are looked up in finite time. -/
private theorem computeDepWith_meets {scs : List SemanticConstraint} {nt stub : String} {expr : Expr} (stubs : Stubs depMap scs nt stub)
    (defined : scs.find? (SemanticConstraint.defines nt) = some (.dependency nt expr))
    (references : ∀ nts ∈ expr.dottedReferences, Meets (Free depMap) Reported (evaluateNt depMap ast' resolve tree element nts))
    (literals : ∀ name ∈ expr.placeholders, isDependent depMap name = false) :
    Meets (FreeLeaf depMap) Reported (computeDepWith depMap ast' resolve tree element (stubLeaf stub)) := by
  obtain ⟨upper, other, defined', found⟩ := stubs
  cases defined.symm.trans defined'
  simp only [computeDepWith, processConstructorStr_stubLeaf, upper, found, bind, Except.bind]
  show Meets _ _ (evaluateWith depMap ast' resolve tree element (calculateCasts expr) >>= _)
  rw [evaluateWith_calculateCasts]
  refine (evaluateWith_meets expr references literals).bind fun constants free => ?_
  cases constants with
  | nil => exact failure_reported _
  | cons value values => exact exprToSygusAst_meets free

/-- What is computed is evaluated once more, which changes nothing. -/
private theorem resolveDep_meets {fuel : Nat} {var : String}
    (computed : Meets (FreeLeaf depMap) Reported (computeDepWith depMap ast' (resolveDep depMap ast' fuel) tree element var)) :
    Meets (FreeLeaf depMap) Reported (resolveDep depMap ast' (fuel + 1) tree element var) := by
  refine computed.bind fun leaf free => ?_
  rw [evaluate_freeLeaf free]
  exact free

end Expressions

section Nodes

/-- The first right-hand side of a rule has these elements. -/
def Element.StartsWith (ges : List GrammarElement) (element : Element) : Prop :=
  ∃ nt scs rest, element = .prodRule nt (.rhs ges scs :: rest)

/-- A reference that is looked up where it leads: not to a placeholder, through nodes made from the
first right-hand side of their rule, and to a composite term only if nothing in it depends on
other terms. -/
def LeadsOn (ast' : Ast) : Derivation → Reference → Prop
  | .node _ _ _ _ children, (id, _) :: rest =>
    (∀ nt name, children.find? (fun child => child.nt = id) ≠ some (.value nt (.varLeaf name))) ∧
    ∀ nt constructor ges scs inner,
      children.find? (fun child => child.nt = id) = some (.node nt constructor ges scs inner) →
      (rest = [] → Derivation.Closed (.node nt constructor ges scs inner)) ∧
      (rest ≠ [] → ∀ element, ast'.find? (Element.isRuleOf id) = some element →
        element.StartsWith ges ∧ LeadsOn ast' (.node nt constructor ges scs inner) rest)
  | _, _ => True

/-- A node whose dependent terms are looked up where they are. No placeholder below it or in their
expressions is taken for a dependent term; and the rule that is found under the name of the node in
capitals, if any, begins with the right-hand side that was used if the terms refer to anything. -/
def NodeLeads (depMap : DepMap) (ast' : Ast) : Derivation → Prop
  | .node nt constructor ges scs children =>
    (∀ other leaf, .value other leaf ∈ children → leaf.Settled depMap) ∧
    ∀ other stub expr, .dependent other stub ∈ children →
      scs.find? (SemanticConstraint.defines other) = some (.dependency other expr) →
      (∀ name ∈ expr.placeholders, isDependent depMap name = false) ∧
      (expr.dottedReferences ≠ [] → ∀ element,
        ast'.find? (fun element => element.nt = removeSuffix (removeStub constructor)) = some element → element.StartsWith ges) ∧
      ∀ nts ∈ expr.dottedReferences, LeadsOn ast' (.node nt constructor ges scs children) nts
  | _ => True

variable {depMap : DepMap} {ast' : Ast}

/-- The elements of a right-hand side name the children in their places. -/
def Shaped (ges : List GrammarElement) (children : List Derivation) : Prop :=
  List.Forall₂ (fun ge child => ∀ id, GrammarElement.isNamed id ge = decide (Derivation.nt child = id)) ges children

private theorem findIdx_shaped {ges : List GrammarElement} {children : List Derivation} (shaped : Shaped ges children) (id : String)
    {child : Derivation} (found : children.find? (fun child => child.nt = id) = some child) :
    ∃ index, ges.findIdx? (GrammarElement.isNamed id) = some index ∧
      (Derivation.sygusAsts children)[index]? = some child.sygusAst := by
  induction shaped with
  | nil => cases found
  | @cons ge first ges rest one others ih =>
    rw [List.find?_cons] at found
    rw [List.findIdx?_cons, one id]
    by_cases named : first.nt = id
    · simp only [named, decide_true] at found ⊢
      cases found
      exact ⟨0, rfl, rfl⟩
    · simp only [named, decide_false] at found ⊢
      obtain ⟨index, known, there⟩ := ih found
      exact ⟨index + 1, by simp [known], there⟩

theorem childIndex_shaped {ges : List GrammarElement} {children : List Derivation} (shaped : Shaped ges children) {element : Element}
    (starts : element.StartsWith ges) (id : String) {child : Derivation} (found : children.find? (fun child => child.nt = id) = some child) :
    ∃ index, childIndex element id = .ok index ∧ (Derivation.sygusAsts children)[index]? = some child.sygusAst := by
  obtain ⟨nt, scs, rest, rfl⟩ := starts
  obtain ⟨index, known, there⟩ := findIdx_shaped shaped id found
  refine ⟨index, ?_, there⟩
  rw [childIndex, known]

/-- What is known of a node of a derivation tree, and what its dependent terms need. -/
structure Ready (depMap : DepMap) (ast' : Ast) (nt constructor : String) (ges : List GrammarElement) (scs : List SemanticConstraint)
    (children : List Derivation) : Prop where
  shaped : Shaped ges children
  stubs : ∀ other stub, .dependent other stub ∈ children → Stubs depMap scs other stub
  values : ∀ other leaf, .value other leaf ∈ children → ∃ ty, leaf.HasType ty
  acyclic : Acyclic scs
  leads : NodeLeads depMap ast' (.node nt constructor ges scs children)

def AllReady (depMap : DepMap) (ast' : Ast) (nodes : List Derivation) : Prop :=
  ∀ nt constructor ges scs children, .node nt constructor ges scs children ∈ nodes → Ready depMap ast' nt constructor ges scs children

variable {nt constructor : String} {ges : List GrammarElement} {scs : List SemanticConstraint} {children : List Derivation}

theorem AllReady.child {child : Derivation} (ready : AllReady depMap ast' (Derivation.allNodes children)) (member : child ∈ children) :
    AllReady depMap ast' child.nodes :=
  fun nt constructor ges scs inner inside => ready nt constructor ges scs inner (nodes_of_child member _ inside)

theorem AllReady.below (ready : AllReady depMap ast' (Derivation.nodes (.node nt constructor ges scs children))) :
    AllReady depMap ast' (Derivation.allNodes children) :=
  fun nt constructor ges scs inner inside => ready nt constructor ges scs inner (List.mem_cons_of_mem _ inside)

theorem Ready.leaf (ready : Ready depMap ast' nt constructor ges scs children) {other : String} {leaf : SygusAst}
    (member : .value other leaf ∈ children) : FreeLeaf depMap leaf := by
  obtain ⟨ty, typed⟩ := ready.values other leaf member
  refine ⟨ready.leads.1 other leaf member, ?_⟩
  rintro constructor children rfl
  cases ty <;> exact typed.elim

theorem Closed.child {child : Derivation} (closed : Derivation.Closed (.node nt constructor ges scs children)) (member : child ∈ children) :
    child.Closed :=
  fun nt constructor ges scs inner inside => closed nt constructor ges scs inner (List.mem_cons_of_mem _ (nodes_of_child member _ inside))

end Nodes

section Closed

variable {depMap : DepMap} {ast' : Ast}

mutual

/-- Where nothing depends on other terms, one round is enough. -/
private theorem closed_tree_meets (element : Element) (fuel : Nat) : ∀ tree : Derivation, AllReady depMap ast' tree.nodes → tree.Closed →
    (∀ nt stub, tree ≠ .dependent nt stub) → (∀ nt leaf, tree = .value nt leaf → FreeLeaf depMap leaf) →
    Meets (fun result => Free depMap (sygusAstToExpr result)) Reported
      (evaluateSygusAst depMap (resolveDep depMap ast' (fuel + 1)) element tree.sygusAst)
  | .value nt leaf, _, _, _, proper => by
    have free := proper nt leaf rfl
    rw [Derivation.sygusAst, evaluate_freeLeaf free]
    exact free_of_freeLeaf free
  | .dependent nt stub, _, _, whole, _ => absurd rfl (whole nt stub)
  | .node nt constructor ges scs children, ready, closed, _, _ => by
    rw [Derivation.sygusAst, evaluateSygusAst]
    refine (closed_forest_meets element fuel children children nt constructor ges scs (ready _ _ _ _ _ List.mem_cons_self) ready.below closed
      fun _ member => member).bind fun subterms free => ?_
    exact meets_ok free

private theorem closed_forest_meets (element : Element) (fuel : Nat) : ∀ (part children : List Derivation) (nt constructor : String)
    (ges : List GrammarElement) (scs : List SemanticConstraint), Ready depMap ast' nt constructor ges scs children →
    AllReady depMap ast' (Derivation.allNodes children) → Derivation.Closed (.node nt constructor ges scs children) →
    (∀ child ∈ part, child ∈ children) →
    Meets (fun results => Free depMap (sygusAstsToExpr results)) Reported
      (evaluateSygusAsts depMap (resolveDep depMap ast' (fuel + 1)) element (Derivation.sygusAsts part))
  | [], _, _, _, _, _, _, _, _, _ => meets_ok (free_of_unplaced (by simp [Unplaced, sygusAstsToExpr]))
  | child :: part, children, nt, constructor, ges, scs, own, ready, closed, inside => by
    have member := inside child List.mem_cons_self
    have others := closed_forest_meets element fuel part children nt constructor ges scs own ready closed
      fun other later => inside other (List.mem_cons_of_mem _ later)
    have first : Meets (fun result => Free depMap (sygusAstToExpr result)) Reported
        (evaluateSygusAst depMap (resolveDep depMap ast' (fuel + 1)) element child.sygusAst) := by
      by_cases dependent : ∃ other stub, child = .dependent other stub
      · obtain ⟨other, stub, rfl⟩ := dependent
        have stubs := own.stubs other stub member
        obtain ⟨_, expr, defined, _⟩ := own.stubs other stub member
        have unreferring := closed nt constructor ges scs children List.mem_cons_self other stub expr member defined
        have literals := (own.leads.2 other stub expr member defined).1
        rw [Derivation.sygusAst, evaluateSygusAst, isDependent_stub stubs, if_pos rfl]
        refine (resolveDep_meets (computeDepWith_meets stubs defined ?_ literals)).mono fun _ => free_of_freeLeaf
        rw [unreferring]
        exact fun _ member => nomatch member
      · refine closed_tree_meets element fuel child (ready.child member) (Closed.child closed member) ?_ ?_
        · exact fun other stub same => dependent ⟨other, stub, same⟩
        · rintro other leaf rfl
          exact own.leaf member
    rw [Derivation.sygusAsts, evaluateSygusAsts]
    refine first.bind fun result free => others.bind fun results freeAll => meets_ok fun name member => ?_
    rcases List.mem_append.mp member with here | later
    · exact free name here
    · exact freeAll name later

end

end Closed

section References

variable {depMap : DepMap} {ast' : Ast} {nt constructor : String} {ges : List GrammarElement} {scs : List SemanticConstraint}
  {children : List Derivation} {element : Element}

/-- What a reference starts with is named in the expression. -/
theorem mentions_of_reference {nts : Reference} {id : String} (expr : Expr) (member : nts ∈ expr.dottedReferences)
    (named : id ∈ nts.map Prod.fst) : expr.Mentions id := by
  match expr with
  | .ntExpr context own =>
    exact ⟨nts, member, named⟩
  | .unOp op expr => exact mentions_of_reference expr member named
  | .strLength expr => exact mentions_of_reference expr member named
  | .length expr => exact mentions_of_reference expr member named
  | .bvCast len expr => exact mentions_of_reference expr member named
  | .binOp left op right =>
    rcases List.mem_append.mp member with first | second
    · obtain ⟨other, inside, there⟩ := mentions_of_reference left first named
      exact ⟨other, List.mem_append_left _ inside, there⟩
    · obtain ⟨other, inside, there⟩ := mentions_of_reference right second named
      exact ⟨other, List.mem_append_right _ inside, there⟩
  | .compOp left op right =>
    rcases List.mem_append.mp member with first | second
    · obtain ⟨other, inside, there⟩ := mentions_of_reference left first named
      exact ⟨other, List.mem_append_left _ inside, there⟩
    · obtain ⟨other, inside, there⟩ := mentions_of_reference right second named
      exact ⟨other, List.mem_append_right _ inside, there⟩

/-- References below a node are looked up in finite time. -/
private def LooksUp (depMap : DepMap) (ast' : Ast) (tree : Derivation) : Prop :=
  ∀ nt constructor ges scs children, tree = .node nt constructor ges scs children → ∀ nts element,
    LeadsOn ast' tree nts → element.StartsWith ges →
    ∀ᶠ fuel in atTop, Meets (Free depMap) Reported (evaluateNt depMap ast' (resolveDep depMap ast' fuel) tree.sygusAst element nts)

private theorem childIndex_reported {id : String} {fault : Fault} (missing : childIndex element id = .error fault) : Reported fault := by
  unfold childIndex at missing
  split at missing
  · cases missing
    exact internalError_reported _
  · split at missing
    · cases missing
    · cases missing
      exact internalError_reported _
  · cases missing
    exact internalError_reported _

private theorem shaped_child (shaped : Shaped ges children) {ge : GrammarElement} (member : ge ∈ ges) :
    ∃ child ∈ children, ∀ id, GrammarElement.isNamed id ge = decide (Derivation.nt child = id) := by
  induction shaped with
  | nil => cases member
  | cons one others ih =>
    rcases List.mem_cons.mp member with rfl | later
    · exact ⟨_, List.mem_cons_self, one⟩
    · obtain ⟨child, inside, same⟩ := ih later
      exact ⟨child, List.mem_cons_of_mem _ inside, same⟩

/-- A place that is found is that of the first child of the name. -/
private theorem childIndex_named (shaped : Shaped ges children) (starts : element.StartsWith ges) {id : String} {index : Nat}
    (located : childIndex element id = .ok index) :
    ∃ child, children.find? (fun child => child.nt = id) = some child ∧ (Derivation.sygusAsts children)[index]? = some child.sygusAst := by
  cases found : children.find? fun child => child.nt = id with
  | some child =>
    obtain ⟨other, known, there⟩ := childIndex_shaped shaped starts id found
    cases located.symm.trans known
    exact ⟨child, rfl, there⟩
  | none =>
    obtain ⟨nt, scs, rest, rfl⟩ := starts
    have missing : ges.findIdx? (GrammarElement.isNamed id) = none := by
      rw [List.findIdx?_eq_none_iff]
      intro ge member
      obtain ⟨child, inside, same⟩ := shaped_child shaped member
      rw [same, decide_eq_false_iff_not]
      simpa using List.find?_eq_none.mp found child inside
    rw [childIndex, missing] at located
    cases located

/-- A reference is looked up in finite time if the dependent term it starts with is computed so. -/
private theorem reference_meets (own : Ready depMap ast' nt constructor ges scs children)
    (ready : AllReady depMap ast' (Derivation.allNodes children)) (starts : element.StartsWith ges) {id : String} {index : Option Nat}
    {rest : Reference} (leads : LeadsOn ast' (.node nt constructor ges scs children) ((id, index) :: rest))
    (terms : ∀ stub, .dependent id stub ∈ children → ∀ᶠ fuel in atTop, Meets (FreeLeaf depMap) Reported
      (resolveDep depMap ast' fuel (.node constructor (Derivation.sygusAsts children)) element (stubLeaf stub)))
    (below : ∀ child ∈ children, LooksUp depMap ast' child) :
    ∀ᶠ fuel in atTop, Meets (Free depMap) Reported
      (evaluateNt depMap ast' (resolveDep depMap ast' fuel) (.node constructor (Derivation.sygusAsts children)) element
        ((id, index) :: rest)) := by
  cases located : childIndex element id with
  | error fault =>
    refine Filter.Eventually.of_forall fun fuel => ?_
    simp only [evaluateNt, located]
    exact childIndex_reported located
  | ok position =>
    obtain ⟨child, found, there⟩ := childIndex_named own.shaped starts located
    have member := List.mem_of_find?_eq_some found
    cases child with
    | dependent other stub =>
      have named := List.find?_some found
      obtain rfl : other = id := of_decide_eq_true named
      filter_upwards [terms stub member] with fuel resolved
      simp only [evaluateNt, located, there, Derivation.sygusAst, bind, Except.bind, isDependent_stub (own.stubs _ stub member), if_pos]
      exact resolved.bind fun leaf free => meets_ok (free_of_freeLeaf free)
    | value other leaf =>
      have free := own.leaf member
      refine Filter.Eventually.of_forall fun fuel => ?_
      simp only [evaluateNt, located, there, Derivation.sygusAst, bind, Except.bind]
      cases leaf with
      | node constructor children => exact absurd rfl (free.2 constructor children)
      | varLeaf name => exact absurd found (leads.1 other name)
      | _ => exact meets_ok (free_of_unplaced (by simp [Unplaced, sygusAstToExpr]))
    | node other inner ges' scs' grand =>
      obtain ⟨closed, further⟩ := leads.2 other inner ges' scs' grand found
      by_cases last : rest = []
      · refine eventually_succ (Filter.Eventually.of_forall fun fuel => ?_)
        have evaluated := @closed_tree_meets depMap ast' element fuel _ (ready.child member) (closed last) (by rintro _ _ ⟨⟩)
          (by rintro _ _ ⟨⟩)
        simp only [Derivation.sygusAst] at evaluated
        simp only [evaluateNt, located, there, Derivation.sygusAst, bind, Except.bind, if_pos last]
        exact evaluated.bind fun result free => meets_ok free
      · cases ruled : ast'.find? (Element.isRuleOf id) with
        | none =>
          refine Filter.Eventually.of_forall fun fuel => ?_
          simp only [evaluateNt, located, there, Derivation.sygusAst, bind, Except.bind, if_neg last, ruled]
          exact notFound_reported
        | some element' =>
          obtain ⟨starts', leads'⟩ := further last element' ruled
          filter_upwards [below _ member other inner ges' scs' grand rfl rest element' leads' starts'] with fuel evaluated
          simp only [Derivation.sygusAst] at evaluated
          rw [evaluateNt]
          simp only [located, there, Derivation.sygusAst, bind, Except.bind, if_neg last, ruled]
          exact evaluated

/-- Every dependent term below a node is computed in finite time, after those it depends on. -/
private theorem terms_meet (own : Ready depMap ast' nt constructor ges scs children)
    (ready : AllReady depMap ast' (Derivation.allNodes children)) (below : ∀ child ∈ children, LooksUp depMap ast' child) (id : String) :
    ∀ stub, .dependent id stub ∈ children → ∀ element : Element,
      (∀ expr, scs.find? (SemanticConstraint.defines id) = some (.dependency id expr) → expr.dottedReferences ≠ [] →
        element.StartsWith ges) →
      ∀ᶠ fuel in atTop, Meets (FreeLeaf depMap) Reported
        (computeDepWith depMap ast' (resolveDep depMap ast' fuel) (.node constructor (Derivation.sygusAsts children)) element
          (stubLeaf stub)) := by
  induction id using own.acyclic.induction with
  | step id ih =>
    intro stub member element starts
    have stubs := own.stubs id stub member
    obtain ⟨_, expr, defined, _⟩ := own.stubs id stub member
    obtain ⟨literals, _, leads⟩ := own.leads.2 id stub expr member defined
    have listed : .dependency id expr ∈ scs := List.mem_of_find?_eq_some defined
    have references : ∀ nts ∈ expr.dottedReferences, ∀ᶠ fuel in atTop, Meets (Free depMap) Reported
        (evaluateNt depMap ast' (resolveDep depMap ast' fuel) (.node constructor (Derivation.sygusAsts children)) element nts) := by
      intro nts inside
      have start : element.StartsWith ges := starts expr defined (List.ne_nil_of_mem inside)
      cases nts with
      | nil => exact Filter.Eventually.of_forall fun fuel => internalError_reported _
      | cons head rest =>
        obtain ⟨other, index⟩ := head
        refine reference_meets own ready start (leads _ inside) ?_ below
        intro stub' member'
        have edge : DependsOn scs id other := by
          refine ⟨⟨expr, listed, mentions_of_reference expr inside List.mem_cons_self⟩, ?_⟩
          obtain ⟨_, expr', defined', _⟩ := own.stubs other stub' member'
          exact ⟨expr', List.mem_of_find?_eq_some defined'⟩
        have computed := ih other edge stub' member' element fun _ _ _ => start
        refine eventually_succ ?_
        filter_upwards [computed] with fuel done
        exact resolveDep_meets done
    filter_upwards [eventually_all_mem references] with fuel all
    exact computeDepWith_meets stubs defined all literals

private theorem node_looksUp (own : Ready depMap ast' nt constructor ges scs children)
    (ready : AllReady depMap ast' (Derivation.allNodes children)) (below : ∀ child ∈ children, LooksUp depMap ast' child) :
    LooksUp depMap ast' (.node nt constructor ges scs children) := by
  rintro _ _ _ _ _ ⟨⟩ nts element leads starts
  cases nts with
  | nil => exact Filter.Eventually.of_forall fun fuel => internalError_reported _
  | cons head rest =>
    obtain ⟨id, index⟩ := head
    refine reference_meets own ready starts leads ?_ below
    intro stub member
    refine eventually_succ ?_
    filter_upwards [terms_meet own ready below id stub member element fun _ _ _ => starts] with fuel done
    exact resolveDep_meets done

mutual

private theorem tree_looksUp : ∀ tree : Derivation, AllReady depMap ast' tree.nodes → LooksUp depMap ast' tree
  | .value _ _, _ => fun _ _ _ _ _ same => nomatch same
  | .dependent _ _, _ => fun _ _ _ _ _ same => nomatch same
  | .node _ _ _ _ children, ready =>
    node_looksUp (ready _ _ _ _ _ List.mem_cons_self) ready.below (forest_looksUp children ready.below)

private theorem forest_looksUp : ∀ children : List Derivation, AllReady depMap ast' (Derivation.allNodes children) →
    ∀ child ∈ children, LooksUp depMap ast' child
  | [], _, _, member => nomatch member
  | first :: rest, ready, child, member => by
    rcases List.mem_cons.mp member with same | later
    · rw [same]
      exact tree_looksUp first (ready.child List.mem_cons_self)
    · exact forest_looksUp rest
        (fun nt constructor ges scs inner inside => ready nt constructor ges scs inner (List.mem_append_right _ inside)) child later

end

end References

section Filling

variable {depMap : DepMap} {ast' : Ast}

mutual

private theorem tree_meets : ∀ tree : Derivation, AllReady depMap ast' tree.nodes → (∀ nt stub, tree ≠ .dependent nt stub) →
    (∀ nt leaf, tree = .value nt leaf → ∃ ty, leaf.HasType ty) →
    ∀ᶠ fuel in atTop, Meets (fun _ => True) Reported (computeDeps fuel depMap ast' tree.sygusAst)
  | .value nt leaf, _, _, proper => by
    obtain ⟨ty, typed⟩ := proper nt leaf rfl
    refine Filter.Eventually.of_forall fun fuel => ?_
    cases leaf with
    | node constructor children => cases ty <;> exact typed.elim
    | varLeaf name => exact internalError_reported _
    | _ => trivial
  | .dependent nt stub, _, whole, _ => absurd rfl (whole nt stub)
  | .node nt constructor ges scs children, ready, _, _ => by
    filter_upwards [forest_meets children children nt constructor ges scs (ready _ _ _ _ _ List.mem_cons_self) ready.below
      fun _ member => member] with fuel computed
    rw [Derivation.sygusAst, computeDeps]
    exact computed.bind fun _ _ => meets_ok trivial

private theorem forest_meets : ∀ (part children : List Derivation) (nt constructor : String) (ges : List GrammarElement)
    (scs : List SemanticConstraint), Ready depMap ast' nt constructor ges scs children →
    AllReady depMap ast' (Derivation.allNodes children) → (∀ child ∈ part, child ∈ children) →
    ∀ᶠ fuel in atTop, Meets (fun _ => True) Reported
      (computeSubterms fuel depMap ast' (.node constructor (Derivation.sygusAsts children)) constructor (Derivation.sygusAsts part))
  | [], _, _, _, _, _, _, _, _ => Filter.Eventually.of_forall fun _ => trivial
  | child :: part, children, nt, constructor, ges, scs, own, ready, inside => by
    have member := inside child List.mem_cons_self
    have others := forest_meets part children nt constructor ges scs own ready fun other later => inside other (List.mem_cons_of_mem _ later)
    have nodes := ready.child member
    match child with
    | .value other leaf =>
      have free := own.leaf member
      filter_upwards [others] with fuel more
      simp only [Derivation.sygusAsts, Derivation.sygusAst]
      cases leaf with
      | node constructor children => exact absurd rfl (free.2 constructor children)
      | varLeaf name =>
        rw [computeSubterms]
        split
        · exact internalError_reported _
        · rw [free.1 name rfl, if_neg Bool.false_ne_true]
          refine more.bind fun _ _ => ?_
          trivial
      | _ =>
        simp only [computeSubterms]
        refine more.bind fun _ _ => ?_
        trivial
    | .node other inner ges' scs' grand =>
      filter_upwards [tree_meets (.node other inner ges' scs' grand) nodes (by rintro _ _ ⟨⟩) (by rintro _ _ ⟨⟩),
        others] with fuel one more
      simp only [Derivation.sygusAsts, Derivation.sygusAst] at one ⊢
      rw [computeSubterms]
      exact one.bind fun _ _ => more.bind fun _ _ => meets_ok trivial
    | .dependent other stub =>
      have stubs := own.stubs other stub member
      cases found : ast'.find? fun element => element.nt = removeSuffix (removeStub constructor) with
      | none =>
        refine Filter.Eventually.of_forall fun fuel => ?_
        simp only [Derivation.sygusAsts, Derivation.sygusAst, computeSubterms, found]
        exact internalError_reported _
      | some element =>
        have starts : ∀ expr, scs.find? (SemanticConstraint.defines other) = some (.dependency other expr) → expr.dottedReferences ≠ [] →
            element.StartsWith ges := fun expr defined refers => (own.leads.2 other stub expr member defined).2.1 refers element found
        filter_upwards [terms_meet own ready (forest_looksUp children ready) other stub member element starts, others] with fuel one more
        simp only [Derivation.sygusAsts, Derivation.sygusAst, computeSubterms, found, isDependent_stub stubs, if_pos, computeDep]
        exact one.bind fun _ _ => more.bind fun _ _ => meets_ok trivial

end

end Filling

section Passes

/-- The dependencies of type annotations are not circular. -/
def Ast.AnnotsSettled (ast : Ast) : Prop := ∀ nt ty scs, .typeAnnot nt ty scs ∈ ast → Acyclic scs

private theorem isPlain_map {change : List SemanticConstraint → List SemanticConstraint} {element : Element → Element}
    (onRule : ∀ nt rhss, element (.prodRule nt rhss) = .prodRule nt (rhss.map (ProdRuleRhs.mapScs change)))
    (onAnnot : ∀ nt ty scs, ∃ later, element (.typeAnnot nt ty scs) = .typeAnnot nt ty later) {ast : Ast} (plain : ast.IsPlain) :
    Ast.IsPlain (ast.map element) := by
  intro nt rhss member rhs listed
  obtain ⟨old, inside, same⟩ := List.mem_map.mp member
  cases old with
  | typeAnnot other ty scs =>
    obtain ⟨later, turned⟩ := onAnnot other ty scs
    rw [turned] at same
    cases same
  | prodRule other rules =>
    rw [onRule] at same
    cases same
    obtain ⟨rule, known, turned⟩ := List.mem_map.mp listed
    obtain ⟨nts, scs, spelled⟩ := plain _ rules inside rule known
    rw [spelled] at turned
    exact ⟨nts, change scs, turned.symm⟩

private theorem annotsSettled_map {change : List SemanticConstraint → List SemanticConstraint} {element : Element → Element}
    (onRule : ∀ nt rhss, ∃ later, element (.prodRule nt rhss) = .prodRule nt later)
    (onAnnot : ∀ nt ty scs, element (.typeAnnot nt ty scs) = .typeAnnot nt ty (change scs))
    (fewer : ∀ scs nt expr, .dependency nt expr ∈ change scs → .dependency nt expr ∈ scs) {ast : Ast} (settled : ast.AnnotsSettled) :
    Ast.AnnotsSettled (ast.map element) := by
  intro nt ty scs member
  obtain ⟨old, inside, same⟩ := List.mem_map.mp member
  cases old with
  | prodRule other rules =>
    obtain ⟨later, turned⟩ := onRule other rules
    rw [turned] at same
    cases same
  | typeAnnot other ty' before =>
    rw [onAnnot] at same
    cases same
    exact (settled _ _ before inside).mono (fewer before)

/-- The passes leave what the parser makes, and no more dependencies of annotations. -/
private theorem settled_keeps {walk : Iteration} {ast settled : Ast} (ended : settleDeps walk ast = some settled) (plain : ast.IsPlain)
    (annots : ast.AnnotsSettled) : settled.IsPlain ∧ settled.AnnotsSettled := by
  obtain ⟨_, last, _, _, ended', _, kept⟩ := settleDeps_spec walk ast (fun other => other.IsPlain ∧ other.AnnotsSettled) ⟨plain, annots⟩
    (by
      rintro other ⟨plain, annots⟩
      exact ⟨isPlain_map (fun _ _ => rfl) (fun _ _ scs => ⟨scs, rfl⟩) plain,
        annotsSettled_map (fun _ _ => ⟨_, rfl⟩) (fun _ _ _ => rfl) (fun _ _ _ member => member) annots⟩)
    (by
      rintro other ⟨plain, annots⟩
      exact ⟨isPlain_map (fun _ _ => rfl) (fun _ _ _ => ⟨_, rfl⟩) plain,
        annotsSettled_map (fun _ _ => ⟨_, rfl⟩) (fun _ _ _ => rfl) (fun _ _ _ => checkScsForDepTerms_deps) annots⟩)
  cases ended.symm.trans ended'
  exact kept

theorem shaped_of_generatesAll {ges : List GrammarElement} {children : List Derivation}
    (below : GeneratesAll ast ast' ges children) : Shaped ges children := by
  match ges, children, below with
  | _, _, .nil => exact .nil
  | _, _, .nonterminal first rest =>
    exact .cons (fun id => decide_eq_decide.mpr eq_comm) (shaped_of_generatesAll rest)
  | _, _, .stub rest =>
    exact .cons (fun id => decide_eq_decide.mpr eq_comm) (shaped_of_generatesAll rest)

private theorem ready_tree {depMap : DepMap} {ast ast' : Ast} (abstracts : List.Forall₂ (AbstractsElement depMap) ast ast')
    (plain : ast.IsPlain) (acyclic : ast.NonCircular) (tree : Derivation) (generated : Generates ast ast' tree)
    (leads : ∀ node ∈ tree.nodes, NodeLeads depMap ast' node) : AllReady depMap ast' tree.nodes := by
  intro nt constructor ges scs children member
  obtain ⟨below, stubs, origin⟩ := generated_node abstracts plain (nodes_generated tree generated _ member)
  obtain ⟨dependents, values⟩ := children_of_generatesAll below
  have noncircular : Acyclic scs := origin.elim (fun ⟨own, rhs⟩ => acyclic.1 own scs rhs) fun ⟨ty, annot⟩ => acyclic.2 nt ty scs annot
  exact ⟨shaped_of_generatesAll below, fun other stub listed => stubs other stub (dependents other stub listed), values, noncircular,
    leads _ member⟩

/-- The passes over the dependencies come to an end. Unless a cycle of dependencies goes through a
cast none is left, and then the dependent terms of a tree are computed in finite time if their
references are looked up where they lead. -/
theorem computeDeps_ends (walk : Iteration) (prm : ProdRuleMap) (ntSet : List String) (ast : Ast) :
    (∃ settled, settleDeps walk ast = some settled) ∧
      ∀ checked, checkSyntax walk prm ntSet ast = .ok checked → (∀ ges scs, ast.HasRhs ges scs → CastFree scs) →
        (∀ ges scs, checked.HasRhs ges scs → Acyclic scs) ∧
        (ast.IsPlain → ast.AnnotsSettled → ∀ k ctx, ∃ depMap ast' ctx', simpAst k ctx checked = .ok (depMap, ast', ctx') ∧
          ∀ tree, Generates checked ast' tree → (∀ node ∈ tree.nodes, NodeLeads depMap ast' node) →
            ∃ bound, ∀ fuel, bound ≤ fuel → computeDeps fuel depMap ast' tree.sygusAst ≠ .error .diverges) := by
  constructor
  · obtain ⟨_, settled, _, _, ended, _⟩ := settleDeps_spec walk ast (fun _ => True) trivial (fun _ _ => trivial) fun _ _ => trivial
    exact ⟨settled, ended⟩
  intro checked accepted free
  have acyclic := settleDeps_acyclic walk prm ntSet ast checked accepted free
  refine ⟨acyclic, ?_⟩
  intro plain annots k ctx
  obtain ⟨ended, _⟩ := (checkSyntax_ok_iff walk prm ntSet ast checked).mp accepted
  obtain ⟨plain', annots'⟩ := settled_keeps ended plain annots
  obtain ⟨depMap, ast', ctx', done, abstracts⟩ := simpAst_spec k ctx checked (by
    intro nt rhss member rhs listed
    obtain ⟨nts, scs, same⟩ := plain' nt rhss member rhs listed
    exact ⟨_, scs, same⟩)
  refine ⟨depMap, ast', ctx', done, ?_⟩
  intro tree generated leads
  have ready := ready_tree abstracts plain' ⟨acyclic, annots'⟩ tree generated leads
  have meets : ∀ᶠ fuel in atTop, Meets (fun _ => True) Reported (computeDeps fuel depMap ast' tree.sygusAst) := by
    refine tree_meets tree ready ?_ ?_
    · rintro nt stub rfl
      cases generated
    · rintro nt leaf rfl
      cases generated with
      | value annot typed => exact ⟨_, typed⟩
  obtain ⟨bound, all⟩ := Filter.eventually_atTop.mp meets
  refine ⟨bound, fun fuel enough diverges => ?_⟩
  have reported := all fuel enough
  rw [diverges] at reported
  exact reported rfl

private theorem lengthAst_castFree (s a l : String) (apart : a ≠ l) (ges : List GrammarElement) (scs : List SemanticConstraint)
    (rhs : (lengthAst s a l).HasRhs ges scs) : CastFree scs := by
  have acyclic := (lengthAst_nonCircular s a l apart).1 ges scs rhs
  intro x y expr own hidden edge back
  exact acyclic x (Relation.TransGen.head' edge back)

private theorem lengthTree_leads (depMap : DepMap) : ∀ node ∈ (lengthTree "S" "A" "L" "_STUB0_L" (.dependent "L" "_STUB0_L")).nodes,
    NodeLeads depMap (stubbedAst "S" "A" "L" "_STUB0_L") node := by
  intro node member
  cases List.mem_singleton.mp member
  constructor
  · rintro other leaf listed name rfl
    simp at listed
  · intro other stub expr listed defined
    have same : other = "L" := by
      simp at listed
      exact listed.1
    rw [same] at defined
    cases defined
    refine ⟨?_, ?_, ?_⟩
    · intro name placed
      cases placed
    · rintro _ element ⟨⟩
      exact ⟨_, _, _, rfl⟩
    · intro nts named
      cases List.mem_singleton.mp named
      constructor
      · intro nt name found
        cases found
      · intro nt constructor ges scs inner found
        cases found

/-- A cast alone does not hide a cycle. -/
theorem lengthTree_ends : ∃ depMap ast' ctx', simpAst 0 (buildContext (lengthAst "S" "A" "L")) (lengthAst "S" "A" "L") = .ok (depMap, ast', ctx') ∧
    ∃ bound, ∀ fuel, bound ≤ fuel → computeDeps fuel depMap ast' (lengthTree "S" "A" "L" "_STUB0_L" (.dependent "L" "_STUB0_L")).sygusAst ≠
      .error .diverges := by
  have accepted : Accepted (lengthAst "S" "A" "L") (lengthAst "S" "A" "L") := by
    apply accepted_of_evaluated
    decide +kernel
  obtain ⟨prm, _, checked, _⟩ := accepted
  have ends := (computeDeps_ends Iteration.asGiven prm (buildNtSet (lengthAst "S" "A" "L")) (lengthAst "S" "A" "L")).2 _ checked
    (lengthAst_castFree "S" "A" "L" (by decide))
  obtain ⟨depMap, ast', ctx', done, finite⟩ := ends.2 (lengthAst_plain "S" "A" "L")
    (lengthAst_nonCircular "S" "A" "L" (by decide)).2 0 (buildContext (lengthAst "S" "A" "L"))
  refine ⟨depMap, ast', ctx', done, ?_⟩
  rw [lengthAst_stubbed] at done
  cases done
  exact finite _ (lengthTree_generated "S" "A" "L" "_STUB0_L") (lengthTree_leads _)

/-- `<A> <- int_to_bitvector(8, length(<B>)); <B> <- int_to_bitvector(8, length(<A>))`. -/
abbrev mutualScs : List SemanticConstraint := [
  .dependency "A" (.bvCast 8 (.length (.ntExpr [] [("B", none)]))),
  .dependency "B" (.bvCast 8 (.length (.ntExpr [] [("A", none)])))]

def mutualAst : Ast := [
  .prodRule "S" [.rhs [.nonterminal "A", .nonterminal "B"] mutualScs],
  .typeAnnot "A" (.bitVector 8) [],
  .typeAnnot "B" (.bitVector 8) []]

def mutualTree : Derivation :=
  .node "S" "S" [.stubbedNonterminal "A" "_STUB0_A", .stubbedNonterminal "B" "_STUB1_B"] mutualScs
    [.dependent "A" "_STUB0_A", .dependent "B" "_STUB1_B"]

private abbrev mutualStubbed : Ast := [
  .prodRule "S" [.rhs [.stubbedNonterminal "A" "_STUB0_A", .stubbedNonterminal "B" "_STUB1_B"] mutualScs],
  .typeAnnot "A" (.bitVector 8) [],
  .typeAnnot "B" (.bitVector 8) []]

private abbrev mutualDeps : DepMap := [
  ("_STUB1_B", .dependency "B" (.bvCast 8 (.length (.ntExpr [] [("A", none)])))),
  ("_STUB0_A", .dependency "A" (.bvCast 8 (.length (.ntExpr [] [("B", none)]))))]

private abbrev mutualRule : Element :=
  .prodRule "S" [.rhs [.stubbedNonterminal "A" "_STUB0_A", .stubbedNonterminal "B" "_STUB1_B"] mutualScs]

/-- What a term refers to is computed before it is. -/
private theorem mutual_step {resolve : Resolve} {stub id other stub' : String} {index : Nat}
    (upper : processConstructorStr (stubLeaf stub) = .ok stub)
    (found : mutualDeps.lookup stub = some (.dependency id (.bvCast 8 (.length (.ntExpr [] [(other, none)])))))
    (located : childIndex mutualRule other = .ok index)
    (there : [SygusAst.varLeaf (stubLeaf "_STUB0_A"), .varLeaf (stubLeaf "_STUB1_B")][index]? = some (.varLeaf (stubLeaf stub')))
    (dependent : isDependent mutualDeps (stubLeaf stub') = true)
    (diverges : resolve mutualTree.sygusAst mutualRule (stubLeaf stub') = .error .diverges) :
    computeDepWith mutualDeps mutualStubbed resolve mutualTree.sygusAst mutualRule (stubLeaf stub) = .error .diverges := by
  have referred : evaluateNt mutualDeps mutualStubbed resolve mutualTree.sygusAst mutualRule [(other, none)] = .error .diverges := by
    simp only [mutualTree, Derivation.sygusAst, Derivation.sygusAsts] at diverges ⊢
    simp only [evaluateNt, located, there, dependent, diverges, bind, Except.bind, if_pos]
  simp only [computeDepWith, upper, found, bind, Except.bind, evaluateWith, referred]

/-- Each of the terms needs the other one first. -/
private theorem mutual_diverges (fuel : Nat) :
    computeDepWith mutualDeps mutualStubbed (resolveDep mutualDeps mutualStubbed fuel) mutualTree.sygusAst mutualRule
        (stubLeaf "_STUB0_A") = .error .diverges ∧
      computeDepWith mutualDeps mutualStubbed (resolveDep mutualDeps mutualStubbed fuel) mutualTree.sygusAst mutualRule
        (stubLeaf "_STUB1_B") = .error .diverges := by
  have first := fun resolve => @mutual_step resolve "_STUB0_A" "A" "B" "_STUB1_B" 1 (by decide +kernel) rfl (by decide) rfl (by decide +kernel)
  have second := fun resolve => @mutual_step resolve "_STUB1_B" "B" "A" "_STUB0_A" 0 (by decide +kernel) rfl (by decide) rfl (by decide +kernel)
  induction fuel with
  | zero => exact ⟨first _ rfl, second _ rfl⟩
  | succ fuel ih =>
    constructor
    · apply first
      simp only [resolveDep, ih.2, bind, Except.bind]
    · apply second
      simp only [resolveDep, ih.1, bind, Except.bind]

private theorem mutualTree_generated : Generates mutualAst mutualStubbed mutualTree := by
  have below : GeneratesAll mutualAst mutualStubbed [.stubbedNonterminal "A" "_STUB0_A", .stubbedNonterminal "B" "_STUB1_B"]
      [.dependent "A" "_STUB0_A", .dependent "B" "_STUB1_B"] := .stub (.stub .nil)
  exact @Generates.node _ _ "S" _ _ 0 _ _ _ _ "S" _ List.mem_cons_self rfl rfl (Or.inl rfl) below

/-- The search for cycles does not look into casts, and what it misses is computed forever. -/
theorem mutualAst_stays_circular :
    Accepted mutualAst mutualAst ∧ (∃ ges scs, mutualAst.HasRhs ges scs ∧ ¬Acyclic scs) ∧
      ∃ depMap ast' ctx', simpAst 0 (buildContext mutualAst) mutualAst = .ok (depMap, ast', ctx') ∧
        Generates mutualAst ast' mutualTree ∧ ∀ fuel, computeDeps fuel depMap ast' mutualTree.sygusAst = .error .diverges := by
  refine ⟨?_, ⟨_, _, ⟨"S", _, List.mem_cons_self, List.mem_cons_self⟩, ?_⟩, mutualDeps, mutualStubbed, [("S", .adt [["A", "B"]])], ?_,
    mutualTree_generated, ?_⟩
  · apply accepted_of_evaluated
    decide +kernel
  · intro acyclic
    have first : .dependency "A" (.bvCast 8 (.length (.ntExpr [] [("B", none)]))) ∈ mutualScs := List.mem_cons_self
    have second : .dependency "B" (.bvCast 8 (.length (.ntExpr [] [("A", none)]))) ∈ mutualScs := List.mem_cons_of_mem _ List.mem_cons_self
    have there : DependsOn mutualScs "A" "B" :=
      ⟨⟨_, first, [("B", none)], List.mem_singleton.mpr rfl, List.mem_singleton.mpr rfl⟩, _, second⟩
    have back : DependsOn mutualScs "B" "A" :=
      ⟨⟨_, second, [("A", none)], List.mem_singleton.mpr rfl, List.mem_singleton.mpr rfl⟩, _, first⟩
    exact acyclic "A" (Relation.TransGen.tail (.single there) back)
  · decide +kernel
  · intro fuel
    have ruled : mutualStubbed.find? (fun element => element.nt = removeSuffix (removeStub "S")) = some mutualRule := by decide +kernel
    have dependent : isDependent mutualDeps (stubLeaf "_STUB0_A") = true := by decide +kernel
    have diverges := (mutual_diverges fuel).1
    simp only [mutualTree, Derivation.sygusAst, Derivation.sygusAsts] at diverges ⊢
    simp only [computeDeps, computeSubterms, ruled, dependent, if_pos, computeDep, diverges, bind, Except.bind]

end Passes

end LtlFuzz.PacketGen

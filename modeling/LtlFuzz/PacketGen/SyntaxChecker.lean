import LtlFuzz.PacketGen.TopologicalSort

/-! `syntaxChecker.ml`: circular dependencies are turned into constraints, and every reference
of a constraint is followed through the grammar. -/

namespace LtlFuzz.PacketGen
open Logic (recurseUntilFixpoint)

/-- The nonterminals that may follow a nonterminal in a dotted reference. -/
abbrev ProdRuleMap := List (String × List String)

def addRhs (nt : String) (prm : ProdRuleMap) : ProdRuleRhs → Except Fault ProdRuleMap
  | .rhs ges _ =>
    match prm.lookup nt with
    | some mem =>
      if mem.isEmpty then .error (.userError ("Nonterminal " ++ nt ++ " has both a type annotation and a production rule"))
      else .ok ((nt, mem ++ ges.map GrammarElement.label) :: prm)
    | none => .ok ((nt, ges.map GrammarElement.label) :: prm)
  | .stubbedRhs _ => .ok prm

def addElement (prm : ProdRuleMap) : Element → Except Fault ProdRuleMap
  | .prodRule nt rhss => rhss.foldlM (addRhs nt) prm
  | .typeAnnot nt _ _ =>
    match prm.lookup nt with
    | some _ =>
      .error (.userError
        ("Nonterminal " ++ nt ++ " either has two type annotations, or has both a type annotation and a production rule"))
    | none => .ok ((nt, []) :: prm)

def buildPrm (ast : Ast) : Except Fault ProdRuleMap := ast.foldlM addElement []

def buildNtSet (ast : Ast) : List String := ast.map Element.nt

def checkDIdsNtExpr (ntSet : List String) : List String → Except Fault Unit
  | [] => .ok ()
  | nt :: nts => if nt ∈ ntSet then checkDIdsNtExpr ntSet nts else .error (.userError ("Dangling identifier " ++ nt))

/-- The traversal that the checks of references share; it does not look into a cast. -/
def traverseNtExprs (visit : Reference → Reference → Except Fault Expr) : Expr → Except Fault Expr
  | .ntExpr context nts => visit context nts
  | .binOp left op right => do
    let right ← traverseNtExprs visit right
    let left ← traverseNtExprs visit left
    .ok (.binOp left op right)
  | .unOp op expr => do .ok (.unOp op (← traverseNtExprs visit expr))
  | .compOp left op right => do
    let right ← traverseNtExprs visit right
    let left ← traverseNtExprs visit left
    .ok (.compOp left op right)
  | .strLength expr => do .ok (.strLength (← traverseNtExprs visit expr))
  | .length expr => do .ok (.length (← traverseNtExprs visit expr))
  | .matching _ _ _ => .error .assertFailure
  | expr => .ok expr

def checkDanglingIdentifiers (ntSet : List String) : Expr → Except Fault Expr :=
  traverseNtExprs fun context nts => do
    checkDIdsNtExpr ntSet (nts.map Prod.fst)
    .ok (.ntExpr context nts)

def checkNtExprRefs (prm : ProdRuleMap) : Reference → Except Fault Reference
  | (nt1, idx1) :: (nt2, idx2) :: tl =>
    match prm.lookup nt1 with
    | none => .error .notFound
    | some mem =>
      if nt2 ∈ mem then do .ok ((nt1, idx1) :: (← checkNtExprRefs prm ((nt2, idx2) :: tl)))
      else .error (.userError ("Dot notation " ++ ntWithDots [(nt1, idx1), (nt2, idx2)] ++ " is an invalid reference"))
  | nts => .ok nts

def checkNtExpr (prm : ProdRuleMap) (nts : List String) (context : Reference) : Reference → Except Fault Expr
  | [] => .error (.failure "hd")
  | nt :: rest =>
    if nt.1 ∈ nts then do .ok (.ntExpr context (← checkNtExprRefs prm (nt :: rest)))
    else .error (.userError ("Nonterminal " ++ nt.1 ++ " not found in current production rule or type annotation"))

def checkProdRuleNtExprs (prm : ProdRuleMap) (nts : List String) : Expr → Except Fault Expr :=
  traverseNtExprs (checkNtExpr prm nts)

def checkTypeAnnotNtExprs (prm : ProdRuleMap) (nts : List String) : Expr → Except Fault Expr :=
  traverseNtExprs (checkNtExpr prm nts)

def checkRuleConstraint (prm : ProdRuleMap) (ntSet ges : List String) : SemanticConstraint → Except Fault SemanticConstraint
  | .dependency nt2 expr =>
    if nt2 ∉ ntSet then .error (.userError ("Dangling identifier " ++ nt2))
    else if nt2 ∉ ges then
      .error (.userError
        ("Dependency LHS identifier " ++ nt2 ++ " is not present on the RHS of the corresponding production rule"))
    else do
      let expr ← checkDanglingIdentifiers ntSet expr
      let expr ← checkProdRuleNtExprs prm ges expr
      .ok (.dependency nt2 expr)
  | .syGuSExpr expr => do
    let expr ← checkDanglingIdentifiers ntSet expr
    let expr ← checkProdRuleNtExprs prm ges expr
    .ok (.syGuSExpr expr)

def checkSyntaxProdRule (prm : ProdRuleMap) (ntSet : List String) : ProdRuleRhs → Except Fault ProdRuleRhs
  | .rhs ges scs => do .ok (.rhs ges (← scs.mapM (checkRuleConstraint prm ntSet (ges.map GrammarElement.label))))
  | .stubbedRhs _ => .error .assertFailure

def checkAnnotConstraint (prm : ProdRuleMap) (ntSet : List String) (nt : String) :
    SemanticConstraint → Except Fault SemanticConstraint
  | .dependency nt2 expr =>
    if nt2 ∉ ntSet then .error (.userError ("Dangling identifier " ++ nt2))
    else if nt2 ≠ nt then
      .error (.userError ("Dependency LHS identifier " ++ nt2 ++ " is not present in the corresponding type annotation"))
    else do
      let expr ← checkDanglingIdentifiers ntSet expr
      let expr ← checkTypeAnnotNtExprs prm [nt] expr
      .ok (.dependency nt2 expr)
  | .syGuSExpr expr => do
    let expr ← checkDanglingIdentifiers ntSet expr
    let expr ← checkTypeAnnotNtExprs prm [nt] expr
    .ok (.syGuSExpr expr)

def checkSyntaxElement (prm : ProdRuleMap) (ntSet : List String) : Element → Except Fault Element
  | .prodRule nt rhss => do .ok (.prodRule nt (← rhss.mapM (checkSyntaxProdRule prm ntSet)))
  | .typeAnnot nt ty scs => do .ok (.typeAnnot nt ty (← scs.mapM (checkAnnotConstraint prm ntSet nt)))

def checkVacuity : Ast → Except Fault Ast
  | [] => .error (.userError "Grammar is empty after dead rule removal")
  | ast => .ok ast

namespace SemanticConstraint

def isDependency : SemanticConstraint → Bool
  | .dependency _ _ => true
  | .syGuSExpr _ => false

/-- A dependency on one of these nonterminals, as a constraint. -/
def convert (nts : List String) : SemanticConstraint → SemanticConstraint
  | .syGuSExpr expr => .syGuSExpr expr
  | .dependency nt expr =>
    if nt ∈ nts then .syGuSExpr (.compOp (.ntExpr [] [(nt, none)]) .eq expr) else .dependency nt expr

end SemanticConstraint

/-- The constraints of a rule come first, and so do those made of the dependencies of a cycle. -/
def removeCircularScs (walk : Iteration) (scs : List SemanticConstraint) : List SemanticConstraint :=
  let sygusExprs := scs.filter fun sc => !sc.isDependency
  let dependencies := scs.filter fun sc => sc.isDependency
  match canonicalizeScs walk dependencies with
  | none => sygusExprs ++ dependencies
  | some cycle => sygusExprs ++ dependencies.foldl (fun acc dep => dep.convert cycle :: acc) []

def ProdRuleRhs.mapScs (change : List SemanticConstraint → List SemanticConstraint) : ProdRuleRhs → ProdRuleRhs
  | .rhs ges scs => .rhs ges (change scs)
  | .stubbedRhs stub => .stubbedRhs stub

def removeCircularElement (walk : Iteration) : Element → Element
  | .prodRule nt rhss => .prodRule nt (rhss.map (ProdRuleRhs.mapScs (removeCircularScs walk)))
  | .typeAnnot nt ty scs => .typeAnnot nt ty scs

def removeCircularDeps (walk : Iteration) (ast : Ast) : Ast := ast.map (removeCircularElement walk)

/-- The dependent terms that a constraint speaks of. -/
def depsToConvert (scs : List SemanticConstraint) : List String :=
  (scs.filterMap SemanticConstraint.syGuS?).flatMap fun expr =>
    (getAllNtScs scs).filter fun nt => nt ∈ expr.getNtsFromExpr

def checkScsForDepTerms (scs : List SemanticConstraint) : List SemanticConstraint :=
  scs.map fun sc => sc.convert (depsToConvert scs)

def checkElementForDepTerms : Element → Element
  | .typeAnnot nt ty scs => .typeAnnot nt ty (checkScsForDepTerms scs)
  | .prodRule nt rhss => .prodRule nt (rhss.map (ProdRuleRhs.mapScs checkScsForDepTerms))

def checkSygusExprsForDepTerms (ast : Ast) : Ast := ast.map checkElementForDepTerms

section Rounds

/-- Dependencies that are left, twice, and one if they do not stand last. -/
def unsettledScs (scs : List SemanticConstraint) : Nat :=
  2 * scs.countP SemanticConstraint.isDependency +
    if scs = (scs.filter fun sc => !sc.isDependency) ++ scs.filter fun sc => sc.isDependency then 0 else 1

def ProdRuleRhs.scs : ProdRuleRhs → List SemanticConstraint
  | .rhs _ scs => scs
  | .stubbedRhs _ => []

def Element.weigh (weight : List SemanticConstraint → Nat) : Element → Nat
  | .prodRule _ rhss => (rhss.map fun rhs => weight rhs.scs).sum
  | .typeAnnot _ _ scs => weight scs

/-- More than the rounds that either pass can take. -/
def Ast.rounds (ast : Ast) : Nat := (ast.map (Element.weigh unsettledScs)).sum + 1

end Rounds

/-- The two passes over the constraints, each repeated until nothing changes. -/
def settleDeps (walk : Iteration) (ast : Ast) : Option Ast := do
  let ast ← recurseUntilFixpoint (removeCircularDeps walk) ast.rounds ast
  recurseUntilFixpoint checkSygusExprsForDepTerms ast.rounds ast

def checkSyntax (walk : Iteration) (prm : ProdRuleMap) (ntSet : List String) (ast : Ast) : Except Fault Ast :=
  match settleDeps walk ast with
  | none => .error .diverges
  | some ast => do (← checkVacuity ast).mapM (checkSyntaxElement prm ntSet)

section Termination

variable {walk : Iteration} {scs : List SemanticConstraint}

theorem convert_of_not {nts : List String} {sc : SemanticConstraint} (constraint : sc.isDependency = false) :
    sc.convert nts = sc := by
  cases sc with
  | dependency nt expr => cases constraint
  | syGuSExpr expr => rfl

theorem isDependency_convert {nts : List String} {sc : SemanticConstraint} (still : (sc.convert nts).isDependency = true) :
    sc.isDependency = true := by
  cases sc with
  | dependency nt expr => rfl
  | syGuSExpr expr => cases still

private theorem foldl_cons_eq {α β : Type} (f : α → β) (items : List α) (acc : List β) :
    items.foldl (fun acc item => f item :: acc) acc = (items.map f).reverse ++ acc := by
  induction items generalizing acc with
  | nil => rfl
  | cons item items ih => simp [ih]

/-- What becomes of the constraints: a dependency of the cycle that is found is converted. -/
theorem removeCircularScs_cases (walk : Iteration) (scs : List SemanticConstraint) :
    (canonicalizeScs walk (scs.filter SemanticConstraint.isDependency) = none ∧
      removeCircularScs walk scs = (scs.filter fun sc => !sc.isDependency) ++ scs.filter fun sc => sc.isDependency) ∨
    ∃ cycle, canonicalizeScs walk (scs.filter SemanticConstraint.isDependency) = some cycle ∧
      removeCircularScs walk scs = (scs.filter fun sc => !sc.isDependency) ++
        ((scs.filter fun sc => sc.isDependency).map fun sc => sc.convert cycle).reverse := by
  simp only [removeCircularScs]
  cases found : canonicalizeScs walk (scs.filter SemanticConstraint.isDependency) with
  | none => exact Or.inl ⟨rfl, rfl⟩
  | some cycle =>
    refine Or.inr ⟨cycle, rfl, ?_⟩
    dsimp only
    rw [foldl_cons_eq, List.append_nil]

private theorem countP_convert_le (nts : List String) (scs : List SemanticConstraint) :
    (scs.map fun sc => sc.convert nts).countP SemanticConstraint.isDependency ≤ scs.countP SemanticConstraint.isDependency := by
  rw [List.countP_map]
  apply List.countP_mono_left
  intro sc _ still
  exact isDependency_convert still

private theorem countP_convert_lt {nts : List String} {scs : List SemanticConstraint} {nt : String} {expr : Expr}
    (listed : nt ∈ nts) (member : .dependency nt expr ∈ scs) :
    (scs.map fun sc => sc.convert nts).countP SemanticConstraint.isDependency < scs.countP SemanticConstraint.isDependency := by
  induction scs with
  | nil => cases member
  | cons sc scs ih =>
    have others := countP_convert_le nts scs
    rw [List.map_cons, List.countP_cons, List.countP_cons]
    rcases List.mem_cons.mp member with rfl | later
    · have turned : (SemanticConstraint.convert nts (.dependency nt expr)).isDependency = false := by
        simp [SemanticConstraint.convert, listed, SemanticConstraint.isDependency]
      have counted : (SemanticConstraint.dependency nt expr).isDependency = true := rfl
      rw [turned, counted, if_neg (by simp), if_pos rfl]
      omega
    · have fewer := ih later
      have first : (sc.convert nts).isDependency = true → sc.isDependency = true := isDependency_convert
      split
      · rename_i still
        rw [if_pos (first still)]
        omega
      · omega

private theorem countP_filters (scs : List SemanticConstraint) :
    (scs.filter fun sc => !sc.isDependency).countP SemanticConstraint.isDependency = 0 ∧
      (scs.filter fun sc => sc.isDependency).countP SemanticConstraint.isDependency =
        scs.countP SemanticConstraint.isDependency := by
  refine ⟨?_, ?_⟩
  · rw [List.countP_eq_zero]
    intro sc member
    simpa using (List.mem_filter.mp member).2
  · rw [List.countP_filter]
    simp

private theorem filters_of_parted (first last : List SemanticConstraint) (constraints : ∀ sc ∈ first, sc.isDependency = false)
    (dependencies : ∀ sc ∈ last, sc.isDependency = true) :
    (first ++ last).filter (fun sc => !sc.isDependency) = first ∧ (first ++ last).filter (fun sc => sc.isDependency) = last := by
  rw [List.filter_append, List.filter_append]
  refine ⟨?_, ?_⟩
  · rw [List.filter_eq_self.mpr (fun sc member => by simp [constraints sc member]),
      List.filter_eq_nil_iff.mpr (fun sc member => by simp [dependencies sc member]), List.append_nil]
  · rw [List.filter_eq_nil_iff.mpr (fun sc member => by simp [constraints sc member]),
      List.filter_eq_self.mpr (fun sc member => by simp [dependencies sc member]), List.nil_append]

/-- A round that changes something leaves less to do. -/
theorem removeCircularScs_lowers (changed : scs ≠ removeCircularScs walk scs) :
    unsettledScs (removeCircularScs walk scs) < unsettledScs scs := by
  obtain ⟨none_, all⟩ := countP_filters scs
  rcases removeCircularScs_cases walk scs with ⟨_, same⟩ | ⟨cycle, found, converted⟩
  · rw [same] at changed ⊢
    have parted := filters_of_parted (scs.filter fun sc => !sc.isDependency) (scs.filter fun sc => sc.isDependency)
      (fun sc member => by simpa using (List.mem_filter.mp member).2) (fun sc member => (List.mem_filter.mp member).2)
    unfold unsettledScs
    rw [parted.1, parted.2, if_pos rfl, if_neg changed, List.countP_append, none_, all]
    omega
  · obtain ⟨nt, expr, listed, member⟩ := canonicalizeScs_some found
    have fewer := countP_convert_lt listed member
    rw [converted]
    unfold unsettledScs
    rw [List.countP_append, List.countP_reverse, none_]
    change (List.map (fun sc => sc.convert cycle) (scs.filter fun sc => sc.isDependency)).countP _ <
      (scs.filter fun sc => sc.isDependency).countP _ at fewer
    rw [all] at fewer
    split <;> split <;> omega

/-- A conversion that changes something leaves a dependency less. -/
theorem checkScsForDepTerms_lowers (changed : scs ≠ checkScsForDepTerms scs) :
    (checkScsForDepTerms scs).countP SemanticConstraint.isDependency < scs.countP SemanticConstraint.isDependency := by
  have some_ : ∃ sc ∈ scs, sc.convert (depsToConvert scs) ≠ sc := by
    by_contra all
    push Not at all
    apply changed
    rw [checkScsForDepTerms, List.map_congr_left all, List.map_id']
  obtain ⟨sc, member, different⟩ := some_
  cases sc with
  | syGuSExpr expr => exact absurd rfl different
  | dependency nt expr =>
    have listed : nt ∈ depsToConvert scs := by
      by_contra missing
      exact different (by simp [SemanticConstraint.convert, missing])
    exact countP_convert_lt listed member

private theorem element_lowers {weight : List SemanticConstraint → Nat} {rule annot : List SemanticConstraint → List SemanticConstraint}
    (ruleLowers : ∀ scs, scs ≠ rule scs → weight (rule scs) < weight scs)
    (annotLowers : ∀ scs, scs ≠ annot scs → weight (annot scs) < weight scs) (change : Element → Element)
    (onRule : ∀ nt rhss, change (.prodRule nt rhss) = .prodRule nt (rhss.map (ProdRuleRhs.mapScs rule)))
    (onAnnot : ∀ nt ty scs, change (.typeAnnot nt ty scs) = .typeAnnot nt ty (annot scs)) (element : Element)
    (changed : element ≠ change element) : (change element).weigh weight < element.weigh weight := by
  cases element with
  | typeAnnot nt ty scs =>
    rw [onAnnot] at changed ⊢
    exact annotLowers scs fun same => changed (by rw [← same])
  | prodRule nt rhss =>
    rw [onRule] at changed ⊢
    have rhsLowers : ∀ rhs : ProdRuleRhs, rhs ≠ rhs.mapScs rule → weight (rhs.mapScs rule).scs < weight rhs.scs := by
      intro rhs different
      cases rhs with
      | stubbedRhs stub => exact absurd rfl different
      | rhs ges scs => exact ruleLowers scs fun same => different (by rw [ProdRuleRhs.mapScs, ← same])
    exact (Logic.sum_lowered (fun rhs => weight rhs.scs) rhsLowers rhss).2 fun same => changed (by rw [← same])

theorem removeCircularDeps_lowers (walk : Iteration) (ast : Ast) (changed : ast ≠ removeCircularDeps walk ast) :
    (removeCircularDeps walk ast).rounds < ast.rounds := by
  have each := element_lowers (fun scs => @removeCircularScs_lowers walk scs) (fun scs different => absurd rfl different)
    (removeCircularElement walk) (fun _ _ => rfl) (fun _ _ _ => rfl)
  have sum := (Logic.sum_lowered _ each ast).2 changed
  exact Nat.succ_lt_succ sum

/-- The dependencies of a grammar. -/
def Ast.dependencies (ast : Ast) : Nat := (ast.map (Element.weigh (List.countP SemanticConstraint.isDependency))).sum

theorem checkSygusExprsForDepTerms_lowers (ast : Ast) (changed : ast ≠ checkSygusExprsForDepTerms ast) :
    (checkSygusExprsForDepTerms ast).dependencies < ast.dependencies := by
  have each := element_lowers (fun scs => checkScsForDepTerms_lowers) (fun scs => checkScsForDepTerms_lowers)
    checkElementForDepTerms (fun _ _ => rfl) (fun _ _ _ => rfl)
  exact (Logic.sum_lowered _ each ast).2 changed

theorem dependencies_lt_rounds (ast : Ast) : ast.dependencies < ast.rounds := by
  have light : ∀ scs : List SemanticConstraint, scs.countP SemanticConstraint.isDependency ≤ unsettledScs scs := by
    intro scs
    unfold unsettledScs
    omega
  have each : ∀ element : Element, element.weigh (List.countP SemanticConstraint.isDependency) ≤ element.weigh unsettledScs := by
    intro element
    cases element with
    | prodRule nt rhss => exact List.sum_le_sum fun rhs _ => light rhs.scs
    | typeAnnot nt ty scs => exact light scs
  exact Nat.lt_succ_of_le (List.sum_le_sum fun element _ => each element)

/-- The second pass comes to an end. -/
theorem checkDepTerms_spec (ast : Ast) (kept : Ast → Prop) (initial : kept ast)
    (checking : ∀ ast, kept ast → kept (checkSygusExprsForDepTerms ast)) :
    ∃ settled, recurseUntilFixpoint checkSygusExprsForDepTerms ast.rounds ast = some settled ∧ kept settled := by
  obtain ⟨settled, checked, _, last⟩ := Logic.recurseUntilFixpoint_spec Ast.dependencies kept
    checkSygusExprsForDepTerms_lowers checking (dependencies_lt_rounds ast) initial
  exact ⟨settled, checked, last⟩

/-- Both passes come to an end, and what each of their rounds keeps holds in the end. -/
theorem settleDeps_spec (walk : Iteration) (ast : Ast) (kept : Ast → Prop) (initial : kept ast)
    (removing : ∀ ast, kept ast → kept (removeCircularDeps walk ast))
    (checking : ∀ ast, kept ast → kept (checkSygusExprsForDepTerms ast)) :
    ∃ middle settled, recurseUntilFixpoint (removeCircularDeps walk) ast.rounds ast = some middle ∧
      middle = removeCircularDeps walk middle ∧ settleDeps walk ast = some settled ∧ kept middle ∧ kept settled := by
  have enough : ast.rounds - 1 < ast.rounds := by
    unfold Ast.rounds
    omega
  obtain ⟨middle, removed, fixed, held⟩ := Logic.recurseUntilFixpoint_spec (fun ast => Ast.rounds ast - 1) kept (by
    intro other changed
    have lower := removeCircularDeps_lowers walk other changed
    have positive : 0 < (removeCircularDeps walk other).rounds := Nat.succ_pos _
    omega) removing enough initial
  obtain ⟨settled, checked, last⟩ := checkDepTerms_spec middle kept held checking
  exact ⟨middle, settled, removed, fixed, by rw [settleDeps, removed]; exact checked, held, last⟩

end Termination

end LtlFuzz.PacketGen

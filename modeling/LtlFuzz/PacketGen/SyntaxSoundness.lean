import LtlFuzz.Logic.Elementwise
import LtlFuzz.PacketGen.SyntaxChecker

/-! What the syntactic checks promise. A grammar is accepted exactly when every reference
outside of casts is declared and follows the grammar; what stands in a cast is never looked at. -/

namespace LtlFuzz.PacketGen
open Logic (bind_ok_iff)

section Acceptance

/-- All references that are not in a cast have a property; nothing is desugared there. -/
def Expr.Checked (allowed : Reference → Prop) : Expr → Prop
  | .ntExpr _ nts => allowed nts
  | .binOp left _ right => left.Checked allowed ∧ right.Checked allowed
  | .compOp left _ right => left.Checked allowed ∧ right.Checked allowed
  | .unOp _ expr => expr.Checked allowed
  | .strLength expr => expr.Checked allowed
  | .length expr => expr.Checked allowed
  | .matching _ _ _ => False
  | _ => True

theorem Expr.checked_and (first second : Reference → Prop) (expr : Expr) :
    expr.Checked (fun nts => first nts ∧ second nts) ↔ expr.Checked first ∧ expr.Checked second := by
  match expr with
  | .ntExpr context nts => exact Iff.rfl
  | .binOp left op right =>
    simp only [Expr.Checked, left.checked_and first second, right.checked_and first second]
    tauto
  | .compOp left op right =>
    simp only [Expr.Checked, left.checked_and first second, right.checked_and first second]
    tauto
  | .unOp op expr => exact expr.checked_and first second
  | .strLength expr => exact expr.checked_and first second
  | .length expr => exact expr.checked_and first second
  | .matching context nt cases => simp [Expr.Checked]
  | .bvCast len expr => simp [Expr.Checked]
  | .bvConst len bits => simp [Expr.Checked]
  | .blConst bits => simp [Expr.Checked]
  | .bConst value => simp [Expr.Checked]
  | .intConst value => simp [Expr.Checked]
  | .phConst name => simp [Expr.Checked]
  | .strConst text => simp [Expr.Checked]

/-- A traversal that accepts a reference leaves it as it is. -/
theorem traverse_ok_iff {visit : Reference → Reference → Except Fault Expr} {allowed : Reference → Prop}
    (visited : ∀ context nts result, visit context nts = .ok result ↔ result = .ntExpr context nts ∧ allowed nts)
    (expr result : Expr) : traverseNtExprs visit expr = .ok result ↔ result = expr ∧ expr.Checked allowed := by
  match expr with
  | .ntExpr context nts => exact visited context nts result
  | .binOp left op right =>
    simp only [traverseNtExprs, bind_ok_iff, traverse_ok_iff visited left, traverse_ok_iff visited right, Expr.Checked,
      Except.ok.injEq]
    constructor
    · rintro ⟨_, ⟨rfl, second⟩, _, ⟨rfl, first⟩, rfl⟩
      exact ⟨rfl, first, second⟩
    · rintro ⟨rfl, first, second⟩
      exact ⟨right, ⟨rfl, second⟩, left, ⟨rfl, first⟩, rfl⟩
  | .compOp left op right =>
    simp only [traverseNtExprs, bind_ok_iff, traverse_ok_iff visited left, traverse_ok_iff visited right, Expr.Checked,
      Except.ok.injEq]
    constructor
    · rintro ⟨_, ⟨rfl, second⟩, _, ⟨rfl, first⟩, rfl⟩
      exact ⟨rfl, first, second⟩
    · rintro ⟨rfl, first, second⟩
      exact ⟨right, ⟨rfl, second⟩, left, ⟨rfl, first⟩, rfl⟩
  | .unOp op expr =>
    simp only [traverseNtExprs, bind_ok_iff, traverse_ok_iff visited expr, Expr.Checked, Except.ok.injEq]
    constructor
    · rintro ⟨_, ⟨rfl, inner⟩, rfl⟩
      exact ⟨rfl, inner⟩
    · rintro ⟨rfl, inner⟩
      exact ⟨expr, ⟨rfl, inner⟩, rfl⟩
  | .strLength expr =>
    simp only [traverseNtExprs, bind_ok_iff, traverse_ok_iff visited expr, Expr.Checked, Except.ok.injEq]
    constructor
    · rintro ⟨_, ⟨rfl, inner⟩, rfl⟩
      exact ⟨rfl, inner⟩
    · rintro ⟨rfl, inner⟩
      exact ⟨expr, ⟨rfl, inner⟩, rfl⟩
  | .length expr =>
    simp only [traverseNtExprs, bind_ok_iff, traverse_ok_iff visited expr, Expr.Checked, Except.ok.injEq]
    constructor
    · rintro ⟨_, ⟨rfl, inner⟩, rfl⟩
      exact ⟨rfl, inner⟩
    · rintro ⟨rfl, inner⟩
      exact ⟨expr, ⟨rfl, inner⟩, rfl⟩
  | .matching context nt cases => simp [traverseNtExprs, Expr.Checked]
  | .bvCast len expr => simp [traverseNtExprs, Expr.Checked, eq_comm]
  | .bvConst len bits => simp [traverseNtExprs, Expr.Checked, eq_comm]
  | .blConst bits => simp [traverseNtExprs, Expr.Checked, eq_comm]
  | .bConst value => simp [traverseNtExprs, Expr.Checked, eq_comm]
  | .intConst value => simp [traverseNtExprs, Expr.Checked, eq_comm]
  | .phConst name => simp [traverseNtExprs, Expr.Checked, eq_comm]
  | .strConst text => simp [traverseNtExprs, Expr.Checked, eq_comm]

/-- Each component may follow the one before it. -/
def Linked (prm : ProdRuleMap) (nts : Reference) : Prop :=
  nts.IsChain fun first second => ∃ mem, prm.lookup first.1 = some mem ∧ second.1 ∈ mem

/-- A reference that the checks let through where these nonterminals are in scope. -/
structure ReferenceOk (prm : ProdRuleMap) (ntSet scope : List String) (nts : Reference) : Prop where
  declared : ∀ nt ∈ nts, nt.1 ∈ ntSet
  starts : ∃ head rest, nts = head :: rest ∧ head.1 ∈ scope
  linked : Linked prm nts

def ConstraintOk (prm : ProdRuleMap) (ntSet scope : List String) : SemanticConstraint → Prop
  | .dependency nt expr => nt ∈ ntSet ∧ nt ∈ scope ∧ expr.Checked (ReferenceOk prm ntSet scope)
  | .syGuSExpr expr => expr.Checked (ReferenceOk prm ntSet scope)

def RhsOk (prm : ProdRuleMap) (ntSet : List String) : ProdRuleRhs → Prop
  | .rhs ges scs => ∀ sc ∈ scs, ConstraintOk prm ntSet (ges.map GrammarElement.label) sc
  | .stubbedRhs _ => False

def ElementOk (prm : ProdRuleMap) (ntSet : List String) : Element → Prop
  | .prodRule _ rhss => ∀ rhs ∈ rhss, RhsOk prm ntSet rhs
  | .typeAnnot nt _ scs => ∀ sc ∈ scs, ConstraintOk prm ntSet [nt] sc

variable {prm : ProdRuleMap} {ntSet scope : List String}

private theorem checkDIdsNtExpr_ok_iff (nts : List String) : checkDIdsNtExpr ntSet nts = .ok () ↔ ∀ nt ∈ nts, nt ∈ ntSet := by
  induction nts with
  | nil => simp [checkDIdsNtExpr]
  | cons nt nts ih =>
    simp only [checkDIdsNtExpr]
    split
    · rename_i declared
      simp [ih, declared]
    · rename_i dangling
      simp [dangling]

private theorem checkNtExprRefs_ok_iff (nts result : Reference) :
    checkNtExprRefs prm nts = .ok result ↔ result = nts ∧ Linked prm nts := by
  match nts with
  | [] => simp [checkNtExprRefs, Linked, eq_comm]
  | [nt] => simp [checkNtExprRefs, Linked, eq_comm]
  | first :: second :: rest =>
    simp only [checkNtExprRefs, Linked, List.isChain_cons_cons]
    cases known : prm.lookup first.1 with
    | none => simp
    | some mem =>
      dsimp only
      split
      · rename_i listed
        rw [bind_ok_iff]
        constructor
        · rintro ⟨tail, checked, same⟩
          obtain ⟨rfl, linked⟩ := (checkNtExprRefs_ok_iff (second :: rest) tail).mp checked
          exact ⟨(Except.ok.inj same).symm, ⟨mem, rfl, listed⟩, linked⟩
        · rintro ⟨rfl, _, linked⟩
          exact ⟨second :: rest, (checkNtExprRefs_ok_iff (second :: rest) _).mpr ⟨rfl, linked⟩, rfl⟩
      · rename_i missing
        simp [missing]

private theorem checkDangling_ok_iff (expr result : Expr) :
    checkDanglingIdentifiers ntSet expr = .ok result ↔ result = expr ∧ expr.Checked fun nts => ∀ nt ∈ nts, nt.1 ∈ ntSet := by
  apply traverse_ok_iff
  intro context nts result
  rw [bind_ok_iff]
  constructor
  · rintro ⟨_, checked, same⟩
    refine ⟨(Except.ok.inj same).symm, fun nt member => ?_⟩
    exact (checkDIdsNtExpr_ok_iff _).mp checked nt.1 (List.mem_map_of_mem member)
  · rintro ⟨rfl, declared⟩
    refine ⟨(), (checkDIdsNtExpr_ok_iff _).mpr ?_, rfl⟩
    intro name member
    obtain ⟨nt, inside, rfl⟩ := List.mem_map.mp member
    exact declared nt inside

private theorem checkNtExpr_ok_iff (context nts : Reference) (result : Expr) :
    checkNtExpr prm scope context nts = .ok result ↔
      result = .ntExpr context nts ∧ (∃ head rest, nts = head :: rest ∧ head.1 ∈ scope) ∧ Linked prm nts := by
  cases nts with
  | nil => simp [checkNtExpr]
  | cons nt rest =>
    simp only [checkNtExpr]
    split
    · rename_i listed
      simp only [bind_ok_iff, checkNtExprRefs_ok_iff]
      constructor
      · rintro ⟨_, ⟨rfl, linked⟩, same⟩
        exact ⟨(Except.ok.inj same).symm, ⟨nt, rest, rfl, listed⟩, linked⟩
      · rintro ⟨rfl, _, linked⟩
        exact ⟨nt :: rest, ⟨rfl, linked⟩, rfl⟩
    · rename_i missing
      constructor
      · intro wrong
        cases wrong
      · rintro ⟨_, ⟨head, tail, same, listed⟩, _⟩
        cases same
        exact absurd listed missing

/-- The two traversals of an expression, one after the other. -/
private theorem checkExpr_ok_iff (expr result : Expr) :
    (checkDanglingIdentifiers ntSet expr >>= traverseNtExprs (checkNtExpr prm scope)) = .ok result ↔
      result = expr ∧ expr.Checked (ReferenceOk prm ntSet scope) := by
  have both : expr.Checked (ReferenceOk prm ntSet scope) ↔ expr.Checked (fun nts => ∀ nt ∈ nts, nt.1 ∈ ntSet) ∧
      expr.Checked fun nts => (∃ head rest, nts = head :: rest ∧ head.1 ∈ scope) ∧ Linked prm nts := by
    rw [← Expr.checked_and]
    have same : ReferenceOk prm ntSet scope = fun nts => (∀ nt ∈ nts, nt.1 ∈ ntSet) ∧
        (∃ head rest, nts = head :: rest ∧ head.1 ∈ scope) ∧ Linked prm nts := by
      funext nts
      exact propext ⟨fun ok => ⟨ok.declared, ok.starts, ok.linked⟩, fun ok => ⟨ok.1, ok.2.1, ok.2.2⟩⟩
    rw [same]
  simp only [bind_ok_iff, checkDangling_ok_iff, traverse_ok_iff checkNtExpr_ok_iff, both]
  constructor
  · rintro ⟨_, ⟨rfl, declared⟩, rfl, placed⟩
    exact ⟨rfl, declared, placed⟩
  · rintro ⟨rfl, declared, placed⟩
    exact ⟨result, ⟨rfl, declared⟩, rfl, placed⟩

private theorem checkSyGuS_ok_iff (expr : Expr) (result : SemanticConstraint) :
    ((checkDanglingIdentifiers ntSet expr >>= traverseNtExprs (checkNtExpr prm scope)) >>=
      fun expr => .ok (.syGuSExpr expr)) = .ok result ↔
      result = .syGuSExpr expr ∧ ConstraintOk prm ntSet scope (.syGuSExpr expr) := by
  rw [bind_ok_iff]
  simp only [checkExpr_ok_iff, ConstraintOk]
  constructor
  · rintro ⟨_, ⟨rfl, checked⟩, same⟩
    exact ⟨(Except.ok.inj same).symm, checked⟩
  · rintro ⟨rfl, checked⟩
    exact ⟨expr, ⟨rfl, checked⟩, rfl⟩

private theorem checkDependency_ok_iff {nt : String} {dangling misplaced : Fault} {present : Prop} [Decidable present]
    (placed : present ↔ nt ∈ scope) (expr : Expr) (result : SemanticConstraint) :
    (if nt ∉ ntSet then .error dangling
      else if ¬present then .error misplaced
      else (checkDanglingIdentifiers ntSet expr >>= traverseNtExprs (checkNtExpr prm scope)) >>=
        fun expr => .ok (.dependency nt expr)) = .ok result ↔
      result = .dependency nt expr ∧ ConstraintOk prm ntSet scope (.dependency nt expr) := by
  simp only [ConstraintOk, ← placed]
  split
  · rename_i undeclared
    simp [undeclared]
  · rename_i declared
    split
    · rename_i missing
      simp [missing]
    · rename_i listed
      rw [bind_ok_iff]
      simp only [checkExpr_ok_iff]
      constructor
      · rintro ⟨_, ⟨rfl, checked⟩, same⟩
        exact ⟨(Except.ok.inj same).symm, not_not.mp declared, not_not.mp listed, checked⟩
      · rintro ⟨rfl, _, _, checked⟩
        exact ⟨expr, ⟨rfl, checked⟩, rfl⟩

private theorem checkRuleConstraint_ok_iff (sc result : SemanticConstraint) :
    checkRuleConstraint prm ntSet scope sc = .ok result ↔ result = sc ∧ ConstraintOk prm ntSet scope sc := by
  cases sc with
  | syGuSExpr expr =>
    rw [← checkSyGuS_ok_iff, bind_assoc]
    rfl
  | dependency nt expr =>
    rw [← checkDependency_ok_iff Iff.rfl, bind_assoc]
    rfl

private theorem checkAnnotConstraint_ok_iff (nt : String) (sc result : SemanticConstraint) :
    checkAnnotConstraint prm ntSet nt sc = .ok result ↔ result = sc ∧ ConstraintOk prm ntSet [nt] sc := by
  cases sc with
  | syGuSExpr expr =>
    rw [← checkSyGuS_ok_iff, bind_assoc]
    rfl
  | dependency nt2 expr =>
    rw [← checkDependency_ok_iff List.mem_singleton.symm, bind_assoc]
    rfl

private theorem mapM_unchanged_iff {α : Type} {check : α → Except Fault α} {allowed : α → Prop}
    (checked : ∀ item result, check item = .ok result ↔ result = item ∧ allowed item) (items results : List α) :
    items.mapM check = .ok results ↔ results = items ∧ ∀ item ∈ items, allowed item := by
  have each : ∀ item result, check item = .ok result ↔ allowed item ∧ item = result := by
    intro item result
    rw [checked, and_comm, eq_comm]
  simp only [Logic.mapM_ok_iff, each]
  rw [List.forall₂_and_left, List.forall₂_eq_eq_eq, and_comm, eq_comm]

private theorem checkSyntaxProdRule_ok_iff (rhs result : ProdRuleRhs) :
    checkSyntaxProdRule prm ntSet rhs = .ok result ↔ result = rhs ∧ RhsOk prm ntSet rhs := by
  cases rhs with
  | stubbedRhs stub => simp [checkSyntaxProdRule, RhsOk]
  | rhs ges scs =>
    simp only [checkSyntaxProdRule, bind_ok_iff, mapM_unchanged_iff checkRuleConstraint_ok_iff, RhsOk]
    constructor
    · rintro ⟨_, ⟨rfl, checked⟩, same⟩
      exact ⟨(Except.ok.inj same).symm, checked⟩
    · rintro ⟨rfl, checked⟩
      exact ⟨scs, ⟨rfl, checked⟩, rfl⟩

private theorem checkSyntaxElement_ok_iff (element result : Element) :
    checkSyntaxElement prm ntSet element = .ok result ↔ result = element ∧ ElementOk prm ntSet element := by
  cases element with
  | prodRule nt rhss =>
    simp only [checkSyntaxElement, bind_ok_iff, mapM_unchanged_iff checkSyntaxProdRule_ok_iff, ElementOk]
    constructor
    · rintro ⟨_, ⟨rfl, checked⟩, same⟩
      exact ⟨(Except.ok.inj same).symm, checked⟩
    · rintro ⟨rfl, checked⟩
      exact ⟨rhss, ⟨rfl, checked⟩, rfl⟩
  | typeAnnot nt ty scs =>
    simp only [checkSyntaxElement, bind_ok_iff, mapM_unchanged_iff (checkAnnotConstraint_ok_iff nt), ElementOk]
    constructor
    · rintro ⟨_, ⟨rfl, checked⟩, same⟩
      exact ⟨(Except.ok.inj same).symm, checked⟩
    · rintro ⟨rfl, checked⟩
      exact ⟨scs, ⟨rfl, checked⟩, rfl⟩

/-- A dependency says as much to the checks as the constraint it is turned into. -/
private theorem constraintOk_convert (nts : List String) (sc : SemanticConstraint) :
    ConstraintOk prm ntSet scope (sc.convert nts) ↔ ConstraintOk prm ntSet scope sc := by
  cases sc with
  | syGuSExpr expr => exact Iff.rfl
  | dependency nt expr =>
    simp only [SemanticConstraint.convert]
    split
    · have single : ReferenceOk prm ntSet scope [(nt, none)] ↔ nt ∈ ntSet ∧ nt ∈ scope := by
        constructor
        · intro ok
          obtain ⟨head, rest, same, listed⟩ := ok.starts
          cases same
          exact ⟨ok.declared _ (List.mem_singleton.mpr rfl), listed⟩
        · rintro ⟨declared, listed⟩
          refine ⟨fun other member => ?_, ⟨(nt, none), [], rfl, listed⟩, List.isChain_singleton _⟩
          cases List.mem_singleton.mp member
          exact declared
      simp only [ConstraintOk, Expr.Checked, single, and_assoc]
    · exact Iff.rfl

private theorem removeCircularScs_ok_iff (walk : Iteration) (scs : List SemanticConstraint) :
    (∀ sc ∈ removeCircularScs walk scs, ConstraintOk prm ntSet scope sc) ↔ ∀ sc ∈ scs, ConstraintOk prm ntSet scope sc := by
  rcases removeCircularScs_cases walk scs with ⟨_, same⟩ | ⟨cycle, _, same⟩
  · rw [same]
    constructor
    · intro all sc member
      apply all
      cases kind : sc.isDependency with
      | true => exact List.mem_append_right _ (List.mem_filter.mpr ⟨member, kind⟩)
      | false => exact List.mem_append_left _ (List.mem_filter.mpr ⟨member, by simp [kind]⟩)
    · intro all sc member
      rcases List.mem_append.mp member with first | last
      · exact all sc (List.mem_filter.mp first).1
      · exact all sc (List.mem_filter.mp last).1
  · rw [same]
    constructor
    · intro all sc member
      rw [← constraintOk_convert cycle]
      apply all
      cases kind : sc.isDependency with
      | true =>
        refine List.mem_append_right _ (List.mem_reverse.mpr ?_)
        exact List.mem_map.mpr ⟨sc, List.mem_filter.mpr ⟨member, kind⟩, rfl⟩
      | false =>
        rw [convert_of_not kind]
        exact List.mem_append_left _ (List.mem_filter.mpr ⟨member, by simp [kind]⟩)
    · intro all sc member
      rcases List.mem_append.mp member with first | last
      · exact all sc (List.mem_filter.mp first).1
      · obtain ⟨old, inside, rfl⟩ := List.mem_map.mp (List.mem_reverse.mp last)
        exact (constraintOk_convert cycle old).mpr (all old (List.mem_filter.mp inside).1)

private theorem checkScsForDepTerms_ok_iff (scs : List SemanticConstraint) :
    (∀ sc ∈ checkScsForDepTerms scs, ConstraintOk prm ntSet scope sc) ↔ ∀ sc ∈ scs, ConstraintOk prm ntSet scope sc := by
  simp only [checkScsForDepTerms, List.mem_map, forall_exists_index, and_imp, forall_apply_eq_imp_iff₂, constraintOk_convert]

private theorem rhsOk_mapScs {change : List SemanticConstraint → List SemanticConstraint}
    (kept : ∀ (scope : List String) (scs : List SemanticConstraint),
      (∀ sc ∈ change scs, ConstraintOk prm ntSet scope sc) ↔ ∀ sc ∈ scs, ConstraintOk prm ntSet scope sc)
    (rhss : List ProdRuleRhs) :
    (∀ rhs ∈ rhss.map (ProdRuleRhs.mapScs change), RhsOk prm ntSet rhs) ↔ ∀ rhs ∈ rhss, RhsOk prm ntSet rhs := by
  simp only [List.mem_map, forall_exists_index, and_imp, forall_apply_eq_imp_iff₂]
  refine forall₂_congr fun rhs _ => ?_
  cases rhs with
  | rhs ges scs => exact kept _ scs
  | stubbedRhs stub => exact Iff.rfl

private theorem elementOk_removeCircular (walk : Iteration) (element : Element) :
    ElementOk prm ntSet (removeCircularElement walk element) ↔ ElementOk prm ntSet element := by
  cases element with
  | prodRule nt rhss => exact rhsOk_mapScs (fun _ => removeCircularScs_ok_iff walk) rhss
  | typeAnnot nt ty scs => exact Iff.rfl

private theorem elementOk_checkDepTerms (element : Element) :
    ElementOk prm ntSet (checkElementForDepTerms element) ↔ ElementOk prm ntSet element := by
  cases element with
  | prodRule nt rhss => exact rhsOk_mapScs (fun _ => checkScsForDepTerms_ok_iff) rhss
  | typeAnnot nt ty scs => exact checkScsForDepTerms_ok_iff scs

/-- The checks accept a grammar with rules, all of whose references outside of casts are in order. -/
theorem checkSyntax_ok_iff (walk : Iteration) (prm : ProdRuleMap) (ntSet : List String) (ast result : Ast) :
    checkSyntax walk prm ntSet ast = .ok result ↔
      settleDeps walk ast = some result ∧ ast ≠ [] ∧ ∀ element ∈ ast, ElementOk prm ntSet element := by
  obtain ⟨_, settled, _, _, ended, _, nonempty, same⟩ := settleDeps_spec walk ast
    (fun other => (other ≠ [] ↔ ast ≠ []) ∧
      ((∀ element ∈ other, ElementOk prm ntSet element) ↔ ∀ element ∈ ast, ElementOk prm ntSet element))
    ⟨Iff.rfl, Iff.rfl⟩
    (by
      rintro other ⟨nonempty, same⟩
      simp only [removeCircularDeps, ne_eq, List.map_eq_nil_iff, List.mem_map, forall_exists_index, and_imp,
        forall_apply_eq_imp_iff₂, elementOk_removeCircular]
      exact ⟨nonempty, same⟩)
    (by
      rintro other ⟨nonempty, same⟩
      simp only [checkSygusExprsForDepTerms, ne_eq, List.map_eq_nil_iff, List.mem_map, forall_exists_index, and_imp,
        forall_apply_eq_imp_iff₂, elementOk_checkDepTerms]
      exact ⟨nonempty, same⟩)
  rw [checkSyntax, ended, ← nonempty, ← same]
  dsimp only
  cases settled with
  | nil => simp [checkVacuity, bind, Except.bind]
  | cons element elements =>
    change (element :: elements).mapM (checkSyntaxElement prm ntSet) = .ok result ↔ _
    rw [mapM_unchanged_iff checkSyntaxElement_ok_iff]
    simp [eq_comm]

end Acceptance

section References

mutual

/-- All references of an expression, also those in casts. -/
def Expr.dotted : Expr → List Reference
  | .ntExpr _ nts => [nts]
  | .binOp left _ right => left.dotted ++ right.dotted
  | .compOp left _ right => left.dotted ++ right.dotted
  | .unOp _ expr => expr.dotted
  | .strLength expr => expr.dotted
  | .length expr => expr.dotted
  | .bvCast _ expr => expr.dotted
  | .matching _ nt cases => [nt] :: cases.dotted
  | _ => []

def Cases.dotted : Cases → List Reference
  | .nil => []
  | .case pattern expr rest => pattern.map (fun entry => [entry.2]) ++ expr.dotted ++ rest.dotted
  | .caseStub pattern rest => pattern.map (fun entry => [entry.2]) ++ rest.dotted

end

/-- The references that stand in a cast. -/
def Expr.underCast : Expr → List Reference
  | .binOp left _ right => left.underCast ++ right.underCast
  | .compOp left _ right => left.underCast ++ right.underCast
  | .unOp _ expr => expr.underCast
  | .strLength expr => expr.underCast
  | .length expr => expr.underCast
  | .bvCast _ expr => expr.dotted
  | _ => []

theorem Expr.dotted_of_underCast (expr : Expr) : ∀ nts ∈ expr.underCast, nts ∈ expr.dotted := by
  match expr with
  | .binOp left op right =>
    intro nts member
    exact List.mem_append.mpr ((List.mem_append.mp member).imp (left.dotted_of_underCast nts) (right.dotted_of_underCast nts))
  | .compOp left op right =>
    intro nts member
    exact List.mem_append.mpr ((List.mem_append.mp member).imp (left.dotted_of_underCast nts) (right.dotted_of_underCast nts))
  | .unOp op expr => exact expr.dotted_of_underCast
  | .strLength expr => exact expr.dotted_of_underCast
  | .length expr => exact expr.dotted_of_underCast
  | .bvCast len expr => exact fun nts member => member
  | .ntExpr context nts => exact fun nts member => nomatch member
  | .matching context nt cases => exact fun nts member => nomatch member
  | .bvConst len bits => exact fun nts member => nomatch member
  | .blConst bits => exact fun nts member => nomatch member
  | .bConst value => exact fun nts member => nomatch member
  | .intConst value => exact fun nts member => nomatch member
  | .phConst name => exact fun nts member => nomatch member
  | .strConst text => exact fun nts member => nomatch member

/-- A reference is checked or stands in a cast. -/
theorem Expr.checked_or_underCast {allowed : Reference → Prop} (expr : Expr) (checked : expr.Checked allowed) :
    ∀ nts ∈ expr.dotted, allowed nts ∨ nts ∈ expr.underCast := by
  match expr with
  | .ntExpr context nts =>
    intro other member
    cases List.mem_singleton.mp member
    exact Or.inl checked
  | .binOp left op right =>
    intro nts member
    rcases List.mem_append.mp member with first | second
    · exact (left.checked_or_underCast checked.1 nts first).imp_right (List.mem_append_left _)
    · exact (right.checked_or_underCast checked.2 nts second).imp_right (List.mem_append_right _)
  | .compOp left op right =>
    intro nts member
    rcases List.mem_append.mp member with first | second
    · exact (left.checked_or_underCast checked.1 nts first).imp_right (List.mem_append_left _)
    · exact (right.checked_or_underCast checked.2 nts second).imp_right (List.mem_append_right _)
  | .unOp op expr => exact expr.checked_or_underCast checked
  | .strLength expr => exact expr.checked_or_underCast checked
  | .length expr => exact expr.checked_or_underCast checked
  | .bvCast len expr => exact fun nts member => Or.inr member
  | .matching context nt cases => exact checked.elim
  | .bvConst len bits => exact fun nts member => nomatch member
  | .blConst bits => exact fun nts member => nomatch member
  | .bConst value => exact fun nts member => nomatch member
  | .intConst value => exact fun nts member => nomatch member
  | .phConst name => exact fun nts member => nomatch member
  | .strConst text => exact fun nts member => nomatch member

/-- The second nonterminal stands on the right of a rule of the first one. -/
def Ast.Follows (ast : Ast) (first second : String) : Prop :=
  ∃ rhss ges scs, .prodRule first rhss ∈ ast ∧ .rhs ges scs ∈ rhss ∧ second ∈ ges.map GrammarElement.label

private def Element.Leads (element : Element) (first second : String) : Prop :=
  ∃ rhss ges scs, element = .prodRule first rhss ∧ .rhs ges scs ∈ rhss ∧ second ∈ ges.map GrammarElement.label

private def IsListed (prm : ProdRuleMap) (first second : String) : Prop := ∃ mem, prm.lookup first = some mem ∧ second ∈ mem

private theorem listed_cons {prm : ProdRuleMap} {nt first second : String} {mem : List String} :
    IsListed ((nt, mem) :: prm) first second ↔ if first = nt then second ∈ mem else IsListed prm first second := by
  unfold IsListed
  rw [List.lookup_cons]
  by_cases same : first = nt
  · simp [same]
  · rw [if_neg same, beq_eq_false_iff_ne.mpr same]

private theorem addRhs_listed {nt : String} {prm next : ProdRuleMap} {rhs : ProdRuleRhs} (added : addRhs nt prm rhs = .ok next)
    (first second : String) :
    IsListed next first second ↔ IsListed prm first second ∨
      (first = nt ∧ ∃ ges scs, rhs = .rhs ges scs ∧ second ∈ ges.map GrammarElement.label) := by
  cases rhs with
  | stubbedRhs stub =>
    cases added
    simp
  | rhs ges scs =>
    simp only [addRhs] at added
    cases known : prm.lookup nt with
    | none =>
      rw [known] at added
      cases added
      rw [listed_cons]
      split
      · rename_i same
        simp [same, IsListed, known]
      · rename_i different
        simp [different]
    | some mem =>
      rw [known] at added
      dsimp only at added
      split at added
      · cases added
      · cases added
        rw [listed_cons]
        split
        · rename_i same
          simp [same, IsListed, known]
        · rename_i different
          simp [different]

private theorem addElement_listed {prm next : ProdRuleMap} {element : Element} (added : addElement prm element = .ok next)
    (first second : String) :
    IsListed next first second ↔ IsListed prm first second ∨ element.Leads first second := by
  cases element with
  | typeAnnot nt ty scs =>
    simp only [addElement] at added
    cases known : prm.lookup nt with
    | some mem =>
      rw [known] at added
      cases added
    | none =>
      rw [known] at added
      cases added
      rw [listed_cons]
      split
      · rename_i same
        simp [same, IsListed, known, Element.Leads]
      · simp [Element.Leads]
  | prodRule nt rhss =>
    have folded : ∀ (rest : List ProdRuleRhs) (prm next : ProdRuleMap), rest.foldlM (addRhs nt) prm = .ok next →
        (IsListed next first second ↔ IsListed prm first second ∨
          (first = nt ∧ ∃ ges scs, .rhs ges scs ∈ rest ∧ second ∈ ges.map GrammarElement.label)) := by
      intro rest
      induction rest with
      | nil =>
        intro prm next same
        cases same
        simp
      | cons rhs rest ih =>
        intro prm next all
        rw [List.foldlM_cons] at all
        obtain ⟨middle, one, others⟩ := Logic.bind_ok all
        rw [ih middle next others, addRhs_listed one]
        constructor
        · rintro ((old | ⟨same, ges, scs, rfl, member⟩) | ⟨same, ges, scs, inside, member⟩)
          · exact Or.inl old
          · exact Or.inr ⟨same, ges, scs, List.mem_cons_self, member⟩
          · exact Or.inr ⟨same, ges, scs, List.mem_cons_of_mem _ inside, member⟩
        · rintro (old | ⟨same, ges, scs, inside, member⟩)
          · exact Or.inl (Or.inl old)
          · rcases List.mem_cons.mp inside with rfl | inside
            · exact Or.inl (Or.inr ⟨same, ges, scs, rfl, member⟩)
            · exact Or.inr ⟨same, ges, scs, inside, member⟩
    rw [folded rhss prm next added]
    apply or_congr_right
    constructor
    · rintro ⟨rfl, ges, scs, inside, member⟩
      exact ⟨rhss, ges, scs, rfl, inside, member⟩
    · rintro ⟨_, ges, scs, same, inside, member⟩
      cases same
      exact ⟨rfl, ges, scs, inside, member⟩

/-- The map of the rules lists what stands on their right. -/
theorem buildPrm_listed {ast : Ast} {prm : ProdRuleMap} (built : buildPrm ast = .ok prm) (first second : String) :
    (∃ mem, prm.lookup first = some mem ∧ second ∈ mem) ↔ ast.Follows first second := by
  have folded : ∀ (rest : Ast) (prm next : ProdRuleMap), rest.foldlM addElement prm = .ok next →
      (IsListed next first second ↔ IsListed prm first second ∨ ∃ element ∈ rest, element.Leads first second) := by
    intro rest
    induction rest with
    | nil =>
      intro prm next same
      cases same
      simp
    | cons element rest ih =>
      intro prm next all
      rw [List.foldlM_cons] at all
      obtain ⟨middle, one, others⟩ := Logic.bind_ok all
      rw [ih middle next others, addElement_listed one]
      simp only [List.mem_cons, exists_eq_or_imp, or_assoc]
  have all := folded ast [] prm built
  change IsListed prm first second ↔ _
  rw [all]
  constructor
  · rintro (⟨_, none_, _⟩ | ⟨element, inside, rhss, ges, scs, rfl, rest⟩)
    · cases none_
    · exact ⟨rhss, ges, scs, inside, rest⟩
  · rintro ⟨rhss, ges, scs, inside, rest⟩
    exact Or.inr ⟨_, inside, rhss, ges, scs, rfl, rest⟩

/-- A constraint, with the nonterminals its references may start with. -/
inductive Ast.Attached (ast : Ast) : List String → SemanticConstraint → Prop where
  | rule {nt rhss ges scs sc} (element : .prodRule nt rhss ∈ ast) (rhs : .rhs ges scs ∈ rhss) (listed : sc ∈ scs) :
    Attached ast (ges.map GrammarElement.label) sc
  | annot {nt ty scs sc} (element : .typeAnnot nt ty scs ∈ ast) (listed : sc ∈ scs) : Attached ast [nt] sc

def SemanticConstraint.expr : SemanticConstraint → Expr
  | .dependency _ expr => expr
  | .syGuSExpr expr => expr

/-- The nonterminals on the left of dependencies. -/
def SemanticConstraint.lhs : SemanticConstraint → List String
  | .dependency nt _ => [nt]
  | .syGuSExpr _ => []

/-- A reference leads from a nonterminal in scope along right-hand sides of the grammar. -/
def Ast.Leads (ast : Ast) (scope : List String) (nts : Reference) : Prop :=
  (∃ head rest, nts = head :: rest ∧ head.1 ∈ scope) ∧ nts.IsChain fun first second => ast.Follows first.1 second.1

/-- What the header asks for: all nonterminals named in constraints are declared, and all
references follow the grammar. -/
structure Ast.InOrder (ast : Ast) : Prop where
  lhs : ∀ scope sc, ast.Attached scope sc → ∀ nt ∈ sc.lhs, nt ∈ ast.map Element.nt
  declared : ∀ scope sc, ast.Attached scope sc → ∀ nts ∈ sc.expr.dotted, ∀ nt ∈ nts, nt.1 ∈ ast.map Element.nt
  leads : ∀ scope sc, ast.Attached scope sc → ∀ nts ∈ sc.expr.dotted, ast.Leads scope nts

/-- The references that stand in casts are declared and follow the grammar. -/
def Ast.CastsInOrder (ast : Ast) : Prop :=
  ∀ scope sc, ast.Attached scope sc → ∀ nts ∈ sc.expr.underCast,
    (∀ nt ∈ nts, nt.1 ∈ ast.map Element.nt) ∧ ast.Leads scope nts

private theorem attached_ok {prm : ProdRuleMap} {ntSet : List String} {ast : Ast}
    (accepted : ∀ element ∈ ast, ElementOk prm ntSet element) {scope : List String} {sc : SemanticConstraint}
    (attached : ast.Attached scope sc) : ConstraintOk prm ntSet scope sc := by
  cases attached with
  | rule element rhs listed => exact accepted _ element _ rhs sc listed
  | annot element listed => exact accepted _ element sc listed

/-- In an accepted grammar everything is in order as soon as the casts are. -/
theorem accepted_inOrder_iff (walk : Iteration) (ast checked : Ast) (prm : ProdRuleMap) (built : buildPrm ast = .ok prm)
    (accepted : checkSyntax walk prm (buildNtSet ast) ast = .ok checked) : ast.InOrder ↔ ast.CastsInOrder := by
  obtain ⟨_, _, elements⟩ := (checkSyntax_ok_iff walk prm (buildNtSet ast) ast checked).mp accepted
  have linked : ∀ {scope nts}, ReferenceOk prm (buildNtSet ast) scope nts → ast.Leads scope nts := by
    intro scope nts ok
    exact ⟨ok.starts, ok.linked.imp fun first second => (buildPrm_listed built first.1 second.1).mp⟩
  have visible : ∀ {scope sc}, ast.Attached scope sc → sc.expr.Checked (ReferenceOk prm (buildNtSet ast) scope) := by
    intro scope sc attached
    have ok := attached_ok elements attached
    cases sc with
    | dependency nt expr => exact ok.2.2
    | syGuSExpr expr => exact ok
  constructor
  · intro order scope sc attached nts member
    have dotted := sc.expr.dotted_of_underCast nts member
    exact ⟨order.declared scope sc attached nts dotted, order.leads scope sc attached nts dotted⟩
  · intro casts
    refine ⟨?_, ?_, ?_⟩
    · intro scope sc attached nt member
      have ok := attached_ok elements attached
      cases sc with
      | dependency other expr =>
        cases List.mem_singleton.mp member
        exact ok.1
      | syGuSExpr expr => cases member
    · intro scope sc attached nts member
      rcases sc.expr.checked_or_underCast (visible attached) nts member with ok | hidden
      · exact ok.declared
      · exact (casts scope sc attached nts hidden).1
    · intro scope sc attached nts member
      rcases sc.expr.checked_or_underCast (visible attached) nts member with ok | hidden
      · exact linked ok
      · exact (casts scope sc attached nts hidden).2

/-- `<S> ::= <A> <B> { <A> <- int_to_bitvector(8, <Z>) }`, where `<Z>` is not declared. -/
def danglingAst : Ast := [
  .prodRule "S" [.rhs [.nonterminal "A", .nonterminal "B"] [.dependency "A" (.bvCast 8 (.ntExpr [] [("Z", none)]))]],
  .typeAnnot "A" (.bitVector 8) [],
  .typeAnnot "B" .int []]

private theorem danglingAst_accepted : ∃ prm checked, buildPrm danglingAst = .ok prm ∧
    checkSyntax Iteration.asGiven prm (buildNtSet danglingAst) danglingAst = .ok checked := by
  have evaluated : (buildPrm danglingAst).toOption.any (fun prm =>
      (checkSyntax Iteration.asGiven prm (buildNtSet danglingAst) danglingAst).toOption.any fun _ => true) = true := by
    decide
  obtain ⟨prm, built, evaluated⟩ := Logic.checked_ok evaluated
  obtain ⟨checked, accepted, _⟩ := Logic.checked_ok evaluated
  exact ⟨prm, checked, built, accepted⟩

theorem danglingAst_inOrder_iff : ∃ prm checked, buildPrm danglingAst = .ok prm ∧
    checkSyntax Iteration.asGiven prm (buildNtSet danglingAst) danglingAst = .ok checked ∧
    (danglingAst.InOrder ↔ danglingAst.CastsInOrder) := by
  obtain ⟨prm, checked, built, accepted⟩ := danglingAst_accepted
  exact ⟨prm, checked, built, accepted, accepted_inOrder_iff Iteration.asGiven danglingAst checked prm built accepted⟩

/-- The name in the cast is accepted. -/
theorem cast_hides_dangling_identifier : ∃ prm checked, buildPrm danglingAst = .ok prm ∧
    checkSyntax Iteration.asGiven prm (buildNtSet danglingAst) danglingAst = .ok checked ∧ ¬danglingAst.InOrder := by
  obtain ⟨prm, checked, built, accepted⟩ := danglingAst_accepted
  refine ⟨prm, checked, built, accepted, ?_⟩
  intro order
  have element : Element.prodRule "S"
      [.rhs [.nonterminal "A", .nonterminal "B"] [.dependency "A" (.bvCast 8 (.ntExpr [] [("Z", none)]))]] ∈ danglingAst :=
    List.mem_cons_self
  have attached := Ast.Attached.rule element List.mem_cons_self List.mem_cons_self
  have declared := order.declared _ _ attached [("Z", none)] (by simp [SemanticConstraint.expr, Expr.dotted]) ("Z", none) (by simp)
  exact absurd declared (by decide)

end References

end LtlFuzz.PacketGen

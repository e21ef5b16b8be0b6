import LtlFuzz.PacketGen.SyntaxSoundness
import LtlFuzz.PacketGen.TypeChecker

/-! `mergeOverlappingConstraints.ml`: where a constraint speaks of a nonterminal that has
constraints of its own, these are moved up into the rules the nonterminal stands in. The rules are
taken one by one, and a rule that was dealt with can receive constraints again. -/

namespace LtlFuzz.PacketGen
open Logic (bind_ok)

section Merging

def scConstrainsNt (nt : String) : SemanticConstraint → Bool
  | .syGuSExpr expr => nt ∈ expr.getNtsFromExpr
  | .dependency nt2 _ => nt = nt2

def ProdRuleRhs.constrainsNt (nt : String) : ProdRuleRhs → Bool
  | .rhs _ scs => scs.any (scConstrainsNt nt)
  | .stubbedRhs _ => false

def Element.constrainsNt (nt : String) : Element → Bool
  | .typeAnnot nt2 _ (_ :: _) => nt = nt2
  | .typeAnnot _ _ [] => false
  | .prodRule _ rhss => rhss.any (ProdRuleRhs.constrainsNt nt)

def astConstrainsNt (ast : Ast) (nt : String) : Bool := ast.any (Element.constrainsNt nt)

def prependNtToDotExprs (nt : String) : Expr → Except Fault Expr
  | .ntExpr [] nts => .ok (.ntExpr [] ((nt, none) :: nts))
  | .bvCast len expr => do .ok (.bvCast len (← prependNtToDotExprs nt expr))
  | .binOp expr1 op expr2 => do
    let expr2 ← prependNtToDotExprs nt expr2
    .ok (.binOp (← prependNtToDotExprs nt expr1) op expr2)
  | .unOp op expr => do .ok (.unOp op (← prependNtToDotExprs nt expr))
  | .compOp expr1 op expr2 => do
    let expr2 ← prependNtToDotExprs nt expr2
    .ok (.compOp (← prependNtToDotExprs nt expr1) op expr2)
  | .strLength expr => do .ok (.strLength (← prependNtToDotExprs nt expr))
  | .length expr => do .ok (.length (← prependNtToDotExprs nt expr))
  | .matching _ _ _ => .error (.internalError "Unexpected case 1 in prepend_nt_to_dot_exprs")
  | .ntExpr _ _ => .error (.internalError "Unexpected case 2 in prepend_nt_to_dot_exprs")
  | expr => .ok expr

def unsupportedMerge : Fault :=
  .internalError ("Unsupported case in merge. This grammar has some nonterminal that is a computed term (of the form " ++
    "<nt> <- expr) and is also referenced elsewhere in some constraint. This is currently unsupported, but will be " ++
    "supported in the future.")

def checkPushable : SemanticConstraint → Except Fault SemanticConstraint
  | .syGuSExpr expr => .ok (.syGuSExpr expr)
  | .dependency _ _ => .error unsupportedMerge

def prependNt (nt : String) : SemanticConstraint → Except Fault SemanticConstraint
  | .syGuSExpr expr => do .ok (.syGuSExpr (← prependNtToDotExprs nt expr))
  | .dependency _ _ => .error unsupportedMerge

def ProdRuleRhs.holds (nt : String) : ProdRuleRhs → Bool
  | .rhs ges _ => .nonterminal nt ∈ ges
  | .stubbedRhs _ => false

def ProdRuleRhs.pushUp (nt : String) (scs : List SemanticConstraint) (rhs : ProdRuleRhs) : ProdRuleRhs :=
  if rhs.holds nt then rhs.mapScs (scs ++ ·) else rhs

def Element.pushUp (nt : String) (scs : List SemanticConstraint) : Element → Element
  | .typeAnnot nt2 ty scs2 => .typeAnnot nt2 ty scs2
  | .prodRule nt2 rhss => .prodRule nt2 (rhss.map (ProdRuleRhs.pushUp nt scs))

/-- The constraints of an element. -/
def Element.scs : Element → List SemanticConstraint
  | .typeAnnot _ _ scs => scs
  | .prodRule _ rhss => rhss.flatMap ProdRuleRhs.scs

def Element.withoutScs : Element → Element
  | .typeAnnot nt ty _ => .typeAnnot nt ty []
  | .prodRule nt rhss => .prodRule nt (rhss.map (ProdRuleRhs.mapScs fun _ => []))

/-- The constraints of an element as they read in the rules that hold its nonterminal. -/
def Element.pushed : Element → Except Fault (List SemanticConstraint)
  | .typeAnnot _ _ scs => scs.mapM checkPushable
  | .prodRule nt rhss => (rhss.flatMap ProdRuleRhs.scs).mapM (prependNt nt)

def merge (ast : Ast) (element : Element) : Except Fault Ast :=
  match element with
  | .typeAnnot nt ty [] => .ok (ast ++ [.typeAnnot nt ty []])
  | element =>
    if astConstrainsNt ast element.nt then do
      let scs ← element.pushed
      .ok (ast.map (Element.pushUp element.nt scs) ++ [element.withoutScs])
    else .ok (ast ++ [element])

def detect (ast : Ast) : Element → Bool
  | .typeAnnot _ _ [] => false
  | .typeAnnot nt _ (_ :: _) => astConstrainsNt ast nt
  | .prodRule nt rhss => astConstrainsNt ast nt && decide ((Element.prodRule nt rhss).scs.length > 0)

def detectOverlappingConstraints (ast : Ast) : Bool := ast.any (detect ast)

def mergeOverlappingConstraints (ast : Ast) : Except Fault Ast := ast.foldlM merge []

end Merging

section Overlaps

/-- A rule has a constraint that names a nonterminal. -/
def Element.Names (element : Element) (nt : String) : Prop :=
  ∃ owner rhss ges scs sc, element = .prodRule owner rhss ∧ .rhs ges scs ∈ rhss ∧ sc ∈ scs ∧ scConstrainsNt nt sc = true

def Ast.Names (ast : Ast) (nt : String) : Prop := ∃ element ∈ ast, element.Names nt

/-- A nonterminal stands on the right of a rule. -/
def Element.Holds (element : Element) (nt : String) : Prop :=
  ∃ owner rhss, element = .prodRule owner rhss ∧ ∃ rhs ∈ rhss, rhs.holds nt = true

def Element.IsRule (element : Element) : Prop := ∃ nt rhss, element = .prodRule nt rhss

/-- Only rules have constraints, and no constraint names the nonterminal of a rule that has some. -/
structure Quiet (ast : Ast) : Prop where
  rules : ∀ element ∈ ast, element.scs ≠ [] → element.IsRule
  apart : ∀ element ∈ ast, element.scs ≠ [] → ¬ast.Names element.nt

private theorem constrainsNt_iff (element : Element) (nt : String) :
    element.constrainsNt nt = true ↔ element.Names nt ∨ (¬element.IsRule ∧ element.scs ≠ [] ∧ element.nt = nt) := by
  cases element with
  | typeAnnot nt2 ty scs =>
    cases scs with
    | nil => simp [Element.constrainsNt, Element.Names, Element.scs]
    | cons sc scs => simp [Element.constrainsNt, Element.Names, Element.IsRule, Element.scs, Element.nt, @eq_comm _ nt2 nt]
  | prodRule nt2 rhss =>
    have isRule : (Element.prodRule nt2 rhss).IsRule := ⟨nt2, rhss, rfl⟩
    simp only [Element.constrainsNt, List.any_eq_true, isRule, not_true_eq_false, false_and, or_false, Element.Names]
    constructor
    · rintro ⟨rhs, member, constrained⟩
      cases rhs with
      | stubbedRhs stub => cases constrained
      | rhs ges scs =>
        obtain ⟨sc, listed, named⟩ := List.any_eq_true.mp constrained
        exact ⟨nt2, rhss, ges, scs, sc, rfl, member, listed, named⟩
    · rintro ⟨_, _, ges, scs, sc, same, member, listed, named⟩
      cases same
      exact ⟨.rhs ges scs, member, List.any_eq_true.mpr ⟨sc, listed, named⟩⟩

/-- Nothing is detected exactly when constraints are apart. -/
theorem detect_false_iff (ast : Ast) : detectOverlappingConstraints ast = false ↔ Quiet ast := by
  have each : ∀ element : Element, detect ast element = true ↔ element.scs ≠ [] ∧ astConstrainsNt ast element.nt = true := by
    intro element
    cases element with
    | typeAnnot nt ty scs =>
      cases scs with
      | nil => simp [detect, Element.scs]
      | cons sc scs => simp [detect, Element.scs, Element.nt]
    | prodRule nt rhss =>
      simp only [detect, Bool.and_eq_true, decide_eq_true_eq, Element.nt, gt_iff_lt, List.length_pos_iff]
      exact And.comm
  rw [detectOverlappingConstraints, List.any_eq_false]
  simp only [each, not_and, astConstrainsNt, List.any_eq_true, constrainsNt_iff]
  constructor
  · intro silent
    have rules : ∀ element ∈ ast, element.scs ≠ [] → element.IsRule := by
      intro element member some_
      by_contra annot
      exact silent element member some_ ⟨element, member, Or.inr ⟨annot, some_, rfl⟩⟩
    refine ⟨rules, ?_⟩
    rintro element member some_ ⟨other, listed, named⟩
    exact silent element member some_ ⟨other, listed, Or.inl named⟩
  · rintro quiet element member some_ ⟨other, listed, named | ⟨annot, some', same⟩⟩
    · exact quiet.apart element member some_ ⟨other, listed, named⟩
    · exact annot (quiet.rules other listed some')

private theorem names_append (ast : Ast) (element : Element) (nt : String) :
    Ast.Names (ast ++ [element]) nt ↔ ast.Names nt ∨ element.Names nt := by
  simp [Ast.Names, or_and_right, exists_or]

private theorem names_iff_scs {element : Element} (isRule : element.IsRule) (nt : String) :
    element.Names nt ↔ ∃ sc ∈ element.scs, scConstrainsNt nt sc = true := by
  obtain ⟨owner, rhss, rfl⟩ := isRule
  constructor
  · rintro ⟨_, _, ges, scs, sc, same, member, listed, named⟩
    cases same
    exact ⟨sc, List.mem_flatMap.mpr ⟨.rhs ges scs, member, listed⟩, named⟩
  · rintro ⟨sc, listed, named⟩
    obtain ⟨rhs, member, inside⟩ := List.mem_flatMap.mp listed
    cases rhs with
    | stubbedRhs stub => cases inside
    | rhs ges scs => exact ⟨owner, rhss, ges, scs, sc, rfl, member, inside, named⟩

private theorem not_names_of_annot {element : Element} (annot : ¬element.IsRule) (nt : String) : ¬element.Names nt := by
  rintro ⟨owner, rhss, _, _, _, rfl, _⟩
  exact annot ⟨owner, rhss, rfl⟩

private theorem isRule_pushUp (nt : String) (scs : List SemanticConstraint) (element : Element) :
    (element.pushUp nt scs).IsRule ↔ element.IsRule := by
  cases element <;> simp [Element.pushUp, Element.IsRule]

private theorem nt_pushUp (nt : String) (scs : List SemanticConstraint) (element : Element) :
    (element.pushUp nt scs).nt = element.nt := by
  cases element <;> rfl

private theorem mem_scs_pushUp (nt : String) (scs : List SemanticConstraint) (element : Element) (sc : SemanticConstraint) :
    sc ∈ (element.pushUp nt scs).scs ↔ sc ∈ element.scs ∨ (element.Holds nt ∧ sc ∈ scs) := by
  cases element with
  | typeAnnot owner ty own => simp [Element.pushUp, Element.Holds]
  | prodRule owner rhss =>
    have one : ∀ rhs : ProdRuleRhs, sc ∈ (rhs.pushUp nt scs).scs ↔ sc ∈ rhs.scs ∨ (rhs.holds nt = true ∧ sc ∈ scs) := by
      intro rhs
      unfold ProdRuleRhs.pushUp
      split
      · rename_i held
        cases rhs with
        | stubbedRhs stub => cases held
        | rhs ges own => simp [ProdRuleRhs.mapScs, ProdRuleRhs.scs, held, or_comm]
      · rename_i free
        simp [free]
    simp only [Element.pushUp, Element.scs, List.mem_flatMap, List.mem_map, exists_exists_and_eq_and, one, Element.Holds]
    constructor
    · rintro ⟨rhs, member, own | ⟨held, listed⟩⟩
      · exact Or.inl ⟨rhs, member, own⟩
      · exact Or.inr ⟨⟨owner, rhss, rfl, rhs, member, held⟩, listed⟩
    · rintro (⟨rhs, member, own⟩ | ⟨⟨_, _, same, rhs, member, held⟩, listed⟩)
      · exact ⟨rhs, member, Or.inl own⟩
      · cases same
        exact ⟨rhs, member, Or.inr ⟨held, listed⟩⟩

private theorem isRule_of_holds {element : Element} {nt : String} (held : element.Holds nt) : element.IsRule := by
  obtain ⟨owner, rhss, rfl, _⟩ := held
  exact ⟨owner, rhss, rfl⟩

private theorem scs_pushUp_ne_nil (nt : String) (scs : List SemanticConstraint) (element : Element) :
    (element.pushUp nt scs).scs ≠ [] ↔ element.scs ≠ [] ∨ (element.Holds nt ∧ scs ≠ []) := by
  have inhabited : ∀ items : List SemanticConstraint, items ≠ [] ↔ ∃ sc, sc ∈ items :=
    fun items => ⟨List.exists_mem_of_ne_nil items, fun ⟨_, member⟩ => List.ne_nil_of_mem member⟩
  simp only [inhabited, mem_scs_pushUp, exists_or, exists_and_left]

private theorem names_pushUp (nt : String) (scs : List SemanticConstraint) (element : Element) (other : String) :
    (element.pushUp nt scs).Names other ↔ element.Names other ∨ (element.Holds nt ∧ ∃ sc ∈ scs, scConstrainsNt other sc = true) := by
  by_cases isRule : element.IsRule
  · rw [names_iff_scs ((isRule_pushUp nt scs element).mpr isRule), names_iff_scs isRule]
    simp only [mem_scs_pushUp, or_and_right, exists_or, and_assoc, exists_and_left]
  · have free : ¬element.Holds nt := fun held => isRule (isRule_of_holds held)
    have silent := not_names_of_annot isRule other
    have still := not_names_of_annot (fun other => isRule ((isRule_pushUp nt scs element).mp other)) other
    simp [free, silent, still]

private theorem names_map_pushUp (nt : String) (scs : List SemanticConstraint) (ast : Ast) (other : String) :
    Ast.Names (ast.map (Element.pushUp nt scs)) other ↔
      ast.Names other ∨ ((∃ element ∈ ast, element.Holds nt) ∧ ∃ sc ∈ scs, scConstrainsNt other sc = true) := by
  simp only [Ast.Names, List.mem_map, exists_exists_and_eq_and, names_pushUp]
  constructor
  · rintro ⟨element, member, named | ⟨held, pushed⟩⟩
    · exact Or.inl ⟨element, member, named⟩
    · exact Or.inr ⟨⟨element, member, held⟩, pushed⟩
  · rintro (⟨element, member, named⟩ | ⟨⟨element, member, held⟩, pushed⟩)
    · exact ⟨element, member, Or.inl named⟩
    · exact ⟨element, member, Or.inr ⟨held, pushed⟩⟩

end Overlaps

section Steps

/-- The steps that leave constraints apart. An element with constraints stays as it is only if it
is a rule that no constraint names and that names no rule with constraints. Its constraints move
up only into rules that no constraint names, and they name no rule with constraints themselves. -/
inductive StepOk (ast : Ast) (element : Element) : Prop where
  | bare (none_ : element.scs = [])
  | kept (apart : astConstrainsNt ast element.nt = false) (isRule : element.IsRule) (own : ¬element.Names element.nt)
    (others : ∀ rule ∈ ast, rule.scs ≠ [] → ¬element.Names rule.nt)
  | moved (named : astConstrainsNt ast element.nt = true)
    (free : ∀ scs, element.pushed = .ok scs → ∀ holder ∈ ast, holder.Holds element.nt → ¬ast.Names holder.nt ∧
      ∀ rule ∈ ast, rule.scs ≠ [] ∨ rule.Holds element.nt → ∀ sc ∈ scs, scConstrainsNt rule.nt sc = false)

private theorem not_names_of_bare {element : Element} (none_ : element.scs = []) (nt : String) : ¬element.Names nt := by
  rintro ⟨owner, rhss, ges, scs, sc, rfl, member, listed, _⟩
  have inside : sc ∈ (Element.prodRule owner rhss).scs := List.mem_flatMap.mpr ⟨.rhs ges scs, member, listed⟩
  rw [none_] at inside
  cases inside

private theorem scs_withoutScs (element : Element) : element.withoutScs.scs = [] := by
  cases element with
  | typeAnnot nt ty scs => rfl
  | prodRule nt rhss =>
    simp only [Element.withoutScs, Element.scs, List.flatMap_eq_nil_iff, List.mem_map, forall_exists_index, and_imp,
      forall_apply_eq_imp_iff₂]
    intro rhs _
    cases rhs <;> rfl

/-- An element without constraints changes nothing. -/
private theorem quiet_bare {ast : Ast} {element : Element} (none_ : element.scs = []) : Quiet (ast ++ [element]) ↔ Quiet ast := by
  have silent := not_names_of_bare none_
  constructor
  · intro quiet
    refine ⟨fun other member => quiet.rules other (List.mem_append_left _ member), ?_⟩
    intro other member some_ named
    exact quiet.apart other (List.mem_append_left _ member) some_ ((names_append ast element other.nt).mpr (Or.inl named))
  · intro quiet
    constructor
    · intro other member some_
      rcases List.mem_append.mp member with old | new
      · exact quiet.rules other old some_
      · cases List.mem_singleton.mp new
        exact absurd none_ some_
    · intro other member some_ named
      rcases List.mem_append.mp member with old | new
      · exact quiet.apart other old some_ (((names_append ast element other.nt).mp named).resolve_right (silent other.nt))
      · cases List.mem_singleton.mp new
        exact absurd none_ some_

private theorem quiet_kept {ast : Ast} {element : Element} (apart : astConstrainsNt ast element.nt = false)
    (some_ : element.scs ≠ []) :
    Quiet (ast ++ [element]) ↔ Quiet ast ∧ element.IsRule ∧ ¬element.Names element.nt ∧
      ∀ rule ∈ ast, rule.scs ≠ [] → ¬element.Names rule.nt := by
  have unnamed : ¬ast.Names element.nt := by
    rintro ⟨other, member, named⟩
    rw [astConstrainsNt, List.any_eq_false] at apart
    exact apart other member ((constrainsNt_iff other element.nt).mpr (Or.inl named))
  have last : element ∈ ast ++ [element] := List.mem_append_right _ (List.mem_singleton.mpr rfl)
  constructor
  · intro quiet
    refine ⟨⟨fun other member => quiet.rules other (List.mem_append_left _ member), ?_⟩, quiet.rules element last some_, ?_, ?_⟩
    · intro other member held named
      exact quiet.apart other (List.mem_append_left _ member) held ((names_append ast element other.nt).mpr (Or.inl named))
    · intro named
      exact quiet.apart element last some_ ((names_append ast element element.nt).mpr (Or.inr named))
    · intro rule member held named
      exact quiet.apart rule (List.mem_append_left _ member) held ((names_append ast element rule.nt).mpr (Or.inr named))
  · rintro ⟨quiet, isRule, own, others⟩
    constructor
    · intro other member held
      rcases List.mem_append.mp member with old | new
      · exact quiet.rules other old held
      · cases List.mem_singleton.mp new
        exact isRule
    · intro other member held named
      rcases List.mem_append.mp member with old | new
      · exact ((names_append ast element other.nt).mp named).elim (quiet.apart other old held) (others other old held)
      · cases List.mem_singleton.mp new
        exact ((names_append ast element element.nt).mp named).elim unnamed own

private theorem quiet_moved {ast : Ast} {nt : String} {scs : List SemanticConstraint} (some_ : scs ≠ []) :
    Quiet (ast.map (Element.pushUp nt scs)) ↔ Quiet ast ∧ ∀ holder ∈ ast, holder.Holds nt → ¬ast.Names holder.nt ∧
      ∀ rule ∈ ast, rule.scs ≠ [] ∨ rule.Holds nt → ∀ sc ∈ scs, scConstrainsNt rule.nt sc = false := by
  have mapped : Quiet (ast.map (Element.pushUp nt scs)) ↔ ∀ element ∈ ast, element.scs ≠ [] ∨ element.Holds nt →
      element.IsRule ∧ ¬ast.Names element.nt ∧
        ((∃ holder ∈ ast, holder.Holds nt) → ∀ sc ∈ scs, scConstrainsNt element.nt sc = false) := by
    have carried : ∀ element : Element, (element.pushUp nt scs).scs ≠ [] ↔ element.scs ≠ [] ∨ element.Holds nt := by
      intro element
      simp [scs_pushUp_ne_nil, some_]
    constructor
    · intro quiet element member held
      have inside := List.mem_map_of_mem (f := Element.pushUp nt scs) member
      have isRule := quiet.rules _ inside ((carried element).mpr held)
      have unnamed := quiet.apart _ inside ((carried element).mpr held)
      rw [nt_pushUp, names_map_pushUp, not_or] at unnamed
      refine ⟨(isRule_pushUp nt scs element).mp isRule, unnamed.1, ?_⟩
      intro holder sc listed
      by_contra named
      exact unnamed.2 ⟨holder, sc, listed, Bool.not_eq_false _ ▸ named⟩
    · intro all
      constructor
      · intro other member held
        obtain ⟨element, inside, rfl⟩ := List.mem_map.mp member
        exact (isRule_pushUp nt scs element).mpr (all element inside ((carried element).mp held)).1
      · intro other member held
        obtain ⟨element, inside, rfl⟩ := List.mem_map.mp member
        obtain ⟨_, unnamed, others⟩ := all element inside ((carried element).mp held)
        rw [nt_pushUp, names_map_pushUp, not_or]
        refine ⟨unnamed, ?_⟩
        rintro ⟨holder, sc, listed, named⟩
        rw [others holder sc listed] at named
        cases named
  rw [mapped]
  constructor
  · intro all
    refine ⟨⟨fun element member some_ => (all element member (Or.inl some_)).1,
      fun element member some_ => (all element member (Or.inl some_)).2.1⟩, ?_⟩
    intro holder member held
    exact ⟨(all holder member (Or.inr held)).2.1, fun rule inside carried => (all rule inside carried).2.2 ⟨holder, member, held⟩⟩
  · rintro ⟨quiet, free⟩ element member carried
    refine ⟨?_, ?_, ?_⟩
    · exact carried.elim (quiet.rules element member) isRule_of_holds
    · exact carried.elim (quiet.apart element member) fun held => (free element member held).1
    · rintro ⟨holder, inside, held⟩
      exact (free holder inside held).2 element member carried

private theorem pushed_ne_nil {element : Element} {scs : List SemanticConstraint} (pushed : element.pushed = .ok scs) :
    scs = [] ↔ element.scs = [] := by
  have same : scs.length = element.scs.length := by
    cases element with
    | typeAnnot nt ty own => exact (Logic.mapM_ok_iff.mp pushed).length_eq.symm
    | prodRule nt rhss => exact (Logic.mapM_ok_iff.mp pushed).length_eq.symm
  rw [← List.length_eq_zero_iff, same, List.length_eq_zero_iff]

private theorem pushUp_nil (nt : String) (ast : Ast) : ast.map (Element.pushUp nt []) = ast := by
  have each : ∀ rhs : ProdRuleRhs, rhs.pushUp nt [] = rhs := by
    intro rhs
    cases rhs <;> simp [ProdRuleRhs.pushUp, ProdRuleRhs.mapScs]
  refine (List.map_congr_left fun element _ => ?_).trans (List.map_id ast)
  cases element with
  | typeAnnot owner ty scs => rfl
  | prodRule owner rhss =>
    have same := (List.map_congr_left fun rhs _ => each rhs).trans (List.map_id rhss)
    rw [Element.pushUp, same]
    rfl

/-- What one step does. -/
theorem merge_cases {ast next : Ast} {element : Element} (merged : merge ast element = .ok next) :
    (element.scs = [] ∧ ∃ last : Element, last.scs = [] ∧ next = ast ++ [last]) ∨
    (element.scs ≠ [] ∧ astConstrainsNt ast element.nt = false ∧ next = ast ++ [element]) ∨
    (element.scs ≠ [] ∧ astConstrainsNt ast element.nt = true ∧ ∃ scs, element.pushed = .ok scs ∧ scs ≠ [] ∧
      next = ast.map (Element.pushUp element.nt scs) ++ [element.withoutScs]) := by
  have branches : (element.scs = [] ∧ next = ast ++ [element]) ∨
      (if astConstrainsNt ast element.nt then do
        let scs ← element.pushed
        .ok (ast.map (Element.pushUp element.nt scs) ++ [element.withoutScs])
      else .ok (ast ++ [element])) = .ok next := by
    match element with
    | .typeAnnot nt ty [] => exact Or.inl ⟨rfl, (Except.ok.inj merged).symm⟩
    | .typeAnnot nt ty (sc :: scs) => exact Or.inr merged
    | .prodRule nt rhss => exact Or.inr merged
  obtain ⟨none_, same⟩ | branch := branches
  · exact Or.inl ⟨none_, element, none_, same⟩
  · cases named : astConstrainsNt ast element.nt with
    | false =>
      rw [named] at branch
      cases branch
      by_cases none_ : element.scs = []
      · exact Or.inl ⟨none_, element, none_, rfl⟩
      · exact Or.inr (Or.inl ⟨none_, rfl, rfl⟩)
    | true =>
      rw [named] at branch
      obtain ⟨scs, pushed, same⟩ := bind_ok branch
      cases same
      by_cases none_ : element.scs = []
      · cases (pushed_ne_nil pushed).mpr none_
        refine Or.inl ⟨none_, element.withoutScs, scs_withoutScs element, ?_⟩
        rw [pushUp_nil]
      · refine Or.inr (Or.inr ⟨none_, rfl, scs, pushed, ?_, rfl⟩)
        exact fun empty => none_ ((pushed_ne_nil pushed).mp empty)

/-- One step keeps constraints apart exactly when it is one of those steps. -/
theorem merge_quiet_iff {ast next : Ast} {element : Element} (merged : merge ast element = .ok next) :
    Quiet next ↔ Quiet ast ∧ StepOk ast element := by
  obtain ⟨none_, last, bare, rfl⟩ | ⟨some_, apart, rfl⟩ | ⟨some_, named, scs, pushed, nonempty, rfl⟩ := merge_cases merged
  · rw [quiet_bare bare]
    exact ⟨fun quiet => ⟨quiet, .bare none_⟩, fun both => both.1⟩
  · rw [quiet_kept apart some_]
    constructor
    · rintro ⟨quiet, isRule, own, others⟩
      exact ⟨quiet, .kept apart isRule own others⟩
    · rintro ⟨quiet, none_ | ⟨_, isRule, own, others⟩ | ⟨named, _⟩⟩
      · exact absurd none_ some_
      · exact ⟨quiet, isRule, own, others⟩
      · rw [apart] at named
        cases named
  · rw [quiet_bare (scs_withoutScs element), quiet_moved nonempty]
    constructor
    · rintro ⟨quiet, free⟩
      refine ⟨quiet, .moved named ?_⟩
      intro other again
      cases pushed.symm.trans again
      exact free
    · rintro ⟨quiet, none_ | ⟨apart, _⟩ | ⟨_, free⟩⟩
      · exact absurd none_ some_
      · rw [apart] at named
        cases named
      · exact ⟨quiet, free scs pushed⟩

/-- All the steps of a run. -/
private theorem run_quiet_iff (elements : List Element) {ast result : Ast} (merged : elements.foldlM merge ast = .ok result) :
    Quiet result ↔ Quiet ast ∧ ∀ before element after state, elements = before ++ element :: after →
      before.foldlM merge ast = .ok state → StepOk state element := by
  induction elements generalizing ast with
  | nil =>
    cases merged
    simp
  | cons first rest ih =>
    rw [List.foldlM_cons] at merged
    obtain ⟨next, one, others⟩ := bind_ok merged
    rw [ih others, merge_quiet_iff one, and_assoc]
    apply and_congr_right
    intro _
    constructor
    · rintro ⟨step, later⟩ before element after state split reached
      cases before with
      | nil =>
        cases split
        cases reached
        exact step
      | cons head before =>
        cases split
        rw [List.foldlM_cons, one] at reached
        exact later before element after state rfl reached
    · intro all
      refine ⟨all [] first rest ast rfl rfl, ?_⟩
      intro before element after state split reached
      refine all (first :: before) element after state (by rw [split]; rfl) ?_
      rw [List.foldlM_cons, one]
      exact reached

/-- Nothing is detected in the result exactly when every step keeps constraints apart, and then
no constraint names a nonterminal that has constraints of its own. -/
theorem mergeOverlapping_detect_iff (ast result : Ast) (merged : mergeOverlappingConstraints ast = .ok result) :
    (detectOverlappingConstraints result = false ↔ ∀ before element after state, ast = before ++ element :: after →
      mergeOverlappingConstraints before = .ok state → StepOk state element) ∧
    (detectOverlappingConstraints result = false → ∀ element ∈ result, element.scs ≠ [] → ¬result.Names element.nt) := by
  constructor
  · rw [detect_false_iff, run_quiet_iff ast merged]
    have start : Quiet [] := ⟨fun _ member => (nomatch member), fun _ member => (nomatch member)⟩
    exact and_iff_right start
  · intro silent
    exact ((detect_false_iff result).mp silent).apart

/-- No nonterminal stands below itself. -/
def Ast.IsAcyclic (ast : Ast) : Prop := ∀ nt, ¬Relation.TransGen ast.Follows nt nt

/-- The front end lets a grammar through. -/
def Accepted (ast checked : Ast) : Prop :=
  ∃ prm, buildPrm ast = .ok prm ∧ checkSyntax Iteration.asGiven prm (buildNtSet ast) ast = .ok checked ∧
    checkTypes (buildContext checked) checked = .ok checked

theorem accepted_of_evaluated {ast : Ast} (evaluated : (buildPrm ast).toOption.any (fun prm =>
    (checkSyntax Iteration.asGiven prm (buildNtSet ast) ast).toOption.any fun checked =>
      decide (checked = ast) && decide (checkTypes (buildContext checked) checked = .ok checked)) = true) : Accepted ast ast := by
  obtain ⟨prm, built, evaluated⟩ := Logic.checked_ok evaluated
  obtain ⟨checked, accepted, evaluated⟩ := Logic.checked_ok evaluated
  rw [Bool.and_eq_true, decide_eq_true_eq, decide_eq_true_eq] at evaluated
  obtain ⟨rfl, typed⟩ := evaluated
  exact ⟨prm, built, accepted, typed⟩

/-- `<B>.<C> > 0`. -/
def above0 : SemanticConstraint := .syGuSExpr (.compOp (.ntExpr [] [("B", none), ("C", none)]) .gt (.intConst 0))

/-- `<C> < 5`. -/
def below5 : SemanticConstraint := .syGuSExpr (.compOp (.ntExpr [] [("C", none)]) .lt (.intConst 5))

/-- `<A> ::= <B> { <B>.<C> > 0 }`, `<B> ::= <C>` and `<C> :: Int { <C> < 5 }`. -/
def chainAst : Ast := [
  .prodRule "A" [.rhs [.nonterminal "B"] [above0]],
  .prodRule "B" [.rhs [.nonterminal "C"] []],
  .typeAnnot "C" .int [below5]]

def chainMerged : Ast := [
  .prodRule "A" [.rhs [.nonterminal "B"] [above0]],
  .prodRule "B" [.rhs [.nonterminal "C"] [below5]],
  .typeAnnot "C" .int []]

private theorem chainAst_accepted : Accepted chainAst chainAst := by
  apply accepted_of_evaluated
  decide

private theorem chainAst_acyclic : chainAst.IsAcyclic := by
  let rank : String → Nat := fun nt => if nt = "A" then 2 else if nt = "B" then 1 else 0
  have lower : ∀ x y, chainAst.Follows x y → rank y < rank x := by
    rintro x y ⟨rhss, ges, scs, inside, member, listed⟩
    simp only [chainAst, List.mem_cons, Element.prodRule.injEq, reduceCtorEq, List.not_mem_nil, or_false, or_self] at inside
    obtain ⟨rfl, rfl⟩ | ⟨rfl, rfl⟩ := inside
    · cases List.mem_singleton.mp member
      cases List.mem_singleton.mp listed
      decide
    · cases List.mem_singleton.mp member
      cases List.mem_singleton.mp listed
      decide
  intro nt walk
  have below : ∀ x y, Relation.TransGen chainAst.Follows x y → rank y < rank x := by
    intro x y path
    induction path with
    | single edge => exact lower _ _ edge
    | tail _ edge ih => exact (lower _ _ edge).trans ih
  exact Nat.lt_irrefl _ (below nt nt walk)

theorem chainAst_detect_iff : ∃ result, mergeOverlappingConstraints chainAst = .ok result ∧
    (detectOverlappingConstraints result = false ↔ ∀ before element after state, chainAst = before ++ element :: after →
      mergeOverlappingConstraints before = .ok state → StepOk state element) := by
  have evaluated : (mergeOverlappingConstraints chainAst).toOption.any (fun _ => true) = true := by decide
  obtain ⟨result, merged, _⟩ := Logic.checked_ok evaluated
  exact ⟨result, merged, (mergeOverlapping_detect_iff chainAst result merged).1⟩

/-- The constraint on `<C>` moves up into the rule of `<B>`, of which the rule of `<A>` speaks. -/
theorem chained_constraints_still_overlap : Accepted chainAst chainAst ∧ chainAst.IsAcyclic ∧
    ∃ result, mergeOverlappingConstraints chainAst = .ok result ∧ detectOverlappingConstraints result = true ∧
      ∃ element ∈ result, element.scs ≠ [] ∧ element.IsRule ∧ result.Names element.nt := by
  refine ⟨chainAst_accepted, chainAst_acyclic, ?_⟩
  refine ⟨chainMerged, rfl, by decide, .prodRule "B" [.rhs [.nonterminal "C"] [below5]], ?_, by decide, ⟨_, _, rfl⟩, ?_⟩
  · exact List.mem_cons_of_mem _ List.mem_cons_self
  · exact ⟨_, List.mem_cons_self, _, _, _, _, _, rfl, List.mem_cons_self, List.mem_cons_self, by decide⟩

end Steps

end LtlFuzz.PacketGen

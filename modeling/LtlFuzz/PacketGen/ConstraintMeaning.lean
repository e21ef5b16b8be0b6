import LtlFuzz.PacketGen.DpllTrees

/-! What a constraint says about a derivation tree. The operators mean what the solver's
theories make of them; a reference stands for every value it leads to below its node. -/

namespace LtlFuzz.PacketGen
open Dpll (ModelValue DerivationTree)

/-- The operators on values, undefined on operands of a wrong type. -/
structure Theory where
  unary : UnaryOperator → ModelValue → Option ModelValue
  binary : BinOperator → ModelValue → ModelValue → Option ModelValue
  comparison : CompOperator → ModelValue → ModelValue → Option ModelValue
  length : ModelValue → Option ModelValue
  strLength : ModelValue → Option ModelValue
  cast : Nat → ModelValue → Option ModelValue

namespace Expr

def eval (theory : Theory) (value : Reference → Option ModelValue) : Expr → Option ModelValue
  | .ntExpr context nts => value (context ++ nts)
  | .binOp left op right => (left.eval theory value).bind fun first => (right.eval theory value).bind (theory.binary op first)
  | .compOp left op right =>
    (left.eval theory value).bind fun first => (right.eval theory value).bind (theory.comparison op first)
  | .unOp op expr => (expr.eval theory value).bind (theory.unary op)
  | .length expr => (expr.eval theory value).bind theory.length
  | .strLength expr => (expr.eval theory value).bind theory.strLength
  | .bvCast len expr => (expr.eval theory value).bind (theory.cast len)
  | .matching _ _ _ => none
  | .bvConst len bits => some (.bitVector len bits)
  | .blConst bits => some (.bitList bits)
  | .bConst value => some (.bool value)
  | .intConst value => some (.int value)
  | .phConst name => some (.placeholder name)
  | .strConst text => some (.string text)

def references : Expr → List Reference
  | .ntExpr context nts => [context ++ nts]
  | .binOp left _ right => left.references ++ right.references
  | .compOp left _ right => left.references ++ right.references
  | .unOp _ expr => expr.references
  | .length expr => expr.references
  | .strLength expr => expr.references
  | .bvCast _ expr => expr.references
  | _ => []

theorem getNts_subset (expr : Expr) : ∀ reference ∈ expr.getNts, reference ∈ expr.references := by
  match expr with
  | .ntExpr context nts => exact fun reference member => member
  | .binOp left op right =>
    intro reference member
    exact List.mem_append.mpr ((List.mem_append.mp member).imp (left.getNts_subset reference) (right.getNts_subset reference))
  | .compOp left op right =>
    intro reference member
    exact List.mem_append.mpr ((List.mem_append.mp member).imp (left.getNts_subset reference) (right.getNts_subset reference))
  | .unOp op expr => exact expr.getNts_subset
  | .length expr => exact expr.getNts_subset
  | .strLength expr => exact expr.getNts_subset
  | .bvCast len expr => exact fun reference member => nomatch member
  | .matching context nt cases => exact fun reference member => nomatch member
  | .bvConst len bits => exact fun reference member => nomatch member
  | .blConst bits => exact fun reference member => nomatch member
  | .bConst value => exact fun reference member => nomatch member
  | .intConst value => exact fun reference member => nomatch member
  | .phConst name => exact fun reference member => nomatch member
  | .strConst text => exact fun reference member => nomatch member

private theorem bind_mono {α β : Type} {first other : Option α} {next more : α → Option β} {result : β}
    (before : ∀ value, first = some value → other = some value) (after : ∀ value, next value = some result → more value = some result)
    (evaluated : first.bind next = some result) : other.bind more = some result := by
  obtain ⟨value, found, rest⟩ := Option.bind_eq_some_iff.mp evaluated
  exact Option.bind_eq_some_iff.mpr ⟨value, before value found, after value rest⟩

/-- Further values for references leave a result as it is. -/
theorem eval_mono {theory : Theory} {value other : Reference → Option ModelValue} (expr : Expr) {result : ModelValue}
    (agree : ∀ reference ∈ expr.references, ∀ found, value reference = some found → other reference = some found)
    (evaluated : expr.eval theory value = some result) : expr.eval theory other = some result := by
  match expr with
  | .ntExpr context nts => exact agree _ (List.mem_singleton.mpr rfl) result evaluated
  | .binOp left op right =>
    apply bind_mono _ _ evaluated
    · intro found
      exact left.eval_mono fun reference member => agree reference (List.mem_append_left _ member)
    · intro found
      apply bind_mono _ fun _ same => same
      intro last
      exact right.eval_mono fun reference member => agree reference (List.mem_append_right _ member)
  | .compOp left op right =>
    apply bind_mono _ _ evaluated
    · intro found
      exact left.eval_mono fun reference member => agree reference (List.mem_append_left _ member)
    · intro found
      apply bind_mono _ fun _ same => same
      intro last
      exact right.eval_mono fun reference member => agree reference (List.mem_append_right _ member)
  | .unOp op expr => exact bind_mono (fun found => expr.eval_mono agree) (fun _ same => same) evaluated
  | .length expr => exact bind_mono (fun found => expr.eval_mono agree) (fun _ same => same) evaluated
  | .strLength expr => exact bind_mono (fun found => expr.eval_mono agree) (fun _ same => same) evaluated
  | .bvCast len expr => exact bind_mono (fun found => expr.eval_mono agree) (fun _ same => same) evaluated
  | .matching context nt cases => cases evaluated
  | .bvConst len bits => exact evaluated
  | .blConst bits => exact evaluated
  | .bConst value => exact evaluated
  | .intConst value => exact evaluated
  | .phConst name => exact evaluated
  | .strConst text => exact evaluated

/-- References as they are written: nothing is desugared and nothing is ambiguous. -/
def plain : Expr → Bool
  | .ntExpr context nts => context.isEmpty && nts.all fun nt => nt.2.isNone
  | .binOp left _ right => left.plain && right.plain
  | .compOp left _ right => left.plain && right.plain
  | .unOp _ expr => expr.plain
  | .length expr => expr.plain
  | .strLength expr => expr.plain
  | .bvCast _ expr => expr.plain
  | .matching _ _ _ => false
  | _ => true

/-- A reference seen from the root. -/
def fromRoot (isTypeAnnot : Bool) (path : List String) (nts : Reference) : Reference :=
  (if isTypeAnnot then path.dropLast else path).map (fun id => (id, none)) ++ nts

/-- A constraint seen from the root has the path to its node in front of every reference. -/
theorem universalize_spec (theory : Theory) (value : Reference → Option ModelValue) {isTypeAnnot : Bool}
    {path : List String} (expr : Expr) {universal : Expr} (plain : expr.plain = true)
    (done : Dpll.universalizeExpr isTypeAnnot path expr = some universal) :
    universal.eval theory value = expr.eval theory (fun nts => value (fromRoot isTypeAnnot path nts)) ∧
      universal.getNts = expr.getNts.map (fromRoot isTypeAnnot path) := by
  match expr with
  | .ntExpr context nts =>
    simp only [Expr.plain, Bool.and_eq_true, List.isEmpty_iff] at plain
    cases done
    simp [Expr.eval, getNts, plain.1, fromRoot]
  | .binOp left op right =>
    simp only [Expr.plain, Bool.and_eq_true] at plain
    obtain ⟨first, leftDone, rest⟩ := Option.bind_eq_some_iff.mp done
    obtain ⟨second, rightDone, last⟩ := Option.bind_eq_some_iff.mp rest
    cases last
    obtain ⟨leftEval, leftNts⟩ := left.universalize_spec theory value plain.1 leftDone
    obtain ⟨rightEval, rightNts⟩ := right.universalize_spec theory value plain.2 rightDone
    simp [Expr.eval, getNts, leftEval, rightEval, leftNts, rightNts]
  | .compOp left op right =>
    simp only [Expr.plain, Bool.and_eq_true] at plain
    obtain ⟨first, leftDone, rest⟩ := Option.bind_eq_some_iff.mp done
    obtain ⟨second, rightDone, last⟩ := Option.bind_eq_some_iff.mp rest
    cases last
    obtain ⟨leftEval, leftNts⟩ := left.universalize_spec theory value plain.1 leftDone
    obtain ⟨rightEval, rightNts⟩ := right.universalize_spec theory value plain.2 rightDone
    simp [Expr.eval, getNts, leftEval, rightEval, leftNts, rightNts]
  | .unOp op expr =>
    obtain ⟨inner, innerDone, last⟩ := Option.bind_eq_some_iff.mp done
    cases last
    obtain ⟨innerEval, innerNts⟩ := expr.universalize_spec theory value plain innerDone
    simp [Expr.eval, getNts, innerEval, innerNts]
  | .length expr =>
    obtain ⟨inner, innerDone, last⟩ := Option.bind_eq_some_iff.mp done
    cases last
    obtain ⟨innerEval, innerNts⟩ := expr.universalize_spec theory value plain innerDone
    simp [Expr.eval, getNts, innerEval, innerNts]
  | .strLength expr =>
    obtain ⟨inner, innerDone, last⟩ := Option.bind_eq_some_iff.mp done
    cases last
    obtain ⟨innerEval, innerNts⟩ := expr.universalize_spec theory value plain innerDone
    simp [Expr.eval, getNts, innerEval, innerNts]
  | .bvCast len expr =>
    obtain ⟨inner, innerDone, last⟩ := Option.bind_eq_some_iff.mp done
    cases last
    obtain ⟨innerEval, innerNts⟩ := expr.universalize_spec theory value plain innerDone
    simp [Expr.eval, getNts, innerEval]
  | .matching context nt cases => cases done
  | .bvConst len bits => cases done; exact ⟨rfl, rfl⟩
  | .blConst bits => cases done; exact ⟨rfl, rfl⟩
  | .bConst value => cases done; exact ⟨rfl, rfl⟩
  | .intConst value => cases done; exact ⟨rfl, rfl⟩
  | .phConst name => cases done; exact ⟨rfl, rfl⟩
  | .strConst text => cases done; exact ⟨rfl, rfl⟩

theorem plain_references (expr : Expr) (plain : expr.plain = true) :
    ∀ reference ∈ expr.references, ∀ nt ∈ reference, nt.2 = none := by
  match expr with
  | .ntExpr context nts =>
    simp only [Expr.plain, Bool.and_eq_true, List.isEmpty_iff, List.all_eq_true, Option.isNone_iff_eq_none] at plain
    intro reference member nt inside
    rw [List.mem_singleton.mp member, plain.1, List.nil_append] at inside
    exact plain.2 nt inside
  | .binOp left op right =>
    simp only [Expr.plain, Bool.and_eq_true] at plain
    intro reference member
    rcases List.mem_append.mp member with first | second
    · exact left.plain_references plain.1 reference first
    · exact right.plain_references plain.2 reference second
  | .compOp left op right =>
    simp only [Expr.plain, Bool.and_eq_true] at plain
    intro reference member
    rcases List.mem_append.mp member with first | second
    · exact left.plain_references plain.1 reference first
    · exact right.plain_references plain.2 reference second
  | .unOp op expr => exact expr.plain_references plain
  | .length expr => exact expr.plain_references plain
  | .strLength expr => exact expr.plain_references plain
  | .bvCast len expr => exact expr.plain_references plain
  | .matching context nt cases => cases plain
  | .bvConst len bits => exact fun reference member => nomatch member
  | .blConst bits => exact fun reference member => nomatch member
  | .bConst value => exact fun reference member => nomatch member
  | .intConst value => exact fun reference member => nomatch member
  | .phConst name => exact fun reference member => nomatch member
  | .strConst text => exact fun reference member => nomatch member

end Expr

def GrammarElement.name : GrammarElement → String
  | .nonterminal nt => nt
  | .stubbedNonterminal nt _ => nt

/-- How many nonterminals of a name the rules before this one have. -/
def Ast.earlier (ast : Ast) (nt : String) (option : Nat) (name : String) : Nat :=
  match ast.rule nt with
  | some (.prodRule _ rhss) =>
    ((rhss.take option).flatMap fun rhs =>
      match rhs with
      | .rhs ges _ => ges.map GrammarElement.name
      | .stubbedRhs _ => []).count name
  | _ => 0

/-- The constraints of a rule. -/
def Ast.constraints (ast : Ast) (nt : String) (option : Nat) : List Expr :=
  match ast.rule nt with
  | some (.prodRule _ rhss) =>
    match rhss[option]? with
    | some (.rhs _ scs) => scs.filterMap SemanticConstraint.syGuS?
    | _ => []
  | some (.typeAnnot _ _ scs) => scs.filterMap SemanticConstraint.syGuS?
  | none => []

def Ast.annotated (ast : Ast) (nt : String) : Bool :=
  match ast.rule nt with
  | some (.typeAnnot _ _ _) => true
  | _ => false

namespace Dpll.DerivationTree

/-- The children an entry of a reference names. An index counts the nonterminals of that name
in all rules of the node. -/
def select (ast : Ast) (entry : String × Option Nat) : DerivationTree → List DerivationTree
  | .node _ nt visited _ children =>
    let named := children.filter fun child => child.label = entry.1
    match entry.2 with
    | none => named
    | some index =>
      let skipped := ast.earlier nt (visited.headD 0) entry.1
      if index < skipped then [] else (named[index - skipped]?).toList
  | _ => []

def ownValue : DerivationTree → Option ModelValue
  | .node _ _ _ _ [.concreteLeaf _ value] => some value
  | _ => none

/-- The values a reference leads to below a node. -/
def occurrences (ast : Ast) : DerivationTree → Reference → List ModelValue
  | tree, [] => tree.ownValue.toList
  | tree, entry :: rest => (tree.select ast entry).flatMap fun child => occurrences ast child rest

/-- The values a constraint of this node refers to; the constraint of an annotation names the
node itself. -/
def referents (ast : Ast) : DerivationTree → Reference → List ModelValue
  | .node ref nt visited path children, reference =>
    if ast.annotated nt then
      match reference with
      | entry :: rest => if entry.1 = nt then (DerivationTree.node ref nt visited path children).occurrences ast rest else []
      | [] => []
    else (DerivationTree.node ref nt visited path children).occurrences ast reference
  | _, _ => []

/-- The constraints of the rule a node was expanded by. -/
def constraints (ast : Ast) : DerivationTree → List Expr
  | .node _ nt (option :: _) _ (_ :: _) => ast.constraints nt option
  | _ => []

/-- A constraint holds whichever of the values its references lead to are taken. -/
def Satisfies (theory : Theory) (ast : Ast) (tree : DerivationTree) (expr : Expr) : Prop :=
  ∀ value : Reference → Option ModelValue,
    (∀ reference ∈ expr.references, ∃ found ∈ tree.referents ast reference, value reference = some found) →
    expr.eval theory value = some (.bool true)

/-- Every constraint of every rule expanded in the tree holds of the values in it. -/
def Sound (theory : Theory) (ast : Ast) (tree : DerivationTree) : Prop :=
  ∀ node ∈ tree.subtrees, ∀ expr ∈ node.constraints ast, node.Satisfies theory ast expr

end Dpll.DerivationTree

end LtlFuzz.PacketGen

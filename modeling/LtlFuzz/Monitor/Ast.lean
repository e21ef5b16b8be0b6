import LtlFuzz.Logic.PastLTL
import Mathlib.Data.List.Basic

/-! The syntax trees of the specification language (`ast.h`) and the parse trees of
`parser.y`. Each grammar rule has a constructor here, and the case of the translation
that handles it is the rule's semantic action. -/

namespace LtlFuzz.Monitor

inductive PredicateKind where
  | gt | gte | lt | lte | eq | neq
  deriving DecidableEq, Repr

inductive UnaryKind where
  | not | h | o | y
  deriving DecidableEq, Repr

inductive BinaryKind where
  | arrow | and | or | s
  deriving DecidableEq, Repr

/-- The parser leaves the serial number of a node unset (`σ = Unit`) and the
preprocessor fills it in (`σ = Nat`), so a tree that was never numbered cannot be
evaluated. Kinds that never occur inside a formula are left out. -/
inductive ASTNode (σ : Type) where
  | id (serialNumber : σ) (idName : String)
  | int (serialNumber : σ) (intValue : Int)
  | bool (serialNumber : σ) (boolValue : Bool)
  | predicate (serialNumber : σ) (kind : PredicateKind) (binaryLeft binaryRight : ASTNode σ)
  | unary (serialNumber : σ) (kind : UnaryKind) (unaryChild : ASTNode σ)
  | binary (serialNumber : σ) (kind : BinaryKind) (binaryLeft binaryRight : ASTNode σ)
  deriving DecidableEq, Repr

def ASTNode.serialNumber {σ : Type} : ASTNode σ → σ
  | .id serial _ | .int serial _ | .bool serial _ => serial
  | .predicate serial _ _ _ | .unary serial _ _ | .binary serial _ _ _ => serial

inductive TypeAnnotation where
  | enum (enumName : String) (enumValues : List String)
  | int (intTypeName : String)
  | bool (boolTypeName : String)
  deriving DecidableEq, Repr

/-- The variable a type annotation declares. -/
def TypeAnnotation.name : TypeAnnotation → String
  | .enum name _ | .int name | .bool name => name

def TypeAnnotation.values : TypeAnnotation → List String
  | .enum _ values => values
  | .int _ | .bool _ => []

abbrev Spec := List TypeAnnotation × List (ASTNode Unit)

namespace Grammar

/-- Words the lexer turns into tokens of their own before the identifier rule applies. -/
def reserved : List String := ["enum", "int", "bool", "true", "false", "O", "H", "S", "Y"]

def isIdentifierStart (c : Char) : Bool :=
  ('a' ≤ c && c ≤ 'z') || ('A' ≤ c && c ≤ 'Z') || c == '_'

def isIdentifier (text : String) : Bool :=
  match text.toList with
  | [] => false
  | c :: rest => isIdentifierStart c && rest.all (fun c => isIdentifierStart c || c.isDigit) && text ∉ reserved

structure Identifier where
  name : String
  valid : isIdentifier name = true
  deriving DecidableEq

theorem Identifier.not_reserved (identifier : Identifier) : identifier.name ∉ reserved := by
  have valid := identifier.valid
  unfold isIdentifier at valid
  split at valid
  · cases valid
  · simp only [Bool.and_eq_true, decide_eq_true_eq] at valid
    exact valid.2

inductive Term where
  | id (identifier : Identifier)
  | int (value : Int)
  | true
  | false

structure Predicates where
  id : Identifier
  kind : PredicateKind
  term : Term

inductive Formula where
  | paren (formula : Formula)
  | arrow (left right : Formula)
  | not (formula : Formula)
  | and (left right : Formula)
  | or (left right : Formula)
  | true
  | false
  | predicates (body : Predicates)
  | o (formula : Formula)
  | h (formula : Formula)
  | s (left right : Formula)
  | y (formula : Formula)

inductive Annotation where
  | enum (name first : Identifier) (rest : List Identifier)
  | int (name : Identifier)
  | bool (name : Identifier)

/-- `f & g & …`, which the parser reads from the left. -/
def Formula.conjunction (first : Formula) (rest : List Formula) : Formula := rest.foldl .and first

/-- `f | g | …`, likewise. -/
def Formula.disjunction (first : Formula) (rest : List Formula) : Formula := rest.foldl .or first

def Identifier.is (identifier value : Identifier) : Formula := .predicates ⟨identifier, .eq, .id value⟩

def Identifier.isNot (identifier value : Identifier) : Formula := .predicates ⟨identifier, .neq, .id value⟩

def Identifier.isTrue (identifier : Identifier) : Formula := .predicates ⟨identifier, .eq, .true⟩

def Identifier.isFalse (identifier : Identifier) : Formula := .predicates ⟨identifier, .eq, .false⟩

/-- `identifier < value` and the other comparisons with a number. -/
def Identifier.compare (identifier : Identifier) (kind : PredicateKind) (value : Int) : Formula :=
  .predicates ⟨identifier, kind, .int value⟩

def identifiers (texts : List String) (valid : ∀ text ∈ texts, isIdentifier text = Bool.true) : List Identifier :=
  texts.attach.map fun text => ⟨text.1, valid text.1 text.2⟩

def Annotation.enumeration (name first : String) (rest : List String)
    (valid : ∀ text ∈ name :: first :: rest, isIdentifier text = Bool.true) : Annotation :=
  .enum ⟨name, valid name (by simp)⟩ ⟨first, valid first (by simp)⟩
    (identifiers rest fun text member => valid text (by simp [member]))

/-- Both lists of a specification are non-empty. -/
structure SpecTree where
  declaration : Annotation
  declarations : List Annotation
  formula : Formula
  formulas : List Formula

def Term.node : Term → ASTNode Unit
  | .id identifier => .id () identifier.name
  | .int value => .int () value
  | .true => .bool () Bool.true
  | .false => .bool () Bool.false

def Predicates.node (predicates : Predicates) : ASTNode Unit :=
  .predicate () predicates.kind (.id () predicates.id.name) predicates.term.node

def Formula.node : Formula → ASTNode Unit
  | .paren formula => formula.node
  | .arrow left right => .binary () .arrow left.node right.node
  | .not formula => .unary () .not formula.node
  | .and left right => .binary () .and left.node right.node
  | .or left right => .binary () .or left.node right.node
  | .true => .bool () Bool.true
  | .false => .bool () Bool.false
  | .predicates body => body.node
  | .o formula => .unary () .o formula.node
  | .h formula => .unary () .h formula.node
  | .s left right => .binary () .s left.node right.node
  | .y formula => .unary () .y formula.node

/-- The action of a rule for a list: the first element is pushed behind what the rule makes of the others. -/
def pushAction {α β : Type} (node : α → β) (first : α) : List α → List β
  | [] => [node first]
  | next :: rest => pushAction node next rest ++ [node first]

/-- Every list the parser builds is in reverse order of the text. -/
@[simp] theorem pushAction_eq {α β : Type} (node : α → β) (first : α) (rest : List α) :
    pushAction node first rest = ((first :: rest).map node).reverse := by
  induction rest generalizing first with
  | nil => rfl
  | cons next rest ih => simp [pushAction, ih]

theorem mem_pushAction {α β : Type} {node : α → β} {first : α} {rest : List α} {made : β} :
    made ∈ pushAction node first rest ↔ ∃ source ∈ first :: rest, node source = made := by
  rw [pushAction_eq, List.mem_reverse, List.mem_map]

def Annotation.node : Annotation → TypeAnnotation
  | .enum name first rest => .enum name.name (pushAction Identifier.name first rest)
  | .int name => .int name.name
  | .bool name => .bool name.name

def SpecTree.spec (tree : SpecTree) : Spec :=
  (pushAction Annotation.node tree.declaration tree.declarations, pushAction Formula.node tree.formula tree.formulas)

end Grammar

open Logic in
/-- The parse-tree shape of a formula that is built from comparisons alone. -/
def pastNode : PastLTL Grammar.Predicates → ASTNode Unit
  | .atom predicates => predicates.node
  | .not f => .unary () .not (pastNode f)
  | .and f g => .binary () .and (pastNode f) (pastNode g)
  | .or f g => .binary () .or (pastNode f) (pastNode g)
  | .arrow f g => .binary () .arrow (pastNode f) (pastNode g)
  | .historically f => .unary () .h (pastNode f)
  | .once f => .unary () .o (pastNode f)
  | .since f g => .binary () .s (pastNode f) (pastNode g)
  | .yesterday f => .unary () .y (pastNode f)

end LtlFuzz.Monitor

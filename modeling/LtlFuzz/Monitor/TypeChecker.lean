import LtlFuzz.Monitor.Ast
import LtlFuzz.Text.Numbers
import Mathlib.Data.List.AList

/-! `typechecker.cpp`: the type context built from the declarations and the check of
every formula against it. An enumeration's name is at the same time the variable that
ranges over it, and each of its values is a constant of that type. -/

namespace LtlFuzz.Monitor
open Text (Fault)

/-- The type pairs of the source: `("ENUM", name)`, `("INT", "")`, `("BOOL", "")`, and
`("", "")` for what is not a term. -/
inductive Ty where
  | enum (name : String)
  | int
  | bool
  | formula
  deriving DecidableEq, Repr

structure TypeChecker where
  typeContext : AList (fun _ : String => Ty)
  constantList : List String

namespace TypeChecker

def loadEnumValue (name : String) (checker : TypeChecker) (value : String) : TypeChecker :=
  { typeContext := checker.typeContext.insert value (.enum name)
    constantList := checker.constantList ++ [value] }

/-- A second declaration of a name is reported and skipped, but the values of an
enumeration overwrite whatever the context already says about them. -/
def loadDeclaration (checker : TypeChecker) (declaration : TypeAnnotation) : TypeChecker :=
  if declaration.name ∈ checker.typeContext then checker
  else match declaration with
    | .enum name values =>
      values.foldl (loadEnumValue name) { checker with typeContext := checker.typeContext.insert name (.enum name) }
    | .int name => { checker with typeContext := checker.typeContext.insert name .int }
    | .bool name => { checker with typeContext := checker.typeContext.insert name .bool }

def loadTypeContext (declarations : List TypeAnnotation) : Except Fault TypeChecker :=
  let checker := declarations.foldl loadDeclaration ⟨∅, []⟩
  if "true" ∈ checker.typeContext ∨ "false" ∈ checker.typeContext then .error .assertion
  else .ok { checker with typeContext := (checker.typeContext.insert "true" .bool).insert "false" .bool }

def typeCheck {σ : Type} (checker : TypeChecker) : ASTNode σ → Option Ty
  | .id _ name => checker.typeContext.lookup name
  | .int _ _ => some .int
  | .bool _ _ => some .bool
  | .binary _ _ left right =>
    match typeCheck checker left, typeCheck checker right with
    | some _, some _ => some .formula
    | _, _ => none
  | .predicate _ kind left right =>
    match typeCheck checker left, typeCheck checker right with
    | some leftType, some rightType =>
      match kind with
      | .eq | .neq => if leftType = rightType then some .formula else none
      | .gt | .gte | .lt | .lte => if leftType = .int ∧ leftType = rightType then some .formula else none
    | _, _ => none
  | .unary _ _ child =>
    match typeCheck checker child with
    | some _ => some .formula
    | none => none

/-- The constructor: it aborts on the first formula that does not check. -/
def new (spec : Spec) : Except Fault TypeChecker :=
  match loadTypeContext spec.1 with
  | .error fault => .error fault
  | .ok checker =>
    if ∀ formula ∈ spec.2, (checker.typeCheck formula).isSome then .ok checker else .error .assertion

def getType (checker : TypeChecker) (variableName : String) : Except Fault Ty :=
  match checker.typeContext.lookup variableName with
  | some type => .ok type
  | none => .error .assertion

/-- What a context knows: declared variables and the constants of loaded enumerations. -/
structure Loaded (names : List String) (checker : TypeChecker) : Prop where
  origin : ∀ name ∈ checker.typeContext, name ∈ names ∨ name ∈ checker.constantList
  declared : ∀ name ∈ names, name ∈ checker.typeContext
  constants : ∀ name ∈ checker.constantList, ∃ enum, checker.typeContext.lookup name = some (.enum enum)

private theorem loadEnumValues_loaded (name : String) (values : List String) {names : List String}
    {checker : TypeChecker} (loaded : Loaded names checker) :
    Loaded names (values.foldl (loadEnumValue name) checker) := by
  induction values generalizing checker with
  | nil => exact loaded
  | cons value values ih =>
    apply ih
    constructor
    · intro other member
      rcases (AList.mem_insert _).mp member with rfl | member
      · exact Or.inr (by simp [loadEnumValue])
      · rcases loaded.origin other member with known | constant
        · exact Or.inl known
        · exact Or.inr (by simp [loadEnumValue, constant])
    · intro other member
      exact (AList.mem_insert _).mpr (Or.inr (loaded.declared other member))
    · intro other member
      by_cases same : other = value
      · subst same
        exact ⟨name, AList.lookup_insert _⟩
      · have earlier : other ∈ checker.constantList := by simpa [loadEnumValue, same] using member
        obtain ⟨enum, found⟩ := loaded.constants other earlier
        exact ⟨enum, by rw [loadEnumValue, AList.lookup_insert_ne same]; exact found⟩

private theorem insert_loaded {names : List String} {checker : TypeChecker} (loaded : Loaded names checker)
    {name : String} (missing : name ∉ checker.typeContext) (type : Ty) :
    Loaded (name :: names) { checker with typeContext := checker.typeContext.insert name type } := by
  constructor
  · intro other member
    rcases (AList.mem_insert _).mp member with rfl | member
    · exact Or.inl List.mem_cons_self
    · exact (loaded.origin other member).imp (List.mem_cons_of_mem _) id
  · intro other member
    rcases List.mem_cons.mp member with rfl | member
    · exact (AList.mem_insert _).mpr (Or.inl rfl)
    · exact (AList.mem_insert _).mpr (Or.inr (loaded.declared other member))
  · intro other member
    obtain ⟨enum, found⟩ := loaded.constants other member
    have different : other ≠ name := by
      rintro rfl
      exact missing (AList.lookup_isSome.mp (by rw [found]; rfl))
    exact ⟨enum, by rw [AList.lookup_insert_ne different]; exact found⟩

private theorem known_loaded {names : List String} {checker : TypeChecker} (loaded : Loaded names checker)
    {name : String} (present : name ∈ checker.typeContext) : Loaded (name :: names) checker := by
  refine ⟨fun other member => (loaded.origin other member).imp (List.mem_cons_of_mem _) id, ?_, loaded.constants⟩
  intro other member
  rcases List.mem_cons.mp member with rfl | member
  · exact present
  · exact loaded.declared other member

theorem loadDeclaration_loaded {names : List String} {checker : TypeChecker} (loaded : Loaded names checker)
    (declaration : TypeAnnotation) : Loaded (declaration.name :: names) (loadDeclaration checker declaration) := by
  unfold loadDeclaration
  split
  next present => exact known_loaded loaded present
  next missing =>
    cases declaration with
    | enum name values => exact loadEnumValues_loaded name values (insert_loaded loaded missing _)
    | int name => exact insert_loaded loaded missing _
    | bool name => exact insert_loaded loaded missing _

private theorem loadDeclarations_loaded (declarations : List TypeAnnotation) {names : List String}
    {checker : TypeChecker} (loaded : Loaded names checker) :
    Loaded ((declarations.map TypeAnnotation.name).reverse ++ names) (declarations.foldl loadDeclaration checker) := by
  induction declarations generalizing names checker with
  | nil => exact loaded
  | cons declaration declarations ih =>
    simpa using ih (loadDeclaration_loaded loaded declaration)

/-- Every name of a finished context is `true`, `false`, a declared variable, or a constant. -/
theorem loadTypeContext_origin {declarations : List TypeAnnotation} {checker : TypeChecker}
    (accepted : loadTypeContext declarations = .ok checker) {name : String} (member : name ∈ checker.typeContext) :
    name = "true" ∨ name = "false" ∨ name ∈ declarations.map TypeAnnotation.name ∨ name ∈ checker.constantList := by
  have blank : Loaded [] ⟨∅, []⟩ := ⟨fun _ member => absurd member (AList.notMem_empty _), by simp, by simp⟩
  have loaded := loadDeclarations_loaded declarations blank
  unfold loadTypeContext at accepted
  dsimp only at accepted
  split at accepted
  · cases accepted
  · cases accepted
    rcases (AList.mem_insert _).mp member with same | member
    · exact Or.inr (Or.inl same)
    rcases (AList.mem_insert _).mp member with same | member
    · exact Or.inl same
    · have origin := loaded.origin name member
      simp only [List.append_nil, List.mem_reverse] at origin
      exact Or.inr (Or.inr origin)

/-- A constant of a finished context has the type of an enumeration. -/
theorem loadTypeContext_constant {declarations : List TypeAnnotation} {checker : TypeChecker}
    (accepted : loadTypeContext declarations = .ok checker) {name : String} (member : name ∈ checker.constantList) :
    ∃ enum, checker.typeContext.lookup name = some (.enum enum) := by
  have blank : Loaded [] ⟨∅, []⟩ := ⟨fun _ member => absurd member (AList.notMem_empty _), by simp, by simp⟩
  have loaded := loadDeclarations_loaded declarations blank
  unfold loadTypeContext at accepted
  dsimp only at accepted
  split at accepted
  · cases accepted
  next free =>
    cases accepted
    obtain ⟨enum, found⟩ := loaded.constants name member
    have known : name ∈ (declarations.foldl loadDeclaration ⟨∅, []⟩).typeContext :=
      AList.lookup_isSome.mp (by rw [found]; rfl)
    push Not at free
    refine ⟨enum, ?_⟩
    rw [AList.lookup_insert_ne (by rintro rfl; exact free.2 known),
      AList.lookup_insert_ne (by rintro rfl; exact free.1 known)]
    exact found

private theorem loadEnumValues_constantList (name : String) (values : List String) (checker : TypeChecker) :
    (values.foldl (loadEnumValue name) checker).constantList = checker.constantList ++ values := by
  induction values generalizing checker with
  | nil => simp
  | cons value values ih => simp [ih, loadEnumValue]

private theorem loadDeclaration_constantList (checker : TypeChecker) (declaration : TypeAnnotation) :
    ∀ name ∈ (loadDeclaration checker declaration).constantList,
      name ∈ checker.constantList ∨ name ∈ declaration.values := by
  intro name member
  unfold loadDeclaration at member
  split at member
  · exact Or.inl member
  · cases declaration with
    | enum enum values =>
      rw [loadEnumValues_constantList] at member
      exact List.mem_append.mp member
    | int _ | bool _ => exact Or.inl member

/-- Every constant is a value of some declared enumeration. -/
theorem loadTypeContext_values {declarations : List TypeAnnotation} {checker : TypeChecker}
    (accepted : loadTypeContext declarations = .ok checker) {name : String} (member : name ∈ checker.constantList) :
    ∃ declaration ∈ declarations, name ∈ declaration.values := by
  have collected (declarations : List TypeAnnotation) (start : TypeChecker) :
      ∀ name ∈ (declarations.foldl loadDeclaration start).constantList,
        name ∈ start.constantList ∨ ∃ declaration ∈ declarations, name ∈ declaration.values := by
    induction declarations generalizing start with
    | nil => exact fun _ member => Or.inl member
    | cons declaration declarations ih =>
      intro name member
      rcases ih _ name member with early | ⟨later, inside, found⟩
      · exact (loadDeclaration_constantList start declaration name early).imp id
          fun found => ⟨declaration, List.mem_cons_self, found⟩
      · exact Or.inr ⟨later, List.mem_cons_of_mem _ inside, found⟩
  unfold loadTypeContext at accepted
  dsimp only at accepted
  split at accepted
  · cases accepted
  · cases accepted
    exact (collected declarations ⟨∅, []⟩ name member).resolve_left (by simp)

theorem loadTypeContext_truth {declarations : List TypeAnnotation} {checker : TypeChecker}
    (accepted : loadTypeContext declarations = .ok checker) :
    checker.typeContext.lookup "true" = some .bool ∧ checker.typeContext.lookup "false" = some .bool := by
  unfold loadTypeContext at accepted
  dsimp only at accepted
  split at accepted
  · cases accepted
  · cases accepted
    refine ⟨?_, AList.lookup_insert _⟩
    rw [AList.lookup_insert_ne (by decide)]
    exact AList.lookup_insert _

theorem new_accepts {spec : Spec} {checker : TypeChecker} (accepted : new spec = .ok checker) :
    loadTypeContext spec.1 = .ok checker ∧ ∀ formula ∈ spec.2, ∃ type, checker.typeCheck formula = some type := by
  unfold new at accepted
  split at accepted
  · cases accepted
  next loaded found =>
    split at accepted
    next checked =>
      cases accepted
      exact ⟨found, fun formula member => Option.isSome_iff_exists.mp (checked formula member)⟩
    next => cases accepted

end TypeChecker

end LtlFuzz.Monitor

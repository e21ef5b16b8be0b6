import LtlFuzz.Monitor.Ast

/-! `preprocess.cpp`: every node of a formula gets the next serial number, parents
before children and left before right. -/

namespace LtlFuzz.Monitor

namespace Preprocessor

def preProcess {σ : Type} : ASTNode σ → Nat → ASTNode Nat × Nat
  | .id _ name, snum => (.id snum name, snum + 1)
  | .int _ value, snum => (.int snum value, snum + 1)
  | .bool _ value, snum => (.bool snum value, snum + 1)
  | .unary _ kind child, snum =>
    let (child, next) := preProcess child (snum + 1)
    (.unary snum kind child, next)
  | .binary _ kind left right, snum =>
    let (left, middle) := preProcess left (snum + 1)
    let (right, next) := preProcess right middle
    (.binary snum kind left right, next)
  | .predicate _ kind left right, snum =>
    let (left, middle) := preProcess left (snum + 1)
    let (right, next) := preProcess right middle
    (.predicate snum kind left right, next)

def intMax : Nat := 2147483647

/-- The counter is an `int`. A formula with more nodes than it can count overflows it
and has no numbering. -/
def doPreProcess (asts : List (ASTNode Unit)) : Option (List (ASTNode Nat) × List Nat) :=
  let numbered := asts.map fun ast => preProcess ast 0
  if ∀ result ∈ numbered, result.2 ≤ intMax then some numbered.unzip else none

end Preprocessor

namespace ASTNode

/-- The nodes in formula position: the operands of a comparison are numbered too, but
the evaluator never visits them as formulas. -/
def formulaNodes : ASTNode Nat → List (ASTNode Nat)
  | .unary serial kind child => .unary serial kind child :: child.formulaNodes
  | .binary serial kind left right => .binary serial kind left right :: (left.formulaNodes ++ right.formulaNodes)
  | node => [node]

def serials (node : ASTNode Nat) : List Nat := node.formulaNodes.map serialNumber

theorem mem_formulaNodes_self (node : ASTNode Nat) : node ∈ node.formulaNodes := by
  cases node <;> simp [formulaNodes]

theorem serial_mem (node : ASTNode Nat) : node.serialNumber ∈ node.serials :=
  List.mem_map_of_mem node.mem_formulaNodes_self

theorem formulaNodes_trans {root node other : ASTNode Nat} (inside : node ∈ root.formulaNodes)
    (deeper : other ∈ node.formulaNodes) : other ∈ root.formulaNodes := by
  induction root with
  | id | int | bool | predicate =>
    simp only [formulaNodes, List.mem_singleton] at inside
    subst inside
    exact deeper
  | unary serial kind child ih =>
    simp only [formulaNodes, List.mem_cons] at inside
    rcases inside with rfl | inside
    · exact deeper
    · exact List.mem_cons_of_mem _ (ih inside)
  | binary serial kind left right ihLeft ihRight =>
    simp only [formulaNodes, List.mem_cons, List.mem_append] at inside
    rcases inside with rfl | inside | inside
    · exact deeper
    · exact List.mem_cons_of_mem _ (List.mem_append_left _ (ihLeft inside))
    · exact List.mem_cons_of_mem _ (List.mem_append_right _ (ihRight inside))

theorem unary_child_mem {root child : ASTNode Nat} {serial : Nat} {kind : UnaryKind}
    (inside : .unary serial kind child ∈ root.formulaNodes) : child ∈ root.formulaNodes :=
  formulaNodes_trans inside (List.mem_cons_of_mem _ child.mem_formulaNodes_self)

theorem binary_left_mem {root left right : ASTNode Nat} {serial : Nat} {kind : BinaryKind}
    (inside : .binary serial kind left right ∈ root.formulaNodes) : left ∈ root.formulaNodes :=
  formulaNodes_trans inside
    (List.mem_cons_of_mem _ (List.mem_append_left _ left.mem_formulaNodes_self))

theorem binary_right_mem {root left right : ASTNode Nat} {serial : Nat} {kind : BinaryKind}
    (inside : .binary serial kind left right ∈ root.formulaNodes) : right ∈ root.formulaNodes :=
  formulaNodes_trans inside
    (List.mem_cons_of_mem _ (List.mem_append_right _ right.mem_formulaNodes_self))

end ASTNode

namespace Preprocessor
open ASTNode

@[simp] theorem preProcess_serial {σ : Type} (ast : ASTNode σ) (snum : Nat) :
    (preProcess ast snum).1.serialNumber = snum := by
  cases ast <;> rfl

theorem preProcess_lt {σ : Type} (ast : ASTNode σ) (snum : Nat) : snum < (preProcess ast snum).2 := by
  induction ast generalizing snum with
  | id | int | bool => exact Nat.lt_succ_self _
  | unary _ kind child ih => exact Nat.lt_of_succ_lt (ih (snum + 1))
  | binary _ kind left right ihLeft ihRight | predicate _ kind left right ihLeft ihRight =>
    exact Nat.lt_trans (Nat.lt_of_succ_lt (ihLeft (snum + 1))) (ihRight _)

/-- The numbers handed out below a node are the ones between the two counter values. -/
theorem preProcess_serials {σ : Type} (ast : ASTNode σ) (snum : Nat) :
    (∀ serial ∈ (preProcess ast snum).1.serials, snum ≤ serial ∧ serial < (preProcess ast snum).2) ∧
      (preProcess ast snum).1.serials.Nodup := by
  induction ast generalizing snum with
  | id | int | bool => simp [preProcess, serials, formulaNodes, serialNumber]
  | predicate serial kind left right ihLeft ihRight =>
    have bound := preProcess_lt (.predicate serial kind left right) snum
    simp only [preProcess] at bound ⊢
    simpa [serials, formulaNodes, serialNumber] using bound
  | unary _ kind child ih =>
    obtain ⟨range, distinct⟩ := ih (snum + 1)
    have bound := preProcess_lt child (snum + 1)
    simp only [preProcess, serials, formulaNodes, List.map_cons, List.mem_cons, List.nodup_cons, serialNumber]
    refine ⟨?_, ?_, distinct⟩
    · rintro serial (rfl | member)
      · omega
      · have inside := range serial member
        omega
    · intro member
      have inside := range snum member
      omega
  | binary _ kind left right ihLeft ihRight =>
    obtain ⟨rangeLeft, distinctLeft⟩ := ihLeft (snum + 1)
    obtain ⟨rangeRight, distinctRight⟩ := ihRight (preProcess left (snum + 1)).2
    have boundLeft := preProcess_lt left (snum + 1)
    have boundRight := preProcess_lt right (preProcess left (snum + 1)).2
    simp only [preProcess, serials, formulaNodes, List.map_cons, List.map_append, List.mem_cons,
      List.mem_append, List.nodup_cons, List.nodup_append, serialNumber, not_or]
    refine ⟨?_, ⟨?_, ?_⟩, distinctLeft, distinctRight, ?_⟩
    · rintro serial (rfl | member | member)
      · omega
      · have inside := rangeLeft serial member
        omega
      · have inside := rangeRight serial member
        omega
    · intro member
      have inside := rangeLeft snum member
      omega
    · intro member
      have inside := rangeRight snum member
      omega
    · intro first inLeft second inRight same
      have before := rangeLeft first inLeft
      have after := rangeRight second inRight
      omega

theorem doPreProcess_some {asts : List (ASTNode Unit)} {nodes : List (ASTNode Nat)} {snums : List Nat}
    (numbered : doPreProcess asts = some (nodes, snums)) :
    nodes = asts.map (fun ast => (preProcess ast 0).1) ∧ snums = asts.map (fun ast => (preProcess ast 0).2) ∧
      ∀ snum ∈ snums, snum ≤ intMax := by
  simp only [doPreProcess] at numbered
  split at numbered
  next bounded =>
    simp only [Option.some.injEq, List.unzip_eq_map, List.map_map, Prod.mk.injEq] at numbered
    obtain ⟨rfl, rfl⟩ := numbered
    refine ⟨rfl, rfl, ?_⟩
    intro snum member
    obtain ⟨ast, inside, rfl⟩ := List.mem_map.mp member
    exact bounded _ (List.mem_map_of_mem inside)
  next => cases numbered

end Preprocessor

end LtlFuzz.Monitor

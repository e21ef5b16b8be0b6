import LtlFuzz.Logic.SearchTree
import LtlFuzz.PacketGen.GrammarFuzzing

/-! The order of the population sets of `grammarFuzzing.ml`: traces are compared packet by packet, and
children with the same trace by their printed grammars. -/

namespace LtlFuzz.PacketGen
open Driver (Provenance ValidPacket)
open Logic (TotalOn SearchTree)

section Comparing

/-- `compare` on bytes and on strings. -/
def compareBytes : List UInt8 → List UInt8 → Int
  | [], [] => 0
  | _, [] => 1
  | [], _ => -1
  | x :: xs, y :: ys => if x < y then -1 else if y < x then 1 else compareBytes xs ys

def compareProvenanceList : List Provenance → List Provenance → Int
  | [], [] => 0
  | _, [] => 1
  | [], _ => -1
  | .rawPacket x1 :: xs, .rawPacket y1 :: ys =>
    let c := compareBytes x1 y1
    if c = 0 then compareProvenanceList xs ys else c
  | .validPacket x1 :: xs, .validPacket y1 :: ys =>
    match x1, y1 with
    | .commit, .commit => compareProvenanceList xs ys
    | .confirm, .confirm => compareProvenanceList xs ys
    | .associationRequest, .associationRequest => compareProvenanceList xs ys
    | _, _ => -1
  | _ :: _, _ :: _ => -1

variable {Score : Type} (ppPrintAst : Ast → List UInt8)

def compareGrammar (g1 g2 : Ast) : Int := compareBytes (ppPrintAst g1) (ppPrintAst g2)

/-- `PopulationSet.compare`. -/
def compareChild (x y : Child Score) : Int :=
  let c := compareProvenanceList x.trace y.trace
  if c = 0 then compareGrammar ppPrintAst x.grammar y.grammar else c

def PopulationSet.ofList (children : List (Child Score)) : SearchTree (Child Score) :=
  SearchTree.ofList (compareChild ppPrintAst) children

/-- `removeDuplicates`, the members of the set in order. -/
def PopulationSet.removeDuplicates (currentList : List (Child Score)) : List (Child Score) :=
  (PopulationSet.ofList ppPrintAst currentList).elements

/-- Up to the place where one trace ends or two raw packets differ, the traces have the same packets,
each of them raw or one that is sent. -/
def Comparable : List Provenance → List Provenance → Prop
  | .rawPacket x1 :: xs, .rawPacket y1 :: ys => x1 = y1 → Comparable xs ys
  | .validPacket x1 :: xs, .validPacket y1 :: ys => x1 = y1 ∧ x1 ≠ .nothing ∧ x1 ≠ .reset ∧ Comparable xs ys
  | .rawPacket _ :: _, .validPacket _ :: _ => False
  | .validPacket _ :: _, .rawPacket _ :: _ => False
  | _, _ => True

end Comparing

section Bytes

theorem compareBytes_self (x : List UInt8) : compareBytes x x = 0 := by
  induction x with
  | nil => rfl
  | cons x xs ih => rw [compareBytes, if_neg (UInt8.lt_irrefl x), if_neg (UInt8.lt_irrefl x), ih]

theorem compareBytes_flip (x y : List UInt8) : compareBytes y x = -compareBytes x y := by
  induction x generalizing y with
  | nil => cases y <;> rfl
  | cons x xs ih =>
    cases y with
    | nil => rfl
    | cons y ys =>
      rw [compareBytes, compareBytes]
      by_cases before : x < y
      · rw [if_neg (UInt8.lt_asymm before), if_pos before, if_pos before]
        rfl
      · by_cases after : y < x
        · rw [if_pos after, if_neg before, if_pos after]
        · rw [if_neg after, if_neg before, if_neg before, if_neg after, ih]

theorem eq_of_compareBytes {x y : List UInt8} (same : compareBytes x y = 0) : x = y := by
  induction x generalizing y with
  | nil =>
    cases y with
    | nil => rfl
    | cons y ys => cases same
  | cons x xs ih =>
    cases y with
    | nil => cases same
    | cons y ys =>
      rw [compareBytes] at same
      split at same
      · cases same
      · split at same
        · cases same
        · rename_i notBefore notAfter
          rw [UInt8.le_antisymm (UInt8.not_lt.mp notAfter) (UInt8.not_lt.mp notBefore), ih same]

theorem compareBytes_trans {x y z : List UInt8} (first : compareBytes x y ≤ 0) (second : compareBytes y z ≤ 0) :
    compareBytes x z ≤ 0 := by
  induction x generalizing y z with
  | nil => cases z <;> simp [compareBytes]
  | cons x xs ih =>
    cases y with
    | nil => simp [compareBytes] at first
    | cons y ys =>
      cases z with
      | nil => simp [compareBytes] at second
      | cons z zs =>
        rw [compareBytes] at first second ⊢
        by_cases below : x < z
        · rw [if_pos below]
          decide
        · rw [if_neg below]
          have notAfter : ¬y < x := by
            intro wrong
            rw [if_neg (UInt8.lt_asymm wrong), if_pos wrong] at first
            omega
          have notBehind : ¬z < y := by
            intro wrong
            rw [if_neg (UInt8.lt_asymm wrong), if_pos wrong] at second
            omega
          have upTo : x ≤ y := UInt8.not_lt.mp notAfter
          have further : y ≤ z := UInt8.not_lt.mp notBehind
          have back : z ≤ x := UInt8.not_lt.mp below
          have same : x = y := UInt8.le_antisymm upTo (UInt8.le_trans further back)
          have also : y = z := UInt8.le_antisymm further (UInt8.le_trans back upTo)
          subst same also
          rw [if_neg (UInt8.lt_irrefl x)] at first second ⊢
          rw [if_neg (UInt8.lt_irrefl x)] at first second
          exact ih first second

end Bytes

section Traces

private theorem compare_raw (x1 y1 : List UInt8) (xs ys : List Provenance) :
    compareProvenanceList (.rawPacket x1 :: xs) (.rawPacket y1 :: ys) =
      if compareBytes x1 y1 = 0 then compareProvenanceList xs ys else compareBytes x1 y1 := rfl

private theorem compare_valid (x1 y1 : ValidPacket) (xs ys : List Provenance) :
    compareProvenanceList (.validPacket x1 :: xs) (.validPacket y1 :: ys) =
      if x1 = y1 ∧ x1 ≠ .nothing ∧ x1 ≠ .reset then compareProvenanceList xs ys else -1 := by
  cases x1 <;> cases y1 <;> simp [compareProvenanceList]

/-- Traces that are not comparable come before each other. -/
theorem uncomparable_before {x y : List Provenance} (apart : ¬Comparable x y) :
    compareProvenanceList x y = -1 ∧ compareProvenanceList y x = -1 := by
  induction x generalizing y with
  | nil => exact absurd trivial apart
  | cons x xs ih =>
    cases y with
    | nil => cases x <;> exact absurd trivial apart
    | cons y ys =>
      cases x with
      | rawPacket x1 =>
        cases y with
        | rawPacket y1 =>
          simp only [Comparable, Classical.not_imp] at apart
          obtain ⟨rfl, further⟩ := apart
          rw [compare_raw, compare_raw, if_pos (compareBytes_self x1), if_pos (compareBytes_self x1)]
          exact ih further
        | validPacket y1 => exact ⟨rfl, rfl⟩
      | validPacket x1 =>
        cases y with
        | rawPacket y1 => exact ⟨rfl, rfl⟩
        | validPacket y1 =>
          rw [compare_valid, compare_valid]
          by_cases sent : x1 = y1 ∧ x1 ≠ .nothing ∧ x1 ≠ .reset
          · obtain ⟨rfl, one, other⟩ := sent
            rw [if_pos ⟨rfl, one, other⟩, if_pos ⟨rfl, one, other⟩]
            exact ih fun further => apart ⟨rfl, one, other, further⟩
          · rw [if_neg sent, if_neg]
            · exact ⟨rfl, rfl⟩
            · rintro ⟨rfl, one, other⟩
              exact sent ⟨rfl, one, other⟩

theorem compareProvenanceList_flip {x y : List Provenance} (comparable : Comparable x y) :
    compareProvenanceList y x = -compareProvenanceList x y := by
  induction x generalizing y with
  | nil => cases y <;> rfl
  | cons x xs ih =>
    cases y with
    | nil => rfl
    | cons y ys =>
      cases x with
      | rawPacket x1 =>
        cases y with
        | rawPacket y1 =>
          rw [compare_raw, compare_raw, compareBytes_flip x1 y1]
          by_cases same : compareBytes x1 y1 = 0
          · rw [if_pos (by omega), if_pos same, ih (comparable (eq_of_compareBytes same))]
          · rw [if_neg (by omega), if_neg same]
        | validPacket y1 => exact comparable.elim
      | validPacket x1 =>
        cases y with
        | rawPacket y1 => exact comparable.elim
        | validPacket y1 =>
          obtain ⟨rfl, one, other, further⟩ := comparable
          rw [compare_valid, compare_valid, if_pos ⟨rfl, one, other⟩, if_pos ⟨rfl, one, other⟩, ih further]

theorem compareProvenanceList_self {x : List Provenance} (comparable : Comparable x x) : compareProvenanceList x x = 0 := by
  have flipped := compareProvenanceList_flip comparable
  omega

theorem eq_of_compareProvenanceList {x y : List Provenance} (same : compareProvenanceList x y = 0) : x = y := by
  induction x generalizing y with
  | nil =>
    cases y with
    | nil => rfl
    | cons y ys => cases same
  | cons x xs ih =>
    cases y with
    | nil => cases same
    | cons y ys =>
      cases x with
      | rawPacket x1 =>
        cases y with
        | rawPacket y1 =>
          rw [compare_raw] at same
          split at same
          · rename_i heads
            rw [eq_of_compareBytes heads, ih same]
          · rename_i heads
            exact absurd same heads
        | validPacket y1 => cases same
      | validPacket x1 =>
        cases y with
        | rawPacket y1 => cases same
        | validPacket y1 =>
          rw [compare_valid] at same
          split at same
          · rename_i heads
            rw [heads.1, ih same]
          · cases same

private theorem raw_heads {x1 y1 : List UInt8} {xs ys : List Provenance}
    (upTo : compareProvenanceList (.rawPacket x1 :: xs) (.rawPacket y1 :: ys) ≤ 0) :
    compareBytes x1 y1 < 0 ∨ x1 = y1 ∧ compareProvenanceList xs ys ≤ 0 := by
  rw [compare_raw] at upTo
  split at upTo
  · rename_i same
    exact Or.inr ⟨eq_of_compareBytes same, upTo⟩
  · rename_i different
    exact Or.inl (by omega)

theorem compareProvenanceList_trans {x y z : List Provenance} (left : Comparable x y) (right : Comparable y z) (both : Comparable x z)
    (first : compareProvenanceList x y ≤ 0) (second : compareProvenanceList y z ≤ 0) : compareProvenanceList x z ≤ 0 := by
  induction x generalizing y z with
  | nil => cases z <;> simp [compareProvenanceList]
  | cons x xs ih =>
    cases y with
    | nil => simp [compareProvenanceList] at first
    | cons y ys =>
      cases z with
      | nil => simp [compareProvenanceList] at second
      | cons z zs =>
        match x, y, z with
        | .rawPacket x1, .rawPacket y1, .rawPacket z1 =>
          have below : compareBytes x1 z1 ≤ 0 := by
            apply compareBytes_trans (y := y1)
            · rcases raw_heads first with before | ⟨rfl, _⟩
              · omega
              · exact le_of_eq (compareBytes_self x1)
            · rcases raw_heads second with before | ⟨rfl, _⟩
              · omega
              · exact le_of_eq (compareBytes_self y1)
          rw [compare_raw]
          split
          · rename_i same
            obtain rfl := eq_of_compareBytes same
            have flipped := compareBytes_flip x1 y1
            rcases raw_heads first with before | ⟨rfl, front⟩
            · rcases raw_heads second with after | ⟨rfl, _⟩
              · omega
              · rw [compareBytes_self] at before
                omega
            · rcases raw_heads second with after | ⟨_, rear⟩
              · rw [compareBytes_self] at after
                omega
              · exact ih (left rfl) (right rfl) (both rfl) front rear
          · exact below
        | .validPacket x1, .validPacket y1, .validPacket z1 =>
          obtain ⟨rfl, one, other, front⟩ := left
          obtain ⟨rfl, _, _, rear⟩ := right
          rw [compare_valid, if_pos ⟨rfl, one, other⟩] at first second ⊢
          exact ih front rear both.2.2.2 first second
        | .rawPacket x1, .validPacket y1, _ => exact left.elim
        | .validPacket x1, .rawPacket y1, _ => exact left.elim
        | _, .rawPacket y1, .validPacket z1 => exact right.elim
        | _, .validPacket y1, .rawPacket z1 => exact right.elim

end Traces

section Children

variable {Score : Type} (ppPrintAst : Ast → List UInt8)

private theorem compareChild_of_zero {x y : Child Score} (same : compareProvenanceList x.trace y.trace = 0) :
    compareChild ppPrintAst x y = compareGrammar ppPrintAst x.grammar y.grammar := if_pos same

private theorem compareChild_of_ne {x y : Child Score} (different : compareProvenanceList x.trace y.trace ≠ 0) :
    compareChild ppPrintAst x y = compareProvenanceList x.trace y.trace := if_neg different

private theorem compareChild_upTo {x y : Child Score} (upTo : compareChild ppPrintAst x y ≤ 0) :
    compareProvenanceList x.trace y.trace < 0 ∨
      compareProvenanceList x.trace y.trace = 0 ∧ compareGrammar ppPrintAst x.grammar y.grammar ≤ 0 := by
  by_cases same : compareProvenanceList x.trace y.trace = 0
  · exact Or.inr ⟨same, compareChild_of_zero ppPrintAst same ▸ upTo⟩
  · rw [compareChild_of_ne ppPrintAst same] at upTo
    exact Or.inl (by omega)

/-- Traces that are pairwise comparable are in a total order, and so are the children that have them. -/
theorem comparable_total (among : Child Score → Prop) (comparable : ∀ x y, among x → among y → Comparable x.trace y.trace) :
    TotalOn compareProvenanceList (fun trace => ∃ child, among child ∧ child.trace = trace) ∧ TotalOn (compareChild ppPrintAst) among := by
  refine ⟨⟨?_, ?_, ?_⟩, ⟨?_, ?_, ?_⟩⟩
  · intro _ ⟨x, member, traced⟩
    subst traced
    exact compareProvenanceList_self (comparable x x member member)
  · intro _ _ ⟨x, left, xTraced⟩ ⟨y, right, yTraced⟩
    subst xTraced yTraced
    rw [compareProvenanceList_flip (comparable x y left right), Int.sign_neg]
  · intro _ _ _ ⟨x, first, xTraced⟩ ⟨y, second, yTraced⟩ ⟨z, third, zTraced⟩
    subst xTraced yTraced zTraced
    exact compareProvenanceList_trans (comparable x y first second) (comparable y z second third) (comparable x z first third)
  · intro x member
    rw [compareChild_of_zero ppPrintAst (compareProvenanceList_self (comparable x x member member))]
    exact compareBytes_self _
  · intro x y left right
    have flipped := compareProvenanceList_flip (comparable x y left right)
    by_cases same : compareProvenanceList x.trace y.trace = 0
    · rw [compareChild_of_zero ppPrintAst same, compareChild_of_zero ppPrintAst (by omega), compareGrammar, compareBytes_flip, Int.sign_neg]
      rfl
    · rw [compareChild_of_ne ppPrintAst same, compareChild_of_ne ppPrintAst (by omega), flipped, Int.sign_neg]
  · intro x y z first second third left right
    have whole := compareProvenanceList_trans (comparable x y first second) (comparable y z second third) (comparable x z first third)
    have front := compareChild_upTo ppPrintAst left
    have rear := compareChild_upTo ppPrintAst right
    by_cases same : compareProvenanceList x.trace z.trace = 0
    · have traces := eq_of_compareProvenanceList same
      have flipped := compareProvenanceList_flip (comparable x y first second)
      rw [traces] at front flipped
      obtain ⟨_, frontGrammar⟩ := front.resolve_left (by omega)
      obtain ⟨_, rearGrammar⟩ := rear.resolve_left (by omega)
      rw [compareChild_of_zero ppPrintAst same]
      exact compareBytes_trans frontGrammar rearGrammar
    · rw [compareChild_of_ne ppPrintAst same]
      apply whole
      · omega
      · omega

/-- The comparison is a total order among children exactly when their traces are comparable, and then
a set of them has no two equal members and does not depend on the order in which it was filled. -/
theorem populationSet_ordered_iff (among : Child Score → Prop) :
    (TotalOn compareProvenanceList (fun trace => ∃ child, among child ∧ child.trace = trace) ∧
        TotalOn (compareChild ppPrintAst) among ∧
        ∀ children : List (Child Score), (∀ child ∈ children, among child) →
          ((PopulationSet.removeDuplicates ppPrintAst children).Pairwise fun x y =>
            compareChild ppPrintAst x y ≠ 0 ∧ compareChild ppPrintAst y x ≠ 0) ∧
          (∀ child, among child → ((PopulationSet.ofList ppPrintAst children).mem (compareChild ppPrintAst) child = true ↔
            ∃ other ∈ children, compareChild ppPrintAst child other = 0)) ∧
          ∀ shuffled, shuffled.Perm children → ∀ child, among child →
            (PopulationSet.ofList ppPrintAst shuffled).mem (compareChild ppPrintAst) child =
              (PopulationSet.ofList ppPrintAst children).mem (compareChild ppPrintAst) child) ↔
      ∀ x y, among x → among y → Comparable x.trace y.trace := by
  refine ⟨?_, ?_⟩
  · intro ⟨total, _, _⟩ x y left right
    by_contra apart
    obtain ⟨one, other⟩ := uncomparable_before apart
    have signs := total.flip x.trace y.trace ⟨x, left, rfl⟩ ⟨y, right, rfl⟩
    rw [one, other] at signs
    cases signs
  · intro comparable
    obtain ⟨traces, total⟩ := comparable_total ppPrintAst among comparable
    refine ⟨traces, total, ?_⟩
    intro children kinds
    obtain ⟨sorted, inside, _⟩ := SearchTree.ofList_spec total children kinds
    refine ⟨?_, ?_, ?_⟩
    · apply List.Pairwise.imp_of_mem _ sorted
      intro x y left right before
      have after := (total.positive (kinds x (inside x left)) (kinds y (inside y right))).mpr before
      exact ⟨by omega, by omega⟩
    · intro child member
      exact SearchTree.mem_ofList_iff total kinds member
    · intro shuffled perm child member
      have shuffledKinds : ∀ other ∈ shuffled, among other := fun other inside => kinds other (perm.mem_iff.mp inside)
      rw [Bool.eq_iff_iff]
      refine (SearchTree.mem_ofList_iff total shuffledKinds member).trans (Iff.trans ?_ (SearchTree.mem_ofList_iff total kinds member).symm)
      simp only [perm.mem_iff]

end Children

section Mixed

/-- Two packets that differ come before each other, and a set of four traces takes the first one twice. -/
theorem mixed_traces_duplicated :
    compareProvenanceList [.validPacket .commit] [.validPacket .confirm] = -1 ∧
      compareProvenanceList [.validPacket .confirm] [.validPacket .commit] = -1 ∧
      (PopulationSet.removeDuplicates (fun _ => [])
        [Child.mk [.validPacket .commit] [] (), Child.mk [.validPacket .confirm] [] (), Child.mk [.validPacket .associationRequest] [] (),
          Child.mk [.rawPacket [0]] [] (), Child.mk [.validPacket .commit] [] ()]).map (fun child => child.trace) =
        [[.validPacket .commit], [.rawPacket [0]], [.validPacket .associationRequest], [.validPacket .confirm], [.validPacket .commit]] := by
  decide +kernel

end Mixed

end LtlFuzz.PacketGen

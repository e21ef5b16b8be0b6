import Mathlib.Algebra.Order.Ring.Int
import Mathlib.Data.List.Basic

/-! `bitvector.cpp`: a vector of bits packed into 32-bit words. Copy construction and
assignment copy the words, so a value of this type is the vector itself. -/

namespace LtlFuzz.Monitor

structure BitVector where
  sz : Nat
  bv : List (BitVec 32)
  deriving DecidableEq, Repr

namespace BitVector

/-- The word count is computed in `unsigned int`. -/
def wholeSz (size : Nat) : Nat := (size + 31) % 2 ^ 32 / 32

def new (size : Nat) : BitVector := ⟨size, List.replicate (wholeSz size) 0⟩

def clearBv (vector : BitVector) : BitVector := { vector with bv := vector.bv.map fun _ => 0 }

def mask (index : Nat) : BitVec 32 := 1#32 <<< (index % 32)

/-- A word is changed if the index is inside. -/
def update (vector : BitVector) (index : Nat) (change : BitVec 32 → BitVec 32) : BitVector :=
  if index ≥ vector.sz then vector
  else { vector with bv := vector.bv.modify (index / 32) change }

def set (vector : BitVector) (index : Nat) : BitVector := vector.update index (· ||| mask index)

def clear (vector : BitVector) (index : Nat) : BitVector := vector.update index (· &&& ~~~ mask index)

def test (vector : BitVector) (index : Nat) : Bool :=
  if index ≥ vector.sz then false else (vector.bv.getD (index / 32) 0 &&& mask index) != 0

/-- Every index below the size has a word to live in. -/
def Covered (vector : BitVector) : Prop := vector.sz ≤ 32 * vector.bv.length

theorem sz_update (vector : BitVector) (index : Nat) (change : BitVec 32 → BitVec 32) : (vector.update index change).sz = vector.sz := by
  unfold update
  split <;> rfl

@[simp] theorem sz_set (vector : BitVector) (index : Nat) : (vector.set index).sz = vector.sz := sz_update vector index _

@[simp] theorem sz_clear (vector : BitVector) (index : Nat) : (vector.clear index).sz = vector.sz := sz_update vector index _

@[simp] theorem sz_clearBv (vector : BitVector) : vector.clearBv.sz = vector.sz := rfl

theorem covered_new {size : Nat} (bound : size + 31 < 2 ^ 32) : (new size).Covered := by
  simp only [Covered, new, wholeSz, List.length_replicate, Nat.mod_eq_of_lt bound]
  omega

theorem length_update (vector : BitVector) (index : Nat) (change : BitVec 32 → BitVec 32) :
    (vector.update index change).bv.length = vector.bv.length := by
  unfold update
  split
  next => rfl
  next => exact List.length_modify _ _ _

theorem length_set (vector : BitVector) (index : Nat) : (vector.set index).bv.length = vector.bv.length := length_update vector index _

theorem length_clear (vector : BitVector) (index : Nat) : (vector.clear index).bv.length = vector.bv.length := length_update vector index _

theorem covered_update {vector : BitVector} (covered : vector.Covered) (index : Nat) (change : BitVec 32 → BitVec 32) :
    (vector.update index change).Covered := by
  rw [Covered, sz_update, length_update]
  exact covered

theorem covered_set {vector : BitVector} (covered : vector.Covered) (index : Nat) : (vector.set index).Covered :=
  covered_update covered index _

theorem covered_clear {vector : BitVector} (covered : vector.Covered) (index : Nat) : (vector.clear index).Covered :=
  covered_update covered index _

theorem covered_clearBv {vector : BitVector} (covered : vector.Covered) : vector.clearBv.Covered := by
  simpa [Covered, clearBv] using covered

private theorem getLsbD_mask (index position : Nat) (bound : position < 32) :
    (mask index).getLsbD position = decide (position = index % 32) := by
  simp only [mask, BitVec.getLsbD_shiftLeft, BitVec.getLsbD_one]
  by_cases same : position = index % 32
  · subst same
    simp [bound]
  · simp only [same, decide_false]
    by_cases before : position < index % 32
    · simp [before]
    · have after : position - index % 32 ≠ 0 := by omega
      simp [after]

/-- Testing looks at one bit of one word. -/
theorem test_eq_getLsbD (vector : BitVector) {index : Nat} (bound : index < vector.sz) :
    vector.test index = (vector.bv.getD (index / 32) 0).getLsbD (index % 32) := by
  have small : index % 32 < 32 := Nat.mod_lt _ (by decide)
  simp only [test, ge_iff_le, Nat.not_le.mpr bound, if_false]
  generalize vector.bv.getD (index / 32) 0 = word
  rw [Bool.eq_iff_iff, bne_iff_ne]
  constructor
  · intro nonzero
    by_contra unset
    apply nonzero
    apply BitVec.eq_of_getLsbD_eq
    intro position inside
    rw [BitVec.getLsbD_and, getLsbD_mask index position inside]
    by_cases same : position = index % 32
    · subst same
      simp [Bool.eq_false_iff.mpr unset]
    · simp [same]
  · intro isSet isZero
    have bit := congrArg (fun word => word.getLsbD (index % 32)) isZero
    simp [BitVec.getLsbD_and, getLsbD_mask index _ small, isSet] at bit

theorem test_of_le (vector : BitVector) {index : Nat} (outside : vector.sz ≤ index) :
    vector.test index = false := by
  simp [test, outside]

private theorem getD_modify (words : List (BitVec 32)) (position other : Nat) (change : BitVec 32 → BitVec 32)
    (inside : position < words.length) :
    (words.modify position change).getD other 0 =
      if position = other then change (words.getD other 0) else words.getD other 0 := by
  simp only [List.getD_eq_getElem?_getD, List.getElem?_modify]
  split
  next same =>
    subst same
    simp [inside]
  next => simp

/-- A change of one bit of a word is a change of the bit at the index. -/
private theorem test_update {vector : BitVector} (covered : vector.Covered) (index other : Nat) {change : BitVec 32 → BitVec 32} {bit : Bool}
    (changes : ∀ word : BitVec 32, ∀ i < 32, (change word).getLsbD i = if i = index % 32 then bit else word.getLsbD i) :
    (vector.update index change).test other = if other = index ∧ index < vector.sz then bit else vector.test other := by
  by_cases outside : vector.sz ≤ index
  · rw [update, if_pos outside, if_neg fun both => absurd both.2 (Nat.not_lt.mpr outside)]
  by_cases beyond : vector.sz ≤ other
  · rw [test_of_le _ (by rwa [sz_update]), test_of_le _ beyond, if_neg]
    omega
  have inside : index < vector.sz := Nat.lt_of_not_le outside
  have below : other < vector.sz := Nat.lt_of_not_le beyond
  have bound : index / 32 < vector.bv.length := by
    unfold Covered at covered
    omega
  rw [test_eq_getLsbD _ (by rwa [sz_update]), update, if_neg outside, test_eq_getLsbD _ below]
  dsimp only
  rw [getD_modify _ _ _ _ bound]
  by_cases word : index / 32 = other / 32
  · have same : other % 32 = index % 32 ↔ other = index ∧ index < vector.sz := by omega
    rw [if_pos word, changes _ _ (Nat.mod_lt _ (by decide))]
    simp only [same]
  · rw [if_neg word, if_neg]
    rintro ⟨rfl, _⟩
    exact word rfl

theorem test_set {vector : BitVector} (covered : vector.Covered) (index other : Nat) :
    (vector.set index).test other = (vector.test other || (decide (other = index) && decide (index < vector.sz))) := by
  have one : ∀ word : BitVec 32, ∀ i < 32, (word ||| mask index).getLsbD i = if i = index % 32 then true else word.getLsbD i := by
    intro word i inside
    rw [BitVec.getLsbD_or, getLsbD_mask index i inside]
    split <;> simp_all
  rw [set, test_update covered index other one]
  by_cases here : other = index ∧ index < vector.sz
  · simp [here]
  · rw [if_neg here, ← Bool.decide_and, decide_eq_false here, Bool.or_false]

theorem test_clear {vector : BitVector} (covered : vector.Covered) (index other : Nat) :
    (vector.clear index).test other = (vector.test other && !decide (other = index)) := by
  have zero : ∀ word : BitVec 32, ∀ i < 32, (word &&& ~~~mask index).getLsbD i = if i = index % 32 then false else word.getLsbD i := by
    intro word i inside
    rw [BitVec.getLsbD_and, BitVec.getLsbD_not, getLsbD_mask index i inside]
    split <;> simp_all
  rw [clear, test_update covered index other zero]
  by_cases same : other = index
  · subst same
    split
    next => simp
    next outside => simp [test_of_le vector (show vector.sz ≤ other by omega)]
  · simp [same]

@[simp] theorem test_new (size index : Nat) : (new size).test index = false := by
  by_cases outside : size ≤ index
  · exact test_of_le _ outside
  · rw [test_eq_getLsbD _ (by simpa [new] using outside)]
    simp only [new, List.getD_eq_getElem?_getD, List.getElem?_replicate]
    split <;> simp

@[simp] theorem test_clearBv (vector : BitVector) (index : Nat) : vector.clearBv.test index = false := by
  by_cases outside : vector.sz ≤ index
  · exact test_of_le _ outside
  · rw [test_eq_getLsbD _ (by simpa using outside)]
    simp only [clearBv, List.getD_eq_getElem?_getD, List.getElem?_map]
    cases vector.bv[index / 32]? <;> simp

end BitVector

end LtlFuzz.Monitor

import LtlFuzz.Logic.Heap
import LtlFuzz.Monitor.BitVector

/-! `bitvector.cpp` in memory. A vector holds the address of its words, so copies and
assignments have to allocate, and whether they stay apart is a fact about the heap. -/

namespace LtlFuzz.Monitor
open Logic

structure BitVectorObject where
  sz : UInt32
  wholeSz : UInt32
  bv : Nat
  deriving DecidableEq

abbrev WordHeap := Heap (BitVec 32)

namespace BitVectorObject

def clearBv (object : BitVectorObject) (heap : WordHeap) : Except HeapFault WordHeap :=
  heap.writeCells (fun _ _ => .ok 0) object.bv object.wholeSz.toNat

def construct (size : UInt32) (heap : WordHeap) : Except HeapFault (BitVectorObject × WordHeap) := do
  let wholeSz := (size + 31) / 32
  let (bv, heap) := heap.allocate (List.replicate wholeSz.toNat 0)
  let object := { sz := size, wholeSz, bv : BitVectorObject }
  let heap ← object.clearBv heap
  return (object, heap)

def copy (other : BitVectorObject) (heap : WordHeap) : Except HeapFault (BitVectorObject × WordHeap) := do
  let (bv, heap) := heap.allocate (List.replicate other.wholeSz.toNat 0)
  let heap ← heap.writeCells (fun heap i => heap.read other.bv i) bv other.wholeSz.toNat
  return ({ sz := other.sz, wholeSz := other.wholeSz, bv }, heap)

/-- Assignment from another object. -/
def assign (object other : BitVectorObject) (heap : WordHeap) : Except HeapFault (BitVectorObject × WordHeap) := do
  let heap ← heap.free object.bv
  other.copy heap

def set (object : BitVectorObject) (index : UInt32) (heap : WordHeap) : Except HeapFault WordHeap :=
  if index ≥ object.sz then .ok heap
  else do
    let word ← heap.read object.bv (index / 32).toNat
    heap.write object.bv (index / 32).toNat (word ||| BitVector.mask index.toNat)

def clear (object : BitVectorObject) (index : UInt32) (heap : WordHeap) : Except HeapFault WordHeap :=
  if index ≥ object.sz then .ok heap
  else do
    let word ← heap.read object.bv (index / 32).toNat
    heap.write object.bv (index / 32).toNat (word &&& ~~~ BitVector.mask index.toNat)

def test (object : BitVectorObject) (index : UInt32) (heap : WordHeap) : Except HeapFault Bool :=
  if index ≥ object.sz then .ok false
  else do
    let word ← heap.read object.bv (index / 32).toNat
    return (word &&& BitVector.mask index.toNat) != 0

/-- The object and its words are this vector. -/
structure Stores (heap : WordHeap) (object : BitVectorObject) (vector : BitVector) : Prop where
  size : vector.sz = object.sz.toNat
  words : vector.bv.length = object.wholeSz.toNat
  block : heap.block object.bv = some vector.bv

end BitVectorObject

/-- A statement of a program that uses bit vectors. Vectors are numbered in the order in
which they are constructed; a statement about none of them does nothing. -/
inductive VectorOp where
  | construct (size : UInt32)
  | copy (source : Nat)
  | assign (target source : Nat)
  | set (id : Nat) (index : UInt32)
  | clear (id : Nat) (index : UInt32)
  | clearBv (id : Nat)
  | destroy (id : Nat)

/-- The vector that a statement changes. -/
def VectorOp.target : VectorOp → Option Nat
  | .construct _ | .copy _ => none
  | .assign target _ => some target
  | .set id _ | .clear id _ | .clearBv id | .destroy id => some id

structure VectorStore where
  heap : WordHeap
  objects : List (Option BitVectorObject)

namespace VectorStore

def blank : VectorStore := ⟨Heap.empty, []⟩

/-- A statement that changes the words of one vector. -/
def change (store : VectorStore) (id : Nat) (operation : BitVectorObject → WordHeap → Except HeapFault WordHeap) :
    Except HeapFault VectorStore :=
  match slot store.objects id with
  | none => .ok store
  | some object => do
    let heap ← operation object store.heap
    return { store with heap }

def step (store : VectorStore) : VectorOp → Except HeapFault VectorStore
  | .construct size => do
    let (object, heap) ← BitVectorObject.construct size store.heap
    return ⟨heap, store.objects ++ [some object]⟩
  | .copy source =>
    match slot store.objects source with
    | none => .ok store
    | some other => do
      let (object, heap) ← other.copy store.heap
      return ⟨heap, store.objects ++ [some object]⟩
  | .assign target source =>
    match slot store.objects target, slot store.objects source with
    | some object, some other =>
      if target = source then .ok store
      else do
        let (object, heap) ← object.assign other store.heap
        return ⟨heap, store.objects.set target (some object)⟩
    | _, _ => .ok store
  | .set id index => store.change id (·.set index)
  | .clear id index => store.change id (·.clear index)
  | .clearBv id => store.change id (·.clearBv)
  | .destroy id =>
    match slot store.objects id with
    | none => .ok store
    | some object => do
      let heap ← store.heap.free object.bv
      return ⟨heap, store.objects.set id none⟩

def test (store : VectorStore) (id : Nat) (index : UInt32) : Option (Except HeapFault Bool) :=
  (slot store.objects id).map fun object => object.test index store.heap

end VectorStore

namespace BitVectorObject

variable {heap : WordHeap} {object : BitVectorObject} {vector : BitVector}

/-- A new object with words of its own, and no other block changed. -/
structure Allocated (before : WordHeap) (object : BitVectorObject) (vector : BitVector) (after : WordHeap) : Prop where
  stores : object.Stores after vector
  fresh : before.block object.bv = none
  kept : ∀ address words, before.block address = some words → after.block address = some words

theorem stores_put (stores : object.Stores heap vector) {changed : BitVector} (size : changed.sz = vector.sz)
    (words : changed.bv.length = vector.bv.length) : object.Stores (heap.put object.bv changed.bv) changed :=
  ⟨size.trans stores.size, words.trans stores.words, Heap.block_put_same stores.block⟩

/-- A block written right after it was allocated. -/
private theorem allocated_put (heap : WordHeap) {old : List (BitVec 32)} {sz wholeSz : UInt32} (size : vector.sz = sz.toNat)
    (words : vector.bv.length = wholeSz.toNat) :
    Allocated heap ⟨sz, wholeSz, (heap.allocate old).1⟩ vector ((heap.allocate old).2.put (heap.allocate old).1 vector.bv) := by
  refine ⟨⟨size, words, Heap.block_put_same (Heap.block_allocate heap old)⟩, Heap.block_allocate_fresh heap old, ?_⟩
  intro address cells live
  rw [Heap.block_put_other (Heap.allocate_apart live), Heap.block_allocate_other live]

theorem clearBv_ok (stores : object.Stores heap vector) : object.clearBv heap = .ok (heap.put object.bv vector.clearBv.bv) := by
  have words : vector.clearBv.bv.length = object.wholeSz.toNat := by simp [BitVector.clearBv, stores.words]
  rw [clearBv, ← words]
  exact Heap.writeCells_ok _ stores.block (by simp [BitVector.clearBv]) (by simp [BitVector.clearBv])

theorem construct_ok (size : UInt32) (heap : WordHeap) :
    ∃ object after, construct size heap = .ok (object, after) ∧ object.Allocated heap (BitVector.new size.toNat) after := by
  have words : (BitVector.new size.toNat).bv.length = ((size + 31) / 32).toNat := by
    simp [BitVector.new, BitVector.wholeSz]
  have cleared : (BitVector.new size.toNat).clearBv = BitVector.new size.toNat := by
    simp [BitVector.clearBv, BitVector.new]
  have stores : Stores (heap.allocate (BitVector.new size.toNat).bv).2
      ⟨size, (size + 31) / 32, (heap.allocate (BitVector.new size.toNat).bv).1⟩ (BitVector.new size.toNat) :=
    ⟨rfl, words, Heap.block_allocate heap _⟩
  have filled := clearBv_ok stores
  have blank : List.replicate ((size + 31) / 32).toNat 0 = (BitVector.new size.toNat).bv := by
    simp [BitVector.new, BitVector.wholeSz]
  rw [cleared] at filled
  exact ⟨_, _, by simp only [construct, blank, bind, Except.bind, filled]; rfl, allocated_put heap rfl words⟩

theorem copy_ok (stores : object.Stores heap vector) :
    ∃ copied after, object.copy heap = .ok (copied, after) ∧ copied.Allocated heap vector after := by
  have reads (cells : List (BitVec 32)) (i : Nat) (inside : i < vector.bv.length) :
      ((heap.allocate (List.replicate object.wholeSz.toNat 0)).2.put (heap.allocate (List.replicate object.wholeSz.toNat 0)).1
        cells).read object.bv i = .ok vector.bv[i] := by
    apply Heap.read_ok
    rw [Heap.block_put_other (Heap.allocate_apart stores.block), Heap.block_allocate_other stores.block]
  have copied := Heap.writeCells_ok (fun heap i => heap.read object.bv i) (Heap.block_allocate heap _)
    (List.length_replicate.trans stores.words.symm) reads
  rw [stores.words] at copied
  exact ⟨_, _, by simp only [copy, bind, Except.bind, copied]; rfl, allocated_put heap stores.size stores.words⟩

/-- Changing the word of an index. -/
private theorem changeWord_ok (stores : object.Stores heap vector) (covered : vector.Covered) {index : UInt32}
    (inside : index < object.sz) (change : BitVec 32 → BitVec 32) :
    (do
      let word ← heap.read object.bv (index / 32).toNat
      heap.write object.bv (index / 32).toNat (change word)) =
      .ok (heap.put object.bv (vector.bv.modify (index.toNat / 32) change)) := by
  have bound : index.toNat / 32 < vector.bv.length := by
    have below : index.toNat < vector.sz := stores.size ▸ UInt32.lt_iff_toNat_lt.mp inside
    unfold BitVector.Covered at covered
    omega
  have word : (index / 32).toNat = index.toNat / 32 := by simp
  rw [word, Heap.read_ok stores.block bound]
  simp only [bind, Except.bind]
  rw [Heap.write_ok stores.block bound, List.modify_eq_set, List.getElem?_eq_getElem bound, Option.getD_some]

private theorem outside {index size : UInt32} : index ≥ size ↔ size.toNat ≤ index.toNat := UInt32.le_iff_toNat_le

theorem set_ok (stores : object.Stores heap vector) (covered : vector.Covered) (index : UInt32) :
    object.set index heap = .ok (heap.put object.bv (vector.set index.toNat).bv) := by
  unfold set BitVector.set BitVector.update
  simp only [outside, stores.size, ge_iff_le]
  split
  next => rw [Heap.put_self stores.block]
  next inside => exact changeWord_ok stores covered (UInt32.lt_iff_toNat_lt.mpr (Nat.lt_of_not_le inside)) _

theorem clear_ok (stores : object.Stores heap vector) (covered : vector.Covered) (index : UInt32) :
    object.clear index heap = .ok (heap.put object.bv (vector.clear index.toNat).bv) := by
  unfold clear BitVector.clear BitVector.update
  simp only [outside, stores.size, ge_iff_le]
  split
  next => rw [Heap.put_self stores.block]
  next inside => exact changeWord_ok stores covered (UInt32.lt_iff_toNat_lt.mpr (Nat.lt_of_not_le inside)) _

theorem test_ok (stores : object.Stores heap vector) (covered : vector.Covered) (index : UInt32) :
    object.test index heap = .ok (vector.test index.toNat) := by
  unfold test BitVector.test
  simp only [outside, stores.size, ge_iff_le]
  split
  next => rfl
  next inside =>
    have bound : index.toNat / 32 < vector.bv.length := by
      have size := stores.size
      unfold BitVector.Covered at covered
      omega
    have word : (index / 32).toNat = index.toNat / 32 := by simp
    rw [word, Heap.read_ok stores.block bound, List.getD_eq_getElem?_getD, List.getElem?_eq_getElem bound]
    rfl

end BitVectorObject

end LtlFuzz.Monitor

import LtlFuzz.Logic.Run
import LtlFuzz.Monitor.BitVectorMemory
import Mathlib.Data.Set.Insert

/-! Bit vectors as sets. Statements about vectors describe finite sets of indices, and the
vectors in memory test as their sets do while every size can be rounded up to words. -/

namespace LtlFuzz.Monitor
open Logic

/-- What a vector is for: a set of the numbers below its size. -/
structure DescribedVector where
  size : UInt32
  members : Set UInt32

def describeChange (described : List (Option DescribedVector)) (id : Nat) (operation : Set UInt32 → Set UInt32) :
    List (Option DescribedVector) :=
  match slot described id with
  | none => described
  | some vector => described.set id (some { vector with members := operation vector.members })

/-- The sets that a statement describes. -/
def describeStep (described : List (Option DescribedVector)) : VectorOp → List (Option DescribedVector)
  | .construct size => described ++ [some ⟨size, ∅⟩]
  | .copy source =>
    match slot described source with
    | none => described
    | some vector => described ++ [some vector]
  | .assign target source =>
    match slot described target, slot described source with
    | some _, some vector => described.set target (some vector)
    | _, _ => described
  | .set id index => describeChange described id (insert index)
  | .clear id index => describeChange described id (· \ {index})
  | .clearBv id => describeChange described id fun _ => ∅
  | .destroy id =>
    match slot described id with
    | none => described
    | some _ => described.set id none

def describe (ops : List VectorOp) : List (Option DescribedVector) := ops.foldl describeStep []

/-- A vector has the bits of a described one. -/
structure BitVector.Describes (vector : BitVector) (described : DescribedVector) : Prop where
  size : vector.sz = described.size.toNat
  covered : vector.Covered
  bits : ∀ index < described.size, vector.test index.toNat = true ↔ index ∈ described.members

namespace BitVector.Describes

variable {vector : BitVector} {described : DescribedVector}

theorem new {size : UInt32} (bound : size.toNat + 31 < 2 ^ 32) : (BitVector.new size.toNat).Describes ⟨size, ∅⟩ :=
  ⟨rfl, covered_new bound, by simp⟩

theorem set (describes : vector.Describes described) (index : UInt32) :
    (vector.set index.toNat).Describes { described with members := insert index described.members } := by
  refine ⟨by simpa using describes.size, covered_set describes.covered _, ?_⟩
  intro other inside
  have below : other.toNat < vector.sz := describes.size ▸ UInt32.lt_iff_toNat_lt.mp inside
  have bit := describes.bits other inside
  by_cases same : other = index
  · subst same
    simp [test_set describes.covered, below]
  · simp [test_set describes.covered, bit, same, UInt32.toNat_inj]

theorem clear (describes : vector.Describes described) (index : UInt32) :
    (vector.clear index.toNat).Describes { described with members := described.members \ {index} } := by
  refine ⟨by simpa using describes.size, covered_clear describes.covered _, ?_⟩
  intro other inside
  simp [test_clear describes.covered, describes.bits other inside, UInt32.toNat_inj]

theorem clearBv (describes : vector.Describes described) : vector.clearBv.Describes { described with members := ∅ } :=
  ⟨describes.size, covered_clearBv describes.covered, by simp⟩

end BitVector.Describes

def Realizes (heap : WordHeap) (object : BitVectorObject) (described : DescribedVector) : Prop :=
  ∃ vector : BitVector, object.Stores heap vector ∧ vector.Describes described

namespace VectorStore

/-- Every live object is a described vector, and no two of them share their words. -/
structure Refines (store : VectorStore) (described : List (Option DescribedVector)) : Prop where
  length : store.objects.length = described.length
  slots : ∀ id, Option.Rel (Realizes store.heap) (slot store.objects id) (slot described id)
  apart : ∀ id other object another, slot store.objects id = some object → slot store.objects other = some another →
    object.bv = another.bv → id = other

section Steps

variable {store : VectorStore} {described : List (Option DescribedVector)}

theorem blank_refines : blank.Refines [] :=
  ⟨rfl, fun _ => .none, fun _ _ _ _ found => by cases found⟩

/-- A statement that changes one slot, and no block that another slot owns. -/
private theorem refines_at (refines : store.Refines described) {heap : WordHeap} {objects : List (Option BitVectorObject)}
    {changed : List (Option DescribedVector)} (id : Nat) (object : Option BitVectorObject) (vector : Option DescribedVector)
    (length : objects.length = changed.length)
    (objectsAt : ∀ other, slot objects other = if other = id then object else slot store.objects other)
    (vectorsAt : ∀ other, slot changed other = if other = id then vector else slot described other)
    (kept : ∀ other another, other ≠ id → slot store.objects other = some another →
      heap.block another.bv = store.heap.block another.bv)
    (apart : ∀ owner, object = some owner → ∀ other another, other ≠ id → slot store.objects other = some another →
      owner.bv ≠ another.bv)
    (here : Option.Rel (Realizes heap) object vector) : Refines ⟨heap, objects⟩ changed := by
  refine ⟨length, ?_, ?_⟩
  · intro other
    rw [objectsAt, vectorsAt]
    split
    next => exact here
    next different =>
      have held := refines.slots other
      generalize found : slot store.objects other = owner at held
      generalize slot described other = expected at held
      cases held with
      | none => exact .none
      | some realizes =>
        obtain ⟨vector, stores, describes⟩ := realizes
        exact .some ⟨vector, ⟨stores.size, stores.words, (kept other _ different found).trans stores.block⟩, describes⟩
  · intro first second one two foundFirst foundSecond same
    rw [objectsAt] at foundFirst foundSecond
    split at foundFirst <;> split at foundSecond
    next isFirst isSecond => rw [isFirst, isSecond]
    next isFirst different => exact absurd same (apart one foundFirst second two different foundSecond)
    next different isSecond => exact absurd same.symm (apart two foundSecond first one different foundFirst)
    next => exact refines.apart first second one two foundFirst foundSecond same

/-- The object of a slot that was described. -/
private theorem object_of_slot (refines : store.Refines described) {id : Nat} {vector : DescribedVector}
    (found : slot described id = some vector) :
    ∃ object, slot store.objects id = some object ∧ Realizes store.heap object vector :=
  rel_some_right (found ▸ refines.slots id)

private theorem slot_none (refines : store.Refines described) {id : Nat} (found : slot described id = none) :
    slot store.objects id = none :=
  rel_none_right (found ▸ refines.slots id)

private theorem live_block (refines : store.Refines described) {id : Nat} {object : BitVectorObject}
    (found : slot store.objects id = some object) : ∃ words, store.heap.block object.bv = some words := by
  obtain ⟨expected, _, vector, stores, _⟩ := rel_some_left (found ▸ refines.slots id)
  exact ⟨_, stores.block⟩

private theorem other_block (refines : store.Refines described) {id other : Nat} {object another : BitVectorObject}
    (owned : slot store.objects id = some object) (elsewhere : other ≠ id) (there : slot store.objects other = some another) :
    another.bv ≠ object.bv :=
  fun same => elsewhere (refines.apart other id another object there owned same)

theorem change_refines (refines : store.Refines described) (id : Nat)
    (operation : BitVectorObject → WordHeap → Except HeapFault WordHeap) (sets : Set UInt32 → Set UInt32)
    (changes : ∀ object vector described, object.Stores store.heap vector → vector.Describes described →
      ∃ changed : BitVector, operation object store.heap = .ok (store.heap.put object.bv changed.bv) ∧
        changed.bv.length = vector.bv.length ∧ changed.Describes { described with members := sets described.members }) :
    ∃ next, store.change id operation = .ok next ∧ next.Refines (describeChange described id sets) := by
  unfold change describeChange
  cases found : slot described id with
  | none =>
    rw [slot_none refines found]
    exact ⟨store, rfl, refines⟩
  | some expected =>
    obtain ⟨object, owned, vector, stores, describes⟩ := object_of_slot refines found
    obtain ⟨changed, executed, words, after⟩ := changes object vector expected stores describes
    rw [owned]
    refine ⟨_, by simp only [executed, bind, Except.bind]; rfl, ?_⟩
    have holds := BitVectorObject.stores_put stores (after.size.trans describes.size.symm) words
    apply refines_at refines id (some object) (some { expected with members := sets expected.members })
    · simpa using refines.length
    · intro other
      split
      next same => rw [same, owned]
      next => rfl
    · exact slot_set (slot_lt found) _
    · intro other another elsewhere there
      exact Heap.block_put_other (other_block refines owned elsewhere there)
    · rintro owner ⟨⟩ other another elsewhere there
      exact (other_block refines owned elsewhere there).symm
    · exact .some ⟨changed, holds, after⟩

theorem append_refines (refines : store.Refines described) {object : BitVectorObject} {vector : BitVector} {after : WordHeap}
    {expected : DescribedVector} (allocated : object.Allocated store.heap vector after) (describes : vector.Describes expected) :
    Refines ⟨after, store.objects ++ [some object]⟩ (described ++ [some expected]) := by
  apply refines_at refines store.objects.length (some object) (some expected)
  · simpa using refines.length
  · exact slot_append _ _
  · rw [refines.length]
    exact slot_append _ _
  · intro other another _ there
    obtain ⟨words, live⟩ := live_block refines there
    rw [allocated.kept _ _ live, live]
  · rintro owner ⟨⟩ other another _ there same
    obtain ⟨words, live⟩ := live_block refines there
    rw [← same, allocated.fresh] at live
    cases live
  · exact .some ⟨vector, allocated.stores, describes⟩

theorem assign_refines (refines : store.Refines described) {target source : Nat} {object other : BitVectorObject}
    {vector : BitVector} {expected : DescribedVector} (owned : slot store.objects target = some object)
    (found : slot store.objects source = some other) (different : target ≠ source)
    (stores : other.Stores store.heap vector) (describes : vector.Describes expected) :
    ∃ copied after, object.assign other store.heap = .ok (copied, after) ∧
      Refines ⟨after, store.objects.set target (some copied)⟩ (described.set target (some expected)) := by
  obtain ⟨words, live⟩ := live_block refines owned
  obtain ⟨freed, released, others⟩ := Heap.free_ok live
  have kept : other.Stores freed vector :=
    ⟨stores.size, stores.words, (others _ (other_block refines owned different.symm found)).trans stores.block⟩
  obtain ⟨copied, after, executed, allocated⟩ := BitVectorObject.copy_ok kept
  refine ⟨copied, after, by simp only [BitVectorObject.assign, released, bind, Except.bind, executed], ?_⟩
  have inside := slot_lt owned
  apply refines_at refines target (some copied) (some expected)
  · simpa using refines.length
  · exact slot_set inside _
  · exact slot_set (refines.length ▸ inside) _
  · intro id another elsewhere there
    obtain ⟨words, live⟩ := live_block refines there
    rw [allocated.kept _ words ((others _ (other_block refines owned elsewhere there)).trans live), live]
  · rintro owner ⟨⟩ id another elsewhere there same
    obtain ⟨words, live⟩ := live_block refines there
    rw [← others _ (other_block refines owned elsewhere there), ← same, allocated.fresh] at live
    cases live
  · exact .some ⟨vector, allocated.stores, describes⟩

theorem destroy_refines (refines : store.Refines described) {id : Nat} {object : BitVectorObject}
    (owned : slot store.objects id = some object) :
    ∃ after, store.heap.free object.bv = .ok after ∧ Refines ⟨after, store.objects.set id none⟩ (described.set id none) := by
  obtain ⟨words, live⟩ := live_block refines owned
  obtain ⟨freed, released, others⟩ := Heap.free_ok live
  refine ⟨freed, released, ?_⟩
  have inside := slot_lt owned
  apply refines_at refines id none none
  · simpa using refines.length
  · exact slot_set inside _
  · exact slot_set (refines.length ▸ inside) _
  · intro other another elsewhere there
    exact others _ (other_block refines owned elsewhere there)
  · rintro owner ⟨⟩
  · exact .none

/-- A statement that asks for no more bits than can be rounded up to words. -/
theorem step_refines (refines : store.Refines described) {op : VectorOp}
    (sized : ∀ size, op = .construct size → size.toNat + 31 < 2 ^ 32) :
    ∃ next, store.step op = .ok next ∧ next.Refines (describeStep described op) := by
  cases op with
  | construct size =>
    obtain ⟨object, after, executed, allocated⟩ := BitVectorObject.construct_ok size store.heap
    exact ⟨_, by simp only [step, executed, bind, Except.bind]; rfl, append_refines refines allocated (.new (sized size rfl))⟩
  | copy source =>
    simp only [step, describeStep]
    cases found : slot described source with
    | none =>
      rw [slot_none refines found]
      exact ⟨store, rfl, refines⟩
    | some expected =>
      obtain ⟨other, owned, vector, stores, describes⟩ := object_of_slot refines found
      obtain ⟨copied, after, executed, allocated⟩ := BitVectorObject.copy_ok stores
      rw [owned]
      exact ⟨_, by simp only [executed, bind, Except.bind]; rfl, append_refines refines allocated describes⟩
  | assign target source =>
    simp only [step, describeStep]
    cases foundTarget : slot described target with
    | none =>
      rw [slot_none refines foundTarget]
      exact ⟨store, rfl, refines⟩
    | some replaced =>
      obtain ⟨object, owned, _⟩ := object_of_slot refines foundTarget
      cases foundSource : slot described source with
      | none =>
        rw [owned, slot_none refines foundSource]
        exact ⟨store, rfl, refines⟩
      | some expected =>
        obtain ⟨other, found, vector, stores, describes⟩ := object_of_slot refines foundSource
        rw [owned, found]
        by_cases self : target = source
        · subst self
          cases foundTarget.symm.trans foundSource
          refine ⟨store, by simp, ?_⟩
          show store.Refines (described.set target (some replaced))
          rwa [slot_set_self foundTarget]
        · obtain ⟨copied, after, executed, next⟩ := assign_refines refines owned found self stores describes
          exact ⟨_, by simp only [if_neg self, executed, bind, Except.bind]; rfl, next⟩
  | set id index =>
    apply change_refines refines id (·.set index) (insert index)
    intro object vector expected stores describes
    exact ⟨_, BitVectorObject.set_ok stores describes.covered index, BitVector.length_set vector _, describes.set index⟩
  | clear id index =>
    apply change_refines refines id (·.clear index) (· \ {index})
    intro object vector expected stores describes
    exact ⟨_, BitVectorObject.clear_ok stores describes.covered index, BitVector.length_clear vector _, describes.clear index⟩
  | clearBv id =>
    apply change_refines refines id (·.clearBv) (fun _ => ∅)
    intro object vector expected stores describes
    exact ⟨_, BitVectorObject.clearBv_ok stores, by simp [BitVector.clearBv], describes.clearBv⟩
  | destroy id =>
    simp only [step, describeStep]
    cases found : slot described id with
    | none =>
      rw [slot_none refines found]
      exact ⟨store, rfl, refines⟩
    | some expected =>
      obtain ⟨object, owned, _⟩ := object_of_slot refines found
      obtain ⟨after, released, next⟩ := destroy_refines refines owned
      rw [owned]
      exact ⟨_, by simp only [released, bind, Except.bind]; rfl, next⟩

theorem run_refines (refines : store.Refines described) {ops : List VectorOp}
    (sized : ∀ size, .construct size ∈ ops → size.toNat + 31 < 2 ^ 32) :
    ∃ final, run step store ops = .ok final ∧ final.Refines (ops.foldl describeStep described) := by
  induction ops generalizing store described with
  | nil => exact ⟨store, rfl, refines⟩
  | cons op ops ih =>
    obtain ⟨next, executed, kept⟩ := step_refines refines fun size same => sized size (same ▸ List.mem_cons_self)
    obtain ⟨final, reached, holds⟩ := ih kept fun size member => sized size (List.mem_cons_of_mem _ member)
    exact ⟨final, by rw [run_cons_of_ok executed, reached], holds⟩

theorem test_of_refines (refines : store.Refines described) {id : Nat} {vector : DescribedVector}
    (found : slot described id = some vector) {index : UInt32} (inside : index < vector.size) :
    ∃ bit, store.test id index = some (.ok bit) ∧ (bit = true ↔ index ∈ vector.members) := by
  obtain ⟨object, owned, words, stores, describes⟩ := object_of_slot refines found
  refine ⟨words.test index.toNat, ?_, describes.bits index inside⟩
  rw [test, owned, Option.map_some, BitVectorObject.test_ok stores describes.covered]

/-- Rounding the size up overflows to no words at all. -/
theorem construct_overflow {next : VectorStore} {size : UInt32} (large : 2 ^ 32 ≤ size.toNat + 31)
    (executed : store.step (.construct size) = .ok next) : next.test store.objects.length 0 = some (.error .outOfBounds) := by
  obtain ⟨object, after, constructed, stores, _, _⟩ := BitVectorObject.construct_ok size store.heap
  simp only [step, constructed, bind, Except.bind] at executed
  cases executed
  have limit := size.toNat_lt
  have words : BitVector.wholeSz size.toNat = 0 := by
    unfold BitVector.wholeSz
    omega
  have live : after.block object.bv = some [] := by
    rw [stores.block, BitVector.new, words]
    rfl
  have nonempty : ¬ (0 : UInt32) ≥ object.sz := by
    have same : size.toNat = object.sz.toNat := stores.size
    rw [ge_iff_le, UInt32.le_iff_toNat_le]
    simp
    omega
  rw [test, slot_append, if_pos rfl, Option.map_some, BitVectorObject.test, if_neg nonempty]
  simp [Heap.read, live, bind, Except.bind]

end Steps

/-- The program runs, and every vector tests as the set that was described. -/
def Agrees (ops : List VectorOp) : Prop :=
  ∃ store, run step blank ops = .ok store ∧ ∀ id vector, slot (describe ops) id = some vector →
    ∀ index < vector.size, ∃ bit, store.test id index = some (.ok bit) ∧ (bit = true ↔ index ∈ vector.members)

theorem agrees_of_sized {ops : List VectorOp} (sized : ∀ size, .construct size ∈ ops → size.toNat + 31 < 2 ^ 32) :
    Agrees ops := by
  obtain ⟨store, reached, refines⟩ := run_refines blank_refines sized
  exact ⟨store, reached, fun id vector found index inside => test_of_refines refines found inside⟩

/-- The first vector that is too large is where a program goes wrong. -/
theorem not_agrees_of_overflow {ops : List VectorOp} (sized : ∀ size, .construct size ∈ ops → size.toNat + 31 < 2 ^ 32)
    {size : UInt32} (large : 2 ^ 32 ≤ size.toNat + 31) : ¬ Agrees (ops ++ [.construct size]) := by
  intro agrees
  obtain ⟨store, reached, refines⟩ := run_refines blank_refines sized
  obtain ⟨next, executed, tests⟩ := agrees
  rw [run_append reached] at executed
  obtain ⟨after, stepped, same⟩ := run_cons_ok executed
  cases same
  have described : slot (describe (ops ++ [.construct size])) store.objects.length = some ⟨size, ∅⟩ := by
    rw [describe, List.foldl_append, refines.length]
    simp [describeStep, slot_append]
  have limit := size.toNat_lt
  have positive : (0 : UInt32) < size := by
    rw [UInt32.lt_iff_toNat_lt]
    simp
    omega
  obtain ⟨bit, tested, _⟩ := tests _ _ described 0 positive
  rw [construct_overflow large stepped] at tested
  cases tested

theorem sized_of_agrees {ops : List VectorOp} (agrees : ∀ count, Agrees (ops.take count)) (count : Nat) :
    ∀ size, .construct size ∈ ops.take count → size.toNat + 31 < 2 ^ 32 := by
  induction count with
  | zero => intro size member; cases member
  | succ count ih =>
    intro size member
    rw [List.take_add_one, List.mem_append, Option.mem_toList] at member
    rcases member with earlier | here
    · exact ih size earlier
    · by_contra large
      apply not_agrees_of_overflow ih (Nat.le_of_not_lt large)
      have agreed := agrees (count + 1)
      rwa [List.take_add_one, here, Option.toList_some] at agreed

/-- A statement about one vector leaves the others as they were described. -/
theorem describeStep_other {described : List (Option DescribedVector)} {op : VectorOp} {id : Nat}
    (untouched : op.target ≠ some id) (inside : id < described.length) :
    slot (describeStep described op) id = slot described id ∧ id < (describeStep described op).length := by
  have replaced (other : Nat) (vector : Option DescribedVector) (apart : some other ≠ some id) :
      slot (described.set other vector) id = slot described id ∧ id < (described.set other vector).length :=
    ⟨slot_set_other (fun same => apart (congrArg some same.symm)) vector, by simpa using inside⟩
  have added (vector : Option DescribedVector) :
      slot (described ++ [vector]) id = slot described id ∧ id < (described ++ [vector]).length :=
    ⟨slot_append_before inside vector, by simp; omega⟩
  cases op with
  | construct size => exact added _
  | copy source =>
    simp only [describeStep]
    split
    next => exact ⟨rfl, inside⟩
    next => exact added _
  | assign target source =>
    simp only [describeStep]
    split
    next => exact replaced target _ untouched
    next => exact ⟨rfl, inside⟩
  | set other index | clear other index | clearBv other | destroy other =>
    simp only [describeStep, describeChange]
    split
    next => exact ⟨rfl, inside⟩
    next => exact replaced other _ untouched

theorem describe_others {described : List (Option DescribedVector)} {later : List VectorOp} {id : Nat}
    (untouched : ∀ op ∈ later, op.target ≠ some id) (inside : id < described.length) :
    slot (later.foldl describeStep described) id = slot described id := by
  induction later generalizing described with
  | nil => rfl
  | cons op later ih =>
    obtain ⟨same, still⟩ := describeStep_other (untouched op List.mem_cons_self) inside
    rw [List.foldl_cons, ih (fun op member => untouched op (List.mem_cons_of_mem _ member)) still, same]

/-- A copy keeps the set it was made of until a statement is about the copy. -/
theorem describe_copy {ops later : List VectorOp} {source : Nat} {vector : DescribedVector}
    (found : slot (describe ops) source = some vector)
    (untouched : ∀ op ∈ later, op.target ≠ some (describe ops).length) :
    slot (describe (ops ++ .copy source :: later)) (describe ops).length = some vector := by
  have copied : describeStep (describe ops) (.copy source) = describe ops ++ [some vector] := by
    simp [describeStep, found]
  rw [describe, List.foldl_append, List.foldl_cons, ← describe, copied, describe_others untouched (by simp),
    slot_append_last]

/-- Vectors behave like the sets they are described as exactly when none has more than 2^32 - 32 bits. -/
theorem bitVector_refines_set (ops : List VectorOp) :
    ((∀ count, Agrees (ops.take count)) ↔ ∀ size, .construct size ∈ ops → size.toNat ≤ 2 ^ 32 - 32) ∧
      ∀ (count : Nat) (later : List VectorOp) (source : Nat) (vector : DescribedVector),
        slot (describe (ops.take count)) source = some vector →
        (∀ op ∈ later, op.target ≠ some (describe (ops.take count)).length) →
          slot (describe (ops.take count ++ .copy source :: later)) (describe (ops.take count)).length = some vector := by
  refine ⟨⟨?_, ?_⟩, fun count later source vector => describe_copy⟩
  · intro agrees size member
    have bound := sized_of_agrees agrees ops.length size (by rwa [List.take_length])
    omega
  · intro sized count
    apply agrees_of_sized
    intro size member
    have bound := sized size (List.mem_of_mem_take member)
    omega

/-- The word count of a vector with every bit an `unsigned int` can count is zero. -/
theorem largest_vector_faults :
    run step blank [.construct 0xFFFFFFFF] = .ok ⟨⟨[some []]⟩, [some ⟨0xFFFFFFFF, 0, 0⟩]⟩ ∧
      slot (describe [.construct 0xFFFFFFFF]) 0 = some ⟨0xFFFFFFFF, ∅⟩ ∧
      test ⟨⟨[some []]⟩, [some ⟨0xFFFFFFFF, 0, 0⟩]⟩ 0 0 = some (.error .outOfBounds) ∧ ¬ Agrees [.construct 0xFFFFFFFF] :=
  ⟨rfl, rfl, rfl,
    (not_agrees_of_overflow (by simp) (by decide) : ¬ Agrees ([] ++ [.construct 0xFFFFFFFF]))⟩

end VectorStore

end LtlFuzz.Monitor

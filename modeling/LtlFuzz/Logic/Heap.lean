import Mathlib.Data.List.Basic

/-! A heap of blocks of cells. Every access is checked: one past the end of its block is a
fault, and so is one to a block that was freed. -/

namespace LtlFuzz.Logic

section Slots

variable {α : Type} {slots : List (Option α)} {id other : Nat} {value : α}

/-- A list of places that may be empty, as those beyond its end are. -/
def slot (slots : List (Option α)) (id : Nat) : Option α := slots[id]?.join

theorem slot_lt (found : slot slots id = some value) : id < slots.length := by
  by_contra beyond
  simp [slot, List.getElem?_eq_none (Nat.le_of_not_lt beyond)] at found

theorem slot_append_before (before : id < slots.length) (added : Option α) : slot (slots ++ [added]) id = slot slots id := by
  rw [slot, List.getElem?_append_left before, slot]

@[simp] theorem slot_append_last (slots : List (Option α)) (added : Option α) :
    slot (slots ++ [added]) slots.length = added := by
  simp [slot]

@[simp] theorem slot_end (slots : List (Option α)) : slot slots slots.length = none := by
  simp [slot]

theorem slot_append (slots : List (Option α)) (added : Option α) (id : Nat) :
    slot (slots ++ [added]) id = if id = slots.length then added else slot slots id := by
  split
  next last => rw [last, slot_append_last]
  next different =>
    rcases Nat.lt_or_gt_of_ne different with before | after
    · exact slot_append_before before added
    · rw [slot, slot, List.getElem?_eq_none (by simp; omega), List.getElem?_eq_none (Nat.le_of_lt after)]

theorem slot_set_same (inside : id < slots.length) (replaced : Option α) : slot (slots.set id replaced) id = replaced := by
  simp [slot, inside]

theorem slot_set_other (apart : other ≠ id) (replaced : Option α) : slot (slots.set id replaced) other = slot slots other := by
  simp [slot, apart.symm]

theorem slot_set (inside : id < slots.length) (replaced : Option α) (other : Nat) :
    slot (slots.set id replaced) other = if other = id then replaced else slot slots other := by
  split
  next same => rw [same, slot_set_same inside]
  next apart => exact slot_set_other apart replaced

theorem slot_set_self (found : slot slots id = some value) : slots.set id (some value) = slots := by
  obtain ⟨inside, here⟩ := List.getElem?_eq_some_iff.mp (Option.join_eq_some_iff.mp found)
  rw [← here, List.set_getElem_self]

end Slots

section Related

variable {α β : Type} {related : α → β → Prop} {first : Option α} {second : Option β} {a : α} {b : β}

theorem rel_some_left (held : Option.Rel related (some a) second) : ∃ b, second = some b ∧ related a b := by
  cases held with
  | some holds => exact ⟨_, rfl, holds⟩

theorem rel_some_right (held : Option.Rel related first (some b)) : ∃ a, first = some a ∧ related a b := by
  cases held with
  | some holds => exact ⟨_, rfl, holds⟩

theorem rel_none_right (held : Option.Rel related first none) : first = none := by
  cases held
  rfl

end Related

inductive HeapFault where
  | outOfBounds
  | dangling
  deriving DecidableEq, Repr

/-- An address is the position of a block; a freed block leaves `none` behind. -/
structure Heap (α : Type) where
  blocks : List (Option (List α))
  deriving DecidableEq, Repr

namespace Heap

variable {α : Type}

def empty : Heap α := ⟨[]⟩

def block (heap : Heap α) (address : Nat) : Option (List α) := slot heap.blocks address

def put (heap : Heap α) (address : Nat) (cells : List α) : Heap α := ⟨heap.blocks.set address (some cells)⟩

def allocate (heap : Heap α) (cells : List α) : Nat × Heap α := (heap.blocks.length, ⟨heap.blocks ++ [some cells]⟩)

def free (heap : Heap α) (address : Nat) : Except HeapFault (Heap α) :=
  match heap.block address with
  | none => .error .dangling
  | some _ => .ok ⟨heap.blocks.set address none⟩

def read (heap : Heap α) (address index : Nat) : Except HeapFault α :=
  match heap.block address with
  | none => .error .dangling
  | some cells =>
    match cells[index]? with
    | none => .error .outOfBounds
    | some cell => .ok cell

def write (heap : Heap α) (address index : Nat) (cell : α) : Except HeapFault (Heap α) :=
  match heap.block address with
  | none => .error .dangling
  | some cells => if index < cells.length then .ok (heap.put address (cells.set index cell)) else .error .outOfBounds

section Blocks

variable {heap : Heap α} {address other : Nat} {cells old : List α}

theorem block_put_same (live : heap.block address = some old) : (heap.put address cells).block address = some cells :=
  slot_set_same (slot_lt live) _

theorem block_put_other (apart : other ≠ address) : (heap.put address cells).block other = heap.block other :=
  slot_set_other apart _

theorem put_put (first second : List α) : (heap.put address first).put address second = heap.put address second := by
  simp [put]

theorem put_self (live : heap.block address = some old) : heap.put address old = heap := by
  rw [put, slot_set_self live]

theorem block_allocate (heap : Heap α) (cells : List α) : (heap.allocate cells).2.block (heap.allocate cells).1 = some cells :=
  slot_append_last _ _

theorem block_allocate_fresh (heap : Heap α) (cells : List α) : heap.block (heap.allocate cells).1 = none := slot_end _

theorem allocate_apart (live : heap.block other = some old) : other ≠ (heap.allocate cells).1 := Nat.ne_of_lt (slot_lt live)

theorem block_allocate_other (live : heap.block other = some old) : (heap.allocate cells).2.block other = some old :=
  (slot_append_before (slot_lt live) _).trans live

theorem free_ok (live : heap.block address = some old) :
    ∃ freed, heap.free address = .ok freed ∧ ∀ other, other ≠ address → freed.block other = heap.block other :=
  ⟨⟨heap.blocks.set address none⟩, by simp [free, live], fun _ apart => slot_set_other apart _⟩

theorem read_ok (live : heap.block address = some cells) {index : Nat} (inside : index < cells.length) :
    heap.read address index = .ok cells[index] := by
  simp [read, live, List.getElem?_eq_getElem inside]

theorem write_ok (live : heap.block address = some cells) {index : Nat} (inside : index < cells.length) (cell : α) :
    heap.write address index cell = .ok (heap.put address (cells.set index cell)) := by
  simp [write, live, inside]

end Blocks

/-- Writing a block cell by cell, each cell computed from the heap as it then is. -/
def writeCells (source : Heap α → Nat → Except HeapFault α) (address count : Nat) (heap : Heap α) :
    Except HeapFault (Heap α) :=
  (List.range count).foldlM (fun heap i => do heap.write address i (← source heap i)) heap

private theorem set_boundary {old new : List α} (size : old.length = new.length) {count : Nat} (bound : count < new.length) :
    (new.take count ++ old.drop count).set count new[count] = new.take (count + 1) ++ old.drop (count + 1) := by
  have length : (new.take count).length = count := List.length_take_of_le (Nat.le_of_lt bound)
  have next : old.drop count = old[count] :: old.drop (count + 1) := List.drop_eq_getElem_cons (size ▸ bound)
  rw [next, List.set_append_right _ _ (Nat.le_of_eq length), length, Nat.sub_self, List.set_cons_zero,
    ← List.take_append_getElem bound, List.append_assoc, List.singleton_append]

/-- The loop leaves its block with the cells it computed, where these do not depend on the block. -/
theorem writeCells_ok {heap : Heap α} {address : Nat} {old new : List α} (source : Heap α → Nat → Except HeapFault α)
    (live : heap.block address = some old) (size : old.length = new.length)
    (reads : ∀ (cells : List α) (i : Nat) (inside : i < new.length), source (heap.put address cells) i = .ok new[i]) :
    writeCells source address new.length heap = .ok (heap.put address new) := by
  have partly (count : Nat) (bound : count ≤ new.length) :
      writeCells source address count heap = .ok (heap.put address (new.take count ++ old.drop count)) := by
    induction count with
    | zero => simp [writeCells, put_self live, pure, Except.pure]
    | succ count ih =>
      have before := ih (Nat.le_of_succ_le bound)
      have here : count < (new.take count ++ old.drop count).length := by
        simp only [List.length_append, List.length_take, List.length_drop]
        omega
      unfold writeCells at before ⊢
      rw [List.range_succ, List.foldlM_append, before]
      simp only [List.foldlM_cons, List.foldlM_nil, bind, Except.bind, reads _ count bound,
        write_ok (block_put_same live) here, set_boundary size bound, put_put]
      rfl
  have whole := partly new.length (Nat.le_refl _)
  rwa [List.take_length, ← size, List.drop_length, List.append_nil, size] at whole

end Heap

end LtlFuzz.Logic

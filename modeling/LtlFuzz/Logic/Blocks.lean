import Mathlib.Data.List.Basic
import Mathlib.Data.Nat.Init

/-! Streams that are produced block by block. What a producer has written is compared with
the concatenation of its blocks, however many of them that takes. -/

namespace LtlFuzz.Logic

universe u

variable {α : Type u}

/-- The first blocks, one after the other. -/
def concat (block : Nat → List α) (count : Nat) : List α := (List.range count).flatMap block

/-- The elements are those a stream of blocks begins with. -/
def Begins (block : Nat → List α) (elements : List α) : Prop := ∃ count, elements <+: concat block count

variable {block : Nat → List α}

@[simp] theorem concat_zero : concat block 0 = [] := rfl

theorem concat_succ (count : Nat) : concat block (count + 1) = concat block count ++ block count := by
  simp [concat, List.range_succ]

theorem length_concat {size : Nat} (even : ∀ i, (block i).length = size) (count : Nat) :
    (concat block count).length = count * size := by
  induction count with
  | zero => simp
  | succ count ih => rw [concat_succ, List.length_append, ih, even, Nat.succ_mul]

theorem concat_fewer {few many : Nat} (fewer : few ≤ many) : concat block few <+: concat block many := by
  induction many, fewer using Nat.le_induction with
  | base => exact List.prefix_rfl
  | succ many fewer ih =>
    rw [concat_succ]
    exact ih.trans (List.prefix_append _ _)

/-- Two beginnings of a stream that are equally long are the same. -/
theorem Begins.unique {first second : List α} (one : Begins block first) (two : Begins block second)
    (same : first.length = second.length) : first = second := by
  obtain ⟨few, inFew⟩ := one
  obtain ⟨many, inMany⟩ := two
  have wide : first <+: concat block (max few many) := inFew.trans (concat_fewer (Nat.le_max_left few many))
  have tall : second <+: concat block (max few many) := inMany.trans (concat_fewer (Nat.le_max_right few many))
  exact (List.prefix_of_prefix_length_le wide tall (Nat.le_of_eq same)).eq_of_length same

theorem begins_concat (count : Nat) : Begins block (concat block count) := ⟨count, List.prefix_rfl⟩

theorem begins_take (count length : Nat) : Begins block ((concat block count).take length) :=
  ⟨count, List.take_prefix _ _⟩

/-- Any number of blocks that suffices gives the same elements. -/
theorem take_concat {few many length : Nat} (fewer : few ≤ many) (enough : length ≤ (concat block few).length) :
    (concat block many).take length = (concat block few).take length := by
  apply (begins_take many length).unique (begins_take few length)
  have longer : (concat block few).length ≤ (concat block many).length := (concat_fewer fewer).length_le
  rw [List.length_take, List.length_take]
  omega

end LtlFuzz.Logic

import Mathlib.Data.Finset.Card
import Mathlib.Data.Finset.Range

/-! Walks from position to position. A walk that never comes back is bounded by the number of
positions; one that ends anyway never comes back. -/

namespace LtlFuzz.Logic

section Unvisited

/-- How many positions below a bound have not been visited. -/
def unvisited (size : Nat) (seen : List Nat) : Nat := ((Finset.range size).filter (· ∉ seen)).card

theorem unvisited_cons_lt {size position : Nat} {seen : List Nat} (inside : position < size) (fresh : position ∉ seen) :
    unvisited size (position :: seen) < unvisited size seen := by
  apply Finset.card_lt_card
  have fewer : (Finset.range size).filter (· ∉ position :: seen) ⊆ (Finset.range size).filter (· ∉ seen) := by
    intro other member
    simp only [Finset.mem_filter, List.mem_cons, not_or] at member ⊢
    exact ⟨member.1, member.2.2⟩
  refine (Finset.ssubset_iff_of_subset fewer).mpr ⟨position, ?_, ?_⟩
  · exact Finset.mem_filter.mpr ⟨Finset.mem_range.mpr inside, fresh⟩
  · simp

end Unvisited

section Depth

variable {α : Type} {next : α → Option α}

/-- The number of steps to the end of a walk. -/
inductive Depth (next : α → Option α) : Nat → α → Prop where
  | stop {position : α} (last : next position = none) : Depth next 0 position
  | step {depth : Nat} {position other : α} (goes : next position = some other) (rest : Depth next depth other) :
      Depth next (depth + 1) position

theorem Depth.unique {depth other : Nat} {position : α} (one : Depth next depth position) (two : Depth next other position) :
    depth = other := by
  induction one generalizing other with
  | stop last =>
    cases two with
    | stop => rfl
    | step goes => rw [last] at goes; cases goes
  | step goes rest ih =>
    cases two with
    | stop last => rw [goes] at last; cases last
    | step goes' rest' =>
      rw [goes] at goes'
      cases goes'
      exact congrArg (· + 1) (ih rest')

theorem Depth.after {depth : Nat} {position other : α} (here : Depth next depth position) (goes : next position = some other) :
    ∃ less, depth = less + 1 ∧ Depth next less other := by
  cases here with
  | stop last => rw [last] at goes; cases goes
  | step goes' rest =>
    rw [goes] at goes'
    cases goes'
    exact ⟨_, rfl, rest⟩

/-- What was visited is farther from the end. -/
def Above (next : α → Option α) (seen : List α) (depth : Nat) : Prop :=
  ∀ position ∈ seen, ∃ other, depth < other ∧ Depth next other position

theorem Above.fresh {seen : List α} {depth : Nat} {position : α} (above : Above next seen depth)
    (here : Depth next depth position) : position ∉ seen := by
  intro visited
  obtain ⟨other, farther, there⟩ := above position visited
  exact absurd (here.unique there) (Nat.ne_of_lt farther)

theorem Above.descend {seen : List α} {depth : Nat} {position : α} (above : Above next seen (depth + 1))
    (here : Depth next (depth + 1) position) : Above next (position :: seen) depth := by
  intro visited member
  obtain rfl | member := List.mem_cons.mp member
  · exact ⟨depth + 1, Nat.lt_succ_self depth, here⟩
  · obtain ⟨other, farther, there⟩ := above visited member
    exact ⟨other, Nat.lt_of_succ_lt farther, there⟩

theorem Above.start (depth : Nat) : Above next [] depth := fun _ member => absurd member List.not_mem_nil

end Depth

end LtlFuzz.Logic

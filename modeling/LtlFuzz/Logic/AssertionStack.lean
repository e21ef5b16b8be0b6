import Mathlib.Data.List.Basic

/-! The assertion stack of an incremental solver. An assertion belongs to the level that
is open when it is made and is gone when that level is closed. -/

namespace LtlFuzz.Logic

universe u

structure AssertionStack (α : Type u) where
  top : List α := []
  below : List (List α) := []
  deriving DecidableEq, Repr

namespace AssertionStack

variable {α : Type u}

def live (stack : AssertionStack α) : List α := stack.top ++ stack.below.flatten

def depth (stack : AssertionStack α) : Nat := stack.below.length

def assert (stack : AssertionStack α) (assertion : α) : AssertionStack α := { stack with top := assertion :: stack.top }

/-- `(push n)`. -/
def push (stack : AssertionStack α) : Nat → AssertionStack α
  | 0 => stack
  | n + 1 => ⟨[], (stack.push n).top :: (stack.push n).below⟩

def close : AssertionStack α → Nat → Option (AssertionStack α)
  | stack, 0 => some stack
  | ⟨_, []⟩, _ + 1 => none
  | ⟨_, level :: below⟩, n + 1 => close ⟨level, below⟩ n

/-- `(pop n)`; without so many levels it is an error that changes nothing. -/
def pop (stack : AssertionStack α) (n : Nat) : AssertionStack α := (stack.close n).getD stack

@[simp] theorem depth_assert (stack : AssertionStack α) (assertion : α) : (stack.assert assertion).depth = stack.depth := rfl

@[simp] theorem live_assert (stack : AssertionStack α) (assertion : α) :
    (stack.assert assertion).live = assertion :: stack.live := rfl

@[simp] theorem live_push (stack : AssertionStack α) (n : Nat) : (stack.push n).live = stack.live := by
  induction n with
  | zero => rfl
  | succ n ih => simpa [push, live] using ih

@[simp] theorem depth_push (stack : AssertionStack α) (n : Nat) : (stack.push n).depth = stack.depth + n := by
  induction n with
  | zero => rfl
  | succ n ih =>
    simp only [depth, push, List.length_cons] at ih ⊢
    omega

theorem pop_one {stack : AssertionStack α} {level : List α} {below : List (List α)} (open_ : stack.below = level :: below) :
    stack.pop 1 = ⟨level, below⟩ := by
  obtain ⟨top, _⟩ := stack
  cases open_
  rfl

theorem live_eq_pop {stack : AssertionStack α} (open_ : 0 < stack.depth) : stack.live = stack.top ++ (stack.pop 1).live := by
  obtain ⟨level, below, shape⟩ := List.exists_cons_of_length_pos open_
  rw [pop_one shape]
  simp [live, shape]

theorem depth_pop {stack : AssertionStack α} (open_ : 0 < stack.depth) : (stack.pop 1).depth + 1 = stack.depth := by
  obtain ⟨level, below, shape⟩ := List.exists_cons_of_length_pos open_
  rw [pop_one shape]
  simp [depth, shape]

end AssertionStack

end LtlFuzz.Logic

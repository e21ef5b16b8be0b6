import Mathlib.Data.Nat.Basic

/-! Past-time linear temporal logic over an arbitrary type of atoms. The meaning
quantifies over positions; the unfolding laws below are what a one-pass evaluator
can use, since they refer to the current and the previous position only. -/

namespace LtlFuzz.Logic

universe u

inductive PastLTL (α : Type u) where
  | atom (a : α)
  | not (f : PastLTL α)
  | and (f g : PastLTL α)
  | or (f g : PastLTL α)
  | arrow (f g : PastLTL α)
  | historically (f : PastLTL α)
  | once (f : PastLTL α)
  | since (f g : PastLTL α)
  | yesterday (f : PastLTL α)

namespace PastLTL

variable {α : Type u} {val other : Nat → α → Prop}

def Holds (val : Nat → α → Prop) : PastLTL α → Nat → Prop
  | .atom a, k => val k a
  | .not f, k => ¬ Holds val f k
  | .and f g, k => Holds val f k ∧ Holds val g k
  | .or f g, k => Holds val f k ∨ Holds val g k
  | .arrow f g, k => Holds val f k → Holds val g k
  | .historically f, k => ∀ j ≤ k, Holds val f j
  | .once f, k => ∃ j ≤ k, Holds val f j
  | .since f g, k => ∃ j ≤ k, Holds val g j ∧ ∀ i, j < i → i ≤ k → Holds val f i
  | .yesterday f, k => ∃ j, k = j + 1 ∧ Holds val f j

def atoms : PastLTL α → List α
  | .atom a => [a]
  | .not f | .historically f | .once f | .yesterday f => f.atoms
  | .and f g | .or f g | .arrow f g | .since f g => f.atoms ++ g.atoms

def IsAtom : PastLTL α → Prop
  | .atom _ => True
  | _ => False

/-- No operand of `yesterday` is a bare atom. -/
def Guarded : PastLTL α → Prop
  | .atom _ => True
  | .not f | .historically f | .once f => f.Guarded
  | .and f g | .or f g | .arrow f g | .since f g => f.Guarded ∧ g.Guarded
  | .yesterday f => ¬ f.IsAtom ∧ f.Guarded

end PastLTL

/-! ### Unfolding

One position at a time, for any predicates on positions. -/

section Unfolding

variable {p q : Nat → Prop} {k : Nat}

/-- The first position is a parameter: an evaluator may have started later than the trace. -/
theorem historically_succ {first : Nat} (started : first ≤ k + 1) :
    (∀ j, first ≤ j → j ≤ k + 1 → p j) ↔ p (k + 1) ∧ ∀ j, first ≤ j → j ≤ k → p j := by
  constructor
  · intro always
    exact ⟨always _ started (Nat.le_refl _), fun j after before => always j after (Nat.le_succ_of_le before)⟩
  · intro ⟨now, before⟩ j after bound
    rcases Nat.lt_or_eq_of_le bound with earlier | rfl
    · exact before j after (Nat.lt_succ_iff.mp earlier)
    · exact now

theorem historically_here : (∀ j, k ≤ j → j ≤ k → p j) ↔ p k := by
  constructor
  · intro always
    exact always k (Nat.le_refl _) (Nat.le_refl _)
  · intro held j after before
    rwa [Nat.le_antisymm before after]

theorem once_zero : (∃ j ≤ 0, p j) ↔ p 0 := by
  simp

theorem once_succ : (∃ j ≤ k + 1, p j) ↔ p (k + 1) ∨ ∃ j ≤ k, p j := by
  constructor
  · intro ⟨j, bound, held⟩
    rcases Nat.lt_or_eq_of_le bound with earlier | rfl
    · exact Or.inr ⟨j, Nat.lt_succ_iff.mp earlier, held⟩
    · exact Or.inl held
  · rintro (now | ⟨j, bound, held⟩)
    · exact ⟨_, Nat.le_refl _, now⟩
    · exact ⟨j, Nat.le_succ_of_le bound, held⟩

theorem since_zero : (∃ j ≤ 0, q j ∧ ∀ i, j < i → i ≤ 0 → p i) ↔ q 0 := by
  constructor
  · intro ⟨j, bound, held, _⟩
    rwa [Nat.le_zero.mp bound] at held
  · intro held
    exact ⟨0, Nat.le_refl _, held, fun i after bound => absurd bound (by omega)⟩

theorem since_succ :
    (∃ j ≤ k + 1, q j ∧ ∀ i, j < i → i ≤ k + 1 → p i) ↔
      q (k + 1) ∨ p (k + 1) ∧ ∃ j ≤ k, q j ∧ ∀ i, j < i → i ≤ k → p i := by
  constructor
  · intro ⟨j, bound, held, kept⟩
    rcases Nat.lt_or_eq_of_le bound with earlier | rfl
    · refine Or.inr ⟨kept _ earlier (Nat.le_refl _), j, Nat.lt_succ_iff.mp earlier, held, ?_⟩
      exact fun i after before => kept i after (Nat.le_succ_of_le before)
    · exact Or.inl held
  · rintro (now | ⟨now, j, bound, held, kept⟩)
    · exact ⟨_, Nat.le_refl _, now, fun i after before => absurd before (by omega)⟩
    · refine ⟨j, Nat.le_succ_of_le bound, held, ?_⟩
      intro i after before
      rcases Nat.lt_or_eq_of_le before with earlier | rfl
      · exact kept i after (Nat.lt_succ_iff.mp earlier)
      · exact now

end Unfolding

end LtlFuzz.Logic

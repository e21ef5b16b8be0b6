import Mathlib.Order.Filter.AtTopBot.Basic
import Mathlib.Order.Filter.Finite

/-! What comes of computations that may fail, and of computations that are given more and more fuel. -/

namespace LtlFuzz.Logic
open Filter (atTop)

universe u v w

variable {α β : Type u} {ε : Type w} {post middle : α → Prop} {fails : ε → Prop}

/-- A value meets one condition, and a failure another. -/
def Meets (post : α → Prop) (fails : ε → Prop) : Except ε α → Prop
  | .ok value => post value
  | .error fault => fails fault

theorem Meets.bind {later : β → Prop} {first : Except ε α} {rest : α → Except ε β} (held : Meets middle fails first)
    (then_ : ∀ value, middle value → Meets later fails (rest value)) : Meets later fails (first >>= rest) := by
  cases first with
  | error fault => exact held
  | ok value => exact then_ value held

theorem Meets.mono {weaker : α → Prop} {result : Except ε α} (held : Meets post fails result)
    (implies : ∀ value, post value → weaker value) : Meets weaker fails result := by
  cases result with
  | error fault => exact held
  | ok value => exact implies value held

theorem ok_bind (value : α) (rest : α → Except ε β) : (Except.ok value >>= rest) = rest value := rfl

/-- A computation that cannot fail. -/
def Returns (result : Except ε α) : Prop := Meets (fun _ => True) (fun _ => False) result

theorem returns_iff {result : Except ε α} : Returns result ↔ ∃ value, result = .ok value := by
  cases result with
  | error fault => exact ⟨False.elim, by rintro ⟨value, equal⟩; cases equal⟩
  | ok value => exact ⟨fun _ => ⟨value, rfl⟩, fun _ => trivial⟩

theorem Returns.pure (value : α) : Returns (.ok value : Except ε α) := trivial

theorem Returns.bind {first : Except ε α} {rest : α → Except ε β} (held : Returns first)
    (then_ : ∀ value, Returns (rest value)) : Returns (first >>= rest) :=
  Meets.bind held fun value _ => then_ value

/-- What holds with enough fuel holds with one more than that. -/
theorem eventually_succ {p : Nat → Prop} (enough : ∀ᶠ fuel in atTop, p (fuel + 1)) : ∀ᶠ fuel in atTop, p fuel := by
  obtain ⟨bound, all⟩ := Filter.eventually_atTop.mp enough
  refine Filter.eventually_atTop.mpr ⟨bound + 1, ?_⟩
  intro fuel above
  obtain ⟨more, rfl⟩ := Nat.exists_eq_add_of_le above
  have held : p (bound + more + 1) := all (bound + more) (Nat.le_add_right bound more)
  rwa [Nat.add_right_comm] at held

/-- Enough fuel for each of finitely many things is enough for all. -/
theorem eventually_all_mem {ι : Type v} {p : Nat → ι → Prop} {list : List ι} (each : ∀ i ∈ list, ∀ᶠ fuel in atTop, p fuel i) :
    ∀ᶠ fuel in atTop, ∀ i ∈ list, p fuel i :=
  (Filter.eventually_all_finite (List.finite_toSet list)).mpr each

end LtlFuzz.Logic

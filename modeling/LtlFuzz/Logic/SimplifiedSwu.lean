import Mathlib.NumberTheory.LegendreSymbol.QuadraticChar.Basic
import Mathlib.Tactic.FieldSimp

/-! The simplified map of a finite field into a curve `y ^ 2 = x ^ 3 + a * x + b`. What the curve
asks for at the second of two candidates for `x` is what it asks for at the first, times the cube of
a number that is no square, so that one of the two is a square. -/

namespace LtlFuzz.Logic

universe u

section Squares

variable {F : Type u} [Field F] [Fintype F] [DecidableEq F]

theorem isSquare_mul_of_neither {x y : F} (left : ¬IsSquare x) (right : ¬IsSquare y) : IsSquare (x * y) := by
  have left_ne : x ≠ 0 := by
    rintro rfl
    exact left (IsSquare.zero)
  have right_ne : y ≠ 0 := by
    rintro rfl
    exact right (IsSquare.zero)
  rw [← quadraticChar_one_iff_isSquare (mul_ne_zero left_ne right_ne), map_mul, quadraticChar_neg_one_iff_not_isSquare.mpr left,
    quadraticChar_neg_one_iff_not_isSquare.mpr right]
  rfl

end Squares

section Candidates

/-- What the square of `y` has to be. -/
def curveCubic {R : Type u} [CommRing R] (a b x : R) : R := x ^ 3 + a * x + b

def swuDenominator {R : Type u} [CommRing R] (z u : R) : R := z ^ 2 * u ^ 4 + z * u ^ 2

variable {F : Type u} [Field F] [DecidableEq F]

def swuFirst (z a b u : F) : F :=
  if swuDenominator z u = 0 then b * (z * a)⁻¹ else -(b * (1 + (swuDenominator z u)⁻¹) * a⁻¹)

def swuSecond (z a b u : F) : F := z * u ^ 2 * swuFirst z a b u

variable {z a b u : F}

theorem curveCubic_second (a_ne : a ≠ 0) (regular : swuDenominator z u ≠ 0) :
    curveCubic a b (swuSecond z a b u) = (z * u ^ 2) ^ 3 * curveCubic a b (swuFirst z a b u) := by
  have first : swuFirst z a b u = -(b * (1 + (swuDenominator z u)⁻¹) * a⁻¹) := if_neg regular
  have split_ : swuDenominator z u = z * u ^ 2 * (z * u ^ 2 + 1) := by
    rw [swuDenominator]
    ring
  rw [swuSecond, first]
  rw [split_] at regular ⊢
  generalize z * u ^ 2 = w at regular ⊢
  obtain ⟨w_ne, next_ne⟩ := mul_ne_zero_iff.mp regular
  rw [curveCubic, curveCubic]
  field_simp
  ring

/-- The selected candidate: the first if it will do. -/
noncomputable def swuSelected (z a b u : F) : F :=
  open Classical in if IsSquare (curveCubic a b (swuFirst z a b u)) then swuFirst z a b u else swuSecond z a b u

variable [Fintype F]

/-- The candidates cannot both fail. -/
theorem swu_isSquare (a_ne : a ≠ 0) (nonsquare : ¬IsSquare z) (exceptional : IsSquare (curveCubic a b (b * (z * a)⁻¹))) :
    IsSquare (curveCubic a b (swuSelected z a b u)) := by
  rw [swuSelected]
  split
  · next square => exact square
  · next first =>
    have regular : swuDenominator z u ≠ 0 := by
      intro zero
      rw [swuFirst, if_pos zero] at first
      exact first exceptional
    have same : curveCubic a b (swuSecond z a b u) = (z * u ^ 3) ^ 2 * (z * curveCubic a b (swuFirst z a b u)) := by
      rw [curveCubic_second a_ne regular]
      ring
    rw [same]
    exact (IsSquare.sq _).mul (isSquare_mul_of_neither nonsquare first)

end Candidates

end LtlFuzz.Logic

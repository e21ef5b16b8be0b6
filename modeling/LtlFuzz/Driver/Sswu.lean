import LtlFuzz.Logic.SimplifiedSwu
import Mathlib.NumberTheory.LegendreSymbol.Basic

/-! `SSWU` of `h2e.c`: a number is mapped to a point of a curve. The operations on big numbers are
those of OpenSSL as they are documented. -/

namespace LtlFuzz.Driver
open Logic (curveCubic swuDenominator swuFirst swuSecond swuSelected)

section BigNumbers

/-- The remainder is not negative. -/
def bnModMul (a b p : Int) : Int := a * b % p

def bnModAdd (a b p : Int) : Int := (a + b) % p

def bnModExp (a exp p : Int) : Int := a ^ exp.toNat % p

/-- The remainder has the sign of what is divided. -/
def bnMod (a p : Int) : Int := a.tmod p

def bnSetNegative (a : Int) : Int := -(a.natAbs : Int)

def bnRshift1 (a : Int) : Int := a.tdiv 2

def bnIsOdd (a : Int) : Bool := a.natAbs % 2 = 1

/-- The parameters of a curve, as `EC_GROUP_get_curve` gives them. -/
structure CurveParameters where
  p : Nat
  a : Nat
  b : Nat

structure EcPoint where
  x : Int
  y : Int
  deriving DecidableEq, Repr

def CurveParameters.isOnCurve (group : CurveParameters) (point : EcPoint) : Bool :=
  point.y ^ 2 % group.p = (point.x ^ 3 + group.a * point.x + group.b) % group.p

/-- The coordinates are reduced. Those of no point of the curve are refused. -/
def CurveParameters.setAffineCoordinates (group : CurveParameters) (x y : Int) : Option EcPoint :=
  let point : EcPoint := ⟨x % group.p, y % group.p⟩
  if group.isOnCurve point then some point else none

end BigNumbers

section Mapping

def isQuadraticResidue (x p : Int) : Bool :=
  let exp := bnRshift1 (p - 1)
  let result := bnModExp x exp p
  result = 0 || result = 1

def sswuZ : Int := bnSetNegative 10

def CurveParameters.sswuM (group : CurveParameters) (u : Int) : Int :=
  let temp := bnModMul u u group.p
  let temp2 := bnModMul temp temp group.p
  let zSquared := sswuZ * sswuZ
  let m := bnModMul zSquared temp2 group.p
  let temp2 := bnModMul sswuZ temp group.p
  bnModAdd m temp2 group.p

def CurveParameters.sswuX1 (group : CurveParameters) (u : Int) : Int :=
  let m := group.sswuM u
  let t := if m ≠ 0 then bnModExp m (group.p - 2) group.p else 0
  if m = 0 then
    let temp := bnModMul sswuZ group.a group.p
    let temp := bnModExp temp (group.p - 2) group.p
    bnModMul group.b temp group.p
  else
    let t := t + 1
    let temp := bnModExp group.a (group.p - 2) group.p
    let temp := bnModMul temp t group.p
    let temp := bnModMul group.b temp group.p
    let temp := bnSetNegative temp
    bnMod temp group.p

def CurveParameters.sswuGx (group : CurveParameters) (x : Int) : Int :=
  let temp := bnModMul x x group.p
  let temp := bnModMul temp x group.p
  let temp2 := bnModMul group.a x group.p
  let gx := bnModAdd temp temp2 group.p
  bnModAdd gx group.b group.p

def CurveParameters.sswuX2 (group : CurveParameters) (u x1 : Int) : Int :=
  let temp := bnModMul u u group.p
  let temp := bnModMul temp sswuZ group.p
  bnModMul temp x1 group.p

/-- A coordinate, and what the square of the other one has to be. -/
structure Selection where
  x : Int
  v : Int

def CurveParameters.sswuSelect (group : CurveParameters) (u : Int) : Selection :=
  let x1 := group.sswuX1 u
  let gx1 := group.sswuGx x1
  let x2 := group.sswuX2 u x1
  let gx2 := group.sswuGx x2
  if isQuadraticResidue gx1 group.p then ⟨x1, gx1⟩ else ⟨x2, gx2⟩

/-- Of `y` and its negative, the one whose lowest bit is that of `u`. -/
def matchLsb (p u y : Int) : Int := if bnIsOdd u != bnIsOdd y then p - y else y

/-- `SSWU`. The point is the result if it returns 1. -/
def sswu (modSqrt : Int → Int → Option Int) (u : Int) (group : CurveParameters) : Option EcPoint := do
  let selected := group.sswuSelect u
  let y ← modSqrt selected.v group.p
  let y := matchLsb group.p u y
  let point ← group.setAffineCoordinates selected.x y
  if group.isOnCurve point then some point else none

end Mapping

section Residues

variable {p : Nat}

@[simp] theorem bnModMul_cast (a b : Int) : (bnModMul a b p : ZMod p) = a * b := by
  rw [bnModMul, ZMod.intCast_mod, Int.cast_mul]

@[simp] theorem bnModAdd_cast (a b : Int) : (bnModAdd a b p : ZMod p) = a + b := by
  rw [bnModAdd, ZMod.intCast_mod, Int.cast_add]

@[simp] theorem bnModExp_cast (a exp : Int) : (bnModExp a exp p : ZMod p) = a ^ exp.toNat := by
  rw [bnModExp, ZMod.intCast_mod, Int.cast_pow]

@[simp] theorem bnMod_cast (a : Int) : (bnMod a p : ZMod p) = a := by
  have whole := congrArg (Int.cast : Int → ZMod p) (Int.tmod_add_mul_tdiv a p)
  rw [Int.cast_add, Int.cast_mul, Int.cast_natCast, ZMod.natCast_self, zero_mul, add_zero] at whole
  exact whole

theorem bnSetNegative_of_nonneg {a : Int} (nonneg : 0 ≤ a) : bnSetNegative a = -a := by
  rw [bnSetNegative, Int.natAbs_of_nonneg nonneg]

@[simp] theorem sswuZ_cast : (sswuZ : ZMod p) = -10 := by
  rw [sswuZ, bnSetNegative_of_nonneg (by decide)]
  norm_num

variable [prime : Fact p.Prime]

theorem bnModMul_nonneg (a b : Int) : 0 ≤ bnModMul a b p :=
  Int.emod_nonneg _ (by exact_mod_cast prime.out.ne_zero)

theorem pow_inverse (large : 3 < p) (a : ZMod p) : a ^ ((p : Int) - 2).toNat = a⁻¹ := by
  have exponent : ((p : Int) - 2).toNat = p - 2 := by omega
  rw [exponent]
  by_cases zero : a = 0
  · rw [zero, zero_pow (by omega), inv_zero]
  · refine eq_inv_of_mul_eq_one_left ?_
    have power := ZMod.pow_card_sub_one_eq_one zero
    rw [← pow_succ]
    rwa [show p - 2 + 1 = p - 1 by omega]

theorem emod_eq_iff {a small : Int} (nonneg : 0 ≤ small) (less : small < p) : a % p = small ↔ (a : ZMod p) = small := by
  rw [ZMod.intCast_eq_intCast_iff', Int.emod_eq_of_lt nonneg less]

theorem isQuadraticResidue_iff (large : 3 < p) (x : Int) : isQuadraticResidue x p = true ↔ IsSquare (x : ZMod p) := by
  have odd := prime.out.eq_two_or_odd.resolve_left (by omega)
  have half : (bnRshift1 ((p : Int) - 1)).toNat = p / 2 := by
    rw [bnRshift1, Int.tdiv_eq_ediv_of_nonneg (by omega)]
    omega
  have power : isQuadraticResidue x p = true ↔ (x : ZMod p) ^ (p / 2) = 0 ∨ (x : ZMod p) ^ (p / 2) = 1 := by
    rw [isQuadraticResidue, Bool.or_eq_true, decide_eq_true_iff, decide_eq_true_iff, bnModExp, half,
      emod_eq_iff le_rfl (by omega), emod_eq_iff Int.one_nonneg (by omega), Int.cast_pow, Int.cast_zero, Int.cast_one]
  rw [power]
  by_cases zero : (x : ZMod p) = 0
  · rw [zero]
    exact iff_of_true (Or.inl (zero_pow (by omega))) IsSquare.zero
  · rw [ZMod.euler_criterion p zero]
    exact or_iff_right (pow_ne_zero _ zero)

end Residues

section Selection

variable {group : CurveParameters} [prime : Fact group.p.Prime]

theorem sswuM_cast (group : CurveParameters) (u : Int) : (group.sswuM u : ZMod group.p) = swuDenominator (-10) (u : ZMod group.p) := by
  rw [CurveParameters.sswuM, swuDenominator]
  simp only [bnModAdd_cast, bnModMul_cast, Int.cast_mul, sswuZ_cast]
  ring

theorem sswuM_eq_zero_iff (u : Int) : group.sswuM u = 0 ↔ swuDenominator (-10) (u : ZMod group.p) = 0 := by
  have reduced : group.sswuM u = group.sswuM u % group.p := (Int.emod_emod_of_dvd _ dvd_rfl).symm
  rw [← sswuM_cast, reduced, emod_eq_iff le_rfl (by exact_mod_cast prime.out.pos), ← reduced, Int.cast_zero]

theorem sswuX1_cast (large : 3 < group.p) (u : Int) :
    (group.sswuX1 u : ZMod group.p) = swuFirst (-10) (group.a : ZMod group.p) group.b u := by
  rw [CurveParameters.sswuX1, swuFirst]
  split
  · next zero =>
    rw [if_pos ((sswuM_eq_zero_iff u).mp zero)]
    simp only [bnModMul_cast, bnModExp_cast, pow_inverse large, sswuZ_cast, Int.cast_natCast]
  · next regular =>
    rw [if_neg (mt (sswuM_eq_zero_iff u).mpr regular), bnMod_cast, bnSetNegative_of_nonneg (bnModMul_nonneg _ _)]
    simp only [bnModMul_cast, bnModExp_cast, pow_inverse large, sswuM_cast, Int.cast_natCast, Int.cast_neg, Int.cast_add,
      Int.cast_one]
    ring

theorem sswuGx_cast (group : CurveParameters) (x : Int) :
    (group.sswuGx x : ZMod group.p) = curveCubic (group.a : ZMod group.p) group.b x := by
  rw [CurveParameters.sswuGx, curveCubic]
  simp only [bnModAdd_cast, bnModMul_cast, Int.cast_natCast]
  ring

theorem sswuX2_cast (large : 3 < group.p) (u : Int) :
    (group.sswuX2 u (group.sswuX1 u) : ZMod group.p) = swuSecond (-10) (group.a : ZMod group.p) group.b u := by
  rw [CurveParameters.sswuX2, swuSecond]
  simp only [bnModMul_cast, sswuZ_cast, sswuX1_cast large]
  ring

/-- The code selects what the map selects. -/
theorem sswuSelect_cast (large : 3 < group.p) (u : Int) :
    ((group.sswuSelect u).x : ZMod group.p) = swuSelected (-10) (group.a : ZMod group.p) group.b u ∧
      (group.sswuSelect u).v = group.sswuGx (group.sswuSelect u).x := by
  have same : isQuadraticResidue (group.sswuGx (group.sswuX1 u)) group.p = true ↔
      IsSquare (curveCubic (group.a : ZMod group.p) group.b (swuFirst (-10) (group.a : ZMod group.p) group.b u)) := by
    rw [isQuadraticResidue_iff large, sswuGx_cast, sswuX1_cast large]
  rw [CurveParameters.sswuSelect, swuSelected]
  split
  · next square =>
    rw [if_pos (same.mp square)]
    exact ⟨sswuX1_cast large u, rfl⟩
  · next refused =>
    rw [if_neg (mt same.mpr refused)]
    exact ⟨sswuX2_cast large u, rfl⟩

end Selection

section Points

/-- The curves that `SSWU` is made for. -/
structure CurveParameters.Suitable (group : CurveParameters) : Prop where
  prime : group.p.Prime
  large : 3 < group.p
  a_ne : (group.a : ZMod group.p) ≠ 0
  b_ne : (group.b : ZMod group.p) ≠ 0
  z_nonsquare : ¬IsSquare (-10 : ZMod group.p)
  exceptional : ∀ x : ZMod group.p, -10 * group.a * x = group.b → IsSquare (curveCubic (group.a : ZMod group.p) group.b x)
  no_root : ∀ x : ZMod group.p, curveCubic (group.a : ZMod group.p) group.b x ≠ 0

/-- `BN_mod_sqrt` finds a root of a square. -/
def FindsRoots (modSqrt : Int → Int → Option Int) (p : Nat) : Prop :=
  ∀ v : Int, 0 ≤ v → v < p → IsSquare (v : ZMod p) → ∃ y, modSqrt v p = some y ∧ 0 ≤ y ∧ y < p ∧ (y : ZMod p) ^ 2 = v

/-- The coordinates are reduced and solve the equation of the curve. -/
structure CurveParameters.OnCurve (group : CurveParameters) (point : EcPoint) : Prop where
  x_reduced : 0 ≤ point.x ∧ point.x < group.p
  y_reduced : 0 ≤ point.y ∧ point.y < group.p
  equation : (point.y : ZMod group.p) ^ 2 = curveCubic (group.a : ZMod group.p) group.b point.x

variable {group : CurveParameters}

theorem isOnCurve_iff (group : CurveParameters) (point : EcPoint) :
    group.isOnCurve point = true ↔ (point.y : ZMod group.p) ^ 2 = curveCubic (group.a : ZMod group.p) group.b point.x := by
  rw [CurveParameters.isOnCurve, decide_eq_true_iff, ← ZMod.intCast_eq_intCast_iff', curveCubic]
  push_cast
  rfl

theorem setAffineCoordinates_ok (positive : 0 < group.p) {x y : Int}
    (equation : (y : ZMod group.p) ^ 2 = curveCubic (group.a : ZMod group.p) group.b x) :
    group.setAffineCoordinates x y = some ⟨x % group.p, y % group.p⟩ ∧ group.OnCurve ⟨x % group.p, y % group.p⟩ := by
  have modulus : (0 : Int) < group.p := by exact_mod_cast positive
  have reduced : ((y % group.p : Int) : ZMod group.p) ^ 2 = curveCubic (group.a : ZMod group.p) group.b ((x % group.p : Int) : ZMod group.p) := by
    rw [ZMod.intCast_mod, ZMod.intCast_mod]
    exact equation
  refine ⟨if_pos ((isOnCurve_iff group _).mpr reduced), ?_, ?_, reduced⟩
  · exact ⟨Int.emod_nonneg _ modulus.ne', Int.emod_lt_of_pos _ modulus⟩
  · exact ⟨Int.emod_nonneg _ modulus.ne', Int.emod_lt_of_pos _ modulus⟩

/-- The root with the other sign has the other parity. -/
theorem matchLsb_ok {p : Nat} (odd : p % 2 = 1) (u : Int) {y : Int} (positive : 0 < y) (less : y < p) :
    0 < matchLsb p u y ∧ matchLsb p u y < p ∧ bnIsOdd (matchLsb p u y) = bnIsOdd u ∧
      (matchLsb p u y : ZMod p) ^ 2 = (y : ZMod p) ^ 2 := by
  by_cases same : bnIsOdd u = bnIsOdd y
  · have kept : matchLsb p u y = y := if_neg (by simp [same])
    rw [kept]
    exact ⟨positive, less, same.symm, rfl⟩
  · have flipped : matchLsb p u y = p - y := if_pos (by simp [same])
    rw [flipped]
    refine ⟨by omega, by omega, ?_, ?_⟩
    · simp only [bnIsOdd, decide_eq_decide] at same ⊢
      omega
    · rw [Int.cast_sub, Int.cast_natCast, ZMod.natCast_self, zero_sub, neg_sq]

private theorem sswu_some {modSqrt : Int → Int → Option Int} {u y : Int} {point : EcPoint}
    (found : modSqrt (group.sswuSelect u).v group.p = some y)
    (set_ : group.setAffineCoordinates (group.sswuSelect u).x (matchLsb group.p u y) = some point)
    (onCurve : group.isOnCurve point = true) : sswu modSqrt u group = some point := by
  rw [sswu, found]
  dsimp only [Option.bind_eq_bind, Option.bind_some]
  rw [set_]
  exact if_pos onCurve

/-- A number selects a square, and is mapped to a point of the curve whose second coordinate has the
parity of the number. -/
theorem sswu_onCurve (suitable : group.Suitable) {modSqrt : Int → Int → Option Int} (roots : FindsRoots modSqrt group.p) (u : Int) :
    IsSquare ((group.sswuSelect u).v : ZMod group.p) ∧
      ∃ point, sswu modSqrt u group = some point ∧ group.OnCurve point ∧ bnIsOdd point.y = bnIsOdd u := by
  have prime : Fact group.p.Prime := ⟨suitable.prime⟩
  obtain ⟨selected, value⟩ := sswuSelect_cast suitable.large u
  have cubic : ((group.sswuSelect u).v : ZMod group.p) = curveCubic (group.a : ZMod group.p) group.b (group.sswuSelect u).x := by
    rw [value, sswuGx_cast]
  have z_ne : (-10 : ZMod group.p) ≠ 0 := fun zero => suitable.z_nonsquare (zero ▸ IsSquare.zero)
  have square : IsSquare ((group.sswuSelect u).v : ZMod group.p) := by
    rw [cubic, selected]
    refine Logic.swu_isSquare suitable.a_ne suitable.z_nonsquare (suitable.exceptional _ ?_)
    rw [mul_comm, mul_assoc, inv_mul_cancel₀ (mul_ne_zero z_ne suitable.a_ne), mul_one]
  refine ⟨square, ?_⟩
  have modulus : (0 : Int) < group.p := by exact_mod_cast suitable.prime.pos
  have reduced : 0 ≤ (group.sswuSelect u).v ∧ (group.sswuSelect u).v < group.p := by
    rw [value]
    exact ⟨Int.emod_nonneg _ modulus.ne', Int.emod_lt_of_pos _ modulus⟩
  obtain ⟨y, found, nonneg, less, root⟩ := roots _ reduced.1 reduced.2 square
  have positive : 0 < y := by
    refine lt_of_le_of_ne nonneg ?_
    rintro rfl
    rw [cubic, Int.cast_zero, zero_pow two_ne_zero] at root
    exact suitable.no_root _ root.symm
  have odd := suitable.prime.eq_two_or_odd.resolve_left (by have large := suitable.large; omega)
  obtain ⟨above, below, parity, same⟩ := matchLsb_ok odd u positive less
  obtain ⟨set_, onCurve⟩ := setAffineCoordinates_ok suitable.prime.pos (same.trans (root.trans cubic))
  refine ⟨_, sswu_some found set_ ((isOnCurve_iff group _).mpr onCurve.equation), onCurve, ?_⟩
  rw [Int.emod_eq_of_lt above.le below]
  exact parity

def searchSqrt (v p : Int) : Option Int :=
  ((List.range p.toNat).find? fun y : Nat => ((y : Int) ^ 2 - v) % p = 0).map Int.ofNat

theorem searchSqrt_finds (p : Nat) : FindsRoots searchSqrt p := by
  intro v nonneg less square
  have positive : 0 < p := by omega
  have matches_ (y : Nat) : ((y : Int) ^ 2 - v) % p = 0 ↔ ((y : Int) : ZMod p) ^ 2 = v := by
    rw [← Int.dvd_iff_emod_eq_zero, ← ZMod.intCast_zmod_eq_zero_iff_dvd, Int.cast_sub, Int.cast_pow, sub_eq_zero]
  obtain ⟨root, same⟩ := square
  have present : ∃ y ∈ List.range p, ((y : Int) : ZMod p) ^ 2 = v := by
    have := NeZero.of_pos positive
    refine ⟨root.val, List.mem_range.mpr root.val_lt, ?_⟩
    rw [Int.cast_natCast, ZMod.natCast_zmod_val, same, sq]
  rw [searchSqrt, Int.toNat_natCast]
  cases found : (List.range p).find? fun y : Nat => ((y : Int) ^ 2 - v) % p = 0 with
  | none =>
    obtain ⟨y, listed, solves⟩ := present
    exact absurd (decide_eq_true ((matches_ y).mpr solves)) (List.find?_eq_none.mp found y listed)
  | some y =>
    have less : y < p := List.mem_range.mp (List.mem_of_find?_eq_some found)
    have solves := List.find?_some found
    exact ⟨y, rfl, Int.natCast_nonneg y, by omega, (matches_ y).mp (of_decide_eq_true solves)⟩

def smallCurve : CurveParameters := ⟨31, 1, 3⟩

theorem smallCurve_suitable : smallCurve.Suitable where
  prime := by decide
  large := by decide
  a_ne := by decide
  b_ne := by decide
  z_nonsquare := (by decide : ¬IsSquare (-10 : ZMod 31))
  exceptional := (by decide : ∀ x : ZMod 31, -10 * ((1 : Nat) : ZMod 31) * x = ((3 : Nat) : ZMod 31) →
    IsSquare (curveCubic ((1 : Nat) : ZMod 31) ((3 : Nat) : ZMod 31) x))
  no_root := (by decide : ∀ x : ZMod 31, curveCubic ((1 : Nat) : ZMod 31) ((3 : Nat) : ZMod 31) x ≠ 0)

theorem smallCurve_onCurve : IsSquare ((smallCurve.sswuSelect 11).v : ZMod 31) ∧
    ∃ point, sswu searchSqrt 11 smallCurve = some point ∧ smallCurve.OnCurve point ∧ bnIsOdd point.y = bnIsOdd 11 :=
  sswu_onCurve smallCurve_suitable (searchSqrt_finds 31) 11

/-- The first candidate for 12 has its sign. -/
example : (smallCurve.sswuSelect 12).x = -10 ∧ sswu searchSqrt 12 smallCurve = some ⟨21, 4⟩ := by decide +kernel

end Points

end LtlFuzz.Driver

import LtlFuzz.Logic.SmtTerm
import LtlFuzz.PacketGen.ComputeDeps

/-! `il_int_to_bitvector` of `ast.ml`: a number as a list of so many bits. The bound above which all bits
are set is a shifted 1, and native integers have 63 bits. -/

namespace LtlFuzz.PacketGen
open Logic (bitsToNat)

section Bits

theorem length_toBits (acc : List Bool) (len n : Nat) : (toBits acc len n).length = acc.length + len := by
  induction len generalizing acc n with
  | zero => rfl
  | succ len ih =>
    rw [toBits, ih, List.length_cons]
    omega

theorem bitsToNat_toBits (acc : List Bool) (len n : Nat) :
    bitsToNat (toBits acc len n) = n % 2 ^ len * 2 ^ acc.length + bitsToNat acc := by
  induction len generalizing acc n with
  | zero => simp [toBits, Nat.mod_one]
  | succ len ih =>
    have bit : (decide (n % 2 = 1)).toNat = n % 2 := by
      rcases Nat.mod_two_eq_zero_or_one n with even | odd
      · simp [even]
      · simp [odd]
    have digits : n % 2 ^ (len + 1) = n / 2 % 2 ^ len * 2 + n % 2 := by
      rw [Nat.pow_succ', Nat.mod_mul]
      omega
    rw [toBits, ih, bitsToNat, List.length_cons, bit, digits, Nat.pow_succ']
    ring

theorem bitsToNat_ones (len : Nat) : bitsToNat (List.replicate len true) = 2 ^ len - 1 := by
  induction len with
  | zero => rfl
  | succ len ih =>
    have positive : 0 < 2 ^ len := Nat.two_pow_pos len
    rw [List.replicate_succ, bitsToNat, ih, List.length_replicate, Nat.pow_succ]
    simp only [Bool.toNat_true]
    omega

end Bits

section Saturation

/-- `1 lsl length`, where nothing is specified for more than 63 places. -/
def shiftedOne (unspecified : Nat → Int) (length : Nat) : Int := if length ≤ 63 then wrap (2 ^ length) else unspecified length

/-- `il_int_to_bitvector`, whatever the shifts that are not specified give. -/
def ilIntToBitvectorWith (unspecified : Nat → Int) (length : Nat) (n : Int) : Expr :=
  if n ≥ shiftedOne unspecified length then .bvConst length (List.replicate length true)
  else .bvConst length (toBits [] length (n % 2 ^ 63).toNat)

/-- The evaluator of the generator takes 0 for them. -/
theorem ilIntToBitvector_eq (length : Nat) (n : Int) : ilIntToBitvector length n = ilIntToBitvectorWith (fun _ => 0) length n := by
  have bound : shiftedOne (fun _ => 0) length = wrap (2 ^ length) := by
    rw [shiftedOne]
    split
    · rfl
    · rename_i far
      obtain ⟨more, rfl⟩ := Nat.exists_eq_add_of_le (show 63 ≤ length by omega)
      rw [wrap, pow_add, mul_comm, Int.bmod_def]
      simp
  rw [ilIntToBitvector, ilIntToBitvectorWith, bound]

private theorem shiftedOne_small (unspecified : Nat → Int) {length : Nat} (small : length ≤ 61) :
    shiftedOne unspecified length = 2 ^ length := by
  have below : (2 : Int) ^ length ≤ 2 ^ 61 := pow_le_pow_right₀ (by norm_num) small
  have positive : (0 : Int) < 2 ^ length := by positivity
  rw [shiftedOne, if_pos (by omega), wrap]
  apply Int.bmod_eq_of_le
  · norm_num
    omega
  · norm_num at below ⊢
    omega

private theorem shiftedOne_word (unspecified : Nat → Int) :
    shiftedOne unspecified 62 = -2 ^ 62 ∧ shiftedOne unspecified 63 = 0 := by
  rw [shiftedOne, shiftedOne, if_pos (by norm_num), if_pos (by norm_num)]
  decide

/-- A number below the bound keeps its bits. -/
private theorem toBits_native {length n : Nat} (native : n < 2 ^ 62) (fits : n < 2 ^ length) :
    bitsToNat (toBits [] length ((n : Int) % 2 ^ 63).toNat) = n := by
  have whole : ((n : Int) % 2 ^ 63).toNat = n := by omega
  rw [whole, bitsToNat_toBits, Nat.mod_eq_of_lt fits]
  simp [bitsToNat]

/-- The list always has the length asked for. It denotes the number or, if that is too large, the
largest number of that length, as long as the bound is a native integer. -/
theorem ilIntToBitvector_saturates_iff (unspecified : Nat → Int) (length n : Nat) (native : n < 2 ^ 62) :
    ∃ bits, ilIntToBitvectorWith unspecified length n = .bvConst length bits ∧ bits.length = length ∧
      (bitsToNat bits = min n (2 ^ length - 1) ↔
        length ≤ 61 ∨ (length = 62 ∧ n = 2 ^ 62 - 1) ∨ (64 ≤ length ∧ (n : Int) < unspecified length)) := by
  have positive : 0 < 2 ^ length := Nat.two_pow_pos length
  have large : 62 ≤ length → 2 ^ 62 ≤ 2 ^ length := Nat.pow_le_pow_right (by norm_num)
  by_cases saturated : (n : Int) ≥ shiftedOne unspecified length
  · refine ⟨_, if_pos saturated, List.length_replicate, ?_⟩
    rw [bitsToNat_ones]
    by_cases small : length ≤ 61
    · rw [shiftedOne_small unspecified small] at saturated
      have above : 2 ^ length ≤ n := by exact_mod_cast saturated
      have least : min n (2 ^ length - 1) = 2 ^ length - 1 := by omega
      exact ⟨fun _ => Or.inl small, fun _ => least.symm⟩
    · have above := large (by omega)
      by_cases last : length = 62
      · subst last
        omega
      · have beyond : 64 ≤ length → ¬(n : Int) < unspecified length := by
          intro far
          rw [shiftedOne, if_neg (by omega)] at saturated
          omega
        have further : 2 ^ 63 ≤ 2 ^ length := Nat.pow_le_pow_right (by norm_num) (by omega)
        omega
  · refine ⟨_, if_neg saturated, by rw [length_toBits, List.length_nil, Nat.zero_add], ?_⟩
    have below : n < 2 ^ length := by
      by_cases small : length ≤ 61
      · rw [shiftedOne_small unspecified small] at saturated
        exact_mod_cast not_le.mp saturated
      · exact lt_of_lt_of_le native (large (by omega))
    have least : min n (2 ^ length - 1) = n := by omega
    rw [toBits_native native below, least]
    refine ⟨fun _ => ?_, fun _ => rfl⟩
    by_cases small : length ≤ 61
    · exact Or.inl small
    · obtain ⟨half, zero⟩ := shiftedOne_word unspecified
      have notHalf : length ≠ 62 := by
        rintro rfl
        omega
      have notZero : length ≠ 63 := by
        rintro rfl
        omega
      rw [shiftedOne, if_neg (by omega)] at saturated
      omega

/-- 20 does not fit in 4 bits. -/
theorem twenty_saturates : ∃ bits, ilIntToBitvectorWith (fun _ => 0) 4 (20 : Nat) = .bvConst 4 bits ∧ bits.length = 4 ∧
    (bitsToNat bits = min 20 (2 ^ 4 - 1) ↔ 4 ≤ 61 ∨ (4 = 62 ∧ 20 = 2 ^ 62 - 1) ∨ (64 ≤ 4 ∧ ((20 : Nat) : Int) < 0)) :=
  ilIntToBitvector_saturates_iff (fun _ => 0) 4 20 (by norm_num)

/-- The bound for 62 bits is negative, and 0 is taken for too large a number. -/
theorem zero_saturated : ilIntToBitvector 62 0 = .bvConst 62 (List.replicate 62 true) ∧
    bitsToNat (List.replicate 62 true) ≠ min 0 (2 ^ 62 - 1) := by
  decide +kernel

end Saturation

end LtlFuzz.PacketGen

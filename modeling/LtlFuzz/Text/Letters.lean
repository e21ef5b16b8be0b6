import Mathlib.Data.Char

/-! The case of ASCII letters, by their codes. -/

namespace LtlFuzz.Text

private theorem between_toNat (c : Char) (low high : UInt32) :
    (low ≤ c.val ∧ c.val ≤ high) ↔ (low.toNat ≤ c.toNat ∧ c.toNat ≤ high.toNat) := by
  simp only [UInt32.le_iff_toNat_le]
  exact Iff.rfl

/-- The characters of a range are moved by so many codes. -/
private theorem moved_toNat (c : Char) (shift : UInt32) {inside : Prop} [Decidable inside] {low high : Nat}
    (range : inside ↔ (low ≤ c.toNat ∧ c.toNat ≤ high)) (valid : inside → (c.val + shift).isValidChar) :
    (if here : inside then Char.mk (c.val + shift) (valid here) else c).toNat =
      if low ≤ c.toNat ∧ c.toNat ≤ high then (c.toNat + shift.toNat) % 4294967296 else c.toNat := by
  split
  next here => rw [if_pos (range.mp here)]; exact UInt32.toNat_add _ _
  next outside => rw [if_neg fun bounds => outside (range.mpr bounds)]

theorem toUpper_toNat (c : Char) :
    c.toUpper.toNat = if 97 ≤ c.toNat ∧ c.toNat ≤ 122 then c.toNat - 32 else c.toNat := by
  refine (moved_toNat c 4294967264 (between_toNat c 97 122) _).trans ?_
  split
  next inside =>
    have bounds : 97 ≤ c.toNat ∧ c.toNat ≤ 122 := inside
    rw [if_pos bounds, show UInt32.toNat 4294967264 = 4294967264 from rfl]
    omega
  next outside => rw [if_neg (show ¬(97 ≤ c.toNat ∧ c.toNat ≤ 122) from outside)]

theorem toLower_toNat (c : Char) :
    c.toLower.toNat = if 65 ≤ c.toNat ∧ c.toNat ≤ 90 then c.toNat + 32 else c.toNat := by
  refine (moved_toNat c 32 (between_toNat c 65 90) _).trans ?_
  split
  next inside =>
    have bounds : 65 ≤ c.toNat ∧ c.toNat ≤ 90 := inside
    rw [if_pos bounds, show UInt32.toNat 32 = 32 from rfl]
    omega
  next outside => rw [if_neg (show ¬(65 ≤ c.toNat ∧ c.toNat ≤ 90) from outside)]

theorem char_ext {c d : Char} (same : c.toNat = d.toNat) : c = d :=
  Char.ext (UInt32.toNat_inj.mp same)

end LtlFuzz.Text

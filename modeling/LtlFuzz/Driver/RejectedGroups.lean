import LtlFuzz.Driver.Containers

/-! Two readings of a list of rejected groups. `check_rejected_groups` looks at every byte, and
`map_request_to_predicates` at numbers of 16 bits, the lower byte first. -/

namespace LtlFuzz.Driver

section Bytes

def supportedByte (byte : UInt8) : Bool := byte = 19 || byte = 20 || byte = 21

def supportedGroup (groupId : UInt16) : Bool := groupId = 19 || groupId = 20 || groupId = 21

/-- No byte from `i` on, of as many as remain, is the number of a supported group. -/
def noSupportedByte (bytes : List UInt8) (i : Nat) : Nat → Except Fault Bool
  | 0 => .ok true
  | remaining + 1 => do
    let byte ← readByte bytes i
    if supportedByte byte then .ok false else noSupportedByte bytes (i + 1) remaining

def checkRejectedGroups (frame : FuzzerFrame) : Except Fault Bool :=
  if !(frame.containers .rejectedGroups).present then .ok true
  else
    match (frame.containers .rejectedGroups).pointer with
    | none => .ok true
    | some bytes => noSupportedByte bytes 0 (frame.containers .rejectedGroups).len

theorem noSupportedByte_ok {bytes : List UInt8} {i remaining : Nat} (inside : i + remaining ≤ bytes.length) :
    noSupportedByte bytes i remaining = .ok !((slice bytes i remaining).any supportedByte) := by
  induction remaining generalizing i with
  | zero => simp [noSupportedByte, slice]
  | succ remaining ih =>
    have head : i < bytes.length := by omega
    have tail : slice bytes i (remaining + 1) = bytes[i] :: slice bytes (i + 1) remaining := by
      rw [slice, List.drop_eq_getElem_cons head, List.take_succ_cons]
      rfl
    rw [noSupportedByte, readByte_ok head, tail, List.any_cons]
    dsimp only [bind, Except.bind]
    cases supportedByte bytes[i] with
    | true => rfl
    | false => exact ih (by omega)

theorem checkRejectedGroups_whole {frame : FuzzerFrame} {bytes : List UInt8}
    (stored : frame.containers .rejectedGroups = ⟨some bytes, bytes.length, true⟩) :
    checkRejectedGroups frame = .ok !(bytes.any supportedByte) := by
  have all := @noSupportedByte_ok bytes 0 bytes.length (by omega)
  rw [slice, List.drop_zero, List.take_length] at all
  rw [checkRejectedGroups, stored]
  exact all

end Bytes

section Numbers

/-- The number at an offset. The last byte may stand alone. -/
def groupNumber (groups : Copy) (i : Nat) : Except Fault UInt16 :=
  if i + 1 < groups.len then do
    let high ← readPointer groups.pointer (i + 1)
    .ok (high.toUInt16 <<< 8 ||| (← readPointer groups.pointer i).toUInt16)
  else do
    .ok (← readPointer groups.pointer i).toUInt16

/-- The loop of `map_request_to_predicates`, for at most as many turns as the fuel says. -/
def scanGroups (groups : Copy) : Nat → Nat → Except Fault Bool
  | 0, i => if i < groups.len then .error .diverges else .ok false
  | fuel + 1, i =>
    if i < groups.len then do
      if supportedGroup (← groupNumber groups i) then .ok true else scanGroups groups fuel (i + 2)
    else .ok false

def groupNumbers : List UInt8 → List UInt16
  | [] => []
  | [low] => [low.toUInt16]
  | low :: high :: rest => (high.toUInt16 <<< 8 ||| low.toUInt16) :: groupNumbers rest

theorem scanGroups_ok {bytes : List UInt8} {fuel i : Nat} (enough : bytes.length ≤ i + fuel) :
    scanGroups ⟨some bytes, bytes.length, true⟩ fuel i = .ok ((groupNumbers (bytes.drop i)).any supportedGroup) := by
  induction fuel generalizing i with
  | zero =>
    rw [scanGroups, if_neg (by simpa using enough), List.drop_eq_nil_iff.mpr (by omega)]
    rfl
  | succ fuel ih =>
    rw [scanGroups]
    split
    · next more =>
      have more : i < bytes.length := more
      rw [List.drop_eq_getElem_cons more, groupNumber]
      by_cases pair : i + 1 < bytes.length
      · rw [if_pos (by exact pair), readPointer, readPointer, readByte_ok pair, readByte_ok more, List.drop_eq_getElem_cons pair]
        rw [groupNumbers, List.any_cons]
        dsimp only [bind, Except.bind]
        cases supportedGroup (bytes[i + 1].toUInt16 <<< 8 ||| bytes[i].toUInt16) with
        | true => rfl
        | false => exact ih (by omega)
      · rw [if_neg (by exact pair), readPointer, readByte_ok more, List.drop_eq_nil_iff.mpr (by omega)]
        rw [groupNumbers, List.any_cons]
        dsimp only [bind, Except.bind]
        cases supportedGroup bytes[i].toUInt16 with
        | true => rfl
        | false =>
          rw [if_neg Bool.false_ne_true, ih (by omega), List.drop_eq_nil_iff.mpr (by omega)]
          rfl
    · next last =>
      rw [List.drop_eq_nil_iff.mpr (by simpa using last)]
      rfl

end Numbers

section Comparison

/-- Some byte at an even position is the number of a supported group and the byte behind it, if
there is one, is 0. -/
def StandsAlone (bytes : List UInt8) : Prop :=
  ∃ i low, bytes[2 * i]? = some low ∧ supportedByte low = true ∧ ∀ high, bytes[2 * i + 1]? = some high → high = 0

theorem supportedGroup_alone (low : UInt8) : supportedGroup low.toUInt16 = supportedByte low := by
  revert low
  decide +kernel

theorem supportedGroup_pair (low high : UInt8) :
    supportedGroup (high.toUInt16 <<< 8 ||| low.toUInt16) = (supportedByte low && decide (high = 0)) := by
  have value : (high.toUInt16 <<< 8 ||| low.toUInt16).toNat = 256 * high.toNat + low.toNat := by
    have bounded := low.toNat_lt
    have shifted : (high.toUInt16 <<< 8).toNat = high.toNat * 2 ^ 8 := by
      have small := high.toNat_lt
      simp only [UInt16.toNat_shiftLeft, UInt8.toNat_toUInt16, Nat.shiftLeft_eq]
      exact Nat.mod_eq_of_lt (by simp; omega)
    rw [UInt16.toNat_or, shifted, UInt8.toNat_toUInt16, mul_comm, ← Nat.two_pow_add_eq_or_of_lt (by omega)]
  have small := low.toNat_lt
  rw [Bool.eq_iff_iff]
  simp only [supportedGroup, supportedByte, Bool.or_eq_true, Bool.and_eq_true, decide_eq_true_eq, ← UInt16.toNat_inj, ← UInt8.toNat_inj, value]
  simp only [UInt16.reduceToNat, UInt8.reduceToNat]
  omega

theorem standsAlone_cons (low high : UInt8) (rest : List UInt8) :
    StandsAlone (low :: high :: rest) ↔ (supportedByte low = true ∧ high = 0) ∨ StandsAlone rest := by
  constructor
  · rintro ⟨i, byte, found, good, last⟩
    cases i with
    | zero =>
      cases found
      exact Or.inl ⟨good, last high rfl⟩
    | succ i => exact Or.inr ⟨i, byte, found, good, last⟩
  · rintro (⟨good, zero⟩ | ⟨i, byte, found, good, last⟩)
    · refine ⟨0, low, rfl, good, ?_⟩
      intro other same
      cases same
      exact zero
    · exact ⟨i + 1, byte, found, good, last⟩

/-- The numbers that are supported are the bytes that stand alone. -/
theorem groupNumbers_any (bytes : List UInt8) : (groupNumbers bytes).any supportedGroup = true ↔ StandsAlone bytes := by
  induction bytes using groupNumbers.induct with
  | case1 =>
    refine iff_of_false Bool.false_ne_true ?_
    rintro ⟨i, low, found, _⟩
    cases found
  | case2 low =>
    rw [groupNumbers, List.any_cons, List.any_nil, Bool.or_false, supportedGroup_alone]
    refine ⟨fun good => ⟨0, low, rfl, good, fun _ wrong => (nomatch wrong)⟩, ?_⟩
    rintro ⟨i, byte, found, good, _⟩
    cases i with
    | zero =>
      cases found
      exact good
    | succ i => cases found
  | case3 low high rest ih =>
    rw [groupNumbers, List.any_cons, Bool.or_eq_true, supportedGroup_pair, ih, standsAlone_cons]
    simp

theorem StandsAlone.any {bytes : List UInt8} (alone : StandsAlone bytes) : bytes.any supportedByte = true := by
  obtain ⟨i, low, found, good, _⟩ := alone
  exact List.any_eq_true.mpr ⟨low, List.mem_of_getElem? found, good⟩

end Comparison

end LtlFuzz.Driver

import Mathlib.Algebra.Order.Ring.Int
import Mathlib.Data.List.TakeWhile

/-! The number conversions of the C and C++ standard libraries on decimal text, and
the faults a process can die of. Conversions read the longest numeric prefix after
leading blanks; the checked ones fail when there is none or when it is out of range. -/

namespace LtlFuzz.Text

inductive Fault where
  | assertion
  | invalidArgument
  | outOfRange
  deriving DecidableEq, Repr

def isSpace (c : Char) : Bool :=
  c == ' ' || c == '\t' || c == '\n' || c == '\x0b' || c == '\x0c' || c == '\r'

/-- The optional sign of a number and the digits that follow it. -/
def splitSign : List Char → Bool × List Char
  | '-' :: rest => (true, rest)
  | '+' :: rest => (false, rest)
  | rest => (false, rest)

/-- The sign and the magnitude of the numeric prefix, if there is one. -/
def scanNumber (text : List Char) : Option (Bool × Nat) :=
  let (negative, rest) := splitSign (text.dropWhile isSpace)
  let digits := rest.takeWhile Char.isDigit
  if digits = [] then none else some (negative, Nat.ofDigitChars 10 digits 0)

def signed : Bool × Nat → Int
  | (true, magnitude) => - (magnitude : Int)
  | (false, magnitude) => magnitude

/-- `std::stoi` (`bits = 32`) and `std::stol` (`bits = 64`). -/
def checkedInt (bits : Nat) (text : String) : Except Fault Int :=
  match scanNumber text.toList with
  | none => .error .invalidArgument
  | some number =>
    let value := signed number
    if -(2 ^ (bits - 1) : Int) ≤ value ∧ value < 2 ^ (bits - 1) then .ok value else .error .outOfRange

def stoi : String → Except Fault Int := checkedInt 32

def stol : String → Except Fault Int := checkedInt 64

/-- `std::stoul` accepts a minus sign and negates modulo the word size. -/
def stoul (text : String) : Except Fault Nat :=
  match scanNumber text.toList with
  | none => .error .invalidArgument
  | some (negative, magnitude) =>
    if magnitude < 2 ^ 64 then .ok (if negative then (2 ^ 64 - magnitude) % 2 ^ 64 else magnitude)
    else .error .outOfRange

/-- The value an `int` holds after an out-of-range assignment wraps it. -/
def wrapInt (value : Int) : Int := (value + 2 ^ 31) % 2 ^ 32 - 2 ^ 31

/-- `atoi` as glibc has it: `strtol`, which saturates, then a cast to `int`. -/
def atoi (text : List Char) : Int :=
  match scanNumber text with
  | none => 0
  | some number => wrapInt (max (-(2 ^ 63)) (min (signed number) (2 ^ 63 - 1)))

/-- The number a text of digits stands for, with or without a minus sign before them. -/
def numeralValue : List Char → Int
  | '-' :: digits => - (Nat.ofDigitChars 10 digits 0 : Int)
  | digits => Nat.ofDigitChars 10 digits 0

/-- A numeral an `int` can hold. A minus sign alone is none. -/
def FitsInt (text : List Char) : Prop :=
  text ≠ ['-'] ∧ -(2 ^ 31) ≤ numeralValue text ∧ numeralValue text < 2 ^ 31

theorem digit_not_space {c : Char} (digit : c.isDigit) : isSpace c = false := by
  have bounds := Char.isDigit_iff_toNat.mp digit
  simp only [isSpace, Bool.or_eq_false_iff, beq_eq_false_iff_ne]
  refine ⟨⟨⟨⟨⟨?_, ?_⟩, ?_⟩, ?_⟩, ?_⟩, ?_⟩ <;> (rintro rfl; simp at bounds)

private theorem digit_not_sign {c : Char} (digit : c.isDigit) : c ≠ '-' ∧ c ≠ '+' := by
  have bounds := Char.isDigit_iff_toNat.mp digit
  constructor <;> (rintro rfl; simp at bounds)

private theorem scanNumber_digits {digits : List Char} (some_digit : digits ≠ [])
    (all_digits : ∀ c ∈ digits, c.isDigit) :
    scanNumber digits = some (false, Nat.ofDigitChars 10 digits 0) := by
  obtain ⟨c, rest, rfl⟩ := List.exists_cons_of_ne_nil some_digit
  have digit := all_digits c List.mem_cons_self
  have plain : splitSign (c :: rest) = (false, c :: rest) := by
    have other := digit_not_sign digit
    unfold splitSign
    split <;> simp_all
  have taken : (c :: rest).takeWhile Char.isDigit = c :: rest := List.takeWhile_eq_self_iff.mpr all_digits
  simp [scanNumber, digit_not_space digit, plain, taken]

private theorem scanNumber_negative {digits : List Char} (some_digit : digits ≠ [])
    (all_digits : ∀ c ∈ digits, c.isDigit) :
    scanNumber ('-' :: digits) = some (true, Nat.ofDigitChars 10 digits 0) := by
  have taken : digits.takeWhile Char.isDigit = digits := List.takeWhile_eq_self_iff.mpr all_digits
  have blank : isSpace '-' = false := by decide
  simp [scanNumber, blank, splitSign, taken, some_digit]

private theorem checkedInt_ok_iff {bits : Nat} {text : String} {number : Bool × Nat}
    (found : scanNumber text.toList = some number) :
    (∃ value, checkedInt bits text = .ok value) ↔
      -(2 ^ (bits - 1) : Int) ≤ signed number ∧ signed number < 2 ^ (bits - 1) := by
  by_cases inRange : -(2 ^ (bits - 1) : Int) ≤ signed number ∧ signed number < 2 ^ (bits - 1)
  · simp [checkedInt, found, inRange]
  · simp [checkedInt, found, inRange]

/-- `std::stoi` on digits, with or without a minus sign before them. -/
theorem stoi_ok_iff_fitsInt {text : String} (some_char : text.toList ≠ [])
    (format : (∃ rest, text.toList = '-' :: rest ∧ ∀ c ∈ rest, c.isDigit) ∨ ∀ c ∈ text.toList, c.isDigit) :
    (∃ value, stoi text = .ok value) ↔ FitsInt text.toList := by
  rcases format with ⟨rest, same, digits⟩ | digits
  · rw [same]
    cases rest with
    | nil =>
      have blank : isSpace '-' = false := by decide
      simp [FitsInt, stoi, checkedInt, same, scanNumber, blank, splitSign]
    | cons c rest =>
      have found := scanNumber_negative (List.cons_ne_nil c rest) digits
      rw [← same] at found
      rw [stoi, checkedInt_ok_iff found]
      simp [FitsInt, numeralValue, signed]
  · obtain ⟨c, rest, same⟩ := List.exists_cons_of_ne_nil some_char
    rw [stoi, checkedInt_ok_iff (scanNumber_digits some_char digits)]
    have digit := digits c (by rw [same]; exact List.mem_cons_self)
    have plain : c ≠ '-' := (digit_not_sign digit).1
    have valued : numeralValue text.toList = (Nat.ofDigitChars 10 text.toList 0 : Int) := by
      rw [same]
      unfold numeralValue
      split
      next rest' equal => exact absurd (List.cons.inj equal).1 plain
      next => rfl
    have unsigned : text.toList ≠ ['-'] := by
      rw [same]
      intro equal
      exact plain (List.cons.inj equal).1
    simp [FitsInt, valued, signed, unsigned]

private theorem toDigits_digit (n : Nat) : ∀ c ∈ Nat.toDigits 10 n, c.isDigit :=
  fun _ member => Nat.isDigit_of_mem_toDigits (by decide) (by decide) member

theorem toList_toString_negSucc (n : Nat) :
    (toString (Int.negSucc n)).toList = '-' :: Nat.toDigits 10 (n + 1) := by
  change (Int.repr (Int.negSucc n)).toList = _
  simp [Int.repr]

theorem toList_toString_ofNat (n : Nat) : (toString (Int.ofNat n)).toList = Nat.toDigits 10 n := by
  change (Int.repr (Int.ofNat n)).toList = _
  simp [Int.repr]

/-- Printing a number and scanning it back gives the number. -/
theorem scanNumber_toString (value : Int) :
    (scanNumber (toString value).toList).map signed = some value := by
  cases value with
  | ofNat n =>
    rw [toList_toString_ofNat, scanNumber_digits Nat.toDigits_ne_nil (toDigits_digit n)]
    simp [signed]
  | negSucc n =>
    rw [toList_toString_negSucc, scanNumber_negative Nat.toDigits_ne_nil (toDigits_digit _)]
    simp [signed, Int.negSucc_eq]

theorem toString_int_injective {left right : Int} (same : toString left = toString right) : left = right := by
  have read := scanNumber_toString left
  rw [same, scanNumber_toString] at read
  exact (Option.some.inj read).symm

theorem toList_toString_nat (n : Nat) : (toString n).toList = Nat.toDigits 10 n :=
  Nat.toList_repr

theorem toString_nat_digits (n : Nat) : ∀ c ∈ (toString n).toList, c.isDigit := by
  rw [toList_toString_nat]
  exact toDigits_digit n

theorem stoul_toString {n : Nat} (bound : n < 2 ^ 64) : stoul (toString n) = .ok n := by
  have found := scanNumber_digits Nat.toDigits_ne_nil (toDigits_digit n)
  rw [← toList_toString_nat] at found
  simp only [stoul, found]
  simpa using bound

theorem stoi_toString {value : Int} (low : -(2 ^ 31) ≤ value) (high : value < 2 ^ 31) :
    stoi (toString value) = .ok value := by
  obtain ⟨number, found, same⟩ := Option.map_eq_some_iff.mp (scanNumber_toString value)
  simp only [stoi, checkedInt, found, same]
  exact if_pos ⟨low, high⟩

/-- A printed number is a text of digits, with a minus sign before them if it is negative. -/
theorem toString_int_format (value : Int) :
    (toString value).toList ≠ [] ∧
      ((∃ rest, (toString value).toList = '-' :: rest ∧ ∀ c ∈ rest, c.isDigit) ∨
        ∀ c ∈ (toString value).toList, c.isDigit) := by
  cases value with
  | ofNat n =>
    rw [toList_toString_ofNat]
    exact ⟨Nat.toDigits_ne_nil, Or.inr (toDigits_digit n)⟩
  | negSucc n =>
    rw [toList_toString_negSucc]
    exact ⟨List.cons_ne_nil _ _, Or.inl ⟨_, rfl, toDigits_digit _⟩⟩

/-- What has the form of a numeral is scanned to its value. -/
private theorem scanNumber_numeral {text : List Char} (some_char : text ≠ []) (number : text ≠ ['-'])
    (format : (∃ rest, text = '-' :: rest ∧ ∀ c ∈ rest, c.isDigit) ∨ ∀ c ∈ text, c.isDigit) :
    (scanNumber text).map signed = some (numeralValue text) := by
  rcases format with ⟨rest, rfl, digits⟩ | digits
  · have some_digit : rest ≠ [] := by
      rintro rfl
      exact number rfl
    simp [scanNumber_negative some_digit digits, signed, numeralValue]
  · obtain ⟨c, rest, rfl⟩ := List.exists_cons_of_ne_nil some_char
    have plain : c ≠ '-' := (digit_not_sign (digits c List.mem_cons_self)).1
    rw [scanNumber_digits some_char digits]
    unfold numeralValue
    split
    next rest' equal => exact absurd (List.cons.inj equal).1 plain
    next => rfl

/-- A numeral that fits converts to its value. -/
theorem stoi_of_fitsInt {text : String} (some_char : text.toList ≠ [])
    (format : (∃ rest, text.toList = '-' :: rest ∧ ∀ c ∈ rest, c.isDigit) ∨ ∀ c ∈ text.toList, c.isDigit)
    (fits : FitsInt text.toList) : stoi text = .ok (numeralValue text.toList) := by
  obtain ⟨number, low, high⟩ := fits
  obtain ⟨found, scanned, same⟩ := Option.map_eq_some_iff.mp (scanNumber_numeral some_char number format)
  simp only [stoi, checkedInt, scanned, same]
  exact if_pos ⟨low, high⟩

theorem numeralValue_toString (value : Int) : numeralValue (toString value).toList = value := by
  obtain ⟨nonempty, format⟩ := toString_int_format value
  have number : (toString value).toList ≠ ['-'] := by
    intro lone
    have read := scanNumber_toString value
    rw [lone] at read
    cases read
  have read := scanNumber_numeral nonempty number format
  rw [scanNumber_toString] at read
  exact (Option.some.inj read).symm

theorem toString_int_solid (value : Int) : ∀ c ∈ (toString value).toList, isSpace c = false := by
  rcases (toString_int_format value).2 with ⟨rest, same, digits⟩ | digits
  · rw [same]
    exact List.forall_mem_cons.mpr ⟨by decide, fun c member => digit_not_space (digits c member)⟩
  · exact fun c member => digit_not_space (digits c member)

theorem fitsInt_toString {value : Int} (low : -(2 ^ 31) ≤ value) (high : value < 2 ^ 31) :
    FitsInt (toString value).toList := by
  obtain ⟨nonempty, format⟩ := toString_int_format value
  exact (stoi_ok_iff_fitsInt nonempty format).mp ⟨value, stoi_toString low high⟩

theorem length_toString_int_le {value : Int} {bits : Nat} (low : -(2 ^ bits) ≤ value) (high : value < 2 ^ bits) :
    (toString value).toList.length ≤ bits + 2 := by
  have wider : 2 ^ bits < 10 ^ (bits + 1) := by
    calc 2 ^ bits ≤ 10 ^ bits := Nat.pow_le_pow_left (by decide) bits
      _ < 10 ^ (bits + 1) := Nat.pow_lt_pow_right (by decide) (Nat.lt_succ_self bits)
  have power : ((2 ^ bits : Nat) : Int) = 2 ^ bits := by simp
  cases value with
  | ofNat n =>
    rw [Int.ofNat_eq_natCast] at high
    have small : n < 10 ^ (bits + 1) := by omega
    have digits := (Nat.length_toDigits_le_iff (by decide) (Nat.succ_pos bits)).mpr small
    rw [toList_toString_ofNat]
    omega
  | negSucc n =>
    have small : n + 1 < 10 ^ (bits + 1) := by omega
    have digits := (Nat.length_toDigits_le_iff (by decide) (Nat.succ_pos bits)).mpr small
    rw [toList_toString_negSucc, List.length_cons]
    omega

end LtlFuzz.Text

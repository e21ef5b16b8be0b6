import LtlFuzz.Logic.Novelty
import Mathlib.Tactic.IntervalCases

/-! The coverage map of `afl-fuzz.c`. A map is an array of bytes that the fuzzer goes through by
words of eight; what it computes is about the bytes and bits. The words are those of the 64-bit
build, with the first byte lowest. -/

namespace LtlFuzz.Fuzzer
open Logic

/-- `MAP_SIZE >> 3` words, of any number. -/
structure Bitmap (size : Nat) where
  words : List (BitVec 64)
  length_eq : words.length = size
  deriving DecidableEq

section Words

def byteOf (word : BitVec 64) (k : Nat) : BitVec 8 := word.extractLsb' (8 * k) 8

/-- A byte of `current` is set where the same byte of `virgin` is untouched. -/
def pristineByte (current virgin : BitVec 64) : Bool :=
  (List.range 8).any fun k => byteOf current k != 0 && byteOf virgin k == 0xff

/-- One word of `has_new_bits`: the result so far and the word of the virgin map. -/
def hasNewBitsWord (ret : Nat) (current virgin : BitVec 64) : Nat × BitVec 64 :=
  if current ≠ 0 ∧ current &&& virgin ≠ 0 then
    (if ret < 2 then if pristineByte current virgin then 2 else 1 else ret, virgin &&& ~~~current)
  else (ret, virgin)

def hasNewBitsLoop : Nat → List (BitVec 64) → List (BitVec 64) → Nat × List (BitVec 64)
  | ret, current :: trace, virgin :: map =>
    let (ret, word) := hasNewBitsWord ret current virgin
    let (ret, rest) := hasNewBitsLoop ret trace map
    (ret, word :: rest)
  | ret, _, map => (ret, map)

theorem getLsbD_byteOf (word : BitVec 64) (k b : Nat) : (byteOf word k).getLsbD b = (decide (b < 8) && word.getLsbD (8 * k + b)) := by
  simp [byteOf]

theorem word_ne_zero_iff {width : Nat} (word : BitVec width) : word ≠ 0 ↔ ∃ b < width, word.getLsbD b = true := by
  constructor
  · intro different
    by_contra none_
    apply different
    apply BitVec.eq_of_getLsbD_eq
    intro b below
    have unset : word.getLsbD b ≠ true := fun set => none_ ⟨b, below, set⟩
    simpa using unset
  · rintro ⟨b, _, set⟩ rfl
    simp at set

theorem byteOf_ne_zero_iff (word : BitVec 64) (k : Nat) : byteOf word k ≠ 0 ↔ ∃ b < 8, word.getLsbD (8 * k + b) = true := by
  rw [word_ne_zero_iff]
  apply exists_congr
  intro b
  rw [getLsbD_byteOf]
  grind

theorem byteOf_eq_ones_iff (word : BitVec 64) (k : Nat) : byteOf word k = 0xff ↔ ∀ b < 8, word.getLsbD (8 * k + b) = true := by
  rw [show (0xff : BitVec 8) = BitVec.allOnes 8 from rfl]
  constructor
  · intro ones b below
    have bit := getLsbD_byteOf word k b
    rw [ones, BitVec.getLsbD_allOnes] at bit
    simpa [below] using bit.symm
  · intro all
    apply BitVec.eq_of_getLsbD_eq
    intro b below
    simp only [getLsbD_byteOf, all b below, BitVec.getLsbD_allOnes, below, decide_true, Bool.and_self]

theorem pristineByte_iff (current virgin : BitVec 64) : pristineByte current virgin = true ↔
    ∃ k < 8, (∃ b < 8, current.getLsbD (8 * k + b) = true) ∧ ∀ b < 8, virgin.getLsbD (8 * k + b) = true := by
  simp only [pristineByte, List.any_eq_true, List.mem_range, Bool.and_eq_true, bne_iff_ne, beq_iff_eq, byteOf_ne_zero_iff,
    byteOf_eq_ones_iff]

theorem touches_iff (current virgin : BitVec 64) :
    current &&& virgin ≠ 0 ↔ ∃ b < 64, current.getLsbD b = true ∧ virgin.getLsbD b = true := by
  simp only [word_ne_zero_iff, BitVec.getLsbD_and, Bool.and_eq_true]

end Words

section Maps

/-- Bits are counted through all words, so that the byte of a bit is an eighth of it. -/
def bit (words : List (BitVec 64)) (i : Nat) : Bool := (words.getD (i / 64) 0).getLsbD (i % 64)

def setBits (words : List (BitVec 64)) : Set Nat := {i | bit words i = true}

/-- The map has a bit left exactly for what has not been met. -/
def Virgin (met : Set Nat) (virgin : List (BitVec 64)) : Prop := ∀ i < 64 * virgin.length, bit virgin i = true ↔ i ∉ met

variable {trace virgin : List (BitVec 64)} {met : Set Nat}

theorem bit_of_word {words : List (BitVec 64)} {j : Nat} {word : BitVec 64} (here : words[j]? = some word) {b : Nat} (below : b < 64) :
    bit words (64 * j + b) = word.getLsbD b := by
  rw [bit, show (64 * j + b) / 64 = j by omega, show (64 * j + b) % 64 = b by omega, List.getD_eq_getElem?_getD, here,
    Option.getD_some]

theorem word_of_bit {words : List (BitVec 64)} {i : Nat} (set : bit words i = true) :
    ∃ word, words[i / 64]? = some word ∧ word.getLsbD (i % 64) = true := by
  rw [bit, List.getD_eq_getElem?_getD] at set
  cases here : words[i / 64]? with
  | none => simp [here] at set
  | some word => exact ⟨word, rfl, by simpa [here] using set⟩

theorem Virgin.at_word (left : Virgin met virgin) {j : Nat} {word : BitVec 64} (here : virgin[j]? = some word) {b : Nat}
    (below : b < 64) : word.getLsbD b = true ↔ 64 * j + b ∉ met := by
  obtain ⟨inside, _⟩ := List.getElem?_eq_some_iff.mp here
  rw [← bit_of_word here below]
  exact left _ (by omega)

theorem hasNewBitsLoop_map (ret : Nat) (same : trace.length = virgin.length) :
    (hasNewBitsLoop ret trace virgin).2 = List.zipWith (fun current word => word &&& ~~~current) trace virgin := by
  induction trace generalizing ret virgin with
  | nil =>
    cases virgin with
    | nil => rfl
    | cons => cases same
  | cons current trace ih =>
    cases virgin with
    | nil => cases same
    | cons word virgin =>
      have rest := ih (hasNewBitsWord ret current word).1 (Nat.succ.inj same)
      have word' : (hasNewBitsWord ret current word).2 = word &&& ~~~current := by
        unfold hasNewBitsWord
        split
        next => rfl
        next untouched =>
          -- A word that is skipped has nothing to clear.
          apply BitVec.eq_of_getLsbD_eq
          intro b below
          have clear : current &&& word = 0 := by
            by_contra touched
            exact untouched ⟨by rintro rfl; simp at touched, touched⟩
          have none_ : (current.getLsbD b && word.getLsbD b) = false := by
            rw [← BitVec.getLsbD_and, clear]
            simp
          rw [BitVec.getLsbD_and, BitVec.getLsbD_not]
          cases set : current.getLsbD b with
          | false => simp [below]
          | true =>
            rw [set, Bool.true_and] at none_
            simp [none_]
      simp only [hasNewBitsLoop, List.zipWith_cons_cons, rest, word']

theorem hasNewBitsLoop_ret {ret : Nat} (bound : ret ≤ 2) :
    (hasNewBitsLoop ret trace virgin).1 =
      if ret = 2 ∨ ∃ pair ∈ trace.zip virgin, pristineByte pair.1 pair.2 = true then 2
      else if ret = 1 ∨ ∃ pair ∈ trace.zip virgin, pair.1 &&& pair.2 ≠ 0 then 1 else 0 := by
  induction trace generalizing ret virgin with
  | nil =>
    simp only [hasNewBitsLoop, List.zip_nil_left, List.not_mem_nil, false_and, exists_false, or_false]
    grind
  | cons current trace ih =>
    cases virgin with
    | nil =>
      simp only [hasNewBitsLoop, List.zip_nil_right, List.not_mem_nil, false_and, exists_false, or_false]
      grind
    | cons word virgin =>
      have touched : pristineByte current word = true → current &&& word ≠ 0 := by
        intro pristine
        obtain ⟨k, small, ⟨b, below, set⟩, all⟩ := (pristineByte_iff _ _).mp pristine
        exact (touches_iff _ _).mpr ⟨8 * k + b, by omega, set, all b below⟩
      have nonzero : current &&& word ≠ 0 → current ≠ 0 := by
        rintro touched rfl
        simp at touched
      have first : (hasNewBitsWord ret current word).1 =
          if ret = 2 ∨ pristineByte current word = true then 2 else if ret = 1 ∨ current &&& word ≠ 0 then 1 else 0 := by
        unfold hasNewBitsWord
        grind
      have small : (hasNewBitsWord ret current word).1 ≤ 2 := by
        rw [first]
        grind
      have rest := @ih virgin _ small
      simp only [hasNewBitsLoop, List.zip_cons_cons, List.mem_cons, exists_eq_or_imp, rest]
      grind

theorem touches_met (same : trace.length = virgin.length) (left : Virgin met virgin) :
    (∃ pair ∈ trace.zip virgin, pair.1 &&& pair.2 ≠ 0) ↔ ∃ x ∈ setBits trace, x ∉ met := by
  constructor
  · rintro ⟨⟨current, word⟩, member, touched⟩
    obtain ⟨j, here⟩ := List.mem_iff_getElem?.mp member
    obtain ⟨first, second⟩ := List.getElem?_zip_eq_some.mp here
    obtain ⟨b, below, set, untouched⟩ := (touches_iff _ _).mp touched
    exact ⟨64 * j + b, (bit_of_word first below).trans set, (left.at_word second below).mp untouched⟩
  · rintro ⟨x, set, missing⟩
    obtain ⟨current, first, here⟩ := word_of_bit set
    obtain ⟨inside, _⟩ := List.getElem?_eq_some_iff.mp first
    have second : virgin[x / 64]? = some virgin[x / 64] := List.getElem?_eq_getElem (same ▸ inside)
    refine ⟨(current, virgin[x / 64]), List.mem_iff_getElem?.mpr ⟨x / 64, List.getElem?_zip_eq_some.mpr ⟨first, second⟩⟩, ?_⟩
    refine (touches_iff _ _).mpr ⟨x % 64, Nat.mod_lt _ (by omega), here, ?_⟩
    apply (left.at_word second (Nat.mod_lt _ (by omega))).mpr
    rwa [Nat.div_add_mod]

theorem pristine_met (same : trace.length = virgin.length) (left : Virgin met virgin) :
    (∃ pair ∈ trace.zip virgin, pristineByte pair.1 pair.2 = true) ↔ ∃ x ∈ setBits trace, ∀ y ∈ met, y / 8 ≠ x / 8 := by
  simp only [pristineByte_iff]
  constructor
  · rintro ⟨⟨current, word⟩, member, k, small, ⟨b, below, set⟩, all⟩
    obtain ⟨j, here⟩ := List.mem_iff_getElem?.mp member
    obtain ⟨first, second⟩ := List.getElem?_zip_eq_some.mp here
    refine ⟨64 * j + (8 * k + b), (bit_of_word first (by omega)).trans set, ?_⟩
    intro y known cell
    have untouched := (left.at_word second (by omega)).mp (all (y % 8) (by omega))
    exact untouched (by rwa [show 64 * j + (8 * k + y % 8) = y by omega])
  · rintro ⟨x, set, apart⟩
    obtain ⟨current, first, here⟩ := word_of_bit set
    obtain ⟨inside, _⟩ := List.getElem?_eq_some_iff.mp first
    have second : virgin[x / 64]? = some virgin[x / 64] := List.getElem?_eq_getElem (same ▸ inside)
    refine ⟨(current, virgin[x / 64]), List.mem_iff_getElem?.mpr ⟨x / 64, List.getElem?_zip_eq_some.mpr ⟨first, second⟩⟩,
      x % 64 / 8, by omega, ⟨x % 8, by omega, ?_⟩, ?_⟩
    · rwa [show 8 * (x % 64 / 8) + x % 8 = x % 64 by omega]
    · intro b below
      apply (left.at_word second (by omega)).mpr
      intro known
      exact apart _ known (by omega)

theorem hasNewBitsLoop_novelty (same : trace.length = virgin.length) (left : Virgin met virgin) :
    (hasNewBitsLoop 0 trace virgin).1 = novelty (· / 8) met (setBits trace) ∧
      Virgin (met ∪ setBits trace) (hasNewBitsLoop 0 trace virgin).2 := by
  constructor
  · rw [hasNewBitsLoop_ret (Nat.zero_le 2), novelty]
    have pristine := pristine_met same left
    have touched := touches_met same left
    by_cases two : ∃ x ∈ setBits trace, ∀ y ∈ met, y / 8 ≠ x / 8
    · rw [if_pos two, if_pos (Or.inr (pristine.mpr two))]
    · rw [if_neg two, if_neg (not_or.mpr ⟨by decide, mt pristine.mp two⟩)]
      by_cases one : ∃ x ∈ setBits trace, x ∉ met
      · rw [if_pos one, if_pos (Or.inr (touched.mpr one))]
      · rw [if_neg one, if_neg (not_or.mpr ⟨by decide, mt touched.mp one⟩)]
  · rw [hasNewBitsLoop_map 0 same]
    intro i inside
    rw [List.length_zipWith, ← same, Nat.min_self] at inside
    have below : i / 64 < trace.length := by omega
    obtain ⟨current, first⟩ : ∃ current, (trace)[i / 64]? = some current := ⟨_, List.getElem?_eq_getElem below⟩
    have second : virgin[i / 64]? = some virgin[i / 64] := List.getElem?_eq_getElem (same ▸ below)
    have small : i % 64 < 64 := Nat.mod_lt _ (by omega)
    have hit : bit trace i = current.getLsbD (i % 64) := by rw [← bit_of_word first small, Nat.div_add_mod]
    have met_iff := left.at_word second small
    rw [Nat.div_add_mod] at met_iff
    have cleared : bit (List.zipWith (fun current word => word &&& ~~~current) trace virgin) i =
        (virgin[i / 64] &&& ~~~current).getLsbD (i % 64) := by
      have third : (List.zipWith (fun current word => word &&& ~~~current) trace virgin)[i / 64]? =
          some (virgin[i / 64] &&& ~~~current) := by
        simp [List.getElem?_zipWith, first, second]
      rw [← bit_of_word third small, Nat.div_add_mod]
    rw [cleared, BitVec.getLsbD_and, BitVec.getLsbD_not, Set.mem_union, not_or, Bool.and_eq_true, met_iff, setBits,
      Set.mem_ofPred_eq, hit]
    simp [small]

end Maps

def hasNewBits {size : Nat} (trace virgin : Bitmap size) : Nat × Bitmap size :=
  let result := hasNewBitsLoop 0 trace.words virgin.words
  (result.1, ⟨result.2, by
    rw [hasNewBitsLoop_map 0 (trace.length_eq.trans virgin.length_eq.symm), List.length_zipWith, trace.length_eq, virgin.length_eq,
      Nat.min_self]⟩)

namespace Bitmap

variable {size : Nat}

def bits (map : Bitmap size) : Set Nat := setBits map.words

def untouched : Bitmap size := ⟨List.replicate size (BitVec.allOnes 64), List.length_replicate⟩

/-- A map in static memory that nothing was written to. -/
def zero : Bitmap size := ⟨List.replicate size 0, List.length_replicate⟩

def LeftAfter (virgin : Bitmap size) (met : Set Nat) : Prop := Virgin met virgin.words

/-- No trace is new to it. -/
theorem zero_left : (zero : Bitmap size).LeftAfter Set.univ := by
  intro i inside
  have blank : ((List.replicate size (0 : BitVec 64)).getD (i / 64) 0) = 0 := by
    rw [List.getD_eq_getElem?_getD, List.getElem?_replicate]
    split <;> rfl
  rw [zero, bit, blank]
  simp

theorem untouched_left : (untouched : Bitmap size).LeftAfter ∅ := by
  intro i inside
  rw [untouched, List.length_replicate] at inside
  have here : (List.replicate size (BitVec.allOnes 64))[i / 64]? = some (BitVec.allOnes 64) := by
    rw [List.getElem?_replicate, if_pos (by omega)]
  have set := bit_of_word here (Nat.mod_lt i (by omega))
  rw [Nat.div_add_mod, BitVec.getLsbD_allOnes] at set
  rw [untouched, set]
  simp [Nat.mod_lt]

end Bitmap

theorem hasNewBits_novelty {size : Nat} {met : Set Nat} (trace : Bitmap size) {virgin : Bitmap size} (left : virgin.LeftAfter met) :
    (hasNewBits trace virgin).1 = novelty (· / 8) met trace.bits ∧ (hasNewBits trace virgin).2.LeftAfter (met ∪ trace.bits) :=
  hasNewBitsLoop_novelty (trace.length_eq.trans virgin.length_eq.symm) left

section Classes

def countClassLookup8 (count : BitVec 8) : BitVec 8 :=
  if count = 0 then 0
  else if count = 1 then 1
  else if count = 2 then 2
  else if count = 3 then 4
  else if count ≤ 7 then 8
  else if count ≤ 15 then 16
  else if count ≤ 31 then 32
  else if count ≤ 127 then 64
  else 128

/-- `init_count_class16`, whose loops write the table in the order of its indices. -/
def countClassLookup16 : List (BitVec 16) :=
  (List.range 256).flatMap fun b1 => (List.range 256).map fun b2 =>
    (countClassLookup8 (BitVec.ofNat 8 b1)).setWidth 16 <<< 8 ||| (countClassLookup8 (BitVec.ofNat 8 b2)).setWidth 16

def simplifyLookup (count : BitVec 8) : BitVec 8 := if count = 0 then 1 else 128

def halfOf (word : BitVec 64) (j : Nat) : BitVec 16 := word.extractLsb' (16 * j) 16

/-- One word of `classify_counts`, through the table for two bytes. -/
def classifyWord (word : BitVec 64) : BitVec 64 :=
  let class16 (j : Nat) : BitVec 16 := countClassLookup16.getD (halfOf word j).toNat 0
  if word ≠ 0 then class16 3 ++ class16 2 ++ class16 1 ++ class16 0 else word

def simplifyWord (word : BitVec 64) : BitVec 64 :=
  let simple (k : Nat) : BitVec 8 := simplifyLookup (byteOf word k)
  if word ≠ 0 then simple 7 ++ simple 6 ++ simple 5 ++ simple 4 ++ simple 3 ++ simple 2 ++ simple 1 ++ simple 0
  else 0x0101010101010101

private theorem flatMap_range (m k : Nat) {α : Type} (f : Nat → Nat → α) :
    (List.range m).flatMap (fun a => (List.range k).map (f a)) = (List.range (m * k)).map fun i => f (i / k) (i % k) := by
  induction m with
  | zero => simp
  | succ m ih =>
    rw [List.range_succ, List.flatMap_append, ih, Nat.succ_mul, List.range_add, List.map_append, List.map_map]
    congr 1
    simp only [List.flatMap_cons, List.flatMap_nil, List.append_nil]
    apply List.map_congr_left
    intro i inside
    have below := List.mem_range.mp inside
    simp only [Function.comp_apply]
    rw [Nat.mul_comm, Nat.mul_add_div (by omega), Nat.div_eq_of_lt below, Nat.mul_add_mod, Nat.mod_eq_of_lt below, Nat.add_zero]

theorem countClassLookup16_getD (half : BitVec 16) :
    countClassLookup16.getD half.toNat 0 =
      countClassLookup8 (half.extractLsb' 8 8) ++ countClassLookup8 (half.extractLsb' 0 8) := by
  have below := half.isLt
  have high : BitVec.ofNat 8 (half.toNat / 256) = half.extractLsb' 8 8 := by
    apply BitVec.eq_of_toNat_eq
    simp [Nat.shiftRight_eq_div_pow]
  have low : BitVec.ofNat 8 (half.toNat % 256) = half.extractLsb' 0 8 := by
    apply BitVec.eq_of_toNat_eq
    simp
  rw [countClassLookup16, flatMap_range, List.getD_eq_getElem?_getD, List.getElem?_map, List.getElem?_range (by omega), Option.map_some,
    Option.getD_some, high, low]
  apply BitVec.eq_of_getLsbD_eq
  intro i inside
  simp only [BitVec.getLsbD_or, BitVec.getLsbD_shiftLeft, BitVec.getLsbD_setWidth, BitVec.getLsbD_append]
  by_cases first : i < 8
  · simp [first, inside]
  · have small : i - 8 < 16 := by omega
    have none_ : (countClassLookup8 (half.extractLsb' 0 8)).getLsbD i = false := BitVec.getLsbD_of_ge _ _ (by omega)
    simp [first, inside, small, none_]

theorem halfOf_byteOf (word : BitVec 64) (j : Nat) :
    (halfOf word j).extractLsb' 0 8 = byteOf word (2 * j) ∧ (halfOf word j).extractLsb' 8 8 = byteOf word (2 * j + 1) := by
  constructor
  · apply BitVec.eq_of_getLsbD_eq
    intro b below
    have small : b < 16 := by omega
    simp [halfOf, byteOf, below, small, show 2 * j = j * 2 by omega, show 16 * j = 8 * (j * 2) by omega]
  · apply BitVec.eq_of_getLsbD_eq
    intro b below
    have small : 8 + b < 16 := by omega
    simp [halfOf, byteOf, below, small]
    congr 1
    omega

theorem byteOf_pairs (byte : Nat → BitVec 8) {k : Nat} (small : k < 8) :
    byteOf ((byte 7 ++ byte 6) ++ (byte 5 ++ byte 4) ++ (byte 3 ++ byte 2) ++ (byte 1 ++ byte 0)) k = byte k := by
  apply BitVec.eq_of_getLsbD_eq
  intro i below
  rw [getLsbD_byteOf, decide_eq_true below, Bool.true_and]
  simp only [BitVec.getLsbD_append]
  interval_cases k <;> grind

theorem byteOf_bytes (byte : Nat → BitVec 8) {k : Nat} (small : k < 8) :
    byteOf (byte 7 ++ byte 6 ++ byte 5 ++ byte 4 ++ byte 3 ++ byte 2 ++ byte 1 ++ byte 0) k = byte k := by
  apply BitVec.eq_of_getLsbD_eq
  intro i below
  rw [getLsbD_byteOf, decide_eq_true below, Bool.true_and]
  simp only [BitVec.getLsbD_append]
  interval_cases k <;> grind

theorem byteOf_classifyWord (word : BitVec 64) {k : Nat} (small : k < 8) :
    byteOf (classifyWord word) k = countClassLookup8 (byteOf word k) := by
  unfold classifyWord
  split
  next =>
    simp only [countClassLookup16_getD, halfOf_byteOf]
    exact byteOf_pairs (fun k => countClassLookup8 (byteOf word k)) small
  next zero =>
    obtain rfl : word = 0 := by simpa using zero
    simp [byteOf, countClassLookup8]

theorem byteOf_simplifyWord (word : BitVec 64) {k : Nat} (small : k < 8) :
    byteOf (simplifyWord word) k = simplifyLookup (byteOf word k) := by
  unfold simplifyWord
  split
  next => exact byteOf_bytes (fun k => simplifyLookup (byteOf word k)) small
  next zero =>
    obtain rfl : word = 0 := by simpa using zero
    interval_cases k <;> decide

end Classes

namespace Bitmap

variable {size : Nat}

def classifyCounts (map : Bitmap size) : Bitmap size := ⟨map.words.map classifyWord, by rw [List.length_map, map.length_eq]⟩

def simplifyTrace (map : Bitmap size) : Bitmap size := ⟨map.words.map simplifyWord, by rw [List.length_map, map.length_eq]⟩

def byte (map : Bitmap size) (i : Nat) : BitVec 8 := byteOf (map.words.getD (i / 8) 0) (i % 8)

def hits (map : Bitmap size) : Set Nat := {i | map.byte i ≠ 0}

theorem byte_classifyCounts (map : Bitmap size) {i : Nat} (inside : i < 8 * size) :
    map.classifyCounts.byte i = countClassLookup8 (map.byte i) := by
  have below : i / 8 < map.words.length := by rw [map.length_eq]; omega
  rw [byte, byte, classifyCounts, List.getD_eq_getElem?_getD, List.getD_eq_getElem?_getD, List.getElem?_map,
    List.getElem?_eq_getElem below, Option.map_some, Option.getD_some, Option.getD_some]
  exact byteOf_classifyWord _ (Nat.mod_lt _ (by omega))

theorem byte_simplifyTrace (map : Bitmap size) {i : Nat} (inside : i < 8 * size) :
    map.simplifyTrace.byte i = simplifyLookup (map.byte i) := by
  have below : i / 8 < map.words.length := by rw [map.length_eq]; omega
  rw [byte, byte, simplifyTrace, List.getD_eq_getElem?_getD, List.getD_eq_getElem?_getD, List.getElem?_map,
    List.getElem?_eq_getElem below, Option.map_some, Option.getD_some, Option.getD_some]
  exact byteOf_simplifyWord _ (Nat.mod_lt _ (by omega))

theorem mem_bits_iff (map : Bitmap size) (x : Nat) : x ∈ map.bits ↔ (map.byte (x / 8)).getLsbD (x % 8) = true := by
  rw [bits, setBits, Set.mem_ofPred_eq, bit, byte, getLsbD_byteOf, show x / 64 = x / 8 / 8 by omega,
    show x % 64 = 8 * (x / 8 % 8) + x % 8 by omega]
  simp [Nat.mod_lt]

theorem byte_outside (map : Bitmap size) {i : Nat} (outside : 8 * size ≤ i) : map.byte i = 0 := by
  have past : map.words.length ≤ i / 8 := by rw [map.length_eq]; omega
  rw [byte, List.getD_eq_getElem?_getD, List.getElem?_eq_none past]
  simp [byteOf]

theorem countClassLookup8_eq_zero_iff (count : BitVec 8) : countClassLookup8 count = 0 ↔ count = 0 := by
  unfold countClassLookup8
  split_ifs with zero <;> simp_all

/-- The classes of counts say nothing new about which tuples were hit. -/
theorem hits_classifyCounts (map : Bitmap size) : map.classifyCounts.hits = map.hits := by
  ext i
  rw [hits, hits, Set.mem_ofPred_eq, Set.mem_ofPred_eq]
  by_cases inside : i < 8 * size
  · rw [byte_classifyCounts map inside, ne_eq, countClassLookup8_eq_zero_iff]
  · rw [byte_outside _ (Nat.le_of_not_lt inside), byte_outside _ (Nat.le_of_not_lt inside)]

theorem eq_of_byte_eq {first second : Bitmap size} (same : ∀ i < 8 * size, first.byte i = second.byte i) : first = second := by
  obtain ⟨words, length⟩ := first
  obtain ⟨others, length'⟩ := second
  rw [Bitmap.mk.injEq]
  apply List.ext_getElem (length.trans length'.symm)
  intro j inside inside'
  apply BitVec.eq_of_getLsbD_eq
  intro b below
  have bytes := same (8 * j + b / 8) (by omega)
  rw [byte, byte, show (8 * j + b / 8) / 8 = j by omega, show (8 * j + b / 8) % 8 = b / 8 by omega] at bytes
  have bits := congrArg (fun byte => byte.getLsbD (b % 8)) bytes
  simp only [getLsbD_byteOf, show 8 * (b / 8) + b % 8 = b by omega, show b % 8 < 8 by omega, decide_true, Bool.true_and] at bits
  simpa [List.getD_eq_getElem?_getD, inside, inside'] using bits

/-- Both loops go by whole words, and `classify_counts` by a table for two bytes: each comes to its lookup in every byte.
The classes keep which tuples were hit, and a trace simplifies as well before them as after. -/
theorem classifyCounts_simplifyTrace (map : Bitmap size) :
    (∀ i < 8 * size, map.classifyCounts.byte i = countClassLookup8 (map.byte i)) ∧
    (∀ i < 8 * size, map.simplifyTrace.byte i = simplifyLookup (map.byte i)) ∧
    map.classifyCounts.hits = map.hits ∧ map.classifyCounts.simplifyTrace = map.simplifyTrace := by
  refine ⟨fun i => byte_classifyCounts map, fun i => byte_simplifyTrace map, hits_classifyCounts map, ?_⟩
  apply eq_of_byte_eq
  intro i inside
  rw [byte_simplifyTrace _ inside, byte_simplifyTrace _ inside, byte_classifyCounts _ inside]
  simp only [simplifyLookup, countClassLookup8_eq_zero_iff]

theorem mem_bits_simplifyTrace (map : Bitmap size) (x : Nat) :
    x ∈ map.simplifyTrace.bits ↔ x / 8 < 8 * size ∧ (x % 8 = 7 ∧ x / 8 ∈ map.hits ∨ x % 8 = 0 ∧ x / 8 ∉ map.hits) := by
  rw [mem_bits_iff, hits, Set.mem_ofPred_eq]
  by_cases inside : x / 8 < 8 * size
  · rw [byte_simplifyTrace map inside, simplifyLookup]
    have small : x % 8 < 8 := Nat.mod_lt _ (by omega)
    generalize x % 8 = b at small
    split
    next zero => interval_cases b <;> simp [zero, inside]
    next hit =>
      have hit' : map.byte (x / 8) ≠ 0#8 := hit
      interval_cases b <;> simp [hit', inside]
  · simp [byte_outside _ (Nat.le_of_not_lt inside), inside]

/-- What makes a simplified trace new is one tuple that was hit now and in no trace before, or missed now and in no trace
before. -/
theorem novelty_simplifyTrace (earlier : List (Bitmap size)) (trace : Bitmap size) :
    novelty (· / 8) (features (fun other : Bitmap size => other.simplifyTrace.bits) earlier) trace.simplifyTrace.bits ≠ 0 ↔
      ∃ i < 8 * size, ∀ other ∈ earlier, (i ∈ other.hits ↔ i ∉ trace.hits) := by
  rw [ne_eq, novelty_eq_zero_iff, Set.not_subset]
  constructor
  · rintro ⟨x, member, missing⟩
    obtain ⟨inside, status⟩ := (mem_bits_simplifyTrace trace x).mp member
    refine ⟨x / 8, inside, fun other known => ?_⟩
    have apart : x ∉ other.simplifyTrace.bits := fun met => missing ⟨other, known, met⟩
    rw [mem_bits_simplifyTrace] at apart
    grind
  · rintro ⟨i, inside, apart⟩
    by_cases hit : i ∈ trace.hits
    · refine ⟨8 * i + 7, (mem_bits_simplifyTrace _ _).mpr ?_, ?_⟩
      · rw [show (8 * i + 7) / 8 = i by omega]
        exact ⟨inside, Or.inl ⟨by omega, hit⟩⟩
      · rintro ⟨other, member, met⟩
        rw [mem_bits_simplifyTrace, show (8 * i + 7) / 8 = i by omega] at met
        have := apart other member
        grind
    · refine ⟨8 * i, (mem_bits_simplifyTrace _ _).mpr ?_, ?_⟩
      · rw [show 8 * i / 8 = i by omega]
        exact ⟨inside, Or.inr ⟨by omega, hit⟩⟩
      · rintro ⟨other, member, met⟩
        rw [mem_bits_simplifyTrace, show 8 * i / 8 = i by omega] at met
        have := apart other member
        grind

end Bitmap

section Runs

variable {size : Nat}

def hasNewBitsRun (virgin : Bitmap size) : List (Bitmap size) → List Nat × Bitmap size
  | [] => ([], virgin)
  | trace :: traces =>
    let (ret, virgin) := hasNewBits trace virgin
    let (rets, virgin) := hasNewBitsRun virgin traces
    (ret :: rets, virgin)

def newTraces (virgin : Bitmap size) (traces : List (Bitmap size)) : List (Bitmap size) :=
  ((traces.zip (hasNewBitsRun virgin traces).1).filter fun call => call.2 != 0).map Prod.fst

theorem newTraces_kept {virgin : Bitmap size} {met : Set Nat} (left : virgin.LeftAfter met) (traces : List (Bitmap size)) :
    newTraces virgin traces = kept (· / 8) Bitmap.bits met traces ∧
      (hasNewBitsRun virgin traces).2.LeftAfter (met ∪ features Bitmap.bits traces) := by
  induction traces generalizing virgin met with
  | nil => simpa [newTraces, hasNewBitsRun, kept] using left
  | cons trace traces ih =>
    obtain ⟨value, left'⟩ := hasNewBits_novelty trace left
    obtain ⟨same, after⟩ := ih left'
    constructor
    · rw [kept, ← value, ← same]
      by_cases old : (hasNewBits trace virgin).1 = 0
      · have known : trace.bits ⊆ met := novelty_eq_zero_iff.mp (value.symm.trans old)
        have still : met ∪ trace.bits = met := Set.union_eq_self_of_subset_right known
        rw [still] at same
        rw [if_pos old, ← same]
        simp [newTraces, hasNewBitsRun, old]
      · rw [if_neg old]
        simp [newTraces, hasNewBitsRun, old]
    · rw [features_cons, ← Set.union_assoc]
      exact after

theorem hasNewBitsRun_rets {virgin : Bitmap size} {met : Set Nat} (left : virgin.LeftAfter met) (earlier : List (Bitmap size))
    (trace : Bitmap size) (later : List (Bitmap size)) :
    (hasNewBitsRun virgin (earlier ++ trace :: later)).1[earlier.length]? =
      some (novelty (· / 8) (met ∪ features Bitmap.bits earlier) trace.bits) := by
  induction earlier generalizing virgin met with
  | nil => simp [hasNewBitsRun, (hasNewBits_novelty trace left).1]
  | cons first earlier ih =>
    have rest := ih (hasNewBits_novelty first left).2
    rw [Set.union_assoc] at rest
    simpa [hasNewBitsRun] using rest

/-- Each call on a map that begins untouched says what its trace is to all traces before it; the traces called new have
among them every bit of all traces, and are no more than these bits are. -/
theorem hasNewBits_run (traces : List (Bitmap size)) :
    (∀ earlier trace later, traces = earlier ++ trace :: later →
      (hasNewBitsRun Bitmap.untouched traces).1[earlier.length]? =
        some (novelty (· / 8) (features Bitmap.bits earlier) trace.bits)) ∧
    (hasNewBitsRun Bitmap.untouched traces).2.LeftAfter (features Bitmap.bits traces) ∧
    features Bitmap.bits (newTraces Bitmap.untouched traces) = features Bitmap.bits traces ∧
    (newTraces Bitmap.untouched traces).length ≤ (features Bitmap.bits traces).ncard := by
  obtain ⟨same, after⟩ := newTraces_kept Bitmap.untouched_left traces
  rw [Set.empty_union] at after
  refine ⟨?_, after, ?_, ?_⟩
  · rintro earlier trace later rfl
    have ret := hasNewBitsRun_rets Bitmap.untouched_left earlier trace later
    rwa [Set.empty_union] at ret
  · rw [same]
    simpa using features_kept (· / 8) Bitmap.bits ∅ traces
  · have finite : (features Bitmap.bits traces).Finite := by
      apply (Finset.range (64 * size)).finite_toSet.subset
      rintro x ⟨trace, _, set⟩
      rw [Bitmap.mem_bits_iff] at set
      rw [Finset.coe_range, Set.mem_Iio]
      by_contra outside
      rw [Bitmap.byte_outside _ (by omega)] at set
      simp at set
    have few := length_kept (· / 8) ∅ _ finite
    rwa [← same, Set.sdiff_empty] at few

end Runs

end LtlFuzz.Fuzzer

import LtlFuzz.Driver.KeyAgreement
import LtlFuzz.Logic.Blocks

/-! How many bytes the key derivation functions write, and which: `kdf_length` of `looping.c`
and `HKDF_Expand` of `h2e.c`, over any keyed hash. -/

namespace LtlFuzz.Driver
open Logic (concat Begins begins_concat concat_fewer concat_succ length_concat take_concat)

variable (mac : Mac)

section Kdf

/-- The block of a counter, which starts at one. -/
def kdfBlock (data label context : List UInt8) (length i : Nat) : List UInt8 :=
  mac.hmac256 (data.take 32) (shortBytes (i + 1) ++ label ++ context ++ shortBytes length)

def bytesOf (bits : Nat) : Nat := (bits + 7) / 8

/-- As many bytes are written as were asked for, and they are those the blocks begin with. -/
structure KdfExact (data label context : List UInt8) (length : Nat) : Prop where
  size : (kdfLength mac data label context length).length = bytesOf length
  bytes : Begins (kdfBlock mac data label context length) (kdfLength mac data label context length)

variable {mac} {data label context : List UInt8} {length : Nat}

theorem kdfLength_eq_concat (other : length ≠ 28 ∧ length ≠ 224) :
    kdfLength mac data label context length = concat (kdfBlock mac data label context length) ((length + 255) / 256) := by
  have sha256 : ¬ (length = 224 ∨ length = 28) := by omega
  unfold kdfLength concat
  congr 1
  funext i
  rw [kdfRound, if_neg sha256, kdfBlock]

/-- Whole blocks are written, however few bits of the last one are asked for. -/
theorem length_kdfLength (other : length ≠ 28 ∧ length ≠ 224) :
    (kdfLength mac data label context length).length = (length + 255) / 256 * 32 := by
  rw [kdfLength_eq_concat other]
  exact length_concat (fun i => mac.length256 _ _) _

/-- `kdf_length` writes what it is asked for exactly when the last block is asked for up to
its last byte. -/
theorem kdfLength_exact_iff (mac : Mac) (data label context : List UInt8) (length : Nat)
    (other : length ≠ 28 ∧ length ≠ 224) :
    KdfExact mac data label context length ↔ length % 256 = 0 ∨ 248 < length % 256 := by
  have size : (kdfLength mac data label context length).length = bytesOf length ↔ length % 256 = 0 ∨ 248 < length % 256 := by
    rw [length_kdfLength other, bytesOf]
    omega
  refine ⟨fun exact_ => size.mp exact_.size, fun whole => ⟨size.mpr whole, ?_⟩⟩
  rw [kdfLength_eq_concat other]
  exact begins_concat _

def ptkSize : Nat := 48

/-- The key `generate_ptk` derives, before it is stored. The smaller address and the smaller
nonce come first. -/
def generatePtk (mac : Mac) (pmk stationMac ourMac nonce apNonce : List UInt8) : List UInt8 :=
  let hashMacs := if ourMac < stationMac then ourMac ++ stationMac else stationMac ++ ourMac
  let hashNonces := if nonce < apNonce then nonce ++ apNonce else apNonce ++ nonce
  kdfLength mac pmk (asciiBytes "Pairwise key expansion") (hashMacs ++ hashNonces) 384

/-- Every pairwise key is written 16 bytes past the end of its buffer. -/
theorem generatePtk_overruns (mac : Mac) (pmk stationMac ourMac nonce apNonce : List UInt8) :
    (generatePtk mac pmk stationMac ourMac nonce apNonce).length = ptkSize + 16 :=
  length_kdfLength (by decide)

theorem pairwiseKey_inexact :
    bytesOf 384 = ptkSize ∧
      (generatePtk sumMac (List.replicate 32 1) (List.replicate 6 2) (List.replicate 6 3) (List.replicate 32 4)
        (List.replicate 32 5)).length = 64 ∧
      ¬ KdfExact sumMac (List.replicate 32 1) (asciiBytes "Pairwise key expansion")
        (List.replicate 6 2 ++ List.replicate 6 3 ++ List.replicate 32 4 ++ List.replicate 32 5) 384 := by
  refine ⟨rfl, length_kdfLength (by decide), fun exact_ => ?_⟩
  have size := exact_.size
  rw [length_kdfLength (by decide)] at size
  cases size

theorem masterKey_exact :
    KdfExact sumMac (List.replicate 32 1) (asciiBytes "SAE KCK and PMK") (List.replicate 32 2) 512 ↔
      512 % 256 = 0 ∨ 248 < 512 % 256 :=
  kdfLength_exact_iff sumMac (List.replicate 32 1) (asciiBytes "SAE KCK and PMK") (List.replicate 32 2) 512
    (by decide)

end Kdf

section Hkdf

/-- Which calls of the library succeed: the allocation of the context, and all of a round. -/
structure HmacLibrary where
  ctxNew : Bool
  round : Nat → Bool

/-- The variables of the loop of `HKDF_Expand`. So many bytes of `okm` are written as `where` counts. -/
structure Expansion where
  counter : UInt8
  outputBlock : List UInt8
  okm : List UInt8

def expandRound (prk info : List UInt8) (length : Nat) (state : Expansion) : Expansion :=
  let outputBlock := mac.hmac256 prk (state.outputBlock ++ info ++ [state.counter])
  let toCopy := if length - state.okm.length < outputBlock.length then length - state.okm.length else outputBlock.length
  ⟨state.counter + 1, outputBlock, state.okm ++ outputBlock.take toCopy⟩

theorem expandRound_okm (prk info : List UInt8) (length : Nat) (state : Expansion) :
    (expandRound mac prk info length state).okm.length = state.okm.length + min (length - state.okm.length) 32 := by
  have size := mac.length256 prk (state.outputBlock ++ info ++ [state.counter])
  simp only [expandRound, List.length_append, List.length_take, size]
  split <;> omega

/-- What is returned, and what has been written by then. -/
def expandLoop (library : HmacLibrary) (prk info : List UInt8) (length round : Nat) (state : Expansion) : Int × List UInt8 :=
  if state.okm.length < length then
    if library.round round then expandLoop library prk info length (round + 1) (expandRound mac prk info length state)
    else (0, state.okm)
  else (1, state.okm)
termination_by length - state.okm.length
decreasing_by
  rw [expandRound_okm]
  omega

def hkdfExpand (library : HmacLibrary) (prk info : List UInt8) (length : Nat) : Int × List UInt8 :=
  if library.ctxNew then expandLoop mac library prk info length 0 ⟨1, [], []⟩ else (0, [])

def hkdfBlock (prk info : List UInt8) : Nat → List UInt8
  | 0 => []
  | i + 1 => mac.hmac256 prk (hkdfBlock prk info i ++ info ++ [UInt8.ofNat (i + 1)])

def hkdfBlocks (prk info : List UInt8) (count : Nat) : List UInt8 := concat (fun i => hkdfBlock mac prk info (i + 1)) count

variable {mac} {library : HmacLibrary} {prk info : List UInt8} {length : Nat}

theorem length_hkdfBlocks (count : Nat) : (hkdfBlocks mac prk info count).length = count * 32 :=
  length_concat (fun _ => mac.length256 _ _) count

structure Expanded (mac : Mac) (prk info : List UInt8) (length count : Nat) (state : Expansion) : Prop where
  counter : state.counter = UInt8.ofNat (count + 1)
  outputBlock : state.outputBlock = hkdfBlock mac prk info count
  okm : state.okm = (hkdfBlocks mac prk info count).take length

private theorem take_toCopy (block : List UInt8) (count : Nat) :
    block.take (if count < block.length then count else block.length) = block.take count := by
  split
  · rfl
  next enough => rw [List.take_length, List.take_of_length_le (Nat.le_of_not_lt enough)]

theorem expandRound_expanded {count : Nat} {state : Expansion} (expanded : Expanded mac prk info length count state) :
    Expanded mac prk info length (count + 1) (expandRound mac prk info length state) := by
  obtain ⟨counter, outputBlock, okm⟩ := expanded
  have block : mac.hmac256 prk (state.outputBlock ++ info ++ [state.counter]) = hkdfBlock mac prk info (count + 1) := by
    rw [counter, outputBlock, hkdfBlock]
  have left : length - state.okm.length = length - (hkdfBlocks mac prk info count).length := by
    rw [okm, List.length_take]
    omega
  have more : hkdfBlocks mac prk info (count + 1) = hkdfBlocks mac prk info count ++ hkdfBlock mac prk info (count + 1) :=
    concat_succ count
  refine ⟨?_, block, ?_⟩
  · simp only [expandRound, counter]
    exact (UInt8.ofNat_add (count + 1) 1).symm
  · simp only [expandRound, block]
    rw [take_toCopy, left, more, List.take_append, ← okm]

/-- How the loop ends: with the blocks of some rounds, and with all that was asked for if it
returns 1. -/
structure Ends (mac : Mac) (library : HmacLibrary) (prk info : List UInt8) (length : Nat) (result : Int × List UInt8) :
    Prop where
  written : ∃ count, result.2 = (hkdfBlocks mac prk info count).take length
  whole : result.1 = 1 → result.2.length = length
  code : result.1 = 1 ∨ result.1 = 0
  succeeds : (∀ round, library.round round = true) → result.1 = 1

theorem expandLoop_ends (count : Nat) (state : Expansion) (expanded : Expanded mac prk info length count state) :
    Ends mac library prk info length (expandLoop mac library prk info length count state) := by
  induction count, state using expandLoop.induct mac library prk info length with
  | case1 count state open_ succeeded ih =>
    rw [expandLoop, if_pos open_, if_pos succeeded]
    exact ih (expandRound_expanded expanded)
  | case2 count state open_ failed =>
    rw [expandLoop, if_pos open_, if_neg failed]
    exact ⟨⟨count, expanded.okm⟩, fun one => absurd one Int.zero_ne_one, Or.inr rfl, fun all => absurd (all count) failed⟩
  | case3 count state closed =>
    rw [expandLoop, if_neg closed]
    refine ⟨⟨count, expanded.okm⟩, fun _ => ?_, Or.inl rfl, fun _ => rfl⟩
    have bounded : state.okm.length ≤ length := by
      rw [expanded.okm]
      exact List.length_take_le length _
    exact Nat.le_antisymm bounded (Nat.le_of_not_lt closed)

private theorem take_hkdfBlocks (count : Nat) (enough : length ≤ (hkdfBlocks mac prk info 255).length) :
    (hkdfBlocks mac prk info count).take length <+: (hkdfBlocks mac prk info 255).take length := by
  rcases Nat.le_total count 255 with fewer | more
  · exact (concat_fewer fewer).take length
  · rw [hkdfBlocks, take_concat more enough]
    exact List.prefix_rfl

structure HmacLibrary.Succeeds (library : HmacLibrary) : Prop where
  ctxNew : library.ctxNew = true
  round : ∀ round, library.round round = true

/-- `HKDF_Expand` writes exactly the bytes asked for, and they are those `T(1) ‖ T(2) ‖ …`
begins with. Where the library fails it returns 0, and has written no other bytes. -/
theorem hkdfExpand_correct (mac : Mac) (library : HmacLibrary) (prk info : List UInt8) (length : Nat)
    (bound : length ≤ 255 * 32) :
    (library.Succeeds → (hkdfExpand mac library prk info length).1 = 1) ∧
      ((hkdfExpand mac library prk info length).1 = 1 →
        (hkdfExpand mac library prk info length).2.length = length ∧
          (hkdfExpand mac library prk info length).2 = (hkdfBlocks mac prk info 255).take length) ∧
      ((hkdfExpand mac library prk info length).1 ≠ 1 →
        (hkdfExpand mac library prk info length).1 = 0 ∧
          (hkdfExpand mac library prk info length).2 <+: (hkdfBlocks mac prk info 255).take length) := by
  have enough : length ≤ (hkdfBlocks mac prk info 255).length := by rw [length_hkdfBlocks]; exact bound
  by_cases allocated : library.ctxNew = true
  · rw [hkdfExpand, if_pos allocated]
    have initial : Expanded mac prk info length 0 ⟨1, [], []⟩ := ⟨rfl, rfl, List.take_nil.symm⟩
    have ends : Ends mac library prk info length (expandLoop mac library prk info length 0 ⟨1, [], []⟩) :=
      expandLoop_ends 0 ⟨1, [], []⟩ initial
    obtain ⟨⟨count, written⟩, whole, code, succeeds⟩ := ends
    have begun := written ▸ take_hkdfBlocks count enough
    refine ⟨fun all => succeeds all.round, fun one => ⟨whole one, begun.eq_of_length ?_⟩, fun failed => ⟨code.resolve_left failed, begun⟩⟩
    rw [whole one, List.length_take, Nat.min_eq_left enough]
  · rw [hkdfExpand, if_neg allocated]
    exact ⟨fun all => absurd all.ctxNew allocated, fun one => absurd one Int.zero_ne_one, fun _ => ⟨rfl, List.nil_prefix⟩⟩

theorem hkdfExpand_sixty :
    (hkdfExpand sumMac ⟨true, fun _ => true⟩ [1, 2] [3] 60).1 = 1 ∧
      (hkdfExpand sumMac ⟨true, fun _ => true⟩ [1, 2] [3] 60).2 = (hkdfBlocks sumMac [1, 2] [3] 255).take 60 := by
  obtain ⟨succeeds, written, _⟩ := hkdfExpand_correct sumMac ⟨true, fun _ => true⟩ [1, 2] [3] 60 (by decide)
  have one := succeeds ⟨rfl, fun _ => rfl⟩
  exact ⟨one, (written one).2⟩

end Hkdf

end LtlFuzz.Driver

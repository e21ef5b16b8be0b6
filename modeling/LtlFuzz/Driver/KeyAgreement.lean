import LtlFuzz.Driver.OracleParser

/-! The keys of an SAE handshake: `generate_sae_commit` and `calculate_kck_and_pmk` of `driver.c`, and
`kdf_length` of `looping.c`, over any group and any keyed hash. -/

namespace LtlFuzz.Driver

section Derivation

/-- The keyed hashes of the library, which write as many bytes as their digests have. -/
structure Mac where
  hmac256 : List UInt8 → List UInt8 → List UInt8
  hmac224 : List UInt8 → List UInt8 → List UInt8
  length256 : ∀ key data, (hmac256 key data).length = 32
  length224 : ∀ key data, (hmac224 key data).length = 28

variable (mac : Mac)

def shortBytes (n : Nat) : List UInt8 := [UInt8.ofNat n, UInt8.ofNat (n / 256)]

def kdfRound (data label context : List UInt8) (length i : Nat) : List UInt8 :=
  let hashData := shortBytes i ++ label ++ context ++ shortBytes length
  if length = 224 ∨ length = 28 then mac.hmac224 (data.take 32) hashData else mac.hmac256 (data.take 32) hashData

def kdfLength (data label context : List UInt8) (length : Nat) : List UInt8 :=
  (List.range ((length + 255) / 256)).flatMap fun i => kdfRound mac data label context length (i + 1)

end Derivation

section Handshake

variable {G : Type} [AddCommGroup G]

/-- A group of prime order, as the library has it. Scalars and coordinates fit in 32 bytes, and only
the neutral element has no coordinates. -/
structure EcGroup (G : Type) [AddCommGroup G] where
  order : Nat
  affineX : G → Option Nat
  prime : order.Prime
  order_smul : ∀ point : G, order • point = 0
  order_le : order ≤ 256 ^ 32
  affineX_lt : ∀ point x, affineX point = some x → x < 256 ^ 32

structure Container where
  size : Nat
  value : List UInt8

structure SaeContext (G : Type) where
  rand : Nat
  mask : Nat
  scalar : Nat
  element : G
  pwe : G
  rgContainer : Container
  kck : List UInt8
  pmk : List UInt8
  pmkId : List UInt8
  areKeysSet : Bool

structure SaeResponse (G : Type) where
  scalar : Nat
  element : G

variable (group : EcGroup G)

/-- `rand` and `mask` are what the random generator returns, from 0 up. -/
def generateSaeCommit (ctx : SaeContext G) (rand mask : Nat) : SaeContext G :=
  { ctx with
    rand := rand + 1
    mask := mask + 1
    scalar := (rand + 1 + (mask + 1)) % group.order
    element := -((mask + 1) • ctx.pwe) }

/-- A number of so many bytes, the highest one first; one that does not fit leaves the buffer as it is. -/
def bn2binpad (n len : Nat) (buffer : List UInt8) : List UInt8 :=
  if n < 256 ^ len then (List.range len).map fun i => UInt8.ofNat (n / 256 ^ (len - 1 - i)) else buffer

/-- Zeros, or the groups that were rejected. -/
def SaeContext.salt (ctx : SaeContext G) : Except Fault (List UInt8) :=
  if ctx.rgContainer.size = 0 then .ok (List.replicate 32 0) else readBytes ctx.rgContainer.value 0 (ctx.rgContainer.size * 2)

/-- The buffers hold anything at first. Without coordinates `x` stays 0. -/
def calculateKckAndPmk (mac : Mac) (saeCtx : SaeContext G) (apCtx : SaeResponse G) (buffer context : List UInt8) :
    Except Fault (SaeContext G) := do
  let salt ← saeCtx.salt
  let k := apCtx.scalar • saeCtx.pwe
  let k := k + apCtx.element
  let k := saeCtx.rand • k
  let x := (group.affineX k).getD 0
  let buffer := bn2binpad x 32 buffer
  let keyseed := mac.hmac256 salt buffer
  let scalarSum := (saeCtx.scalar + apCtx.scalar) % group.order
  let context := bn2binpad scalarSum 32 context
  let kckAndPmk := kdfLength mac keyseed (asciiBytes "SAE KCK and PMK") context 512
  .ok { saeCtx with
    kck := kckAndPmk.take 32
    pmk := (kckAndPmk.drop 32).take 32
    pmkId := context.take 16
    areKeysSet := true }

def SaeContext.commit (ctx : SaeContext G) : SaeResponse G := ⟨ctx.scalar, ctx.element⟩

end Handshake

section Agreement

variable {G : Type} [AddCommGroup G] (group : EcGroup G)

theorem mod_order_smul (n : Nat) (point : G) : (n % group.order) • point = n • point := by
  have whole := congrArg (· • point) (Nat.div_add_mod n group.order)
  simp only [add_smul, mul_smul, mul_comm group.order] at whole
  rwa [group.order_smul, smul_zero, zero_add] at whole

/-- The mask goes away, and the private value of the other side is left. -/
theorem commit_unmasked (ctx : SaeContext G) (rand mask : Nat) {pwe : G} (same : ctx.pwe = pwe) :
    (generateSaeCommit group ctx rand mask).commit.scalar • pwe + (generateSaeCommit group ctx rand mask).commit.element =
      (rand + 1) • pwe := by
  simp only [SaeContext.commit, generateSaeCommit, same]
  rw [mod_order_smul, add_smul, add_neg_cancel_right]

theorem bn2binpad_fits {n len : Nat} (fits : n < 256 ^ len) (first second : List UInt8) : bn2binpad n len first = bn2binpad n len second := by
  rw [bn2binpad, bn2binpad, if_pos fits, if_pos fits]

/-- The keys are a function of the salt, the shared point and the sum of the scalars. -/
def keysOf (mac : Mac) (salt : List UInt8) (point : G) (scalarSum : Nat) : List UInt8 :=
  kdfLength mac (mac.hmac256 salt (bn2binpad ((group.affineX point).getD 0) 32 [])) (asciiBytes "SAE KCK and PMK")
    (bn2binpad (scalarSum % group.order) 32 []) 512

theorem calculateKckAndPmk_ok (mac : Mac) {ctx : SaeContext G} (ap : SaeResponse G) (buffer context : List UInt8) {salt : List UInt8}
    (salted : ctx.salt = .ok salt) :
    ∃ final, calculateKckAndPmk group mac ctx ap buffer context = .ok final ∧
      final.kck = (keysOf group mac salt (ctx.rand • (ap.scalar • ctx.pwe + ap.element)) (ctx.scalar + ap.scalar)).take 32 ∧
      final.pmk = ((keysOf group mac salt (ctx.rand • (ap.scalar • ctx.pwe + ap.element)) (ctx.scalar + ap.scalar)).drop 32).take 32 := by
  have coordinate : (group.affineX (ctx.rand • (ap.scalar • ctx.pwe + ap.element))).getD 0 < 256 ^ 32 := by
    cases known : group.affineX (ctx.rand • (ap.scalar • ctx.pwe + ap.element)) with
    | none => exact Nat.pos_of_ne_zero (by decide)
    | some x => exact group.affineX_lt _ x known
  have reduced : (ctx.scalar + ap.scalar) % group.order < 256 ^ 32 :=
    Nat.lt_of_lt_of_le (Nat.mod_lt _ group.prime.pos) group.order_le
  rw [calculateKckAndPmk, salted]
  dsimp only [bind, Except.bind]
  rw [bn2binpad_fits coordinate buffer [], bn2binpad_fits reduced context []]
  exact ⟨_, rfl, rfl, rfl⟩

/-- Two parties with the same password and the same salt get the same keys from each other's commits,
whatever they chose. -/
theorem keys_agree (mac : Mac) {alice bob : SaeContext G} (password : alice.pwe = bob.pwe) {salt : List UInt8}
    (aliceSalt : alice.salt = .ok salt) (bobSalt : bob.salt = .ok salt) (aliceRand aliceMask bobRand bobMask : Nat)
    (aliceBuffer aliceContext bobBuffer bobContext : List UInt8) :
    ∃ aliceKeys bobKeys,
      calculateKckAndPmk group mac (generateSaeCommit group alice aliceRand aliceMask)
        (generateSaeCommit group bob bobRand bobMask).commit aliceBuffer aliceContext = .ok aliceKeys ∧
      calculateKckAndPmk group mac (generateSaeCommit group bob bobRand bobMask)
        (generateSaeCommit group alice aliceRand aliceMask).commit bobBuffer bobContext = .ok bobKeys ∧
      aliceKeys.kck = bobKeys.kck ∧ aliceKeys.pmk = bobKeys.pmk := by
  have aliceSalted : (generateSaeCommit group alice aliceRand aliceMask).salt = .ok salt := aliceSalt
  have bobSalted : (generateSaeCommit group bob bobRand bobMask).salt = .ok salt := bobSalt
  obtain ⟨aliceKeys, alicePath, aliceKck, alicePmk⟩ := calculateKckAndPmk_ok group mac
    (generateSaeCommit group bob bobRand bobMask).commit aliceBuffer aliceContext aliceSalted
  obtain ⟨bobKeys, bobPath, bobKck, bobPmk⟩ := calculateKckAndPmk_ok group mac
    (generateSaeCommit group alice aliceRand aliceMask).commit bobBuffer bobContext bobSalted
  have fromBob := commit_unmasked group bob bobRand bobMask password.symm
  have fromAlice := commit_unmasked group alice aliceRand aliceMask password
  have point : (aliceRand + 1) • (bobRand + 1) • alice.pwe = (bobRand + 1) • (aliceRand + 1) • bob.pwe := by
    rw [password, smul_comm]
  have aliceUses : (generateSaeCommit group alice aliceRand aliceMask).pwe = alice.pwe := rfl
  have bobUses : (generateSaeCommit group bob bobRand bobMask).pwe = bob.pwe := rfl
  have alicePicks : (generateSaeCommit group alice aliceRand aliceMask).rand = aliceRand + 1 := rfl
  have bobPicks : (generateSaeCommit group bob bobRand bobMask).rand = bobRand + 1 := rfl
  have sum : (generateSaeCommit group alice aliceRand aliceMask).scalar + (generateSaeCommit group bob bobRand bobMask).commit.scalar =
      (generateSaeCommit group bob bobRand bobMask).scalar + (generateSaeCommit group alice aliceRand aliceMask).commit.scalar :=
    Nat.add_comm _ _
  rw [aliceUses, alicePicks, fromBob, point, sum] at aliceKck alicePmk
  rw [bobUses, bobPicks, fromAlice] at bobKck bobPmk
  exact ⟨aliceKeys, bobKeys, alicePath, bobPath, aliceKck.trans bobKck.symm, alicePmk.trans bobPmk.symm⟩

def sevenPoints : EcGroup (ZMod 7) where
  order := 7
  affineX point := if point = 0 then none else some point.val
  prime := by norm_num
  order_smul := by decide
  order_le := by norm_num
  affineX_lt point x known := by
    split at known
    · cases known
    · cases known
      exact lt_of_lt_of_le (ZMod.val_lt point) (by norm_num)

def sumMac : Mac where
  hmac256 key data := List.replicate 32 (key ++ data).sum
  hmac224 key data := List.replicate 28 (key ++ data).sum
  length256 _ _ := List.length_replicate
  length224 _ _ := List.length_replicate

def freshContext : SaeContext (ZMod 7) := ⟨0, 0, 0, 0, 3, ⟨1, [20, 0]⟩, [], [], [], false⟩

theorem freshContexts_agree : ∃ aliceKeys bobKeys,
    calculateKckAndPmk sevenPoints sumMac (generateSaeCommit sevenPoints freshContext 1 4)
      (generateSaeCommit sevenPoints freshContext 5 2).commit [] [] = .ok aliceKeys ∧
    calculateKckAndPmk sevenPoints sumMac (generateSaeCommit sevenPoints freshContext 5 2)
      (generateSaeCommit sevenPoints freshContext 1 4).commit [] [] = .ok bobKeys ∧
    aliceKeys.kck = bobKeys.kck ∧ aliceKeys.pmk = bobKeys.pmk := by
  have salt : freshContext.salt = .ok [20, 0] := rfl
  exact keys_agree sevenPoints sumMac rfl salt salt 1 4 5 2 [] [] [] []

end Agreement

end LtlFuzz.Driver

import LtlFuzz.Adapter.Ssh

/-! The length fields of an SSH payload. Offsets are added to lengths as `unsigned int`, so
that a length close to the end of that type leads back into the payload. -/

namespace LtlFuzz.Adapter.Ssh

section Payloads

/-- A payload, whose length is an `unsigned int`. -/
structure Payload extends Packet where
  short : bytes.length < 2 ^ 32

def u32 (packet : Packet) (off : Nat) : Nat := packet.u16 off * 2 ^ 16 + packet.u16 (off + 2)

/-- A string with its length in front of it, inside the payload. -/
structure StringAt (packet : Packet) (off next : Nat) : Prop where
  field : off + 4 ≤ packet.bytes.length
  behind : next = off + 4 + u32 packet off
  inside : next ≤ packet.bytes.length
  increasing : off < next

/-- Some strings lie one after the other. -/
def Strings (packet : Packet) : Nat → Nat → Prop
  | 0, _ => True
  | count + 1, off => ∃ next, StringAt packet off next ∧ Strings packet count next

/-- The length of the data of a channel is that of what is there. -/
structure DataBounded (packet : Packet) : Prop where
  nonnegative : 0 ≤ (sshParseChannelDataLen packet).toInt
  bounded : (sshParseChannelDataLen packet).toInt ≤ (packet.bytes.length - 9 : Nat)
  present : 0 < (sshParseChannelDataLen packet).toInt →
    (sshParseChannelDataLen packet).toInt ≤ (packet.bytes.drop 9).length

structure LengthsBounded (packet : Packet) : Prop where
  data : DataBounded packet
  method : sshParseUserauthMethod packet ≠ none → Strings packet 3 1

/-- Where an offset leads when it is added as an `unsigned int`. -/
def wrapped (packet : Packet) (off : Nat) : Nat := (off + 4 + u32 packet off) % 2 ^ 32

/-- Strings that can be read, at offsets that may wrap around. -/
def Readable (packet : Packet) : Nat → Nat → Prop
  | 0, _ => True
  | count + 1, off => (off + 4) % 2 ^ 32 ≤ packet.bytes.length ∧ wrapped packet off ≤ packet.bytes.length ∧
      Readable packet count (wrapped packet off)

/-- A length field wraps the offset around, to where the other strings can be read. -/
inductive Misleads (packet : Packet) : Nat → Nat → Prop where
  | here {count off : Nat} (wraps : 2 ^ 32 ≤ off + 4 + u32 packet off) (readable : Readable packet (count + 1) off) :
      Misleads packet (count + 1) off
  | later {count off next : Nat} (string : StringAt packet off next) (rest : Misleads packet count next) :
      Misleads packet (count + 1) off

/-- The data length wraps the offset around, or is negative as an `int`. -/
def DataMisleads (packet : Packet) : Prop :=
  9 ≤ packet.bytes.length ∧ (2 ^ 32 ≤ 9 + u32 packet 5 ∨ 2 ^ 31 ≤ u32 packet 5 ∧ 9 + u32 packet 5 ≤ packet.bytes.length)

theorem u16_lt (packet : Packet) (off : Nat) : packet.u16 off < 2 ^ 16 := by
  have high : packet.byte off < 256 := UInt8.toNat_lt _
  have low : packet.byte (off + 1) < 256 := UInt8.toNat_lt _
  unfold Packet.u16
  omega

theorem u32_lt (packet : Packet) (off : Nat) : u32 packet off < 2 ^ 32 := by
  have high := u16_lt packet off
  have low := u16_lt packet (off + 2)
  unfold u32
  omega

end Payloads

section Data

theorem ofNat_toInt {value : Nat} (word : value < 2 ^ 32) :
    (Int32.ofNat value).toInt = if value < 2 ^ 31 then (value : Int) else value - 2 ^ 32 := by
  rw [Int32.toInt_ofNat', Int.bmod]
  simp only [Int32.size]
  split <;> split <;> omega

theorem sshParseChannelDataLen_eq {packet : Packet} (whole : 9 ≤ packet.bytes.length) : sshParseChannelDataLen packet =
    if (9 + u32 packet 5) % 2 ^ 32 > packet.bytes.length then 0 else Int32.ofNat (u32 packet 5) := by
  have recipient : readU32Be packet 1 = some (u32 packet 1, 5) := if_neg (by omega)
  have length : readU32Be packet 5 = some (u32 packet 5, 9) := if_neg (by omega)
  unfold sshParseChannelDataLen
  rw [if_neg (by omega)]
  simp only [recipient, length, bind, Option.bind_some]

theorem sshParseChannelDataLen_toInt {packet : Packet} (whole : 9 ≤ packet.bytes.length) :
    (sshParseChannelDataLen packet).toInt = if (9 + u32 packet 5) % 2 ^ 32 > packet.bytes.length then 0
      else if u32 packet 5 < 2 ^ 31 then (u32 packet 5 : Int) else u32 packet 5 - 2 ^ 32 := by
  rw [sshParseChannelDataLen_eq whole]
  split
  · rfl
  · exact ofNat_toInt (u32_lt packet 5)

theorem dataBounded_iff (payload : Payload) : DataBounded payload.toPacket ↔ ¬DataMisleads payload.toPacket := by
  have short := payload.short
  have word := u32_lt payload.toPacket 5
  unfold DataMisleads
  by_cases whole : 9 ≤ payload.bytes.length
  · have returned := sshParseChannelDataLen_toInt whole
    constructor
    · rintro ⟨nonnegative, bounded, _⟩ ⟨_, misleads⟩
      rw [returned] at nonnegative bounded
      split_ifs at nonnegative bounded <;> omega
    · intro honest
      refine ⟨?_, ?_, fun _ => ?_⟩ <;> rw [returned]
      · split_ifs <;> omega
      · split_ifs <;> omega
      · rw [List.length_drop]
        split_ifs <;> omega
  · have nothing : (sshParseChannelDataLen payload.toPacket).toInt = 0 := by
      rw [sshParseChannelDataLen, if_pos (by omega)]
      rfl
    refine ⟨fun _ misleads => whole misleads.1, fun _ => ⟨?_, ?_, fun positive => ?_⟩⟩ <;> omega

end Data

section Methods

variable {packet : Packet}

theorem readSshString_eq (packet : Packet) (off : Nat) : readSshString packet off =
    if (off + 4) % 2 ^ 32 ≤ packet.bytes.length ∧ wrapped packet off ≤ packet.bytes.length then
      some (⟨(off + 4) % 2 ^ 32, u32 packet off⟩, wrapped packet off)
    else none := by
  have sum : ((off + 4) % 2 ^ 32 + (packet.u16 off * 2 ^ 16 + packet.u16 (off + 2))) % 2 ^ 32 = wrapped packet off := by
    unfold wrapped u32
    omega
  unfold readSshString readU32Be
  by_cases field : (off + 4) % 2 ^ 32 ≤ packet.bytes.length
  · rw [if_neg (Nat.not_lt.mpr field)]
    simp only [bind, Option.bind_some, sum]
    by_cases inside : wrapped packet off ≤ packet.bytes.length
    · rw [if_neg (Nat.not_lt.mpr inside), if_pos ⟨field, inside⟩]
      rfl
    · rw [if_pos (Nat.not_le.mp inside), if_neg fun both => inside both.2]
  · rw [if_pos (Nat.not_le.mp field), if_neg fun both => field both.1]
    rfl

theorem bind_readSshString {α : Type} (packet : Packet) (off : Nat) (next : SshString × Nat → Option α) :
    (readSshString packet off).bind next ≠ none ↔ (off + 4) % 2 ^ 32 ≤ packet.bytes.length ∧
      wrapped packet off ≤ packet.bytes.length ∧ next (⟨(off + 4) % 2 ^ 32, u32 packet off⟩, wrapped packet off) ≠ none := by
  rw [readSshString_eq]
  split
  next both => simp only [Option.bind_some, both.1, both.2, true_and]
  next other =>
    rw [not_and] at other
    simp only [Option.bind_none, ne_eq, not_true_eq_false, false_iff, not_and]
    exact fun field inside => absurd inside (other field)

/-- The method is found where three strings can be read. -/
theorem sshParseUserauthMethod_iff (packet : Packet) : sshParseUserauthMethod packet ≠ none ↔ Readable packet 3 1 := by
  unfold sshParseUserauthMethod
  split
  next tiny => simp [Readable, show ¬5 ≤ packet.bytes.length by omega]
  next =>
    refine (bind_readSshString packet 1 _).trans ?_
    simp only [Readable, and_true]
    refine and_congr_right fun _ => and_congr_right fun _ => (bind_readSshString packet _ _).trans ?_
    refine and_congr_right fun _ => and_congr_right fun _ => (bind_readSshString packet _ _).trans ?_
    exact and_congr_right fun _ => and_iff_left (Option.some_ne_none _)

theorem StringAt.wrapped_eq {off next : Nat} (string : StringAt packet off next) (short : packet.bytes.length < 2 ^ 32) :
    wrapped packet off = next := by
  have inside := string.inside
  rw [wrapped, ← string.behind, Nat.mod_eq_of_lt (by omega)]

/-- Strings can be read where they lie, or where a length field misleads. -/
theorem readable_iff (payload : Payload) (count off : Nat) : Readable payload.toPacket count off ↔
    Strings payload.toPacket count off ∨ Misleads payload.toPacket count off := by
  have short := payload.short
  induction count generalizing off with
  | zero => exact ⟨fun _ => Or.inl trivial, fun _ => trivial⟩
  | succ count ih =>
    constructor
    · intro readable
      by_cases wraps : 2 ^ 32 ≤ off + 4 + u32 payload.toPacket off
      · exact Or.inr (.here wraps readable)
      · obtain ⟨field, inside, rest⟩ := readable
        have straight : wrapped payload.toPacket off = off + 4 + u32 payload.toPacket off :=
          Nat.mod_eq_of_lt (Nat.not_le.mp wraps)
        have string : StringAt payload.toPacket off (wrapped payload.toPacket off) :=
          ⟨by omega, straight, inside, by omega⟩
        obtain strings | misleads := (ih _).mp rest
        · exact Or.inl ⟨_, string, strings⟩
        · exact Or.inr (.later string misleads)
    · have step {next : Nat} (string : StringAt payload.toPacket off next)
          (rest : Strings payload.toPacket count next ∨ Misleads payload.toPacket count next) :
          Readable payload.toPacket (count + 1) off := by
        have field := string.field
        refine ⟨by omega, ?_, ?_⟩
        · rw [string.wrapped_eq short]
          exact string.inside
        · rw [string.wrapped_eq short]
          exact (ih next).mpr rest
      rintro (⟨next, string, strings⟩ | misleads)
      · exact step string (Or.inl strings)
      · cases misleads with
        | here _ readable => exact readable
        | later string rest => exact step string (Or.inr rest)

theorem strings_or_misleads (payload : Payload) (count off : Nat) (strings : Strings payload.toPacket count off) :
    ¬Misleads payload.toPacket count off := by
  have short := payload.short
  induction count generalizing off with
  | zero =>
    intro misleads
    cases misleads
  | succ count ih =>
    obtain ⟨next, string, rest⟩ := strings
    intro misleads
    cases misleads with
    | here wraps _ =>
      have behind := string.behind
      have inside := string.inside
      omega
    | later other misleads =>
      rw [other.behind, ← string.behind] at misleads
      exact ih next rest misleads

/-- The length fields are bounded exactly where none of them wraps around or is negative. -/
theorem lengthsBounded_iff (payload : Payload) : LengthsBounded payload.toPacket ↔
    ¬DataMisleads payload.toPacket ∧ ¬Misleads payload.toPacket 3 1 := by
  constructor
  · rintro ⟨data, method⟩
    refine ⟨(dataBounded_iff payload).mp data, fun misleads => ?_⟩
    have readable := (readable_iff payload 3 1).mpr (Or.inr misleads)
    exact strings_or_misleads payload 3 1 (method ((sshParseUserauthMethod_iff _).mpr readable)) misleads
  · rintro ⟨data, honest⟩
    refine ⟨(dataBounded_iff payload).mpr data, fun found => ?_⟩
    exact ((readable_iff payload 3 1).mp ((sshParseUserauthMethod_iff _).mp found)).resolve_right honest

/-- `CHANNEL_DATA` with the largest length and no data. -/
def emptyData : Payload := ⟨{ bytes := [94, 0, 0, 0, 0, 255, 255, 255, 255] }, by decide⟩

theorem emptyData_unbounded : ¬LengthsBounded emptyData.toPacket := by
  intro bounded
  have negative : (sshParseChannelDataLen emptyData.toPacket).toInt = -1 := by decide +kernel
  have nonnegative := bounded.data.nonnegative
  omega

end Methods

end LtlFuzz.Adapter.Ssh

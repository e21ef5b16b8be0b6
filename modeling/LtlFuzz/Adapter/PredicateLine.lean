import LtlFuzz.Text.Words

/-! What the protocol adapters share: packets, predicate lines of the form `k=v k=v`, the
2048-byte buffer they are printed into, and the trace of the packet that follows the
predicates. An adapter is the state its static variables hold and a builder for each
direction of the traffic. -/

namespace LtlFuzz.Adapter

/-- A buffer together with the memory that follows it, up to the first zero byte there. -/
structure Packet where
  bytes : List UInt8
  beyond : List UInt8 := []
  deriving DecidableEq, Repr

def charOfByte (byte : UInt8) : Char := Char.ofNat byte.toNat

def Packet.text (packet : Packet) : List Char := packet.bytes.map charOfByte

/-- A byte of the packet; nothing below reads past the end through it. -/
def Packet.byte (packet : Packet) (offset : Nat) : Nat := (packet.bytes.getD offset 0).toNat

def Packet.u16 (packet : Packet) (offset : Nat) : Nat := packet.byte offset * 256 + packet.byte (offset + 1)

def Packet.u24 (packet : Packet) (offset : Nat) : Nat := packet.u16 offset * 256 + packet.byte (offset + 2)

theorem Packet.byte_lt (packet : Packet) (offset : Nat) : packet.byte offset < 2 ^ 8 := UInt8.toNat_lt _

theorem Packet.u16_lt (packet : Packet) (offset : Nat) : packet.u16 offset < 2 ^ 16 := by
  have high := packet.byte_lt offset
  have low := packet.byte_lt (offset + 1)
  unfold u16
  omega

theorem Packet.u24_lt (packet : Packet) (offset : Nat) : packet.u24 offset < 2 ^ 24 := by
  have high := packet.u16_lt offset
  have low := packet.byte_lt (offset + 2)
  unfold u24
  omega

/-- The characters before the terminating zero. -/
def cString (text : List Char) : List Char := text.takeWhile (· != '\x00')

inductive Direction where
  | c2s
  | s2c
  deriving DecidableEq, Repr

def Direction.text : Direction → String
  | .c2s => "C2S"
  | .s2c => "S2C"

abbrev Field := String × String

def token (field : Field) : List Char := field.1.toList ++ '=' :: field.2.toList

def predicateText (fields : List Field) : List Char := [' '].intercalate (fields.map token)

/-- What fits into a buffer of this size next to the terminating zero. -/
def snprintf (size : Nat) (text : List Char) : List Char := text.take (size - 1)

def hexByte (byte : UInt8) : List Char := [Nat.digitChar (byte.toNat / 16), Nat.digitChar (byte.toNat % 16)]

def hexTrace : Nat → List UInt8 → List Char
  | _, [] => []
  | remaining, byte :: rest => if remaining > 2 then hexByte byte ++ hexTrace (remaining - 2) rest else []

/-- The format `" msg_id=%u dir=%s trace="`. -/
def traceHeader (messageId : Nat) (direction : Direction) : List Char :=
  ' ' :: token ("msg_id", toString messageId) ++ ' ' :: token ("dir", direction.text) ++ ' ' :: token ("trace", "")

def appendPacketTrace (size : Nat) (out : List Char) (messageId : Nat) (bytes : List UInt8) (direction : Direction) :
    List Char :=
  let remaining := size - out.length
  if remaining < 50 then out
  else
    let header := traceHeader messageId direction
    if header.length ≥ remaining then out ++ snprintf remaining header
    else out ++ header ++ hexTrace (remaining - header.length) (bytes.take 256)

/-- `start` is what the static variables hold when the process starts; not every adapter
makes a reset before its first line. -/
structure PredicateAdapter (σ : Type) where
  start : σ
  resetSession : σ
  build : Direction → σ → Packet → List Field × σ
  appendsTrace : Packet → Bool
  resetsMessageId : Bool

/-- `char pred_line[2048]`. -/
def predLineSize : Nat := 2048

structure Machine (σ : Type) where
  session : σ
  messageId : Nat

inductive Input where
  | packet (direction : Direction) (packet : Packet)
  | reset
  deriving DecidableEq, Repr

namespace Machine

variable {σ : Type} (adapter : PredicateAdapter σ)

def start : Machine σ := ⟨adapter.start, 0⟩

/-- One call of a builder: the line it leaves in the buffer. -/
def buildPredLine (machine : Machine σ) (direction : Direction) (packet : Packet) : List Char × Machine σ :=
  let (fields, session) := adapter.build direction machine.session packet
  let out := snprintf predLineSize (predicateText fields)
  if adapter.appendsTrace packet then
    let messageId := (machine.messageId + 1) % 2 ^ 32
    (appendPacketTrace predLineSize out messageId packet.bytes direction, ⟨session, messageId⟩)
  else (out, ⟨session, machine.messageId⟩)

theorem buildPredLine_line (machine : Machine σ) (direction : Direction) (packet : Packet) :
    (machine.buildPredLine adapter direction packet).1 =
      if adapter.appendsTrace packet then
        appendPacketTrace predLineSize (snprintf predLineSize (predicateText (adapter.build direction machine.session packet).1))
          ((machine.messageId + 1) % 2 ^ 32) packet.bytes direction
      else snprintf predLineSize (predicateText (adapter.build direction machine.session packet).1) := by
  simp only [buildPredLine]
  split <;> rfl

@[simp] theorem buildPredLine_session (machine : Machine σ) (direction : Direction) (packet : Packet) :
    (machine.buildPredLine adapter direction packet).2.session = (adapter.build direction machine.session packet).2 := by
  simp only [buildPredLine]
  split <;> rfl

def resetSession (machine : Machine σ) : Machine σ :=
  ⟨adapter.resetSession, if adapter.resetsMessageId then 0 else machine.messageId⟩

def lines (machine : Machine σ) : List Input → List (List Char)
  | [] => []
  | .reset :: inputs => (machine.resetSession adapter).lines inputs
  | .packet direction packet :: inputs =>
    (machine.buildPredLine adapter direction packet).1 ::
      (machine.buildPredLine adapter direction packet).2.lines inputs

/-- Every packet is printed as one of the lines, by the machine it meets. -/
theorem lines_member (machine : Machine σ) (before after : List Input) (direction : Direction) (packet : Packet) :
    ∃ reached : Machine σ, (reached.buildPredLine adapter direction packet).1 ∈
      machine.lines adapter (before ++ .packet direction packet :: after) := by
  induction before generalizing machine with
  | nil => exact ⟨machine, List.mem_cons_self⟩
  | cons input before ih =>
    cases input with
    | reset => exact ih (machine.resetSession adapter)
    | packet other earlier =>
      obtain ⟨reached, member⟩ := ih (machine.buildPredLine adapter other earlier).2
      exact ⟨reached, List.mem_cons_of_mem _ member⟩

end Machine

end LtlFuzz.Adapter

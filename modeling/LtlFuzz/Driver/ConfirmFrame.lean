import LtlFuzz.Driver.OracleParser
import LtlFuzz.PacketGen.ByteParser
import LtlFuzz.PacketGen.Completion
import LtlFuzz.PacketGen.SygusBytes

/-! Confirm frames as the generator writes them and as the driver and the parser of the generator
read them. The driver looks for the fields of a confirm frame behind a group, which the frame does
not have. -/

namespace LtlFuzz.Driver
open PacketGen

section Writing

def word (n : Nat) : List Bool := toBits [] 16 n

def confirmPacket (constructor : String) (status : List Bool) : SygusAst :=
  .node constructor [.bvLeaf 16 (word 3), .bvLeaf 16 (word 2), .bvLeaf 16 status, .varLeaf "<SEND_CONFIRM_COUNTER>",
    .varLeaf "<CONFIRM_HASH>"]

def confirmBytes (low high : UInt8) : List UInt8 :=
  [3, 0, 2, 0, low, high] ++ asciiBytes "<SEND_CONFIRM_COUNTER>" ++ asciiBytes "<CONFIRM_HASH>"

theorem boolsToBytes_word {bits : List Bool} (two : bits.length = 16) :
    boolsToBytes .big bits = [UInt8.ofNat (boolsToByte (bits.drop 8)), UInt8.ofNat (boolsToByte (bits.take 8))] := by
  have rest : ¬(bits.drop 8).length = 0 := by simp [two]
  have last : (bits.drop 8).take 8 = bits.drop 8 := List.take_of_length_le (by simp [two])
  have first : (bits.take 8).length = 8 := by simp [two]
  have second : (bits.drop 8).length = 8 := by simp [two]
  rw [boolsToBytes, boolsToByteList, if_neg (by omega), boolsToByteList, if_neg rest, last, boolsToByteList, if_pos (by simp [two])]
  simp [first, second]

private theorem word_bytes : boolsToBytes .big (word 3) = [3, 0] ∧ boolsToBytes .big (word 2) = [2, 0] := by
  rw [boolsToBytes_word rfl, boolsToBytes_word rfl]
  decide

private theorem plainName {constructor : String} (named : NamesNode "CONFIRM" constructor 0) : isRgIdList constructor = false := by
  rcases named with rfl | rfl
  · decide
  · decide

private theorem texts : "<SEND_CONFIRM_COUNTER>".toUTF8.toList = asciiBytes "<SEND_CONFIRM_COUNTER>" ∧
    "<CONFIRM_HASH>".toUTF8.toList = asciiBytes "<CONFIRM_HASH>" := by
  decide +kernel

private def confirmPieces (low high : UInt8) : List Piece :=
  [.bits [3, 0], .bits [2, 0], .bits [low, high], .placeholder "<SEND_CONFIRM_COUNTER>", .placeholder "<CONFIRM_HASH>"]

private theorem confirmPieces_table (low high : UInt8) :
    placeholdersFrom 0 (confirmPieces low high) = [(6, "<SEND_CONFIRM_COUNTER>"), (28, "<CONFIRM_HASH>")] := by
  simp only [confirmPieces, placeholdersFrom, texts.1]
  rfl

private theorem confirmPieces_packet (low high : UInt8) : packet (confirmPieces low high) = confirmBytes low high := by
  simp only [confirmPieces, packet, List.flatMap_cons, List.flatMap_nil, Piece.bytes, texts.1, texts.2]
  rfl

theorem confirmPacket_bytes (endianness : Endianness) {constructor : String} (named : NamesNode "CONFIRM" constructor 0)
    {status : List Bool} (two : status.length = 16) :
    serializeBytes endianness (confirmPacket constructor status) =
      .ok (confirmBytes (UInt8.ofNat (boolsToByte (status.drop 8))) (UInt8.ofNat (boolsToByte (status.take 8))), [6, 22, 28, 14, 2]) := by
  have leaves : (confirmPacket constructor status).pieces endianness =
      some ([word 3, word 2, status].map (fun bits => .bits (boolsToBytes (if isRgIdList constructor then .little else .big) bits)) ++
        [.placeholder "<SEND_CONFIRM_COUNTER>", .placeholder "<CONFIRM_HASH>"]) := rfl
  rw [plainName named] at leaves
  simp only [Bool.false_eq_true, if_false, List.map_cons, List.map_nil, word_bytes, boolsToBytes_word two] at leaves
  have table := confirmPieces_table (UInt8.ofNat (boolsToByte (status.drop 8))) (UInt8.ofNat (boolsToByte (status.take 8)))
  have small : ∀ entry ∈ [(6, "<SEND_CONFIRM_COUNTER>"), (28, "<CONFIRM_HASH>")], entry.1 ≤ 255 ∧ entry.2.toUTF8.toList.length ≤ 255 := by
    decide +kernel
  obtain ⟨written, _⟩ := serializeBytes_metadata endianness _ (confirmPieces _ _) leaves (by rw [table]; decide)
    (by rw [table]; exact small)
  have metadata : ([(6, "<SEND_CONFIRM_COUNTER>"), (28, "<CONFIRM_HASH>")].flatMap fun entry : Nat × String =>
      [UInt8.ofNat entry.1, UInt8.ofNat entry.2.toUTF8.toList.length]) = [6, 22, 28, 14] := by
    decide +kernel
  rw [written, table, confirmPieces_packet, metadata]
  rfl

end Writing

section Reading

/-- What `parse_packet` reports of a confirm packet with both placeholders. -/
def confirmOracle (status : Nat) : DriverOracle := [
  reportNumber "algo" 3,
  reportNumber "auth_seq" 2,
  ("status", .number status),
  reportHex "send_confirm" (asciiBytes "<SEND_CONFIRM_COUNTER>"),
  reportHex "confirm_hash" (asciiBytes "<CONFIRM_HASH>")]

/-- No pattern for commit packets comes before, and the generator finds the placeholders in the packet. -/
theorem parsePacket_confirmBytes (low high : UInt8) :
    parsePacket (confirmBytes low high) = some (.confirm, confirmOracle (low.toNat + 256 * high.toNat)) := rfl

private theorem copyField_cases (malloc : Malloc) {data : List UInt8} {at_ : Position} {len : Nat} (inside : at_.offset + len ≤ data.length)
    (some_ : 0 < len) (small : len ≤ 1024 * 1024) (isPlaceholder : Bool) : copyField malloc data at_ len isPlaceholder =
      if malloc at_.k then .ok (.ok (⟨some (slice data at_.offset len), len, true, isPlaceholder⟩, ⟨at_.offset + len, at_.k + 1⟩))
      else .ok (.error saeErrorMemory) := by
  rw [copyField, safeMemdup, if_neg (by omega), readBytes_ok inside]
  split <;> rfl

/-- The driver takes the first two characters of the counter for a group and misses both
placeholders. -/
theorem parseFuzzerFrame_confirm (malloc : Malloc) (low high : UInt8) :
    ∃ code frame, parseFuzzerFrame malloc (confirmBytes low high) = .ok (code, frame) ∧ frame.seq = 2 ∧
      (malloc 0 = true → malloc 1 = true → code = saeConfirmFrame) ∧
      frame.sendConfirm.isPlaceholder = false ∧ frame.confirmHash.isPlaceholder = false := by
  have header : ∃ frame, parseFuzzerFrame malloc (confirmBytes low high) = parseConfirm malloc (confirmBytes low high) frame ⟨8, 0⟩ ∧
      frame.seq = 2 ∧ frame.sendConfirm = .zero ∧ frame.confirmHash = .zero := ⟨_, rfl, rfl, rfl, rfl⟩
  obtain ⟨frame, parsed, seq, counter, hash⟩ := header
  have first : parseSendConfirm malloc (confirmBytes low high) ⟨8, 0⟩ = copyField malloc (confirmBytes low high) ⟨8, 0⟩ 2 false := rfl
  have second : parseConfirmHash malloc (confirmBytes low high) ⟨10, 1⟩ = copyField malloc (confirmBytes low high) ⟨10, 1⟩ 32 false := rfl
  have length : (confirmBytes low high).length = 42 := rfl
  rw [parsed, parseConfirm, first, copyField_cases malloc (by rw [length]; decide) (by decide) (by decide)]
  by_cases one : malloc 0 = true
  · rw [if_pos one]
    dsimp only [bind, Except.bind]
    rw [second, copyField_cases malloc (by rw [length]) (by decide) (by decide)]
    by_cases two : malloc 1 = true
    · rw [if_pos two]
      exact ⟨_, _, rfl, seq, fun _ _ => rfl, rfl, rfl⟩
    · rw [if_neg two]
      exact ⟨_, _, rfl, seq, fun _ wrong => absurd wrong two, rfl, congrArg Slot.isPlaceholder hash⟩
  · rw [if_neg one]
    exact ⟨_, _, rfl, seq, fun wrong => absurd wrong one, congrArg Slot.isPlaceholder counter, congrArg Slot.isPlaceholder hash⟩

/-- No confirm packet of the generator is understood by the driver: it reads a confirm frame
without placeholders. -/
theorem confirm_never_agrees (malloc : Malloc) (endianness : Endianness) (constructor : String) (status : List Bool)
    (named : NamesNode "CONFIRM" constructor 0) (two : status.length = 16) :
    ∃ packet metadata value, serializeBytes endianness (confirmPacket constructor status) = .ok (packet, metadata) ∧
      parsePacket packet = some (.confirm, confirmOracle value) ∧
      ∃ code frame, parseFuzzerFrame malloc packet = .ok (code, frame) ∧ frame.seq = 2 ∧
        (malloc 0 = true → malloc 1 = true → code = saeConfirmFrame) ∧
        ¬(code = saeConfirmFrame ∧ frame.sendConfirm.isPlaceholder = true ∧ frame.confirmHash.isPlaceholder = true) := by
  obtain ⟨code, frame, parsed, seq, succeeds, counter, _⟩ := parseFuzzerFrame_confirm malloc
    (UInt8.ofNat (boolsToByte (status.drop 8))) (UInt8.ofNat (boolsToByte (status.take 8)))
  refine ⟨_, _, _, confirmPacket_bytes endianness named two, parsePacket_confirmBytes _ _, code, frame, parsed, seq, succeeds, ?_⟩
  rintro ⟨_, wrong, _⟩
  rw [counter] at wrong
  cases wrong

theorem confirm_misread : ∃ packet metadata, serializeBytes .little (confirmPacket "CONFIRM" (word 0)) = .ok (packet, metadata) ∧
    ∃ frame, parseFuzzerFrame (fun _ => true) packet = .ok (saeConfirmFrame, frame) ∧
      frame.sendConfirm = ⟨some (asciiBytes "EN"), 2, true, false⟩ ∧
      frame.confirmHash = ⟨some (asciiBytes "D_CONFIRM_COUNTER><CONFIRM_HASH>"), 32, true, false⟩ := by
  refine ⟨_, _, confirmPacket_bytes .little (Or.inl rfl) rfl, _, rfl, ?_, ?_⟩
  · decide +kernel
  · decide +kernel

theorem confirm_one_never_agrees : ∃ packet metadata value, serializeBytes .big (confirmPacket "confirm_con0" (word 1)) = .ok (packet, metadata) ∧
      parsePacket packet = some (.confirm, confirmOracle value) ∧
      ∃ code frame, parseFuzzerFrame (fun _ => true) packet = .ok (code, frame) ∧ frame.seq = 2 ∧
        (true = true → true = true → code = saeConfirmFrame) ∧
        ¬(code = saeConfirmFrame ∧ frame.sendConfirm.isPlaceholder = true ∧ frame.confirmHash.isPlaceholder = true) :=
  confirm_never_agrees (fun _ => true) .big "confirm_con0" (word 1) (Or.inr (by decide +kernel)) rfl

end Reading

end LtlFuzz.Driver

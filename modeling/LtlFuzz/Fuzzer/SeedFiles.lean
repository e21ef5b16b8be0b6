import LtlFuzz.Fuzzer.Regions

/-! Messages and the files they go through. A queue entry is a file of bytes with the regions that
cut it; a replayable file has the size of each message before it. Messages are byte strings
here, in the order of `kl_messages`. -/

namespace LtlFuzz.Fuzzer
open Logic

section Files

def maxAlloc : Nat := 0x40000000

/-- `fread` into memory that `ck_alloc` has zeroed. -/
def readInto (len : Nat) (file : List UInt8) : List UInt8 := file.take len ++ List.replicate (len - file.length) 0

/-- `construct_kl_messages`, from what is left of the file; there is no memory of size 0. -/
def constructKlMessages : List UInt8 → List Region → Option (List (List UInt8))
  | _, [] => some []
  | file, region :: regions =>
    let len := wrap (region.endByte + 2 ^ 32 - region.startByte + 1)
    if len = 0 ∨ maxAlloc < len then none
    else (constructKlMessages (file.drop len) regions).map (readInto len file :: ·)

def le32 (n : Nat) : List UInt8 := [UInt8.ofNat n, UInt8.ofNat (n / 2 ^ 8), UInt8.ofNat (n / 2 ^ 16), UInt8.ofNat (n / 2 ^ 24)]

def saveKlMessagesToFile (messages : List (List UInt8)) (replayEnabled : Bool) (maxCount : Nat) : List UInt8 :=
  (messages.take maxCount).flatMap fun message => if replayEnabled then le32 message.length ++ message else message

/-- The loop of `convert_kl_messages_to_regions`, whose `cur_start` and `cur_end` are signed. -/
def convertFrom (curStart : Nat) : List (List UInt8) → Option (List Region)
  | [] => some []
  | message :: messages =>
    let curEnd := wrap (curStart + message.length + 2 ^ 32 - 1)
    if 2 ^ 31 ≤ curEnd then none else (convertFrom (wrap (curEnd + 1)) messages).map (⟨curStart, curEnd, []⟩ :: ·)

def convertKlMessagesToRegions (messages : List (List UInt8)) (maxCount : Nat) : Option (List Region) :=
  convertFrom 0 (messages.take maxCount)

/-- How the network answers in one turn of `aflnet-replay`: whether `net_recv` fails, what `net_send`
returns, and whether the second `net_recv` fails. -/
structure ReplayTurn where
  deaf : Bool
  sent : Int
  unanswered : Bool

/-- What `aflnet-replay` hands to `net_send`, unless `ck_alloc` ends it first. -/
def replayFrom (network : Nat → ReplayTurn) (packetCount : Nat) (file : List UInt8) : Option (List (List UInt8)) :=
  if _long : 4 ≤ file.length then
    let size := file[0].toNat + 2 ^ 8 * file[1].toNat + 2 ^ 16 * file[2].toNat + 2 ^ 24 * file[3].toNat
    if maxAlloc < size then none
    else
      let buf := readInto size (file.drop 4)
      let turn := network packetCount
      if turn.deaf then some []
      else if turn.sent ≠ size then some [buf]
      else if turn.unanswered then some [buf]
      else (replayFrom network (packetCount + 1) ((file.drop 4).drop size)).map (buf :: ·)
  else some []
termination_by file.length
decreasing_by
  simp only [List.length_drop]
  omega

def replayPackets (network : Nat → ReplayTurn) (file : List UInt8) : Option (List (List UInt8)) := replayFrom network 0 file

end Files

section RoundTrips

variable {lo : Nat}

theorem readInto_enough {len : Nat} {file : List UInt8} (enough : len ≤ file.length) : readInto len file = file.take len := by
  rw [readInto, Nat.sub_eq_zero_of_le enough, List.replicate_zero, List.append_nil]

/-- The messages of a tiled file are the pieces of the tiling. -/
theorem constructKlMessages_tiles {file : List UInt8} {regions : List Region} {hi : Nat}
    (tiles : Tiles lo (regions.map Region.piece) hi) (inside : hi ≤ file.length) (small : file.length ≤ maxAlloc) :
    constructKlMessages (file.drop lo) regions = some (regions.map fun region => cut file region.piece) := by
  induction regions generalizing lo with
  | nil => rfl
  | cons region regions ih =>
    obtain ⟨first, ordered, tiles⟩ := tiles
    simp only [Region.piece] at first ordered tiles
    have within := tiles.le
    have bound : file.length ≤ 0x40000000 := small
    have len : wrap (region.endByte + 2 ^ 32 - region.startByte + 1) = region.endByte + 1 - region.startByte := by
      unfold wrap
      omega
    rw [constructKlMessages]
    simp only [len]
    rw [if_neg (by unfold maxAlloc; omega), List.drop_drop,
      show lo + (region.endByte + 1 - region.startByte) = region.endByte + 1 by omega,
      ih tiles]
    rw [Option.map_some, readInto_enough (by rw [List.length_drop]; omega), List.map_cons, ← first]
    rfl

/-- The regions of messages that are not empty tile their bytes. -/
theorem convertFrom_tiles (lo : Nat) {messages : List (List UInt8)} (some_ : ∀ message ∈ messages, message ≠ [])
    (small : lo + messages.flatten.length < 2 ^ 31) :
    ∃ regions, convertFrom lo messages = some regions ∧ Tiles lo (regions.map Region.piece) (lo + messages.flatten.length) ∧
      ∀ before : List UInt8, before.length = lo →
        (regions.map fun region => cut (before ++ messages.flatten) region.piece) = messages := by
  induction messages generalizing lo with
  | nil => exact ⟨[], rfl, rfl, fun _ _ => rfl⟩
  | cons message messages ih =>
    rw [List.flatten_cons, List.length_append] at small ⊢
    have positive := List.length_pos_of_ne_nil (some_ message List.mem_cons_self)
    have end_ : wrap (lo + message.length + 2 ^ 32 - 1) = lo + message.length - 1 := by
      unfold wrap
      omega
    have next : wrap (lo + message.length - 1 + 1) = lo + message.length := by
      unfold wrap
      omega
    obtain ⟨regions, found, tiles, cuts⟩ := ih (lo + message.length)
      (fun message member => some_ message (List.mem_cons_of_mem _ member)) (by omega)
    rw [convertFrom]
    simp only [end_, next]
    rw [if_neg (by omega), found]
    refine ⟨_, rfl, ?_, ?_⟩
    · simp only [List.map_cons, Region.piece, tiles_cons, show lo + message.length - 1 + 1 = lo + message.length by omega]
      exact ⟨trivial, by omega, by rwa [Nat.add_assoc] at tiles⟩
    · intro before length
      have rest := cuts (before ++ message) (by rw [List.length_append, length])
      rw [List.append_assoc] at rest
      rw [List.map_cons, rest, cut, Region.piece]
      simp only
      rw [← length, List.drop_left, show before.length + message.length - 1 + 1 - before.length = message.length by omega,
        List.take_left]

/-- A queue entry gives back the messages it was made of: the file and the regions that `add_to_queue` keeps of the messages
sent cut into these messages again, when none is empty. -/
theorem queueEntry_messages {messages : List (List UInt8)} {messagesSent : Nat}
    (some_ : ∀ message ∈ messages.take messagesSent, message ≠ [])
    (small : (saveKlMessagesToFile messages false messagesSent).length ≤ maxAlloc) :
    ∃ regions, convertKlMessagesToRegions messages messagesSent = some regions ∧
      Tiles 0 (regions.map Region.piece) (saveKlMessagesToFile messages false messagesSent).length ∧
      constructKlMessages (saveKlMessagesToFile messages false messagesSent) regions = some (messages.take messagesSent) := by
  have file : saveKlMessagesToFile messages false messagesSent = (messages.take messagesSent).flatten := by
    simp [saveKlMessagesToFile, List.flatMap_id']
  rw [file] at small ⊢
  have bound : (messages.take messagesSent).flatten.length ≤ 0x40000000 := small
  obtain ⟨regions, found, tiles, cuts⟩ := convertFrom_tiles 0 some_ (by omega)
  rw [Nat.zero_add] at tiles
  refine ⟨regions, found, tiles, ?_⟩
  have messages_ := constructKlMessages_tiles tiles (Nat.le_refl _) small
  rw [List.drop_zero] at messages_
  rw [messages_]
  exact congrArg some (cuts [] rfl)

/-- Three messages of a session, two of them sent. -/
theorem queueEntry_messages_session :
    ∃ regions, convertKlMessagesToRegions [ascii "USER u\r\n", ascii "PASS p\r\n", ascii "QUIT\r\n"] 2 = some regions ∧
      Tiles 0 (regions.map Region.piece)
        (saveKlMessagesToFile [ascii "USER u\r\n", ascii "PASS p\r\n", ascii "QUIT\r\n"] false 2).length ∧
      constructKlMessages (saveKlMessagesToFile [ascii "USER u\r\n", ascii "PASS p\r\n", ascii "QUIT\r\n"] false 2) regions =
        some ([ascii "USER u\r\n", ascii "PASS p\r\n", ascii "QUIT\r\n"].take 2) :=
  queueEntry_messages (by decide) (by decide)

/-- What a seed becomes: messages that are not empty, and give back the seed but for a single byte at its end. -/
theorem Cuts.messages {buf : List UInt8} {regions : List Region} (cuts : Cuts buf regions) (small : buf.length ≤ maxAlloc) :
    ∃ messages, constructKlMessages buf regions = some messages ∧ (∀ message ∈ messages, message ≠ []) ∧
      (messages.flatten = buf ∨ messages.flatten = buf.dropLast) := by
  have each {hi : Nat} (tiles : Tiles 0 (regions.map Region.piece) hi) (inside : hi ≤ buf.length) :
      constructKlMessages buf regions = some (regions.map fun region => cut buf region.piece) ∧
        (∀ message ∈ regions.map fun region => cut buf region.piece, message ≠ []) ∧
        (regions.map fun region => cut buf region.piece).flatten = buf.take hi := by
    refine ⟨constructKlMessages_tiles tiles inside small, ?_, ?_⟩
    · intro message member
      obtain ⟨region, known, rfl⟩ := List.mem_map.mp member
      obtain ⟨ordered, within⟩ := tiles.mem (List.mem_map.mpr ⟨region, known, rfl⟩)
      apply List.ne_nil_of_length_pos
      rw [length_cut]
      omega
    · have whole := tiles.flatten buf
      rwa [List.map_map, List.drop_zero] at whole
  rcases cuts with tiles | ⟨tiles, _⟩
  · obtain ⟨found, some_, whole⟩ := each tiles (Nat.le_refl _)
    exact ⟨_, found, some_, Or.inl (whole.trans List.take_length)⟩
  · obtain ⟨found, some_, whole⟩ := each tiles (Nat.sub_le _ _)
    exact ⟨_, found, some_, Or.inr (whole.trans List.dropLast_eq_take.symm)⟩

/-- The extractors whose regions never leave the buffer. -/
def extractors (past : UInt8) : List (List UInt8 → Option (List Region)) :=
  scanners.map Prod.fst ++ [extractRequestsTls, extractRequestsSsh, extractRequestsDicom, fun buf => some (extractRequestsDtls12 past buf)]

theorem extractors_cut {past : UInt8} {extractRequests : List UInt8 → Option (List Region)} (member : extractRequests ∈ extractors past)
    {buf : List UInt8} (small : buf.length ≤ maxAlloc) : ∃ regions, extractRequests buf = some regions ∧ Cuts buf regions := by
  simp only [extractors, List.mem_append, List.mem_map, List.mem_cons, List.not_mem_nil, or_false] at member
  rcases member with ⟨scanner, known, rfl⟩ | rfl | rfl | rfl | rfl
  · obtain ⟨scans, long⟩ := scanner_boundary known
    obtain ⟨regions, found, cuts, _⟩ := scanRequests_cuts long buf
    exact ⟨regions, by rw [scans, found], cuts⟩
  · exact (extractRequestsTls_tiles buf).imp fun regions both => ⟨both.1, Or.inl both.2⟩
  · exact extractRequestsSsh_cuts buf
  · have bound : buf.length ≤ 0x40000000 := small
    exact (extractRequestsDicom_tiles (by omega)).imp fun regions both => ⟨both.1, Or.inl both.2⟩
  · exact ⟨_, rfl, Or.inl (extractRequestsDtls12_tiles past buf).1⟩

theorem seed_messages (past : UInt8) (extractRequests : List UInt8 → Option (List Region)) (member : extractRequests ∈ extractors past)
    {seed : List UInt8} (small : seed.length ≤ maxAlloc) :
    ∃ regions messages, extractRequests seed = some regions ∧ constructKlMessages seed regions = some messages ∧
      (∀ message ∈ messages, message ≠ []) ∧ (messages.flatten = seed ∨ messages.flatten = seed.dropLast) := by
  obtain ⟨regions, found, cuts⟩ := extractors_cut member small
  obtain ⟨messages, made, some_, whole⟩ := cuts.messages small
  exact ⟨regions, messages, found, made, some_, whole⟩

theorem seed_messages_ftp :
    ∃ regions messages, extractRequestsFtp (ascii "PASV\r\nQUIT\r\n\n") = some regions ∧
      constructKlMessages (ascii "PASV\r\nQUIT\r\n\n") regions = some messages ∧ (∀ message ∈ messages, message ≠ []) ∧
      (messages.flatten = ascii "PASV\r\nQUIT\r\n\n" ∨ messages.flatten = (ascii "PASV\r\nQUIT\r\n\n").dropLast) :=
  seed_messages 0 extractRequestsFtp (by simp [extractors, scanners]) (by decide)

theorem le32_toNat {n : Nat} (small : n < 2 ^ 32) : ∃ a b c d, le32 n = [a, b, c, d] ∧
    a.toNat + 2 ^ 8 * b.toNat + 2 ^ 16 * c.toNat + 2 ^ 24 * d.toNat = n := by
  refine ⟨_, _, _, _, rfl, ?_⟩
  simp only [UInt8.toNat_ofNat']
  omega

theorem replayFrom_cons (network : Nat → ReplayTurn) (packetCount : Nat) {message : List UInt8} (small : message.length ≤ maxAlloc)
    (rest : List UInt8) : replayFrom network packetCount (le32 message.length ++ message ++ rest) =
      if (network packetCount).deaf then some []
      else if (network packetCount).sent ≠ message.length then some [message]
      else if (network packetCount).unanswered then some [message]
      else (replayFrom network (packetCount + 1) rest).map (message :: ·) := by
  have fits : maxAlloc < 2 ^ 32 := by decide
  obtain ⟨a, b, c, d, bytes, size⟩ := le32_toNat (Nat.lt_of_le_of_lt small fits)
  rw [replayFrom, bytes]
  simp only [List.cons_append, List.nil_append, List.length_cons, List.getElem_cons_zero, List.getElem_cons_succ, List.drop_succ_cons,
    List.drop_zero, size]
  rw [dif_pos (by omega), if_neg (Nat.not_lt.mpr small), readInto_enough (by simp), List.take_left, List.drop_left]

/-- No call fails while these messages are sent, the first in this turn. -/
def AllSent (network : Nat → ReplayTurn) (packetCount : Nat) (messages : List (List UInt8)) : Prop :=
  ∀ i message, messages[i]? = some message →
    (network (packetCount + i)).deaf = false ∧ (network (packetCount + i)).sent = message.length ∧
      (network (packetCount + i)).unanswered = false

theorem replayFrom_messages (network : Nat → ReplayTurn) (packetCount : Nat) {messages : List (List UInt8)}
    (small : ∀ message ∈ messages, message.length ≤ maxAlloc) :
    (∃ handed, replayFrom network packetCount (messages.flatMap fun message => le32 message.length ++ message) =
      some (messages.take handed)) ∧
    (AllSent network packetCount messages →
      replayFrom network packetCount (messages.flatMap fun message => le32 message.length ++ message) = some messages) := by
  induction messages generalizing packetCount with
  | nil => simp [replayFrom]
  | cons message rest ih =>
    obtain ⟨⟨handed, some_⟩, all⟩ := ih (packetCount + 1) fun other member => small other (List.mem_cons_of_mem _ member)
    rw [List.flatMap_cons, replayFrom_cons network packetCount (small message List.mem_cons_self)]
    constructor
    · split
      · exact ⟨0, rfl⟩
      · split
        · exact ⟨1, by simp⟩
        · split
          · exact ⟨1, by simp⟩
          · exact ⟨handed + 1, by rw [some_]; rfl⟩
    · intro sent
      have later : AllSent network (packetCount + 1) rest := by
        intro i other here
        rw [Nat.add_assoc, Nat.add_comm 1 i]
        exact sent (i + 1) other here
      obtain ⟨heard, whole, answered⟩ := sent 0 message rfl
      rw [Nat.add_zero] at heard whole answered
      rw [heard, whole, answered, all later]
      simp

/-- Of a replayable file `aflnet-replay` hands the messages it was saved from to `net_send`, in their order: all of them as
long as no call fails, and the first ones in any case. -/
theorem replayPackets_save (network : Nat → ReplayTurn) {messages : List (List UInt8)} {maxCount : Nat}
    (small : ∀ message ∈ messages, message.length ≤ maxAlloc) :
    (∃ handed, replayPackets network (saveKlMessagesToFile messages true maxCount) = some ((messages.take maxCount).take handed)) ∧
    (AllSent network 0 (messages.take maxCount) →
      replayPackets network (saveKlMessagesToFile messages true maxCount) = some (messages.take maxCount)) :=
  replayFrom_messages network 0 fun message member => small message (List.mem_of_mem_take member)

/-- A network that takes every message, and one that stops after the second. -/
theorem replayPackets_save_session :
    let messages := [ascii "USER u\r\n", [], ascii "QUIT\r\n"]
    let network : Nat → ReplayTurn := fun i => ⟨false, ([8, 0, 6].getD i 0 : Nat), false⟩
    let broken : Nat → ReplayTurn := fun i => ⟨false, if i = 1 then -1 else ([8, 0, 6].getD i 0 : Nat), false⟩
    replayPackets network (saveKlMessagesToFile messages true 3) = some messages ∧
      ∃ handed, replayPackets broken (saveKlMessagesToFile messages true 3) = some ((messages.take 3).take handed) := by
  intro messages network broken
  have small : ∀ message ∈ messages, message.length ≤ maxAlloc := by decide
  refine ⟨(replayPackets_save network small).2 ?_, (replayPackets_save broken small).1⟩
  rintro (_ | _ | _ | i) message here
  · cases here; decide
  · cases here; decide
  · cases here; decide
  · cases here

end RoundTrips

end LtlFuzz.Fuzzer

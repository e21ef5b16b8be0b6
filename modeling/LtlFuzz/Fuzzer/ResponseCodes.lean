import LtlFuzz.Fuzzer.Regions
import LtlFuzz.Logic.Reader
import LtlFuzz.Text.Numbers

/-! The states of a server. An extractor goes over the first bytes of a response buffer and gives
the state sequence; `update_region_annotations` calls it for each message with the bytes that had come until
then. The buffer may be longer than what is asked for, and `none` stands for a read or a write
out of bounds, or for a loop that does not end. -/

namespace LtlFuzz.Fuzzer
open Logic

section Extractors

/-- Where a scanner is: `mem` keeps what it held before in the positions not yet written again. -/
structure Scanner where
  byteCount : Nat
  mem : Nat → UInt8
  memCount : Nat
  memSize : Nat

namespace Scanner

def start : Scanner := ⟨0, fun _ => 0, 0, 1024⟩

/-- A byte is copied to `mem`, and `byte_count` goes on. -/
def take (scanner : Scanner) (buf : List UInt8) : Option Scanner := do
  let byte ← buf[scanner.byteCount]?
  if scanner.memSize ≤ scanner.memCount then none
  else some { scanner with byteCount := scanner.byteCount + 1, mem := Function.update scanner.mem scanner.memCount byte }

def grow (scanner : Scanner) : Scanner :=
  { scanner with
    memCount := scanner.memCount + 1
    memSize := if scanner.memCount + 1 = scanner.memSize then scanner.memSize * 2 else scanner.memSize }

def reset (scanner : Scanner) : Scanner := { scanner with memCount := 0 }

def slice (scanner : Scanner) (first count : Nat) : List UInt8 := (List.range count).map fun i => scanner.mem (first + i)

/-- `atoi` on three bytes of `mem`, as `unsigned int`. -/
def code (scanner : Scanner) (first : Nat) : Nat :=
  (Text.atoi ((scanner.slice first 3).map fun byte : UInt8 => Char.ofNat byte.toNat) % 2 ^ 32).toNat

end Scanner

/-- What the extractors for texts differ in: the end of a line and how far in it may be, the bytes a status line begins with, the
position of the code, and what becomes of it. -/
structure Dialect where
  terminator : List UInt8
  above : Nat
  header : List UInt8
  offset : Nat
  final : List UInt8 → Nat → Nat → Option Nat := fun _ _ code => some code

/-- A turn of the loop of such an extractor. A code of zero ends it. -/
def statusTurn (dialect : Dialect) (buf : List UInt8) (_ : Nat) (scanner : Scanner) : Option (Logic.Turn Scanner Nat) := do
  let scanner ← scanner.take buf
  if dialect.above < scanner.memCount ∧
      scanner.slice (scanner.memCount + 1 - dialect.terminator.length) dialect.terminator.length = dialect.terminator then
    if dialect.header.length ≤ scanner.memCount ∧ scanner.slice 0 dialect.header.length = dialect.header then
      if scanner.code dialect.offset = 0 then some ⟨[], none⟩
      else (dialect.final buf scanner.byteCount (scanner.code dialect.offset)).map fun code => ⟨[code], some scanner.reset⟩
    else some ⟨[], some scanner.reset⟩
  else some ⟨[], some scanner.grow⟩

/-- The states up to a size, of a buffer that may go on; the first is the initial state. -/
def statusCodes (dialect : Dialect) (buf : List UInt8) (bufSize : Nat) : Option (List Nat) :=
  (readUpTo (statusTurn dialect buf) Scanner.byteCount bufSize (bufSize + 1) Scanner.start).map (0 :: ·)

def smtpDialect : Dialect := { terminator := crlf, above := 0, header := [], offset := 0 }

def ftpDialect : Dialect := { terminator := crlf, above := 0, header := [], offset := 0 }

def rtspDialect : Dialect := { terminator := crlf, above := 0, header := ascii "RTSP/", offset := 9 }

def sipDialect : Dialect := { terminator := crlf, above := 0, header := ascii "SIP/", offset := 8 }

def httpDialect : Dialect := { terminator := crlf, above := 0, header := ascii "HTTP/", offset := 9 }

/-- After a code of 200 come the third and the fourth byte of the IPP response, which may lie past the buffer. -/
def ippDialect : Dialect where
  terminator := crlf ++ crlf
  above := 3
  header := ascii "HTTP/"
  offset := 9
  final buf byteCount code :=
    if code = 200 then do
      let third ← buf[byteCount + 2]?
      let fourth ← buf[byteCount + 3]?
      return code + (10 * third.toNat + fourth.toNat)
    else some code

def extractResponseCodesSmtp : List UInt8 → Nat → Option (List Nat) := statusCodes smtpDialect

def extractResponseCodesFtp : List UInt8 → Nat → Option (List Nat) := statusCodes ftpDialect

def extractResponseCodesRtsp : List UInt8 → Nat → Option (List Nat) := statusCodes rtspDialect

def extractResponseCodesSip : List UInt8 → Nat → Option (List Nat) := statusCodes sipDialect

def extractResponseCodesHttp : List UInt8 → Nat → Option (List Nat) := statusCodes httpDialect

def extractResponseCodesIpp : List UInt8 → Nat → Option (List Nat) := statusCodes ippDialect

/-- A turn of the loop of `extract_response_codes_tls`: the seventh byte of a record gives the state and skips the payload. -/
def tlsTurn (buf : List UInt8) (bufSize : Nat) (scanner : Scanner) : Option (Logic.Turn Scanner Nat) := do
  let scanner ← scanner.take buf
  if 6 ≤ scanner.memCount then
    let contentType := (scanner.mem 0).toNat
    let messageType := if contentType ≠ 0x17 then (scanner.mem 5).toNat else 0xFF
    let messageSize := (scanner.mem 3).toNat * 2 ^ 8 + (scanner.mem 4).toNat
    let bytesToSkip := wrap (messageSize + 2 ^ 32 - 1)
    let byteCount := min bufSize (scanner.byteCount + bytesToSkip)
    let byteCount := if byteCount < bufSize then byteCount - 1 else byteCount
    some ⟨[contentType * 2 ^ 8 + messageType], some { scanner.reset with byteCount }⟩
  else some ⟨[], some scanner.grow⟩

def extractResponseCodesTls (buf : List UInt8) (bufSize : Nat) : Option (List Nat) :=
  (readUpTo (tlsTurn buf) Scanner.byteCount bufSize (7 * bufSize + 1) Scanner.start).map (0 :: ·)

/-- A `char`, which is signed, as `unsigned int`. -/
def signExtend (byte : UInt8) : Nat := if byte.toNat < 2 ^ 7 then byte.toNat else 2 ^ 32 - 2 ^ 8 + byte.toNat

/-- A turn of the loop of `extract_response_codes_dns`, which ends a message six bytes after the first zero past its header. -/
def dnsTurn (buf : List UInt8) (_ : Nat) (scanner : Scanner) : Option (Logic.Turn Scanner Nat) := do
  let scanner ← scanner.take buf
  if 12 ≤ scanner.memCount ∧ scanner.mem scanner.memCount = 0 then
    some ⟨[wrap (signExtend (scanner.mem 2) * 2 ^ 8 + signExtend (scanner.mem 3))],
      some { scanner.reset with byteCount := scanner.byteCount + 5 }⟩
  else some ⟨[], some scanner.grow⟩

def extractResponseCodesDns (buf : List UInt8) (bufSize : Nat) : Option (List Nat) :=
  (readUpTo (dnsTurn buf) Scanner.byteCount bufSize (bufSize + 1) Scanner.start).map (0 :: ·)

def readBytesToUint32 (buf : List UInt8) (offset : Nat) : Nat → Option Nat
  | 0 => some 0
  | numBytes + 1 => do
    let value ← readBytesToUint32 buf offset numBytes
    let byte ← buf[offset + numBytes]?
    return value * 2 ^ 8 + byte.toNat

/-- The message type of a DTLS record. The record length is unsigned, and no record is ever found to be too long. -/
def dtlsMessageType (buf : List UInt8) (byteCount recordLength contentType : Nat) : Option Nat := do
  if contentType = 0x16 then
    let message ← buf[byteCount + 13]?
    if 12 ≤ recordLength then
      let fragLength ← readBytesToUint32 buf (byteCount + 22) 3
      return if wrap (recordLength + 2 ^ 32 - fragLength) = 12 then message.toNat else 0xFF
    else return 0xFE
  else if contentType = 0x14 then
    if recordLength = 1 then
      let message ← buf[byteCount + 13]?
      return message.toNat
    else return if 1 < recordLength then 0xFF else 0xFE
  else if contentType = 0x15 then
    if recordLength = 2 then
      let type ← buf[byteCount + 14]?
      return type.toNat
    else return if 2 < recordLength then 0xFF else 0xFE
  else if contentType = 0x17 then return 0xFF
  else return if 3 ≤ recordLength then 0xFF else 0xFE

/-- A turn of the loop of `extract_response_codes_dtls12`, which goes on by the record length only. -/
def dtlsTurn (buf : List UInt8) (bufSize byteCount : Nat) : Option (Logic.Turn Nat Nat) := do
  if 13 < bufSize - byteCount then
    let type ← buf[byteCount]?
    let major ← buf[byteCount + 1]?
    let minor ← buf[byteCount + 2]?
    if 0x14 ≤ type.toNat ∧ type.toNat ≤ 0x18 ∧ major = 0xFE ∧ minor = 0xFD then
      let recordLength ← readBytesToUint32 buf (byteCount + 11) 2
      let messageType ← dtlsMessageType buf byteCount recordLength type.toNat
      return ⟨[type.toNat * 2 ^ 8 + messageType], some (byteCount + recordLength)⟩
    else return ⟨[], some (byteCount + 1)⟩
  else return ⟨[], some (byteCount + 1)⟩

def extractResponseCodesDtls12 (buf : List UInt8) (bufSize : Nat) : Option (List Nat) :=
  (readUpTo (dtlsTurn buf) id bufSize (bufSize + 1) 0).map (0 :: ·)

def extractResponseCodesDicom (buf : List UInt8) (bufSize : Nat) : Option (List Nat) :=
  if bufSize = 0 then some [] else buf[0]?.map fun type => [0, type.toNat]

end Extractors

section Prefixes

variable {buf : List UInt8}

theorem tlsTurn_steady (buf : List UInt8) : Steady (tlsTurn buf) Scanner.byteCount := by
  intro limit larger scanner wider inside
  unfold tlsTurn
  cases taken : scanner.take buf with
  | none => exact Or.inl rfl
  | some next =>
    simp only [Option.bind_eq_bind, Option.bind_some]
    by_cases header : 6 ≤ next.memCount
    · simp only [if_pos header]
      generalize skip : wrap ((next.mem 3).toNat * 2 ^ 8 + (next.mem 4).toNat + 2 ^ 32 - 1) = bytesToSkip
      by_cases fits : next.byteCount + bytesToSkip < limit
      · left
        rw [Nat.min_eq_right (by omega), Nat.min_eq_right (by omega), if_pos fits,
          if_pos (show next.byteCount + bytesToSkip < larger by omega)]
      · right
        intro fuel items result read other
        cases fuel with
        | zero => cases read
        | succ fuel =>
          rw [readUpTo, if_pos inside] at read
          simp only [taken, Option.bind_some, if_pos header, skip, Option.map_eq_some_iff] at read
          rw [Nat.min_eq_left (by omega), if_neg (Nat.lt_irrefl _)] at read
          obtain ⟨rest, later, rfl⟩ := read
          obtain rfl := readUpTo_done (Nat.le_refl limit) later
          obtain rfl := Option.some.inj other
          exact List.prefix_rfl
    · left
      simp only [if_neg header]

/-- In the last thirteen bytes there is no record. -/
theorem dtlsTurn_late {limit byteCount fuel : Nat} {items : List Nat} (late : limit ≤ byteCount + 13)
    (read : readUpTo (dtlsTurn buf) id limit fuel byteCount = some items) : items = [] := by
  induction fuel generalizing byteCount items with
  | zero => cases read
  | succ fuel ih =>
    rw [readUpTo] at read
    split at read
    · rw [dtlsTurn, if_neg (by omega)] at read
      simp only [Option.pure_def, Option.map_eq_some_iff] at read
      obtain ⟨rest, later, rfl⟩ := read
      exact ih (by omega) later
    · exact (Option.some.inj read).symm

theorem dtlsTurn_steady (buf : List UInt8) : Steady (dtlsTurn buf) id := by
  intro limit larger byteCount wider inside
  by_cases early : 13 < limit - byteCount
  · left
    rw [dtlsTurn, dtlsTurn, if_pos early, if_pos (by omega)]
  · right
    intro fuel items result read _
    obtain rfl := dtlsTurn_late (by omega) read
    exact List.nil_prefix

/-- The extractors that never take back what they made of fewer bytes. -/
def steadyExtractors : List (List UInt8 → Nat → Option (List Nat)) :=
  [extractResponseCodesSmtp, extractResponseCodesFtp, extractResponseCodesRtsp, extractResponseCodesSip, extractResponseCodesHttp,
    extractResponseCodesIpp, extractResponseCodesTls, extractResponseCodesDns, extractResponseCodesDtls12, extractResponseCodesDicom]

/-- Fewer bytes give a part of the states from the initial state on. -/
structure Gradual (extractResponseCodes : List UInt8 → Nat → Option (List Nat)) : Prop where
  prefix_ : ∀ {buf bufSize larger short long}, bufSize ≤ larger → extractResponseCodes buf bufSize = some short →
    extractResponseCodes buf larger = some long → short <+: long
  begins : ∀ {buf bufSize states}, 0 < bufSize → extractResponseCodes buf bufSize = some states → ∃ codes, states = 0 :: codes

theorem Gradual.of_steady {σ : Type} {turn : List UInt8 → Nat → σ → Option (Logic.Turn σ Nat)} {position : σ → Nat}
    (steady : ∀ buf, Steady (turn buf) position) (fuel : Nat → Nat) (start : σ) :
    Gradual fun buf bufSize => (readUpTo (turn buf) position bufSize (fuel bufSize) start).map (0 :: ·) := by
  constructor
  · intro buf bufSize larger short long wider first second
    simp only [Option.map_eq_some_iff] at first second
    obtain ⟨codes, read, rfl⟩ := first
    obtain ⟨codes', read', rfl⟩ := second
    exact (List.prefix_append_right_inj [0]).mpr ((steady buf).grows wider read read')
  · intro buf bufSize states _ read
    simp only [Option.map_eq_some_iff] at read
    obtain ⟨codes, _, rfl⟩ := read
    exact ⟨codes, rfl⟩

theorem statusCodes_gradual (dialect : Dialect) : Gradual (statusCodes dialect) :=
  Gradual.of_steady (fun _ => Steady.of_constant fun _ _ _ => rfl) (· + 1) Scanner.start

theorem extractResponseCodesDicom_gradual : Gradual extractResponseCodesDicom := by
  constructor
  · intro buf bufSize larger short long wider first second
    unfold extractResponseCodesDicom at first second
    by_cases none_ : bufSize = 0
    · rw [if_pos none_] at first
      rw [← Option.some.inj first]
      exact List.nil_prefix
    · rw [if_neg none_] at first
      rw [if_neg (by omega), first] at second
      obtain rfl := Option.some.inj second
      exact List.prefix_rfl
  · intro buf bufSize states positive read
    rw [extractResponseCodesDicom, if_neg (by omega), Option.map_eq_some_iff] at read
    obtain ⟨type, _, rfl⟩ := read
    exact ⟨_, rfl⟩

theorem steadyExtractors_gradual {extractResponseCodes : List UInt8 → Nat → Option (List Nat)}
    (member : extractResponseCodes ∈ steadyExtractors) : Gradual extractResponseCodes := by
  simp only [steadyExtractors, List.mem_cons, List.not_mem_nil, or_false] at member
  rcases member with rfl | rfl | rfl | rfl | rfl | rfl | rfl | rfl | rfl | rfl
  · exact statusCodes_gradual smtpDialect
  · exact statusCodes_gradual ftpDialect
  · exact statusCodes_gradual rtspDialect
  · exact statusCodes_gradual sipDialect
  · exact statusCodes_gradual httpDialect
  · exact statusCodes_gradual ippDialect
  · exact Gradual.of_steady tlsTurn_steady (7 * · + 1) Scanner.start
  · exact Gradual.of_steady (fun _ => Steady.of_constant fun _ _ _ => rfl) (· + 1) Scanner.start
  · exact Gradual.of_steady dtlsTurn_steady (· + 1) 0
  · exact extractResponseCodesDicom_gradual

end Prefixes

section Returns

variable {buf : List UInt8} {bufSize : Nat} {scanner : Scanner}

theorem Scanner.take_spec (inside : scanner.byteCount < buf.length) (room : scanner.memCount < scanner.memSize) :
    ∃ mem, scanner.take buf = some { scanner with byteCount := scanner.byteCount + 1, mem } := by
  refine ⟨Function.update scanner.mem scanner.memCount buf[scanner.byteCount], ?_⟩
  simp only [Scanner.take, List.getElem?_eq_getElem inside, Option.bind_eq_bind, Option.bind_some, if_neg (Nat.not_le.mpr room)]

theorem Scanner.grow_room (room : scanner.memCount < scanner.memSize) : scanner.grow.memCount < scanner.grow.memSize := by
  simp only [Scanner.grow]
  split <;> omega

/-- A scan ends that moves on by at least one byte a turn and keeps room in its memory. -/
theorem Scanner.scan_ends {turn : Nat → Scanner → Option (Logic.Turn Scanner Nat)}
    (moves : ∀ scanner mem, scanner.memCount < scanner.memSize → scanner.byteCount < bufSize →
      scanner.take buf = some { scanner with byteCount := scanner.byteCount + 1, mem } →
      ∃ result, turn bufSize scanner = some result ∧
        ∀ next, result.next = some next → next.memCount < next.memSize ∧ scanner.byteCount < next.byteCount)
    (within : bufSize ≤ buf.length) : ∃ codes, readUpTo turn Scanner.byteCount bufSize (bufSize + 1) Scanner.start = some codes := by
  apply readUpTo_ends (fun scanner => scanner.memCount < scanner.memSize) fun scanner => bufSize - scanner.byteCount
  · intro scanner room inside
    obtain ⟨mem, taken⟩ := Scanner.take_spec (Nat.lt_of_lt_of_le inside within) room
    obtain ⟨result, made, moved⟩ := moves scanner mem room inside taken
    refine ⟨result, made, fun next goes => ?_⟩
    obtain ⟨still, further⟩ := moved next goes
    exact ⟨still, by omega⟩
  · exact Nat.zero_lt_succ 1023
  · simp only [Scanner.start]
    omega

theorem statusCodes_returns {dialect : Dialect}
    (final : ∀ byteCount code, byteCount ≤ bufSize → ∃ result, dialect.final buf byteCount code = some result)
    (within : bufSize ≤ buf.length) : ∃ codes, statusCodes dialect buf bufSize = some (0 :: codes) := by
  have ends : ∃ codes, readUpTo (statusTurn dialect buf) Scanner.byteCount bufSize (bufSize + 1) Scanner.start = some codes := by
    refine Scanner.scan_ends (fun scanner mem room inside taken => ?_) within
    simp only [statusTurn, taken, Option.bind_eq_bind, Option.bind_some]
    split
    next =>
      split
      next =>
        split
        next => exact ⟨_, rfl, nofun⟩
        next =>
          obtain ⟨result, made⟩ := final (scanner.byteCount + 1) _ inside
          rw [made]
          refine ⟨_, rfl, ?_⟩
          rintro next ⟨⟩
          exact ⟨Nat.zero_lt_of_lt room, Nat.lt_succ_self _⟩
      next =>
        refine ⟨_, rfl, ?_⟩
        rintro next ⟨⟩
        exact ⟨Nat.zero_lt_of_lt room, Nat.lt_succ_self _⟩
    next =>
      refine ⟨_, rfl, ?_⟩
      rintro next ⟨⟩
      exact ⟨Scanner.grow_room room, Nat.lt_succ_self _⟩
  obtain ⟨codes, read⟩ := ends
  exact ⟨codes, by rw [statusCodes, read]; rfl⟩

theorem statusCodes_ne_zero {dialect : Dialect}
    (final : ∀ byteCount code result, dialect.final buf byteCount code = some result → code ≠ 0 → result ≠ 0) {codes : List Nat}
    (read : statusCodes dialect buf bufSize = some (0 :: codes)) : ∀ code ∈ codes, code ≠ 0 := by
  rw [statusCodes, Option.map_eq_some_iff] at read
  obtain ⟨items, read, same⟩ := read
  obtain rfl := List.tail_eq_of_cons_eq same
  refine readUpTo_forall ?_ read
  intro scanner result turn
  simp only [statusTurn, Option.bind_eq_bind, Option.bind_eq_some_iff] at turn
  obtain ⟨next, _, turn⟩ := turn
  split at turn
  next =>
    split at turn
    next =>
      split at turn
      next => simp [← Option.some.inj turn]
      next some_ =>
        rw [Option.map_eq_some_iff] at turn
        obtain ⟨code, made, rfl⟩ := turn
        simpa using final _ _ _ made some_
    next => simp [← Option.some.inj turn]
  next => simp [← Option.some.inj turn]

theorem extractResponseCodesTls_returns (within : bufSize ≤ buf.length) :
    ∃ codes, extractResponseCodesTls buf bufSize = some (0 :: codes) := by
  have ends : ∃ codes, readUpTo (tlsTurn buf) Scanner.byteCount bufSize (7 * bufSize + 1) Scanner.start = some codes := by
    apply readUpTo_ends (fun scanner => scanner.memCount < scanner.memSize ∧ scanner.memCount ≤ 6)
      fun scanner => 7 * (bufSize - scanner.byteCount) + scanner.memCount
    · rintro scanner ⟨room, header⟩ inside
      obtain ⟨mem, taken⟩ := Scanner.take_spec (Nat.lt_of_lt_of_le inside within) room
      simp only [tlsTurn, taken, Option.bind_eq_bind, Option.bind_some]
      split
      next full =>
        refine ⟨_, rfl, ?_⟩
        rintro next ⟨⟩
        refine ⟨⟨Nat.zero_lt_of_lt room, Nat.zero_le 6⟩, ?_⟩
        simp only [Scanner.reset]
        split <;> omega
      next short =>
        refine ⟨_, rfl, ?_⟩
        rintro next ⟨⟩
        refine ⟨⟨Scanner.grow_room room, ?_⟩, ?_⟩
        · simp only [Scanner.grow]
          omega
        · simp only [Scanner.grow]
          omega
    · exact ⟨Nat.zero_lt_succ 1023, Nat.zero_le 6⟩
    · simp only [Scanner.start]
      omega
  obtain ⟨codes, read⟩ := ends
  exact ⟨codes, by rw [extractResponseCodesTls, read]; rfl⟩

theorem extractResponseCodesDns_returns (within : bufSize ≤ buf.length) :
    ∃ codes, extractResponseCodesDns buf bufSize = some (0 :: codes) := by
  have ends : ∃ codes, readUpTo (dnsTurn buf) Scanner.byteCount bufSize (bufSize + 1) Scanner.start = some codes := by
    refine Scanner.scan_ends (fun scanner mem room inside taken => ?_) within
    simp only [dnsTurn, taken, Option.bind_eq_bind, Option.bind_some]
    split
    next =>
      refine ⟨_, rfl, ?_⟩
      rintro next ⟨⟩
      exact ⟨Nat.zero_lt_of_lt room, Nat.lt_of_lt_of_le (Nat.lt_succ_self _) (Nat.le_add_right _ 5)⟩
    next =>
      refine ⟨_, rfl, ?_⟩
      rintro next ⟨⟩
      exact ⟨Scanner.grow_room room, Nat.lt_succ_self _⟩
  obtain ⟨codes, read⟩ := ends
  exact ⟨codes, by rw [extractResponseCodesDns, read]; rfl⟩

/-- Of the steady extractors only two may read past the responses or go on for ever. -/
theorem steadyExtractors_returns {extractResponseCodes : List UInt8 → Nat → Option (List Nat)}
    (member : extractResponseCodes ∈ steadyExtractors) :
    extractResponseCodes = extractResponseCodesIpp ∨ extractResponseCodes = extractResponseCodesDtls12 ∨
      ∀ buf bufSize, bufSize ≤ buf.length → ∃ states, extractResponseCodes buf bufSize = some states := by
  have plain (dialect : Dialect) (same : dialect.final = fun _ _ code => some code) (buf : List UInt8) (bufSize : Nat)
      (within : bufSize ≤ buf.length) : ∃ states, statusCodes dialect buf bufSize = some states := by
    obtain ⟨codes, read⟩ := statusCodes_returns (fun _ code _ => ⟨code, by rw [same]⟩) within
    exact ⟨_, read⟩
  simp only [steadyExtractors, List.mem_cons, List.not_mem_nil, or_false] at member
  rcases member with rfl | rfl | rfl | rfl | rfl | rfl | rfl | rfl | rfl | rfl
  · exact Or.inr (Or.inr (plain smtpDialect rfl))
  · exact Or.inr (Or.inr (plain ftpDialect rfl))
  · exact Or.inr (Or.inr (plain rtspDialect rfl))
  · exact Or.inr (Or.inr (plain sipDialect rfl))
  · exact Or.inr (Or.inr (plain httpDialect rfl))
  · exact Or.inl rfl
  · exact Or.inr (Or.inr fun buf bufSize within => ⟨_, (extractResponseCodesTls_returns within).choose_spec⟩)
  · exact Or.inr (Or.inr fun buf bufSize within => ⟨_, (extractResponseCodesDns_returns within).choose_spec⟩)
  · exact Or.inr (Or.inl rfl)
  · refine Or.inr (Or.inr fun buf bufSize within => ?_)
    rw [extractResponseCodesDicom]
    split
    next => exact ⟨[], rfl⟩
    next => rw [List.getElem?_eq_getElem (by omega)]; exact ⟨_, rfl⟩

/-- Whatever the server sends, these extractors end inside the buffer and of their own memory; the IPP one, when there are
four more bytes than it is asked for. In a text protocol only the first state is the initial one. -/
theorem extractResponseCodes_returns (within : bufSize ≤ buf.length) :
    (∀ extractResponseCodes ∈ [extractResponseCodesSmtp, extractResponseCodesFtp, extractResponseCodesRtsp, extractResponseCodesSip,
      extractResponseCodesHttp], ∃ codes, extractResponseCodes buf bufSize = some (0 :: codes) ∧ ∀ code ∈ codes, code ≠ 0) ∧
    (bufSize + 4 ≤ buf.length → ∃ codes, extractResponseCodesIpp buf bufSize = some (0 :: codes) ∧ ∀ code ∈ codes, code ≠ 0) ∧
    (∃ codes, extractResponseCodesTls buf bufSize = some (0 :: codes)) ∧
    ∃ codes, extractResponseCodesDns buf bufSize = some (0 :: codes) := by
  have plain (dialect : Dialect) (same : dialect.final = fun _ _ code => some code) :
      ∃ codes, statusCodes dialect buf bufSize = some (0 :: codes) ∧ ∀ code ∈ codes, code ≠ 0 := by
    obtain ⟨codes, read⟩ := statusCodes_returns (fun _ code _ => ⟨code, by rw [same]⟩) within
    refine ⟨codes, read, statusCodes_ne_zero ?_ read⟩
    intro byteCount code result made some_
    rw [same] at made
    rwa [← Option.some.inj made]
  refine ⟨?_, ?_, extractResponseCodesTls_returns within, extractResponseCodesDns_returns within⟩
  · intro extractResponseCodes member
    simp only [List.mem_cons, List.not_mem_nil, or_false] at member
    rcases member with rfl | rfl | rfl | rfl | rfl
    · exact plain smtpDialect rfl
    · exact plain ftpDialect rfl
    · exact plain rtspDialect rfl
    · exact plain sipDialect rfl
    · exact plain httpDialect rfl
  · intro more
    have final (byteCount code : Nat) (inside : byteCount ≤ bufSize) : ∃ result, ippDialect.final buf byteCount code = some result := by
      simp only [ippDialect]
      split
      next =>
        rw [List.getElem?_eq_getElem (by omega), List.getElem?_eq_getElem (by omega)]
        exact ⟨_, rfl⟩
      next => exact ⟨code, rfl⟩
    obtain ⟨codes, read⟩ := statusCodes_returns final within
    refine ⟨codes, read, statusCodes_ne_zero ?_ read⟩
    intro byteCount code result made some_
    simp only [ippDialect] at made
    split at made
    next =>
      simp only [Option.bind_eq_bind, Option.bind_eq_some_iff, Option.pure_def, Option.some.injEq] at made
      obtain ⟨third, _, fourth, _, rfl⟩ := made
      omega
    next => rwa [← Option.some.inj made]

/-- The first of two answers in a buffer. -/
theorem extractResponseCodes_returns_greeting :
    (∃ codes, extractResponseCodesFtp (ascii "220 ready\r\n331\r\n") 11 = some (0 :: codes) ∧ ∀ code ∈ codes, code ≠ 0) ∧
    (∃ codes, extractResponseCodesIpp (ascii "220 ready\r\n331\r\n") 11 = some (0 :: codes) ∧ ∀ code ∈ codes, code ≠ 0) ∧
    (∃ codes, extractResponseCodesTls (ascii "220 ready\r\n331\r\n") 11 = some (0 :: codes)) ∧
    ∃ codes, extractResponseCodesDns (ascii "220 ready\r\n331\r\n") 11 = some (0 :: codes) := by
  have returns := extractResponseCodes_returns (show 11 ≤ (ascii "220 ready\r\n331\r\n").length by decide)
  exact ⟨returns.1 _ (by simp), returns.2.1 (by decide), returns.2.2⟩

example : extractResponseCodesFtp (ascii "220 ready\r\n\r\n331\r\n") 18 = some [0, 220] := by decide

/-- A DTLS record without a body is never left: each turn gives one more code and comes back to it. -/
theorem dtls_emptyRecord (within : bufSize ≤ buf.length) {byteCount : Nat} (inside : byteCount + 13 < bufSize) {type : UInt8}
    (typed : 0x14 ≤ type.toNat ∧ type.toNat ≤ 0x18)
    (header : buf[byteCount]? = some type ∧ buf[byteCount + 1]? = some 0xFE ∧ buf[byteCount + 2]? = some 0xFD)
    (empty : buf[byteCount + 11]? = some 0 ∧ buf[byteCount + 12]? = some 0) :
    ∃ code, ∀ count, afterTurns (dtlsTurn buf) bufSize count byteCount = some (List.replicate count code, byteCount) := by
  obtain ⟨first, second, third⟩ := header
  have zero : readBytesToUint32 buf (byteCount + 11) 2 = some 0 := by
    simp [readBytesToUint32, empty.1, show byteCount + 11 + 1 = byteCount + 12 from rfl, empty.2]
  obtain ⟨messageType, read⟩ : ∃ messageType, dtlsMessageType buf byteCount 0 type.toNat = some messageType := by
    obtain ⟨message, here⟩ : ∃ message, buf[byteCount + 13]? = some message := ⟨_, List.getElem?_eq_getElem (by omega)⟩
    have short : ¬12 ≤ 0 ∧ ¬0 = 1 ∧ ¬0 = 2 := by decide
    simp only [dtlsMessageType, here, short, Option.bind_eq_bind, Option.bind_some, Option.pure_def, if_false]
    split_ifs <;> exact ⟨_, rfl⟩
  refine ⟨type.toNat * 2 ^ 8 + messageType, afterTurns_stuck ?_⟩
  rw [dtlsTurn, if_pos (by omega)]
  simp only [first, second, third, zero, read, Option.bind_eq_bind, Option.bind_some, typed, and_self, if_true, Option.pure_def, Nat.add_zero]

/-- An alert of no bytes, and a byte after it: any number of turns gives as many malformed alerts. -/
theorem dtls_emptyRecord_alert :
    ∃ code, ∀ count, afterTurns (dtlsTurn [0x15, 0xFE, 0xFD, 0, 0, 0, 0, 0, 0, 0, 0, 0, 0, 1]) 14 count 0 =
      some (List.replicate count code, 0) :=
  dtls_emptyRecord (by decide) (by decide) (by decide) ⟨rfl, rfl, rfl⟩ ⟨rfl, rfl⟩

end Returns

end LtlFuzz.Fuzzer

import LtlFuzz.Logic.Tiling
import Mathlib.Algebra.Group.Nat.Even
import Mathlib.Tactic.Common

/-! How `aflnet.c` cuts a seed into requests. A region is given by its first and its last byte. Some
extractors collect bytes in a buffer of their own until a message ends, some go by
lengths in the bytes; `none` stands for an access outside a buffer. -/

namespace LtlFuzz.Fuzzer
open Logic

/-- `region_t`; `state_count` is the length of the sequence. -/
structure Region where
  startByte : Nat
  endByte : Nat
  stateSequence : List Nat := []
  deriving DecidableEq

def Region.piece (region : Region) : Nat × Nat := (region.startByte, region.endByte)

/-- One region for the whole buffer when none was found. -/
def orWhole (bufSize : Nat) (regions : List Region) : List Region :=
  if regions = [] ∧ 0 < bufSize then [⟨0, bufSize - 1, []⟩] else regions

section Scanning

/-- The loop of the extractors that go byte by byte: the bytes left, and `mem`, `mem_size`, `cur_start` and `cur_end`. Whether
a message ends is a question about `mem` with the new byte and about the bytes after it. -/
def scan (boundary : List UInt8 → List UInt8 → Bool) (bufSize : Nat) :
    List UInt8 → List UInt8 → Nat → Nat → Nat → Option (List Region)
  | [], _, _, _, _ => some []
  | byte :: rest, mem, memSize, curStart, curEnd =>
    if memSize ≤ mem.length then none
    else if boundary (mem ++ [byte]) rest then
      (scan boundary bufSize rest [] memSize (curEnd + 1) (curEnd + 1)).map (⟨curStart, curEnd, []⟩ :: ·)
    else if curEnd + 1 = bufSize - 1 then some [⟨curStart, curEnd + 1, []⟩]
    else
      scan boundary bufSize rest (mem ++ [byte]) (if mem.length + 1 = memSize then memSize * 2 else memSize) curStart (curEnd + 1)

def scanRequests (boundary : List UInt8 → List UInt8 → Bool) (buf : List UInt8) : Option (List Region) :=
  (scan boundary buf.length buf [] 1024 0 0).map (orWhole buf.length)

/-- `mem_count` is above a bound and the last bytes are the terminator. -/
def endsWith (terminator : List UInt8) (above : Nat) (mem : List UInt8) : Bool :=
  decide (above + 1 < mem.length) && mem.drop (mem.length - terminator.length) == terminator

def startsWith (command : List UInt8) (rest : List UInt8) : Bool := rest.take command.length == command

def ascii (text : String) : List UInt8 := text.toList.map fun c => UInt8.ofNat c.toNat

def crlf : List UInt8 := [0x0D, 0x0A]

def lineBoundary (mem _rest : List UInt8) : Bool := endsWith crlf 1 mem

def extractRequestsSmtp : List UInt8 → Option (List Region) := scanRequests lineBoundary

def extractRequestsFtp : List UInt8 → Option (List Region) := scanRequests lineBoundary

def extractRequestsHttp : List UInt8 → Option (List Region) := scanRequests lineBoundary

def rtspBoundary (mem _rest : List UInt8) : Bool := endsWith (crlf ++ crlf) 3 mem

def extractRequestsRtsp : List UInt8 → Option (List Region) := scanRequests rtspBoundary

/-- Only one byte of the terminator is compared, the one before the last. -/
def sipBoundary (mem rest : List UInt8) : Bool :=
  decide (2 < mem.length) && mem.getD (mem.length - 2) 0 == 0x0D &&
    (startsWith (ascii "REGISTER") rest || startsWith (ascii "INVITE") rest ||
      startsWith (ascii "ACK") rest || startsWith (ascii "BYE") rest)

def extractRequestsSip : List UInt8 → Option (List Region) := scanRequests sipBoundary

def ippBoundary (mem rest : List UInt8) : Bool :=
  decide (4 < mem.length) && (endsWith (crlf ++ crlf) 3 mem || mem.getLastD 0 == 0x03) && startsWith (ascii "POST") rest

def extractRequestsIpp : List UInt8 → Option (List Region) := scanRequests ippBoundary

end Scanning

section Scanned

variable {boundary : List UInt8 → List UInt8 → Bool} {buf : List UInt8}

/-- A region ends where a message ends for the first time since it began, or with the buffer. -/
def FirstEnd (boundary : List UInt8 → List UInt8 → Bool) (buf : List UInt8) (region : Region) : Prop :=
  (∀ k, region.startByte ≤ k → k < region.endByte → boundary (cut buf (region.startByte, k)) (buf.drop (k + 1)) = false) ∧
    (region.endByte + 1 = buf.length ∨ boundary (cut buf region.piece) (buf.drop (region.endByte + 1)) = true)

theorem scan_regions (three : ∀ mem rest, boundary mem rest = true → 2 < mem.length) {rest : List UInt8} (mem : List UInt8)
    (memSize curStart : Nat) {curEnd : Nat} (here : rest = buf.drop curEnd) (read : mem = (buf.drop curStart).take (curEnd - curStart))
    (order : curStart ≤ curEnd) (below : curEnd < buf.length) (room : mem.length < memSize)
    (last : curEnd + 1 = buf.length → curStart = curEnd)
    (open_ : ∀ k, curStart ≤ k → k < curEnd → boundary (cut buf (curStart, k)) (buf.drop (k + 1)) = false) :
    ∃ regions, scan boundary buf.length rest mem memSize curStart curEnd = some regions ∧
      (Tiles curStart (regions.map Region.piece) buf.length ∨ Tiles curStart (regions.map Region.piece) (buf.length - 1)) ∧
      ∀ region ∈ regions, FirstEnd boundary buf region := by
  induction rest generalizing mem memSize curStart curEnd with
  | nil =>
    have empty := congrArg List.length here
    rw [List.length_nil, List.length_drop] at empty
    omega
  | cons byte rest ih =>
    have tail : rest = buf.drop (curEnd + 1) := by
      rw [← List.drop_drop, ← here]
      rfl
    have whole : mem ++ [byte] = cut buf (curStart, curEnd) := by
      have at_ : buf[curEnd]? = some byte := by
        rw [← List.head?_drop, ← here]
        rfl
      rw [cut, show curEnd + 1 - curStart = curEnd - curStart + 1 by omega, List.take_add_one, List.getElem?_drop,
        show curStart + (curEnd - curStart) = curEnd by omega, at_, read]
      rfl
    have length : mem.length = curEnd - curStart := by
      rw [read, List.length_take, List.length_drop]
      omega
    rw [scan, if_neg (Nat.not_le.mpr room)]
    by_cases ends : boundary (mem ++ [byte]) rest = true
    · rw [if_pos ends]
      have long := three _ _ ends
      rw [List.length_append, List.length_singleton, length] at long
      have inside : curEnd + 1 < buf.length := by
        by_contra outside
        have same := last (by omega)
        omega
      obtain ⟨regions, found, tiles, firsts⟩ := ih [] memSize _ tail (by simp) (Nat.le_refl _) inside
        (by rw [List.length_nil]; omega) (fun _ => rfl) (fun k low high => absurd high (Nat.not_lt.mpr low))
      refine ⟨⟨curStart, curEnd, []⟩ :: regions, by rw [found]; rfl, ?_, ?_⟩
      · exact tiles.imp (fun tiles => ⟨rfl, order, tiles⟩) fun tiles => ⟨rfl, order, tiles⟩
      · intro region member
        rcases List.mem_cons.mp member with rfl | later
        · refine ⟨open_, Or.inr ?_⟩
          rwa [whole, tail] at ends
        · exact firsts region later
    · rw [if_neg ends]
      have still (k : Nat) (low : curStart ≤ k) (high : k < curEnd + 1) :
          boundary (cut buf (curStart, k)) (buf.drop (k + 1)) = false := by
        rcases Nat.lt_succ_iff_lt_or_eq.mp high with before | rfl
        · exact open_ k low before
        · rw [whole, tail] at ends
          simpa using ends
      by_cases final : curEnd + 1 = buf.length - 1
      · rw [if_pos final]
        refine ⟨_, rfl, Or.inl ?_, ?_⟩
        · simp only [List.map_cons, List.map_nil, Region.piece, tiles_cons, tiles_nil, true_and]
          omega
        · intro region member
          obtain rfl := List.mem_singleton.mp member
          exact ⟨still, Or.inl (by simp only; omega)⟩
      · rw [if_neg final]
        by_cases read_ : curEnd + 1 = buf.length
        · -- The last byte of the buffer was read as the first of a region, and no region is made of it.
          have nothing : rest = [] := by rw [tail, read_, List.drop_length]
          refine ⟨[], by rw [nothing, scan], Or.inr ?_, by simp⟩
          have same := last read_
          simp only [List.map_nil, tiles_nil]
          omega
        · apply ih _ _ _ tail _ (by omega) (by omega) _ (by omega) still
          · rw [whole, cut]
          · rw [List.length_append, List.length_singleton]
            split <;> omega

/-- What an extractor makes of a buffer: regions that follow each other from the first byte to the last, or to the last but one
if a message ends there. -/
def Cuts (buf : List UInt8) (regions : List Region) : Prop :=
  Tiles 0 (regions.map Region.piece) buf.length ∨
    Tiles 0 (regions.map Region.piece) (buf.length - 1) ∧ ∃ region ∈ regions, region.endByte + 2 = buf.length

theorem Tiles.last {regions : List Region} {lo hi : Nat} (tiles : Tiles lo (regions.map Region.piece) hi) (some_ : regions ≠ []) :
    ∃ region ∈ regions, region.endByte + 1 = hi := by
  refine ⟨regions.getLast some_, List.getLast_mem some_, ?_⟩
  refine tiles.getLast (?_ : _ = some (regions.getLast some_).piece)
  rw [List.getLast?_map, List.getLast?_eq_some_getLast some_]
  rfl

theorem scanRequests_cuts (three : ∀ mem rest, boundary mem rest = true → 2 < mem.length) (buf : List UInt8) :
    ∃ regions, scanRequests boundary buf = some regions ∧ Cuts buf regions ∧ ∀ region ∈ regions, FirstEnd boundary buf region := by
  rcases Nat.eq_zero_or_pos buf.length with empty | some_
  · obtain rfl := List.eq_nil_of_length_eq_zero empty
    exact ⟨[], rfl, Or.inl rfl, by simp⟩
  · obtain ⟨regions, found, tiles, firsts⟩ := scan_regions three [] 1024 0
      buf.drop_zero.symm (by simp) (Nat.le_refl 0) some_ (by simp) (fun _ => rfl) (fun k low high => absurd high (Nat.not_lt.mpr low))
    refine ⟨orWhole buf.length regions, by rw [scanRequests, found]; rfl, ?_⟩
    by_cases none_ : regions = []
    · subst none_
      have one : buf.length = 1 := by
        rcases tiles with whole | short
        · simp at whole
          omega
        · simp at short
          omega
      rw [orWhole, if_pos ⟨rfl, some_⟩, one]
      refine ⟨Or.inl ?_, ?_⟩
      · simp [Region.piece, one]
      · intro region member
        obtain rfl := List.mem_singleton.mp member
        exact ⟨fun k _ high => absurd high (Nat.not_lt_zero k), Or.inl one.symm⟩
    · rw [orWhole, if_neg fun both => none_ both.1]
      refine ⟨?_, firsts⟩
      refine tiles.imp_right fun short => ⟨short, ?_⟩
      obtain ⟨region, member, ends⟩ := Tiles.last short none_
      exact ⟨region, member, by omega⟩

/-- The extractors that go byte by byte, with what each takes for the end of a message. -/
def scanners : List ((List UInt8 → Option (List Region)) × (List UInt8 → List UInt8 → Bool)) :=
  [(extractRequestsSmtp, lineBoundary), (extractRequestsFtp, lineBoundary), (extractRequestsHttp, lineBoundary),
    (extractRequestsRtsp, rtspBoundary), (extractRequestsSip, sipBoundary), (extractRequestsIpp, ippBoundary)]

theorem scanner_boundary {scanner : (List UInt8 → Option (List Region)) × (List UInt8 → List UInt8 → Bool)}
    (member : scanner ∈ scanners) :
    scanner.1 = scanRequests scanner.2 ∧ ∀ mem rest, scanner.2 mem rest = true → 2 < mem.length := by
  simp only [scanners, List.mem_cons, List.not_mem_nil, or_false] at member
  rcases member with rfl | rfl | rfl | rfl | rfl | rfl <;> refine ⟨rfl, fun mem rest ends => ?_⟩
  case inr.inr.inr.inl =>
    simp only [rtspBoundary, endsWith, Bool.and_eq_true, decide_eq_true_iff] at ends
    omega
  case inr.inr.inr.inr.inl =>
    simp only [sipBoundary, Bool.and_eq_true, decide_eq_true_iff] at ends
    omega
  case inr.inr.inr.inr.inr =>
    simp only [ippBoundary, Bool.and_eq_true, decide_eq_true_iff] at ends
    omega
  all_goals
    simp only [lineBoundary, endsWith, Bool.and_eq_true, decide_eq_true_iff] at ends
    omega

/-- They write no byte past their buffer, and cut where a message ends for the first time; a single byte after the last end
is lost. -/
theorem scanners_cut (buf : List UInt8) (scanner : (List UInt8 → Option (List Region)) × (List UInt8 → List UInt8 → Bool))
    (member : scanner ∈ scanners) :
    ∃ regions, scanner.1 buf = some regions ∧ Cuts buf regions ∧ ∀ region ∈ regions, FirstEnd scanner.2 buf region := by
  obtain ⟨scans, long⟩ := scanner_boundary member
  rw [scans]
  exact scanRequests_cuts long buf

/-- The line feed after the second line is not part of any request. -/
theorem scanners_cut_ftp :
    ∃ regions, extractRequestsFtp (ascii "PASV\r\nQUIT\r\n\n") = some regions ∧ Cuts (ascii "PASV\r\nQUIT\r\n\n") regions ∧
      ∀ region ∈ regions, FirstEnd lineBoundary (ascii "PASV\r\nQUIT\r\n\n") region :=
  scanners_cut (ascii "PASV\r\nQUIT\r\n\n") (extractRequestsFtp, lineBoundary) (by simp [scanners])

example : extractRequestsFtp (ascii "PASV\r\nQUIT\r\n\n") = some [⟨0, 5, []⟩, ⟨6, 11, []⟩] := by decide

end Scanned

section Counting

/-- The loop of `extract_requests_dns`: a message ends four bytes after the first zero past its header. -/
def dnsLoop (bufSize : Nat) (bytes : List UInt8) (memCount memSize curStart curEnd : Nat) : Option (List Region) :=
  match bytes with
  | [] => some []
  | byte :: rest =>
    if memSize ≤ memCount then none
    else if 12 ≤ memCount ∧ byte = 0 then
      if curEnd + 4 = bufSize - 1 then some [⟨curStart, curEnd + 4, []⟩]
      else (dnsLoop bufSize (rest.drop 4) 0 memSize (curEnd + 5) (curEnd + 5)).map (⟨curStart, curEnd + 4, []⟩ :: ·)
    else if curEnd + 1 = bufSize - 1 then some [⟨curStart, curEnd + 1, []⟩]
    else dnsLoop bufSize rest (memCount + 1) (if memCount + 1 = memSize then memSize * 2 else memSize) curStart (curEnd + 1)
termination_by bytes.length
decreasing_by
  · simp only [List.length_drop, List.length_cons]
    omega
  · exact Nat.lt_succ_self _

def extractRequestsDns (buf : List UInt8) : Option (List Region) :=
  (dnsLoop buf.length buf 0 1024 0 0).map (orWhole buf.length)

/-- Where a DTLS record begins. The comparison is of two bytes where there may be only one more, so it can see the byte past the
buffer. -/
def dtlsRecord (past : UInt8) (byteCount : Nat) (byte : UInt8) (rest : List UInt8) : Bool :=
  decide (3 < byteCount) && !rest.isEmpty && decide (0x14 ≤ byte) && decide (byte ≤ 0x18) &&
    (rest ++ [past]).take 2 == [0xFE, 0xFD]

def dtlsLoop (past : UInt8) : List UInt8 → Nat → Nat → List Region
  | [], _, _ => []
  | byte :: rest, byteCount, curStart =>
    if dtlsRecord past byteCount byte rest then ⟨curStart, byteCount - 1, []⟩ :: dtlsLoop past rest (byteCount + 1) byteCount
    else if rest = [] then [⟨curStart, byteCount, []⟩]
    else dtlsLoop past rest (byteCount + 1) curStart

def extractRequestsDtls12 (past : UInt8) (buf : List UInt8) : List Region := orWhole buf.length (dtlsLoop past buf 0 0)

def wrap (n : Nat) : Nat := n % 2 ^ 32

def lengthAt (buf : List UInt8) (position count : Nat) : Nat :=
  ((buf.drop position).take count).foldl (fun value byte => value * 256 + byte.toNat) 0

/-- The loop of `extract_requests_dicom`, and where it has got to; `none` when it takes more turns than it is given. -/
def dicomLoop (buf : List UInt8) : Nat → Nat → Option (List Region × Nat)
  | 0, _ => none
  | fuel + 1, byteCount =>
    if buf.length ≤ byteCount then some ([], byteCount)
    else if buf.length ≤ wrap (byteCount + 2) ∨ buf.length ≤ wrap (byteCount + 5) then some ([], byteCount)
    else
      let packetLength := wrap (lengthAt buf (byteCount + 2) 4 + 6)
      let last := wrap (byteCount + packetLength + 2 ^ 32 - 1)
      if last < byteCount ∨ buf.length ≤ last then some ([], byteCount)
      else if wrap (byteCount + packetLength) < byteCount ∨ wrap (byteCount + packetLength) < packetLength then
        some ([⟨byteCount, last, []⟩], byteCount)
      else (dicomLoop buf fuel (wrap (byteCount + packetLength))).map fun (regions, stop) => (⟨byteCount, last, []⟩ :: regions, stop)

def extractRequestsDicom (buf : List UInt8) : Option (List Region) :=
  (dicomLoop buf (buf.length + 1) 0).map fun (regions, stop) =>
    if stop < buf.length then regions ++ [⟨stop, buf.length - 1, []⟩] else regions

end Counting

section Counted

theorem drop_of_cons {buf rest : List UInt8} {byte : UInt8} {position : Nat} (here : byte :: rest = buf.drop position) :
    rest = buf.drop (position + 1) ∧ position < buf.length ∧ buf[position]? = some byte := by
  refine ⟨by rw [← List.drop_drop, ← here]; rfl, ?_, by rw [← List.head?_drop, ← here]; rfl⟩
  have length := congrArg List.length here
  rw [List.length_cons, List.length_drop] at length
  omega

theorem dnsLoop_cuts {bytes : List UInt8} (buf : List UInt8) (memCount memSize curStart : Nat) {curEnd : Nat}
    (here : bytes = buf.drop curEnd) (count : curEnd = curStart + memCount) (room : memCount < memSize)
    (last : curEnd + 1 = buf.length → memCount = 0) (near : curEnd ≤ buf.length + 3) (past : buf.length ≤ curEnd → buf.length ≤ curStart + 1) :
    ∃ regions hi, dnsLoop buf.length bytes memCount memSize curStart curEnd = some regions ∧
      Tiles curStart (regions.map Region.piece) hi ∧ buf.length ≤ hi + 1 ∧ hi ≤ buf.length + 3 := by
  fun_induction dnsLoop buf.length bytes memCount memSize curStart curEnd with
  | case1 memCount memSize curStart curEnd =>
    have empty := congrArg List.length here
    rw [List.length_nil, List.length_drop] at empty
    exact ⟨[], curStart, rfl, rfl, past (by omega), by omega⟩
  | case2 => omega
  | case3 memCount memSize curStart curEnd byte rest _ ends final =>
    obtain ⟨_, below, _⟩ := drop_of_cons here
    refine ⟨_, curEnd + 5, rfl, ?_, by omega, by omega⟩
    simp [Region.piece]
    omega
  | case4 memCount memSize curStart curEnd byte rest _ ends more ih =>
    obtain ⟨tail, below, _⟩ := drop_of_cons here
    have inside : curEnd + 2 ≤ buf.length := by
      by_contra outside
      have zero := last (by omega)
      omega
    obtain ⟨regions, hi, found, tiles, low, high⟩ := ih (by rw [tail, List.drop_drop]) (by omega) (by omega) (by omega) (by omega)
      (by omega)
    refine ⟨_, hi, by rw [found]; rfl, ?_, low, high⟩
    simp [Region.piece, tiles]
    omega
  | case5 memCount memSize curStart curEnd byte rest _ _ final =>
    obtain ⟨_, below, _⟩ := drop_of_cons here
    refine ⟨_, curEnd + 2, rfl, ?_, by omega, by omega⟩
    simp [Region.piece]
    omega
  | case6 memCount memSize curStart curEnd byte rest _ _ more ih =>
    obtain ⟨tail, below, _⟩ := drop_of_cons here
    exact ih tail (by omega) (by split <;> omega) (by omega) (by omega) (by omega)

/-- DNS regions can go up to three bytes past the buffer. -/
theorem extractRequestsDns_cuts (buf : List UInt8) :
    ∃ regions hi, extractRequestsDns buf = some regions ∧ Tiles 0 (regions.map Region.piece) hi ∧ buf.length ≤ hi + 1 ∧
      hi ≤ buf.length + 3 ∧ (buf ≠ [] → regions ≠ []) := by
  obtain ⟨regions, hi, found, tiles, low, high⟩ := dnsLoop_cuts buf 0 1024 0
    buf.drop_zero.symm rfl (by omega) (fun _ => rfl) (by omega) (by omega)
  by_cases none_ : regions = []
  · subst none_
    obtain rfl : 0 = hi := tiles
    by_cases empty : buf = []
    · subst empty
      exact ⟨[], 0, by rw [extractRequestsDns, found]; rfl, rfl, by simp, by simp, by simp⟩
    · have some_ : 0 < buf.length := List.length_pos_of_ne_nil empty
      refine ⟨[⟨0, buf.length - 1, []⟩], buf.length, ?_, ?_, by omega, by omega, by simp⟩
      · rw [extractRequestsDns, found, Option.map_some, orWhole, if_pos ⟨rfl, some_⟩]
      · simp [Region.piece]
        omega
  · refine ⟨regions, hi, ?_, tiles, low, high, fun _ => none_⟩
    rw [extractRequestsDns, found, Option.map_some, orWhole, if_neg fun both => none_ both.1]

theorem dtlsLoop_tiles (past : UInt8) {bytes buf : List UInt8} {byteCount : Nat} (curStart : Nat) (here : bytes = buf.drop byteCount)
    (some_ : bytes ≠ []) (order : curStart ≤ byteCount) (apart : 3 < byteCount → curStart < byteCount) :
    Tiles curStart ((dtlsLoop past bytes byteCount curStart).map Region.piece) buf.length ∧
      dtlsLoop past bytes byteCount curStart ≠ [] := by
  induction bytes generalizing byteCount curStart with
  | nil => exact absurd rfl some_
  | cons byte rest ih =>
    obtain ⟨tail, below, _⟩ := drop_of_cons here
    rw [dtlsLoop]
    by_cases record : dtlsRecord past byteCount byte rest = true
    · rw [if_pos record]
      simp only [dtlsRecord, Bool.and_eq_true, decide_eq_true_iff, Bool.not_eq_true', List.isEmpty_eq_false_iff] at record
      obtain ⟨tiles, _⟩ := ih byteCount tail record.1.1.1.2 (by omega) (by omega)
      have before := apart record.1.1.1.1
      refine ⟨?_, by simp⟩
      simp only [List.map_cons, Region.piece, tiles_cons, show byteCount - 1 + 1 = byteCount by omega]
      exact ⟨trivial, by omega, tiles⟩
    · rw [if_neg record]
      by_cases end_ : rest = []
      · rw [if_pos end_]
        have length := congrArg List.length tail
        rw [end_, List.length_nil, List.length_drop] at length
        refine ⟨?_, by simp⟩
        simp only [List.map_cons, List.map_nil, Region.piece, tiles_cons, tiles_nil]
        exact ⟨trivial, order, by omega⟩
      · rw [if_neg end_]
        exact ih curStart tail end_ (by omega) (by omega)

/-- DTLS regions tile the buffer, whatever the byte past it is. -/
theorem extractRequestsDtls12_tiles (past : UInt8) (buf : List UInt8) :
    Tiles 0 ((extractRequestsDtls12 past buf).map Region.piece) buf.length ∧ (buf ≠ [] → extractRequestsDtls12 past buf ≠ []) := by
  by_cases empty : buf = []
  · subst empty
    exact ⟨rfl, fun some_ => absurd rfl some_⟩
  · obtain ⟨tiles, some_⟩ := dtlsLoop_tiles past 0 buf.drop_zero.symm empty (Nat.le_refl 0) (by omega)
    rw [extractRequestsDtls12, orWhole, if_neg fun both => some_ both.1]
    exact ⟨tiles, fun _ => some_⟩

theorem dicomLoop_tiles {buf : List UInt8} (small : buf.length + 5 < 2 ^ 32) (fuel byteCount : Nat) (below : byteCount ≤ buf.length)
    (enough : buf.length < byteCount + fuel) :
    ∃ regions stop, dicomLoop buf fuel byteCount = some (regions, stop) ∧ Tiles byteCount (regions.map Region.piece) stop ∧
      stop ≤ buf.length := by
  induction fuel generalizing byteCount with
  | zero => omega
  | succ fuel ih =>
    rw [dicomLoop]
    by_cases done : buf.length ≤ byteCount
    · exact ⟨[], byteCount, by rw [if_pos done], rfl, below⟩
    · rw [if_neg done]
      split
      next => exact ⟨[], byteCount, rfl, rfl, below⟩
      next =>
        have range : wrap (lengthAt buf (byteCount + 2) 4 + 6) < 2 ^ 32 := Nat.mod_lt _ (by decide)
        generalize wrap (lengthAt buf (byteCount + 2) 4 + 6) = packetLength at range
        simp only
        split
        next => exact ⟨[], byteCount, rfl, rfl, below⟩
        next inside =>
          obtain ⟨ordered, within⟩ := not_or.mp inside
          -- A length that wraps would put the last byte before the first.
          have some_ : wrap (byteCount + packetLength + 2 ^ 32 - 1) = byteCount + packetLength - 1 ∧ 0 < packetLength := by
            unfold wrap at ordered within ⊢
            omega
          have next : wrap (byteCount + packetLength) = byteCount + packetLength := Nat.mod_eq_of_lt (by omega)
          rw [next, some_.1, if_neg (by omega)]
          obtain ⟨regions, stop, found, tiles, end_⟩ := ih (byteCount + packetLength) (by omega) (by omega)
          refine ⟨_, stop, by rw [found]; rfl, ?_, end_⟩
          simp only [List.map_cons, Region.piece, tiles_cons, show byteCount + packetLength - 1 + 1 = byteCount + packetLength by omega]
          exact ⟨trivial, by omega, tiles⟩

theorem extractRequestsDicom_tiles {buf : List UInt8} (small : buf.length + 5 < 2 ^ 32) :
    ∃ regions, extractRequestsDicom buf = some regions ∧ Tiles 0 (regions.map Region.piece) buf.length := by
  obtain ⟨regions, stop, found, tiles, end_⟩ := dicomLoop_tiles small (buf.length + 1) 0 (Nat.zero_le _) (by omega)
  rw [extractRequestsDicom, found]
  refine ⟨_, rfl, ?_⟩
  simp only
  split
  next left =>
    rw [List.map_append]
    apply tiles.append
    simp only [List.map_cons, List.map_nil, Region.piece, tiles_cons, tiles_nil]
    exact ⟨trivial, by omega, by omega⟩
  next whole =>
    obtain rfl : stop = buf.length := by omega
    exact tiles

end Counted

section Skipping

/-- The bytes that are skipped after a header, and the step back when the buffer goes on after them. -/
def skipPayload (bufSize bytesToSkip byteCount curEnd : Nat) : Nat × Nat :=
  let skipped := min bytesToSkip (bufSize - byteCount)
  if byteCount + skipped < bufSize then (byteCount + skipped - 1, curEnd + skipped - 1) else (byteCount + skipped, curEnd + skipped)

/-- The loop of `extract_requests_tls`; `none` when it takes more turns than it is given, or writes past `mem`. -/
def tlsLoop (buf : List UInt8) : Nat → Nat → List UInt8 → Nat → Nat → Nat → Option (List Region)
  | 0, _, _, _, _, _ => none
  | fuel + 1, byteCount, mem, memSize, curStart, curEnd =>
    match buf[byteCount]? with
    | none => some []
    | some byte =>
      if memSize ≤ mem.length then none
      else if 5 ≤ mem.length then
        let (byteCount, curEnd) := skipPayload buf.length (lengthAt (mem ++ [byte]) 3 2) (byteCount + 1) curEnd
        if curEnd < buf.length - 1 then
          (tlsLoop buf fuel byteCount [] memSize (curEnd + 1) (curEnd + 1)).map (⟨curStart, curEnd, []⟩ :: ·)
        else (tlsLoop buf fuel byteCount mem memSize curStart curEnd).map (⟨curStart, curEnd, []⟩ :: ·)
      else if curEnd + 1 = buf.length - 1 then some [⟨curStart, curEnd + 1, []⟩]
      else
        tlsLoop buf fuel (byteCount + 1) (mem ++ [byte]) (if mem.length + 1 = memSize then memSize * 2 else memSize) curStart (curEnd + 1)

def extractRequestsTls (buf : List UInt8) : Option (List Region) :=
  (tlsLoop buf (8 * buf.length + 8) 0 [] 1024 0 0).map (orWhole buf.length)

/-- The inner loop of `extract_requests_ssh`: an identification goes on to the end of its line. -/
def identification : List UInt8 → List UInt8 → Nat → Nat → Nat → Option (List UInt8 × Nat × Nat × Nat)
  | [], mem, memSize, byteCount, curEnd => some (mem, memSize, byteCount, curEnd)
  | byte :: rest, mem, memSize, byteCount, curEnd =>
    if mem.drop (mem.length - 2) == crlf then some (mem, memSize, byteCount, curEnd)
    else
      -- `mem_count` is the index of the last byte.
      let memSize := if mem.length - 1 = memSize - 1 then memSize * 2 else memSize
      if memSize ≤ mem.length then none else identification rest (mem ++ [byte]) memSize (byteCount + 1) (curEnd + 1)

/-- How many bytes of a message are left past the first seven, by its length and its code. -/
def sshBytesToSkip (mem : List UInt8) : Nat :=
  let messageCode := mem.getD 5 0
  let bytesToSkip := wrap (lengthAt mem 0 4 + 2 ^ 32 - 2)
  if 20 ≤ messageCode ∧ messageCode ≤ 49 then bytesToSkip else wrap (bytesToSkip + 8)

def sshLoop (buf : List UInt8) : Nat → Nat → List UInt8 → Nat → Nat → Nat → Option (List Region)
  | 0, _, _, _, _, _ => none
  | fuel + 1, byteCount, mem, memSize, curStart, curEnd =>
    match buf[byteCount]? with
    | none => some []
    | some byte =>
      if memSize ≤ mem.length then none
      else if 6 ≤ mem.length then
        let read := mem ++ [byte]
        if read.take 4 == ascii "SSH-" then
          match identification (buf.drop (byteCount + 1)) read memSize (byteCount + 1) curEnd with
          | none => none
          | some (line, memSize, byteCount, curEnd) =>
            if curEnd < buf.length - 1 then
              (sshLoop buf fuel byteCount [] memSize (curEnd + 1) (curEnd + 1)).map (⟨curStart, curEnd, []⟩ :: ·)
            else (sshLoop buf fuel byteCount line.dropLast memSize curStart curEnd).map (⟨curStart, curEnd, []⟩ :: ·)
        else
          let (byteCount, curEnd) := skipPayload buf.length (sshBytesToSkip read) (byteCount + 1) curEnd
          if curEnd < buf.length - 1 then
            (sshLoop buf fuel byteCount [] memSize (curEnd + 1) (curEnd + 1)).map (⟨curStart, curEnd, []⟩ :: ·)
          else (sshLoop buf fuel byteCount mem memSize curStart curEnd).map (⟨curStart, curEnd, []⟩ :: ·)
      else if curEnd + 1 = buf.length - 1 then some [⟨curStart, curEnd + 1, []⟩]
      else
        sshLoop buf fuel (byteCount + 1) (mem ++ [byte]) (if mem.length + 1 = memSize then memSize * 2 else memSize) curStart (curEnd + 1)

def extractRequestsSsh (buf : List UInt8) : Option (List Region) :=
  (sshLoop buf (8 * buf.length + 8) 0 [] 1024 0 0).map (orWhole buf.length)

variable {buf : List UInt8}

theorem skipPayload_spec (bufSize bytesToSkip : Nat) {byteCount : Nat} (inside : byteCount < bufSize) (some_ : 0 < byteCount) :
    (skipPayload bufSize bytesToSkip (byteCount + 1) byteCount).2 + 1 = (skipPayload bufSize bytesToSkip (byteCount + 1) byteCount).1 ∧
      byteCount ≤ (skipPayload bufSize bytesToSkip (byteCount + 1) byteCount).1 ∧
      ((skipPayload bufSize bytesToSkip (byteCount + 1) byteCount).1 = bufSize ∨
        (skipPayload bufSize bytesToSkip (byteCount + 1) byteCount).1 + 1 < bufSize) := by
  simp only [skipPayload]
  split <;> simp only <;> omega

theorem tlsLoop_done {fuel byteCount : Nat} (done : buf.length ≤ byteCount) (mem : List UInt8) (memSize curStart curEnd : Nat) :
    tlsLoop buf (fuel + 1) byteCount mem memSize curStart curEnd = some [] := by
  rw [tlsLoop, List.getElem?_eq_none done]

theorem tlsLoop_tiles (fuel byteCount memSize curStart : Nat) (mem : List UInt8) (below : byteCount < buf.length)
    (count : byteCount = curStart + mem.length) (header : mem.length ≤ 5) (room : 1024 ≤ memSize)
    (last : byteCount + 1 = buf.length → byteCount = 0) (enough : 8 * (buf.length - byteCount) + mem.length < fuel) :
    ∃ regions, tlsLoop buf fuel byteCount mem memSize curStart byteCount = some regions ∧
      (Tiles curStart (regions.map Region.piece) buf.length ∨ regions = [] ∧ buf.length = 1) := by
  induction fuel generalizing byteCount mem memSize curStart with
  | zero => omega
  | succ fuel ih =>
    rw [tlsLoop, List.getElem?_eq_getElem below]
    simp only
    rw [if_neg (by omega)]
    split
    next complete =>
      obtain ⟨back, forth, where_⟩ := skipPayload_spec buf.length (lengthAt (mem ++ [buf[byteCount]]) 3 2) below (by omega)
      generalize skipPayload buf.length (lengthAt (mem ++ [buf[byteCount]]) 3 2) (byteCount + 1) byteCount = after at *
      obtain ⟨next, curEnd⟩ := after
      simp only at back forth where_ ⊢
      rcases where_ with end_ | more
      · obtain ⟨spare, fuel_⟩ : ∃ spare, fuel = spare + 1 := ⟨fuel - 1, by omega⟩
        rw [if_neg (by omega), fuel_, tlsLoop_done (by omega)]
        refine ⟨_, rfl, Or.inl ?_⟩
        simp only [List.map_cons, List.map_nil, Region.piece, tiles_cons, tiles_nil]
        exact ⟨trivial, by omega, by omega⟩
      · rw [if_pos (by omega), back]
        obtain ⟨regions, found, tiles⟩ := ih next memSize next [] (by omega) rfl
          (by simp) room (by omega) (by simp only [List.length_nil]; omega)
        rw [found]
        refine ⟨_, rfl, Or.inl ?_⟩
        rcases tiles with tiles | ⟨_, one⟩
        · simp only [List.map_cons, Region.piece, tiles_cons, back]
          exact ⟨trivial, by omega, tiles⟩
        · omega
    next short =>
      split
      next final =>
        refine ⟨_, rfl, Or.inl ?_⟩
        simp only [List.map_cons, List.map_nil, Region.piece, tiles_cons, tiles_nil]
        exact ⟨trivial, by omega, by omega⟩
      next more =>
        rw [if_neg (by omega)]
        by_cases end_ : byteCount + 1 = buf.length
        · obtain ⟨spare, fuel_⟩ : ∃ spare, fuel = spare + 1 := ⟨fuel - 1, by omega⟩
          have zero := last end_
          rw [fuel_, tlsLoop_done (by omega)]
          exact ⟨[], rfl, Or.inr ⟨rfl, by omega⟩⟩
        · apply ih _ _ _ _ (by omega) _ _ room (by omega) _ <;> simp only [List.length_append, List.length_singleton] <;> omega

theorem identification_spec (rest mem : List UInt8) (memSize : Nat) (byteCount curEnd : Nat) (some_ : 0 < mem.length)
    (room : mem.length ≤ memSize) :
    ∃ line grown read, identification rest mem memSize byteCount curEnd = some (line, grown, byteCount + read, curEnd + read) ∧
      memSize ≤ grown ∧ read ≤ rest.length := by
  induction rest generalizing mem memSize byteCount curEnd with
  | nil => exact ⟨mem, memSize, 0, rfl, Nat.le_refl _, Nat.le_refl _⟩
  | cons byte rest ih =>
    rw [identification]
    split
    next => exact ⟨mem, memSize, 0, rfl, Nat.le_refl _, Nat.zero_le _⟩
    next =>
      simp only
      have larger : mem.length < if mem.length - 1 = memSize - 1 then memSize * 2 else memSize := by split <;> omega
      have more : memSize ≤ if mem.length - 1 = memSize - 1 then memSize * 2 else memSize := by split <;> omega
      generalize (if mem.length - 1 = memSize - 1 then memSize * 2 else memSize) = enough at larger more
      rw [if_neg (Nat.not_le.mpr larger)]
      obtain ⟨line, grown, read, found, grows, within⟩ := ih (mem ++ [byte]) enough (byteCount + 1) (curEnd + 1)
        (by simp) (by rw [List.length_append, List.length_singleton]; exact larger)
      refine ⟨line, grown, read + 1, ?_, Nat.le_trans more grows, Nat.succ_le_succ within⟩
      rw [found, Nat.add_assoc, Nat.add_assoc, Nat.add_comm 1 read]

theorem sshLoop_done {fuel byteCount : Nat} (done : buf.length ≤ byteCount) (mem : List UInt8) (memSize curStart curEnd : Nat) :
    sshLoop buf (fuel + 1) byteCount mem memSize curStart curEnd = some [] := by
  rw [sshLoop, List.getElem?_eq_none done]

theorem sshLoop_tiles (fuel byteCount memSize curStart : Nat) (mem : List UInt8) (below : byteCount < buf.length)
    (count : byteCount = curStart + mem.length) (header : mem.length ≤ 6) (room : 1024 ≤ memSize)
    (last : byteCount + 1 = buf.length → mem.length = 0) (enough : 8 * (buf.length - byteCount) + mem.length < fuel) :
    ∃ regions, sshLoop buf fuel byteCount mem memSize curStart byteCount = some regions ∧
      (Tiles curStart (regions.map Region.piece) buf.length ∨ Tiles curStart (regions.map Region.piece) (buf.length - 1)) := by
  induction fuel generalizing byteCount mem memSize curStart with
  | zero => omega
  | succ fuel ih =>
    obtain ⟨spare, fuel_⟩ : ∃ spare, fuel = spare + 1 := ⟨fuel - 1, by omega⟩
    -- A region up to `next`: the buffer ends there, or the next region begins.
    have region (next : Nat) (grown : Nat) (kept : List UInt8) (where_ : byteCount < next ∨ 0 < mem.length ∧ byteCount ≤ next)
        (inside : next ≤ buf.length) (room : 1024 ≤ grown) :
        ∃ regions, (if next - 1 < buf.length - 1 then
            (sshLoop buf fuel next [] grown (next - 1 + 1) (next - 1 + 1)).map (⟨curStart, next - 1, []⟩ :: ·)
          else (sshLoop buf fuel next kept grown curStart (next - 1)).map (⟨curStart, next - 1, []⟩ :: ·)) = some regions ∧
          (Tiles curStart (regions.map Region.piece) buf.length ∨
            Tiles curStart (regions.map Region.piece) (buf.length - 1)) := by
      split
      next more =>
        obtain ⟨regions, found, tiles⟩ := ih next grown next [] (by omega) rfl
          (by simp) room (fun _ => rfl) (by simp only [List.length_nil]; omega)
        rw [show next - 1 + 1 = next by omega, found]
        refine ⟨_, rfl, ?_⟩
        simp only [List.map_cons, Region.piece, tiles_cons, show next - 1 + 1 = next by omega]
        exact tiles.imp (fun tiles => ⟨trivial, by omega, tiles⟩) fun tiles => ⟨trivial, by omega, tiles⟩
      next end_ =>
        rw [fuel_, sshLoop_done (by omega)]
        refine ⟨_, rfl, Or.inl ?_⟩
        simp only [List.map_cons, List.map_nil, Region.piece, tiles_cons, tiles_nil]
        exact ⟨trivial, by omega, by omega⟩
    rw [sshLoop, List.getElem?_eq_getElem below]
    simp only
    rw [if_neg (by omega)]
    split
    next complete =>
      split
      next =>
        obtain ⟨line, grown, read, found, grows, within⟩ := identification_spec (buf.drop (byteCount + 1))
          (mem ++ [buf[byteCount]]) memSize (byteCount + 1) byteCount (by simp)
          (by simp only [List.length_append, List.length_singleton]; omega)
        rw [List.length_drop] at within
        rw [found]
        simp only
        have next := region (byteCount + 1 + read) grown line.dropLast (Or.inl (by omega)) (by omega) (by omega)
        rwa [show byteCount + 1 + read - 1 = byteCount + read by omega] at next
      next =>
        obtain ⟨back, forth, where_⟩ := skipPayload_spec buf.length (sshBytesToSkip (mem ++ [buf[byteCount]])) below (by omega)
        generalize skipPayload buf.length (sshBytesToSkip (mem ++ [buf[byteCount]])) (byteCount + 1) byteCount = after at *
        obtain ⟨next, curEnd⟩ := after
        simp only at back forth where_ ⊢
        have last_ := region next memSize mem (Or.inr ⟨by omega, forth⟩) (by omega) room
        rwa [show next - 1 = curEnd by omega] at last_
    next short =>
      split
      next final =>
        refine ⟨_, rfl, Or.inl ?_⟩
        simp only [List.map_cons, List.map_nil, Region.piece, tiles_cons, tiles_nil]
        exact ⟨trivial, by omega, by omega⟩
      next more =>
        rw [if_neg (by omega)]
        by_cases end_ : byteCount + 1 = buf.length
        · have zero := last end_
          rw [fuel_, sshLoop_done (by omega)]
          refine ⟨[], rfl, Or.inr ?_⟩
          simp only [List.map_nil, tiles_nil]
          omega
        · apply ih _ _ _ _ (by omega) _ _ room (by omega) _ <;> simp only [List.length_append, List.length_singleton] <;> omega

theorem orWhole_of_ne_nil {regions : List Region} (bufSize : Nat) (some_ : regions ≠ []) : orWhole bufSize regions = regions :=
  if_neg fun both => some_ both.1

theorem orWhole_nil (some_ : 0 < buf.length) :
    Tiles 0 ((orWhole buf.length []).map Region.piece) buf.length := by
  rw [orWhole, if_pos ⟨rfl, some_⟩]
  simp only [List.map_cons, List.map_nil, Region.piece, tiles_cons, tiles_nil]
  exact ⟨trivial, Nat.zero_le _, by omega⟩

theorem extractRequestsTls_tiles (buf : List UInt8) :
    ∃ regions, extractRequestsTls buf = some regions ∧ Tiles 0 (regions.map Region.piece) buf.length := by
  rcases Nat.eq_zero_or_pos buf.length with empty | some_
  · obtain rfl := List.eq_nil_of_length_eq_zero empty
    exact ⟨[], rfl, rfl⟩
  · obtain ⟨regions, found, tiles⟩ := tlsLoop_tiles (8 * buf.length + 8) 0 1024 0 [] some_
      rfl (by simp) (by omega) (fun _ => rfl) (by simp only [List.length_nil]; omega)
    refine ⟨orWhole buf.length regions, by rw [extractRequestsTls, found]; rfl, ?_⟩
    rcases tiles with tiles | ⟨rfl, _⟩
    · rwa [orWhole_of_ne_nil]
      rintro rfl
      simp only [List.map_nil, tiles_nil] at tiles
      omega
    · exact orWhole_nil some_

theorem extractRequestsSsh_cuts (buf : List UInt8) :
    ∃ regions, extractRequestsSsh buf = some regions ∧ Cuts buf regions := by
  rcases Nat.eq_zero_or_pos buf.length with empty | some_
  · obtain rfl := List.eq_nil_of_length_eq_zero empty
    exact ⟨[], rfl, Or.inl rfl⟩
  · obtain ⟨regions, found, tiles⟩ := sshLoop_tiles (8 * buf.length + 8) 0 1024 0 [] some_
      rfl (by simp) (by omega) (fun _ => rfl) (by simp only [List.length_nil]; omega)
    refine ⟨orWhole buf.length regions, by rw [extractRequestsSsh, found]; rfl, ?_⟩
    by_cases none_ : regions = []
    · subst none_
      exact Or.inl (orWhole_nil some_)
    · rw [orWhole_of_ne_nil _ none_]
      refine tiles.imp_right fun short => ⟨short, ?_⟩
      obtain ⟨region, member, ends⟩ := Tiles.last short none_
      exact ⟨region, member, by omega⟩

/-- The extractors that go by lengths and headers. TLS, DTLS and DICOM regions tile the buffer; SSH regions do but for a single
byte after an identification; DNS regions can end up to three bytes past the buffer. -/
theorem counted_requests (buf : List UInt8) (past : UInt8) :
    (∃ regions, extractRequestsTls buf = some regions ∧ Tiles 0 (regions.map Region.piece) buf.length) ∧
    (∃ regions, extractRequestsSsh buf = some regions ∧ Cuts buf regions) ∧
    Tiles 0 ((extractRequestsDtls12 past buf).map Region.piece) buf.length ∧
    (buf.length + 5 < 2 ^ 32 →
      ∃ regions, extractRequestsDicom buf = some regions ∧ Tiles 0 (regions.map Region.piece) buf.length) ∧
    ∃ regions hi, extractRequestsDns buf = some regions ∧ Tiles 0 (regions.map Region.piece) hi ∧ buf.length ≤ hi + 1 ∧
      hi ≤ buf.length + 3 :=
  have ⟨regions, hi, found, tiles, low, high, _⟩ := extractRequestsDns_cuts buf
  ⟨extractRequestsTls_tiles buf, extractRequestsSsh_cuts buf, (extractRequestsDtls12_tiles past buf).1, extractRequestsDicom_tiles,
    regions, hi, found, tiles, low, high⟩

end Skipping

end LtlFuzz.Fuzzer

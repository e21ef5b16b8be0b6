import LtlFuzz.Adapter.Ftp
import LtlFuzz.Monitor.ViolationLog

/-! `ftp_trace_replay.c`: the packets of a session are read back from the traces the
monitor wrote down, and run through the adapter again. -/

namespace LtlFuzz.Replay
open Adapter Monitor
open Text (isSpace words fgetsLines IsWord)

def hexVal (c : Char) : Option Nat :=
  if '0' ≤ c ∧ c ≤ '9' then some (c.toNat - '0'.toNat)
  else if 'a' ≤ c ∧ c ≤ 'f' then some (c.toNat - 'a'.toNat + 10)
  else if 'A' ≤ c ∧ c ≤ 'F' then some (c.toNat - 'A'.toNat + 10)
  else none

/-- At most `maxOut` bytes, up to the first pair that is not hexadecimal. -/
def decodeHex : Nat → List Char → List UInt8
  | maxOut + 1, high :: low :: rest =>
    match hexVal high, hexVal low with
    | some hi, some lo => UInt8.ofNat (hi * 16 + lo) :: decodeHex maxOut rest
    | _, _ => []
  | _, _ => []

structure TraceLine where
  msgId : List Char := []
  dir : List Char := []
  trace : List Char := []
  deriving DecidableEq, Repr

/-- A token is looked at if it has a `=`; what does not fit into a member is cut off. -/
def TraceLine.readToken (tl : TraceLine) (tok : List Char) : TraceLine :=
  match keyValue tok with
  | some (key, val) =>
    if key = "msg_id" then { tl with msgId := val.toList.take 31 }
    else if key = "dir" then { tl with dir := val.toList.take 7 }
    else if key = "trace" then { tl with trace := val.toList.take 8191 }
    else tl
  | none => tl

/-- Blank lines, comments and lines without a direction or a trace are none. -/
def parseTraceLine (line : List Char) : Option TraceLine :=
  let line := line.dropWhile isSpace
  if line = [] ∨ line.head? = some '#' then none
  else
    let tl := (words line).foldl TraceLine.readToken {}
    if tl.dir ≠ [] ∧ tl.trace ≠ [] then some tl else none

/-- What stands before the first occurrence of the needle. -/
def cutAt (needle : List Char) : List Char → List Char
  | [] => []
  | c :: rest => if needle.isPrefixOf (c :: rest) then [] else c :: cutAt needle rest

def withoutMetadata (line : List Char) : List Char := cutAt " msg_id=".toList line

/-- `char pred_line[8192]`. -/
def replayLineSize : Nat := 8192

/-- The packet of a trace; what follows it in `raw` reads as zero. -/
def TraceLine.packet (tl : TraceLine) : Packet := ⟨decodeHex 4096 tl.trace, []⟩

def TraceLine.direction (tl : TraceLine) : Direction := if tl.dir = "C2S".toList then .c2s else .s2c

/-- One line of the file: what is printed for it, and the adapter afterwards. -/
def replayStep (machine : Machine Ftp.Session) (buffer : List Char) : Option (List Char) × Machine Ftp.Session :=
  match parseTraceLine (cString buffer) with
  | none => (none, machine)
  | some tl =>
    let (fields, session) := Ftp.adapter.build tl.direction machine.session tl.packet
    let messageId := (machine.messageId + 1) % 2 ^ 32
    let predLine := appendPacketTrace replayLineSize (snprintf replayLineSize (predicateText fields)) messageId
      tl.packet.bytes tl.direction
    (some (withoutMetadata predLine), ⟨session, messageId⟩)

def replayBuffers (machine : Machine Ftp.Session) : List (List Char) → List (List Char)
  | [] => []
  | buffer :: buffers =>
    match replayStep machine buffer with
    | (none, next) => replayBuffers next buffers
    | (some line, next) => line :: replayBuffers next buffers

/-- The whole program on a file, read through `char line_buf[16384]`. -/
def replay (file : List Char) : List (List Char) :=
  replayBuffers ⟨Ftp.resetSession, 0⟩ (fgetsLines 16382 file)

/-- The packet reference of a line, as the monitor takes it from the event. -/
def recordedTrace (line : List Char) : Option TraceRef :=
  match Command.parse line with
  | .ok (.event kv) => TraceRef.ofKv kv
  | _ => none

/-- The references of these lines, written one below the other as the monitor logs them. -/
def traceFile (lines : List (List Char)) : List Char :=
  ((lines.filterMap recordedTrace).map TraceRef.line).flatMap (· ++ ['\n'])

section Metadata

private theorem cutAt_solid {word : List Char} (solid : ∀ c ∈ word, isSpace c = false) (needle rest : List Char) :
    cutAt (' ' :: needle) (word ++ rest) = word ++ cutAt (' ' :: needle) rest := by
  induction word with
  | nil => rfl
  | cons c word ih =>
    obtain ⟨visible, later⟩ := List.forall_mem_cons.mp solid
    have other : ¬(' ' :: needle).isPrefixOf (c :: (word ++ rest)) = true := by
      intro leading
      have same : ' ' = c := by
        have both := List.isPrefixOf_iff_prefix.mp leading
        exact (List.cons_prefix_cons.mp both).1
      rw [← same] at visible
      exact absurd visible (by decide)
    rw [List.cons_append, cutAt, if_neg other, ih later]
    rfl

private theorem key_unlike {field : Field} (printable : Printable field) (other : field.1 ≠ "msg_id") (rest : List Char) :
    ¬"msg_id=".toList.isPrefixOf (token field ++ rest) = true := by
  intro leading
  obtain ⟨tail, same⟩ := List.isPrefixOf_iff_prefix.mp leading
  have front := congrArg (List.takeWhile (· != '=')) same
  have key : ∀ c ∈ field.1.toList, (c != '=') = true := by
    intro c member
    have clean := printable.1
    simp only [bne_iff_ne]
    rintro rfl
    exact clean member
  rw [token, List.append_assoc, List.takeWhile_append_of_pos key] at front
  simp at front
  exact other (String.toList_inj.mp front.symm)

private theorem predicateText_cons (field next : Field) (fields : List Field) :
    predicateText (field :: next :: fields) = token field ++ ' ' :: predicateText (next :: fields) := by
  simp [predicateText, List.intercalate_cons_cons]

private theorem predicateText_starts (field : Field) (fields : List Field) :
    ∃ rest, predicateText (field :: fields) = token field ++ rest := by
  cases fields with
  | nil => exact ⟨[], by simp [predicateText]⟩
  | cons next fields => exact ⟨_, predicateText_cons field next fields⟩

/-- Without the metadata a line is the text of its fields. -/
theorem withoutMetadata_text {field : Field} {fields trailing : List Field}
    (printable : ∀ other ∈ field :: fields, Printable other) (named : ∀ other ∈ fields, other.1 ≠ "msg_id")
    (isTrace : IsTrace trailing) :
    withoutMetadata (predicateText (field :: fields ++ trailing)) = predicateText (field :: fields) := by
  have needle : " msg_id=".toList = ' ' :: "msg_id=".toList := rfl
  unfold withoutMetadata
  rw [needle]
  induction fields generalizing field with
  | nil =>
    have solid := (printable field List.mem_cons_self).isWord.2
    have alone : predicateText [field] = token field := by simp [predicateText]
    rcases isTrace with rfl | ⟨messageId, direction, hex, _, rfl⟩
    · have cut := cutAt_solid solid "msg_id=".toList []
      rw [List.append_nil] at cut
      rw [List.append_nil, alone, cut, cutAt, List.append_nil]
    · rw [List.cons_append, List.nil_append, predicateText_cons, cutAt_solid solid, alone]
      obtain ⟨rest, text⟩ := predicateText_starts ("msg_id", toString messageId)
        [("dir", direction.text), ("trace", String.ofList hex)]
      rw [text, cutAt, if_pos, List.append_nil]
      exact List.isPrefixOf_iff_prefix.mpr ⟨(toString messageId).toList ++ rest, by simp [token]⟩
  | cons next fields ih =>
    obtain ⟨first, later⟩ := List.forall_mem_cons.mp printable
    obtain ⟨other, others⟩ := List.forall_mem_cons.mp named
    obtain ⟨rest, text⟩ := predicateText_starts next (fields ++ trailing)
    have unlike : ¬(' ' :: "msg_id=".toList).isPrefixOf (' ' :: predicateText (next :: (fields ++ trailing))) = true := by
      rw [text, List.isPrefixOf_cons_cons_self]
      exact key_unlike (later next List.mem_cons_self) other rest
    have inner := ih later others
    rw [List.cons_append] at inner
    rw [List.cons_append, List.cons_append, predicateText_cons, cutAt_solid first.isWord.2, cutAt, if_neg unlike, inner,
      predicateText_cons]

end Metadata

section TraceFile

theorem hexVal_digitChar {n : Nat} (small : n < 16) : hexVal (Nat.digitChar n) = some n := by
  have checked : ∀ n < 16, hexVal (Nat.digitChar n) = some n := by decide
  exact checked n small

theorem decodeHex_flatMap (bytes : List UInt8) {maxOut : Nat} (room : bytes.length ≤ maxOut) :
    decodeHex maxOut (bytes.flatMap hexByte) = bytes := by
  induction bytes generalizing maxOut with
  | nil => cases maxOut <;> rfl
  | cons byte bytes ih =>
    obtain ⟨less, rfl⟩ : ∃ less, maxOut = less + 1 := Nat.exists_eq_succ_of_ne_zero (by simp at room; omega)
    have bound := byte.toNat_lt
    have high := hexVal_digitChar (show byte.toNat / 16 < 16 by omega)
    have low := hexVal_digitChar (show byte.toNat % 16 < 16 by omega)
    have whole : UInt8.ofNat (byte.toNat / 16 * 16 + byte.toNat % 16) = byte := by
      rw [Nat.div_add_mod', UInt8.ofNat_toNat]
    rw [List.flatMap_cons, hexByte, List.cons_append, List.cons_append, List.nil_append, decodeHex, high, low]
    dsimp only
    rw [whole, ih (Nat.succ_le_succ_iff.mp room)]

private theorem cString_whole {text : List Char} (plain : ∀ c ∈ text, c ≠ '\x00') : cString text = text := by
  unfold cString
  rw [List.takeWhile_eq_self_iff]
  intro c member
  simpa using plain c member

private theorem plain_of_all {text : List Char} (checked : text.all (fun c => c != '\n' && c != '\x00') = true) :
    ∀ c ∈ text, c ≠ '\n' ∧ c ≠ '\x00' := by
  intro c member
  simpa using List.all_eq_true.mp checked c member

/-- The packet reference the adapter prints for a message. -/
def traceOf (messageId : Nat) (direction : Direction) (bytes : List UInt8) : TraceRef :=
  ⟨toString messageId, direction.text, String.ofList (bytes.flatMap hexByte)⟩

private theorem hexBytes_digits (bytes : List UInt8) : ∀ c ∈ bytes.flatMap hexByte, ∃ n < 16, c = Nat.digitChar n := by
  intro c member
  obtain ⟨byte, _, inside⟩ := List.mem_flatMap.mp member
  have bound := byte.toNat_lt
  simp only [hexByte, List.mem_cons, List.not_mem_nil, or_false] at inside
  rcases inside with rfl | rfl
  · exact ⟨_, by omega, rfl⟩
  · exact ⟨_, by omega, rfl⟩

private theorem isTrace_hex (messageId : Nat) (direction : Direction) (bytes : List UInt8) :
    IsTrace (traceFields messageId direction (bytes.flatMap hexByte)) := by
  refine Or.inr ⟨messageId, direction, _, ?_, rfl⟩
  intro c member
  obtain ⟨n, bound, rfl⟩ := hexBytes_digits bytes c member
  have checked : ∀ n < 16, isSpace (Nat.digitChar n) = false := by decide
  exact checked n bound

theorem traceOf_line (messageId : Nat) (direction : Direction) (bytes : List UInt8) :
    (traceOf messageId direction bytes).line =
      ' ' :: ' ' :: predicateText (traceFields messageId direction (bytes.flatMap hexByte)) := by
  have first : "  msg_id=".toList = ' ' :: ' ' :: ("msg_id".toList ++ ['=']) := rfl
  have second : " dir=".toList = ' ' :: ("dir".toList ++ ['=']) := rfl
  have third : " trace=".toList = ' ' :: ("trace".toList ++ ['=']) := rfl
  have alone (field : Field) : predicateText [field] = token field := by simp [predicateText]
  unfold traceOf TraceRef.line
  rw [first, second, third, traceFields, predicateText_cons, predicateText_cons, alone]
  simp only [token, List.append_assoc, List.cons_append, List.nil_append]

variable {messageId : Nat} (small : messageId < 2 ^ 32) (direction : Direction) {bytes : List UInt8}
  (short : bytes.length ≤ 256)

include small short in
/-- A line of the file is short and has no character that would end it early. -/
theorem traceOf_plain : (traceOf messageId direction bytes).line.length ≤ 600 ∧
    ∀ c ∈ (traceOf messageId direction bytes).line, c ≠ '\n' ∧ c ≠ '\x00' := by
  have digits : (toString messageId).toList.length ≤ 10 := by
    rw [Text.toList_toString_nat]
    exact (Nat.length_toDigits_le_iff (by decide) (by decide)).mpr (by omega)
  have hexLength : (bytes.flatMap hexByte).length = 2 * bytes.length := by
    simp [List.length_flatMap, hexByte, Nat.mul_comm]
  have pointed : direction.text.toList.length = 3 := by cases direction <;> rfl
  have fixed : "  msg_id=".toList.length = 9 ∧ " dir=".toList.length = 5 ∧ " trace=".toList.length = 7 := by decide
  unfold traceOf TraceRef.line
  constructor
  · simp only [List.length_append, String.toList_ofList, hexLength, pointed, fixed]
    omega
  · intro c member
    simp only [List.mem_append, String.toList_ofList] at member
    rcases member with ((((label | number) | label) | side) | label) | hex
    · exact plain_of_all (by decide) c label
    · have digit := Text.toString_nat_digits messageId c number
      constructor <;> rintro rfl <;> exact absurd digit (by decide)
    · exact plain_of_all (by decide) c label
    · cases direction <;> exact plain_of_all (by decide) c side
    · exact plain_of_all (by decide) c label
    · obtain ⟨n, bound, rfl⟩ := hexBytes_digits bytes c hex
      have checked : ∀ n < 16, Nat.digitChar n ≠ '\n' ∧ Nat.digitChar n ≠ '\x00' := by decide
      exact checked n bound

include small short in
/-- The program reads a reference as the message it was made for. -/
theorem parseTraceLine_traceOf (nonempty : bytes ≠ []) :
    ∃ tl, parseTraceLine (cString ((traceOf messageId direction bytes).line ++ ['\n'])) = some tl ∧
      tl.direction = direction ∧ tl.packet = ⟨bytes, []⟩ := by
  obtain ⟨_, plain⟩ := traceOf_plain small direction short
  have whole : cString ((traceOf messageId direction bytes).line ++ ['\n']) =
      (traceOf messageId direction bytes).line ++ ['\n'] := by
    apply cString_whole
    intro c member
    rcases List.mem_append.mp member with inside | last
    · exact (plain c inside).2
    · rw [List.mem_singleton.mp last]
      decide
  have printable := (isTrace_hex messageId direction bytes).printable
  have split : words (predicateText (traceFields messageId direction (bytes.flatMap hexByte))) =
      (traceFields messageId direction (bytes.flatMap hexByte)).map token :=
    Text.words_intercalate (List.forall_mem_map.mpr fun field member => (printable field member).isWord)
  obtain ⟨rest, starts⟩ : ∃ rest, predicateText (traceFields messageId direction (bytes.flatMap hexByte)) = 'm' :: rest := by
    obtain ⟨rest, text⟩ := predicateText_starts ("msg_id", toString messageId)
      [("dir", direction.text), ("trace", String.ofList (bytes.flatMap hexByte))]
    have key : "msg_id".toList = 'm' :: "sg_id".toList := rfl
    rw [traceFields, text, token, key]
    exact ⟨_, rfl⟩
  have skipped : (' ' :: ' ' :: predicateText (traceFields messageId direction (bytes.flatMap hexByte)) ++ ['\n']).dropWhile
      isSpace = predicateText (traceFields messageId direction (bytes.flatMap hexByte)) ++ ['\n'] := by
    rw [starts]
    rfl
  have visible : ¬(predicateText (traceFields messageId direction (bytes.flatMap hexByte)) ++ ['\n'] = [] ∨
      (predicateText (traceFields messageId direction (bytes.flatMap hexByte)) ++ ['\n']).head? = some '#') := by
    rw [starts]
    rintro (empty | comment)
    · cases empty
    · exact absurd (Option.some.inj comment) (by decide)
  have side : direction.text.toList.take 7 = direction.text.toList := by cases direction <;> rfl
  have hexLength : (bytes.flatMap hexByte).length = 2 * bytes.length := by
    simp [List.length_flatMap, hexByte, Nat.mul_comm]
  have digits : (bytes.flatMap hexByte).take 8191 = bytes.flatMap hexByte := List.take_of_length_le (by omega)
  have read : ((traceFields messageId direction (bytes.flatMap hexByte)).map token).foldl TraceLine.readToken {} =
      ⟨(toString messageId).toList.take 31, direction.text.toList, bytes.flatMap hexByte⟩ := by
    have first := (printable ("msg_id", toString messageId) (by simp [traceFields])).keyValue
    have second := (printable ("dir", direction.text) (by simp [traceFields])).keyValue
    have third := (printable ("trace", String.ofList (bytes.flatMap hexByte)) (by simp [traceFields])).keyValue
    simp only [traceFields, List.map_cons, List.map_nil, List.foldl_cons, List.foldl_nil, TraceLine.readToken, first, second,
      third, side, String.toList_ofList, digits]
    rfl
  have filled : direction.text.toList ≠ [] ∧ bytes.flatMap hexByte ≠ [] := by
    refine ⟨by cases direction <;> decide, ?_⟩
    intro empty
    have zero := congrArg List.length empty
    rw [hexLength, List.length_nil] at zero
    exact nonempty (List.length_eq_zero_iff.mp (by omega))
  refine ⟨⟨(toString messageId).toList.take 31, direction.text.toList, bytes.flatMap hexByte⟩, ?_, ?_, ?_⟩
  · rw [whole, traceOf_line, parseTraceLine]
    simp only [skipped, if_neg visible, Text.words_trailing (show isSpace '\n' = true by decide), split, read]
    exact if_pos filled
  · cases direction <;> rfl
  · rw [TraceLine.packet, decodeHex_flatMap bytes (by omega)]

end TraceFile

/-- A message the traces have room for, with nothing but zeros behind it. -/
structure FtpMessage where
  direction : Direction
  bytes : List UInt8
  nonempty : bytes ≠ []
  short : bytes.length ≤ 256

namespace FtpMessage

def packet (message : FtpMessage) : Packet := ⟨message.bytes, []⟩

def input (message : FtpMessage) : Input := .packet message.direction message.packet

end FtpMessage

/-- What the adapter says about a message, before anything is added to it. -/
def predicates (session : Ftp.Session) (message : FtpMessage) : List Char :=
  predicateText (Ftp.adapter.build message.direction session message.packet).1

theorem predicates_short (session : Ftp.Session) (message : FtpMessage) : (predicates session message).length ≤ 1000 := by
  have bound : (Ftp.shapes.map fun shape => shape.1.utf8ByteSize + shape.2.width + 2).sum ≤ 1000 := by decide +kernel
  exact (Ftp.build_matches message.direction session message.packet).length.trans bound

section Step

variable (machine : Machine Ftp.Session) (message : FtpMessage)

/-- The fields of an FTP line, the first of them apart. -/
private theorem fields_printable {layoutShapes : List (String × Shape)} (layout : Layout layoutShapes) {fields : List Field}
    (matching : Matches layoutShapes fields) :
    ∃ field others, fields = field :: others ∧ (∀ other ∈ field :: others, Printable other) ∧
      ∀ other ∈ field :: others, other.1 ≠ "msg_id" := by
  cases fields with
  | nil =>
    obtain ⟨shape, first, _⟩ := layout.leading
    cases matching
    cases first
  | cons field others =>
    refine ⟨field, others, rfl, ?_, ?_⟩
    · intro other member
      have printable := layout.printable matching (Or.inl rfl : IsTrace [])
      exact printable other (by simpa using member)
    · intro other member same
      exact layout.unmarked matching member (by simp [same, metaKeys])

theorem live_line :
    let line := (machine.buildPredLine Ftp.adapter message.direction message.packet).1
    recordedTrace line = some (traceOf ((machine.messageId + 1) % 2 ^ 32) message.direction message.bytes) ∧
      withoutMetadata line = predicates machine.session message := by
  obtain ⟨checker, _, _, _, _, fit⟩ := fits_sound Ftp.shapes_fit
  have matching := Ftp.build_matches message.direction machine.session message.packet
  have size := predicates_short machine.session message
  have short := message.short
  obtain ⟨field, others, split, printable, named⟩ := fields_printable fit.toLayout matching
  have nonempty : (Ftp.adapter.build message.direction machine.session message.packet).1 ≠ [] := by simp [split]
  have whole : snprintf predLineSize (predicates machine.session message) = predicates machine.session message :=
    List.take_of_length_le (by unfold predLineSize; omega)
  have line : (machine.buildPredLine Ftp.adapter message.direction message.packet).1 =
      predicateText ((Ftp.adapter.build message.direction machine.session message.packet).1 ++
        traceFields ((machine.messageId + 1) % 2 ^ 32) message.direction (message.bytes.flatMap hexByte)) := by
    rw [Machine.buildPredLine_line]
    change appendPacketTrace predLineSize (snprintf predLineSize (predicates machine.session message)) _ _ _ = _
    rw [whole]
    exact appendPacketTrace_whole nonempty (Nat.mod_lt _ (by decide)) short
      (by change (predicates machine.session message).length + _ + _ < _; unfold predLineSize; omega) _
  have isTrace := isTrace_hex ((machine.messageId + 1) % 2 ^ 32) message.direction message.bytes
  dsimp only
  rw [line]
  constructor
  · have first := fit.lookup_printed matching isTrace (List.mem_append_right _
      (show (("msg_id", toString ((machine.messageId + 1) % 2 ^ 32)) : Field) ∈ _ by simp [traceFields]))
    have second := fit.lookup_printed matching isTrace (List.mem_append_right _
      (show (("dir", message.direction.text) : Field) ∈ _ by simp [traceFields]))
    have third := fit.lookup_printed matching isTrace (List.mem_append_right _
      (show (("trace", String.ofList (message.bytes.flatMap hexByte)) : Field) ∈ _ by simp [traceFields]))
    simp only at first second third
    simp only [recordedTrace, fit.parse matching isTrace, TraceRef.ofKv, first, second, third]
    rfl
  · rw [split, withoutMetadata_text printable (fun other member => named other (List.mem_cons_of_mem _ member)) isTrace,
      ← split]
    rfl

/-- The program prints the predicates of the message a reference was made for. -/
theorem replayStep_traceOf {messageId : Nat} (small : messageId < 2 ^ 32) :
    ∃ next, replayStep machine ((traceOf messageId message.direction message.bytes).line ++ ['\n']) =
        (some (predicates machine.session message), next) ∧
      next.session = (Ftp.adapter.build message.direction machine.session message.packet).2 := by
  obtain ⟨tl, parsed, side, packet⟩ := parseTraceLine_traceOf small message.direction message.short message.nonempty
  obtain ⟨checker, _, _, _, _, fit⟩ := fits_sound Ftp.shapes_fit
  have matching := Ftp.build_matches message.direction machine.session message.packet
  have size := predicates_short machine.session message
  obtain ⟨field, others, split, printable, named⟩ := fields_printable fit.toLayout matching
  have nonempty : (Ftp.adapter.build message.direction machine.session message.packet).1 ≠ [] := by simp [split]
  have whole : snprintf replayLineSize (predicates machine.session message) = predicates machine.session message :=
    List.take_of_length_le (by unfold replayLineSize; omega)
  obtain ⟨trailing, isTrace, text⟩ : ∃ trailing, IsTrace trailing ∧
      appendPacketTrace replayLineSize (predicates machine.session message) ((machine.messageId + 1) % 2 ^ 32) message.bytes
        message.direction = predicateText ((Ftp.adapter.build message.direction machine.session message.packet).1 ++ trailing) :=
    appendPacketTrace_fields nonempty (Nat.mod_lt _ (by decide)) message.bytes message.direction
  have cut : withoutMetadata (appendPacketTrace replayLineSize (snprintf replayLineSize (predicates machine.session message))
      ((machine.messageId + 1) % 2 ^ 32) message.bytes message.direction) = predicates machine.session message := by
    rw [whole, text, split,
      withoutMetadata_text printable (fun other member => named other (List.mem_cons_of_mem _ member)) isTrace, ← split]
    rfl
  refine ⟨⟨_, (machine.messageId + 1) % 2 ^ 32⟩, ?_, rfl⟩
  simp only [replayStep, parsed, side, packet]
  exact congrArg (fun line => (some line, _)) cut

end Step

/-- A replayed session goes through the states of the live one. -/
theorem replayBuffers_session (messages : List FtpMessage) {live replayed : Machine Ftp.Session}
    (same : replayed.session = live.session) :
    replayBuffers replayed ((((live.lines Ftp.adapter (messages.map FtpMessage.input)).filterMap recordedTrace).map
      TraceRef.line).map (· ++ ['\n'])) =
        (live.lines Ftp.adapter (messages.map FtpMessage.input)).map withoutMetadata := by
  induction messages generalizing live replayed with
  | nil => rfl
  | cons message messages ih =>
    obtain ⟨recorded, text⟩ := live_line live message
    obtain ⟨next, stepped, kept⟩ := replayStep_traceOf replayed message
      (Nat.mod_lt (live.messageId + 1) (show 0 < 2 ^ 32 by decide))
    have moved : next.session = (live.buildPredLine Ftp.adapter message.direction message.packet).2.session := by
      rw [Machine.buildPredLine_session, kept, same]
    have later := ih moved
    simp only [List.map_cons, FtpMessage.input, Machine.lines, List.filterMap_cons, recorded, replayBuffers, stepped, text,
      ← same]
    rw [← later]

theorem recorded_plain (machine : Machine Ftp.Session) (messages : List FtpMessage) :
    ∀ line ∈ ((machine.lines Ftp.adapter (messages.map FtpMessage.input)).filterMap recordedTrace).map TraceRef.line,
      '\n' ∉ line ∧ line.length ≤ 16382 := by
  induction messages generalizing machine with
  | nil => simp [Machine.lines]
  | cons message messages ih =>
    obtain ⟨recorded, _⟩ := live_line machine message
    obtain ⟨short, plain⟩ := traceOf_plain (Nat.mod_lt (machine.messageId + 1) (show 0 < 2 ^ 32 by decide))
      message.direction message.short
    simp only [List.map_cons, FtpMessage.input, Machine.lines, List.filterMap_cons, recorded]
    refine List.forall_mem_cons.mpr ⟨⟨fun member => (plain _ member).1 rfl, by omega⟩, ih _⟩

/-- From the packet references of a session the program prints what the session printed. -/
theorem ftp_session_replays (messageId : Nat) (messages : List FtpMessage) :
    let lines := (Machine.mk Ftp.resetSession messageId).lines Ftp.adapter (messages.map FtpMessage.input)
    replay (traceFile lines) = lines.map withoutMetadata := by
  dsimp only
  rw [replay, traceFile, Text.fgetsLines_lines (recorded_plain _ messages)]
  exact replayBuffers_session messages rfl

end LtlFuzz.Replay

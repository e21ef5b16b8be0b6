import LtlFuzz.Adapter.PredicateLine
import LtlFuzz.PacketGen.Ast
import LtlFuzz.Text.Lines

/-! Traces as the generator writes them to a file and as the driver reads them: names of correct
packets and packets in hexadecimal digits, in a line with separators. -/

namespace LtlFuzz.Driver
open Adapter (hexByte)
open Text (fgetsLines takeLine)

section Writing

inductive ValidPacket where
  | commit
  | confirm
  | associationRequest
  | nothing
  | reset
  deriving DecidableEq, Repr

inductive Provenance where
  | rawPacket (bytes : List UInt8)
  | validPacket (type : ValidPacket)
  deriving DecidableEq, Repr

def bytesToHex (b : List UInt8) : List Char := b.foldl (fun acc byte => acc ++ hexByte byte) []

def provenanceText : Provenance → Except PacketGen.Fault (List Char)
  | .rawPacket z => .ok (bytesToHex z)
  | .validPacket .commit => .ok "COMMIT".toList
  | .validPacket .confirm => .ok "CONFIRM".toList
  | .validPacket .associationRequest => .ok "ASSOCIATION_REQUEST".toList
  | .validPacket .nothing => .error (.internalError "unexpected provenance element..")
  | .validPacket .reset => .error (.internalError "unexpected provenance element..")

def runTrace (trace : List Provenance) : Except PacketGen.Fault (List (List Char)) := trace.mapM provenanceText

def writeTraceToFile (pList : List (List Char)) : List Char := pList.foldl (fun acc x => acc ++ ", ".toList ++ x) []

def dumpSingleTrace (trace : List Provenance) : Except PacketGen.Fault (List Char) := do
  let traceString ← trace.mapM provenanceText
  .ok (traceString.foldl (fun result x => result ++ x ++ ", ".toList) [] ++ "\n".toList)

def dumpAllTraces (traces : List (List Provenance)) : Except PacketGen.Fault (List Char) := do
  let traceStringLists ← traces.mapM dumpSingleTrace
  .ok (traceStringLists.foldl (fun result x => result ++ x) [])

end Writing

section Reading

/-- A token and what stands behind it. -/
def strtok (delimiters text : List Char) : Option (List Char × List Char) :=
  match text.dropWhile fun c => c ∈ delimiters with
  | [] => none
  | c :: rest => some ((c :: rest).takeWhile fun c => c ∉ delimiters, ((c :: rest).dropWhile fun c => c ∉ delimiters).drop 1)

theorem strtok_shorter {delimiters text token rest : List Char} (found : strtok delimiters text = some (token, rest)) :
    rest.length < text.length := by
  have start := (List.dropWhile_suffix (p := fun c => decide (c ∈ delimiters)) (l := text)).length_le
  rw [strtok] at found
  split at found
  · cases found
  · rename_i c tail shape
    cases found
    have visible : ¬c ∈ delimiters := by
      have head := List.head?_dropWhile_not (fun c => decide (c ∈ delimiters)) text
      rw [shape] at head
      simpa using head
    rw [shape, List.length_cons] at start
    rw [List.dropWhile_cons_of_pos (by simpa using visible), List.length_drop]
    have further := (List.dropWhile_suffix (p := fun c => decide (c ∉ delimiters)) (l := tail)).length_le
    omega

def moreTokens (text : List Char) : List (List Char) :=
  match _found : strtok " ,\n".toList text with
  | none => []
  | some (p, rest) => p :: moreTokens rest
termination_by text.length
decreasing_by exact strtok_shorter _found

def tokenizeALine (rawLine : List Char) : List (List Char) :=
  match strtok ", \n".toList rawLine with
  | none => []
  | some (p, rest) => p :: moreTokens rest

/-- `packet_type` of the driver, as far as tokens go. -/
inductive PacketType where
  | commit
  | confirm
  | associationReq
  | raw
  deriving DecidableEq, Repr

def classifyToken (rawToken : List Char) : PacketType :=
  if rawToken = "COMMIT".toList then .commit
  else if rawToken = "CONFIRM".toList then .confirm
  else if rawToken = "ASSOCIATION_REQUEST".toList then .associationReq
  else .raw

/-- Any other character ends the program. -/
def hexDigitToBin (c : Char) : Option UInt8 :=
  if '0' ≤ c ∧ c ≤ '9' then some (UInt8.ofNat (c.toNat - '0'.toNat))
  else if 'A' ≤ c ∧ c ≤ 'F' then some (UInt8.ofNat (c.toNat - 'A'.toNat + 10))
  else if 'a' ≤ c ∧ c ≤ 'f' then some (UInt8.ofNat (c.toNat - 'a'.toNat + 10))
  else none

def twoCharToHexa (c1 c2 : Char) : Option UInt8 := do
  let ch1 ← hexDigitToBin c1
  let ch2 ← hexDigitToBin c2
  some ((ch1 &&& 0xFF) <<< 4 ||| (ch2 &&& 0xFF))

def hexPairs : List Char → Option (List UInt8)
  | c1 :: c2 :: rest => do
    let byte ← twoCharToHexa c1 c2
    some (byte :: (← hexPairs rest))
  | _ => some []

def stringToUnsignedChar (input : List Char) : Option (List UInt8) := if input.length % 2 = 0 then hexPairs input else none

/-- What the driver sends for a token. -/
def readToken (token : List Char) : Option Provenance :=
  match classifyToken token with
  | .commit => some (.validPacket .commit)
  | .confirm => some (.validPacket .confirm)
  | .associationReq => some (.validPacket .associationRequest)
  | .raw => (stringToUnsignedChar token).map .rawPacket

/-- `run_fuzzer` reads one line, up to the size of its buffer less one. -/
def readMessage (file : List Char) : Option (List Provenance) :=
  match fgetsLines 99998 file with
  | [] => some []
  | line :: _ => (tokenizeALine line).mapM readToken

/-- `replay_traces` reads line after line. -/
def replayTraces (file : List Char) : Option (List (List Provenance)) :=
  (fgetsLines 99998 file).mapM fun line => (tokenizeALine line).mapM readToken

end Reading

section Tokens

def delimiters : List Char := " ,\n".toList

/-- A token: something is written and nothing separates it. -/
def Solid (text : List Char) : Prop := text ≠ [] ∧ ∀ c ∈ text, c ∉ delimiters

theorem strtok_delimiter {c : Char} (separates : c ∈ delimiters) (text : List Char) :
    strtok delimiters (c :: text) = strtok delimiters text := by
  rw [strtok, strtok, List.dropWhile_cons_of_pos (by simpa using separates)]

theorem strtok_solid {text rest : List Char} (solid : Solid text) (separated : ∀ c ∈ rest.head?, c ∈ delimiters) :
    strtok delimiters (text ++ rest) = some (text, rest.drop 1) := by
  obtain ⟨nonempty, plain⟩ := solid
  obtain ⟨c, tail, rfl⟩ := List.exists_cons_of_ne_nil nonempty
  have token : ∀ d ∈ c :: tail, decide (d ∉ delimiters) = true := fun d member => decide_eq_true (plain d member)
  have stop : rest.takeWhile (fun d => d ∉ delimiters) = [] ∧ rest.dropWhile (fun d => d ∉ delimiters) = rest := by
    cases rest with
    | nil => exact ⟨rfl, rfl⟩
    | cons d rest =>
      have inside := separated d rfl
      exact ⟨List.takeWhile_cons_of_neg (by simpa using inside), List.dropWhile_cons_of_neg (by simpa using inside)⟩
  rw [strtok, List.cons_append, List.dropWhile_cons_of_neg (by simpa using plain c List.mem_cons_self)]
  dsimp only
  rw [← List.cons_append, List.takeWhile_append_of_pos token, List.dropWhile_append_of_pos token, stop.1, stop.2, List.append_nil]

theorem moreTokens_delimiter {c : Char} (separates : c ∈ delimiters) (text : List Char) : moreTokens (c :: text) = moreTokens text := by
  rw [moreTokens, moreTokens, ← delimiters, strtok_delimiter separates]

theorem moreTokens_solid {text rest : List Char} (solid : Solid text) (separated : ∀ c ∈ rest.head?, c ∈ delimiters) :
    moreTokens (text ++ rest) = text :: moreTokens rest := by
  have skipped : moreTokens (rest.drop 1) = moreTokens rest := by
    cases rest with
    | nil => rfl
    | cons c rest => exact (moreTokens_delimiter (separated c rfl) rest).symm
  rw [moreTokens, ← delimiters, strtok_solid solid separated]
  dsimp only
  rw [skipped]

/-- Both sets of separators are the same. -/
theorem tokenizeALine_eq (rawLine : List Char) : tokenizeALine rawLine = moreTokens rawLine := by
  have same : strtok ", \n".toList rawLine = strtok delimiters rawLine := by
    have swapped : ", \n".toList.Perm delimiters := List.Perm.swap ' ' ',' ['\n']
    simp only [strtok, swapped.mem_iff]
  rw [tokenizeALine, same, moreTokens, ← delimiters]
  cases strtok delimiters rawLine <;> rfl

theorem moreTokens_behind {texts : List (List Char)} (solid : ∀ text ∈ texts, Solid text) :
    moreTokens (texts.flatMap fun x => ", ".toList ++ x) = texts := by
  induction texts with
  | nil => rw [List.flatMap_nil, moreTokens]; rfl
  | cons text texts ih =>
    obtain ⟨first, others⟩ := List.forall_mem_cons.mp solid
    have comma : ',' ∈ delimiters := by decide
    have blank : ' ' ∈ delimiters := by decide
    have parted : ∀ c ∈ (texts.flatMap fun x => ", ".toList ++ x).head?, c ∈ delimiters := by
      intro c head
      cases texts with
      | nil => cases head
      | cons next texts =>
        cases head
        exact comma
    have begins : (text :: texts).flatMap (fun x => ", ".toList ++ x) =
        ',' :: ' ' :: (text ++ texts.flatMap fun x => ", ".toList ++ x) := by
      rw [List.flatMap_cons, List.append_assoc]
      rfl
    rw [begins, moreTokens_delimiter comma, moreTokens_delimiter blank, moreTokens_solid first parted, ih others]

theorem moreTokens_before {texts : List (List Char)} (solid : ∀ text ∈ texts, Solid text) :
    moreTokens ((texts.flatMap fun x => x ++ ", ".toList) ++ ['\n']) = texts := by
  have newline : '\n' ∈ delimiters := by decide
  induction texts with
  | nil =>
    rw [List.flatMap_nil, List.nil_append, moreTokens_delimiter newline, moreTokens]
    rfl
  | cons text texts ih =>
    obtain ⟨first, others⟩ := List.forall_mem_cons.mp solid
    have comma : ',' ∈ delimiters := by decide
    have blank : ' ' ∈ delimiters := by decide
    have begins : (text :: texts).flatMap (fun x => x ++ ", ".toList) ++ ['\n'] =
        text ++ ',' :: ' ' :: ((texts.flatMap fun x => x ++ ", ".toList) ++ ['\n']) := by
      rw [List.flatMap_cons, List.append_assoc, List.append_assoc]
      rfl
    have parted : ∀ c ∈ (',' :: ' ' :: ((texts.flatMap fun x => x ++ ", ".toList) ++ ['\n'])).head?, c ∈ delimiters := by
      intro c head
      cases head
      exact comma
    rw [begins, moreTokens_solid first parted, moreTokens_delimiter comma, moreTokens_delimiter blank, ih others]

end Tokens

section Items

theorem twoCharToHexa_digits (byte : UInt8) :
    twoCharToHexa (Nat.digitChar (byte.toNat / 16)) (Nat.digitChar (byte.toNat % 16)) = some byte := by
  have checked : ∀ n < 256, twoCharToHexa (Nat.digitChar (n / 16)) (Nat.digitChar (n % 16)) = some (UInt8.ofNat n) := by
    decide +kernel
  have known := checked byte.toNat byte.toNat_lt
  rwa [UInt8.ofNat_toNat] at known

theorem hexPairs_flatMap (bytes : List UInt8) : hexPairs (bytes.flatMap hexByte) = some bytes := by
  induction bytes with
  | nil => rfl
  | cons byte bytes ih =>
    rw [List.flatMap_cons, hexByte, List.cons_append, List.cons_append, List.nil_append, hexPairs, twoCharToHexa_digits, ih]
    rfl

private theorem digits {bytes : List UInt8} {c : Char} (member : c ∈ bytes.flatMap hexByte) : ∃ n < 16, c = Nat.digitChar n := by
  obtain ⟨byte, _, inside⟩ := List.mem_flatMap.mp member
  have bound := byte.toNat_lt
  simp only [hexByte, List.mem_cons, List.not_mem_nil, or_false] at inside
  rcases inside with rfl | rfl
  · exact ⟨_, by omega, rfl⟩
  · exact ⟨_, by omega, rfl⟩

private theorem digit_plain {n : Nat} (small : n < 16) :
    Nat.digitChar n ∉ delimiters ∧ Nat.digitChar n ≠ 'C' ∧ Nat.digitChar n ≠ 'A' := by
  have checked : ∀ n < 16, Nat.digitChar n ∉ delimiters ∧ Nat.digitChar n ≠ 'C' ∧ Nat.digitChar n ≠ 'A' := by decide
  exact checked n small

private theorem solid_of_all {text : List Char} (nonempty : text ≠ []) (plain : text.all (fun c => c ∉ delimiters) = true) :
    Solid text := by
  refine ⟨nonempty, ?_⟩
  intro c member
  exact of_decide_eq_true (List.all_eq_true.mp plain c member)

/-- What may stand in a trace. -/
def Provenance.Sendable : Provenance → Prop
  | .rawPacket bytes => bytes ≠ []
  | .validPacket type => type ≠ .nothing ∧ type ≠ .reset

/-- The text of an item is a token, and the driver understands it. -/
theorem provenanceText_ok {item : Provenance} (sendable : item.Sendable) :
    ∃ text, provenanceText item = .ok text ∧ Solid text ∧ readToken text = some item := by
  cases item with
  | validPacket type =>
    cases type with
    | commit => exact ⟨_, rfl, solid_of_all (by decide) rfl, rfl⟩
    | confirm => exact ⟨_, rfl, solid_of_all (by decide) rfl, rfl⟩
    | associationRequest => exact ⟨_, rfl, solid_of_all (by decide) rfl, rfl⟩
    | nothing => exact absurd rfl sendable.1
    | reset => exact absurd rfl sendable.2
  | rawPacket bytes =>
    have text : bytesToHex bytes = bytes.flatMap hexByte := List.flatMap_eq_foldl.symm
    have nonempty : bytes.flatMap hexByte ≠ [] := by
      obtain ⟨byte, rest, rfl⟩ := List.exists_cons_of_ne_nil sendable
      exact List.cons_ne_nil _ _
    have even : (bytes.flatMap hexByte).length % 2 = 0 := by
      have length : (bytes.flatMap hexByte).length = 2 * bytes.length := by
        simp [List.length_flatMap, hexByte, Nat.mul_comm]
      omega
    obtain ⟨c, rest, shape⟩ := List.exists_cons_of_ne_nil nonempty
    obtain ⟨n, small, digit⟩ := digits (shape ▸ List.mem_cons_self : c ∈ bytes.flatMap hexByte)
    obtain ⟨_, noC, noA⟩ := digit_plain small
    have classified : classifyToken (bytes.flatMap hexByte) = .raw := by
      have differs : ∀ {d : Char} {word : List Char}, c ≠ d → bytes.flatMap hexByte ≠ d :: word := by
        intro d word other same
        rw [shape] at same
        exact other (List.cons.inj same).1
      have noCommit : bytes.flatMap hexByte ≠ "COMMIT".toList := differs (digit ▸ noC)
      have noConfirm : bytes.flatMap hexByte ≠ "CONFIRM".toList := differs (digit ▸ noC)
      have noAssociation : bytes.flatMap hexByte ≠ "ASSOCIATION_REQUEST".toList := differs (digit ▸ noA)
      rw [classifyToken, if_neg noCommit, if_neg noConfirm, if_neg noAssociation]
    refine ⟨_, rfl, ⟨text ▸ nonempty, fun c member => ?_⟩, ?_⟩
    · rw [text] at member
      obtain ⟨n, small, rfl⟩ := digits member
      exact (digit_plain small).1
    · rw [text, readToken, classified]
      dsimp only
      rw [stringToUnsignedChar, if_pos even, hexPairs_flatMap]
      rfl

theorem provenanceTexts_ok {trace : List Provenance} (sendable : ∀ item ∈ trace, item.Sendable) :
    ∃ texts, trace.mapM provenanceText = .ok texts ∧ (∀ text ∈ texts, Solid text) ∧ texts.mapM readToken = some trace := by
  induction trace with
  | nil => exact ⟨[], rfl, by simp, rfl⟩
  | cons item trace ih =>
    obtain ⟨first, others⟩ := List.forall_mem_cons.mp sendable
    obtain ⟨text, written, solid, understood⟩ := provenanceText_ok first
    obtain ⟨texts, rest, all, read⟩ := ih others
    refine ⟨text :: texts, ?_, List.forall_mem_cons.mpr ⟨solid, all⟩, ?_⟩
    · rw [List.mapM_cons, written, rest]
      rfl
    · rw [List.mapM_cons, understood, read]
      rfl

end Items

section Files

theorem solid_unbroken {texts : List (List Char)} (solid : ∀ text ∈ texts, Solid text) {text : List Char} (member : text ∈ texts) :
    '\n' ∉ text := fun inside => (solid text member).2 '\n' inside (by decide)

/-- A message is read back. -/
theorem readMessage_ok {trace : List Provenance} (sendable : ∀ item ∈ trace, item.Sendable) :
    ∃ texts, runTrace trace = .ok texts ∧
      ((writeTraceToFile texts).length < 100000 → readMessage (writeTraceToFile texts) = some trace) := by
  obtain ⟨texts, written, solid, read⟩ := provenanceTexts_ok sendable
  refine ⟨texts, written, fun short => ?_⟩
  have text : writeTraceToFile texts = texts.flatMap fun x => ", ".toList ++ x := by
    rw [List.flatMap_eq_foldl, writeTraceToFile]
    simp only [List.append_assoc]
  rw [text] at short ⊢
  have unbroken : '\n' ∉ texts.flatMap fun x => ", ".toList ++ x := by
    intro inside
    obtain ⟨x, member, found⟩ := List.mem_flatMap.mp inside
    rcases List.mem_append.mp found with separator | own
    · exact absurd separator (by decide)
    · exact solid_unbroken solid member own
  have line : fgetsLines 99998 (texts.flatMap fun x => ", ".toList ++ x) =
      if texts.flatMap (fun x => ", ".toList ++ x) = [] then [] else [texts.flatMap fun x => ", ".toList ++ x] := by
    rw [fgetsLines, Text.takeLine_unbroken unbroken (by omega), fgetsLines, if_pos rfl]
  rw [readMessage, line]
  cases texts with
  | nil =>
    cases read
    rfl
  | cons x texts =>
    rw [if_neg (fun empty => by cases empty)]
    dsimp only
    rw [tokenizeALine_eq, moreTokens_behind solid, read]

/-- A dumped trace is a line. -/
theorem dumpSingleTrace_ok {trace : List Provenance} (sendable : ∀ item ∈ trace, item.Sendable) :
    ∃ line, dumpSingleTrace trace = .ok (line ++ ['\n']) ∧ '\n' ∉ line ∧
      (tokenizeALine (line ++ ['\n'])).mapM readToken = some trace := by
  obtain ⟨texts, written, solid, read⟩ := provenanceTexts_ok sendable
  have text : texts.foldl (fun result x => result ++ x ++ ", ".toList) [] = texts.flatMap fun x => x ++ ", ".toList := by
    rw [List.flatMap_eq_foldl]
    simp only [List.append_assoc]
  refine ⟨texts.flatMap fun x => x ++ ", ".toList, ?_, ?_, ?_⟩
  · rw [dumpSingleTrace, written, ← text]
    rfl
  · intro inside
    obtain ⟨x, member, found⟩ := List.mem_flatMap.mp inside
    rcases List.mem_append.mp found with own | separator
    · exact solid_unbroken solid member own
    · exact absurd separator (by decide)
  · rw [tokenizeALine_eq, moreTokens_before solid, read]

/-- Dumped traces are lines that are read back one by one. -/
theorem dumpAllTraces_ok {traces : List (List Provenance)} (sendable : ∀ trace ∈ traces, ∀ item ∈ trace, item.Sendable) :
    ∃ lines : List (List Char), traces.mapM dumpSingleTrace = .ok (lines.map fun line => line ++ ['\n']) ∧ (∀ line ∈ lines, '\n' ∉ line) ∧
      (lines.map fun line => line ++ ['\n']).mapM (fun line => (tokenizeALine line).mapM readToken) = some traces ∧
      ∀ line ∈ lines, ∃ trace ∈ traces, dumpSingleTrace trace = .ok (line ++ ['\n']) := by
  induction traces with
  | nil => exact ⟨[], rfl, by simp, rfl, by simp⟩
  | cons trace traces ih =>
    obtain ⟨first, others⟩ := List.forall_mem_cons.mp sendable
    obtain ⟨line, dumped, unbroken, read⟩ := dumpSingleTrace_ok first
    obtain ⟨lines, rest, all, readAll, sources⟩ := ih others
    refine ⟨line :: lines, ?_, List.forall_mem_cons.mpr ⟨unbroken, all⟩, ?_, ?_⟩
    · rw [List.mapM_cons, dumped, rest]
      rfl
    · rw [List.map_cons, List.mapM_cons, read, readAll]
      rfl
    · refine List.forall_mem_cons.mpr ⟨⟨trace, List.mem_cons_self, dumped⟩, fun other member => ?_⟩
      obtain ⟨source, listed, same⟩ := sources other member
      exact ⟨source, List.mem_cons_of_mem trace listed, same⟩

/-- Whatever the generator writes the driver reads back, from a message and from a dump, as long as
every line fits into its buffer. -/
theorem traces_roundTrip :
    (∀ trace : List Provenance, (∀ item ∈ trace, item.Sendable) → ∃ texts, runTrace trace = .ok texts ∧
      ((writeTraceToFile texts).length < 100000 → readMessage (writeTraceToFile texts) = some trace)) ∧
    ∀ traces : List (List Provenance), (∀ trace ∈ traces, ∀ item ∈ trace, item.Sendable) → ∃ file, dumpAllTraces traces = .ok file ∧
      ((∀ trace ∈ traces, ∀ line, dumpSingleTrace trace = .ok line → line.length < 100000) → replayTraces file = some traces) := by
  refine ⟨fun trace sendable => readMessage_ok sendable, fun traces sendable => ?_⟩
  obtain ⟨lines, dumped, unbroken, read, sources⟩ := dumpAllTraces_ok sendable
  have joined : (lines.map fun line => line ++ ['\n']).foldl (fun result x => result ++ x) [] = lines.flatMap fun line => line ++ ['\n'] := by
    rw [List.flatMap_eq_foldl, List.foldl_map]
  refine ⟨lines.flatMap fun line => line ++ ['\n'], ?_, fun short => ?_⟩
  · rw [dumpAllTraces, dumped, ← joined]
    rfl
  · have plain : ∀ line ∈ lines, '\n' ∉ line ∧ line.length ≤ 99998 := by
      intro line member
      obtain ⟨trace, listed, same⟩ := sources line member
      have fits := short trace listed _ same
      rw [List.length_append, List.length_singleton] at fits
      exact ⟨unbroken line member, by omega⟩
    rw [replayTraces, Text.fgetsLines_lines plain, read]

def someTraces : List (List Provenance) :=
  [[.validPacket .commit, .rawPacket [0xC0, 0x33, 0x17]], [], [.validPacket .confirm, .validPacket .associationRequest]]

theorem someTraces_replayed : ∃ file, dumpAllTraces someTraces = .ok file ∧ replayTraces file = some someTraces := by
  have sendable : ∀ trace ∈ someTraces, ∀ item ∈ trace, item.Sendable := by
    simp [someTraces, Provenance.Sendable]
  obtain ⟨file, dumped, replayed⟩ := traces_roundTrip.2 someTraces sendable
  refine ⟨file, dumped, replayed ?_⟩
  have lengths : ∀ trace ∈ someTraces, (dumpSingleTrace trace).toOption.all fun line => line.length < 100000 := by
    decide +kernel
  intro trace member line dump
  have short := lengths trace member
  rw [dump] at short
  exact of_decide_eq_true short

end Files

end LtlFuzz.Driver

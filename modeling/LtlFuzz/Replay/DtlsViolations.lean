import LtlFuzz.Adapter.DtlsRules
import LtlFuzz.Monitor.ViolationLog
import LtlFuzz.Replay.FtpTrace

/-! `dtls_violation_check.c`: a reader for the violation log that runs the packets of every
violation through the adapter again. It waits for a header the monitor does not write. -/

namespace LtlFuzz.Replay
open Adapter Monitor Preprocessor
open Text (isSpace words fgetsLines strstr)
open Logic (bind_ok)

/-- The text behind the first occurrence of the needle, if there is one. -/
def textBehind (needle : List Char) : List Char → Option (List Char)
  | [] => none
  | c :: rest => if needle.isPrefixOf (c :: rest) then some ((c :: rest).drop needle.length) else textBehind needle rest

/-- `sscanf(tmp, "%02x", &byte)` on two characters, as the byte that is kept. -/
def scanHexPair (high low : Char) : Option UInt8 :=
  match hexVal high, hexVal low with
  | some hi, some lo => some (UInt8.ofNat (hi * 16 + lo))
  | some hi, none => some (UInt8.ofNat hi)
  | none, some lo => if high = '+' then some (UInt8.ofNat lo) else if high = '-' then some (-UInt8.ofNat lo) else none
  | none, none => none

/-- Blanks are skipped before every pair. -/
def hexToBytes : Nat → Option Char → List Char → List UInt8
  | 0, _, _ => []
  | _, _, [] => []
  | maxOut + 1, none, c :: rest => if isSpace c then hexToBytes (maxOut + 1) none rest else hexToBytes (maxOut + 1) (some c) rest
  | maxOut + 1, some high, low :: rest =>
    match scanHexPair high low with
    | some byte => byte :: hexToBytes maxOut none rest
    | none => []

/-- The loop of `extract_field`: `skip` characters of a place that was no field are left,
and `previous` stands before the rest. -/
def extractFrom (key : List Char) (room : Nat) : Nat → Option Char → List Char → Option (List Char)
  | _, _, [] => none
  | skip + 1, _, c :: rest => extractFrom key room skip (some c) rest
  | 0, previous, c :: rest =>
    if key.isPrefixOf (c :: rest) then
      if previous.all isSpace && ((c :: rest).drop key.length).head? == some '=' then
        some ((((c :: rest).drop (key.length + 1)).takeWhile fun d => !isSpace d).take room)
      else extractFrom key room (key.length - 1) (some c) rest
    else extractFrom key room 0 (some c) rest

def extractField (line key : List Char) (dstSize : Nat) : Option (List Char) := extractFrom key (dstSize - 1) 0 none line

inductive CheckAction where
  | endSession
  | reset
  | packet (direction : Direction) (packet : Packet)
  deriving DecidableEq, Repr

/-- What a line of a packet window is taken for. -/
def readPacket (line : List Char) : Option CheckAction := do
  let _ ← extractField line "msg_id".toList 32
  let dir ← extractField line "dir".toList 8
  let trace ← textBehind "trace=".toList line
  let trace := (trace.reverse.dropWhile isSpace).reverse
  let bytes := hexToBytes 65536 none trace
  if bytes = [] then none else some (.packet (if dir = "C2S".toList then .c2s else .s2c) ⟨bytes, []⟩)

structure CheckState where
  inViolation : Bool := false
  inPacketWindow : Bool := false
  emitting : Bool := false
  sessionStarted : Bool := false
  deriving DecidableEq, Repr

def violationHeader : List Char := "[VIOLATION #".toList

/-- `sscanf(strstr(line, "#") + 1, "%d", &vid)`. -/
def violationId (line : List Char) : Option Int := do
  let number ← Text.scanNumber (← textBehind ['#'] line)
  return Text.signed number

def checkLine (targetViolation : Int) (state : CheckState) (line : List Char) : CheckState × List CheckAction :=
  if strstr line violationHeader then
    match violationId line with
    | some vid =>
      if targetViolation = -1 ∨ targetViolation = vid then
        (⟨true, false, true, true⟩, (if state.sessionStarted then [.endSession] else []) ++ [.reset])
      else (⟨true, false, false, state.sessionStarted⟩, [])
    | none => (state, [])
  else if strstr line "Recent packet window".toList then ({ state with inPacketWindow := true }, [])
  else if state.inPacketWindow && line.head? == some '\n' then ({ state with inPacketWindow := false }, [])
  else if !state.inViolation || !state.inPacketWindow || !state.emitting then (state, [])
  else (state, (readPacket line).toList)

def checkLines (targetViolation : Int) (state : CheckState) : List (List Char) → List CheckAction
  | [] => if state.sessionStarted then [.endSession] else []
  | line :: lines =>
    (checkLine targetViolation state line).2 ++ checkLines targetViolation (checkLine targetViolation state line).1 lines

/-- The whole program on a log, read through `char line[131072]`. -/
def check (targetViolation : Int) (log : List Char) : List CheckAction :=
  checkLines targetViolation {} ((fgetsLines 131070 log).map cString)

/-- What the program does with the adapter. -/
def CheckAction.input : CheckAction → Option Input
  | .endSession => none
  | .reset => some .reset
  | .packet direction sent => some (.packet direction sent)

/-- The packet a reference stands for. -/
def recordedPacket (tr : TraceRef) : Input :=
  .packet (if tr.dir = "C2S" then .c2s else .s2c) ⟨decodeHex tr.trace.toList.length tr.trace.toList, []⟩

/-- What should happen to the adapter for a violation. -/
def review (violation : Violation) : List Input := .reset :: violation.window.map recordedPacket

section Quiet

/-- How much of `N #`, the end of the header's first words, has just been read. -/
def hashStep : Nat → Char → Nat
  | 3, _ => 3
  | read, c => if c = 'N' then 1 else if read = 1 ∧ c = ' ' then 2 else if read = 2 ∧ c = '#' then 3 else 0

/-- No `N #` begins, ends or stands in this text. -/
def Quiet (text : List Char) : Prop := ∀ read ≤ 1, text.foldl hashStep read ≤ 1

private theorem hashStep_found (text : List Char) : text.foldl hashStep 3 = 3 := by
  induction text with
  | nil => rfl
  | cons c text ih => exact ih

private theorem hashStep_restart (read : Nat) : hashStep read 'N' = 1 ∨ hashStep read 'N' = 3 := by
  unfold hashStep
  split
  · exact Or.inr rfl
  · exact Or.inl rfl

theorem Quiet.headless {text : List Char} (quiet : Quiet text) : ¬violationHeader <:+: text := by
  rintro ⟨before, after, same⟩
  have split : violationHeader = "[VIOLATIO".toList ++ ['N', ' ', '#'] := rfl
  have bound := quiet 0 (by omega)
  rw [← same, split] at bound
  simp only [List.foldl_append, List.foldl_cons, List.foldl_nil] at bound
  rcases hashStep_restart ("[VIOLATIO".toList.foldl hashStep (before.foldl hashStep 0)) with one | found
  · have last : hashStep (hashStep 1 ' ') '#' = 3 := rfl
    rw [one, last, hashStep_found] at bound
    omega
  · have last : hashStep (hashStep 3 ' ') '#' = 3 := rfl
    rw [found, last, hashStep_found] at bound
    omega

theorem Quiet.append {front back : List Char} (first : Quiet front) (second : Quiet back) : Quiet (front ++ back) := by
  intro read small
  rw [List.foldl_append]
  exact second _ (first read small)

theorem Quiet.flatMap {α : Type} {items : List α} {text : α → List Char} (each : ∀ item ∈ items, Quiet (text item)) :
    Quiet (items.flatMap text) := by
  induction items with
  | nil => exact fun read small => small
  | cons item items ih =>
    obtain ⟨first, later⟩ := List.forall_mem_cons.mp each
    exact first.append (ih later)

theorem Quiet.intercalate {separator : List Char} (between : Quiet separator) {items : List (List Char)}
    (each : ∀ item ∈ items, Quiet item) : Quiet (separator.intercalate items) := by
  induction items with
  | nil => exact fun read small => small
  | cons item items ih =>
    obtain ⟨first, later⟩ := List.forall_mem_cons.mp each
    cases items with
    | nil => simpa using first
    | cons next items =>
      rw [List.intercalate_cons_cons]
      exact (first.append between).append (ih later)

theorem Quiet.of_solid {text : List Char} (solid : ∀ c ∈ text, isSpace c = false) : Quiet text := by
  induction text with
  | nil => exact fun read small => small
  | cons c text ih =>
    obtain ⟨visible, later⟩ := List.forall_mem_cons.mp solid
    intro read small
    have blank : c ≠ ' ' := by
      rintro rfl
      exact absurd visible (by decide)
    have next : hashStep read c ≤ 1 := by
      unfold hashStep
      split
      · omega
      · split_ifs
        · exact le_refl 1
        next both => exact absurd both.2 blank
        · omega
        · omega
    exact ih later _ next

private theorem quiet_of_start {text : List Char} (zero : text.foldl hashStep 0 ≤ 1) (one : text.foldl hashStep 1 ≤ 1) :
    Quiet text := by
  intro read small
  rcases Nat.le_one_iff_eq_zero_or_eq_one.mp small with rfl | rfl
  · exact zero
  · exact one

theorem quiet_decimal (n : Nat) : Quiet (decimal n) :=
  .of_solid fun c digit => Text.digit_not_space (Text.toString_nat_digits n c digit)

/-- A blank behind a number starts nothing. -/
theorem quiet_decimal_blank (n : Nat) : Quiet (decimal n ++ " ".toList) := by
  have step {c : Char} (digit : c.isDigit) {read : Nat} (small : read ≤ 1) : hashStep read c = 0 := by
    have other : c ≠ 'N' ∧ c ≠ ' ' ∧ c ≠ '#' := by
      refine ⟨?_, ?_, ?_⟩ <;> rintro rfl <;> exact absurd digit (by decide)
    unfold hashStep
    split
    · omega
    · simp [other]
  have digits := Text.toString_nat_digits n
  have stays {text : List Char} (all : ∀ c ∈ text, c.isDigit) : text.foldl hashStep 0 = 0 := by
    induction text with
    | nil => rfl
    | cons c text ih =>
      obtain ⟨first, later⟩ := List.forall_mem_cons.mp all
      rw [List.foldl_cons, step first (Nat.zero_le 1), ih later]
  intro read small
  obtain ⟨c, rest, same⟩ : ∃ c rest, decimal n = c :: rest := by
    apply List.exists_cons_of_ne_nil
    unfold decimal
    rw [Text.toList_toString_nat]
    exact Nat.toDigits_ne_nil
  unfold decimal at same
  rw [same] at digits
  obtain ⟨first, later⟩ := List.forall_mem_cons.mp digits
  unfold decimal
  rw [same, List.foldl_append, List.foldl_cons, step first small, stays later]
  decide

end Quiet

section Printed

private theorem quiet_identifier (identifier : Grammar.Identifier) : Quiet identifier.name.toList := by
  apply Quiet.of_solid
  have valid := identifier.valid
  unfold Grammar.isIdentifier at valid
  split at valid
  · cases valid
  next c rest same =>
    rw [same]
    simp only [Bool.and_eq_true, List.all_eq_true] at valid
    have plain : ∀ d, Grammar.isIdentifierStart d = true ∨ d.isDigit = true → isSpace d = false := by
      intro d letter
      by_contra blank
      simp only [isSpace, Bool.not_eq_false, Bool.or_eq_true, beq_iff_eq] at blank
      rcases blank with ((((rfl | rfl) | rfl) | rfl) | rfl) | rfl <;> exact absurd letter (by decide)
    intro d member
    rcases List.mem_cons.mp member with rfl | later
    · exact plain d (Or.inl valid.1.1)
    · exact plain d (by simpa using valid.1.2 d later)

private theorem quiet_term (term : Grammar.Term) : Quiet (printStuff term.node) := by
  cases term with
  | id identifier => exact quiet_identifier identifier
  | int value => exact .of_solid (Text.toString_int_solid value)
  | true | false => exact .of_solid (solid_of_all (by decide))

private theorem quiet_predicates (predicates : Grammar.Predicates) : Quiet (printStuff predicates.node) := by
  obtain ⟨identifier, kind, term⟩ := predicates
  have left := quiet_identifier identifier
  have right := quiet_term term
  cases kind with
  | eq | neq => exact (left.append (quiet_of_start (by decide) (by decide))).append right
  | gt | gte | lt | lte =>
    exact ((((quiet_of_start (by decide) (by decide)).append left).append (quiet_of_start (by decide) (by decide))).append
      right).append (quiet_of_start (by decide) (by decide))

/-- A formula of a specification is printed without a header. -/
theorem quiet_formula (formula : Grammar.Formula) : Quiet (printStuff formula.node) := by
  induction formula with
  | paren formula ih => exact ih
  | true | false => exact .of_solid (solid_of_all (by decide))
  | predicates body => exact quiet_predicates body
  | arrow left right ihLeft ihRight => exact (ihLeft.append (quiet_of_start (by decide) (by decide))).append ihRight
  | and left right ihLeft ihRight => exact (ihLeft.append (quiet_of_start (by decide) (by decide))).append ihRight
  | or left right ihLeft ihRight => exact (ihLeft.append (quiet_of_start (by decide) (by decide))).append ihRight
  | s left right ihLeft ihRight => exact ((((quiet_of_start (by decide) (by decide)).append ihLeft).append
      (quiet_of_start (by decide) (by decide))).append ihRight).append (quiet_of_start (by decide) (by decide))
  | not formula ih | o formula ih | h formula ih | y formula ih =>
    exact ((quiet_of_start (by decide) (by decide)).append ih).append (quiet_of_start (by decide) (by decide))

theorem printStuff_preProcess (ast : ASTNode Unit) (snum : Nat) : printStuff (preProcess ast snum).1 = printStuff ast := by
  induction ast generalizing snum with
  | id | int | bool => rfl
  | predicate _ kind left right ihLeft ihRight => cases kind <;> simp [preProcess, printStuff, ihLeft, ihRight]
  | unary _ kind child ih => cases kind <;> simp [preProcess, printStuff, ih]
  | binary _ kind left right ihLeft ihRight => cases kind <;> simp [preProcess, printStuff, ihLeft, ihRight]

end Printed

section Events

/-- No blank stands in a key or a value. -/
def SolidKv (kv : KeyValues) : Prop :=
  ∀ entry ∈ kv.entries, (∀ c ∈ entry.1.toList, isSpace c = false) ∧ ∀ c ∈ entry.2.toList, isSpace c = false

private theorem mem_kreplace {k v : String} {entry : Sigma fun _ : String => String}
    {entries : List (Sigma fun _ : String => String)} (member : entry ∈ List.kreplace k v entries) :
    entry = ⟨k, v⟩ ∨ entry ∈ entries := by
  induction entries with
  | nil => cases member
  | cons first rest ih =>
    unfold List.kreplace at ih member
    by_cases same : k = first.1
    · simp only [List.lookmap_cons, if_pos same] at member
      exact (List.mem_cons.mp member).imp id (List.mem_cons_of_mem _)
    · simp only [List.lookmap_cons, if_neg same] at member
      rcases List.mem_cons.mp member with rfl | later
      · exact Or.inr List.mem_cons_self
      · exact (ih later).imp id (List.mem_cons_of_mem _)

private theorem mem_assign {kv : KeyValues} {k v : String} {entry : Sigma fun _ : String => String}
    (member : entry ∈ (kv.assign k v).entries) : entry = ⟨k, v⟩ ∨ entry ∈ kv.entries := by
  unfold KeyValues.assign at member
  split at member
  next known => exact mem_kreplace member
  next fresh =>
    rw [AList.entries_insert] at member
    exact (List.mem_cons.mp member).imp id fun earlier => (List.kerase_sublist _ _).subset earlier

private theorem addKeyValue_solid {kv : KeyValues} (solid : SolidKv kv) {tok : List Char}
    (word : ∀ c ∈ tok, isSpace c = false) : SolidKv (addKeyValue kv tok) := by
  unfold addKeyValue keyValue
  split_ifs with delimited
  · intro entry member
    rcases mem_assign member with rfl | earlier
    · constructor
      · intro c inside
        rw [String.toList_ofList] at inside
        exact word c (List.takeWhile_subset _ inside)
      · intro c inside
        rw [String.toList_ofList] at inside
        exact word c ((List.dropWhile_sublist _).subset (List.mem_of_mem_tail inside))
    · exact solid entry earlier
  · exact solid

theorem parseKvLine_solid (line : List Char) : SolidKv (parseKvLine line) := by
  have all (tokens : List (List Char)) (kv : KeyValues) (solid : SolidKv kv) (isWord : ∀ word ∈ tokens, Text.IsWord word) :
      SolidKv (tokens.foldl addKeyValue kv) := by
    induction tokens generalizing kv with
    | nil => exact solid
    | cons tok tokens ih =>
      obtain ⟨first, later⟩ := List.forall_mem_cons.mp isWord
      exact ih _ (addKeyValue_solid solid first.2) later
  exact all _ ∅ (by simp [SolidKv]) (Text.words_isWord line)

theorem parse_solid {line : List Char} {kv : KeyValues} (parsed : Command.parse line = .ok (.event kv)) : SolidKv kv := by
  unfold Command.parse at parsed
  dsimp only at parsed
  split_ifs at parsed
  · cases parsed
  · cases read : snapshotId (trim line) 15 <;> simp [read, Except.map] at parsed
  · cases read : snapshotId (trim line) 18 <;> simp [read, Except.map] at parsed
  · cases parsed
  · cases parsed
    exact parseKvLine_solid _

theorem SolidKv.quiet {kv : KeyValues} (solid : SolidKv kv) (order : HashOrder) : Quiet (formatEventKv order kv).toList := by
  unfold formatEventKv
  simp only [String.toList_append, String.toList_intercalate]
  refine (Quiet.append (quiet_of_start (by decide) (by decide)) ?_).append (quiet_of_start (by decide) (by decide))
  apply Quiet.intercalate (quiet_of_start (by decide) (by decide))
  intro item member
  obtain ⟨text, printed, rfl⟩ := List.mem_map.mp member
  obtain ⟨k, _, shown⟩ := List.mem_filterMap.mp printed
  obtain ⟨v, found, rfl⟩ := Option.map_eq_some_iff.mp shown
  obtain ⟨key, value⟩ := solid ⟨k, v⟩ (AList.mem_lookup_iff.mp found)
  simp only [String.toList_append]
  exact ((Quiet.of_solid key).append (quiet_of_start (by decide) (by decide))).append (Quiet.of_solid value)

/-- The members of a packet reference are single words. -/
def SolidRef (tr : TraceRef) : Prop :=
  ∀ text ∈ [tr.msgId, tr.dir, tr.trace], ∀ c ∈ text.toList, isSpace c = false

theorem SolidKv.traceRef {kv : KeyValues} (solid : SolidKv kv) {tr : TraceRef} (named : TraceRef.ofKv kv = some tr) :
    SolidRef tr := by
  have looked {key value : String} (found : kv.lookup key = some value) : ∀ c ∈ value.toList, isSpace c = false :=
    (solid ⟨key, value⟩ (AList.mem_lookup_iff.mp found)).2
  unfold TraceRef.ofKv at named
  split at named
  next msgId trace first third =>
    cases named
    intro text member
    simp only [List.mem_cons, List.not_mem_nil, or_false] at member
    rcases member with rfl | rfl | rfl
    · exact looked first
    · cases second : kv.lookup "dir" with
      | none => exact solid_of_all (by decide)
      | some dir => exact looked second
    · exact looked third
  · cases named

theorem SolidRef.quiet {tr : TraceRef} (solid : SolidRef tr) : Quiet tr.line := by
  unfold TraceRef.line
  have first := Quiet.of_solid (solid tr.msgId (by simp))
  have second := Quiet.of_solid (solid tr.dir (by simp))
  have third := Quiet.of_solid (solid tr.trace (by simp))
  exact (((((quiet_of_start (by decide) (by decide)).append first).append (quiet_of_start (by decide) (by decide))).append
    second).append (quiet_of_start (by decide) (by decide))).append third

end Events

section Runs

/-- Everything the log is made of stays on a line of its own kind. -/
structure Tidy (nodes : List (ASTNode Nat)) (logger : Logger) : Prop where
  formulas : logger.process.eval.formulas = nodes
  trace : ∀ kv ∈ logger.process.sessionTrace, SolidKv kv
  recent : ∀ tr ∈ logger.recentTraces, SolidRef tr
  events : ∀ violation ∈ logger.violations, ∀ kv ∈ violation.sessionTrace, SolidKv kv
  packets : ∀ violation ∈ logger.violations, ∀ tr ∈ violation.window, SolidRef tr

/-- A command keeps the formulas, and adds nothing to the trace but its own event. -/
theorem handle_frame {process next : Process} {command : Command} {replies : List Reply}
    (handled : process.handle command = .ok (next, replies)) :
    next.eval.formulas = process.eval.formulas ∧ ∀ kv ∈ next.sessionTrace, kv ∈ process.sessionTrace ∨
      command = .event kv := by
  cases command with
  | blank | save =>
    cases handled
    exact ⟨rfl, fun kv member => Or.inl member⟩
  | endSession =>
    cases handled
    exact ⟨rfl, by simp [Process.endSession]⟩
  | restore snapId =>
    simp only [Process.handle] at handled
    split at handled
    · cases handled
      exact ⟨rfl, fun kv member => Or.inl member⟩
    next state found =>
      cases handled
      refine ⟨rfl, ?_⟩
      intro kv member
      simp only [Process.restoreState] at member
      split at member
      · exact Or.inl (List.mem_of_mem_take member)
      · exact Or.inl member
  | event kv =>
    obtain ⟨state, verdicts, _, stepped, _, _, _, trace⟩ := Process.handleEvent_ok handled
    refine ⟨(Evaluator.evaluateOneStep_ok stepped).2.1, ?_⟩
    intro other member
    rw [trace] at member
    rcases List.mem_append.mp member with earlier | last
    · exact Or.inl earlier
    · exact Or.inr (by rw [List.mem_singleton.mp last])

private theorem pushTrace_member {recent : List TraceRef} {added : Option TraceRef} {tr : TraceRef}
    (member : tr ∈ pushTrace recent added) : tr ∈ recent ∨ added = some tr := by
  cases added with
  | none => exact Or.inl member
  | some last =>
    have inside : tr ∈ recent ++ [last] := by
      simp only [pushTrace] at member
      split at member
      · exact List.mem_of_mem_tail member
      · exact member
    rcases List.mem_append.mp inside with earlier | now
    · exact Or.inl earlier
    · exact Or.inr (congrArg some (List.mem_singleton.mp now).symm)

variable {nodes : List (ASTNode Nat)} {logger next : Logger}

private theorem Tidy.process {process : Process} {command : Command} {replies : List Reply} (tidy : Tidy nodes logger)
    (quiet : ∀ kv, command = .event kv → SolidKv kv) (handled : logger.process.handle command = .ok (process, replies)) :
    process.eval.formulas = nodes ∧ ∀ kv ∈ process.sessionTrace, SolidKv kv := by
  obtain ⟨same, origin⟩ := handle_frame handled
  refine ⟨same.trans tidy.formulas, ?_⟩
  intro kv member
  rcases origin kv member with earlier | event
  · exact tidy.trace kv earlier
  · exact quiet kv event

theorem Tidy.handleEvent (tidy : Tidy nodes logger) {kv : KeyValues} (solid : SolidKv kv)
    (executed : logger.handleEvent kv = .ok next) : Tidy nodes next := by
  obtain ⟨state, _, rest⟩ := bind_ok executed
  obtain ⟨⟨verdicts, _⟩, _, rest⟩ := bind_ok rest
  obtain ⟨⟨process, replies⟩, handled, rest⟩ := bind_ok rest
  obtain ⟨formulas, trace⟩ := tidy.process (fun other same => by cases same; exact solid) handled
  have recent : ∀ tr ∈ pushTrace logger.recentTraces (TraceRef.ofKv kv), SolidRef tr := by
    intro tr member
    rcases pushTrace_member member with earlier | now
    · exact tidy.recent tr earlier
    · exact solid.traceRef now
  dsimp only at rest
  split at rest
  · cases rest
    refine ⟨formulas, trace, recent, ?_, ?_⟩
    · intro violation member
      rcases List.mem_append.mp member with earlier | last
      · exact tidy.events violation earlier
      · cases List.mem_singleton.mp last
        exact trace
    · intro violation member
      rcases List.mem_append.mp member with earlier | last
      · exact tidy.packets violation earlier
      · cases List.mem_singleton.mp last
        exact recent
  · cases rest
    exact ⟨formulas, trace, recent, tidy.events, tidy.packets⟩

theorem Tidy.readLine (tidy : Tidy nodes logger) {line : List Char} (executed : logger.readLine line = .ok next) :
    Tidy nodes next := by
  obtain ⟨command, parsed, rest⟩ := bind_ok executed
  cases command with
  | event kv => exact tidy.handleEvent (parse_solid parsed) rest
  | blank | save | restore | endSession =>
    obtain ⟨⟨process, replies⟩, handled, same⟩ := bind_ok rest
    cases same
    obtain ⟨formulas, trace⟩ := tidy.process (by simp) handled
    exact ⟨formulas, trace, tidy.recent, tidy.events, tidy.packets⟩

theorem Tidy.readLines (tidy : Tidy nodes logger) {lines : List (List Char)} (executed : logger.readLines lines = .ok next) :
    Tidy nodes next :=
  Logic.run_invariant (Tidy nodes) (fun _ _ _ tidy executed => tidy.readLine executed) tidy executed

end Runs

section Log

variable {nodes : List (ASTNode Nat)} {logger : Logger}

private theorem quiet_line {front : String} {middle : List Char} {back : String} (inside : Quiet middle)
    (frontZero : front.toList.foldl hashStep 0 ≤ 1) (frontOne : front.toList.foldl hashStep 1 ≤ 1)
    (backZero : back.toList.foldl hashStep 0 ≤ 1) (backOne : back.toList.foldl hashStep 1 ≤ 1) :
    Quiet (front.toList ++ middle ++ back.toList) :=
  ((quiet_of_start frontZero frontOne).append inside).append (quiet_of_start backZero backOne)

theorem quiet_violation {propTexts : List (List Char)} (texts : ∀ text ∈ propTexts, Quiet text) {violation : Violation}
    (events : ∀ kv ∈ violation.sessionTrace, SolidKv kv) (packets : ∀ tr ∈ violation.window, SolidRef tr)
    (order : HashOrder) : ∀ line ∈ violation.lines order "dtls".toList propTexts, Quiet line := by
  intro line member
  simp only [Violation.lines, List.cons_append, List.mem_cons, List.mem_append, List.mem_map] at member
  rcases member with rfl | rfl | rfl | ((⟨i, _, rfl⟩ | rfl | ⟨entry, inside, rfl⟩) | last)
  · exact fun read small => small
  · exact (quiet_line (quiet_decimal _) (by decide) (by decide) (by decide) (by decide)).append
      (quiet_of_start (by decide) (by decide)) |>.append (quiet_of_start (by decide) (by decide))
  · apply (quiet_of_start (by decide) (by decide)).append
    apply Quiet.flatMap
    intro i _
    exact quiet_decimal_blank i
  · apply (quiet_line (quiet_decimal i) (by decide) (by decide) (by decide) (by decide)).append
    cases found : propTexts[i]? with
    | none => exact fun read small => small
    | some text => exact (quiet_of_start (by decide) (by decide)).append (texts text (List.mem_of_getElem? found))
  · exact quiet_line (quiet_decimal _) (by decide) (by decide) (by decide) (by decide)
  · apply (quiet_line (quiet_decimal _) (by decide) (by decide) (by decide) (by decide)).append
    exact (events entry.1 (List.fst_mem_of_mem_zipIdx inside)).quiet order
  · split at last
    · simp at last
    · rcases List.mem_cons.mp last with rfl | window
      · exact quiet_line (quiet_decimal _) (by decide) (by decide) (by decide) (by decide)
      · obtain ⟨tr, inside, rfl⟩ := List.mem_map.mp window
        exact (packets tr inside).quiet

/-- The header the reader waits for is nowhere in the log. -/
theorem Tidy.log_headless (tidy : Tidy nodes logger) (texts : ∀ node ∈ nodes, Quiet (printStuff node)) (order : HashOrder)
    (time : Nat) : ¬violationHeader <:+: logger.log order time "dtls".toList := by
  apply Quiet.headless
  apply Quiet.flatMap
  intro line member
  refine Quiet.append ?_ (quiet_of_start (by decide) (by decide))
  simp only [Logger.logLines, List.mem_cons, List.mem_flatMap] at member
  rcases member with rfl | rfl | ⟨violation, reported, inside⟩
  · exact fun read small => small
  · exact quiet_line (quiet_decimal _) (by decide) (by decide) (by decide) (by decide)
  · refine quiet_violation ?_ (tidy.events violation reported) (tidy.packets violation reported) order line inside
    intro text printed
    obtain ⟨node, known, rfl⟩ := List.mem_map.mp printed
    exact texts node (tidy.formulas ▸ known)

private theorem checkLines_silent (targetViolation : Int) {lines : List (List Char)}
    (headless : ∀ line ∈ lines, strstr line violationHeader = false) {state : CheckState} (outside : state.inViolation = false)
    (fresh : state.sessionStarted = false) : checkLines targetViolation state lines = [] := by
  induction lines generalizing state with
  | nil => simp [checkLines, fresh]
  | cons line lines ih =>
    obtain ⟨first, later⟩ := List.forall_mem_cons.mp headless
    obtain ⟨quiet, kept, unstarted⟩ : (checkLine targetViolation state line).2 = [] ∧
        (checkLine targetViolation state line).1.inViolation = false ∧
        (checkLine targetViolation state line).1.sessionStarted = false := by
      simp only [checkLine, first, outside, Bool.not_false, Bool.true_or, if_true]
      split_ifs <;> simp_all
    rw [checkLines, quiet, ih later kept unstarted]
    rfl

/-- Without the header the program does nothing at all. -/
theorem check_silent (targetViolation : Int) {log : List Char} (headless : ¬violationHeader <:+: log) :
    check targetViolation log = [] := by
  apply checkLines_silent targetViolation _ rfl rfl
  intro line member
  obtain ⟨chunk, stored, rfl⟩ := List.mem_map.mp member
  rw [Bool.eq_false_iff]
  intro found
  apply headless
  have inside : cString chunk <:+: chunk := (List.takeWhile_prefix _).isInfix
  exact (Text.strstr_iff.mp found).trans (inside.trans (Text.fgetsLines_infix stored))

end Log

/-- Whatever the monitor logged, the program does nothing with it. -/
theorem log_unread {tree : Grammar.SpecTree} {checker : TypeChecker} {nodes : List (ASTNode Nat)} {snums : List Nat}
    (numbered : doPreProcess tree.spec.2 = some (nodes, snums)) {lines : List (List Char)} {logger : Logger}
    (executed : Logger.readLines ⟨Process.new checker .dtls nodes snums, [], []⟩ lines = .ok logger) (order : HashOrder)
    (time : Nat) : check (-1) (logger.log order time "dtls".toList) = [] := by
  have start : Tidy nodes ⟨Process.new checker .dtls nodes snums, [], []⟩ :=
    ⟨rfl, by simp [Process.new], by simp, by simp, by simp⟩
  have texts : ∀ node ∈ nodes, Quiet (printStuff node) := by
    have formulas : nodes = tree.spec.2.map fun ast => (preProcess ast 0).1 := (Evaluator.new_ready numbered).formulas
    intro node member
    rw [formulas] at member
    obtain ⟨ast, listed, rfl⟩ := List.mem_map.mp member
    obtain ⟨formula, _, rfl⟩ := Grammar.mem_pushAction.mp listed
    rw [printStuff_preProcess]
    exact quiet_formula formula
  exact check_silent (-1) ((start.readLines executed).log_headless texts order time)

/-- The reader makes of a log what its violations ask for exactly when there are none. -/
theorem violation_log_reviewed_iff (tree : Grammar.SpecTree) (checker : TypeChecker) (nodes : List (ASTNode Nat))
    (snums : List Nat) (numbered : doPreProcess tree.spec.2 = some (nodes, snums)) (lines : List (List Char)) (logger : Logger)
    (executed : Logger.readLines ⟨Process.new checker .dtls nodes snums, [], []⟩ lines = .ok logger) (order : HashOrder)
    (time : Nat) : (check (-1) (logger.log order time "dtls".toList)).filterMap CheckAction.input = logger.violations.flatMap review ↔
      logger.violations = [] := by
  rw [log_unread numbered executed order time]
  cases logger.violations with
  | nil => simp
  | cons violation violations => simp [review]

/-- A reported violation is written down. -/
theorem Logger.logs_report {logger : Logger} {line : List Char} (violates : logger.process.Violates line)
    (reports : logger.process.Reports line) :
    ∃ next, logger.readLine line = .ok next ∧ next.violations.length = logger.violations.length + 1 := by
  obtain ⟨kv, state, verdicts, eval, parsed, read, stepped, _⟩ := violates
  obtain ⟨command, process, again, handled, _⟩ := reports
  cases parsed.symm.trans again
  simp [Logger.readLine, Logger.handleEvent, parsed, read, stepped, handled, bind, Except.bind, pure, Except.pure]

/-- What a monitor hears when the server sends data without a handshake. -/
def plainAnswer : List Char := ((Machine.start Dtls.adapter).buildPredLine Dtls.adapter .s2c Dtls.plainRecord).1

theorem plainAnswer_logged : ∃ checker nodes snums logger, doPreProcess Dtls.tree.spec.2 = some (nodes, snums) ∧
    Logger.readLines ⟨Process.new checker .dtls nodes snums, [], []⟩ [plainAnswer] = .ok logger ∧
    logger.violations.length = 1 := by
  obtain ⟨checker, nodes, snums, compiled, numbered, fit⟩ := fits_sound Dtls.shapes_fit
  have matching := Dtls.build_matches .s2c (Machine.start Dtls.adapter).session Dtls.plainRecord
  obtain ⟨trailing, isTrace, text⟩ := buildPredLine_text fit.toLayout (Machine.start Dtls.adapter) matching
  have violates : (Process.new checker .dtls nodes snums).Violates plainAnswer := by
    rw [plainAnswer, text]
    apply fit.first_violation compiled numbered matching isTrace List.mem_cons_self
    intro state own _ oldBv
    have label {k : Nat} {field : Field}
        (printed : (Dtls.adapter.build .s2c (Machine.start Dtls.adapter).session Dtls.plainRecord).1[k]? = some field) :
        state.labelingFunction.lookup field.1 = some field.2 := own field (List.mem_of_getElem? printed)
    have encrypted : state.labelingFunction.lookup Dtls.encrypted.name = some (boolToString true) := label (k := 6) rfl
    have epoch : state.labelingFunction.lookup Dtls.epoch.name = some (toString (0 : Int)) := label (k := 8) rfl
    have condition : (Grammar.Formula.predicates ⟨Dtls.encrypted, .eq, .true⟩).Has 0 oldBv state true :=
      .predicates (evaluatePredicate_isTrue encrypted)
    have conclusion : (Grammar.Formula.predicates ⟨Dtls.epoch, .gt, .int 0⟩).Has 0 oldBv state (decide ((0 : Int) > 0)) :=
      .predicates (evaluatePredicate_exceeds epoch (by decide) (by decide) 0)
    exact (condition.arrow conclusion).not_historically
  have reports : (Process.new checker .dtls nodes snums).Reports plainAnswer := by
    rw [plainAnswer, text] at violates ⊢
    rw [Process.reports_iff violates (fit.parse matching isTrace) (fit.deriveIdMismatch_fields matching isTrace)]
    have answer : (parseKvLine (predicateText ((Dtls.adapter.build .s2c (Machine.start Dtls.adapter).session
        Dtls.plainRecord).1 ++ trailing))).lookup "response" = some "s2c_ApplicationData" :=
      fit.lookup_field matching isTrace (List.mem_of_getElem? (i := 1) rfl)
    change isValidResponse .dtls _ = true
    simp [isValidResponse, answer]
  have logged : ∃ next, (⟨Process.new checker .dtls nodes snums, [], []⟩ : Logger).readLine plainAnswer = .ok next ∧
      next.violations.length = 1 := Logger.logs_report violates reports
  obtain ⟨logger, executed, count⟩ := logged
  refine ⟨checker, nodes, snums, logger, numbered, ?_, count⟩
  rw [Logger.readLines, Logic.run_cons_of_ok executed]
  rfl

/-- The log of one violation is read without a word about it. -/
theorem plainAnswer_unreviewed : ∃ checker nodes snums logger, doPreProcess Dtls.tree.spec.2 = some (nodes, snums) ∧
    Logger.readLines ⟨Process.new checker .dtls nodes snums, [], []⟩ [plainAnswer] = .ok logger ∧
    logger.violations.length = 1 ∧
    ∀ order, (check (-1) (logger.log order 0 "dtls".toList)).filterMap CheckAction.input ≠ logger.violations.flatMap review := by
  obtain ⟨checker, nodes, snums, logger, numbered, executed, one⟩ := plainAnswer_logged
  refine ⟨checker, nodes, snums, logger, numbered, executed, one, fun order => ?_⟩
  rw [log_unread numbered executed order 0]
  obtain ⟨violation, only⟩ := List.length_eq_one_iff.mp one
  simp [only, review]

theorem plainAnswer_reviewed_iff : ∃ checker nodes snums logger, doPreProcess Dtls.tree.spec.2 = some (nodes, snums) ∧
    Logger.readLines ⟨Process.new checker .dtls nodes snums, [], []⟩ [plainAnswer] = .ok logger ∧
    ∀ order, ((check (-1) (logger.log order 0 "dtls".toList)).filterMap CheckAction.input = logger.violations.flatMap review ↔
      logger.violations = []) := by
  obtain ⟨checker, nodes, snums, logger, numbered, executed, _⟩ := plainAnswer_logged
  refine ⟨checker, nodes, snums, logger, numbered, executed, fun order => ?_⟩
  exact violation_log_reviewed_iff Dtls.tree checker nodes snums numbered [plainAnswer] logger executed order 0

end LtlFuzz.Replay

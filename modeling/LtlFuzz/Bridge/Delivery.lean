import LtlFuzz.Bridge.MonitorBridge
import LtlFuzz.Monitor.PastTime

/-! What gets through the bridge. A save or restore takes the next line for its answer,
and a session end stops as soon as the pipe is empty, whatever the stream has buffered.
A run in which neither of these goes wrong keeps every answer with the call that asked
for it and every violation visible at the session end. -/

namespace LtlFuzz.Bridge
open Monitor Logic

section Texts

private theorem digit_ne_letter {c : Char} (digit : c.isDigit) : c ≠ 'I' ∧ c ≠ 'V' := by
  have bounds := Char.isDigit_iff_toNat.mp digit
  refine ⟨?_, ?_⟩ <;> (rintro rfl; simp at bounds)

private theorem letter_missing {letter : Char} (before : String) (number : Nat)
    (never : ∀ c : Char, c.isDigit → c ≠ letter) (missing : letter ∉ before.toList) :
    letter ∉ (before ++ toString number).toList := by
  rw [String.toList_append, List.mem_append, not_or]
  refine ⟨missing, ?_⟩
  intro member
  exact never letter (Text.toString_nat_digits number letter member) rfl

/-- A line without one of the letters of the word does not contain the word. -/
private theorem not_reported (letter : Char) {response : String} (part : letter ∈ "VIOLATION_DETECTED".toList)
    (missing : letter ∉ response.toList) : ¬ reportsViolation response = true :=
  fun found => missing (Text.mem_of_strstr found part)

/-- The search for the word finds exactly the reports. -/
theorem reportsViolation_iff (output : Output) : reportsViolation output.text = true ↔ output.IsViolation := by
  cases output with
  | typeCheckPassed =>
    simp only [Output.text, Output.IsViolation, iff_false]
    exact not_reported 'V' (by decide) (by decide)
  | reply answer =>
    cases answer with
    | violationDetected number =>
      have colon : "VIOLATION_DETECTED:".toList = "VIOLATION_DETECTED".toList ++ [':'] := by decide
      have split : (Reply.violationDetected number).text.toList =
          "VIOLATION_DETECTED:".toList ++ (toString number).toList := String.toList_append
      have found := Text.strstr_append "VIOLATION_DETECTED".toList ([':'] ++ (toString number).toList)
      rw [← List.append_assoc, ← colon, ← split] at found
      exact ⟨fun _ => trivial, fun _ => found⟩
    | stateSaved snapId =>
      have missing : 'I' ∉ "STATE_SAVED:".toList := by decide
      have nowhere := letter_missing "STATE_SAVED:" snapId (fun _ digit => (digit_ne_letter digit).1) missing
      exact ⟨fun found => absurd found (not_reported 'I' (by decide) nowhere), False.elim⟩
    | stateRestored snapId =>
      have missing : 'I' ∉ "STATE_RESTORED:".toList := by decide
      have nowhere := letter_missing "STATE_RESTORED:" snapId (fun _ digit => (digit_ne_letter digit).1) missing
      exact ⟨fun found => absurd found (not_reported 'I' (by decide) nowhere), False.elim⟩
    | stateRestoreFailed snapId =>
      have missing : 'V' ∉ "STATE_RESTORE_FAILED:".toList := by decide
      have nowhere := letter_missing "STATE_RESTORE_FAILED:" snapId (fun _ digit => (digit_ne_letter digit).2) missing
      exact ⟨fun found => absurd found (not_reported 'V' (by decide) nowhere), False.elim⟩

private theorem digit_not_trimmed {c : Char} (digit : c.isDigit) : isTrimmed c = false := by
  have visible := Text.digit_not_space digit
  simp only [Text.isSpace, Bool.or_eq_false_iff] at visible
  obtain ⟨⟨⟨⟨⟨blank, tab⟩, newline⟩, _⟩, _⟩, carriage⟩ := visible
  simp [isTrimmed, blank, tab, newline, carriage]

/-- A command line is not touched by `trim`: it starts with a letter and ends in a digit. -/
private theorem trim_command {word : List Char} {first : Char} (starts : word.head? = some first)
    (visible : isTrimmed first = false) (number : Nat) :
    trim (word ++ (toString number).toList) = word ++ (toString number).toList := by
  obtain ⟨rest, rfl⟩ := List.head?_eq_some_iff.mp starts
  have front : (first :: rest ++ (toString number).toList).dropWhile isTrimmed =
      first :: rest ++ (toString number).toList := by
    simp [visible]
  have back : (first :: rest ++ (toString number).toList).reverse.dropWhile isTrimmed =
      (first :: rest ++ (toString number).toList).reverse := by
    have some_digit : (toString number).toList ≠ [] := by
      rw [Text.toList_toString_nat]
      exact Nat.toDigits_ne_nil
    obtain ⟨last, others, same⟩ := List.exists_cons_of_ne_nil (List.reverse_ne_nil_iff.mpr some_digit)
    have digit : last.isDigit := by
      apply Text.toString_nat_digits number
      rw [← List.mem_reverse, same]
      exact List.mem_cons_self
    rw [List.reverse_append, same]
    simp [digit_not_trimmed digit]
  rw [trim, front, back, List.reverse_reverse]

private theorem snapshotId_command {word : List Char} {pos : Nat} (length : word.length = pos) (snapshotId : Fin (2 ^ 32)) :
    Monitor.snapshotId (word ++ (toString snapshotId.val).toList) pos = .ok snapshotId.val := by
  have small : snapshotId.val < 2 ^ 64 := Nat.lt_trans snapshotId.isLt (by decide)
  have long : ¬ (word ++ (toString snapshotId.val).toList).length < pos := by
    rw [List.length_append]
    omega
  rw [Monitor.snapshotId, if_neg long, ← length, List.drop_left, String.ofList_toList, Text.stoul_toString small]
  simp [Except.map]

private theorem command_nonempty {word : List Char} (nonempty : word ≠ []) (rest : List Char) : word ++ rest ≠ [] :=
  fun empty => nonempty (List.append_eq_nil_iff.mp empty).1

theorem parse_saveLine (snapshotId : Fin (2 ^ 32)) :
    Command.parse (saveLine snapshotId) = .ok (.save snapshotId) := by
  have starts : "__SAVE_STATE__ ".toList.head? = some '_' := by decide
  have bound : 14 ≤ "__SAVE_STATE__ ".toList.length := by decide
  have command : "__SAVE_STATE__ ".toList.take 14 = "__SAVE_STATE__".toList := by decide
  have length : "__SAVE_STATE__ ".toList.length = 15 := by decide
  have nonempty : "__SAVE_STATE__ ".toList ≠ [] := by decide
  have parsed := Command.parse_save (trim_command starts (by decide) snapshotId.val) (command_nonempty nonempty _)
    ((List.take_append_of_le_length bound).trans command)
  rw [snapshotId_command length] at parsed
  exact parsed

theorem parse_restoreLine (snapshotId : Fin (2 ^ 32)) :
    Command.parse (restoreLine snapshotId) = .ok (.restore snapshotId) := by
  have starts : "__RESTORE_STATE__ ".toList.head? = some '_' := by decide
  have bound : 17 ≤ "__RESTORE_STATE__ ".toList.length := by decide
  have other : "__RESTORE_STATE__ ".toList.take 14 ≠ "__SAVE_STATE__".toList := by decide
  have command : "__RESTORE_STATE__ ".toList.take 17 = "__RESTORE_STATE__".toList := by decide
  have length : "__RESTORE_STATE__ ".toList.length = 18 := by decide
  have nonempty : "__RESTORE_STATE__ ".toList ≠ [] := by decide
  have parsed := Command.parse_restore (trim_command starts (by decide) snapshotId.val) (command_nonempty nonempty _)
    (by rw [List.take_append_of_le_length (Nat.le_trans (by decide) bound)]; exact other)
    ((List.take_append_of_le_length bound).trans command)
  rw [snapshotId_command length] at parsed
  exact parsed

theorem parse_endLine : Command.parse endLine = .ok .endSession := rfl

end Texts

theorem Output.IsAcknowledgement.not_violation {output : Output} (acknowledged : output.IsAcknowledgement) :
    ¬ output.IsViolation := by
  cases output with
  | typeCheckPassed => exact acknowledged.elim
  | reply answer =>
    cases answer with
    | violationDetected number => exact acknowledged.elim
    | stateSaved | stateRestored | stateRestoreFailed => exact id

section Steps

def IsRequest (line : List Char) : Prop :=
  ∃ snapId, Command.parse line = .ok (.save snapId) ∨ Command.parse line = .ok (.restore snapId)

theorem handle_request {process next : Process} {snapId : Nat} {command : Command} {replies : List Reply}
    (request : command = .save snapId ∨ command = .restore snapId)
    (handled : process.handle command = .ok (next, replies)) :
    ∃ answer, replies = [answer] ∧ (Output.reply answer).IsAcknowledgement := by
  rcases request with rfl | rfl
  · cases handled
    exact ⟨_, rfl, trivial⟩
  · simp only [Process.handle] at handled
    split at handled
    · cases handled
      exact ⟨_, rfl, trivial⟩
    · cases handled
      exact ⟨_, rfl, trivial⟩

theorem handle_other {process next : Process} {command : Command} {replies : List Reply}
    (other : ∀ snapId, command ≠ .save snapId ∧ command ≠ .restore snapId)
    (handled : process.handle command = .ok (next, replies)) :
    ∀ answer ∈ replies, ¬ (Output.reply answer).IsAcknowledgement := by
  cases command with
  | blank | endSession =>
    cases handled
    simp
  | save snapId => exact absurd rfl (other snapId).1
  | restore snapId => exact absurd rfl (other snapId).2
  | event kv =>
    obtain ⟨derived, _, rest⟩ := bind_ok handled
    obtain ⟨state, _, rest⟩ := bind_ok rest
    obtain ⟨⟨verdicts, eval⟩, _, rest⟩ := bind_ok rest
    dsimp only at rest
    split at rest
    · cases rest
      simp [Output.IsAcknowledgement]
    · cases rest
      simp

/-- One line through the process: a request is answered by one acknowledgement, and
nothing else is. -/
theorem evaluate_ok {system next : System} (executed : system.evaluate = .ok next) :
    ∃ call line rest process replies, system.started = true ∧ system.evalStdin = (call, line) :: rest ∧
      next = ({ system with process, evalStdin := rest } : System).write call (replies.map .reply) ∧
      (IsRequest line → ∃ answer, replies = [answer] ∧ (Output.reply answer).IsAcknowledgement) ∧
      (¬ IsRequest line → ∀ answer ∈ replies, ¬ (Output.reply answer).IsAcknowledgement) := by
  unfold System.evaluate at executed
  split at executed
  next call line rest started queued =>
    split at executed
    · cases executed
    next command parsed =>
      split at executed
      · cases executed
      next process replies handled =>
        cases executed
        refine ⟨call, line, rest, process, replies, started, queued, rfl, ?_, ?_⟩
        · intro ⟨snapId, request⟩
          rw [parsed] at request
          exact handle_request (request.imp Except.ok.inj Except.ok.inj) handled
        · intro plain
          apply handle_other _ handled
          intro snapId
          refine ⟨?_, ?_⟩
          · rintro rfl
            exact plain ⟨snapId, Or.inl parsed⟩
          · rintro rfl
            exact plain ⟨snapId, Or.inr parsed⟩
  · cases executed

end Steps

/-- Violations since the last clear are flagged or still to be read, and unless the flag
is set none of them waits behind the back of `select`: the drain that buffered it goes on. -/
structure Reported (system : System) : Prop where
  epochs : ∀ message ∈ system.written, message.epoch ≤ system.epoch
  known : ∀ message ∈ system.unread, message ∈ system.written
  tracked : ∀ message ∈ system.written, message.output.IsViolation → message.epoch = system.epoch →
    system.violationDetected = true ∨ message ∈ system.unread
  buffered : system.violationDetected = false → ∀ message ∈ system.buffer, message.output.IsViolation →
    message.epoch = system.epoch → system.evalStdout ≠ [] ∧ ∃ call, system.waiting = .drain call

/-- The steps after which nothing is lost. A save or restore must find its answer first
in line. When a draining session end refills the stream, the flag must be set by then, or
no violation may come in behind the line that is returned, or more must be left in the pipe. -/
def Orderly (system : System) : Event → Prop
  | .select ahead =>
    match system.waiting with
    | .idle => True
    | .acknowledgement _ => system.evalStdout ≠ [] ∧
        ∃ message, system.unread.head? = some message ∧ message.output.IsAcknowledgement
    | .drain _ => system.buffer = [] → ∀ message rest, system.evalStdout = message :: rest →
        system.violationDetected = true ∨ message.output.IsViolation ∨ rest.drop ahead ≠ [] ∨
          ∀ behind ∈ rest.take ahead, behind.output.IsViolation → behind.epoch ≠ system.epoch
  | _ => True

section Violations

variable {system : System}

theorem Reported.write (reported : Reported system) (call : Nat) (outputs : List Output) :
    Reported (system.write call outputs) := by
  have fresh : ∀ message ∈ outputs.map (fun output => ({ call, epoch := system.epoch, output } : Message)),
      message.epoch = system.epoch := by
    intro message member
    obtain ⟨output, _, rfl⟩ := List.mem_map.mp member
    rfl
  refine ⟨?_, ?_, ?_, ?_⟩
  · intro message member
    rcases List.mem_append.mp member with earlier | new
    · exact reported.epochs message earlier
    · exact Nat.le_of_eq (fresh message new)
  · intro message member
    simp only [System.write, System.unread, ← List.append_assoc] at member ⊢
    rcases List.mem_append.mp member with earlier | new
    · exact List.mem_append_left _ (reported.known message earlier)
    · exact List.mem_append_right _ new
  · intro message member violation current
    simp only [System.write, System.unread, ← List.append_assoc] at member ⊢
    rcases List.mem_append.mp member with earlier | new
    · exact (reported.tracked message earlier violation current).imp id (List.mem_append_left _)
    · exact Or.inr (List.mem_append_right _ new)
  · intro silent message member violation current
    obtain ⟨pending, draining⟩ := reported.buffered silent message member violation current
    exact ⟨fun empty => pending (List.append_eq_nil_iff.mp empty).1, draining⟩

/-- Fields the reports do not depend on. -/
theorem Reported.frame {next : System} (reported : Reported system) (flag : next.violationDetected = system.violationDetected)
    (stdout : next.evalStdout = system.evalStdout) (buffer : next.buffer = system.buffer) (epoch : next.epoch = system.epoch)
    (written : next.written = system.written)
    (draining : system.evalStdout ≠ [] → ∀ call, system.waiting = .drain call → next.waiting = .drain call) :
    Reported next := by
  have same : next.unread = system.unread := by simp [System.unread, stdout, buffer]
  refine ⟨by rw [written, epoch]; exact reported.epochs, by rw [same, written]; exact reported.known,
    by rw [written, epoch, flag, same]; exact reported.tracked, ?_⟩
  rw [flag, buffer, epoch, stdout]
  intro silent message member violation current
  obtain ⟨pending, call, waiting⟩ := reported.buffered silent message member violation current
  exact ⟨pending, call, draining pending call waiting⟩

theorem fgets_cases {ahead : Nat} {buffer stdout buffer' stdout' : List Message} {message : Message}
    (read : fgets ahead buffer stdout = some (message, buffer', stdout')) :
    buffer ++ stdout = message :: (buffer' ++ stdout') ∧
      (buffer = message :: buffer' ∧ stdout' = stdout ∨
        buffer = [] ∧ ∃ rest, stdout = message :: rest ∧ buffer' = rest.take ahead ∧ stdout' = rest.drop ahead) := by
  cases buffer with
  | cons first others =>
    cases read
    exact ⟨rfl, Or.inl ⟨rfl, rfl⟩⟩
  | nil =>
    cases stdout with
    | nil => cases read
    | cons first rest =>
      cases read
      exact ⟨by simp, Or.inr ⟨rfl, rest, rfl, rfl, rfl⟩⟩

theorem fgets_some (ahead : Nat) (buffer : List Message) {stdout : List Message} (pending : stdout ≠ []) :
    ∃ message buffer' stdout', fgets ahead buffer stdout = some (message, buffer', stdout') := by
  cases buffer with
  | cons first others => exact ⟨_, _, _, rfl⟩
  | nil =>
    cases stdout with
    | nil => exact absurd rfl pending
    | cons first rest => exact ⟨_, _, _, rfl⟩

/-- The drain reads a line: a violation sets the flag. -/
theorem Reported.drain {ahead call : Nat} {message : Message} {buffer' stdout' : List Message}
    (reported : Reported system) (waiting : system.waiting = .drain call) (orderly : Orderly system (.select ahead))
    (read : fgets ahead system.buffer system.evalStdout = some (message, buffer', stdout')) :
    Reported { system with
      violationDetected := system.violationDetected || reportsViolation message.output.text
      buffer := buffer', evalStdout := stdout', consumed := system.consumed ++ [(call, message)] } := by
  obtain ⟨line, shape⟩ := fgets_cases read
  have behind : ∀ other ∈ buffer' ++ stdout', other ∈ system.unread := by
    intro other member
    rw [System.unread, line]
    exact List.mem_cons_of_mem _ member
  refine ⟨reported.epochs, fun other member => reported.known other (behind other member), ?_, ?_⟩
  · intro other member violation current
    rcases reported.tracked other member violation current with flagged | waitingStill
    · exact Or.inl (by simp [flagged])
    · rw [System.unread, line] at waitingStill
      rcases List.mem_cons.mp waitingStill with rfl | later
      · exact Or.inl (by simp [(reportsViolation_iff other.output).mpr violation])
      · exact Or.inr later
  · intro silent other member violation current
    simp only [Bool.or_eq_false_iff] at silent
    refine ⟨?_, call, waiting⟩
    rcases shape with ⟨fromBuffer, same⟩ | ⟨empty, rest, fromPipe, taken, left⟩
    · have inside : other ∈ system.buffer := by
        rw [fromBuffer]
        exact List.mem_cons_of_mem _ member
      rw [same]
      exact (reported.buffered silent.1 other inside violation current).1
    · simp only [Orderly, waiting] at orderly
      rcases orderly empty message rest fromPipe with flagged | reports | more | harmless
      · rw [silent.1] at flagged
        cases flagged
      · rw [(reportsViolation_iff message.output).mpr reports] at silent
        cases silent.2
      · rwa [left]
      · exact absurd current (harmless other (taken ▸ member) violation)

end Violations

section Acknowledgements

/-- Where the one request that can be under way stands. -/
inductive Phase (system : System) : Prop where
  | settled (free : ∀ call, system.waiting ≠ .acknowledgement call)
      (plain : ∀ entry ∈ system.evalStdin, ¬ IsRequest entry.2)
      (quiet : ∀ message ∈ system.unread, ¬ message.output.IsAcknowledgement)
      (matched : ∀ message ∈ system.written, message.output.IsAcknowledgement →
        (message.call, message) ∈ system.consumed)
  | requested (call : Nat) (earlier : List (Nat × List Char)) (line : List Char)
      (waiting : system.waiting = .acknowledgement call) (queued : system.evalStdin = earlier ++ [(call, line)])
      (request : IsRequest line) (plain : ∀ entry ∈ earlier, ¬ IsRequest entry.2)
      (quiet : ∀ message ∈ system.unread, ¬ message.output.IsAcknowledgement)
      (matched : ∀ message ∈ system.written, message.output.IsAcknowledgement →
        (message.call, message) ∈ system.consumed)
  | answered (earlier : List Message) (answer : Message) (waiting : system.waiting = .acknowledgement answer.call)
      (queued : system.evalStdin = []) (started : system.started = true)
      (unread : system.unread = earlier ++ [answer]) (acknowledged : answer.output.IsAcknowledgement)
      (quiet : ∀ message ∈ earlier, ¬ message.output.IsAcknowledgement)
      (matched : ∀ message ∈ system.written, message.output.IsAcknowledgement →
        message = answer ∨ (message.call, message) ∈ system.consumed)

/-- Everything that is kept from step to step. -/
structure Delivered (system : System) : Prop where
  reported : Reported system
  phase : Phase system
  consumers : ∀ entry ∈ system.consumed, entry.2.output.IsAcknowledgement → entry.1 = entry.2.call

variable {system next : System}

private theorem write_quiet {messages : List Message} (quiet : ∀ message ∈ messages, ¬ message.output.IsAcknowledgement)
    {call epoch : Nat} {outputs : List Output} (plain : ∀ output ∈ outputs, ¬ output.IsAcknowledgement) :
    ∀ message ∈ messages ++ outputs.map (fun output => ({ call, epoch, output } : Message)),
      ¬ message.output.IsAcknowledgement := by
  intro message member
  rcases List.mem_append.mp member with earlier | new
  · exact quiet message earlier
  · obtain ⟨output, inside, rfl⟩ := List.mem_map.mp new
    exact plain output inside

private theorem write_matched {written : List Message} {consumed : List (Nat × Message)}
    (matched : ∀ message ∈ written, message.output.IsAcknowledgement → (message.call, message) ∈ consumed)
    {call epoch : Nat} {outputs : List Output} (plain : ∀ output ∈ outputs, ¬ output.IsAcknowledgement) :
    ∀ message ∈ written ++ outputs.map (fun output => ({ call, epoch, output } : Message)),
      message.output.IsAcknowledgement → (message.call, message) ∈ consumed := by
  intro message member acknowledged
  rcases List.mem_append.mp member with earlier | new
  · exact matched message earlier acknowledged
  · obtain ⟨output, inside, rfl⟩ := List.mem_map.mp new
    exact absurd acknowledged (plain output inside)

private theorem unread_write (call : Nat) (outputs : List Output) :
    (system.write call outputs).unread =
      system.unread ++ outputs.map (fun output => ({ call, epoch := system.epoch, output } : Message)) := by
  simp [System.unread, System.write]

theorem phase_start (phase : Phase system) (fresh : system.started = false) :
    Phase (({ system with started := true } : System).write 0 [.typeCheckPassed]) := by
  have plain : ∀ output ∈ [Output.typeCheckPassed], ¬ output.IsAcknowledgement := by
    intro output member
    cases List.mem_singleton.mp member
    exact id
  cases phase with
  | settled free stdin quiet matched =>
    refine .settled free stdin ?_ (write_matched matched plain)
    rw [unread_write]
    exact write_quiet quiet plain
  | requested call earlier line waiting queued request stdin quiet matched =>
    refine .requested call earlier line waiting queued request stdin ?_ (write_matched matched plain)
    rw [unread_write]
    exact write_quiet quiet plain
  | answered earlier answer waiting queued started => simp [fresh] at started

theorem phase_evaluate (phase : Phase system) (executed : system.evaluate = .ok next) : Phase next := by
  obtain ⟨call, line, rest, process, replies, started, queued, rfl, answers, silent⟩ := evaluate_ok executed
  have plain (ordinary : ¬ IsRequest line) : ∀ output ∈ replies.map Output.reply, ¬ output.IsAcknowledgement :=
    List.forall_mem_map.mpr (silent ordinary)
  cases phase with
  | settled free stdin quiet matched =>
    rw [queued] at stdin
    have ordinary := plain (stdin _ List.mem_cons_self)
    refine .settled free (fun entry member => stdin entry (List.mem_cons_of_mem _ member)) ?_ (write_matched matched ordinary)
    rw [unread_write]
    exact write_quiet quiet ordinary
  | requested asked earlier request waiting inLine isRequest stdin quiet matched =>
    rw [queued] at inLine
    cases earlier with
    | cons entry others =>
      obtain ⟨rfl, rfl⟩ := List.cons.inj inLine
      have ordinary := plain (stdin _ List.mem_cons_self)
      refine .requested asked others request waiting rfl isRequest
        (fun entry member => stdin entry (List.mem_cons_of_mem _ member)) ?_ (write_matched matched ordinary)
      rw [unread_write]
      exact write_quiet quiet ordinary
    | nil =>
      obtain ⟨same, rfl⟩ := List.cons.inj inLine
      obtain ⟨rfl, rfl⟩ := Prod.mk.inj same
      obtain ⟨answer, rfl, acknowledged⟩ := answers isRequest
      refine .answered system.unread ⟨call, system.epoch, .reply answer⟩ waiting rfl started ?_ acknowledged quiet ?_
      · rw [unread_write]
        rfl
      · intro message member isAnswer
        rcases List.mem_append.mp member with earlier | new
        · exact Or.inr (matched message earlier isAnswer)
        · exact Or.inl (List.mem_singleton.mp new)
  | answered earlier answer waiting empty =>
    rw [empty] at queued
    cases queued

/-- A call is made only when no request is under way. -/
private theorem settled_of_idle (phase : Phase system) (idle : system.waiting = .idle) :
    (∀ entry ∈ system.evalStdin, ¬ IsRequest entry.2) ∧
      (∀ message ∈ system.unread, ¬ message.output.IsAcknowledgement) ∧
      ∀ message ∈ system.written, message.output.IsAcknowledgement → (message.call, message) ∈ system.consumed := by
  cases phase with
  | settled free plain quiet matched => exact ⟨plain, quiet, matched⟩
  | requested call earlier line waiting => rw [idle] at waiting; cases waiting
  | answered earlier answer waiting => rw [idle] at waiting; cases waiting

theorem phase_send {line : List Char} {waiting : Nat → Waiting} (phase : Phase system) (idle : system.waiting = .idle)
    (plain : ¬ IsRequest line) (free : ∀ call other, waiting call ≠ .acknowledgement other) :
    Phase (system.send line waiting) := by
  obtain ⟨stdin, quiet, matched⟩ := settled_of_idle phase idle
  refine .settled (free _) ?_ quiet matched
  intro entry member
  rcases List.mem_append.mp member with earlier | new
  · exact stdin entry earlier
  · cases List.mem_singleton.mp new
    exact plain

theorem phase_request {line : List Char} (phase : Phase system) (idle : system.waiting = .idle)
    (request : IsRequest line) : Phase (system.send line .acknowledgement) := by
  obtain ⟨stdin, quiet, matched⟩ := settled_of_idle phase idle
  exact .requested system.calls system.evalStdin line rfl rfl request stdin quiet matched

/-- A waiting save or restore that finds its answer first in line takes it and nothing else. -/
theorem delivered_answer {ahead call : Nat} (delivered : Delivered system)
    (waiting : system.waiting = .acknowledgement call) (orderly : Orderly system (.select ahead))
    (executed : system.select ahead = .ok next) : Delivered next := by
  simp only [Orderly, waiting] at orderly
  obtain ⟨pending, first, found, acknowledged⟩ := orderly
  have member : first ∈ system.unread := List.mem_of_mem_head? found
  cases delivered.phase with
  | settled free => exact absurd waiting (free call)
  | requested _ _ _ _ _ _ _ quiet => exact absurd acknowledged (quiet first member)
  | answered earlier answer same queued started unread isAnswer quiet matched =>
    obtain rfl : earlier = [] := by
      cases earlier with
      | nil => rfl
      | cons other others =>
        rw [unread] at found
        cases found
        exact absurd acknowledged (quiet _ List.mem_cons_self)
    obtain ⟨message, buffer, stdout, read⟩ := fgets_some ahead system.buffer pending
    obtain ⟨line, _⟩ := fgets_cases read
    rw [System.unread, List.nil_append] at unread
    obtain ⟨rfl, empty⟩ := List.cons.inj (line.symm.trans unread)
    obtain ⟨rfl, rfl⟩ := List.append_eq_nil_iff.mp empty
    simp only [System.select, waiting, if_neg pending, read] at executed
    cases executed
    have called : call = message.call := Waiting.acknowledgement.inj (waiting.symm.trans same)
    refine ⟨⟨delivered.reported.epochs, by simp [System.unread], ?_, by simp⟩, ?_, ?_⟩
    · intro other inside violation current
      refine (delivered.reported.tracked other inside violation current).imp id fun still => ?_
      rw [System.unread, unread] at still
      cases List.mem_singleton.mp still
      exact absurd violation (isAnswer.not_violation)
    · refine .settled (by simp) (by simp [queued]) (by simp [System.unread]) ?_
      intro other inside isAck
      rcases matched other inside isAck with rfl | already
      · exact List.mem_append_right _ (by simp [called])
      · exact List.mem_append_left _ already
    · intro entry inside isAck
      rcases List.mem_append.mp inside with earlier | new
      · exact delivered.consumers entry earlier isAck
      · cases List.mem_singleton.mp new
        exact called

/-- The drain reads lines that are no answers. -/
theorem delivered_drain {ahead call : Nat} (delivered : Delivered system) (waiting : system.waiting = .drain call)
    (orderly : Orderly system (.select ahead)) (executed : system.select ahead = .ok next) : Delivered next := by
  cases delivered.phase with
  | requested _ _ _ other => rw [waiting] at other; cases other
  | answered _ _ other => rw [waiting] at other; cases other
  | settled free plain quiet matched =>
    simp only [System.select, waiting] at executed
    split at executed
    next empty =>
      cases executed
      exact ⟨delivered.reported.frame rfl rfl rfl rfl rfl fun pending => absurd empty pending,
        .settled (by simp) plain quiet matched, delivered.consumers⟩
    next pending =>
      obtain ⟨message, buffer, stdout, read⟩ := fgets_some ahead system.buffer pending
      rw [read] at executed
      cases executed
      obtain ⟨line, _⟩ := fgets_cases read
      have unread : system.unread = message :: (buffer ++ stdout) := line
      refine ⟨(delivered.reported.drain waiting orderly read).frame rfl rfl rfl rfl rfl
        fun _ _ same => waiting.symm.trans same, ?_, ?_⟩
      · refine .settled (by simp) plain ?_ ?_
        · intro other member
          apply quiet other
          rw [unread]
          exact List.mem_cons_of_mem _ member
        · exact fun other member isAck => List.mem_append_left _ (matched other member isAck)
      · intro entry inside isAck
        rcases List.mem_append.mp inside with earlier | new
        · exact delivered.consumers entry earlier isAck
        · cases List.mem_singleton.mp new
          exact absurd isAck (quiet message (by rw [unread]; exact List.mem_cons_self))

theorem delivered_send {line : List Char} {waiting : Nat → Waiting} (delivered : Delivered system)
    (idle : system.waiting = .idle) (phase : Phase (system.send line waiting)) : Delivered (system.send line waiting) := by
  refine ⟨delivered.reported.frame rfl rfl rfl rfl rfl ?_, phase, delivered.consumers⟩
  intro _ call draining
  rw [idle] at draining
  cases draining

private theorem event_plain (line : PredLine) : ¬ IsRequest line.line := by
  intro ⟨snapId, request⟩
  rw [line.parsed] at request
  rcases request with same | same
  · cases same
  · cases same

private theorem end_plain : ¬ IsRequest endLine := by
  intro ⟨snapId, request⟩
  rw [parse_endLine] at request
  rcases request with same | same
  · cases same
  · cases same

private theorem enabled {condition : Prop} [Decidable condition] {result : System}
    (executed : (if condition then .ok result else .error .disabled : Except Disabled System) = .ok next) :
    condition ∧ result = next := by
  by_cases held : condition
  · rw [if_pos held] at executed
    exact ⟨held, Except.ok.inj executed⟩
  · rw [if_neg held] at executed
    cases executed

theorem step_delivered {event : Event} (delivered : Delivered system) (orderly : Orderly system event)
    (executed : system.step event = .ok next) : Delivered next := by
  cases event with
  | start =>
    simp only [System.step] at executed
    split at executed
    · cases executed
    next fresh =>
      cases executed
      have framed : Reported { system with started := true } :=
        delivered.reported.frame rfl rfl rfl rfl rfl fun _ _ same => same
      exact ⟨framed.write 0 _, phase_start delivered.phase (by simpa using fresh), delivered.consumers⟩
  | evaluate =>
    obtain ⟨call, line, rest, process, replies, _, _, same, _, _⟩ := evaluate_ok executed
    have framed : Reported { system with process, evalStdin := rest } :=
      delivered.reported.frame rfl rfl rfl rfl rfl fun _ _ same => same
    refine ⟨?_, phase_evaluate delivered.phase executed, ?_⟩
    · rw [same]
      exact framed.write call _
    · rw [same]
      exact delivered.consumers
  | select ahead =>
    cases waiting : system.waiting with
    | idle => simp [System.step, System.select, waiting] at executed
    | acknowledgement call => exact delivered_answer delivered waiting orderly executed
    | drain call => exact delivered_drain delivered waiting orderly executed
  | emitLine line =>
    obtain ⟨idle, rfl⟩ := enabled executed
    exact delivered_send delivered idle (phase_send delivered.phase idle (event_plain line) (by simp))
  | saveBitvectors snapshotId =>
    obtain ⟨idle, rfl⟩ := enabled executed
    exact delivered_send delivered idle (phase_request delivered.phase idle ⟨_, Or.inl (parse_saveLine snapshotId)⟩)
  | restoreBitvectors snapshotId =>
    obtain ⟨idle, rfl⟩ := enabled executed
    exact delivered_send delivered idle (phase_request delivered.phase idle ⟨_, Or.inr (parse_restoreLine snapshotId)⟩)
  | endSession =>
    obtain ⟨idle, rfl⟩ := enabled executed
    exact delivered_send delivered idle (phase_send delivered.phase idle end_plain (by simp))
  | clearViolation =>
    obtain ⟨idle, rfl⟩ := enabled executed
    obtain ⟨plain, quiet, matched⟩ := settled_of_idle delivered.phase idle
    have past : ∀ message ∈ system.written, message.epoch ≠ system.epoch + 1 := by
      intro message member
      have bound := delivered.reported.epochs message member
      omega
    refine ⟨⟨?_, delivered.reported.known, ?_, ?_⟩, .settled (by simp [idle]) plain quiet matched, delivered.consumers⟩
    · exact fun message member => Nat.le_succ_of_le (delivered.reported.epochs message member)
    · exact fun message member _ current => absurd current (past message member)
    · intro _ message member _ current
      exact absurd current (past message (delivered.reported.known message (List.mem_append_left _ member)))

theorem new_delivered (process : Process) : Delivered (System.new process) := by
  refine ⟨⟨?_, ?_, ?_, ?_⟩, .settled ?_ ?_ ?_ ?_, ?_⟩ <;> simp [System.new, System.unread]

end Acknowledgements

/-- In an orderly run every answer goes to the call that asked for it, and no session end
misses a violation written since the flag was last cleared. -/
theorem orderly_run_delivers (process : Process) (events : List Event) (system : System)
    (executed : (System.new process).run events = .ok system)
    (orderly : Along System.step Orderly (System.new process) events) :
    (∀ message ∈ system.written, message.output.IsAcknowledgement →
        (message.call, message) ∈ system.consumed ∨ system.waiting = .acknowledgement message.call) ∧
      (∀ entry ∈ system.consumed, entry.2.output.IsAcknowledgement → entry.1 = entry.2.call) ∧
      ∀ (call ahead : Nat) (ended : System), system.waiting = .drain call → system.step (.select ahead) = .ok ended →
        ended.waiting = .idle →
        (∃ message ∈ ended.written, message.output.IsViolation ∧ message.epoch = ended.epoch) →
        ended.violationDetected = true := by
  have delivered : Delivered system :=
    run_invariant_along Orderly Delivered (fun _ _ _ held allowed stepped => step_delivered held allowed stepped)
      (new_delivered process) orderly executed
  refine ⟨?_, delivered.consumers, ?_⟩
  · intro message member acknowledged
    cases delivered.phase with
    | settled _ _ _ matched => exact Or.inl (matched message member acknowledged)
    | requested _ _ _ _ _ _ _ _ matched => exact Or.inl (matched message member acknowledged)
    | answered _ answer waiting _ _ _ _ _ matched =>
      rcases matched message member acknowledged with rfl | already
      · exact Or.inr waiting
      · exact Or.inl already
  · intro call ahead ended waiting stepped idle ⟨message, member, violation, current⟩
    simp only [System.step, System.select, waiting] at stepped
    split at stepped
    next empty =>
      cases stepped
      rcases delivered.reported.tracked message member violation current with flagged | unread
      · exact flagged
      · rw [System.unread, empty, List.append_nil] at unread
        cases flag : system.violationDetected with
        | true => rfl
        | false => exact absurd empty (delivered.reported.buffered flag message unread violation current).1
    next pending =>
      obtain ⟨line, buffer, stdout, read⟩ := fgets_some ahead system.buffer pending
      rw [read] at stepped
      cases stepped
      cases idle

/-- The monitor of `bool x; x = true;`. -/
def flagProcess : Process := Process.new flagChecker .generic [flagNode 0] [3]

/-- An event that violates it. -/
def violatingLine : PredLine := ⟨"x=false".toList, AList.singleton "x" "false", rfl⟩

/-- The session end reads the line the process wrote when it started. The refill also
brings in the violation, so the pipe is empty and the drain stops. -/
theorem drain_leaves_violation_buffered :
    ((System.new flagProcess).run
        [.start, .emitLine violatingLine, .endSession, .evaluate, .evaluate, .select 1, .select 0]).map
      (fun system => (system.waiting, system.evalStdin, system.written, system.epoch, system.violationDetected)) =
    .ok (.idle, [], [⟨0, 0, .typeCheckPassed⟩, ⟨0, 0, .reply (.violationDetected 1)⟩], 0, false) := rfl

/-- An empty session reads what the process said when it started, so the save that follows finds
its own answer. Then two events violate the formula. The session end reads their reports, one line
a refill. -/
def violatingSession : List Event :=
  [.start, .endSession, .evaluate, .select 0, .select 0, .saveBitvectors 1, .evaluate, .select 0,
    .emitLine violatingLine, .evaluate, .emitLine violatingLine, .endSession, .evaluate, .evaluate, .select 0, .select 0]

private theorem violatingSession_orderly : Along System.step Orderly (System.new flagProcess) violatingSession := by
  refine along_cons trivial rfl (along_cons trivial rfl (along_cons trivial rfl (along_cons ?_ rfl
    (along_cons ?_ rfl (along_cons trivial rfl (along_cons trivial rfl (along_cons ?_ rfl (along_cons trivial rfl
      (along_cons trivial rfl (along_cons trivial rfl (along_cons trivial rfl (along_cons trivial rfl
        (along_cons trivial rfl (along_cons ?_ rfl (along_cons ?_ rfl (along_nil _ _))))))))))))))))
  · intro _ message rest found
    cases found
    exact Or.inr (Or.inr (Or.inr (by simp)))
  · intro _ message rest found
    cases found
  · exact ⟨by simp [System.send, System.write, System.new], _, rfl, trivial⟩
  · intro _ message rest found
    cases found
    exact Or.inr (Or.inl trivial)
  · intro _ message rest found
    cases found
    exact Or.inr (Or.inl trivial)

theorem violatingSession_reports :
    ∃ system ended, (System.new flagProcess).run violatingSession = .ok system ∧
      system.step (.select 0) = .ok ended ∧ ended.waiting = .idle ∧
      (∃ message ∈ ended.written, message.output.IsViolation ∧ message.epoch = ended.epoch) ∧
      ended.violationDetected = true := by
  obtain ⟨system, executed⟩ : ∃ system, (System.new flagProcess).run violatingSession = .ok system := ⟨_, rfl⟩
  obtain ⟨ended, stepped⟩ : ∃ ended, system.step (.select 0) = .ok ended := by
    cases executed
    exact ⟨_, rfl⟩
  have waiting : system.waiting = .drain 4 := by
    cases executed
    rfl
  have idle : ended.waiting = .idle := by
    cases executed
    cases stepped
    rfl
  have violated : ∃ message ∈ ended.written, message.output.IsViolation ∧ message.epoch = ended.epoch := by
    cases executed
    cases stepped
    exact ⟨⟨2, 0, .reply (.violationDetected 1)⟩, by decide, trivial, rfl⟩
  exact ⟨system, ended, executed, stepped, idle, violated,
    (orderly_run_delivers flagProcess violatingSession system executed violatingSession_orderly).2.2 4 0 ended waiting stepped
      idle violated⟩

end LtlFuzz.Bridge

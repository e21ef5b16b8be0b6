import LtlFuzz.Adapter.Ftp
import LtlFuzz.Adapter.View
import Mathlib.Data.List.Induction

/-! The flags of an FTP session over its commands and replies, and the command a reply is
printed with. Next to a session stands what was processed since the last reset. -/

namespace LtlFuzz.Adapter.Ftp
open Monitor (boolToString)

section Histories

/-- What was processed since the last reset. -/
structure History where
  messages : Nat := 0
  sent : List Command := []
  deriving DecidableEq, Repr

/-- A 220 reply to REIN, which resets the session; the command may have to be inferred. -/
def Session.restarts (session : Session) (packet : Packet) : Bool :=
  extractResponseCode packet.text == 220 && session.sequenceNumber != 0 &&
    (session.lastCommand == .rein || session.lastCommand == .notSet && session.reinitSent)

def History.next (history : History) (session : Session) : Direction × Packet → History
  | (.c2s, packet) => ⟨history.messages + 1, mapFtpCommand (extractCommand packet.text) :: history.sent⟩
  | (.s2c, packet) => if session.restarts packet then ⟨1, []⟩ else ⟨history.messages + 1, history.sent⟩

def run (traffic : Traffic) : Session × History :=
  traffic.foldl (fun reached packet => ((adapter.build packet.1 reached.1 packet.2).2, reached.2.next reached.1 packet))
    (resetSession, {})

@[simp] theorem run_append (traffic : Traffic) (packet : Direction × Packet) : run (traffic ++ [packet]) =
    ((adapter.build packet.1 (run traffic).1 packet.2).2, (run traffic).2.next (run traffic).1 packet) := by
  simp [run]

/-- The history is only written. -/
theorem run_session (traffic : Traffic) : (run traffic).1 = adapter.after resetSession traffic := by
  induction traffic using List.reverseRecOn with
  | nil => rfl
  | append_singleton before packet ih =>
    rw [run_append, PredicateAdapter.after_append, ih]
    rfl

theorem run_invariant (invariant : Session → History → Prop) (initial : invariant resetSession {})
    (kept : ∀ session history packet, invariant session history →
      invariant (adapter.build packet.1 session packet.2).2 (history.next session packet)) (traffic : Traffic) :
    invariant (run traffic).1 (run traffic).2 := by
  induction traffic using List.reverseRecOn with
  | nil => exact initial
  | append_singleton before packet ih =>
    rw [run_append]
    exact kept _ _ packet ih

end Histories

section Flags

structure Coherent (session : Session) : Prop where
  oneChannel : ¬(session.portSent = true ∧ session.pasvSent = true)
  portAccepted : session.portAccepted = true → session.portSent = true ∨ session.pasvSent = true
  loggedIn : session.userLoggedIn = true → session.loginSuccessful = true
  inProgress : session.transferInProgress = true → session.dataConnectionOpen = true ∧ session.transferStarted = true
  rnfrAccepted : session.rnfrAccepted = true → session.rnfrSent = true
  authState : session.authState = .complete ↔ session.userLoggedIn = true

/-- What keeps a session coherent: the last command has left its mark. -/
structure Marked (session : Session) : Prop where
  oneChannel : ¬(session.portSent = true ∧ session.pasvSent = true)
  portAccepted : session.portAccepted = true → session.portSent = true ∨ session.pasvSent = true
  portCommand : session.lastCommand = .port → session.portSent = true ∨ session.pasvSent = true
  loggedIn : session.userLoggedIn = true → session.loginSuccessful = true
  inProgress : session.transferInProgress = true → session.dataConnectionOpen = true ∧ session.transferStarted = true
  rnfrAccepted : session.rnfrAccepted = true → session.rnfrSent = true
  rnfrCommand : session.lastCommand = .rnfr → session.rnfrSent = true

theorem authState_complete (session : Session) : session.authState = .complete ↔ session.userLoggedIn = true := by
  unfold Session.authState
  split_ifs <;> simp_all

theorem marked_reset : Marked resetSession := by
  constructor <;> simp [resetSession]

theorem Marked.count {session : Session} (marked : Marked session) (sequenceNumber : Int32) :
    Marked { session with sequenceNumber } := { marked with }

theorem marked_command {session : Session} (marked : Marked session) (packet : Packet) (cmd : List Char) :
    Marked ({ session with lastCommand := mapFtpCommand cmd }.afterCommand packet cmd) := by
  unfold Session.afterCommand
  split
  next same => exact { marked with portCommand := by simp [same], rnfrCommand := by simp [same] }
  next same => exact { marked with portCommand := by simp [same], rnfrCommand := by simp [same] }
  next same =>
    exact { marked with oneChannel := by simp, portAccepted := by simp, portCommand := by simp, rnfrCommand := by simp [same] }
  next same =>
    exact { marked with oneChannel := by simp, portAccepted := by simp, portCommand := by simp, rnfrCommand := by simp [same] }
  next same => exact { marked with portCommand := by simp [same], rnfrCommand := by simp [same] }
  next same => exact { marked with portCommand := by simp [same], rnfrCommand := by simp [same] }
  next same => exact { marked with portCommand := by simp [same], rnfrAccepted := fun _ => rfl, rnfrCommand := fun _ => rfl }
  next same => exact { marked with portCommand := by simp [same], rnfrCommand := by simp [same] }
  next same => exact { marked with portCommand := by simp [same], inProgress := by simp, rnfrCommand := by simp [same] }
  next same => exact { marked with portCommand := by simp [same], rnfrCommand := by simp [same] }
  next same => exact { marked with portCommand := by simp [same], rnfrCommand := by simp [same] }
  next same => exact { marked with portCommand := by simp [same], rnfrCommand := by simp [same] }
  next => exact { marked with portCommand := fun same => absurd same (by assumption), rnfrCommand := fun same => absurd same (by assumption) }

theorem Marked.infer {session : Session} (marked : Marked session) {command : Command} (port : command ≠ .port)
    (rnfr : command = .rnfr → session.rnfrSent = true) : Marked { session with lastCommand := command } :=
  { marked with portCommand := fun same => absurd same port, rnfrCommand := rnfr }

theorem Marked.ite {condition : Prop} [Decidable condition] {yes no : Session} (left : condition → Marked yes)
    (right : ¬condition → Marked no) : Marked (if condition then yes else no) := by
  split
  next holds => exact left holds
  next fails => exact right fails

theorem marked_inferred {session : Session} (marked : Marked session) (respCode : Nat) :
    Marked (inferCommandFromResponse session respCode) := by
  unfold inferCommandFromResponse
  refine .ite (fun _ => marked) fun _ => ?_
  split
  · exact .ite (fun _ => marked.infer (by decide) (by simp)) fun _ => marked
  · exact .ite (fun _ => marked.infer (by decide) (by simp)) fun _ => marked
  · exact .ite (fun _ => marked.infer (by decide) (by simp)) fun _ => marked
  · exact .ite (fun _ => marked.infer (by decide) (by simp)) fun _ => marked
  · exact .ite (fun sent => marked.infer (by decide) fun _ => sent) fun _ => marked
  · exact .ite (fun _ => marked.infer (by decide) (by simp)) fun _ => marked
  · exact marked.infer (by decide) (by simp)
  · exact marked.infer (by decide) (by simp)
  · exact marked.infer (by decide) (by simp)
  · exact marked

theorem marked_response {session : Session} (marked : Marked session) (respCode : Nat) :
    Marked (session.afterResponse respCode) := by
  unfold Session.afterResponse
  refine .ite (fun _ => { marked with }) fun _ => ?_
  refine .ite (fun _ => { marked with loggedIn := fun _ => rfl }) fun _ => ?_
  refine .ite (fun _ => { marked with loggedIn := by simp }) fun _ => ?_
  refine .ite (fun accepted => { marked with portAccepted := fun _ => marked.portCommand accepted.2 }) fun _ => ?_
  refine .ite (fun _ => { marked with }) fun _ => ?_
  refine .ite (fun _ => { marked with inProgress := fun _ => ⟨rfl, rfl⟩ }) fun _ => ?_
  refine .ite (fun _ => { marked with inProgress := by simp }) fun _ => ?_
  refine .ite (fun accepted => { marked with rnfrAccepted := fun _ => marked.rnfrCommand accepted.2 }) fun _ => ?_
  refine .ite (fun _ => { marked_reset with }) fun _ => ?_
  exact .ite (fun _ => { marked with }) fun _ => marked

end Flags

section Counting

/-- A reply resets the session, or it leaves alone what is known of the commands. -/
structure Keeps (before after : Session) : Prop where
  lastCommand : after.lastCommand = before.lastCommand
  sequenceNumber : after.sequenceNumber = before.sequenceNumber
  userSent : after.userSent = before.userSent
  passSent : after.passSent = before.passSent
  pasvSent : after.pasvSent = before.pasvSent
  rnfrSent : after.rnfrSent = before.rnfrSent
  quitSent : after.quitSent = before.quitSent
  reinitSent : after.reinitSent = before.reinitSent

theorem Keeps.ite {session yes no : Session} {condition : Prop} [Decidable condition] (left : condition → Keeps session yes)
    (right : ¬condition → Keeps session no) : Keeps session (if condition then yes else no) := by
  split
  next holds => exact left holds
  next fails => exact right fails

theorem afterResponse_keeps {session : Session} {respCode : Nat}
    (goes : ¬(respCode = 220 ∧ session.sequenceNumber ≠ 0 ∧ session.lastCommand = .rein)) :
    Keeps session (session.afterResponse respCode) := by
  unfold Session.afterResponse
  refine .ite (fun _ => by constructor <;> rfl) fun initial => ?_
  iterate 7 refine .ite (fun _ => by constructor <;> rfl) fun _ => ?_
  refine .ite (fun restarts => ?_) fun _ => ?_
  · exact absurd ⟨restarts.1, fun zero => initial ⟨restarts.1, zero⟩, restarts.2⟩ goes
  · exact .ite (fun _ => by constructor <;> rfl) fun _ => by constructor <;> rfl

theorem afterResponse_restarts {session : Session} (running : session.sequenceNumber ≠ 0) (last : session.lastCommand = .rein) :
    session.afterResponse 220 = { resetSession with sessionInitialized := true } := by
  simp [Session.afterResponse, running, last]

theorem Keeps.trans {before between after : Session} (first : Keeps before between) (second : Keeps between after) :
    Keeps before after :=
  ⟨second.lastCommand.trans first.lastCommand, second.sequenceNumber.trans first.sequenceNumber,
    second.userSent.trans first.userSent, second.passSent.trans first.passSent, second.pasvSent.trans first.pasvSent,
    second.rnfrSent.trans first.rnfrSent, second.quitSent.trans first.quitSent, second.reinitSent.trans first.reinitSent⟩

theorem Keeps.count {before after : Session} (keeps : Keeps before after) :
    Keeps { before with sequenceNumber := before.sequenceNumber + 1 }
      { after with sequenceNumber := after.sequenceNumber + 1 } :=
  { keeps with sequenceNumber := congrArg (· + 1) keeps.sequenceNumber }

/-- Inference touches nothing but the last command. -/
theorem infer_keeps (session : Session) (respCode : Nat) :
    Keeps { session with lastCommand := (inferCommandFromResponse session respCode).lastCommand }
      (inferCommandFromResponse session respCode) := by
  unfold inferCommandFromResponse
  split
  · constructor <;> rfl
  · split <;> (try split) <;> constructor <;> rfl

theorem restarts_iff (session : Session) (packet : Packet) : session.restarts packet = true ↔
    extractResponseCode packet.text = 220 ∧ session.sequenceNumber ≠ 0 ∧
      (inferCommandFromResponse session (extractResponseCode packet.text)).lastCommand = .rein := by
  unfold Session.restarts inferCommandFromResponse
  by_cases code : extractResponseCode packet.text = 220
  · rw [code]
    by_cases unknown : session.lastCommand = .notSet
    · by_cases sent : session.reinitSent = true
      · simp only [unknown, sent]
        simp +contextual
      · simp [unknown, sent]
    · simp [unknown]
  · simp [code]

theorem buildCommandPredLine_session (session : Session) (packet : Packet) : (buildCommandPredLine session packet).2 =
    let next := { session with lastCommand := mapFtpCommand (extractCommand packet.text) }.afterCommand packet
      (extractCommand packet.text)
    { next with sequenceNumber := next.sequenceNumber + 1 } := rfl

theorem buildResponsePredLine_session (session : Session) (packet : Packet) : (buildResponsePredLine session packet).2 =
    let next := (inferCommandFromResponse session (extractResponseCode packet.text)).afterResponse
      (extractResponseCode packet.text)
    { next with sequenceNumber := next.sequenceNumber + 1 } := rfl

/-- A reply that resets a session leaves it as it is after one message. -/
theorem response_restarts {session : Session} {packet : Packet} (restarts : session.restarts packet = true) :
    (buildResponsePredLine session packet).2 = { resetSession with sessionInitialized := true, sequenceNumber := 1 } := by
  obtain ⟨code, running, last⟩ := (restarts_iff session packet).mp restarts
  rw [code] at last
  have reset : (inferCommandFromResponse session 220).afterResponse 220 = { resetSession with sessionInitialized := true } := by
    apply afterResponse_restarts _ last
    rw [(infer_keeps session 220).sequenceNumber]
    exact running
  rw [buildResponsePredLine_session, code, reset]
  rfl

/-- Any other reply is counted, and may let the last command be inferred. -/
theorem response_keeps {session : Session} {packet : Packet} (goes : session.restarts packet = false) :
    Keeps { session with
      lastCommand := (inferCommandFromResponse session (extractResponseCode packet.text)).lastCommand
      sequenceNumber := session.sequenceNumber + 1 } (buildResponsePredLine session packet).2 := by
  have kept : Keeps (inferCommandFromResponse session (extractResponseCode packet.text))
      ((inferCommandFromResponse session (extractResponseCode packet.text)).afterResponse (extractResponseCode packet.text)) := by
    apply afterResponse_keeps
    rintro ⟨code, running, last⟩
    rw [(infer_keeps session _).sequenceNumber] at running
    rw [(restarts_iff session packet).mpr ⟨code, running, last⟩] at goes
    cases goes
  rw [buildResponsePredLine_session]
  exact ((infer_keeps session _).trans kept).count

theorem afterCommand_sequenceNumber (session : Session) (packet : Packet) (cmd : List Char) :
    (session.afterCommand packet cmd).sequenceNumber = session.sequenceNumber := by
  unfold Session.afterCommand
  split <;> rfl

/-- The messages are counted as a machine word does. -/
theorem run_counts (traffic : Traffic) : (run traffic).1.sequenceNumber = Int32.ofNat (run traffic).2.messages := by
  apply run_invariant (fun session history => session.sequenceNumber = Int32.ofNat history.messages) rfl
  rintro session history ⟨direction, packet⟩ counted
  cases direction with
  | c2s =>
    change (Session.afterCommand _ _ _).sequenceNumber + 1 = Int32.ofNat (history.messages + 1)
    rw [afterCommand_sequenceNumber, Int32.ofNat_add]
    exact congrArg (· + 1) counted
  | s2c =>
    change (buildResponsePredLine session packet).2.sequenceNumber =
      Int32.ofNat (if session.restarts packet = true then ⟨1, []⟩ else ⟨history.messages + 1, history.sent⟩ : History).messages
    split
    next restarts =>
      rw [response_restarts restarts]
      rfl
    next goes =>
      rw [(response_keeps (Bool.eq_false_iff.mpr goes)).sequenceNumber, Int32.ofNat_add]
      exact congrArg (· + 1) counted

theorem marked_build {session : Session} (marked : Marked session) (direction : Direction) (packet : Packet) :
    Marked (adapter.build direction session packet).2 := by
  cases direction with
  | c2s =>
    change Marked (buildCommandPredLine session packet).2
    rw [buildCommandPredLine_session]
    exact (marked_command marked packet (extractCommand packet.text)).count _
  | s2c =>
    change Marked (buildResponsePredLine session packet).2
    rw [buildResponsePredLine_session]
    exact (marked_response (marked_inferred marked _) _).count _

/-- The flags are coherent in every session, and the messages are counted as far as an `int` goes. -/
theorem run_coherent (traffic : Traffic) : Coherent (adapter.after adapter.resetSession traffic) ∧
    ((run traffic).2.messages < 2 ^ 31 →
      (adapter.after adapter.resetSession traffic).sequenceNumber.toInt = (run traffic).2.messages) := by
  have marked : Marked (adapter.after adapter.resetSession traffic) :=
    adapter.after_invariant Marked (fun _ direction packet marked => marked_build marked direction packet) marked_reset traffic
  refine ⟨{ marked with authState := authState_complete _ }, fun few => ?_⟩
  have counted := run_counts traffic
  rw [run_session] at counted
  rw [show adapter.resetSession = resetSession from rfl, counted, Int32.toInt_ofNat_of_lt few]

theorem run_commands (packet : Packet) (messages : Nat) :
    (run (List.replicate messages (.c2s, packet))).2.messages = messages := by
  induction messages with
  | zero => rfl
  | succ messages ih =>
    rw [List.replicate_succ', run_append]
    exact congrArg (· + 1) ih

def noopCommand : Packet := { bytes := [78, 79, 79, 80, 13, 10] }

/-- As many commands as an `int` cannot count. -/
theorem run_overflows : ¬((run (List.replicate (2 ^ 31) (.c2s, noopCommand))).1.sequenceNumber.toInt =
    (run (List.replicate (2 ^ 31) (.c2s, noopCommand))).2.messages) := by
  rw [run_counts, run_commands]
  decide

end Counting

section Evidence

def Command.all : List Command := .notSet :: commandNames.map Prod.snd

def Command.ofText (text : String) : Command := (Command.all.find? fun command => command.text == text).getD .notSet

@[simp] theorem Command.ofText_text (command : Command) : Command.ofText command.text = command := by
  cases command <;> decide +kernel

theorem Command.text_injective {left right : Command} (same : left.text = right.text) : left = right := by
  rw [← ofText_text left, same, ofText_text]

/-- The line of a reply names no command, or one that was sent since the last reset. -/
def Evident (traffic : Traffic) : Prop :=
  ∀ before packet behind, traffic = before ++ (.s2c, packet) :: behind →
    let fields := (adapter.build .s2c (adapter.after resetSession before) packet).1
    fields.lookup "ftp_command" = some "cmdNotSet" ∨
      ∃ command ∈ (run (before ++ [(.s2c, packet)])).2.sent, fields.lookup "ftp_command" = some command.text

/-- The replies that a command is made up for. -/
def fabricated : Nat → Option Command
  | 257 => some .pwd
  | 215 => some .syst
  | 211 => some .feat
  | _ => none

/-- What a session knows of the commands was sent. -/
structure Evidence (session : Session) (sent : List Command) : Prop where
  user : session.userSent = true → .user ∈ sent
  pass : session.passSent = true → .pass ∈ sent
  pasv : session.pasvSent = true → .pasv ∈ sent
  rnfr : session.rnfrSent = true → .rnfr ∈ sent
  quit : session.quitSent = true → .quit ∈ sent
  rein : session.reinitSent = true → .rein ∈ sent

theorem evidence_reset : Evidence resetSession [] := by
  constructor <;> simp [resetSession]

theorem Evidence.more {session : Session} {sent : List Command} (evidence : Evidence session sent) (command : Command) :
    Evidence session (command :: sent) :=
  ⟨fun set => List.mem_cons_of_mem _ (evidence.user set), fun set => List.mem_cons_of_mem _ (evidence.pass set),
    fun set => List.mem_cons_of_mem _ (evidence.pasv set), fun set => List.mem_cons_of_mem _ (evidence.rnfr set),
    fun set => List.mem_cons_of_mem _ (evidence.quit set), fun set => List.mem_cons_of_mem _ (evidence.rein set)⟩

theorem Evidence.keeps {before after : Session} {sent : List Command} (evidence : Evidence before sent)
    (keeps : Keeps before after) : Evidence after sent := by
  constructor
  · rw [keeps.userSent]; exact evidence.user
  · rw [keeps.passSent]; exact evidence.pass
  · rw [keeps.pasvSent]; exact evidence.pasv
  · rw [keeps.rnfrSent]; exact evidence.rnfr
  · rw [keeps.quitSent]; exact evidence.quit
  · rw [keeps.reinitSent]; exact evidence.rein

theorem evidence_command {session : Session} {sent : List Command} (evidence : Evidence session sent) (packet : Packet)
    (cmd : List Char) : Evidence ({ session with lastCommand := mapFtpCommand cmd }.afterCommand packet cmd)
      (mapFtpCommand cmd :: sent) := by
  have more := evidence.more (mapFtpCommand cmd)
  unfold Session.afterCommand
  split
  next same => exact { more with user := fun _ => by simp [same] }
  next same => exact { more with pass := fun _ => by simp [same] }
  next => exact { more with pasv := by simp }
  next same => exact { more with pasv := fun _ => by simp [same] }
  next => exact { more with }
  next => exact { more with }
  next same => exact { more with rnfr := fun _ => by simp [same] }
  next => exact { more with }
  next => exact { more with }
  next same => exact { more with quit := fun _ => by simp [same] }
  next same => exact { more with rein := fun _ => by simp [same] }
  next => exact { more with }
  next => exact { more with }

/-- A command that is inferred was sent, or it is made up. -/
theorem inferred_evidence {session : Session} {sent : List Command} (evidence : Evidence session sent) (respCode : Nat) :
    (inferCommandFromResponse session respCode).lastCommand = session.lastCommand ∨
      (inferCommandFromResponse session respCode).lastCommand ∈ sent ∨
        session.lastCommand = .notSet ∧ fabricated respCode = some (inferCommandFromResponse session respCode).lastCommand := by
  unfold inferCommandFromResponse
  split
  · exact Or.inl rfl
  next unknown =>
    have unset : session.lastCommand = .notSet := by simpa using unknown
    split
    · split
      next sent => exact Or.inr (Or.inl (evidence.rein sent.2))
      next => exact Or.inl rfl
    · split
      next sent => exact Or.inr (Or.inl (evidence.user sent))
      next => exact Or.inl rfl
    · split
      next sent => exact Or.inr (Or.inl (evidence.pass sent.2))
      next => exact Or.inl rfl
    · split
      next sent => exact Or.inr (Or.inl (evidence.pasv sent))
      next => exact Or.inl rfl
    · split
      next sent => exact Or.inr (Or.inl (evidence.rnfr sent))
      next => exact Or.inl rfl
    · split
      next sent => exact Or.inr (Or.inl (evidence.quit sent))
      next => exact Or.inl rfl
    · exact Or.inr (Or.inr ⟨unset, rfl⟩)
    · exact Or.inr (Or.inr ⟨unset, rfl⟩)
    · exact Or.inr (Or.inr ⟨unset, rfl⟩)
    · exact Or.inl rfl

/-- The run knows of no command that was not sent. -/
theorem run_evidence (traffic : Traffic) : Evidence (run traffic).1 (run traffic).2.sent := by
  apply run_invariant (fun session history => Evidence session history.sent) evidence_reset
  rintro session history ⟨direction, packet⟩ evidence
  cases direction with
  | c2s =>
    change Evidence (buildCommandPredLine session packet).2 _
    rw [buildCommandPredLine_session]
    exact { evidence_command evidence packet (extractCommand packet.text) with }
  | s2c =>
    change Evidence (buildResponsePredLine session packet).2
      (if session.restarts packet = true then ⟨1, []⟩ else ⟨history.messages + 1, history.sent⟩ : History).sent
    split
    next restarts =>
      rw [response_restarts restarts]
      exact { evidence_reset with }
    next goes =>
      refine Evidence.keeps ?_ (response_keeps (Bool.eq_false_iff.mpr goes))
      exact { evidence with }

def Supported (session : Session) (sent : List Command) : Prop :=
  session.lastCommand = .notSet ∨ session.lastCommand ∈ sent

theorem infer_fabricated {session : Session} {respCode : Nat} {command : Command} (made : fabricated respCode = some command)
    (unset : session.lastCommand = .notSet) : (inferCommandFromResponse session respCode).lastCommand = command := by
  unfold fabricated at made
  unfold inferCommandFromResponse
  rw [if_neg (by simpa using unset)]
  split at made <;> cases made <;> rfl

theorem fabricated_goes {session : Session} {packet : Packet} {command : Command}
    (made : fabricated (extractResponseCode packet.text) = some command) : session.restarts packet = false := by
  apply Bool.eq_false_iff.mpr
  intro restarts
  rw [((restarts_iff session packet).mp restarts).1] at made
  cases made

theorem afterCommand_lastCommand (session : Session) (packet : Packet) (cmd : List Char) :
    (session.afterCommand packet cmd).lastCommand = session.lastCommand := by
  unfold Session.afterCommand
  split <;> rfl

theorem command_supported (session : Session) (history : History) (packet : Packet) :
    Supported (buildCommandPredLine session packet).2 (history.next session (.c2s, packet)).sent := by
  refine Or.inr ?_
  rw [buildCommandPredLine_session]
  change (Session.afterCommand _ _ _).lastCommand ∈ mapFtpCommand (extractCommand packet.text) :: history.sent
  rw [afterCommand_lastCommand]
  exact List.mem_cons_self

/-- A reply is told with a command that was sent unless one is made up for it. -/
theorem reply_supported {session : Session} {history : History} (evidence : Evidence session history.sent)
    (supported : Supported session history.sent) {packet : Packet}
    (sent : ∀ command, fabricated (extractResponseCode packet.text) = some command → session.lastCommand = .notSet →
      command ∈ history.sent) :
    Supported (buildResponsePredLine session packet).2 (history.next session (.s2c, packet)).sent := by
  change Supported _ (if session.restarts packet = true then ⟨1, []⟩ else ⟨history.messages + 1, history.sent⟩ : History).sent
  split
  next restarts =>
    rw [response_restarts restarts]
    exact Or.inl rfl
  next goes =>
    unfold Supported
    rw [(response_keeps (Bool.eq_false_iff.mpr goes)).lastCommand]
    obtain same | known | ⟨unset, made⟩ := inferred_evidence evidence (extractResponseCode packet.text)
    · rw [same]
      exact supported
    · exact Or.inr known
    · exact Or.inr (sent _ made unset)

/-- A command that is made up was sent if the line of its reply is right. -/
theorem sent_of_supported {session : Session} {history : History} {packet : Packet} {command : Command}
    (supported : Supported (buildResponsePredLine session packet).2 (history.next session (.s2c, packet)).sent)
    (made : fabricated (extractResponseCode packet.text) = some command) (unset : session.lastCommand = .notSet) :
    command ∈ history.sent := by
  have goes : session.restarts packet = false := fabricated_goes made
  change Supported _ (if session.restarts packet = true then ⟨1, []⟩ else ⟨history.messages + 1, history.sent⟩ : History).sent
    at supported
  rw [if_neg (by rw [goes]; exact Bool.false_ne_true)] at supported
  unfold Supported at supported
  rw [(response_keeps goes).lastCommand, infer_fabricated made unset] at supported
  obtain nothing | known := supported
  · unfold fabricated at made
    split at made <;> cases made <;> cases nothing
  · exact known

theorem evident_supported (traffic : Traffic) : Evident traffic ↔
    ∀ before packet behind, traffic = before ++ (.s2c, packet) :: behind →
      Supported (run (before ++ [(.s2c, packet)])).1 (run (before ++ [(.s2c, packet)])).2.sent := by
  unfold Evident
  refine forall_congr' fun before => forall_congr' fun packet => forall₂_congr fun behind _ => ?_
  have printed : (adapter.build .s2c (adapter.after resetSession before) packet).1.lookup "ftp_command" =
      some (run (before ++ [(.s2c, packet)])).1.lastCommand.text := by
    rw [run_append, run_session]
    rfl
  simp only [printed, Option.some_inj]
  constructor
  · rintro (nothing | ⟨command, known, same⟩)
    · exact Or.inl (Command.text_injective nothing)
    · rw [← Command.text_injective same] at known
      exact Or.inr known
  · rintro (nothing | known)
    · exact Or.inl (congrArg Command.text nothing)
    · exact Or.inr ⟨_, known, rfl⟩

/-- Replies name commands that were sent exactly when no reply arrives that one is made up for. -/
theorem evident_iff (traffic : Traffic) : Evident traffic ↔
    ∀ before packet behind, traffic = before ++ (.s2c, packet) :: behind →
      ∀ command, fabricated (extractResponseCode packet.text) = some command →
        (adapter.after resetSession before).lastCommand = .notSet → command ∈ (run before).2.sent := by
  rw [evident_supported]
  constructor
  · intro supported before packet behind split command made unset
    have last := supported before packet behind split
    rw [run_append] at last
    rw [← run_session] at unset
    exact sent_of_supported last made unset
  · intro sent before packet behind split
    have known : ∀ before behind, traffic = before ++ behind → Supported (run before).1 (run before).2.sent := by
      intro before
      induction before using List.reverseRecOn with
      | nil => exact fun _ _ => Or.inl rfl
      | append_singleton before last ih =>
        obtain ⟨direction, packet⟩ := last
        intro behind split
        rw [List.append_assoc] at split
        rw [run_append]
        cases direction with
        | c2s => exact command_supported _ _ packet
        | s2c =>
          refine reply_supported (run_evidence before) (ih _ split) fun command made unset => ?_
          rw [run_session] at unset
          exact sent before packet behind split command made unset
    exact known (before ++ [(.s2c, packet)]) behind (by rw [split, List.append_assoc]; rfl)

/-- A client that has sent nothing gets `257`. -/
def createdReply : Packet := { bytes := [50, 53, 55, 32, 34, 47, 34, 13, 10] }

theorem createdReply_evidence : ¬Evident [(.s2c, createdReply)] := by
  intro evident
  have printed : (adapter.build .s2c resetSession createdReply).1.lookup "ftp_command" = some "cmdPWD" := by decide +kernel
  have sent : (run [(.s2c, createdReply)]).2.sent = [] := by decide +kernel
  obtain nothing | ⟨command, known, _⟩ := evident [] createdReply [] rfl
  · rw [show adapter.after resetSession [] = resetSession from rfl, printed] at nothing
    exact absurd nothing (by decide)
  · rw [List.nil_append, sent] at known
    cases known

end Evidence

end LtlFuzz.Adapter.Ftp

import LtlFuzz.Adapter.Conformance

/-! `ftp_predicate_adapter.c` and the specification `ftp.txt` it prints for. -/

namespace LtlFuzz.Adapter.Ftp
open Monitor Monitor.Grammar

inductive Command where
  | notSet | user | pass | acct | cwd | cdup | smnt | quit | rein | port | pasv | type | stru | mode | retr | stor | stou
  | appe | allo | rest | rnfr | rnto | abor | dele | rmd | mkd | pwd | list | nlst | site | syst | stat | help | noop
  | feat | opts | auth | pbsz | prot | eprt | epsv | size | mlsd | mlst
  deriving DecidableEq, Repr

def Command.text : Command → String
  | .notSet => "cmdNotSet" | .user => "cmdUSER" | .pass => "cmdPASS" | .acct => "cmdACCT" | .cwd => "cmdCWD"
  | .cdup => "cmdCDUP" | .smnt => "cmdSMNT" | .quit => "cmdQUIT" | .rein => "cmdREIN" | .port => "cmdPORT"
  | .pasv => "cmdPASV" | .type => "cmdTYPE" | .stru => "cmdSTRU" | .mode => "cmdMODE" | .retr => "cmdRETR"
  | .stor => "cmdSTOR" | .stou => "cmdSTOU" | .appe => "cmdAPPE" | .allo => "cmdALLO" | .rest => "cmdREST"
  | .rnfr => "cmdRNFR" | .rnto => "cmdRNTO" | .abor => "cmdABOR" | .dele => "cmdDELE" | .rmd => "cmdRMD"
  | .mkd => "cmdMKD" | .pwd => "cmdPWD" | .list => "cmdLIST" | .nlst => "cmdNLST" | .site => "cmdSITE"
  | .syst => "cmdSYST" | .stat => "cmdSTAT" | .help => "cmdHELP" | .noop => "cmdNOOP" | .feat => "cmdFEAT"
  | .opts => "cmdOPTS" | .auth => "cmdAUTH" | .pbsz => "cmdPBSZ" | .prot => "cmdPROT" | .eprt => "cmdEPRT"
  | .epsv => "cmdEPSV" | .size => "cmdSIZE" | .mlsd => "cmdMLSD" | .mlst => "cmdMLST"

/-- The words of the protocol in the order `map_ftp_command` tries them. -/
def commandNames : List (String × Command) :=
  [("USER", .user), ("PASS", .pass), ("ACCT", .acct), ("CWD", .cwd), ("CDUP", .cdup), ("SMNT", .smnt), ("QUIT", .quit),
    ("REIN", .rein), ("PORT", .port), ("PASV", .pasv), ("TYPE", .type), ("STRU", .stru), ("MODE", .mode), ("RETR", .retr),
    ("STOR", .stor), ("STOU", .stou), ("APPE", .appe), ("ALLO", .allo), ("REST", .rest), ("RNFR", .rnfr), ("RNTO", .rnto),
    ("ABOR", .abor), ("DELE", .dele), ("RMD", .rmd), ("MKD", .mkd), ("PWD", .pwd), ("LIST", .list), ("NLST", .nlst),
    ("SITE", .site), ("SYST", .syst), ("STAT", .stat), ("HELP", .help), ("NOOP", .noop), ("FEAT", .feat), ("OPTS", .opts),
    ("AUTH", .auth), ("PBSZ", .pbsz), ("PROT", .prot), ("EPRT", .eprt), ("EPSV", .epsv), ("SIZE", .size), ("MLSD", .mlsd),
    ("MLST", .mlst)]

inductive StatusClass where
  | notSet | preliminary | success | intermediate | transientError | permanentError
  deriving DecidableEq, Repr

def StatusClass.all : List StatusClass := [.notSet, .preliminary, .success, .intermediate, .transientError, .permanentError]

def StatusClass.text : StatusClass → String
  | .notSet => "scNotSet"
  | .preliminary => "scPreliminary"
  | .success => "scSuccess"
  | .intermediate => "scIntermediate"
  | .transientError => "scTransientError"
  | .permanentError => "scPermanentError"

inductive AuthState where
  | none | userSent | passwordSent | complete | failed
  deriving DecidableEq, Repr

def AuthState.all : List AuthState := [.none, .userSent, .passwordSent, .complete, .failed]

def AuthState.text : AuthState → String
  | .none => "authNone"
  | .userSent => "authUserSent"
  | .passwordSent => "authPasswordSent"
  | .complete => "authComplete"
  | .failed => "authFailed"

inductive DataState where
  | notSet | port | pasv | active
  deriving DecidableEq, Repr

def DataState.all : List DataState := [.notSet, .port, .pasv, .active]

def DataState.text : DataState → String
  | .notSet => "dataNotSet"
  | .port => "dataPORT"
  | .pasv => "dataPASV"
  | .active => "dataActive"

/-- `g_ftp_state`, with the values `ftp_predicate_reset_session` gives it as defaults. -/
structure Session where
  userLoggedIn : Bool := false
  userSent : Bool := false
  passSent : Bool := false
  loginSuccessful : Bool := false
  loginFailed : Bool := false
  portSent : Bool := false
  pasvSent : Bool := false
  pasvResponseReceived : Bool := false
  portAccepted : Bool := false
  dataConnectionOpen : Bool := false
  retrSent : Bool := false
  storSent : Bool := false
  transferStarted : Bool := false
  transferComplete : Bool := false
  transferAborted : Bool := false
  transferInProgress : Bool := false
  rnfrSent : Bool := false
  rnfrAccepted : Bool := false
  rntoSent : Bool := false
  sessionInitialized : Bool := false
  quitSent : Bool := false
  reinitSent : Bool := false
  connectionClosed : Bool := false
  sequenceNumber : Int32 := 0
  restPosition : Int32 := 0
  lastCommand : Command := .notSet
  deriving DecidableEq, Repr

def resetSession : Session := {}

/-- The word a buffer starts with, in upper case, as the C string it is afterwards. -/
def extractCommand (text : List Char) : List Char :=
  cString (((text.take 15).takeWhile fun c => c != ' ' && c != '\r' && c != '\n').map Char.toUpper)

def mapFtpCommand (cmd : List Char) : Command :=
  match commandNames.find? fun entry => entry.1 == String.ofList cmd with
  | some entry => entry.2
  | none => .notSet

def extractResponseCode : List Char → Nat
  | a :: b :: c :: _ =>
    if a.isDigit && b.isDigit && c.isDigit then
      (a.toNat - '0'.toNat) * 100 + (b.toNat - '0'.toNat) * 10 + (c.toNat - '0'.toNat)
    else 0
  | _ => 0

def mapStatusClass (code : Nat) : StatusClass :=
  if code = 0 then .notSet
  else if 100 ≤ code ∧ code < 200 then .preliminary
  else if 200 ≤ code ∧ code < 300 then .success
  else if 300 ≤ code ∧ code < 400 then .intermediate
  else if 400 ≤ code ∧ code < 500 then .transientError
  else if 500 ≤ code ∧ code < 600 then .permanentError
  else .notSet

def Session.authState (session : Session) : AuthState :=
  if session.userLoggedIn then .complete
  else if session.loginFailed then .failed
  else if session.passSent then .passwordSent
  else if session.userSent then .userSent
  else .none

def Session.dataState (session : Session) : DataState :=
  if session.dataConnectionOpen then .active
  else if session.portSent then .port
  else if session.pasvSent then .pasv
  else .notSet

def isCmdMalformed (text : List Char) : Bool :=
  text.isEmpty || text.length > 512 || text.dropLast.contains '\x00' || (extractCommand text).isEmpty

/-- A reply line without its end: less than `XYZ` and a separator, or no number in front. -/
def isReplyLineMalformed (line : List Char) : Bool :=
  let line := if line.getLast? = some '\r' then line.dropLast else line
  line.length < 4 || !(line.take 3).all Char.isDigit

/-- The loop over the lines of a reply, with what has been read of the current one. -/
def hasMalformedLine : List Char → List Char → Bool
  | line, [] => !line.isEmpty && isReplyLineMalformed line
  | line, c :: rest =>
    if c = '\n' then isReplyLineMalformed line || hasMalformedLine [] rest else hasMalformedLine (line ++ [c]) rest

def isRespMalformed (text : List Char) : Bool := text.isEmpty || hasMalformedLine [] text

/-- Only an unknown last command is replaced, and mostly only if it was seen before. -/
def inferCommandFromResponse (session : Session) (respCode : Nat) : Session :=
  if session.lastCommand ≠ .notSet then session
  else
    match respCode with
    | 220 => if session.sequenceNumber ≠ 0 ∧ session.reinitSent then { session with lastCommand := .rein } else session
    | 331 => if session.userSent then { session with lastCommand := .user } else session
    | 230 => if session.sequenceNumber ≠ 0 ∧ session.passSent then { session with lastCommand := .pass } else session
    | 227 => if session.pasvSent then { session with lastCommand := .pasv } else session
    | 350 => if session.rnfrSent then { session with lastCommand := .rnfr } else session
    | 221 => if session.quitSent then { session with lastCommand := .quit } else session
    | 257 => { session with lastCommand := .pwd }
    | 215 => { session with lastCommand := .syst }
    | 211 => { session with lastCommand := .feat }
    | _ => session

/-- The line both builders print, for what differs between them. -/
def Session.predicates (session : Session) (command : Command) (statusClass : StatusClass) (respCode : Nat)
    (cmdMalformed respMalformed timeout : Bool) : List Field :=
  [("ftp_command", command.text), ("ftp_status_class", statusClass.text), ("resp_code", toString (respCode : Int)),
    ("sequence_number", toString session.sequenceNumber.toInt), ("port_number", toString (0 : Int)),
    ("file_size", toString (0 : Int)), ("rest_position", toString session.restPosition.toInt),
    ("cmd_malformed", boolToString cmdMalformed), ("resp_malformed", boolToString respMalformed),
    ("user_logged_in", boolToString session.userLoggedIn),
    ("data_connection_open", boolToString session.dataConnectionOpen),
    ("transfer_in_progress", boolToString session.transferInProgress), ("timeout", boolToString timeout),
    ("connection_closed", boolToString session.connectionClosed), ("user_sent", boolToString session.userSent),
    ("pass_sent", boolToString session.passSent), ("login_successful", boolToString session.loginSuccessful),
    ("login_failed", boolToString session.loginFailed), ("port_sent", boolToString session.portSent),
    ("pasv_sent", boolToString session.pasvSent),
    ("pasv_response_received", boolToString session.pasvResponseReceived),
    ("port_accepted", boolToString session.portAccepted), ("retr_sent", boolToString session.retrSent),
    ("stor_sent", boolToString session.storSent), ("transfer_started", boolToString session.transferStarted),
    ("transfer_complete", boolToString session.transferComplete),
    ("transfer_aborted", boolToString session.transferAborted), ("rnfr_sent", boolToString session.rnfrSent),
    ("rnfr_accepted", boolToString session.rnfrAccepted), ("rnto_sent", boolToString session.rntoSent),
    ("session_initialized", boolToString session.sessionInitialized), ("quit_sent", boolToString session.quitSent),
    ("reinit_sent", boolToString session.reinitSent), ("auth_state", session.authState.text),
    ("data_state", session.dataState.text), ("transfer_type", "typeNotSet")]

/-- `atoi` on what follows the command in memory, after blanks. -/
def parseRestPosition (packet : Packet) (cmd : List Char) : Int32 :=
  Int32.ofInt (Text.atoi (cString ((packet.text ++ packet.beyond.map charOfByte).drop cmd.length)))

def Session.afterCommand (session : Session) (packet : Packet) (cmd : List Char) : Session :=
  match mapFtpCommand cmd with
  | .user => { session with userSent := true }
  | .pass => { session with passSent := true }
  | .port => { session with portSent := true, pasvSent := false }
  | .pasv => { session with pasvSent := true, portSent := false }
  | .retr => { session with retrSent := true }
  | .stor => { session with storSent := true }
  | .rnfr => { session with rnfrSent := true }
  | .rnto => { session with rntoSent := true }
  | .abor => { session with transferAborted := true, transferInProgress := false }
  | .quit => { session with quitSent := true }
  | .rein => { session with reinitSent := true }
  | .rest => { session with restPosition := parseRestPosition packet cmd }
  | _ => session

def buildCommandPredLine (session : Session) (packet : Packet) : List Field × Session :=
  let cmd := extractCommand packet.text
  let command := mapFtpCommand cmd
  let session := { session with lastCommand := command }.afterCommand packet cmd
  let session := { session with sequenceNumber := session.sequenceNumber + 1 }
  (session.predicates command .notSet 0 (isCmdMalformed packet.text) false false, session)

def Session.afterResponse (session : Session) (respCode : Nat) : Session :=
  if respCode = 220 ∧ session.sequenceNumber = 0 then { session with sessionInitialized := true }
  else if respCode = 230 then { session with userLoggedIn := true, loginSuccessful := true }
  else if respCode = 530 then { session with loginFailed := true, userLoggedIn := false }
  else if respCode = 200 ∧ session.lastCommand = .port then { session with portAccepted := true }
  else if respCode = 227 then { session with pasvResponseReceived := true }
  else if respCode = 150 then
    { session with transferStarted := true, transferInProgress := true, dataConnectionOpen := true }
  else if respCode = 226 then
    { session with transferComplete := true, transferInProgress := false, dataConnectionOpen := false }
  else if respCode = 350 ∧ session.lastCommand = .rnfr then { session with rnfrAccepted := true }
  else if respCode = 220 ∧ session.lastCommand = .rein then { resetSession with sessionInitialized := true }
  else if respCode = 221 then { session with connectionClosed := true }
  else session

def buildResponsePredLine (session : Session) (packet : Packet) : List Field × Session :=
  let respCode := extractResponseCode packet.text
  let timeout := packet.bytes.isEmpty || respCode == 0
  let session := (inferCommandFromResponse session respCode).afterResponse respCode
  let session := { session with sequenceNumber := session.sequenceNumber + 1 }
  (session.predicates session.lastCommand (mapStatusClass respCode) respCode false (isRespMalformed packet.text) timeout,
    session)

def adapter : PredicateAdapter Session where
  start := {}
  resetSession := resetSession
  build
    | .c2s => buildCommandPredLine
    | .s2c => buildResponsePredLine
  appendsTrace _ := true
  resetsMessageId := false

section Specification

def ftpCommand : Identifier := ⟨"ftp_command", by decide⟩
def ftpStatusClass : Identifier := ⟨"ftp_status_class", by decide⟩
def respCode : Identifier := ⟨"resp_code", by decide⟩
def portNumber : Identifier := ⟨"port_number", by decide⟩
def timeout : Identifier := ⟨"timeout", by decide⟩
def respMalformed : Identifier := ⟨"resp_malformed", by decide⟩
def connectionClosed : Identifier := ⟨"connection_closed", by decide⟩
def quitSent : Identifier := ⟨"quit_sent", by decide⟩
def userSent : Identifier := ⟨"user_sent", by decide⟩
def userLoggedIn : Identifier := ⟨"user_logged_in", by decide⟩
def rnfrAccepted : Identifier := ⟨"rnfr_accepted", by decide⟩

def isFalse (flag : Identifier) : Formula := .predicates ⟨flag, .eq, .false⟩

def isCommand (value : String) (valid : isIdentifier value = true) : Formula :=
  .predicates ⟨ftpCommand, .eq, .id ⟨value, valid⟩⟩

def succeeded : Formula := .predicates ⟨ftpStatusClass, .eq, .id ⟨"scSuccess", by decide⟩⟩

/-- The declarations of `ftp.txt` that are not enumerations. -/
def integers : List Identifier :=
  identifiers ["resp_code", "sequence_number", "port_number", "file_size", "rest_position"] (by decide +kernel)

def flags : List Identifier :=
  identifiers ["cmd_malformed", "resp_malformed", "user_logged_in", "data_connection_open", "transfer_in_progress",
    "timeout", "connection_closed", "user_sent", "pass_sent", "login_successful", "login_failed", "port_sent",
    "pasv_sent", "pasv_response_received", "port_accepted", "retr_sent", "stor_sent", "transfer_started",
    "transfer_complete", "transfer_aborted", "rnfr_sent", "rnfr_accepted", "rnto_sent", "session_initialized",
    "quit_sent", "reinit_sent"] (by decide +kernel)

/-- `ftp.txt`. -/
def tree : SpecTree where
  declaration := Annotation.enumeration "ftp_command" "cmdNotSet"
    ["cmdUSER", "cmdPASS", "cmdACCT", "cmdCWD", "cmdCDUP", "cmdSMNT", "cmdQUIT", "cmdREIN", "cmdPORT", "cmdPASV",
      "cmdTYPE", "cmdSTRU", "cmdMODE", "cmdRETR", "cmdSTOR", "cmdSTOU", "cmdAPPE", "cmdALLO", "cmdREST", "cmdRNFR",
      "cmdRNTO", "cmdABOR", "cmdDELE", "cmdRMD", "cmdMKD", "cmdPWD", "cmdLIST", "cmdNLST", "cmdSITE", "cmdSYST",
      "cmdSTAT", "cmdHELP", "cmdNOOP", "cmdFEAT", "cmdOPTS", "cmdAUTH", "cmdPBSZ", "cmdPROT", "cmdEPRT", "cmdEPSV",
      "cmdSIZE", "cmdMLSD", "cmdMLST"] (by decide +kernel)
  declarations :=
    Annotation.enumeration "ftp_status_class" "scNotSet"
      ["scPreliminary", "scSuccess", "scIntermediate", "scTransientError", "scPermanentError"] (by decide +kernel) ::
    Annotation.enumeration "auth_state" "authNone" ["authUserSent", "authPasswordSent", "authComplete", "authFailed"]
      (by decide +kernel) ::
    Annotation.enumeration "data_state" "dataNotSet" ["dataPORT", "dataPASV", "dataEPRT", "dataEPSV", "dataActive", "dataClosed"]
      (by decide +kernel) ::
    Annotation.enumeration "transfer_type" "typeNotSet" ["typeASCII", "typeBinary", "typeEBCDIC", "typeLocal"] (by decide +kernel) ::
    integers.map .int ++ flags.map .bool
  formula := .h <| .paren <| .not <| .paren <| .conjunction (isFalse timeout)
    [isFalse respMalformed, isFalse connectionClosed, isFalse quitSent, isCommand "cmdPASS" (by decide),
      .predicates ⟨respCode, .eq, .int 230⟩, isFalse userSent]
  formulas :=
    [.h <| .paren <| .not <| .paren <| .conjunction (isFalse timeout)
      [isFalse respMalformed, isFalse connectionClosed, isFalse quitSent, isFalse userLoggedIn,
        .paren (.disjunction (isCommand "cmdRETR" (by decide)) [isCommand "cmdSTOR" (by decide),
          isCommand "cmdDELE" (by decide), isCommand "cmdRNFR" (by decide), isCommand "cmdRNTO" (by decide)]), succeeded],
    .h <| .paren <| .not <| .paren <| .conjunction (isFalse timeout)
      [isFalse respMalformed, isFalse connectionClosed, isFalse quitSent, isCommand "cmdRNTO" (by decide), succeeded,
        isFalse rnfrAccepted],
    .h <| .paren <| isFalse respMalformed,
    .h <| .paren <| .arrow (.paren <| .conjunction (isFalse timeout)
      [isFalse respMalformed, isFalse connectionClosed, isFalse quitSent, .predicates ⟨respCode, .eq, .int 227⟩])
      (isCommand "cmdPASV" (by decide)),
    .h <| .paren <| .arrow (.paren <| .conjunction (isFalse timeout)
      [isFalse connectionClosed, isFalse quitSent, isCommand "cmdPORT" (by decide), succeeded])
      (.predicates ⟨portNumber, .gt, .int 0⟩)]

def shapes : List (String × Shape) :=
  [("ftp_command", .enum ((.notSet :: commandNames.map Prod.snd).map Command.text)),
    ("ftp_status_class", .enum (StatusClass.all.map StatusClass.text)),
    ("resp_code", .int 10), ("sequence_number", .int 31), ("port_number", .int 0), ("file_size", .int 0),
    ("rest_position", .int 31), ("cmd_malformed", .bool), ("resp_malformed", .bool), ("user_logged_in", .bool),
    ("data_connection_open", .bool), ("transfer_in_progress", .bool), ("timeout", .bool), ("connection_closed", .bool),
    ("user_sent", .bool), ("pass_sent", .bool), ("login_successful", .bool), ("login_failed", .bool),
    ("port_sent", .bool), ("pasv_sent", .bool), ("pasv_response_received", .bool), ("port_accepted", .bool),
    ("retr_sent", .bool), ("stor_sent", .bool), ("transfer_started", .bool), ("transfer_complete", .bool),
    ("transfer_aborted", .bool), ("rnfr_sent", .bool), ("rnfr_accepted", .bool), ("rnto_sent", .bool),
    ("session_initialized", .bool), ("quit_sent", .bool), ("reinit_sent", .bool),
    ("auth_state", .enum (AuthState.all.map AuthState.text)), ("data_state", .enum (DataState.all.map DataState.text)),
    ("transfer_type", .enum ["typeNotSet"])]

theorem shapes_fit : fits shapes tree = true := by decide +kernel

theorem extractResponseCode_lt (text : List Char) : extractResponseCode text < 2 ^ 10 := by
  unfold extractResponseCode
  split
  · split
    next digits =>
      simp only [Bool.and_eq_true] at digits
      have first := Char.isDigit_iff_toNat.mp digits.1.1
      have second := Char.isDigit_iff_toNat.mp digits.1.2
      have third := Char.isDigit_iff_toNat.mp digits.2
      have zero : '0'.toNat = 48 := rfl
      have nine : '9'.toNat = 57 := rfl
      omega
    next => decide
  · decide

private theorem listed_command (command : Command) : command ∈ .notSet :: commandNames.map Prod.snd := by
  cases command <;> decide

private theorem predicates_match (session : Session) (command : Command) (statusClass : StatusClass) {respCode : Nat}
    (code : respCode < 2 ^ 10) (cmdMalformed respMalformed timeout : Bool) :
    Matches shapes (session.predicates command statusClass respCode cmdMalformed respMalformed timeout) := by
  have kind : (Shape.enum ((.notSet :: commandNames.map Prod.snd).map Command.text)).Admits command.text :=
    List.mem_map_of_mem (listed_command command)
  have status : (Shape.enum (StatusClass.all.map StatusClass.text)).Admits statusClass.text :=
    List.mem_map_of_mem (by cases statusClass <;> decide)
  have auth : (Shape.enum (AuthState.all.map AuthState.text)).Admits session.authState.text :=
    List.mem_map_of_mem (by cases session.authState <;> decide)
  have data : (Shape.enum (DataState.all.map DataState.text)).Admits session.dataState.text :=
    List.mem_map_of_mem (by cases session.dataState <;> decide)
  have zero : (Shape.int 0).Admits (toString (0 : Int)) := Shape.admits_int (by decide) (by decide)
  have type : (Shape.enum ["typeNotSet"]).Admits "typeNotSet" := List.mem_singleton_self _
  simp only [shapes, Session.predicates, matches_cons, matches_nil, and_true, Shape.admits_bool,
    Shape.admits_int32, Shape.admits_nat code, kind, status, auth, data, zero, type]

theorem build_matches (direction : Direction) (session : Session) (packet : Packet) :
    Matches shapes (adapter.build direction session packet).1 := by
  cases direction with
  | c2s => exact predicates_match _ _ _ (by decide) _ _ _
  | s2c => exact predicates_match _ _ _ (extractResponseCode_lt _) _ _ _

end Specification

end LtlFuzz.Adapter.Ftp

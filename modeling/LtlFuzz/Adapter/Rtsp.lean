import LtlFuzz.Adapter.Conformance

/-! `rtsp_predicate_adapter.c` and the specification `rtsp.txt` it prints for. Methods and
status classes are kept as the texts with a prefix that the specification declares, while
the session tracking compares them with the texts without it. -/

namespace LtlFuzz.Adapter.Rtsp
open Monitor Monitor.Grammar
open Text (isSpace strstr equalIgnoringCase)

inductive Method where
  | notSet | options | describe | setup | play | pause | teardown | announce | getParameter | setParameter | redirect | record
  deriving DecidableEq, Repr

def Method.all : List Method :=
  [.notSet, .options, .describe, .setup, .play, .pause, .teardown, .announce, .getParameter, .setParameter, .redirect,
    .record]

def Method.text : Method → String
  | .notSet => "mNotSet"
  | .options => "mOPTIONS"
  | .describe => "mDESCRIBE"
  | .setup => "mSETUP"
  | .play => "mPLAY"
  | .pause => "mPAUSE"
  | .teardown => "mTEARDOWN"
  | .announce => "mANNOUNCE"
  | .getParameter => "mGET_PARAMETER"
  | .setParameter => "mSET_PARAMETER"
  | .redirect => "mREDIRECT"
  | .record => "mRECORD"

def methodNames : List (String × Method) :=
  [("OPTIONS", .options), ("DESCRIBE", .describe), ("SETUP", .setup), ("PLAY", .play), ("PAUSE", .pause),
    ("TEARDOWN", .teardown), ("ANNOUNCE", .announce), ("GET_PARAMETER", .getParameter),
    ("SET_PARAMETER", .setParameter), ("REDIRECT", .redirect), ("RECORD", .record)]

inductive StatusClass where
  | notSet | info | success | redirect | clientErr | serverErr
  deriving DecidableEq, Repr

def StatusClass.all : List StatusClass := [.notSet, .info, .success, .redirect, .clientErr, .serverErr]

def StatusClass.text : StatusClass → String
  | .notSet => "scNotSet"
  | .info => "scINFO"
  | .success => "scSUCCESS"
  | .redirect => "scREDIRECT"
  | .clientErr => "scCLIENT_ERR"
  | .serverErr => "scSERVER_ERR"

structure Session where
  sessionId : List Char := []
  sessionEstablished : Bool := false
  setupSuccessCount : Int32 := 0
  playSuccessCount : Int32 := 0
  lastReqCseq : Int32 := -1
  lastReqMethod : Method := .notSet
  lastReqHasSession : Bool := false
  lastReqSessionId : List Char := []
  lastReqTransportUdp : Bool := false
  lastReqTransportTcp : Bool := false
  lastReqClientPorts : Bool := false
  totalTracks : Int32 := 0
  sessionInitialized : Bool := false
  deriving DecidableEq, Repr

def resetSession : Session := { sessionInitialized := true }

def startsWith (text : List Char) (leading : String) : Bool :=
  equalIgnoringCase (text.take leading.toList.length) leading.toList

/-- The characters of the next line that fit, and what is left of the buffer. -/
def extractLine : Nat → List Char → List Char × List Char
  | _, [] => ([], [])
  | 0, rest => ([], rest)
  | room + 1, c :: rest =>
    if c = '\r' then extractLine (room + 1) rest
    else if c = '\n' then ([], rest)
    else (c :: (extractLine room rest).1, (extractLine room rest).2)

/-- `char line[1024]`. -/
def lineRoom : Nat := 1023

theorem extractLine_length (room : Nat) (text : List Char) : (extractLine room text).2.length ≤ text.length := by
  fun_induction extractLine with
  | case1 | case2 => exact le_refl _
  | case3 room rest ih => exact ih.trans (Nat.le_succ _)
  | case4 room c rest => exact Nat.le_succ _
  | case5 room c rest other ending ih => exact ih.trans (Nat.le_succ _)

theorem extractLine_progress {room : Nat} (some_room : 0 < room) {text : List Char} (nonempty : text ≠ []) :
    (extractLine room text).2.length < text.length := by
  obtain ⟨c, rest, rfl⟩ := List.exists_cons_of_ne_nil nonempty
  obtain ⟨less, rfl⟩ := Nat.exists_eq_succ_of_ne_zero some_room.ne'
  have skipped := extractLine_length (less + 1) rest
  have kept := extractLine_length less rest
  simp only [extractLine, List.length_cons]
  split_ifs
  · exact Nat.lt_succ_of_le skipped
  · exact Nat.lt_succ_self _
  · exact Nat.lt_succ_of_le kept

/-- The header lines up to an empty one, each as the C string it is. -/
def headerLines (rest : List Char) : List (List Char) :=
  if rest = [] then []
  else
    let line := cString (extractLine lineRoom rest).1
    if line = [] then [] else line :: headerLines (extractLine lineRoom rest).2
termination_by rest.length
decreasing_by exact extractLine_progress (by decide) (by assumption)

def parseRequestMethod (line : List Char) : Method :=
  let method := (((cString line).dropWhile isSpace).takeWhile fun c => !isSpace c).take 31
  match methodNames.find? fun entry => equalIgnoringCase method entry.1.toList with
  | some entry => entry.2
  | none => .notSet

/-- What stands behind the first colon of a line, if it has one. -/
def headerValue (line : List Char) : Option (List Char) :=
  if ':' ∈ line then some (line.dropWhile (· != ':')).tail else none

def parseCseq (line : List Char) : Int32 :=
  match headerValue line with
  | none => -1
  | some value => Int32.ofInt (Text.atoi value)

def parseSession (line : List Char) : List Char :=
  match headerValue line with
  | none => []
  | some value => ((value.dropWhile isSpace).takeWhile fun c => c != ';' && !isSpace c).take 255

structure Transport where
  hasUdp : Bool := false
  hasTcp : Bool := false
  hasClientPorts : Bool := false
  hasServerPorts : Bool := false
  deriving DecidableEq, Repr

def parseTransport (line : List Char) : Transport :=
  match headerValue line with
  | none => {}
  | some value =>
    let hasTcp := strstr value "RTP/AVP/TCP".toList || strstr value "interleaved".toList
    { hasTcp
      hasUdp := !hasTcp && strstr value "RTP/AVP".toList
      hasClientPorts := strstr value "client_port".toList
      hasServerPorts := strstr value "server_port".toList }

def parseResponseStatus (line : List Char) : Int32 :=
  Int32.ofInt (Text.atoi ((cString line).dropWhile fun c => !isSpace c))

def getStatusClass (code : Int32) : StatusClass :=
  if code = 0 then .notSet
  else if 100 ≤ code ∧ code < 200 then .info
  else if 200 ≤ code ∧ code < 300 then .success
  else if 300 ≤ code ∧ code < 400 then .redirect
  else if 400 ≤ code ∧ code < 500 then .clientErr
  else if 500 ≤ code ∧ code < 600 then .serverErr
  else .notSet

def isMalformedRequest (text : List Char) : Bool :=
  text.length < 4 || !(text.head?.any Char.isUpper) || !strstr text "RTSP/1.0".toList

def isMalformedResponse (text : List Char) : Bool := text.length < 12 || text.take 9 != "RTSP/1.0 ".toList

/-- The headers both builders look at, with the values they have before any is seen. -/
structure Headers where
  cseq : Int32 := -1
  hasSession : Bool := false
  sessionId : List Char := []
  transport : Transport := {}
  deriving DecidableEq, Repr

def Headers.read (headers : Headers) (line : List Char) : Headers :=
  if startsWith line "CSeq:" then { headers with cseq := parseCseq line }
  else if startsWith line "Session:" then { headers with hasSession := true, sessionId := parseSession line }
  else if startsWith line "Transport:" then { headers with transport := parseTransport line }
  else headers

/-- The first line of a message and the headers behind it. -/
def parseMessage (text : List Char) : List Char × Headers :=
  let (line, rest) := extractLine lineRoom text
  (line, (headerLines rest).foldl Headers.read {})

/-- What a line says about the message it is printed for, next to the session. -/
structure Message where
  method : Method
  statusClass : StatusClass := .notSet
  reqCseq : Int32
  respCseq : Int32 := -1
  respStatusCode : Int32 := 0
  reqMalformed : Bool := false
  respMalformed : Bool := false
  cseqMatch : Bool := false
  reqHasSession : Bool
  respHasSession : Bool := false
  sessionIdMatch : Bool
  sessionIdChanged : Bool := false
  teardownForExisting : Bool
  teardownWithoutSession : Bool
  transportReqUdp : Bool
  transportReqTcp : Bool
  transportRespUdp : Bool := false
  transportRespTcp : Bool := false
  transportClientPorts : Bool
  transportServerPorts : Bool := false
  keepaliveGetparam : Bool := false
  keepaliveFailed : Bool := false
  timeout : Bool := false

def Message.predicates (message : Message) (session : Session) : List Field :=
  [("rtsp_method", message.method.text), ("status_class", message.statusClass.text),
    ("req_cseq", toString message.reqCseq.toInt), ("resp_cseq", toString message.respCseq.toInt),
    ("resp_status_code", toString message.respStatusCode.toInt), ("req_malformed", boolToString message.reqMalformed),
    ("resp_malformed", boolToString message.respMalformed), ("cseq_match", boolToString message.cseqMatch),
    ("req_has_session", boolToString message.reqHasSession), ("resp_has_session", boolToString message.respHasSession),
    ("session_established", boolToString session.sessionEstablished),
    ("session_id_match", boolToString message.sessionIdMatch),
    ("session_id_changed", boolToString message.sessionIdChanged),
    ("teardown_for_existing_session", boolToString message.teardownForExisting),
    ("teardown_without_session", boolToString message.teardownWithoutSession),
    ("transport_req_udp", boolToString message.transportReqUdp),
    ("transport_req_tcp", boolToString message.transportReqTcp),
    ("transport_resp_udp", boolToString message.transportRespUdp),
    ("transport_resp_tcp", boolToString message.transportRespTcp),
    ("transport_client_ports_present", boolToString message.transportClientPorts),
    ("transport_server_ports_present", boolToString message.transportServerPorts),
    ("setup_success_count", toString session.setupSuccessCount.toInt),
    ("play_success_count", toString session.playSuccessCount.toInt),
    ("all_tracks_setup", boolToString (session.totalTracks > 0 && session.setupSuccessCount ≥ session.totalTracks)),
    ("keepalive_getparam", boolToString message.keepaliveGetparam),
    ("keepalive_failed", boolToString message.keepaliveFailed), ("timeout", boolToString message.timeout)]

def Session.initialized (session : Session) : Session := if session.sessionInitialized then session else resetSession

def buildRequestPredLine (session : Session) (packet : Packet) : List Field × Session :=
  let session := session.initialized
  let reqMalformed := isMalformedRequest packet.text
  let (method, headers) : Method × Headers :=
    if reqMalformed then (.notSet, {})
    else
      let (line, headers) := parseMessage packet.text
      (parseRequestMethod line, headers)
  let session :=
    { session with
      lastReqCseq := headers.cseq
      lastReqMethod := method
      lastReqHasSession := headers.hasSession
      lastReqSessionId := headers.sessionId
      lastReqTransportUdp := headers.transport.hasUdp
      lastReqTransportTcp := headers.transport.hasTcp
      lastReqClientPorts := headers.transport.hasClientPorts }
  let sessionIdMatch := session.sessionEstablished && headers.hasSession && headers.sessionId == session.sessionId
  let isTeardown := method.text == "TEARDOWN"
  let message : Message :=
    { method
      reqCseq := headers.cseq
      reqMalformed
      reqHasSession := headers.hasSession
      sessionIdMatch
      teardownForExisting := isTeardown && headers.hasSession && session.sessionEstablished && sessionIdMatch
      teardownWithoutSession := isTeardown && !headers.hasSession
      transportReqUdp := headers.transport.hasUdp
      transportReqTcp := headers.transport.hasTcp
      transportClientPorts := headers.transport.hasClientPorts
      keepaliveGetparam := !reqMalformed && method.text == "GET_PARAMETER" && headers.hasSession }
  (message.predicates session, session)

/-- The state after a reply of this class, and whether it changed the session's name. -/
def Session.afterResponse (session : Session) (statusClass : StatusClass) (headers : Headers) : Bool × Session :=
  let isSuccess := statusClass.text == "SUCCESS"
  let isSetup := session.lastReqMethod.text == "SETUP" && isSuccess && headers.hasSession
  let sessionIdChanged := isSetup && session.sessionEstablished && session.sessionId != headers.sessionId
  let session :=
    if isSetup then
      let session :=
        if session.sessionEstablished then session
        else { session with sessionId := headers.sessionId, sessionEstablished := true, totalTracks := 1 }
      { session with setupSuccessCount := session.setupSuccessCount + 1 }
    else session
  let session :=
    if session.lastReqMethod.text == "PLAY" && isSuccess then
      { session with playSuccessCount := session.playSuccessCount + 1 }
    else session
  (sessionIdChanged, session)

def buildResponsePredLine (session : Session) (packet : Packet) : List Field × Session :=
  let session := session.initialized
  let respMalformed := isMalformedResponse packet.text
  let timeout := packet.bytes.isEmpty
  let (respStatusCode, headers) : Int32 × Headers :=
    if respMalformed then (0, {})
    else
      let (line, headers) := parseMessage packet.text
      (parseResponseStatus line, headers)
  let statusClass := getStatusClass respStatusCode
  let cseqMatch := session.lastReqCseq > 0 && headers.cseq > 0 && session.lastReqCseq == headers.cseq
  let (sessionIdChanged, session) := session.afterResponse statusClass headers
  let sessionIdMatch :=
    session.lastReqHasSession && session.sessionEstablished && session.lastReqSessionId == session.sessionId
  let isTeardown := session.lastReqMethod.text == "TEARDOWN"
  let message : Message :=
    { method := session.lastReqMethod
      statusClass
      reqCseq := session.lastReqCseq
      respCseq := headers.cseq
      respStatusCode
      respMalformed
      cseqMatch
      reqHasSession := session.lastReqHasSession
      respHasSession := headers.hasSession
      sessionIdMatch
      sessionIdChanged
      teardownForExisting := isTeardown && session.lastReqHasSession && session.sessionEstablished && sessionIdMatch
      teardownWithoutSession := isTeardown && !session.lastReqHasSession
      transportReqUdp := session.lastReqTransportUdp
      transportReqTcp := session.lastReqTransportTcp
      transportRespUdp := headers.transport.hasUdp
      transportRespTcp := headers.transport.hasTcp
      transportClientPorts := session.lastReqClientPorts
      transportServerPorts := headers.transport.hasServerPorts
      keepaliveFailed := session.lastReqMethod.text == "GET_PARAMETER" && session.lastReqHasSession &&
        (timeout || statusClass.text == "CLIENT_ERR" || statusClass.text == "SERVER_ERR")
      timeout }
  let session :=
    if isTeardown && statusClass.text == "SUCCESS" then { session with sessionEstablished := false } else session
  (message.predicates session, session)

def adapter : PredicateAdapter Session where
  start := {}
  resetSession := resetSession
  build
    | .c2s => buildRequestPredLine
    | .s2c => buildResponsePredLine
  appendsTrace _ := true
  resetsMessageId := false

section Specification

def rtspMethod : Identifier := ⟨"rtsp_method", by decide⟩
def statusClass : Identifier := ⟨"status_class", by decide⟩
def scSuccess : Identifier := ⟨"scSUCCESS", by decide⟩
def respStatusCode : Identifier := ⟨"resp_status_code", by decide⟩
def setupSuccessCount : Identifier := ⟨"setup_success_count", by decide⟩
def playSuccessCount : Identifier := ⟨"play_success_count", by decide⟩

def isTrue (flag : String) (valid : isIdentifier flag = true) : Formula := .predicates ⟨⟨flag, valid⟩, .eq, .true⟩

def isFalse (flag : String) (valid : isIdentifier flag = true) : Formula := .predicates ⟨⟨flag, valid⟩, .eq, .false⟩

def isMethod (value : String) (valid : isIdentifier value = true) : Formula :=
  .predicates ⟨rtspMethod, .eq, .id ⟨value, valid⟩⟩

def succeeded : Formula := .predicates ⟨statusClass, .eq, .id scSuccess⟩
def isPlay : Formula := isMethod "mPLAY" (by decide)
def isTeardown : Formula := isMethod "mTEARDOWN" (by decide)
def isSetup : Formula := isMethod "mSETUP" (by decide)
def established : Formula := isTrue "session_established" (by decide)

/-- `H((timeout=false & resp_malformed=false & …) -> …)`. -/
def rule (conditions : List Formula) (conclusion : Formula) : Formula :=
  .h <| .paren <| .arrow
    (.paren (.conjunction (isFalse "timeout" (Eq.refl true)) (isFalse "resp_malformed" (Eq.refl true) :: conditions))) conclusion

/-- `rtsp.txt`. -/
def tree : SpecTree where
  declaration := .enumeration "rtsp_method" "mNotSet"
    ["mOPTIONS", "mDESCRIBE", "mSETUP", "mPLAY", "mPAUSE", "mTEARDOWN", "mANNOUNCE", "mGET_PARAMETER", "mSET_PARAMETER",
      "mREDIRECT", "mRECORD"] (by decide +kernel)
  declarations :=
    .enumeration "status_class" "scNotSet" ["scINFO", "scSUCCESS", "scREDIRECT", "scCLIENT_ERR", "scSERVER_ERR"]
      (by decide +kernel) ::
    (identifiers ["req_cseq", "resp_cseq", "resp_status_code"] (by decide +kernel)).map .int ++
    (identifiers ["req_malformed", "resp_malformed", "cseq_match", "resp_has_session", "session_established", "timeout",
      "req_has_session", "session_id_match", "session_id_changed", "teardown_for_existing_session",
      "teardown_without_session", "transport_req_udp", "transport_req_tcp", "transport_resp_udp", "transport_resp_tcp",
      "transport_client_ports_present", "transport_server_ports_present"] (by decide +kernel)).map .bool ++
    (identifiers ["setup_success_count", "play_success_count"] (by decide +kernel)).map .int ++
    (identifiers ["all_tracks_setup", "keepalive_getparam", "keepalive_failed"] (by decide +kernel)).map .bool
  formula := rule [succeeded]
    (.paren (.and (.predicates ⟨respStatusCode, .gte, .int 200⟩) (.predicates ⟨respStatusCode, .lt, .int 300⟩)))
  formulas :=
    [rule [isPlay, isFalse "session_established" (by decide)] (.paren (.predicates ⟨statusClass, .neq, .id scSuccess⟩)),
      rule [isTeardown, isTrue "teardown_without_session" (by decide)] (.not (.paren succeeded)),
      rule [established] (.paren (isFalse "session_id_changed" (by decide))),
      rule [established, isTrue "req_has_session" (by decide), .paren (.or isPlay isTeardown)]
        (.paren (isTrue "session_id_match" (by decide))),
      rule [isTeardown, succeeded] (.paren (isTrue "teardown_for_existing_session" (by decide))),
      rule [succeeded] (.paren (isTrue "cseq_match" (by decide))),
      rule [isSetup, succeeded] (.paren (isTrue "resp_has_session" (by decide))),
      rule [isTrue "resp_has_session" (by decide)] (.paren succeeded),
      rule [isSetup, succeeded, isTrue "transport_req_udp" (by decide)]
        (.paren (isFalse "transport_resp_tcp" (by decide))),
      rule [isSetup, succeeded, isTrue "transport_req_tcp" (by decide)] (.paren (isTrue "transport_resp_tcp" (by decide))),
      rule [isSetup, succeeded, isTrue "transport_resp_udp" (by decide)]
        (.paren (isTrue "transport_server_ports_present" (by decide))),
      rule [] (.paren (.predicates ⟨playSuccessCount, .lte, .id setupSuccessCount⟩))]

def shapes : List (String × Shape) :=
  [("rtsp_method", .enum (Method.all.map Method.text)), ("status_class", .enum (StatusClass.all.map StatusClass.text)),
    ("req_cseq", .int 31), ("resp_cseq", .int 31), ("resp_status_code", .int 31), ("req_malformed", .bool),
    ("resp_malformed", .bool), ("cseq_match", .bool), ("req_has_session", .bool), ("resp_has_session", .bool),
    ("session_established", .bool), ("session_id_match", .bool), ("session_id_changed", .bool),
    ("teardown_for_existing_session", .bool), ("teardown_without_session", .bool), ("transport_req_udp", .bool),
    ("transport_req_tcp", .bool), ("transport_resp_udp", .bool), ("transport_resp_tcp", .bool),
    ("transport_client_ports_present", .bool), ("transport_server_ports_present", .bool), ("setup_success_count", .int 31),
    ("play_success_count", .int 31), ("all_tracks_setup", .bool), ("keepalive_getparam", .bool),
    ("keepalive_failed", .bool), ("timeout", .bool)]

theorem shapes_fit : fits shapes tree = true := by decide +kernel

private theorem predicates_match (message : Message) (session : Session) :
    Matches shapes (message.predicates session) := by
  have method : (Shape.enum (Method.all.map Method.text)).Admits message.method.text :=
    List.mem_map_of_mem (by cases message.method <;> decide)
  have status : (Shape.enum (StatusClass.all.map StatusClass.text)).Admits message.statusClass.text :=
    List.mem_map_of_mem (by cases message.statusClass <;> decide)
  simp only [shapes, Message.predicates, matches_cons, matches_nil, and_true, Shape.admits_bool, Shape.admits_int32, method,
    status]

theorem build_matches (direction : Direction) (session : Session) (packet : Packet) :
    Matches shapes (adapter.build direction session packet).1 := by
  cases direction with
  | c2s => exact predicates_match _ _
  | s2c => exact predicates_match _ _

end Specification

end LtlFuzz.Adapter.Rtsp

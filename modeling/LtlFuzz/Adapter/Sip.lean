import LtlFuzz.Adapter.Conformance

/-! `sip_predicate_adapter.c` and the specification `kamailio.txt` it prints for. The
headers are looked up in the memory the message lies in, line by line; a zero byte in front
of the header stops the search where it is, and the call does not return. -/

namespace LtlFuzz.Adapter.Sip
open Monitor Monitor.Grammar
open Text (isSpace strstr equalIgnoringCase)

inductive Method where
  | notSet | invite | ack | bye | cancel | register | options | prack | subscribe | notify | publish | info | refer
  | message | update
  deriving DecidableEq, Repr

def Method.all : List Method :=
  [.notSet, .invite, .ack, .bye, .cancel, .register, .options, .prack, .subscribe, .notify, .publish, .info, .refer,
    .message, .update]

def Method.text : Method → String
  | .notSet => "mNotSet"
  | .invite => "mINVITE"
  | .ack => "mACK"
  | .bye => "mBYE"
  | .cancel => "mCANCEL"
  | .register => "mREGISTER"
  | .options => "mOPTIONS"
  | .prack => "mPRACK"
  | .subscribe => "mSUBSCRIBE"
  | .notify => "mNOTIFY"
  | .publish => "mPUBLISH"
  | .info => "mINFO"
  | .refer => "mREFER"
  | .message => "mMESSAGE"
  | .update => "mUPDATE"

def methodNames : List (String × Method) :=
  [("INVITE", .invite), ("ACK", .ack), ("BYE", .bye), ("CANCEL", .cancel), ("REGISTER", .register), ("OPTIONS", .options),
    ("PRACK", .prack), ("SUBSCRIBE", .subscribe), ("NOTIFY", .notify), ("PUBLISH", .publish), ("INFO", .info),
    ("REFER", .refer), ("MESSAGE", .message), ("UPDATE", .update)]

inductive StatusClass where
  | notSet | provisional | success | redirection | clientError | serverError | globalError
  deriving DecidableEq, Repr

def StatusClass.all : List StatusClass :=
  [.notSet, .provisional, .success, .redirection, .clientError, .serverError, .globalError]

def StatusClass.text : StatusClass → String
  | .notSet => "scNotSet"
  | .provisional => "scProvisional"
  | .success => "scSuccess"
  | .redirection => "scRedirection"
  | .clientError => "scClientError"
  | .serverError => "scServerError"
  | .globalError => "scGlobalError"

/-- `g_sip_state`, without the members that are written and never read, but for the Call-ID.
The method is the empty text until a request or a reset sets it. -/
structure Session where
  dialogEstablished : Bool := false
  dialogTerminated : Bool := false
  earlyDialog : Bool := false
  transactionPending : Bool := false
  finalResponseSent : Bool := false
  provisionalSent : Bool := false
  inviteInProgress : Bool := false
  inviteSent : Bool := false
  inviteReceived : Bool := false
  ackSent : Bool := false
  byeSent : Bool := false
  cancelSent : Bool := false
  registerSent : Bool := false
  registered : Bool := false
  authRequired : Bool := false
  authProvided : Bool := false
  callId : List Char := []
  cseqNumber : Int32 := 0
  lastMethod : Option Method := none
  connectionClosed : Bool := false
  deriving DecidableEq, Repr

def start : Session := {}

def resetSession : Session := { lastMethod := some .notSet }

def lastMethodText (session : Session) : String := (session.lastMethod.map Method.text).getD ""

/-- The message as a C string: what stands before the first zero byte, in the message or
behind it. -/
def bufferString (packet : Packet) : List Char := cString (packet.text ++ packet.beyond.map charOfByte)

def isLineEnd (c : Char) : Bool := c == '\r' || c == '\n'

def skipOne (c : Char) (rest : List Char) : List Char := if rest.head? = some c then rest.tail else rest

def skipLine (p : List Char) : List Char :=
  skipOne '\n' (skipOne '\r' (p.dropWhile fun c => c != '\x00' && !isLineEnd c))

def extractMethod (text : List Char) : List Char := cString ((text.takeWhile (· != ' ')).take 31)

def mapSipMethod (method : List Char) : Method :=
  match methodNames.find? fun entry => method == entry.1.toList with
  | some entry => entry.2
  | none => .notSet

def hasStatusCode (text : List Char) : Bool :=
  text.length ≥ 12 && text.take 8 == "SIP/2.0 ".toList && ((text.drop 8).take 3).all Char.isDigit

def digitValue (c : Char) : Nat := c.toNat - '0'.toNat

def extractResponseCode (text : List Char) : Nat :=
  if hasStatusCode text then
    digitValue (text.getD 8 '0') * 100 + digitValue (text.getD 9 '0') * 10 + digitValue (text.getD 10 '0')
  else 0

def mapStatusClass (code : Nat) : StatusClass :=
  if code = 0 then .notSet
  else if 100 ≤ code ∧ code < 200 then .provisional
  else if 200 ≤ code ∧ code < 300 then .success
  else if 300 ≤ code ∧ code < 400 then .redirection
  else if 400 ≤ code ∧ code < 500 then .clientError
  else if 500 ≤ code ∧ code < 600 then .serverError
  else if 600 ≤ code ∧ code < 700 then .globalError
  else .notSet

/-- What `find_header` copies from the place behind the colon: the rest of the line, up to
255 characters and not past the message, which ends where `beyond` characters are left. -/
def copyValue (beyond : Nat) (p : List Char) : List Char :=
  let p := p.dropWhile isSpace
  ((p.take (p.length - beyond)).takeWhile fun c => !isLineEnd c).take 255

/-- The loop of `find_header`, with `p` and what follows it in memory. It is left with the
value or without one; where a line cannot be skipped it is not left at all. -/
def findHeaderFrom (headerName : String) (beyond : Nat) (p : List Char) : Option (Option (List Char)) :=
  if p.length ≤ beyond then some none
  else if p.head?.any isLineEnd then some none
  else if equalIgnoringCase (p.take headerName.toList.length) headerName.toList &&
      p[headerName.toList.length]? == some ':' then
    some (some (copyValue beyond (p.drop (headerName.toList.length + 1))))
  else if (skipLine p).length < p.length then findHeaderFrom headerName beyond (skipLine p)
  else none
termination_by p.length

def findHeader (packet : Packet) (headerName : String) : Option (Option (List Char)) :=
  findHeaderFrom headerName packet.beyond.length (skipLine (packet.text ++ packet.beyond.map charOfByte))

def isMalformedRequest (packet : Packet) : Bool :=
  let missing (name other : String) :=
    !strstr (bufferString packet) name.toList && !strstr (bufferString packet) other.toList
  packet.bytes.length < 10 || !(packet.text.head?.any Char.isAlpha) || !strstr (bufferString packet) "SIP/2.0".toList ||
    missing "Via:" "via:" || missing "Call-ID:" "call-id:" || missing "CSeq:" "cseq:"

def isMalformedResponse (text : List Char) : Bool := !hasStatusCode text

/-- The text behind the first occurrence, if there is one. -/
def behind (needle : List Char) : List Char → Option (List Char)
  | [] => none
  | c :: rest => if needle.isPrefixOf (c :: rest) then some ((c :: rest).drop needle.length) else behind needle rest

def extractTag (headerValue : List Char) : List Char :=
  match behind "tag=".toList (cString headerValue) with
  | none => []
  | some p => (p.takeWhile fun c => c != ';' && c != ' ' && !isLineEnd c).take 63

def atoiHeader (value : List Char) : Int32 := Int32.ofInt (Text.atoi (cString value))

inductive DialogState where
  | none | early | confirmed | terminated
  deriving DecidableEq, Repr

def DialogState.all : List DialogState := [.none, .early, .confirmed, .terminated]

def DialogState.text : DialogState → String
  | .none => "dsNone"
  | .early => "dsEarly"
  | .confirmed => "dsConfirmed"
  | .terminated => "dsTerminated"

inductive TransactionState where
  | none | proceeding | completed
  deriving DecidableEq, Repr

def TransactionState.all : List TransactionState := [.none, .proceeding, .completed]

def TransactionState.text : TransactionState → String
  | .none => "tsNone"
  | .proceeding => "tsProceeding"
  | .completed => "tsCompleted"

inductive RegistrationState where
  | notRegistered | registering | registered
  deriving DecidableEq, Repr

def RegistrationState.all : List RegistrationState := [.notRegistered, .registering, .registered]

def RegistrationState.text : RegistrationState → String
  | .notRegistered => "rsNotRegistered"
  | .registering => "rsRegistering"
  | .registered => "rsRegistered"

def Session.dialogState (session : Session) : DialogState :=
  if session.dialogTerminated then .terminated
  else if session.dialogEstablished then .confirmed
  else if session.earlyDialog then .early
  else .none

def Session.registrationState (session : Session) : RegistrationState :=
  if session.registered then .registered else if session.registerSent then .registering else .notRegistered

/-- What a line says about the message it is printed for, next to the session. -/
structure Message where
  method : String
  statusClass : StatusClass := .notSet
  respCode : Nat := 0
  cseqNumber : Int32
  expiresValue : Int32 := 3600
  maxForwards : Int32 := 70
  contentLength : Int32
  reqMalformed : Bool := false
  respMalformed : Bool := false
  hasToTag : Bool
  hasFromTag : Bool := true
  hasCallId : Bool := true
  hasCseq : Bool := true
  hasVia : Bool := true
  hasContact : Bool
  hasSdp : Bool
  timeout : Bool := false
  methodRequiresDialog : Bool := false
  methodCreatesDialog : Bool := false
  transactionState : TransactionState

def Message.predicates (message : Message) (session : Session) : List Field :=
  [("sip_method", message.method), ("sip_status_class", message.statusClass.text),
    ("resp_code", toString (message.respCode : Int)), ("cseq_number", toString message.cseqNumber.toInt),
    ("expires_value", toString message.expiresValue.toInt), ("max_forwards", toString message.maxForwards.toInt),
    ("content_length", toString message.contentLength.toInt), ("retry_after", toString (0 : Int)),
    ("req_malformed", boolToString message.reqMalformed), ("resp_malformed", boolToString message.respMalformed),
    ("has_to_tag", boolToString message.hasToTag), ("has_from_tag", boolToString message.hasFromTag),
    ("has_call_id", boolToString message.hasCallId), ("has_cseq", boolToString message.hasCseq),
    ("has_via", boolToString message.hasVia), ("has_contact", boolToString message.hasContact),
    ("has_sdp", boolToString message.hasSdp), ("timeout", boolToString message.timeout),
    ("connection_closed", boolToString session.connectionClosed),
    ("dialog_established", boolToString session.dialogEstablished),
    ("dialog_terminated", boolToString session.dialogTerminated), ("early_dialog", boolToString session.earlyDialog),
    ("invite_sent", boolToString session.inviteSent), ("invite_received", boolToString session.inviteReceived),
    ("ack_sent", boolToString session.ackSent), ("bye_sent", boolToString session.byeSent),
    ("cancel_sent", boolToString session.cancelSent), ("transaction_pending", boolToString session.transactionPending),
    ("final_response_sent", boolToString session.finalResponseSent),
    ("provisional_sent", boolToString session.provisionalSent), ("retransmission", boolToString false),
    ("register_sent", boolToString session.registerSent), ("registered", boolToString session.registered),
    ("auth_required", boolToString session.authRequired), ("auth_provided", boolToString session.authProvided),
    ("invite_in_progress", boolToString session.inviteInProgress),
    ("method_requires_dialog", boolToString message.methodRequiresDialog),
    ("method_creates_dialog", boolToString message.methodCreatesDialog), ("cseq_matches", boolToString true),
    ("callid_matches", boolToString true), ("to_tag_matches", boolToString true), ("from_tag_matches", boolToString true),
    ("via_matches", boolToString true), ("dialog_state", session.dialogState.text),
    ("transaction_state", message.transactionState.text), ("registration_state", session.registrationState.text)]

def numberOr (default : Int32) : Option (List Char) → Int32
  | some value => atoiHeader value
  | none => default

def hasTag (header : Option (List Char)) : Bool := (header.map extractTag).any (· != [])

def Session.afterRequest (session : Session) (method : Method) (hasAuth : Bool) : Session :=
  match method with
  | .invite => { session with inviteSent := true, inviteInProgress := true }
  | .ack => { session with ackSent := true }
  | .bye => { session with byeSent := true }
  | .cancel => { session with cancelSent := true }
  | .register => { session with registerSent := true, authProvided := hasAuth }
  | _ => session

def findAuthorization (packet : Packet) : Option Bool := do
  let authorization ← findHeader packet "Authorization"
  if authorization.isSome then some true else (findHeader packet "Proxy-Authorization").map Option.isSome

/-- The number of the request and its Call-ID are read from the last of the four headers that
was found, as they are copied to the same place. -/
def buildRequestPredLine (session : Session) (packet : Packet) : Option (List Field × Session) := do
  let method := mapSipMethod (extractMethod packet.text)
  let session := { session with lastMethod := some method }
  let via ← findHeader packet "Via"
  let cseq ← findHeader packet "CSeq"
  let callId ← findHeader packet "Call-ID"
  let contact ← findHeader packet "Contact"
  let headerValue := (contact.or (callId.or (cseq.or via))).getD []
  let cseqNum := if cseq.isSome then atoiHeader headerValue else 0
  let session := if cseq.isSome then { session with cseqNumber := cseqNum } else session
  let session := if callId.isSome then { session with callId := (cString headerValue).take 127 } else session
  let fromHeader ← findHeader packet "From"
  let toHeader ← findHeader packet "To"
  let expires := numberOr 3600 (← findHeader packet "Expires")
  let maxForwards := numberOr 70 (← findHeader packet "Max-Forwards")
  let contentLength := numberOr 0 (← findHeader packet "Content-Length")
  let hasAuth ← findAuthorization packet
  let session := session.afterRequest method hasAuth
  let message : Message :=
    { method := method.text
      cseqNumber := cseqNum
      expiresValue := expires
      maxForwards
      contentLength
      reqMalformed := isMalformedRequest packet
      hasToTag := hasTag toHeader
      hasFromTag := hasTag fromHeader
      hasCallId := callId.isSome
      hasCseq := cseq.isSome
      hasVia := via.isSome
      hasContact := contact.isSome
      hasSdp := contentLength > 0 && strstr (bufferString packet) "application/sdp".toList
      methodRequiresDialog := method == .bye || method == .update
      methodCreatesDialog := method == .invite || method == .subscribe
      transactionState := if session.transactionPending then .proceeding else .none }
  return (message.predicates session, session)

def Session.afterResponse (session : Session) (respCode : Nat) (hasToTag : Bool) : Session :=
  if 100 ≤ respCode ∧ respCode < 200 then
    { session with
      transactionPending := true
      provisionalSent := true
      earlyDialog := session.earlyDialog || (hasToTag && session.lastMethod == some .invite) }
  else if 200 ≤ respCode then
    let session := { session with finalResponseSent := true, transactionPending := false }
    if respCode = 200 then
      match session.lastMethod with
      | some .invite => { session with dialogEstablished := true, inviteInProgress := false }
      | some .register => { session with registered := true, authRequired := false }
      | some .bye => { session with dialogTerminated := true, dialogEstablished := false }
      | _ => session
    else if respCode = 401 ∨ respCode = 407 then { session with authRequired := true }
    else if respCode = 487 then { session with inviteInProgress := false }
    else session
  else session

def buildResponsePredLine (session : Session) (packet : Packet) : Option (List Field × Session) := do
  let respCode := extractResponseCode packet.text
  let toHeader ← findHeader packet "To"
  let contentLength := numberOr 0 (← findHeader packet "Content-Length")
  let session := session.afterResponse respCode (hasTag toHeader)
  let message : Message :=
    { method := lastMethodText session
      statusClass := mapStatusClass respCode
      respCode
      cseqNumber := session.cseqNumber
      contentLength
      respMalformed := isMalformedResponse packet.text
      hasToTag := hasTag toHeader
      hasContact := respCode == 200
      hasSdp := contentLength > 0 && strstr (bufferString packet) "application/sdp".toList
      timeout := packet.bytes.isEmpty
      transactionState :=
        if session.finalResponseSent then .completed else if session.transactionPending then .proceeding else .none }
  return (message.predicates session, session)

def build : Direction → Session → Packet → Option (List Field × Session)
  | .c2s => buildRequestPredLine
  | .s2c => buildResponsePredLine

/-- The lines printed for the inputs, up to the first call that does not return. -/
def lines (session : Session) : List Input → List (List Char)
  | [] => []
  | .reset :: inputs => lines resetSession inputs
  | .packet direction packet :: inputs =>
    match build direction session packet with
    | none => []
    | some (fields, session) => snprintf predLineSize (predicateText fields) :: lines session inputs

section Specification

def timeout : Identifier := ⟨"timeout", Eq.refl true⟩
def respCode : Identifier := ⟨"resp_code", rfl⟩
def reqMalformed : Identifier := ⟨"req_malformed", rfl⟩
def sipStatusClass : Identifier := ⟨"sip_status_class", rfl⟩
def scSuccess : Identifier := ⟨"scSuccess", rfl⟩
def respMalformed : Identifier := ⟨"resp_malformed", rfl⟩
def sipMethod : Identifier := ⟨"sip_method", rfl⟩
def mNotSet : Identifier := ⟨"mNotSet", rfl⟩
def hasVia : Identifier := ⟨"has_via", rfl⟩
def hasCseq : Identifier := ⟨"has_cseq", rfl⟩
def hasCallId : Identifier := ⟨"has_call_id", rfl⟩
def mAck : Identifier := ⟨"mACK", rfl⟩
def maxForwards : Identifier := ⟨"max_forwards", rfl⟩
def scProvisional : Identifier := ⟨"scProvisional", rfl⟩
def scRedirection : Identifier := ⟨"scRedirection", rfl⟩
def scClientError : Identifier := ⟨"scClientError", rfl⟩
def scServerError : Identifier := ⟨"scServerError", rfl⟩
def scGlobalError : Identifier := ⟨"scGlobalError", rfl⟩
def mInvite : Identifier := ⟨"mINVITE", rfl⟩
def methodCreatesDialog : Identifier := ⟨"method_creates_dialog", rfl⟩
def ackSent : Identifier := ⟨"ack_sent", rfl⟩
def hasSdp : Identifier := ⟨"has_sdp", rfl⟩
def hasToTag : Identifier := ⟨"has_to_tag", rfl⟩
def earlyDialog : Identifier := ⟨"early_dialog", rfl⟩
def dialogEstablished : Identifier := ⟨"dialog_established", rfl⟩
def hasFromTag : Identifier := ⟨"has_from_tag", rfl⟩
def mBye : Identifier := ⟨"mBYE", rfl⟩
def dialogTerminated : Identifier := ⟨"dialog_terminated", rfl⟩
def mInfo : Identifier := ⟨"mINFO", rfl⟩
def mUpdate : Identifier := ⟨"mUPDATE", rfl⟩
def callidMatches : Identifier := ⟨"callid_matches", rfl⟩
def toTagMatches : Identifier := ⟨"to_tag_matches", rfl⟩
def fromTagMatches : Identifier := ⟨"from_tag_matches", rfl⟩
def mCancel : Identifier := ⟨"mCANCEL", rfl⟩
def inviteInProgress : Identifier := ⟨"invite_in_progress", rfl⟩
def finalResponseSent : Identifier := ⟨"final_response_sent", rfl⟩
def mRegister : Identifier := ⟨"mREGISTER", rfl⟩
def hasContact : Identifier := ⟨"has_contact", rfl⟩
def authRequired : Identifier := ⟨"auth_required", rfl⟩
def authProvided : Identifier := ⟨"auth_provided", rfl⟩
def expiresValue : Identifier := ⟨"expires_value", rfl⟩
def registered : Identifier := ⟨"registered", rfl⟩
def cseqMatches : Identifier := ⟨"cseq_matches", rfl⟩
def transactionPending : Identifier := ⟨"transaction_pending", rfl⟩
def provisionalSent : Identifier := ⟨"provisional_sent", rfl⟩
def mOptions : Identifier := ⟨"mOPTIONS", rfl⟩
def contentLength : Identifier := ⟨"content_length", rfl⟩
def connectionClosed : Identifier := ⟨"connection_closed", rfl⟩
def retransmission : Identifier := ⟨"retransmission", rfl⟩
def mSubscribe : Identifier := ⟨"mSUBSCRIBE", rfl⟩
def mNotify : Identifier := ⟨"mNOTIFY", rfl⟩
def mMessage : Identifier := ⟨"mMESSAGE", rfl⟩
def methodRequiresDialog : Identifier := ⟨"method_requires_dialog", rfl⟩

/-- `H(left -> right)`. -/
def rule (left right : Formula) : Formula := .h (.paren (.arrow left right))

/-- `resp_code = code`. -/
def answered (code : Int) : Formula := respCode.compare .eq code

/-- `kamailio.txt`. -/
def tree : SpecTree where
  declaration := .enum sipMethod mNotSet
    [mInvite, mAck, mBye, mCancel, mRegister, mOptions, ⟨"mPRACK", rfl⟩, mSubscribe, mNotify, ⟨"mPUBLISH", rfl⟩,
      mInfo, ⟨"mREFER", rfl⟩, mMessage, mUpdate]
  declarations :=
    [.enum sipStatusClass ⟨"scNotSet", rfl⟩
      [scProvisional, scSuccess, scRedirection, scClientError, scServerError, scGlobalError],
      .enum ⟨"dialog_state", rfl⟩ ⟨"dsNone", rfl⟩ [⟨"dsEarly", rfl⟩, ⟨"dsConfirmed", rfl⟩, ⟨"dsTerminated", rfl⟩],
      .enum ⟨"transaction_state", rfl⟩ ⟨"tsNone", rfl⟩
        [⟨"tsProceeding", rfl⟩, ⟨"tsCompleted", rfl⟩, ⟨"tsTerminated", rfl⟩],
      .enum ⟨"registration_state", rfl⟩ ⟨"rsNotRegistered", rfl⟩
        [⟨"rsRegistering", rfl⟩, ⟨"rsRegistered", rfl⟩, ⟨"rsUnregistering", rfl⟩],
      .int respCode, .int ⟨"cseq_number", rfl⟩, .int expiresValue, .int maxForwards, .int contentLength,
      .int ⟨"retry_after", rfl⟩, .bool reqMalformed, .bool respMalformed, .bool hasToTag, .bool hasFromTag,
      .bool hasCallId, .bool hasCseq, .bool hasVia, .bool hasContact, .bool hasSdp, .bool timeout,
      .bool connectionClosed, .bool dialogEstablished, .bool dialogTerminated, .bool earlyDialog,
      .bool ⟨"invite_sent", rfl⟩, .bool ⟨"invite_received", rfl⟩, .bool ackSent, .bool ⟨"bye_sent", rfl⟩,
      .bool ⟨"cancel_sent", rfl⟩, .bool transactionPending, .bool finalResponseSent, .bool provisionalSent,
      .bool retransmission, .bool ⟨"register_sent", rfl⟩, .bool registered, .bool authRequired, .bool authProvided,
      .bool inviteInProgress, .bool methodRequiresDialog, .bool methodCreatesDialog, .bool cseqMatches,
      .bool callidMatches, .bool toTagMatches, .bool fromTagMatches, .bool ⟨"via_matches", rfl⟩]
  formula := rule timeout.isTrue (answered 0)
  formulas :=
    [rule (respCode.compare .gt 0) timeout.isFalse,
      rule reqMalformed.isTrue (sipStatusClass.isNot scSuccess),
      rule respMalformed.isTrue (sipStatusClass.isNot scSuccess),
      rule (.paren (.and (sipMethod.isNot mNotSet) reqMalformed.isFalse))
        (.paren (.conjunction hasVia.isTrue [hasCseq.isTrue, hasCallId.isTrue])),
      rule (.paren (.and (respCode.compare .gt 0) respMalformed.isFalse))
        (.paren (.conjunction hasVia.isTrue [hasCseq.isTrue, hasCallId.isTrue])),
      rule (.paren (.and (sipMethod.isNot mNotSet) (sipMethod.isNot mAck))) (maxForwards.compare .gt 0),
      rule (sipStatusClass.is scProvisional) (.paren (.and (respCode.compare .gte 100) (respCode.compare .lt 200))),
      rule (sipStatusClass.is scSuccess) (.paren (.and (respCode.compare .gte 200) (respCode.compare .lt 300))),
      rule (sipStatusClass.is scRedirection) (.paren (.and (respCode.compare .gte 300) (respCode.compare .lt 400))),
      rule (sipStatusClass.is scClientError) (.paren (.and (respCode.compare .gte 400) (respCode.compare .lt 500))),
      rule (sipStatusClass.is scServerError) (.paren (.and (respCode.compare .gte 500) (respCode.compare .lt 600))),
      rule (sipStatusClass.is scGlobalError) (.paren (.and (respCode.compare .gte 600) (respCode.compare .lt 700))),
      rule (sipMethod.is mInvite) methodCreatesDialog.isTrue,
      rule (.paren (.and (sipMethod.is mInvite) (answered 200))) (.o (.paren (sipMethod.is mAck))),
      rule (.paren (.and (sipMethod.is mAck) ackSent.isTrue))
        (.y (.paren (.o (.paren (.and (sipMethod.is mInvite) (answered 200)))))),
      rule (sipMethod.is mAck) (.y (.paren (.o (.paren (sipMethod.is mInvite))))),
      rule (.paren (.conjunction (sipMethod.is mInvite) [hasSdp.isTrue, answered 200])) hasSdp.isTrue,
      rule (.paren (.conjunction (sipMethod.is mInvite) [sipStatusClass.is scProvisional, hasToTag.isTrue]))
        earlyDialog.isTrue,
      rule (.paren (.conjunction (sipMethod.is mInvite) [answered 200, hasToTag.isTrue])) dialogEstablished.isTrue,
      rule dialogEstablished.isTrue (.paren (.conjunction hasCallId.isTrue [hasFromTag.isTrue, hasToTag.isTrue])),
      rule (sipMethod.is mBye) dialogEstablished.isTrue,
      rule (.paren (.and (sipMethod.is mBye) (answered 200))) (.o (.paren dialogTerminated.isTrue)),
      rule (.paren (.and dialogEstablished.isTrue (sipMethod.is mInvite))) dialogEstablished.isFalse,
      rule
        (.paren (.and dialogEstablished.isTrue
          (.paren (.disjunction (sipMethod.is mBye) [sipMethod.is mInfo, sipMethod.is mUpdate]))))
        (.paren (.conjunction callidMatches.isTrue [toTagMatches.isTrue, fromTagMatches.isTrue])),
      rule dialogTerminated.isTrue
        (.not (.paren (.disjunction (sipMethod.is mBye) [sipMethod.is mInfo, sipMethod.is mUpdate]))),
      rule (sipMethod.is mCancel) (.y (.paren (.o (.paren (.and (sipMethod.is mInvite) inviteInProgress.isTrue))))),
      rule (.paren (.and (sipMethod.is mInvite) finalResponseSent.isTrue))
        (.not (.paren (.o (.paren (sipMethod.is mCancel))))),
      rule (.paren (.and (sipMethod.is mCancel) timeout.isFalse)) (answered 200),
      rule (.paren (.and (sipMethod.is mCancel) (answered 200)))
        (.o (.paren (.and (sipMethod.is mInvite) (answered 487)))),
      rule (sipMethod.is mRegister) hasContact.isTrue,
      rule (.paren (.and (sipMethod.is mRegister) (sipStatusClass.is scSuccess))) (answered 200),
      rule (.paren (.and (sipMethod.is mRegister) (.paren (.or (answered 401) (answered 407))))) authRequired.isTrue,
      rule (.paren (.conjunction (sipMethod.is mRegister) [authRequired.isTrue, authProvided.isTrue]))
        (.paren (.or (sipStatusClass.is scSuccess) (sipStatusClass.is scClientError))),
      rule (.paren (.conjunction (sipMethod.is mRegister) [expiresValue.compare .eq 0, registered.isTrue]))
        (answered 200),
      rule (.paren (.conjunction (sipMethod.is mRegister) [answered 200, expiresValue.compare .gt 0]))
        registered.isTrue,
      rule (sipMethod.isNot mNotSet) hasCseq.isTrue,
      rule (respCode.compare .gt 0) hasCseq.isTrue,
      rule (.paren (.and (respCode.compare .gt 0) (sipMethod.isNot mNotSet))) cseqMatches.isTrue,
      rule (.paren (.and (sipMethod.is mAck) ackSent.isFalse)) cseqMatches.isTrue,
      rule (.paren (.and (sipMethod.is mAck) ackSent.isTrue)) hasCseq.isTrue,
      rule (sipStatusClass.is scProvisional) transactionPending.isTrue,
      rule
        (.paren (.disjunction (sipStatusClass.is scSuccess)
          [sipStatusClass.is scRedirection, sipStatusClass.is scClientError, sipStatusClass.is scServerError,
            sipStatusClass.is scGlobalError]))
        finalResponseSent.isTrue,
      .h (.paren (.paren (.and (sipStatusClass.is scProvisional) provisionalSent.isTrue))),
      rule (.paren (.and finalResponseSent.isTrue (respCode.compare .gt 0)))
        (.not (.y (.paren finalResponseSent.isTrue))),
      rule (.paren (.and (sipMethod.is mOptions) timeout.isFalse))
        (.paren (.or (answered 200) (sipStatusClass.is scClientError))),
      rule (.paren (.and hasVia.isFalse (sipMethod.isNot mNotSet))) (answered 400),
      rule (.paren (.and hasCallId.isFalse (sipMethod.isNot mNotSet))) (answered 400),
      rule (.paren (.and (maxForwards.compare .eq 0) (sipMethod.isNot mNotSet))) (answered 483),
      rule (.paren (.and hasSdp.isTrue (contentLength.compare .eq 0))) (answered 400),
      rule (.paren (.and (sipMethod.is mNotSet) reqMalformed.isFalse)) (answered 501),
      .h (.paren (.paren (.and (.paren (.or (answered 401) (answered 407))) authRequired.isTrue))),
      rule timeout.isTrue connectionClosed.isFalse,
      rule (.paren (.and reqMalformed.isTrue timeout.isFalse)) (answered 400),
      rule (sipStatusClass.is scServerError) connectionClosed.isFalse,
      rule retransmission.isTrue (respCode.compare .gt 0),
      rule (.paren (.and (sipMethod.is mInvite) hasSdp.isTrue)) (contentLength.compare .gt 0),
      rule (.paren (.conjunction (sipMethod.is mInvite) [hasSdp.isTrue, answered 200])) hasSdp.isTrue,
      rule (.paren (.and (sipMethod.is mUpdate) hasSdp.isTrue)) dialogEstablished.isTrue,
      rule (sipMethod.is mSubscribe) methodCreatesDialog.isTrue,
      rule (sipMethod.is mNotify) (.y (.paren (.o (.paren (.and (sipMethod.is mSubscribe) (answered 200)))))),
      rule (.paren (.and (sipMethod.is mSubscribe) (answered 200))) (.o (.paren (sipMethod.is mNotify))),
      rule (sipMethod.is mMessage) (contentLength.compare .gt 0),
      rule (.paren (.and (sipMethod.is mMessage) (sipStatusClass.is scSuccess))) (answered 200),
      rule (sipMethod.is mMessage) methodRequiresDialog.isFalse]

/-- The fields of a line whose method is one of these texts. -/
def shapesOf (methods : List String) : List (String × Shape) :=
  [("sip_method", .enum methods), ("sip_status_class", .enum (StatusClass.all.map StatusClass.text)),
    ("resp_code", .int 31), ("cseq_number", .int 31), ("expires_value", .int 31), ("max_forwards", .int 31),
    ("content_length", .int 31), ("retry_after", .int 31), ("req_malformed", .bool), ("resp_malformed", .bool),
    ("has_to_tag", .bool), ("has_from_tag", .bool), ("has_call_id", .bool), ("has_cseq", .bool), ("has_via", .bool),
    ("has_contact", .bool), ("has_sdp", .bool), ("timeout", .bool), ("connection_closed", .bool),
    ("dialog_established", .bool), ("dialog_terminated", .bool), ("early_dialog", .bool), ("invite_sent", .bool),
    ("invite_received", .bool), ("ack_sent", .bool), ("bye_sent", .bool), ("cancel_sent", .bool),
    ("transaction_pending", .bool), ("final_response_sent", .bool), ("provisional_sent", .bool),
    ("retransmission", .bool), ("register_sent", .bool), ("registered", .bool), ("auth_required", .bool),
    ("auth_provided", .bool), ("invite_in_progress", .bool), ("method_requires_dialog", .bool),
    ("method_creates_dialog", .bool), ("cseq_matches", .bool), ("callid_matches", .bool), ("to_tag_matches", .bool),
    ("from_tag_matches", .bool), ("via_matches", .bool), ("dialog_state", .enum (DialogState.all.map DialogState.text)),
    ("transaction_state", .enum (TransactionState.all.map TransactionState.text)),
    ("registration_state", .enum (RegistrationState.all.map RegistrationState.text))]

def methodTexts : List String := Method.all.map Method.text

def shapes : List (String × Shape) := shapesOf methodTexts

theorem shapes_fill : fills shapes tree = true := by decide +kernel

theorem shapes_layout : Layout (shapesOf ("" :: methodTexts)) := by decide +kernel

theorem methodText_listed (method : Method) : method.text ∈ methodTexts :=
  List.mem_map_of_mem (by cases method <;> decide)

private theorem digitValue_le {c : Char} (digit : c.isDigit = true) : digitValue c ≤ 9 := by
  simp only [Char.isDigit, Bool.and_eq_true, decide_eq_true_eq] at digit
  have high : c.toNat ≤ '9'.toNat := digit.2
  have nine : '9'.toNat = 57 := rfl
  have zero : '0'.toNat = 48 := rfl
  unfold digitValue
  omega

theorem extractResponseCode_lt (text : List Char) : extractResponseCode text < 1000 := by
  unfold extractResponseCode
  split
  next status =>
    simp only [hasStatusCode, Bool.and_eq_true, List.all_eq_true, decide_eq_true_eq] at status
    have digit (k : Nat) (first : 8 ≤ k) (last : k < 11) : digitValue (text.getD k '0') ≤ 9 := by
      apply digitValue_le
      apply status.2
      have bound : k < text.length := by omega
      have here : ((text.drop 8).take 3)[k - 8]? = some (text.getD k '0') := by
        rw [List.getElem?_take_of_lt (by omega), List.getElem?_drop, show 8 + (k - 8) = k by omega,
          List.getD_eq_getElem?_getD, List.getElem?_eq_getElem bound]
        rfl
      exact List.mem_of_getElem? here
    have first := digit 8 (by omega) (by omega)
    have second := digit 9 (by omega) (by omega)
    have third := digit 10 (by omega) (by omega)
    omega
  · decide

theorem predicates_match {methods : List String} {message : Message} (listed : message.method ∈ methods)
    (small : message.respCode < 1000) (session : Session) :
    Matches (shapesOf methods) (message.predicates session) := by
  have method : (Shape.enum methods).Admits message.method := listed
  have status : (Shape.enum (StatusClass.all.map StatusClass.text)).Admits message.statusClass.text :=
    List.mem_map_of_mem (by cases message.statusClass <;> decide)
  have dialog : (Shape.enum (DialogState.all.map DialogState.text)).Admits session.dialogState.text :=
    List.mem_map_of_mem (by cases session.dialogState <;> decide)
  have transaction : (Shape.enum (TransactionState.all.map TransactionState.text)).Admits message.transactionState.text :=
    List.mem_map_of_mem (by cases message.transactionState <;> decide)
  have registration : (Shape.enum (RegistrationState.all.map RegistrationState.text)).Admits
      session.registrationState.text :=
    List.mem_map_of_mem (by cases session.registrationState <;> decide)
  have code : (Shape.int 31).Admits (toString (message.respCode : Int)) := Shape.admits_nat (by omega)
  have zero : (Shape.int 31).Admits (toString (0 : Int)) := Shape.admits_int (by omega) (by omega)
  simp only [shapesOf, Message.predicates, matches_cons, matches_nil, and_true, Shape.admits_bool, Shape.admits_int32,
    method, status, dialog, transaction, registration, code, zero]

/-- What a request does: it is the last one, two of its headers are kept, and the rest is up to its method. -/
theorem buildRequestPredLine_step {session next : Session} {packet : Packet} {fields : List Field}
    (built : buildRequestPredLine session packet = some (fields, next)) : ∃ (message : Message) (cseqNumber : Int32)
      (callId : List Char) (hasAuth : Bool),
    fields = message.predicates next ∧ message.method = (mapSipMethod (extractMethod packet.text)).text ∧
      message.respCode = 0 ∧
      next = { session with lastMethod := some (mapSipMethod (extractMethod packet.text)), cseqNumber, callId }.afterRequest
        (mapSipMethod (extractMethod packet.text)) hasAuth := by
  obtain ⟨via, _, built⟩ := Option.bind_eq_some_iff.mp built
  obtain ⟨cseq, _, built⟩ := Option.bind_eq_some_iff.mp built
  obtain ⟨callId, _, built⟩ := Option.bind_eq_some_iff.mp built
  obtain ⟨contact, _, built⟩ := Option.bind_eq_some_iff.mp built
  obtain ⟨fromHeader, _, built⟩ := Option.bind_eq_some_iff.mp built
  obtain ⟨toHeader, _, built⟩ := Option.bind_eq_some_iff.mp built
  obtain ⟨expires, _, built⟩ := Option.bind_eq_some_iff.mp built
  obtain ⟨maxForwards, _, built⟩ := Option.bind_eq_some_iff.mp built
  obtain ⟨contentLength, _, built⟩ := Option.bind_eq_some_iff.mp built
  obtain ⟨hasAuth, _, same⟩ := Option.bind_eq_some_iff.mp built
  cases cseq <;> cases callId <;> cases same <;> exact ⟨_, _, _, hasAuth, rfl, rfl, rfl, rfl⟩

/-- What a response does is up to its code and the method it answers. -/
theorem buildResponsePredLine_step {session next : Session} {packet : Packet} {fields : List Field}
    (built : buildResponsePredLine session packet = some (fields, next)) : ∃ (message : Message) (hasToTag : Bool),
    fields = message.predicates next ∧ message.method = lastMethodText next ∧
      message.respCode = extractResponseCode packet.text ∧
      next = session.afterResponse (extractResponseCode packet.text) hasToTag := by
  obtain ⟨toHeader, _, built⟩ := Option.bind_eq_some_iff.mp built
  obtain ⟨contentLength, _, same⟩ := Option.bind_eq_some_iff.mp built
  cases same
  exact ⟨_, hasTag toHeader, rfl, rfl, rfl, rfl⟩

@[simp] theorem afterRequest_lastMethod (session : Session) (method : Method) (hasAuth : Bool) :
    (session.afterRequest method hasAuth).lastMethod = session.lastMethod := by
  cases method <;> rfl

@[simp] theorem afterResponse_lastMethod (session : Session) (respCode : Nat) (hasToTag : Bool) :
    (session.afterResponse respCode hasToTag).lastMethod = session.lastMethod := by
  unfold Session.afterResponse
  dsimp only
  split_ifs
  · rfl
  · split <;> rfl
  · rfl
  · rfl
  · rfl
  · rfl

/-- The line of a request names a method, and so does the session from then on. -/
theorem buildRequestPredLine_some {session next : Session} {packet : Packet} {fields : List Field}
    (built : buildRequestPredLine session packet = some (fields, next)) :
    Matches shapes fields ∧ next.lastMethod.isSome = true := by
  obtain ⟨message, cseqNumber, callId, hasAuth, rfl, method, code, rfl⟩ := buildRequestPredLine_step built
  refine ⟨predicates_match (method ▸ methodText_listed _) (by omega) _, ?_⟩
  rw [afterRequest_lastMethod]
  rfl

/-- The line of a response repeats the method the session holds. -/
theorem buildResponsePredLine_some {session next : Session} {packet : Packet} {fields : List Field}
    (built : buildResponsePredLine session packet = some (fields, next)) :
    next.lastMethod = session.lastMethod ∧ ("sip_method", lastMethodText session) ∈ fields ∧
      ∀ methods, lastMethodText session ∈ methods → Matches (shapesOf methods) fields := by
  obtain ⟨message, hasToTag, rfl, method, code, rfl⟩ := buildResponsePredLine_step built
  have text : message.method = lastMethodText session := by
    rw [method, lastMethodText, afterResponse_lastMethod]
    rfl
  refine ⟨afterResponse_lastMethod _ _ _, ?_, ?_⟩
  · rw [← text]
    exact List.mem_cons_self
  · intro methods listed
    rw [← text] at listed
    exact predicates_match listed (code ▸ extractResponseCode_lt _) _

end Specification

end LtlFuzz.Adapter.Sip

import LtlFuzz.Adapter.Conformance

/-! `dtls_predicate_adapter.c` and the specification `dtls.ltl` it prints for. -/

namespace LtlFuzz.Adapter.Dtls
open Monitor Monitor.Grammar

/-! The record types and handshake messages of the protocol that the adapter knows. -/

def changeCipherSpec : Nat := 20
def alert : Nat := 21
def handshake : Nat := 22
def applicationData : Nat := 23

def clientHello : Nat := 1
def serverHello : Nat := 2
def helloVerifyRequest : Nat := 3
def certificate : Nat := 11
def serverKeyExchange : Nat := 12
def certificateRequest : Nat := 13
def serverHelloDone : Nat := 14
def certificateVerify : Nat := 15
def clientKeyExchange : Nat := 16
def finished : Nat := 20

/-- The message type of a record that cannot be read. -/
def unreadable : Nat := 0xFF

inductive Request where
  | notSet | clientHello | clientHelloWithCookie | clientKeyExchange | certificate | certificateVerify | finished
  | changeCipherSpec | alert | applicationData
  deriving DecidableEq, Repr

def Request.all : List Request :=
  [.notSet, .clientHello, .clientHelloWithCookie, .clientKeyExchange, .certificate, .certificateVerify, .finished,
    .changeCipherSpec, .alert, .applicationData]

def Request.text : Request → String
  | .notSet => "requestNotSet"
  | .clientHello => "c2s_ClientHello"
  | .clientHelloWithCookie => "c2s_ClientHello_with_cookie"
  | .clientKeyExchange => "c2s_ClientKeyExchange"
  | .certificate => "c2s_Certificate"
  | .certificateVerify => "c2s_CertificateVerify"
  | .finished => "c2s_Finished"
  | .changeCipherSpec => "c2s_ChangeCipherSpec"
  | .alert => "c2s_Alert"
  | .applicationData => "c2s_ApplicationData"

inductive Response where
  | notSet | helloVerifyRequest | serverHello | certificate | serverKeyExchange | certificateRequest | serverHelloDone
  | finished | changeCipherSpec | alert | applicationData
  deriving DecidableEq, Repr

def Response.all : List Response :=
  [.notSet, .helloVerifyRequest, .serverHello, .certificate, .serverKeyExchange, .certificateRequest, .serverHelloDone,
    .finished, .changeCipherSpec, .alert, .applicationData]

def Response.text : Response → String
  | .notSet => "responseNotSet"
  | .helloVerifyRequest => "s2c_HelloVerifyRequest"
  | .serverHello => "s2c_ServerHello"
  | .certificate => "s2c_Certificate"
  | .serverKeyExchange => "s2c_ServerKeyExchange"
  | .certificateRequest => "s2c_CertificateRequest"
  | .serverHelloDone => "s2c_ServerHelloDone"
  | .finished => "s2c_Finished"
  | .changeCipherSpec => "s2c_ChangeCipherSpec"
  | .alert => "s2c_Alert"
  | .applicationData => "s2c_ApplicationData"

structure Session where
  cookieExchangeDone : Bool := false
  serverHelloSent : Bool := false
  serverHelloDoneSent : Bool := false
  clientKeyExchangeReceived : Bool := false
  clientCcsReceived : Bool := false
  serverCcsSent : Bool := false
  clientFinishedReceived : Bool := false
  serverFinishedSent : Bool := false
  handshakeComplete : Bool := false
  cipherNegotiated : Bool := false
  certificateRequestSent : Bool := false
  sessionInitialized : Bool := false
  deriving DecidableEq, Repr

def resetSession : Session := { sessionInitialized := true }

/-- The six bytes of the sequence number, the highest first. -/
def sequence (packet : Packet) : Nat := (List.range 6).foldl (fun sequence i => sequence * 256 + packet.byte (5 + i)) 0

/-- The offset of the payload behind the record header. -/
def payload : Nat := 13

/-- The message type, and whether the fields contradict each other as they do in ciphertext. -/
def parseHandshakeType (packet : Packet) (recordLength : Nat) : Nat × Bool :=
  if recordLength < 12 then (unreadable, false)
  else
    let msgLength := packet.u24 (payload + 1)
    let fragOffset := packet.u24 (payload + 6)
    let fragLength := packet.u24 (payload + 9)
    if recordLength = 12 + fragLength ∧ fragOffset = 0 ∧ msgLength = fragLength then (packet.byte payload, false)
    else (unreadable, true)

/-- The message type and the encryption of a client's record: the epoch alone decides. -/
def parseRequest (packet : Packet) (contentType recordLength : Nat) (encrypted : Bool) : Nat × Bool :=
  if contentType = handshake then
    (if !encrypted && recordLength ≥ 12 then packet.byte payload else unreadable, encrypted)
  else if contentType = changeCipherSpec then
    (if !encrypted && recordLength ≥ 1 then packet.byte payload else unreadable, encrypted)
  else if contentType = alert then
    (if !encrypted && recordLength ≥ 2 then packet.byte (payload + 1) else unreadable, encrypted)
  else if contentType = applicationData then (unreadable, true)
  else (0, encrypted)

/-- The same for a server's record, where the structure of the payload counts too. -/
def parseResponse (packet : Packet) (contentType recordLength : Nat) (encrypted : Bool) : Nat × Bool :=
  if contentType = handshake then
    let (messageType, hsEncrypted) := parseHandshakeType packet recordLength
    (messageType, hsEncrypted || encrypted)
  else if contentType = changeCipherSpec then
    if recordLength = 1 then (packet.byte payload, false) else (unreadable, true)
  else if contentType = alert then
    if recordLength = 2 ∧ encrypted = false then (packet.byte (payload + 1), false) else (unreadable, true)
  else if contentType = applicationData then (unreadable, true)
  else (0, encrypted)

/-- The type of a handshake message as the builder of its direction reads it. -/
def messageType (direction : Direction) (packet : Packet) : Nat :=
  match direction with
  | .c2s => (parseRequest packet (packet.byte 0) (packet.u16 11) (packet.u16 3 > 0)).1
  | .s2c => (parseResponse packet (packet.byte 0) (packet.u16 11) (packet.u16 3 > 0)).1

def Session.requestEnumForType (session : Session) (contentType messageType : Nat) : Request :=
  if contentType = handshake then
    if messageType = clientHello then if session.cookieExchangeDone then .clientHelloWithCookie else .clientHello
    else if messageType = clientKeyExchange then .clientKeyExchange
    else if messageType = certificateVerify then .certificateVerify
    else if messageType = certificate ∧ session.certificateRequestSent then .certificate
    else if messageType = finished ∧ session.clientCcsReceived ∧ ¬ session.clientFinishedReceived then .finished
    else .notSet
  else if contentType = changeCipherSpec then
    if session.clientKeyExchangeReceived ∧ ¬ session.clientCcsReceived then .changeCipherSpec else .notSet
  else if contentType = alert then .alert
  else if contentType = applicationData then .applicationData
  else .notSet

def Session.responseEnumForType (session : Session) (contentType messageType : Nat) : Response :=
  if contentType = handshake then
    if messageType = helloVerifyRequest then .helloVerifyRequest
    else if messageType = serverHello then .serverHello
    else if messageType = certificate then .certificate
    else if messageType = serverKeyExchange then .serverKeyExchange
    else if messageType = certificateRequest then .certificateRequest
    else if messageType = serverHelloDone then .serverHelloDone
    else if messageType = finished ∧ session.serverCcsSent ∧ ¬ session.serverFinishedSent then .finished
    else .notSet
  else if contentType = changeCipherSpec then
    if session.clientFinishedReceived ∧ ¬ session.serverCcsSent then .changeCipherSpec else .notSet
  else if contentType = alert then .alert
  else if contentType = applicationData then .applicationData
  else .notSet

def Session.complete (session : Session) : Session :=
  if session.clientFinishedReceived ∧ session.serverFinishedSent then { session with handshakeComplete := true } else session

def Session.afterRequest (session : Session) (contentType messageType : Nat) : Session :=
  if contentType = handshake then
    if messageType = clientKeyExchange then { session with clientKeyExchangeReceived := true }
    else if messageType = finished then { session with clientFinishedReceived := true }.complete
    else session
  else if contentType = changeCipherSpec then { session with clientCcsReceived := true }
  else session

def Session.afterResponse (session : Session) (contentType messageType : Nat) : Session :=
  if contentType = handshake then
    if messageType = helloVerifyRequest then { session with cookieExchangeDone := true }
    else if messageType = serverHello then { session with serverHelloSent := true, cipherNegotiated := true }
    else if messageType = certificateRequest then { session with certificateRequestSent := true }
    else if messageType = serverHelloDone then { session with serverHelloDoneSent := true }
    else if messageType = finished then { session with serverFinishedSent := true }.complete
    else session
  else if contentType = changeCipherSpec then { session with serverCcsSent := true }
  else session

/-- What a line says about the record it is printed for. -/
structure Record where
  request : Request := .notSet
  response : Response := .notSet
  contentType : Nat := 0
  messageType : Nat := 0
  cookie : Bool := false
  encrypted : Bool := false
  macOk : Bool := true
  epoch : Nat := 0
  sequence : Nat := 0
  recordLength : Nat := 0
  fragmentLength : Nat := 0
  alertLevel : Nat := 0
  alertDescription : Nat := 0

def Record.predicates (record : Record) (session : Session) : List Field :=
  [("request", record.request.text), ("response", record.response.text),
    ("content_type", toString (record.contentType : Int)), ("handshake_type", toString (record.messageType : Int)),
    ("cookie_present", boolToString record.cookie), ("cookie_valid", boolToString record.cookie),
    ("encrypted", boolToString record.encrypted), ("mac_ok", boolToString record.macOk),
    ("epoch", toString (record.epoch : Int)), ("sequence", toString (record.sequence : Int)),
    ("record_length", toString (record.recordLength : Int)), ("fragment_length", toString (record.fragmentLength : Int)),
    ("handshake_complete", boolToString session.handshakeComplete),
    ("cipher_negotiated", boolToString session.cipherNegotiated), ("alert_level", toString (record.alertLevel : Int)),
    ("alert_description", toString (record.alertDescription : Int))]

def Session.initialized (session : Session) : Session := if session.sessionInitialized then session else resetSession

/-- The state after a readable record, and what is printed about it. -/
def Session.read (session : Session) (direction : Direction) (packet : Packet) : Record × Session :=
  let contentType := packet.byte 0
  let epoch := packet.u16 3
  let recordLength := packet.u16 11
  let (messageType, encrypted) :=
    match direction with
    | .c2s => parseRequest packet contentType recordLength (epoch > 0)
    | .s2c => parseResponse packet contentType recordLength (epoch > 0)
  let next :=
    match direction with
    | .c2s => session.afterRequest contentType messageType
    | .s2c => session.afterResponse contentType messageType
  let readableAlert := contentType = alert ∧ recordLength ≥ 2 ∧ encrypted = false
  ({ request := if direction = .c2s then session.requestEnumForType contentType messageType else .notSet
     response := if direction = .s2c then session.responseEnumForType contentType messageType else .notSet
     contentType, messageType, encrypted, epoch, recordLength
     cookie := contentType = handshake ∧ messageType = clientHello ∧ next.cookieExchangeDone
     macOk := !(epoch > 0 && (recordLength = 0 || recordLength > 16384))
     sequence := sequence packet
     fragmentLength :=
      if contentType = handshake ∧ recordLength ≥ 12 ∧ encrypted = false then packet.u24 (payload + 9) else 0
     alertLevel := if readableAlert then packet.byte payload else 0
     alertDescription := if readableAlert then packet.byte (payload + 1) else 0 }, next)

/-- A buffer that holds no whole record is printed as an empty one. -/
def buildPredLineInternal (direction : Direction) (session : Session) (packet : Packet) : List Field × Session :=
  let session := session.initialized
  let len := packet.bytes.length
  if len < 13 ∨ packet.byte 0 = 0 ∨ len < 13 + packet.u16 11 then (({ } : Record).predicates session, session)
  else
    let (record, next) := session.read direction packet
    (record.predicates next, next)

def adapter : PredicateAdapter Session where
  start := {}
  resetSession := resetSession
  build := buildPredLineInternal
  appendsTrace packet := !packet.bytes.isEmpty
  resetsMessageId := true

section Specification

def encrypted : Identifier := ⟨"encrypted", by decide⟩
def epoch : Identifier := ⟨"epoch", by decide⟩
def response : Identifier := ⟨"response", rfl⟩
def handshakeComplete : Identifier := ⟨"handshake_complete", by decide⟩
def s2cApplicationData : Identifier := ⟨"s2c_ApplicationData", by decide⟩
def s2cFinished : Identifier := ⟨"s2c_Finished", by decide⟩

/-- `H((left) -> (right))`. -/
def rule (left right : Predicates) : Formula :=
  .h <| .paren <| .arrow (.paren (.predicates left)) (.paren (.predicates right))

def integers : List Identifier :=
  identifiers ["content_type", "epoch", "record_length", "fragment_length", "handshake_type", "alert_level",
    "alert_description", "sequence"] (by decide +kernel)

def flags : List Identifier :=
  identifiers ["cookie_valid", "cookie_present", "encrypted", "mac_ok", "handshake_complete", "cipher_negotiated"]
    (by decide +kernel)

/-- `dtls.ltl`. -/
def tree : SpecTree where
  declaration := .enumeration "request" "requestNotSet"
    ["c2s_ClientHello", "c2s_ClientHello_with_cookie", "c2s_ClientKeyExchange", "c2s_Certificate", "c2s_CertificateVerify",
      "c2s_Finished", "c2s_ChangeCipherSpec", "c2s_Alert", "c2s_ApplicationData"] (by decide +kernel)
  declarations :=
    .enumeration "response" "responseNotSet"
      ["s2c_HelloVerifyRequest", "s2c_ServerHello", "s2c_Certificate", "s2c_ServerKeyExchange", "s2c_CertificateRequest",
        "s2c_ServerHelloDone", "s2c_Finished", "s2c_ChangeCipherSpec", "s2c_Alert", "s2c_ApplicationData"]
      (by decide +kernel) ::
    integers.map .int ++ flags.map .bool
  formula := rule ⟨encrypted, .eq, .true⟩ ⟨epoch, .gt, .int 0⟩
  formulas :=
    [rule ⟨epoch, .gt, .int 0⟩ ⟨encrypted, .eq, .true⟩,
      rule ⟨response, .eq, .id s2cApplicationData⟩ ⟨handshakeComplete, .eq, .true⟩,
      rule ⟨response, .eq, .id s2cApplicationData⟩ ⟨encrypted, .eq, .true⟩,
      rule ⟨response, .eq, .id s2cFinished⟩ ⟨encrypted, .eq, .true⟩]

def shapes : List (String × Shape) :=
  [("request", .enum (Request.all.map Request.text)), ("response", .enum (Response.all.map Response.text)),
    ("content_type", .int 8), ("handshake_type", .int 8), ("cookie_present", .bool), ("cookie_valid", .bool),
    ("encrypted", .bool), ("mac_ok", .bool), ("epoch", .int 16), ("sequence", .int 48), ("record_length", .int 16),
    ("fragment_length", .int 24), ("handshake_complete", .bool), ("cipher_negotiated", .bool), ("alert_level", .int 8),
    ("alert_description", .int 8)]

theorem shapes_fit : fits shapes tree = true := by decide +kernel

/-- The numbers of a record stay below the width of the bytes they are read from. -/
structure Record.Bounded (record : Record) : Prop where
  contentType : record.contentType < 2 ^ 8
  messageType : record.messageType < 2 ^ 8
  epoch : record.epoch < 2 ^ 16
  sequence : record.sequence < 2 ^ 48
  recordLength : record.recordLength < 2 ^ 16
  fragmentLength : record.fragmentLength < 2 ^ 24
  alertLevel : record.alertLevel < 2 ^ 8
  alertDescription : record.alertDescription < 2 ^ 8

private theorem predicates_match {record : Record} (bounded : record.Bounded) (session : Session) :
    Matches shapes (record.predicates session) := by
  have request : (Shape.enum (Request.all.map Request.text)).Admits record.request.text :=
    List.mem_map_of_mem (by cases record.request <;> decide)
  have response : (Shape.enum (Response.all.map Response.text)).Admits record.response.text :=
    List.mem_map_of_mem (by cases record.response <;> decide)
  simp only [shapes, Record.predicates, matches_cons, matches_nil, and_true, Shape.admits_bool, request, response,
    Shape.admits_nat bounded.contentType, Shape.admits_nat bounded.messageType, Shape.admits_nat bounded.epoch,
    Shape.admits_nat bounded.sequence, Shape.admits_nat bounded.recordLength, Shape.admits_nat bounded.fragmentLength,
    Shape.admits_nat bounded.alertLevel, Shape.admits_nat bounded.alertDescription]

private theorem sequence_lt (packet : Packet) : sequence packet < 2 ^ 48 := by
  have bytes := packet.byte_lt
  have first := bytes 5
  have second := bytes 6
  have third := bytes 7
  have fourth := bytes 8
  have fifth := bytes 9
  have sixth := bytes 10
  simp only [sequence, List.range, List.range.loop, List.foldl_cons, List.foldl_nil, Nat.reduceAdd]
  omega

private theorem parseRequest_lt (packet : Packet) (contentType recordLength : Nat) (encrypted : Bool) :
    (parseRequest packet contentType recordLength encrypted).1 < 2 ^ 8 := by
  have bytes := packet.byte_lt
  unfold parseRequest unreadable
  split_ifs
  all_goals first | exact bytes _ | simp

private theorem parseHandshakeType_lt (packet : Packet) (recordLength : Nat) :
    (parseHandshakeType packet recordLength).1 < 2 ^ 8 := by
  unfold parseHandshakeType unreadable
  split
  · decide
  · dsimp only
    split
    · exact packet.byte_lt payload
    · decide

private theorem parseResponse_lt (packet : Packet) (contentType recordLength : Nat) (encrypted : Bool) :
    (parseResponse packet contentType recordLength encrypted).1 < 2 ^ 8 := by
  have bytes := packet.byte_lt
  have inner := parseHandshakeType_lt packet recordLength
  unfold parseResponse unreadable
  split
  · exact inner
  · split_ifs
    all_goals first | exact bytes _ | simp

private theorem ite_lt {condition : Prop} [Decidable condition] {value bound : Nat} (small : value < bound) :
    (if condition then value else 0) < bound := by
  split_ifs <;> omega

theorem read_bounded (session : Session) (direction : Direction) (packet : Packet) :
    (session.read direction packet).1.Bounded := by
  have bytes := packet.byte_lt
  have words := packet.u16_lt
  have message : (match direction with
      | .c2s => parseRequest packet (packet.byte 0) (packet.u16 11) (packet.u16 3 > 0)
      | .s2c => parseResponse packet (packet.byte 0) (packet.u16 11) (packet.u16 3 > 0)).1 < 2 ^ 8 := by
    cases direction with
    | c2s => exact parseRequest_lt packet _ _ _
    | s2c => exact parseResponse_lt packet _ _ _
  constructor
  · exact bytes 0
  · exact message
  · exact words 3
  · exact sequence_lt packet
  · exact words 11
  · exact ite_lt (packet.u24_lt _)
  · exact ite_lt (bytes payload)
  · exact ite_lt (bytes (payload + 1))

theorem build_matches (direction : Direction) (session : Session) (packet : Packet) :
    Matches shapes (adapter.build direction session packet).1 := by
  change Matches shapes (buildPredLineInternal direction session packet).1
  unfold buildPredLineInternal
  dsimp only
  split
  · exact predicates_match ⟨by decide, by decide, by decide, by decide, by decide, by decide, by decide, by decide⟩ _
  · exact predicates_match (read_bounded _ direction packet) _

end Specification

end LtlFuzz.Adapter.Dtls

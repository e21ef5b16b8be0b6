import LtlFuzz.Adapter.Conformance

/-! `dnsmasq_predicate_adapter.c` and the specification `dnsmasq.ltl` it prints for. The
counters of cache hits and upstream queries are left out: nothing reads them. -/

namespace LtlFuzz.Adapter.Dnsmasq
open Monitor Monitor.Grammar

inductive MessageType where
  | notSet | query | response
  deriving DecidableEq, Repr

def MessageType.all : List MessageType := [.notSet, .query, .response]

def MessageType.text : MessageType → String
  | .notSet => "messageNotSet"
  | .query => "query"
  | .response => "response"

inductive Opcode where
  | query | iquery | status | unknown
  deriving DecidableEq, Repr

def Opcode.all : List Opcode := [.query, .iquery, .status, .unknown]

def Opcode.ofCode : Nat → Opcode
  | 0 => .query
  | 1 => .iquery
  | 2 => .status
  | _ => .unknown

def Opcode.text : Opcode → String
  | .query => "QUERY"
  | .iquery => "IQUERY"
  | .status => "STATUS"
  | .unknown => "OPCODE_UNKNOWN"

inductive Rcode where
  | noerror | formerr | servfail | nxdomain | notimp | refused | unknown
  deriving DecidableEq, Repr

def Rcode.all : List Rcode := [.noerror, .formerr, .servfail, .nxdomain, .notimp, .refused, .unknown]

def Rcode.ofCode : Nat → Rcode
  | 0 => .noerror
  | 1 => .formerr
  | 2 => .servfail
  | 3 => .nxdomain
  | 4 => .notimp
  | 5 => .refused
  | _ => .unknown

def Rcode.text : Rcode → String
  | .noerror => "NOERROR"
  | .formerr => "FORMERR"
  | .servfail => "SERVFAIL"
  | .nxdomain => "NXDOMAIN"
  | .notimp => "NOTIMP"
  | .refused => "REFUSED"
  | .unknown => "RCODE_UNKNOWN"

inductive Qtype where
  | a | aaaa | mx | ns | cname | ptr | soa | txt | any | unknown
  deriving DecidableEq, Repr

def Qtype.all : List Qtype := [.a, .aaaa, .mx, .ns, .cname, .ptr, .soa, .txt, .any, .unknown]

def Qtype.ofCode : Nat → Qtype
  | 1 => .a
  | 28 => .aaaa
  | 15 => .mx
  | 2 => .ns
  | 5 => .cname
  | 12 => .ptr
  | 6 => .soa
  | 16 => .txt
  | 255 => .any
  | _ => .unknown

def Qtype.text : Qtype → String
  | .a => "A"
  | .aaaa => "AAAA"
  | .mx => "MX"
  | .ns => "NS"
  | .cname => "CNAME"
  | .ptr => "PTR"
  | .soa => "SOA"
  | .txt => "TXT"
  | .any => "ANY"
  | .unknown => "QTYPE_UNKNOWN"

structure QueryRecord where
  queryId : Nat
  qtype : Nat
  valid : Bool
  deriving DecidableEq, Repr

/-- The queries in use: the first `g_query_count` slots of the history. -/
structure Session where
  queryHistory : List QueryRecord := []
  sessionInitialized : Bool := false
  deriving DecidableEq, Repr

def resetSession : Session := { sessionInitialized := true }

def maxTrackedQueries : Nat := 256

/-- The position behind a name, or zero if it does not end inside the packet. -/
def dnsSkipName (packet : Packet) (pos : Nat) : Nat :=
  if inside : pos < packet.bytes.length then
    let labelLen := packet.byte pos
    if labelLen = 0 then pos + 1
    else if labelLen &&& 0xC0 = 0xC0 then if pos + 1 ≥ packet.bytes.length then 0 else pos + 2
    else if labelLen &&& 0xC0 = 0 then dnsSkipName packet (pos + (1 + labelLen))
    else 0
  else 0
termination_by packet.bytes.length - pos

def dnsParseFirstQuestion (packet : Packet) (qdcount : Nat) : Nat :=
  if qdcount = 0 then 0
  else
    let pos := dnsSkipName packet 12
    if pos = 0 ∨ pos + 4 > packet.bytes.length then 0 else packet.u16 pos

def Session.trackQuery (session : Session) (queryId qtype : Nat) : Session :=
  let history := if session.queryHistory.length ≥ maxTrackedQueries then session.queryHistory.tail else session.queryHistory
  { session with queryHistory := history ++ [⟨queryId, qtype, true⟩] }

def Session.findMatchingQuery (session : Session) (queryId responseQtype : Nat) : Bool :=
  session.queryHistory.any fun record => record.valid && record.queryId == queryId && record.qtype == responseQtype

/-- What a line says about the message it is printed for; the defaults are those of
`output_default_error`. -/
structure Message where
  messageType : MessageType := .notSet
  opcode : Opcode := .unknown
  rcode : Rcode := .unknown
  qtype : Qtype := .unknown
  isQuery : Bool
  isResponse : Bool
  aa : Bool := false
  tc : Bool := false
  rd : Bool := false
  ra : Bool := false
  ad : Bool := false
  cd : Bool := false
  qdcount : Int := -1
  ancount : Int := -1
  nscount : Int := -1
  arcount : Int := -1
  responseValid : Bool := false
  dnssecOk : Bool := false
  queryId : Int := -1
  idMatch : Bool := false
  cacheHit : Bool := false
  upstreamQueried : Bool := false

def Message.predicates (message : Message) : List Field :=
  [("message_type", message.messageType.text), ("opcode", message.opcode.text), ("rcode", message.rcode.text),
    ("qtype", message.qtype.text), ("is_query", boolToString message.isQuery),
    ("is_response", boolToString message.isResponse), ("aa", boolToString message.aa), ("tc", boolToString message.tc),
    ("rd", boolToString message.rd), ("ra", boolToString message.ra), ("ad", boolToString message.ad),
    ("cd", boolToString message.cd), ("qdcount", toString message.qdcount), ("ancount", toString message.ancount),
    ("nscount", toString message.nscount), ("arcount", toString message.arcount),
    ("response_valid", boolToString message.responseValid), ("dnssec_ok", boolToString message.dnssecOk),
    ("query_id", toString message.queryId), ("id_match", boolToString message.idMatch),
    ("cache_hit", boolToString message.cacheHit), ("upstream_queried", boolToString message.upstreamQueried)]

def Session.initialized (session : Session) : Session := if session.sessionInitialized then session else resetSession

/-- A whole header: the direction of the traffic, not the packet, says what it is. -/
def Session.read (session : Session) (direction : Direction) (packet : Packet) : Message × Session :=
  let id := packet.u16 0
  let flags := packet.u16 2
  let qdcount := packet.u16 4
  let ancount := packet.u16 6
  let rcode := flags &&& 0x0F
  let qtype := dnsParseFirstQuestion packet qdcount
  let isResponse := direction == .s2c
  let idMatch := isResponse && session.findMatchingQuery id qtype
  let answered := idMatch && ancount > 0 && rcode == 0
  ({ messageType := if isResponse then .response else .query
     opcode := Opcode.ofCode ((flags >>> 11) &&& 0x0F)
     rcode := Rcode.ofCode rcode
     qtype := Qtype.ofCode qtype
     isQuery := !isResponse
     isResponse
     aa := flags &&& 0x0400 ≠ 0
     tc := flags &&& 0x0200 ≠ 0
     rd := flags &&& 0x0100 ≠ 0
     ra := flags &&& 0x0080 ≠ 0
     ad := flags &&& 0x0020 ≠ 0
     cd := flags &&& 0x0010 ≠ 0
     qdcount
     ancount
     nscount := packet.u16 8
     arcount := packet.u16 10
     responseValid := isResponse && (rcode == 0 || rcode == 3)
     dnssecOk := flags &&& 0x0020 ≠ 0
     queryId := id
     idMatch
     cacheHit := answered && id % 3 == 0
     upstreamQueried := !isResponse || (answered && id % 3 != 0) },
    if isResponse then session else session.trackQuery id qtype)

def buildPredLineInternal (direction : Direction) (session : Session) (packet : Packet) : List Field × Session :=
  let session := session.initialized
  if packet.bytes.length < 12 then
    (({ isQuery := direction == .c2s, isResponse := direction == .s2c } : Message).predicates, session)
  else
    let (message, next) := session.read direction packet
    (message.predicates, next)

def adapter : PredicateAdapter Session where
  start := {}
  resetSession := resetSession
  build := buildPredLineInternal
  appendsTrace _ := false
  resetsMessageId := false

section Specification

def messageType : Identifier := ⟨"message_type", by decide⟩
def opcode : Identifier := ⟨"opcode", by decide⟩
def rcode : Identifier := ⟨"rcode", by decide⟩
def qtype : Identifier := ⟨"qtype", by decide⟩
def qdcount : Identifier := ⟨"qdcount", by decide⟩
def ancount : Identifier := ⟨"ancount", by decide⟩
def nscount : Identifier := ⟨"nscount", by decide⟩

/-- `message_type = response & response_valid = true`, with which every rule begins. -/
def response : Formula := .predicates ⟨messageType, .eq, .id ⟨"response", by decide⟩⟩
def responseValid : Formula := .predicates ⟨⟨"response_valid", by decide⟩, .eq, .true⟩

def standardQuery : Formula := .predicates ⟨opcode, .eq, .id ⟨"QUERY", by decide⟩⟩
def knownQtype : Formula := .predicates ⟨qtype, .neq, .id ⟨"QTYPE_UNKNOWN", by decide⟩⟩
def oneQuestion : Formula := .predicates ⟨qdcount, .eq, .int 1⟩
def someAnswers : Formula := .predicates ⟨ancount, .gt, .int 0⟩
def fewAnswers : Formula := .predicates ⟨ancount, .lt, .int 100⟩

def isRcode (value : String) (valid : isIdentifier value = true) : Formula :=
  .predicates ⟨rcode, .eq, .id ⟨value, valid⟩⟩

/-- Rules 2 to 5: no answers with this error. -/
def noAnswersWith (error : Formula) : Formula :=
  .h <| .paren <| .not <| .paren <| .conjunction response
    [responseValid, error, standardQuery, knownQtype, oneQuestion, someAnswers, fewAnswers]

/-- `dnsmasq.ltl`. -/
def tree : SpecTree where
  declaration := .enumeration "message_type" "messageNotSet" ["query", "response"] (by decide +kernel)
  declarations :=
    .enumeration "opcode" "QUERY" ["IQUERY", "STATUS", "OPCODE_UNKNOWN"] (by decide +kernel) ::
    .enumeration "rcode" "NOERROR" ["FORMERR", "SERVFAIL", "NXDOMAIN", "NOTIMP", "REFUSED", "RCODE_UNKNOWN"]
      (by decide +kernel) ::
    .enumeration "qtype" "A" ["AAAA", "MX", "NS", "CNAME", "PTR", "SOA", "TXT", "ANY", "QTYPE_UNKNOWN"]
      (by decide +kernel) ::
    (identifiers ["is_query", "is_response", "aa", "tc", "rd", "ra", "ad", "cd"] (by decide +kernel)).map .bool ++
    (identifiers ["qdcount", "ancount", "nscount", "arcount"] (by decide +kernel)).map .int ++
    (identifiers ["response_valid", "dnssec_ok"] (by decide +kernel)).map .bool ++
    (identifiers ["query_id"] (by decide +kernel)).map .int ++
    (identifiers ["id_match", "cache_hit", "upstream_queried"] (by decide +kernel)).map .bool
  formula := .h <| .paren <| .arrow
    (.paren (.conjunction response [responseValid, standardQuery, knownQtype, oneQuestion]))
    (.predicates ⟨⟨"is_response", by decide⟩, .eq, .true⟩)
  formulas :=
    [noAnswersWith (isRcode "NXDOMAIN" (by decide)), noAnswersWith (isRcode "SERVFAIL" (by decide)),
      noAnswersWith (isRcode "REFUSED" (by decide)), noAnswersWith (isRcode "NOTIMP" (by decide)),
      .h <| .paren <| .arrow
        (.paren (.conjunction response [responseValid, standardQuery, knownQtype, oneQuestion, someAnswers, fewAnswers]))
        (.paren (.or (isRcode "NOERROR" (by decide)) (isRcode "NXDOMAIN" (by decide)))),
      .h <| .paren <| .not <| .paren <| .conjunction response
        [responseValid, isRcode "NOERROR" (by decide), .predicates ⟨⟨"aa", by decide⟩, .eq, .true⟩, standardQuery,
          knownQtype, .predicates ⟨qtype, .neq, .id ⟨"ANY", by decide⟩⟩, oneQuestion, .predicates ⟨ancount, .eq, .int 0⟩,
          .predicates ⟨nscount, .eq, .int 0⟩],
      .h <| .paren <| .not <| .paren <| .conjunction response
        [responseValid, standardQuery, knownQtype, oneQuestion, .predicates ⟨⟨"id_match", by decide⟩, .eq, .false⟩]]

def shapes : List (String × Shape) :=
  [("message_type", .enum (MessageType.all.map MessageType.text)), ("opcode", .enum (Opcode.all.map Opcode.text)),
    ("rcode", .enum (Rcode.all.map Rcode.text)), ("qtype", .enum (Qtype.all.map Qtype.text)), ("is_query", .bool),
    ("is_response", .bool), ("aa", .bool), ("tc", .bool), ("rd", .bool), ("ra", .bool), ("ad", .bool), ("cd", .bool),
    ("qdcount", .int 16), ("ancount", .int 16), ("nscount", .int 16), ("arcount", .int 16), ("response_valid", .bool),
    ("dnssec_ok", .bool), ("query_id", .int 16), ("id_match", .bool), ("cache_hit", .bool), ("upstream_queried", .bool)]

theorem shapes_fit : fits shapes tree = true := by decide +kernel

private theorem predicates_match {message : Message}
    (counts : ∀ count ∈ [message.qdcount, message.ancount, message.nscount, message.arcount, message.queryId],
      -(2 ^ 16) ≤ count ∧ count < 2 ^ 16) : Matches shapes message.predicates := by
  have admitted {count : Int}
      (member : count ∈ [message.qdcount, message.ancount, message.nscount, message.arcount, message.queryId]) :
      (Shape.int 16).Admits (toString count) := Shape.admits_int (counts count member).1 (counts count member).2
  have kind : (Shape.enum (MessageType.all.map MessageType.text)).Admits message.messageType.text :=
    List.mem_map_of_mem (by cases message.messageType <;> decide)
  have opcode : (Shape.enum (Opcode.all.map Opcode.text)).Admits message.opcode.text :=
    List.mem_map_of_mem (by cases message.opcode <;> decide)
  have rcode : (Shape.enum (Rcode.all.map Rcode.text)).Admits message.rcode.text :=
    List.mem_map_of_mem (by cases message.rcode <;> decide)
  have qtype : (Shape.enum (Qtype.all.map Qtype.text)).Admits message.qtype.text :=
    List.mem_map_of_mem (by cases message.qtype <;> decide)
  simp only [shapes, Message.predicates, matches_cons, matches_nil, and_true, Shape.admits_bool, kind, opcode, rcode, qtype,
    true_and]
  exact ⟨admitted (by simp), admitted (by simp), admitted (by simp), admitted (by simp), admitted (by simp)⟩

theorem build_matches (direction : Direction) (session : Session) (packet : Packet) :
    Matches shapes (adapter.build direction session packet).1 := by
  change Matches shapes (buildPredLineInternal direction session packet).1
  unfold buildPredLineInternal
  dsimp only
  split
  · exact predicates_match (by simp)
  · apply predicates_match
    have words := packet.u16_lt
    simp only [Session.read, List.forall_mem_cons, List.not_mem_nil, false_implies, implies_true, and_true]
    have qdcount := words 4
    have ancount := words 6
    have nscount := words 8
    have arcount := words 10
    have queryId := words 0
    omega

end Specification

end LtlFuzz.Adapter.Dnsmasq

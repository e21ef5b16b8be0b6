import LtlFuzz.Adapter.Conformance

/-! `ssh_predicate_adapter.c` and the specification `ssh.txt` it prints for. The first byte
of a packet is taken for its message number; the identification string a connection opens
with is the one packet that has none, and the only one printed without a trace. -/

namespace LtlFuzz.Adapter.Ssh
open Monitor Monitor.Grammar

inductive Request where
  | notSet | kexinit | newkeysRequest | kexdhInit | serviceRequestUserauth | userauthRequest | channelOpen
  | channelWindowAdjust | channelData | channelEof | channelClose | channelRequest | globalRequest | disconnect
  | unimplemented
  deriving DecidableEq, Repr

def Request.text : Request → String
  | .notSet => "requestNotSet"
  | .kexinit => "c2s_kexinit"
  | .newkeysRequest => "c2s_newkeys_request"
  | .kexdhInit => "c2s_kexdh_init"
  | .serviceRequestUserauth => "c2s_service_request_userauth"
  | .userauthRequest => "c2s_userauth_request"
  | .channelOpen => "c2s_channel_open"
  | .channelWindowAdjust => "c2s_channel_window_adjust"
  | .channelData => "c2s_channel_data"
  | .channelEof => "c2s_channel_eof"
  | .channelClose => "c2s_channel_close"
  | .channelRequest => "c2s_channel_request"
  | .globalRequest => "c2s_global_request"
  | .disconnect => "c2s_disconnect"
  | .unimplemented => "c2s_unimplemented"

def Request.all : List Request :=
  [.notSet, .kexinit, .newkeysRequest, .kexdhInit, .serviceRequestUserauth, .userauthRequest, .channelOpen,
    .channelWindowAdjust, .channelData, .channelEof, .channelClose, .channelRequest, .globalRequest, .disconnect,
    .unimplemented]

inductive Response where
  | notSet | banner | kexinit | newkeysResponse | kexdhReply | serviceAcceptUserauth | userauthFailure | userauthSuccess
  | userauthBanner | channelOpenConfirmation | channelOpenFailure | channelWindowAdjust | channelData | channelEof
  | channelClose | globalRequestResponse | disconnect | unimplemented
  deriving DecidableEq, Repr

def Response.text : Response → String
  | .notSet => "responseNotSet"
  | .banner => "s2c_banner"
  | .kexinit => "s2c_kexinit"
  | .newkeysResponse => "s2c_newkeys_response"
  | .kexdhReply => "s2c_kexdh_reply"
  | .serviceAcceptUserauth => "s2c_service_accept_userauth"
  | .userauthFailure => "s2c_userauth_failure"
  | .userauthSuccess => "s2c_userauth_success"
  | .userauthBanner => "s2c_userauth_banner"
  | .channelOpenConfirmation => "s2c_channel_open_confirmation"
  | .channelOpenFailure => "s2c_channel_open_failure"
  | .channelWindowAdjust => "s2c_channel_window_adjust"
  | .channelData => "s2c_channel_data"
  | .channelEof => "s2c_channel_eof"
  | .channelClose => "s2c_channel_close"
  | .globalRequestResponse => "s2c_global_request_response"
  | .disconnect => "s2c_disconnect"
  | .unimplemented => "s2c_unimplemented"

/-- The responses that stand for a message number, or for none that is known. -/
def Response.numbered : List Response :=
  [.notSet, .kexinit, .newkeysResponse, .kexdhReply, .serviceAcceptUserauth, .userauthFailure, .userauthSuccess,
    .userauthBanner, .channelOpenConfirmation, .channelOpenFailure, .channelWindowAdjust, .channelData, .channelEof,
    .channelClose, .globalRequestResponse, .disconnect, .unimplemented]

def sshRequestEnumForType : Nat → Request
  | 20 => .kexinit
  | 21 => .newkeysRequest
  | 30 => .kexdhInit
  | 5 => .serviceRequestUserauth
  | 50 => .userauthRequest
  | 90 => .channelOpen
  | 93 => .channelWindowAdjust
  | 94 => .channelData
  | 96 => .channelEof
  | 97 => .channelClose
  | 98 => .channelRequest
  | 80 => .globalRequest
  | 1 => .disconnect
  | 3 => .unimplemented
  | _ => .notSet

def sshResponseEnumForType : Nat → Response
  | 20 => .kexinit
  | 21 => .newkeysResponse
  | 31 => .kexdhReply
  | 6 => .serviceAcceptUserauth
  | 51 => .userauthFailure
  | 52 => .userauthSuccess
  | 53 => .userauthBanner
  | 90 => .channelOpenConfirmation
  | 92 => .channelOpenFailure
  | 93 => .channelWindowAdjust
  | 94 => .channelData
  | 96 => .channelEof
  | 97 => .channelClose
  | 81 => .globalRequestResponse
  | 82 => .globalRequestResponse
  | 1 => .disconnect
  | 3 => .unimplemented
  | _ => .notSet

structure Session where
  authAttempts : Int32 := 0
  lastAuthMethodNone : Bool := false
  seenClientNewkeys : Bool := false
  seenServerNewkeys : Bool := false
  sessionInitialized : Bool := false
  deriving DecidableEq, Repr

def resetSession : Session := { sessionInitialized := true }

def Session.initialized (session : Session) : Session := if session.sessionInitialized then session else resetSession

def getMsgType (packet : Packet) : Nat := packet.byte 0

def isSshBanner (packet : Packet) : Bool := packet.bytes.length ≥ 4 && packet.text.take 4 == "SSH-".toList

/-- An `unsigned int` read at the offset, and the offset behind it. -/
def readU32Be (packet : Packet) (off : Nat) : Option (Nat × Nat) :=
  if (off + 4) % 2 ^ 32 > packet.bytes.length then none
  else some (packet.u16 off * 2 ^ 16 + packet.u16 (off + 2), (off + 4) % 2 ^ 32)

structure SshString where
  start : Nat
  length : Nat
  deriving DecidableEq, Repr

/-- The sum of offset and length is an `unsigned int`, so a length close to its end leads
back into the packet. -/
def readSshString (packet : Packet) (off : Nat) : Option (SshString × Nat) := do
  let (length, off) ← readU32Be packet off
  if (off + length) % 2 ^ 32 > packet.bytes.length then none
  else some (⟨off, length⟩, (off + length) % 2 ^ 32)

/-- Whether the method of a `USERAUTH_REQUEST` is `none`, if the three strings before the
method's own fields can be read. -/
def sshParseUserauthMethod (packet : Packet) : Option Bool := do
  if packet.bytes.length < 2 then none
  else
    let (_, off) ← readSshString packet 1
    let (_, off) ← readSshString packet off
    let (method, _) ← readSshString packet off
    return method.length == 4 && (packet.text.drop method.start).take 4 == "none".toList

def sshParseChannelDataLen (packet : Packet) : Int32 :=
  if packet.bytes.length < 1 + 4 + 4 then 0
  else
    let parsed := do
      let (_, off) ← readU32Be packet 1
      readU32Be packet off
    match parsed with
    | none => 0
    | some (dataLen, off) =>
      if (off + dataLen) % 2 ^ 32 > packet.bytes.length then 0 else Int32.ofNat dataLen

def Session.encryptedNow (session : Session) : Bool := session.seenClientNewkeys && session.seenServerNewkeys

/-- What a line says about the message it is printed for, next to the session. -/
structure Message where
  request : Request := .notSet
  response : Response := .notSet
  encrypted : Bool := false
  macOk : Bool := true
  hostkeyPresent : Bool := false
  sigOk : Bool := false
  pktLen : Int32
  padLen : Int32 := -1
  chanDataLen : Int32 := 0

def Message.predicates (message : Message) (session : Session) : List Field :=
  [("request", message.request.text), ("response", message.response.text),
    ("encrypted", boolToString message.encrypted), ("mac_ok", boolToString message.macOk),
    ("hostkey_present", boolToString message.hostkeyPresent), ("sig_ok", boolToString message.sigOk),
    ("pkt_len", toString message.pktLen.toInt), ("pad_len", toString message.padLen.toInt),
    ("chan_data_len", toString message.chanDataLen.toInt), ("auth_attempts", toString session.authAttempts.toInt),
    ("is_auth_method_none", boolToString session.lastAuthMethodNone)]

def buildRequestPredLine (session : Session) (packet : Packet) : List Field × Session :=
  let session := session.initialized
  let pktLen := Int32.ofNat packet.bytes.length
  if isSshBanner packet then (Message.predicates { pktLen } session, session)
  else
    let t := getMsgType packet
    let session := if t = 21 then { session with seenClientNewkeys := true } else session
    let encrypted := session.encryptedNow
    let session :=
      if t = 50 then
        { session with
          authAttempts := session.authAttempts + 1
          lastAuthMethodNone := (sshParseUserauthMethod packet).getD false }
      else session
    let chanDataLen := if t = 94 then sshParseChannelDataLen packet else 0
    (Message.predicates { request := sshRequestEnumForType t, encrypted, pktLen, chanDataLen } session, session)

def buildResponsePredLine (session : Session) (packet : Packet) : List Field × Session :=
  let session := session.initialized
  let pktLen := Int32.ofNat packet.bytes.length
  if isSshBanner packet then (Message.predicates { response := .banner, pktLen } session, session)
  else
    let t := getMsgType packet
    let session := if t = 21 then { session with seenServerNewkeys := true } else session
    let isKexReply := t == 31
    let chanDataLen := if t = 94 then sshParseChannelDataLen packet else 0
    (Message.predicates
      { response := sshResponseEnumForType t
        encrypted := session.encryptedNow
        hostkeyPresent := isKexReply
        sigOk := isKexReply
        pktLen
        chanDataLen } session, session)

def adapter : PredicateAdapter Session where
  start := {}
  resetSession := resetSession
  build
    | .c2s => buildRequestPredLine
    | .s2c => buildResponsePredLine
  appendsTrace packet := !isSshBanner packet
  resetsMessageId := false

section Specification

def request : Identifier := ⟨"request", rfl⟩
def requestNotSet : Identifier := ⟨"requestNotSet", rfl⟩
def c2sKexinit : Identifier := ⟨"c2s_kexinit", rfl⟩
def c2sKexdhInit : Identifier := ⟨"c2s_kexdh_init", rfl⟩
def c2sKexEcdhInit : Identifier := ⟨"c2s_kex_ecdh_init", rfl⟩
def c2sNewkeysRequest : Identifier := ⟨"c2s_newkeys_request", rfl⟩
def c2sServiceRequestUserauth : Identifier := ⟨"c2s_service_request_userauth", rfl⟩
def c2sUserauthRequest : Identifier := ⟨"c2s_userauth_request", rfl⟩
def c2sChannelOpen : Identifier := ⟨"c2s_channel_open", rfl⟩
def c2sChannelWindowAdjust : Identifier := ⟨"c2s_channel_window_adjust", rfl⟩
def c2sChannelData : Identifier := ⟨"c2s_channel_data", rfl⟩
def c2sChannelEof : Identifier := ⟨"c2s_channel_eof", rfl⟩
def c2sChannelClose : Identifier := ⟨"c2s_channel_close", rfl⟩
def c2sChannelRequest : Identifier := ⟨"c2s_channel_request", rfl⟩
def c2sGlobalRequest : Identifier := ⟨"c2s_global_request", rfl⟩
def c2sDisconnect : Identifier := ⟨"c2s_disconnect", rfl⟩
def c2sUnimplemented : Identifier := ⟨"c2s_unimplemented", rfl⟩
def c2sDebug : Identifier := ⟨"c2s_debug", rfl⟩

def response : Identifier := ⟨"response", Eq.refl true⟩
def responseNotSet : Identifier := ⟨"responseNotSet", rfl⟩
def s2cKexinit : Identifier := ⟨"s2c_kexinit", rfl⟩
def s2cKexdhReply : Identifier := ⟨"s2c_kexdh_reply", rfl⟩
def s2cKexEcdhReply : Identifier := ⟨"s2c_kex_ecdh_reply", rfl⟩
def s2cNewkeysResponse : Identifier := ⟨"s2c_newkeys_response", rfl⟩
def s2cServiceAcceptUserauth : Identifier := ⟨"s2c_service_accept_userauth", rfl⟩
def s2cUserauthFailure : Identifier := ⟨"s2c_userauth_failure", rfl⟩
def s2cUserauthSuccess : Identifier := ⟨"s2c_userauth_success", rfl⟩
def s2cUserauthBanner : Identifier := ⟨"s2c_userauth_banner", rfl⟩
def s2cChannelOpenConfirmation : Identifier := ⟨"s2c_channel_open_confirmation", rfl⟩
def s2cChannelOpenFailure : Identifier := ⟨"s2c_channel_open_failure", rfl⟩
def s2cChannelWindowAdjust : Identifier := ⟨"s2c_channel_window_adjust", rfl⟩
def s2cChannelData : Identifier := ⟨"s2c_channel_data", rfl⟩
def s2cChannelEof : Identifier := ⟨"s2c_channel_eof", rfl⟩
def s2cChannelClose : Identifier := ⟨"s2c_channel_close", rfl⟩
def s2cChannelRequestResponse : Identifier := ⟨"s2c_channel_request_response", rfl⟩
def s2cGlobalRequestResponse : Identifier := ⟨"s2c_global_request_response", rfl⟩
def s2cDisconnect : Identifier := ⟨"s2c_disconnect", rfl⟩
def s2cUnimplemented : Identifier := ⟨"s2c_unimplemented", rfl⟩
def s2cDebug : Identifier := ⟨"s2c_debug", rfl⟩

def encrypted : Identifier := ⟨"encrypted", rfl⟩
def macOk : Identifier := ⟨"mac_ok", rfl⟩
def hostkeyPresent : Identifier := ⟨"hostkey_present", rfl⟩
def sigOk : Identifier := ⟨"sig_ok", rfl⟩
def pktLen : Identifier := ⟨"pkt_len", rfl⟩
def padLen : Identifier := ⟨"pad_len", rfl⟩
def chanDataLen : Identifier := ⟨"chan_data_len", rfl⟩
def authAttempts : Identifier := ⟨"auth_attempts", rfl⟩
def isAuthMethodNone : Identifier := ⟨"is_auth_method_none", rfl⟩
def reportViolation : Identifier := ⟨"report_violation", rfl⟩
def violationCode : Identifier := ⟨"violation_code", rfl⟩

/-- `H(left -> right)`. -/
def rule (left right : Formula) : Formula := .h (.paren (.arrow left right))

/-- `O(request = value)` and `O(response = value)`. -/
def onceRequest (value : Identifier) : Formula := .o (.paren (request.is value))
def onceResponse (value : Identifier) : Formula := .o (.paren (response.is value))

def bothNewkeys : Formula := .paren (.and (onceRequest c2sNewkeysRequest) (onceResponse s2cNewkeysResponse))

/-- The event that completes the exchange of `NEWKEYS`. -/
def newkeysComplete : Formula :=
  .paren (.or (.paren (.and (request.is c2sNewkeysRequest) (onceResponse s2cNewkeysResponse)))
    (.paren (.and (response.is s2cNewkeysResponse) (onceRequest c2sNewkeysRequest))))

def openConfirmed : Formula := .paren (.and (onceRequest c2sChannelOpen) (onceResponse s2cChannelOpenConfirmation))

/-- `ssh.txt`. -/
def tree : SpecTree where
  declaration := .enum request requestNotSet
    [c2sKexinit, c2sKexdhInit, c2sKexEcdhInit, c2sNewkeysRequest, c2sServiceRequestUserauth, c2sUserauthRequest,
      c2sChannelOpen, c2sChannelWindowAdjust, c2sChannelData, c2sChannelEof, c2sChannelClose, c2sChannelRequest,
      c2sGlobalRequest, c2sDisconnect, c2sUnimplemented, c2sDebug]
  declarations :=
    [.enum response responseNotSet
        [s2cKexinit, s2cKexdhReply, s2cKexEcdhReply, s2cNewkeysResponse, s2cServiceAcceptUserauth, s2cUserauthFailure,
          s2cUserauthSuccess, s2cUserauthBanner, s2cChannelOpenConfirmation, s2cChannelOpenFailure, s2cChannelWindowAdjust,
          s2cChannelData, s2cChannelEof, s2cChannelClose, s2cChannelRequestResponse, s2cGlobalRequestResponse,
          s2cDisconnect, s2cUnimplemented, s2cDebug],
      .bool encrypted, .bool macOk, .bool hostkeyPresent, .bool sigOk, .int pktLen, .int padLen, .int chanDataLen,
      .int authAttempts, .bool isAuthMethodNone, .bool reportViolation, .int violationCode]
  formula := rule (response.is s2cNewkeysResponse) (.paren (.and (onceRequest c2sKexinit) (onceResponse s2cKexinit)))
  formulas :=
    [rule (.paren (.or (response.is s2cKexdhReply) (response.is s2cKexEcdhReply)))
        (.paren (.and hostkeyPresent.isTrue sigOk.isTrue)),
      rule (response.is s2cNewkeysResponse) (.o (.paren (.or (request.is c2sKexdhInit) (request.is c2sKexEcdhInit)))),
      .h (.paren (.s encrypted.isTrue newkeysComplete)),
      .h (.paren (.s macOk.isTrue newkeysComplete)),
      rule (.paren (.and (pktLen.compare .gt 0) (padLen.compare .gte 0)))
        (.paren (.conjunction (padLen.compare .gte 4) [padLen.compare .lt 256, .predicates ⟨pktLen, .gt, .id padLen⟩])),
      rule (response.is s2cServiceAcceptUserauth) (onceRequest c2sServiceRequestUserauth),
      rule (response.is s2cUserauthSuccess) (onceRequest c2sUserauthRequest),
      rule (response.is s2cUserauthSuccess) bothNewkeys,
      rule (response.is s2cUserauthSuccess) (.paren (authAttempts.compare .gt 0)),
      rule (response.is s2cUserauthSuccess) (.paren isAuthMethodNone.isFalse),
      rule
        (.paren (.disjunction (request.is c2sUserauthRequest)
          [response.is s2cUserauthFailure, response.is s2cUserauthSuccess]))
        (.paren (.arrow bothNewkeys encrypted.isTrue)),
      rule (response.is s2cChannelOpenConfirmation) (onceRequest c2sChannelOpen),
      rule (response.is s2cChannelOpenFailure) (onceRequest c2sChannelOpen),
      rule (response.is s2cChannelData) openConfirmed,
      rule (request.is c2sChannelData) (.not (onceRequest c2sChannelClose)),
      rule (response.is s2cChannelData) (.not (onceRequest c2sChannelClose)),
      rule (response.is s2cChannelWindowAdjust) openConfirmed,
      rule (response.is s2cChannelData) (.paren (chanDataLen.compare .gt 0)),
      rule (request.is c2sChannelEof) (.paren (.or (onceRequest c2sChannelClose) (onceResponse s2cChannelClose))),
      rule (response.is s2cUnimplemented)
        (.o (.paren (.or (request.is c2sGlobalRequest) (request.is c2sChannelRequest)))),
      rule (response.is s2cGlobalRequestResponse) (onceRequest c2sGlobalRequest),
      rule (.paren (.and (response.is s2cDisconnect) (onceResponse s2cNewkeysResponse)))
        (.o (.paren (.disjunction (response.is s2cUserauthFailure)
          [response.is s2cUserauthBanner, response.is s2cUserauthSuccess, response.is s2cServiceAcceptUserauth]))),
      rule (response.is s2cServiceAcceptUserauth)
        (.not (.o (.paren (.and (response.is s2cServiceAcceptUserauth)
          (.not (.paren (.disjunction (request.is c2sDisconnect)
            [response.is s2cDisconnect, request.is c2sNewkeysRequest, response.is s2cNewkeysResponse]))))))),
      rule bothNewkeys (.paren macOk.isTrue)]

/-- The fields of a line whose response is one of these. -/
def shapesOf (responses : List Response) : List (String × Shape) :=
  [("request", .enum (Request.all.map Request.text)), ("response", .enum (responses.map Response.text)),
    ("encrypted", .bool), ("mac_ok", .bool), ("hostkey_present", .bool), ("sig_ok", .bool), ("pkt_len", .int 31),
    ("pad_len", .int 31), ("chan_data_len", .int 31), ("auth_attempts", .int 31), ("is_auth_method_none", .bool)]

def shapes : List (String × Shape) := shapesOf Response.numbered

theorem shapes_fill : fills shapes tree = true := by decide +kernel

theorem shapes_layout : Layout (shapesOf (.banner :: Response.numbered)) := by decide +kernel

theorem predicates_match {responses : List Response} {message : Message} (listed : message.response ∈ responses)
    (session : Session) : Matches (shapesOf responses) (message.predicates session) := by
  have request : (Shape.enum (Request.all.map Request.text)).Admits message.request.text :=
    List.mem_map_of_mem (by cases message.request <;> decide)
  have response : (Shape.enum (responses.map Response.text)).Admits message.response.text := List.mem_map_of_mem listed
  simp only [shapesOf, Message.predicates, matches_cons, matches_nil, and_true, Shape.admits_bool, Shape.admits_int32,
    request, response]

/-- Only the identification string of a server is printed as more than a message number. -/
theorem build_matches {direction : Direction} {packet : Packet}
    (numbered : direction = .s2c → isSshBanner packet = false) (session : Session) :
    Matches shapes (adapter.build direction session packet).1 := by
  cases direction with
  | c2s =>
    have unset : Response.notSet ∈ Response.numbered := List.mem_cons_self
    simp only [adapter, buildRequestPredLine]
    split
    · exact predicates_match unset _
    · exact predicates_match unset _
  | s2c =>
    have listed : sshResponseEnumForType (getMsgType packet) ∈ Response.numbered := by
      unfold sshResponseEnumForType
      split <;> decide
    simp only [adapter, buildResponsePredLine, numbered rfl, Bool.false_eq_true, if_false]
    exact predicates_match listed _

theorem build_banner {packet : Packet} (banner : isSshBanner packet = true) (session : Session) :
    Matches (shapesOf (.banner :: Response.numbered)) (adapter.build .s2c session packet).1 ∧
      ("response", "s2c_banner") ∈ (adapter.build .s2c session packet).1 := by
  simp only [adapter, buildResponsePredLine, banner, if_true]
  have listed : Response.banner ∈ Response.banner :: Response.numbered := List.mem_cons_self
  refine ⟨predicates_match listed _, ?_⟩
  exact List.mem_cons_of_mem _ List.mem_cons_self

end Specification

end LtlFuzz.Adapter.Ssh

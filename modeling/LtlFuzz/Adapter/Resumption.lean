import LtlFuzz.Adapter.DnsmasqQueries
import LtlFuzz.Adapter.Memory
import LtlFuzz.Adapter.RtspTracking

/-! What a line tells of the packets that its adapter was given since the last reset. Where
two histories tell the same about the packets to come, the lines go on in the same way. -/

namespace LtlFuzz.Adapter

section Histories

variable {σ : Type}

/-- Two histories that tell the same about some packets to come. -/
def TellsAlike (told : Traffic → Direction × Packet → List Bool) : Traffic → Traffic → Traffic → Prop
  | _, _, [] => True
  | heard, other, packet :: traffic =>
    told heard packet = told other packet ∧ TellsAlike told (heard ++ [packet]) (other ++ [packet]) traffic

instance (told : Traffic → Direction × Packet → List Bool) (heard other traffic : Traffic) :
    Decidable (TellsAlike told heard other traffic) :=
  match traffic with
  | [] => inferInstanceAs (Decidable True)
  | packet :: traffic =>
    have : Decidable (TellsAlike told (heard ++ [packet]) (other ++ [packet]) traffic) := instDecidableTellsAlike told _ _ traffic
    inferInstanceAs (Decidable (told heard packet = told other packet ∧ _))

theorem TellsAlike.alikeOn {adapter : PredicateAdapter σ} {told : Traffic → Direction × Packet → List Bool}
    (fields : ∀ heard other packet, told heard packet = told other packet →
      (adapter.build packet.1 (adapter.after adapter.resetSession heard) packet.2).1 =
        (adapter.build packet.1 (adapter.after adapter.resetSession other) packet.2).1)
    {heard other traffic : Traffic} (alike : TellsAlike told heard other traffic) :
    adapter.AlikeOn (adapter.after adapter.resetSession heard) (adapter.after adapter.resetSession other) traffic := by
  induction traffic generalizing heard other with
  | nil => trivial
  | cons packet traffic ih =>
    have later := ih alike.2
    rw [PredicateAdapter.after_append, PredicateAdapter.after_append] at later
    exact ⟨fields heard other packet alike.1, later⟩

end Histories

namespace Ftp

/-- What a builder reads of a packet for the session. -/
inductive Reading where
  | command (command : Command) (restPosition : Int32)
  | reply (respCode : Nat)
  deriving DecidableEq, Repr

def reading : Direction × Packet → Reading
  | (.c2s, packet) =>
    let cmd := extractCommand packet.text
    .command (mapFtpCommand cmd) (if mapFtpCommand cmd = .rest then parseRestPosition packet cmd else 0)
  | (.s2c, packet) => .reply (extractResponseCode packet.text)

private theorem build_congr {packet other : Direction × Packet} (same : reading packet = reading other) (session : Session) :
    (adapter.build packet.1 session packet.2).2 = (adapter.build other.1 session other.2).2 := by
  obtain ⟨direction, packet⟩ := packet
  obtain ⟨otherDirection, other⟩ := other
  cases direction with
  | c2s =>
    cases otherDirection with
    | c2s =>
      obtain ⟨command, position⟩ := Reading.command.inj same
      simp only [adapter, buildCommandPredLine, Session.afterCommand, command]
      rw [command] at position
      generalize mapFtpCommand (extractCommand other.text) = read at position
      cases read with
      | rest =>
        exact congrArg (fun position => { session with
          lastCommand := .rest, restPosition := position, sequenceNumber := session.sequenceNumber + 1 }) position
      | _ => rfl
    | s2c => cases same
  | s2c =>
    cases otherDirection with
    | c2s => cases same
    | s2c =>
      have code : extractResponseCode packet.text = extractResponseCode other.text := Reading.reply.inj same
      simp only [adapter, buildResponsePredLine, code]

/-- Packets that are read alike leave the same session behind. -/
theorem after_congr {heard other : Traffic} (same : heard.map reading = other.map reading) (session : Session) :
    adapter.after session heard = adapter.after session other := by
  induction heard generalizing other session with
  | nil =>
    cases other with
    | nil => rfl
    | cons packet other => cases same
  | cons packet heard ih =>
    cases other with
    | nil => cases same
    | cons first other =>
      obtain ⟨head, tail⟩ := List.cons.inj same
      exact (congrArg (adapter.after · heard) (build_congr head session)).trans (ih tail _)

end Ftp

namespace Dnsmasq

/-- A reply with a header tells whether it answers one of the newest queries. -/
def told (heard : Traffic) : Direction × Packet → List Bool
  | (.c2s, _) => []
  | (.s2c, packet) =>
    if packet.bytes.length < 12 then []
    else [((queries heard).rtake maxTrackedQueries).any fun query => query.u16 0 == packet.u16 0 &&
      dnsParseFirstQuestion query (query.u16 4) == dnsParseFirstQuestion packet (packet.u16 4)]

private theorem findMatchingQuery_eq {session : Session} {heard : Traffic} (remembers : Remembers session heard) (queryId qtype : Nat) :
    session.findMatchingQuery queryId qtype = ((queries heard).rtake maxTrackedQueries).any fun query =>
      query.u16 0 == queryId && dnsParseFirstQuestion query (query.u16 4) == qtype := by
  simp [Session.findMatchingQuery, remembers.history, record, Function.comp_def]

theorem told_fields {heard other : Traffic} {packet : Direction × Packet} (same : told heard packet = told other packet) :
    (adapter.build packet.1 (adapter.after adapter.resetSession heard) packet.2).1 =
      (adapter.build packet.1 (adapter.after adapter.resetSession other) packet.2).1 := by
  have left := after_remembers heard
  have right := after_remembers other
  obtain ⟨direction, packet⟩ := packet
  by_cases short : packet.bytes.length < 12
  · rw [build_short left.initialized direction short, build_short right.initialized direction short]
  · have whole := Nat.not_lt.mp short
    rw [build_whole left.initialized direction whole, build_whole right.initialized direction whole]
    cases direction with
    | c2s => rfl
    | s2c =>
      simp only [told, if_neg short] at same
      rw [← findMatchingQuery_eq left, ← findMatchingQuery_eq right] at same
      simp only [Session.read, List.singleton_inj.mp same]

end Dnsmasq

namespace Dtls

/-- What a record says that a later line may depend on. -/
inductive Sign where
  | helloVerifyRequest | serverHello | certificateRequest | clientKeyExchange | clientCcs | serverCcs | clientFinished | serverFinished
  deriving DecidableEq, Repr

def sign (packet : Direction × Packet) : Option Sign :=
  if ¬ Whole packet.2 then none
  else if packet.2.byte 0 = handshake then
    match packet.1 with
    | .c2s =>
      if messageType .c2s packet.2 = Dtls.clientKeyExchange then some .clientKeyExchange
      else if messageType .c2s packet.2 = finished then some .clientFinished
      else none
    | .s2c =>
      if messageType .s2c packet.2 = Dtls.helloVerifyRequest then some .helloVerifyRequest
      else if messageType .s2c packet.2 = Dtls.serverHello then some .serverHello
      else if messageType .s2c packet.2 = Dtls.certificateRequest then some .certificateRequest
      else if messageType .s2c packet.2 = finished then some .serverFinished
      else none
  else if packet.2.byte 0 = changeCipherSpec then
    match packet.1 with
    | .c2s => some .clientCcs
    | .s2c => some .serverCcs
  else none

def signs (traffic : Traffic) : List Sign := traffic.filterMap sign

/-- The flags of a session are set for the signs it has been given. -/
structure Knows (session : Session) (given : List Sign) : Prop where
  initialized : session.sessionInitialized = true
  cookie : session.cookieExchangeDone = decide (.helloVerifyRequest ∈ given)
  cipher : session.cipherNegotiated = decide (.serverHello ∈ given)
  request : session.certificateRequestSent = decide (.certificateRequest ∈ given)
  keyExchange : session.clientKeyExchangeReceived = decide (.clientKeyExchange ∈ given)
  clientCcs : session.clientCcsReceived = decide (.clientCcs ∈ given)
  serverCcs : session.serverCcsSent = decide (.serverCcs ∈ given)
  clientFinished : session.clientFinishedReceived = decide (.clientFinished ∈ given)
  serverFinished : session.serverFinishedSent = decide (.serverFinished ∈ given)
  complete : session.handshakeComplete = decide (.clientFinished ∈ given ∧ .serverFinished ∈ given)

private theorem build_knows {session : Session} {given : List Sign} (knows : Knows session given) (packet : Direction × Packet) :
    Knows (adapter.build packet.1 session packet.2).2 (given ++ (sign packet).toList) := by
  obtain ⟨direction, packet⟩ := packet
  have ready : session.initialized = session := if_pos knows.initialized
  by_cases whole : Whole packet
  · have distinct : serverHelloDone ≠ finished := by decide
    obtain ⟨initialized, cookie, cipher, request, keyExchange, clientCcs, serverCcs, clientFinished, serverFinished, complete⟩ := knows
    rw [build_whole whole, ready, read_next, sign, if_neg (not_not_intro whole)]
    cases direction with
    | c2s =>
      simp only [Session.afterRequest, Session.complete]
      split_ifs <;> constructor <;> simp_all
    | s2c =>
      simp only [Session.afterResponse, Session.complete]
      split_ifs <;> constructor <;> simp_all
  · rw [build_broken whole, ready, sign, if_pos whole, Option.toList_none, List.append_nil]
    exact knows

theorem after_knows (traffic : Traffic) : Knows (adapter.after adapter.resetSession traffic) (signs traffic) := by
  induction traffic using List.reverseRecOn with
  | nil => exact ⟨rfl, rfl, rfl, rfl, rfl, rfl, rfl, rfl, rfl, rfl⟩
  | append_singleton before last ih =>
    have next := build_knows ih last
    have one : [last].filterMap sign = (sign last).toList := by cases found : sign last <;> simp [found]
    rw [PredicateAdapter.after_append, signs, List.filterMap_append, one]
    exact next

/-- What the name that is printed for a record tells of the signs before it. -/
def toldByName (given : List Sign) (direction : Direction) (packet : Packet) : List Bool :=
  if packet.byte 0 = handshake then
    if messageType direction packet = clientHello then [decide (.helloVerifyRequest ∈ given)]
    else
      match direction with
      | .c2s =>
        if messageType .c2s packet = certificate then [decide (.certificateRequest ∈ given)]
        else if messageType .c2s packet = finished then [decide (.clientCcs ∈ given ∧ .clientFinished ∉ given)]
        else []
      | .s2c => if messageType .s2c packet = finished then [decide (.serverCcs ∈ given ∧ .serverFinished ∉ given)] else []
  else if packet.byte 0 = changeCipherSpec then
    match direction with
    | .c2s => [decide (.clientKeyExchange ∈ given ∧ .clientCcs ∉ given)]
    | .s2c => [decide (.clientFinished ∈ given ∧ .serverCcs ∉ given)]
  else []

/-- Every line tells of the cipher and of the end of the handshake, this packet included. -/
def told (heard : Traffic) (packet : Direction × Packet) : List Bool :=
  let through := signs (heard ++ [packet])
  [decide (.serverHello ∈ through), decide (.clientFinished ∈ through ∧ .serverFinished ∈ through)] ++
    if Whole packet.2 then toldByName (signs heard) packet.1 packet.2 else []

section Names

variable {left right : Session} {given other : List Sign} (knows : Knows left given) (alsoKnows : Knows right other)
  {packet : Packet}

include knows alsoKnows

private theorem request_eq (same : toldByName given .c2s packet = toldByName other .c2s packet) :
    left.requestEnumForType (packet.byte 0) (messageType .c2s packet) =
      right.requestEnumForType (packet.byte 0) (messageType .c2s packet) := by
  have distinct : certificate ≠ Dtls.clientKeyExchange ∧ finished ≠ certificate := by decide
  simp only [Session.requestEnumForType, knows.cookie, knows.request, knows.clientCcs, knows.clientFinished, knows.keyExchange,
    alsoKnows.cookie, alsoKnows.request, alsoKnows.clientCcs, alsoKnows.clientFinished, alsoKnows.keyExchange]
  simp only [toldByName] at same
  split_ifs at same ⊢ <;> simp_all

private theorem response_eq (same : toldByName given .s2c packet = toldByName other .s2c packet) :
    left.responseEnumForType (packet.byte 0) (messageType .s2c packet) =
      right.responseEnumForType (packet.byte 0) (messageType .s2c packet) := by
  have distinct : finished ≠ clientHello ∧ changeCipherSpec ≠ handshake := by decide
  have ended (record : packet.byte 0 = handshake) :
      (messageType .s2c packet = finished ∧ left.serverCcsSent = true ∧ ¬left.serverFinishedSent = true) =
        (messageType .s2c packet = finished ∧ right.serverCcsSent = true ∧ ¬right.serverFinishedSent = true) := by
    refine propext (and_congr_right fun message => ?_)
    simp only [toldByName, if_pos record, message, if_neg distinct.1, if_true, List.singleton_inj, decide_eq_decide] at same
    simpa [knows.serverCcs, knows.serverFinished, alsoKnows.serverCcs, alsoKnows.serverFinished] using same
  have changed (record : packet.byte 0 = changeCipherSpec) :
      (left.clientFinishedReceived = true ∧ ¬left.serverCcsSent = true) =
        (right.clientFinishedReceived = true ∧ ¬right.serverCcsSent = true) := by
    simp only [toldByName, record, if_neg distinct.2, if_true, List.singleton_inj, decide_eq_decide] at same
    simpa [knows.serverCcs, knows.clientFinished, alsoKnows.serverCcs, alsoKnows.clientFinished] using same
  unfold Session.responseEnumForType
  by_cases record : packet.byte 0 = handshake
  · simp only [if_pos record, ended record]
  · simp only [if_neg record]
    by_cases cipher : packet.byte 0 = changeCipherSpec
    · simp only [if_pos cipher, changed cipher]
    · simp only [if_neg cipher]

private theorem cookie_eq {direction : Direction} (same : toldByName given direction packet = toldByName other direction packet)
    {next later : Session} (kept : messageType direction packet = clientHello → next.cookieExchangeDone = left.cookieExchangeDone)
    (alsoKept : messageType direction packet = clientHello → later.cookieExchangeDone = right.cookieExchangeDone) :
    (packet.byte 0 = handshake ∧ messageType direction packet = clientHello ∧ next.cookieExchangeDone = true) =
      (packet.byte 0 = handshake ∧ messageType direction packet = clientHello ∧ later.cookieExchangeDone = true) := by
  refine propext (and_congr_right fun record => and_congr_right fun message => ?_)
  simp only [toldByName, if_pos record, if_pos message, ← knows.cookie, ← alsoKnows.cookie] at same
  rw [kept message, alsoKept message, List.singleton_inj.mp same]

private theorem read_eq {direction : Direction} (same : toldByName given direction packet = toldByName other direction packet) :
    (left.read direction packet).1 = (right.read direction packet).1 := by
  cases direction with
  | c2s =>
    have kept (session : Session) : (session.afterRequest (packet.byte 0) (messageType .c2s packet)).cookieExchangeDone =
        session.cookieExchangeDone := by
      simp only [Session.afterRequest, Session.complete]
      split_ifs <;> rfl
    have request := request_eq knows alsoKnows same
    have cookie := cookie_eq knows alsoKnows same (fun _ => kept left) fun _ => kept right
    simp only [messageType] at request cookie
    simp only [Session.read, request, cookie, reduceCtorEq, if_false]
  | s2c =>
    have kept (session : Session) (message : messageType .s2c packet = clientHello) :
        (session.afterResponse (packet.byte 0) (messageType .s2c packet)).cookieExchangeDone = session.cookieExchangeDone := by
      have distinct : clientHello ≠ Dtls.helloVerifyRequest := by decide
      simp only [Session.afterResponse, Session.complete, message, if_neg distinct]
      split_ifs <;> rfl
    have response := response_eq knows alsoKnows same
    have cookie := cookie_eq knows alsoKnows same (kept left) (kept right)
    simp only [messageType] at response cookie
    simp only [Session.read, response, cookie, reduceCtorEq, if_false]

end Names

theorem told_fields {heard other : Traffic} {packet : Direction × Packet} (same : told heard packet = told other packet) :
    (adapter.build packet.1 (adapter.after adapter.resetSession heard) packet.2).1 =
      (adapter.build packet.1 (adapter.after adapter.resetSession other) packet.2).1 := by
  have knows := after_knows heard
  have alsoKnows := after_knows other
  have next := after_knows (heard ++ [packet])
  have alsoNext := after_knows (other ++ [packet])
  rw [PredicateAdapter.after_append] at next alsoNext
  obtain ⟨cipher, complete, name⟩ := (List.cons.inj same).imp_right List.cons.inj
  rw [← next.cipher, ← alsoNext.cipher] at cipher
  rw [← next.complete, ← alsoNext.complete] at complete
  generalize adapter.after adapter.resetSession heard = left at *
  generalize adapter.after adapter.resetSession other = right at *
  obtain ⟨direction, packet⟩ := packet
  have ready : left.initialized = left := if_pos knows.initialized
  have alsoReady : right.initialized = right := if_pos alsoKnows.initialized
  simp only [PredicateAdapter.after, List.foldl_cons, List.foldl_nil] at cipher complete
  by_cases whole : Whole packet
  · simp only [build_whole whole, ready, alsoReady] at cipher complete ⊢
    have read := read_eq knows alsoKnows (show toldByName _ direction packet = _ by simpa [whole] using name)
    simp only [Record.predicates, read, cipher, complete]
  · simp only [build_broken whole, ready, alsoReady] at cipher complete ⊢
    simp only [Record.predicates, cipher, complete]

end Dtls

namespace Rtsp

/-- A session without what it knows of the last request. -/
def Session.forget (session : Session) : Session :=
  { session with
    lastReqCseq := -1, lastReqMethod := .notSet, lastReqHasSession := false, lastReqSessionId := []
    lastReqTransportUdp := false, lastReqTransportTcp := false, lastReqClientPorts := false }

private theorem forget_initialized {session : Session} (same : session.forget = resetSession) : session.sessionInitialized = true :=
  congrArg Session.sessionInitialized same

private theorem build_request {session : Session} (same : session.forget = resetSession) (packet : Packet) :
    adapter.build .c2s session packet = adapter.build .c2s resetSession packet := by
  obtain ⟨_, _, _, _, cseq, method, hasSession, sessionId, udp, tcp, ports, _, _⟩ := session
  cases same
  rfl

/-- Nothing else is ever known of a session. -/
theorem after_forget (traffic : Traffic) : (adapter.after adapter.resetSession traffic).forget = resetSession := by
  refine adapter.after_invariant (fun session => session.forget = resetSession) ?_ rfl traffic
  intro session direction packet same
  cases direction with
  | c2s =>
    rw [build_request same]
    rfl
  | s2c => rwa [build_reply (forget_initialized same)]

theorem alikeOn_request (heard other : Traffic) (packet : Packet) (traffic : Traffic) :
    adapter.AlikeOn (adapter.after adapter.resetSession heard) (adapter.after adapter.resetSession other) ((.c2s, packet) :: traffic) := by
  have same := (build_request (after_forget heard) packet).trans (build_request (after_forget other) packet).symm
  refine ⟨congrArg Prod.fst same, ?_⟩
  rw [same]
  exact Rtsp.view.alikeOn rfl traffic

end Rtsp

/-- When an adapter that was given `heard` since its last reset goes on with the messages of a client
as one that was given `other`. For FTP every line counts; a DNS reply is compared with the newest
queries; the RTSP lines tell nothing but what the last request was. -/
def Protocol.Resumes (heard other traffic : Traffic) : Protocol → Prop
  | .ftp => traffic = [] ∨ heard.map Ftp.reading = other.map Ftp.reading
  | .dtls => TellsAlike Dtls.told heard other traffic
  | .dnsmasq => TellsAlike Dnsmasq.told heard other traffic
  | .rtsp => True

theorem Protocol.resumes_alikeOn (protocol : Protocol) {heard other traffic : Traffic}
    (asks : ∀ packet ∈ traffic.head?, packet.1 = .c2s) (resumes : protocol.Resumes heard other traffic) :
    protocol.adapter.AlikeOn (protocol.adapter.after protocol.adapter.resetSession heard)
      (protocol.adapter.after protocol.adapter.resetSession other) traffic := by
  cases protocol with
  | ftp =>
    rcases resumes with rfl | same
    · trivial
    · exact Ftp.view.alikeOn (Ftp.after_congr same _) traffic
  | dtls => exact TellsAlike.alikeOn (fun _ _ _ => Dtls.told_fields) resumes
  | dnsmasq => exact TellsAlike.alikeOn (fun _ _ _ => Dnsmasq.told_fields) resumes
  | rtsp =>
    match traffic, asks with
    | [], _ => trivial
    | (direction, packet) :: traffic, asks =>
      obtain rfl : direction = .c2s := asks _ rfl
      exact Rtsp.alikeOn_request heard other packet traffic

end LtlFuzz.Adapter

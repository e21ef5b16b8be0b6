import Mathlib.Data.List.Induction
import LtlFuzz.Adapter.View

/-! Which packets a session remembers. A quiet packet leaves the view of the session as it
was; after any other packet since a reset there is one more packet whose line gives it
away. -/

namespace LtlFuzz.Adapter
open Monitor (boolToString)

namespace Ftp

/-- Every line counts. -/
def Quiet (_ : Direction × Packet) : Prop := False

/-- A reply that starts with no code. -/
def codeless : Packet := { bytes := [48] }

/-- The greeting flag stays set until a reset, and without it the lines have been counted. -/
def Counted (count : Nat) (session : Session) : Prop :=
  session.sessionInitialized = true ∨ session.sequenceNumber = Int32.ofNat count

private theorem Counted.next {count : Nat} {session : Session} (counted : Counted count session) :
    Counted (count + 1) { session with sequenceNumber := session.sequenceNumber + 1 } := by
  rw [Counted, Int32.ofNat_add]
  exact counted.imp id (congrArg (· + 1))

private theorem command_counted {count : Nat} {session : Session} (counted : Counted count session) (packet : Packet) :
    Counted (count + 1) (buildCommandPredLine session packet).2 := by
  have sent (cmd : List Char) {session : Session} (counted : Counted count session) :
      Counted count (session.afterCommand packet cmd) := by
    unfold Session.afterCommand
    split <;> exact counted
  have read : Counted count { session with lastCommand := mapFtpCommand (extractCommand packet.text) } := counted
  exact (sent (extractCommand packet.text) read).next

private theorem response_counted {count : Nat} {session : Session} (counted : Counted count session) (packet : Packet) :
    Counted (count + 1) (buildResponsePredLine session packet).2 := by
  have inferred (respCode : Nat) : Counted count (inferCommandFromResponse session respCode) := by
    unfold inferCommandFromResponse
    repeat' split
    all_goals exact counted
  have answered (respCode : Nat) {session : Session} (counted : Counted count session) :
      Counted count (session.afterResponse respCode) := by
    unfold Session.afterResponse
    repeat' refine iteInduction (fun _ => ?_) (fun _ => ?_)
    all_goals first | exact counted | exact Or.inl rfl
  exact (answered _ (inferred (extractResponseCode packet.text))).next

theorem after_counted (traffic : Traffic) : Counted traffic.length (adapter.after adapter.resetSession traffic) := by
  induction traffic using List.reverseRecOn with
  | nil => exact Or.inr rfl
  | append_singleton traffic packet ih =>
    rw [List.length_append, PredicateAdapter.after_append]
    obtain ⟨direction, packet⟩ := packet
    cases direction with
    | c2s => exact command_counted ih packet
    | s2c => exact response_counted ih packet

private theorem build_codeless (session : Session) :
    (adapter.build .s2c session codeless).1 =
      { session with sequenceNumber := session.sequenceNumber + 1 }.predicates session.lastCommand .notSet 0 false true true := by
  have unanswered : (inferCommandFromResponse session 0).afterResponse 0 = session := by
    simp [inferCommandFromResponse, Session.afterResponse]
  have code : extractResponseCode codeless.text = 0 := by decide
  have malformed : isRespMalformed codeless.text = true := by decide
  simp only [adapter, buildResponsePredLine, code, unanswered, malformed]
  rfl

theorem remembered {traffic : Traffic} (short : traffic.length < 2 ^ 32) (some_packet : traffic ≠ []) :
    (adapter.build .s2c (adapter.after adapter.resetSession traffic) codeless).1 ≠
      (adapter.build .s2c adapter.resetSession codeless).1 := by
  intro same
  have counted := after_counted traffic
  generalize adapter.after adapter.resetSession traffic = session at same counted
  rw [build_codeless, build_codeless] at same
  have number : (session.sequenceNumber + 1).toInt = (0 + 1 : Int32).toInt :=
    Text.toString_int_injective (Prod.mk.inj (Option.some.inj (congrArg (·[3]?) same))).2
  have greeting : boolToString session.sessionInitialized = boolToString false :=
    (Prod.mk.inj (Option.some.inj (congrArg (·[30]?) same))).2
  rcases counted with initialized | counted
  · rw [initialized] at greeting
    exact absurd greeting (by decide)
  · rw [counted] at number
    have zero : Int32.ofNat traffic.length = 0 := (Int32.add_left_inj 1).mp (Int32.toInt.inj number)
    have empty := congrArg (fun count : Int32 => count.toBitVec.toNat) zero
    simp only [Int32.toBitVec_ofNat', BitVec.toNat_ofNat, Nat.mod_eq_of_lt short] at empty
    exact some_packet (List.length_eq_zero_iff.mp empty)

end Ftp

namespace Dnsmasq

/-- Only a query with a whole header is recorded. -/
def Quiet : Direction × Packet → Prop
  | (.c2s, packet) => packet.bytes.length < 12
  | (.s2c, _) => True

theorem build_quiet {direction : Direction} {packet : Packet} (quiet : Quiet (direction, packet)) (session : Session) :
    (adapter.build direction session packet).2 = session.initialized := by
  cases direction with
  | c2s => simp only [adapter, buildPredLineInternal, if_pos (show packet.bytes.length < 12 from quiet)]
  | s2c =>
    simp only [adapter, buildPredLineInternal]
    split <;> rfl

/-- Every record of the history stems from a query. -/
def Recorded (session : Session) : Prop :=
  session.sessionInitialized = true ∧ ∀ record ∈ session.queryHistory, record.valid = true ∧ ∃ packet : Packet,
    12 ≤ packet.bytes.length ∧ record.queryId = packet.u16 0 ∧
      record.qtype = dnsParseFirstQuestion packet (packet.u16 4)

theorem build_query {packet : Packet} (whole : ¬ packet.bytes.length < 12) {session : Session}
    (ready : session.sessionInitialized = true) :
    (adapter.build .c2s session packet).2 =
      session.trackQuery (packet.u16 0) (dnsParseFirstQuestion packet (packet.u16 4)) := by
  simp only [adapter, buildPredLineInternal, if_neg whole, Session.initialized, if_pos ready]
  rfl

theorem build_cases (direction : Direction) (packet : Packet) :
    Quiet (direction, packet) ∨ direction = .c2s ∧ ¬ packet.bytes.length < 12 := by
  cases direction with
  | c2s => exact (Decidable.em (packet.bytes.length < 12)).imp id fun whole => ⟨rfl, whole⟩
  | s2c => exact Or.inl trivial

private theorem mem_trackQuery {session : Session} {queryId qtype : Nat} {record : QueryRecord}
    (member : record ∈ (session.trackQuery queryId qtype).queryHistory) :
    record ∈ session.queryHistory ∨ record = ⟨queryId, qtype, true⟩ := by
  simp only [Session.trackQuery, List.mem_append, List.mem_singleton] at member
  refine member.imp ?_ id
  split
  · exact List.mem_of_mem_tail
  · exact id

private theorem build_recorded {session : Session} (recorded : Recorded session) (direction : Direction) (packet : Packet) :
    Recorded (adapter.build direction session packet).2 := by
  obtain ⟨ready, stems⟩ := recorded
  rcases build_cases direction packet with quiet | ⟨rfl, whole⟩
  · rw [build_quiet quiet, Session.initialized, if_pos ready]
    exact ⟨ready, stems⟩
  · rw [build_query whole ready]
    refine ⟨ready, ?_⟩
    intro record member
    rcases mem_trackQuery member with old | rfl
    · exact stems record old
    · exact ⟨rfl, packet, Nat.le_of_not_lt whole, rfl, rfl⟩

private theorem build_marked {session : Session} (recorded : Recorded session) {direction : Direction} {packet : Packet}
    (marked : ¬ Quiet (direction, packet) ∨ session.queryHistory ≠ []) :
    (adapter.build direction session packet).2.queryHistory ≠ [] := by
  rcases build_cases direction packet with quiet | ⟨rfl, whole⟩
  · rw [build_quiet quiet, Session.initialized, if_pos recorded.1]
    exact marked.resolve_left (not_not_intro quiet)
  · rw [build_query whole recorded.1]
    simp [Session.trackQuery]

private theorem build_response {packet : Packet} (whole : 12 ≤ packet.bytes.length) {session : Session}
    (ready : session.sessionInitialized = true) :
    (adapter.build .s2c session packet).1[19]? = some ("id_match",
      boolToString (session.findMatchingQuery (packet.u16 0) (dnsParseFirstQuestion packet (packet.u16 4)))) := by
  simp only [adapter, buildPredLineInternal, if_neg (Nat.not_lt.mpr whole), Session.initialized, if_pos ready]
  rfl

/-- The reply to a recorded query shows that it was recorded. -/
theorem remembered {traffic : Traffic} (unquiet : ∃ packet ∈ traffic, ¬ Quiet packet) :
    ∃ packet : Packet, packet.bytes ≠ [] ∧
      (adapter.build .s2c (adapter.after adapter.resetSession traffic) packet).1 ≠
        (adapter.build .s2c adapter.resetSession packet).1 := by
  have fresh : Recorded adapter.resetSession := ⟨rfl, by simp [adapter, resetSession]⟩
  obtain ⟨⟨ready, stems⟩, nonempty⟩ := adapter.after_marked Recorded (·.queryHistory ≠ [])
    (fun _ direction packet recorded => build_recorded recorded direction packet)
    (fun _ _ _ recorded => build_marked recorded) fresh unquiet
  generalize adapter.after adapter.resetSession traffic = session at *
  obtain ⟨record, member⟩ := List.exists_mem_of_ne_nil _ nonempty
  obtain ⟨valid, packet, whole, sameId, sameType⟩ := stems record member
  refine ⟨packet, ?_, ?_⟩
  · intro empty
    rw [empty] at whole
    exact absurd whole (by decide)
  · intro same
    have found : session.findMatchingQuery (packet.u16 0) (dnsParseFirstQuestion packet (packet.u16 4)) = true :=
      List.any_eq_true.mpr ⟨record, member, by simp [valid, sameId, sameType]⟩
    have told := build_response whole ready
    have untold : (adapter.build .s2c adapter.resetSession packet).1[19]? = some ("id_match", boolToString false) :=
      build_response whole rfl
    rw [same, untold, found] at told
    exact absurd told (by decide)

end Dnsmasq

namespace Dtls

/-- A buffer that starts with a whole record. -/
def Whole (packet : Packet) : Prop :=
  13 ≤ packet.bytes.length ∧ packet.byte 0 ≠ 0 ∧ 13 + packet.u16 11 ≤ packet.bytes.length

instance : DecidablePred Whole := fun packet =>
  inferInstanceAs (Decidable (13 ≤ packet.bytes.length ∧ packet.byte 0 ≠ 0 ∧ 13 + packet.u16 11 ≤ packet.bytes.length))

/-- The handshake messages that set a flag some builder reads. -/
def flagged : Direction → List Nat
  | .c2s => [clientKeyExchange, finished]
  | .s2c => [helloVerifyRequest, serverHello, certificateRequest, finished]

/-- Everything but change cipher spec records and the flagged handshake messages. -/
def Quiet (packet : Direction × Packet) : Prop :=
  Whole packet.2 → packet.2.byte 0 ≠ changeCipherSpec ∧
    (packet.2.byte 0 = handshake → messageType packet.1 packet.2 ∉ flagged packet.1)

theorem build_broken {packet : Packet} (broken : ¬ Whole packet) (direction : Direction) (session : Session) :
    adapter.build direction session packet = (({ } : Record).predicates session.initialized, session.initialized) := by
  have short : packet.bytes.length < 13 ∨ packet.byte 0 = 0 ∨ packet.bytes.length < 13 + packet.u16 11 := by
    unfold Whole at broken
    omega
  simp only [adapter, buildPredLineInternal, if_pos short]

theorem build_whole {packet : Packet} (whole : Whole packet) (direction : Direction) (session : Session) :
    adapter.build direction session packet =
      ((session.initialized.read direction packet).1.predicates (session.initialized.read direction packet).2,
        (session.initialized.read direction packet).2) := by
  have long : ¬ (packet.bytes.length < 13 ∨ packet.byte 0 = 0 ∨ packet.bytes.length < 13 + packet.u16 11) := by
    unfold Whole at whole
    omega
  simp only [adapter, buildPredLineInternal, if_neg long]

theorem read_next (session : Session) (direction : Direction) (packet : Packet) :
    (session.read direction packet).2 =
      match direction with
      | .c2s => session.afterRequest (packet.byte 0) (messageType .c2s packet)
      | .s2c => session.afterResponse (packet.byte 0) (messageType .s2c packet) := by
  cases direction <;> rfl

theorem build_quiet {direction : Direction} {packet : Packet} (quiet : Quiet (direction, packet)) (session : Session) :
    (adapter.build direction session packet).2.visible = session.visible := by
  have ready : session.initialized.visible = session.visible := by
    unfold Session.visible Session.initialized
    split <;> simp_all [resetSession]
  rw [← ready]
  apply Session.visible_eq
  by_cases whole : Whole packet
  · obtain ⟨plain, unflagged⟩ := quiet whole
    rw [build_whole whole, read_next]
    cases direction with
    | c2s =>
      simp only [flagged, List.mem_cons, not_or] at unflagged
      simp only [Session.afterRequest, if_neg plain]
      split_ifs <;> simp_all
    | s2c =>
      simp only [flagged, List.mem_cons, not_or] at unflagged
      simp only [Session.afterResponse, if_neg plain]
      split_ifs <;> simp_all [Session.hide]
  · rw [build_broken whole]

/-- A flag that some line depends on is set. -/
def Marked (session : Session) : Prop :=
  session.cookieExchangeDone = true ∨ session.cipherNegotiated = true ∨ session.certificateRequestSent = true ∨
    session.clientKeyExchangeReceived = true ∨ session.clientCcsReceived = true ∨ session.serverCcsSent = true ∨
    session.clientFinishedReceived = true ∨ session.serverFinishedSent = true

/-- A session whose flags builders have set. -/
def Sound (session : Session) : Prop :=
  session.sessionInitialized = true ∧
    (session.clientFinishedReceived = true → session.serverFinishedSent = true → session.handshakeComplete = true)

private theorem build_sound {session : Session} (sound : Sound session) (direction : Direction) (packet : Packet) :
    Sound (adapter.build direction session packet).2 := by
  have ready : session.initialized = session := if_pos sound.1
  by_cases whole : Whole packet
  · rw [build_whole whole, ready, read_next]
    cases direction with
    | c2s =>
      simp only [Session.afterRequest, Session.complete]
      split_ifs <;> simp_all [Sound]
    | s2c =>
      simp only [Session.afterResponse, Session.complete]
      split_ifs <;> simp_all [Sound]
  · rw [build_broken whole, ready]
    exact sound

private theorem build_marked {session : Session} (sound : Sound session) {direction : Direction} {packet : Packet}
    (marked : ¬ Quiet (direction, packet) ∨ Marked session) : Marked (adapter.build direction session packet).2 := by
  have ready : session.initialized = session := if_pos sound.1
  by_cases whole : Whole packet
  · have distinct : handshake ≠ changeCipherSpec ∧ serverHelloDone ≠ finished := by decide
    rw [build_whole whole, ready, read_next]
    simp only [Quiet, whole, forall_const] at marked
    cases direction with
    | c2s =>
      simp only [flagged, List.mem_cons, List.not_mem_nil, or_false] at marked
      simp only [Session.afterRequest, Session.complete]
      split_ifs <;> simp_all [Marked]
    | s2c =>
      simp only [flagged, List.mem_cons, List.not_mem_nil, or_false] at marked
      simp only [Session.afterResponse, Session.complete]
      split_ifs <;> simp_all [Marked]
  · rw [build_broken whole, ready]
    exact marked.resolve_left (not_not_intro fun impossible => absurd impossible whole)

/-- A record of the first epoch. -/
def record (contentType : UInt8) (body : List UInt8) : Packet :=
  { bytes := [contentType, 254, 253, 0, 0, 0, 0, 0, 0, 0, 0, 0, body.length.toUInt8] ++ body }

def handshakeMessage (messageType : UInt8) : Packet := record 22 (messageType :: List.replicate 11 0)

def cipherChange : Packet := record 20 [1]

private theorem differs {fields others : List Field} (i : Nat) (field : Field) (told : fields[i]? = some field)
    (untold : others[i]? ≠ some field) : fields ≠ others := by
  intro same
  rw [same] at told
  exact untold told

/-- One packet is enough to see that a flag is set. -/
private theorem marked_told {session : Session} (sound : Sound session) (marked : Marked session) :
    ∃ direction packet, packet.bytes ≠ [] ∧
      (adapter.build direction session packet).1 ≠ (adapter.build direction resetSession packet).1 := by
  obtain ⟨ready, complete⟩ := sound
  obtain ⟨cookie, _, _, keyExchange, clientCcs, serverCcs, clientFinished, serverFinished, handshakeComplete, cipher,
    request, initialized⟩ := session
  simp only [Marked] at ready complete marked
  subst ready
  rcases marked with rfl | rfl | rfl | flags
  · exact ⟨.c2s, handshakeMessage 1, by decide, differs 0 ("request", "c2s_ClientHello_with_cookie") rfl (by decide)⟩
  · exact ⟨.c2s, handshakeMessage 1, by decide, differs 13 ("cipher_negotiated", "true") rfl (by decide)⟩
  · exact ⟨.c2s, handshakeMessage 11, by decide, differs 0 ("request", "c2s_Certificate") rfl (by decide)⟩
  · cases clientFinished with
    | true =>
      cases serverFinished with
      | true =>
        cases complete rfl rfl
        exact ⟨.c2s, handshakeMessage 1, by decide, differs 12 ("handshake_complete", "true") rfl (by decide)⟩
      | false => exact ⟨.s2c, handshakeMessage 20, by decide, differs 12 ("handshake_complete", "true") rfl (by decide)⟩
    | false =>
      cases serverFinished with
      | true => exact ⟨.c2s, handshakeMessage 20, by decide, differs 12 ("handshake_complete", "true") rfl (by decide)⟩
      | false =>
        cases serverCcs with
        | true => exact ⟨.s2c, handshakeMessage 20, by decide, differs 1 ("response", "s2c_Finished") rfl (by decide)⟩
        | false =>
          cases clientCcs with
          | true => exact ⟨.c2s, handshakeMessage 20, by decide, differs 0 ("request", "c2s_Finished") rfl (by decide)⟩
          | false =>
            obtain rfl : keyExchange = true := by simpa using flags
            exact ⟨.c2s, cipherChange, by decide, differs 0 ("request", "c2s_ChangeCipherSpec") rfl (by decide)⟩

theorem remembered {traffic : Traffic} (unquiet : ∃ packet ∈ traffic, ¬ Quiet packet) :
    ∃ direction packet, packet.bytes ≠ [] ∧
      (adapter.build direction (adapter.after adapter.resetSession traffic) packet).1 ≠
        (adapter.build direction adapter.resetSession packet).1 := by
  have fresh : Sound adapter.resetSession := ⟨rfl, by intro impossible; cases impossible⟩
  obtain ⟨sound, marked⟩ := adapter.after_marked Sound Marked
    (fun _ direction packet sound => build_sound sound direction packet)
    (fun _ _ _ sound => build_marked sound) fresh unquiet
  exact marked_told sound marked

end Dtls

end LtlFuzz.Adapter

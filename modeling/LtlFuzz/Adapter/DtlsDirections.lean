import LtlFuzz.Adapter.Dtls
import Mathlib.Data.List.Induction

/-! The two directions of the DTLS adapter. What one side sends leaves alone what is known of the
other side, and the handshake is complete as soon as both sides have finished. -/

namespace LtlFuzz.Adapter.Dtls

section Sides

/-- What the records of a client tell. -/
def Session.clientSide (session : Session) : List Bool :=
  [session.clientKeyExchangeReceived, session.clientCcsReceived, session.clientFinishedReceived]

/-- What the records of a server tell. -/
def Session.serverSide (session : Session) : List Bool :=
  [session.cookieExchangeDone, session.serverHelloSent, session.certificateRequestSent, session.cipherNegotiated,
    session.serverHelloDoneSent, session.serverCcsSent, session.serverFinishedSent]

def Session.flags (session : Session) : List Bool := session.clientSide ++ session.serverSide ++ [session.handshakeComplete]

/-- The session after some calls. -/
def sessionAfter (inputs : List Input) : Session :=
  inputs.foldl (fun session input =>
    match input with
    | .reset => adapter.resetSession
    | .packet direction packet => (adapter.build direction session packet).2) adapter.start

/-- The packets since the last reset. -/
def sinceReset (inputs : List Input) : List (Direction × Packet) :=
  inputs.foldl (fun packets input =>
    match input with
    | .reset => []
    | .packet direction packet => packets ++ [(direction, packet)]) []

/-- There is no whole record. -/
def Malformed (packet : Packet) : Prop :=
  packet.bytes.length < 13 ∨ packet.byte 0 = 0 ∨ packet.bytes.length < 13 + packet.u16 11

/-- A record that is taken for a Finished message. -/
def IsFinished (direction : Direction) (packet : Packet) : Prop :=
  ¬Malformed packet ∧ packet.byte 0 = handshake ∧ messageType direction packet = finished

def Session.after (session : Session) (direction : Direction) (contentType messageType : Nat) : Session :=
  match direction with
  | .c2s => session.afterRequest contentType messageType
  | .s2c => session.afterResponse contentType messageType

theorem sessionAfter_packet (inputs : List Input) (direction : Direction) (packet : Packet) :
    sessionAfter (inputs ++ [.packet direction packet]) = (adapter.build direction (sessionAfter inputs) packet).2 := by
  simp [sessionAfter]

theorem sessionAfter_reset (inputs : List Input) : sessionAfter (inputs ++ [.reset]) = resetSession := by
  simp [sessionAfter, adapter]

theorem sinceReset_packet (inputs : List Input) (direction : Direction) (packet : Packet) :
    sinceReset (inputs ++ [.packet direction packet]) = sinceReset inputs ++ [(direction, packet)] := by
  simp [sinceReset]

theorem sinceReset_reset (inputs : List Input) : sinceReset (inputs ++ [.reset]) = [] := by
  simp [sinceReset]

end Sides

section Calls

variable (session : Session) (direction : Direction) (packet : Packet)

theorem build_malformed {packet : Packet} (malformed : Malformed packet) :
    adapter.build direction session packet = (({ } : Record).predicates session.initialized, session.initialized) :=
  if_pos malformed

theorem build_record {packet : Packet} (whole : ¬Malformed packet) :
    adapter.build direction session packet =
      ((session.initialized.read direction packet).1.predicates (session.initialized.read direction packet).2,
        session.initialized.after direction (packet.byte 0) (messageType direction packet)) := by
  have built : adapter.build direction session packet =
      ((session.initialized.read direction packet).1.predicates (session.initialized.read direction packet).2,
        (session.initialized.read direction packet).2) := if_neg whole
  rw [built]
  cases direction <;> rfl

private theorem complete_sides : session.complete.clientSide = session.clientSide ∧ session.complete.serverSide = session.serverSide := by
  rw [Session.complete]
  split <;> exact ⟨rfl, rfl⟩

theorem afterRequest_serverSide (contentType messageType : Nat) :
    (session.afterRequest contentType messageType).serverSide = session.serverSide := by
  unfold Session.afterRequest
  split_ifs
  · rfl
  · exact (complete_sides _).2
  · rfl
  · rfl
  · rfl

theorem afterResponse_clientSide (contentType messageType : Nat) :
    (session.afterResponse contentType messageType).clientSide = session.clientSide := by
  unfold Session.afterResponse
  split_ifs
  · rfl
  · rfl
  · rfl
  · rfl
  · exact (complete_sides _).1
  · rfl
  · rfl
  · rfl

private theorem complete_finished : session.complete.clientFinishedReceived = session.clientFinishedReceived ∧
    session.complete.serverFinishedSent = session.serverFinishedSent := by
  rw [Session.complete]
  split <;> exact ⟨rfl, rfl⟩

private theorem complete_done (before : session.handshakeComplete = true →
      session.clientFinishedReceived = true ∧ session.serverFinishedSent = true) :
    session.complete.handshakeComplete = (session.complete.clientFinishedReceived && session.complete.serverFinishedSent) := by
  rw [(complete_finished session).1, (complete_finished session).2, Session.complete]
  split
  · next both => simp [both]
  · next one =>
    rw [← Bool.and_eq_true] at one before
    rw [Bool.eq_false_iff.mpr one]
    exact Bool.eq_false_iff.mpr fun done => one (before done)

/-- Only a Finished message of the client says that the client has finished. -/
theorem afterRequest_finished (contentType messageType : Nat) :
    (session.afterRequest contentType messageType).clientFinishedReceived =
      (decide (contentType = handshake ∧ messageType = finished) || session.clientFinishedReceived) := by
  unfold Session.afterRequest
  split_ifs with first second third fourth
  · simp [second, clientKeyExchange, finished]
  · rw [(complete_finished _).1]
    simp [first, third]
  · simp [third]
  · simp [first]
  · simp [first]

theorem afterResponse_finished (contentType messageType : Nat) :
    (session.afterResponse contentType messageType).serverFinishedSent =
      (decide (contentType = handshake ∧ messageType = finished) || session.serverFinishedSent) := by
  unfold Session.afterResponse
  split_ifs with first one two three four five last
  · simp [one, helloVerifyRequest, finished]
  · simp [two, serverHello, finished]
  · simp [three, certificateRequest, finished]
  · simp [four, serverHelloDone, finished]
  · rw [(complete_finished _).2]
    simp [first, five]
  · simp [five]
  · simp [first]
  · simp [first]

/-- The handshake is complete if both sides have finished, and not before. -/
theorem after_complete (direction : Direction) (contentType messageType : Nat)
    (before : session.handshakeComplete = (session.clientFinishedReceived && session.serverFinishedSent)) :
    (session.after direction contentType messageType).handshakeComplete =
      ((session.after direction contentType messageType).clientFinishedReceived &&
        (session.after direction contentType messageType).serverFinishedSent) := by
  have both : session.handshakeComplete = true → session.clientFinishedReceived = true ∧ session.serverFinishedSent = true := by
    intro done
    rwa [before, Bool.and_eq_true] at done
  cases direction with
  | c2s =>
    simp only [Session.after, Session.afterRequest]
    split_ifs
    · exact before
    · exact complete_done _ fun done => ⟨rfl, (both done).2⟩
    · exact before
    · exact before
    · exact before
  | s2c =>
    simp only [Session.after, Session.afterResponse]
    split_ifs
    · exact before
    · exact before
    · exact before
    · exact before
    · exact complete_done _ fun done => ⟨(both done).1, rfl⟩
    · exact before
    · exact before
    · exact before

end Calls

section Runs

/-- What the flags say of the packets since the last reset. -/
structure Follows (session : Session) (packets : List (Direction × Packet)) : Prop where
  fresh : session.sessionInitialized = false → session = {}
  client : session.clientFinishedReceived = true ↔ ∃ packet, (.c2s, packet) ∈ packets ∧ IsFinished .c2s packet
  server : session.serverFinishedSent = true ↔ ∃ packet, (.s2c, packet) ∈ packets ∧ IsFinished .s2c packet
  complete : session.handshakeComplete = (session.clientFinishedReceived && session.serverFinishedSent)

/-- A session that was not initialized is like a new one. -/
private theorem Follows.initialized {session : Session} {packets : List (Direction × Packet)} (follows : Follows session packets) :
    Follows session.initialized packets ∧ session.initialized.flags = session.flags := by
  rw [Session.initialized]
  split
  · exact ⟨follows, rfl⟩
  · next unset =>
    have new := follows.fresh (Bool.not_eq_true _ ▸ unset)
    have client := follows.client
    have server := follows.server
    rw [new] at client server ⊢
    exact ⟨⟨fun wrong => (nomatch wrong), client, server, rfl⟩, rfl⟩

private theorem exists_concat {direction other : Direction} {packet : Packet} {packets : List (Direction × Packet)} :
    (∃ found, (direction, found) ∈ packets ++ [(other, packet)] ∧ IsFinished direction found) ↔
      (direction = other ∧ IsFinished direction packet) ∨ ∃ found, (direction, found) ∈ packets ∧ IsFinished direction found := by
  simp only [List.mem_append, List.mem_singleton, Prod.mk.injEq]
  constructor
  · rintro ⟨found, inside | ⟨same, rfl⟩, finished⟩
    · exact Or.inr ⟨found, inside, finished⟩
    · exact Or.inl ⟨same, finished⟩
  · rintro (⟨same, finished⟩ | ⟨found, inside, finished⟩)
    · exact ⟨packet, Or.inr ⟨same, rfl⟩, finished⟩
    · exact ⟨found, Or.inl inside, finished⟩

private theorem after_initialized (session : Session) (direction : Direction) (contentType messageType : Nat) :
    (session.after direction contentType messageType).sessionInitialized = session.sessionInitialized := by
  have kept : ∀ other : Session, other.complete.sessionInitialized = other.sessionInitialized := by
    intro other
    rw [Session.complete]
    split <;> rfl
  cases direction with
  | c2s =>
    simp only [Session.after, Session.afterRequest]
    split_ifs <;> first | rfl | exact kept _
  | s2c =>
    simp only [Session.after, Session.afterResponse]
    split_ifs <;> first | rfl | exact kept _

private theorem afterRequest_serverFinished (session : Session) (contentType messageType : Nat) :
    (session.afterRequest contentType messageType).serverFinishedSent = session.serverFinishedSent := by
  have sides := afterRequest_serverSide session contentType messageType
  simp only [Session.serverSide, List.cons.injEq] at sides
  exact sides.2.2.2.2.2.2.1

private theorem afterResponse_clientFinished (session : Session) (contentType messageType : Nat) :
    (session.afterResponse contentType messageType).clientFinishedReceived = session.clientFinishedReceived := by
  have sides := afterResponse_clientSide session contentType messageType
  simp only [Session.clientSide, List.cons.injEq] at sides
  exact sides.2.2.1

/-- One call. -/
theorem Follows.build {session : Session} {packets : List (Direction × Packet)} (follows : Follows session packets)
    (direction : Direction) (packet : Packet) : Follows (adapter.build direction session packet).2 (packets ++ [(direction, packet)]) := by
  obtain ⟨ready, _⟩ := follows.initialized
  have set : session.initialized.sessionInitialized = true := by
    rw [Session.initialized]
    split
    · assumption
    · rfl
  by_cases malformed : Malformed packet
  · have nothing : ∀ side, ¬(side = direction ∧ IsFinished side packet) := fun side wrong => wrong.2.1 malformed
    rw [build_malformed session direction malformed]
    exact ⟨ready.fresh, by rw [exists_concat, ready.client, or_iff_right (nothing _)],
      by rw [exists_concat, ready.server, or_iff_right (nothing _)], ready.complete⟩
  · have classified : IsFinished direction packet ↔ packet.byte 0 = handshake ∧ messageType direction packet = finished :=
      and_iff_right malformed
    rw [build_record session direction malformed]
    refine ⟨?_, ?_, ?_, after_complete _ _ _ _ ready.complete⟩
    · intro unset
      rw [after_initialized, set] at unset
      cases unset
    · rw [exists_concat, ← ready.client]
      cases direction with
      | c2s => simp [Session.after, afterRequest_finished, classified]
      | s2c => simp [Session.after, afterResponse_clientFinished]
    · rw [exists_concat, ← ready.server]
      cases direction with
      | c2s => simp [Session.after, afterRequest_serverFinished]
      | s2c => simp [Session.after, afterResponse_finished, classified]

/-- A run. -/
theorem follows_sessionAfter (inputs : List Input) : Follows (sessionAfter inputs) (sinceReset inputs) := by
  induction inputs using List.reverseRecOn with
  | nil => exact ⟨fun _ => rfl, by simp [sessionAfter, sinceReset, adapter], by simp [sessionAfter, sinceReset, adapter], rfl⟩
  | append_singleton inputs input ih =>
    cases input with
    | reset =>
      rw [sessionAfter_reset, sinceReset_reset]
      exact ⟨fun wrong => (nomatch wrong), by simp [resetSession], by simp [resetSession], rfl⟩
    | packet direction packet =>
      rw [sessionAfter_packet, sinceReset_packet]
      exact ih.build direction packet

/-- Requests leave alone what is known of the server and responses what is known of the client, and
neither is printed as the other. What is no record changes no flag. The handshake is complete
exactly if since the last reset a Finished message of each side was seen. -/
theorem directions_separate (inputs : List Input) :
    (∀ packet,
      (adapter.build .c2s (sessionAfter inputs) packet).2.serverSide = (sessionAfter inputs).serverSide ∧
      (adapter.build .c2s (sessionAfter inputs) packet).1.lookup "response" = some "responseNotSet" ∧
      (adapter.build .s2c (sessionAfter inputs) packet).2.clientSide = (sessionAfter inputs).clientSide ∧
      (adapter.build .s2c (sessionAfter inputs) packet).1.lookup "request" = some "requestNotSet" ∧
      (Malformed packet → ∀ direction,
        (adapter.build direction (sessionAfter inputs) packet).2.flags = (sessionAfter inputs).flags)) ∧
    ((sessionAfter inputs).handshakeComplete = true ↔
      (∃ packet, (.c2s, packet) ∈ sinceReset inputs ∧ IsFinished .c2s packet) ∧
        ∃ packet, (.s2c, packet) ∈ sinceReset inputs ∧ IsFinished .s2c packet) := by
  have follows := follows_sessionAfter inputs
  obtain ⟨_, same⟩ := follows.initialized
  have sides : (sessionAfter inputs).initialized.clientSide = (sessionAfter inputs).clientSide ∧
      (sessionAfter inputs).initialized.serverSide = (sessionAfter inputs).serverSide := by
    simp only [Session.flags, Session.clientSide, Session.serverSide, List.cons_append, List.nil_append, List.cons.injEq] at same ⊢
    tauto
  refine ⟨fun packet => ?_, ?_⟩
  · by_cases malformed : Malformed packet
    · rw [build_malformed _ _ malformed, build_malformed _ _ malformed]
      refine ⟨sides.2, rfl, sides.1, rfl, ?_⟩
      intro _ direction
      rw [build_malformed _ _ malformed]
      exact same
    · rw [build_record _ _ malformed, build_record _ _ malformed]
      exact ⟨(afterRequest_serverSide _ _ _).trans sides.2, rfl, (afterResponse_clientSide _ _ _).trans sides.1, rfl,
        fun wrong => absurd wrong malformed⟩
  · rw [follows.complete, Bool.and_eq_true, follows.client, follows.server]

end Runs

end LtlFuzz.Adapter.Dtls

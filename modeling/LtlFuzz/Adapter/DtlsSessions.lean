import LtlFuzz.Adapter.DtlsRules

/-! Sessions in which a client and a server complete a handshake of DTLS 1.2, one record in
each datagram, and what the adapter makes of them. The last message of a client is
encrypted, so the adapter never sees the handshake end. -/

namespace LtlFuzz.Adapter.Dtls
open Monitor Monitor.Grammar

/-- `number` as this many bytes, the highest first. -/
def bigEndian : Nat → Nat → List UInt8
  | 0, _ => []
  | count + 1, number => UInt8.ofNat (number / 256 ^ count) :: bigEndian count number

/-- A message of the handshake goes out in fragments and in the clear; what follows a
change of the cipher is ciphertext. -/
inductive Message where
  | fragment (messageType : UInt8) (messageLength messageSeq fragmentOffset : Nat) (body : List UInt8)
  | changeCipherSpec
  | finished (ciphertext : List UInt8)
  | applicationData (ciphertext : List UInt8)
  deriving DecidableEq, Repr

namespace Message

def contentType : Message → UInt8
  | .fragment .. | .finished _ => 22
  | .changeCipherSpec => 20
  | .applicationData _ => 23

def epoch : Message → Nat
  | .fragment .. | .changeCipherSpec => 0
  | .finished _ | .applicationData _ => 1

def bytes : Message → List UInt8
  | .fragment messageType messageLength messageSeq fragmentOffset body =>
    messageType :: (bigEndian 3 messageLength ++ bigEndian 2 messageSeq ++ bigEndian 3 fragmentOffset ++
      bigEndian 3 body.length ++ body)
  | .changeCipherSpec => [1]
  | .finished ciphertext | .applicationData ciphertext => ciphertext

def IsFragment : Message → Prop
  | .fragment .. => True
  | _ => False

def IsFinished : Message → Prop
  | .finished _ => True
  | _ => False

def IsApplicationData : Message → Prop
  | .applicationData _ => True
  | _ => False

/-- A fragment lies in its message, which is none that has to be encrypted. No record is
longer than the protocol allows. -/
def WellFormed (message : Message) : Prop :=
  message.bytes.length ≤ 2 ^ 14 + 2048 ∧
    match message with
    | .fragment messageType messageLength _ fragmentOffset body =>
      messageType ≠ 20 ∧ fragmentOffset + body.length ≤ messageLength ∧ messageLength < 2 ^ 24
    | .changeCipherSpec | .finished _ | .applicationData _ => True

end Message

structure Datagram where
  direction : Direction
  sequence : Nat
  message : Message
  beyond : List UInt8 := []
  deriving DecidableEq, Repr

namespace Datagram

def packet (datagram : Datagram) : Packet where
  bytes := datagram.message.contentType :: 254 :: 253 :: (bigEndian 2 datagram.message.epoch ++
    bigEndian 6 datagram.sequence ++ bigEndian 2 datagram.message.bytes.length ++ datagram.message.bytes)
  beyond := datagram.beyond

def input (datagram : Datagram) : Input := .packet datagram.direction datagram.packet

end Datagram

/-- Each side sends its part of the handshake, changes the cipher and finishes; nothing is
asked of the order in which the two sides take turns. Then there is data. -/
structure HonestSession where
  handshake : List Datagram
  data : List Datagram
  wellFormed : ∀ datagram ∈ handshake ++ data, datagram.message.WellFormed
  sides : ∀ side, ∃ fragments ciphertext, (∀ message ∈ fragments, message.IsFragment) ∧
    (handshake.filter (·.direction = side)).map Datagram.message =
      fragments ++ [.changeCipherSpec, .finished ciphertext]
  applicationData : ∀ datagram ∈ data, datagram.message.IsApplicationData

namespace HonestSession

def datagrams (session : HonestSession) : List Datagram := session.handshake ++ session.data

def inputs (session : HonestSession) : List Input := session.datagrams.map Datagram.input

/-- Both sides have finished when the datagram at this position is there. -/
def FinishedBy (session : HonestSession) (k : Nat) : Prop :=
  ∃ i j one two, i < j ∧ j ≤ k ∧ session.datagrams[i]? = some one ∧ session.datagrams[j]? = some two ∧
    one.message.IsFinished ∧ two.message.IsFinished

end HonestSession

/-- The adapter follows the session: the handshake is complete from the second Finished on,
and all the rules hold at every event. -/
def Recognised (checker : TypeChecker) (machine : Machine Session) (session : HonestSession) : Prop :=
  ∀ k line state, (machine.lines adapter session.inputs)[k]? = some line → Accepted tree checker line state →
    (∀ rule ∈ rules, rule.Holds state) ∧
      (session.FinishedBy k → state.labelingFunction.lookup "handshake_complete" = some "true")

section Header

variable (datagram : Datagram)

theorem packet_contentType : datagram.packet.byte 0 = datagram.message.contentType.toNat := rfl

theorem packet_epoch : datagram.packet.u16 3 = datagram.message.epoch := by
  have cases : datagram.message.epoch = 0 ∨ datagram.message.epoch = 1 := by
    cases datagram.message with
    | fragment | changeCipherSpec => exact Or.inl rfl
    | finished | applicationData => exact Or.inr rfl
  unfold Packet.u16 Packet.byte Datagram.packet
  simp only [bigEndian, List.cons_append, List.nil_append, List.getD_cons_succ, List.getD_cons_zero]
  rcases cases with zero | one
  · rw [zero]
    rfl
  · rw [one]
    rfl

theorem packet_length : datagram.packet.bytes.length = 13 + datagram.message.bytes.length := by
  simp [Datagram.packet, bigEndian]
  omega

theorem packet_recordLength (wellFormed : datagram.message.WellFormed) :
    datagram.packet.u16 11 = datagram.message.bytes.length := by
  have short := wellFormed.1
  unfold Packet.u16 Packet.byte Datagram.packet
  simp only [bigEndian, List.cons_append, List.nil_append, List.getD_cons_succ, List.getD_cons_zero, UInt8.toNat_ofNat']
  omega

theorem packet_payload : datagram.packet.byte payload = (datagram.message.bytes.getD 0 0).toNat := rfl

end Header

/-- The adapter has not seen the client finish. -/
structure Unfinished (session : Session) : Prop where
  client : session.clientFinishedReceived = false
  incomplete : session.handshakeComplete = false

namespace Unfinished

variable {session : Session}

theorem initialized (unfinished : Unfinished session) : Unfinished session.initialized := by
  unfold Session.initialized
  split
  · exact unfinished
  · exact ⟨rfl, rfl⟩

theorem afterResponse (unfinished : Unfinished session) (contentType messageType : Nat) :
    Unfinished (session.afterResponse contentType messageType) := by
  obtain ⟨client, incomplete⟩ := unfinished
  unfold Session.afterResponse Session.complete
  split_ifs with _ _ _ _ _ _ both
  · exact ⟨client, incomplete⟩
  · exact ⟨client, incomplete⟩
  · exact ⟨client, incomplete⟩
  · exact ⟨client, incomplete⟩
  · exact absurd both.1 (by simp [client])
  · exact ⟨client, incomplete⟩
  · exact ⟨client, incomplete⟩
  · exact ⟨client, incomplete⟩
  · exact ⟨client, incomplete⟩

theorem afterRequest (unfinished : Unfinished session) {contentType messageType : Nat}
    (open_ : contentType = Dtls.handshake → messageType ≠ Dtls.finished) :
    Unfinished (session.afterRequest contentType messageType) := by
  obtain ⟨client, incomplete⟩ := unfinished
  unfold Session.afterRequest
  by_cases message : contentType = Dtls.handshake
  · rw [if_pos message]
    split
    · exact ⟨client, incomplete⟩
    · rw [if_neg (open_ message)]
      exact ⟨client, incomplete⟩
  · rw [if_neg message]
    split
    · exact ⟨client, incomplete⟩
    · exact ⟨client, incomplete⟩

end Unfinished

theorem start_unfinished : Unfinished (Machine.start adapter).session := ⟨rfl, rfl⟩

/-- No client's record of an honest session can be read as a Finished. -/
theorem honest_unfinished {datagram : Datagram} (wellFormed : datagram.message.WellFormed) (recordLength : Nat)
    (message : datagram.packet.byte 0 = handshake) :
    (parseRequest datagram.packet (datagram.packet.byte 0) recordLength (datagram.packet.u16 3 > 0)).1 ≠ finished := by
  rw [packet_epoch, parseRequest, if_pos message]
  dsimp only
  split
  next readable =>
    rw [packet_payload]
    cases kind : datagram.message with
    | fragment messageType messageLength messageSeq fragmentOffset body =>
      rw [kind] at wellFormed
      intro same
      exact wellFormed.2.1 (UInt8.toNat_inj.mp same)
    | changeCipherSpec => simp [packet_contentType, kind, Message.contentType, handshake] at message
    | finished | applicationData => simp [kind, Message.epoch] at readable
  · decide

theorem print_unfinished {session : Session} (unfinished : Unfinished session) {datagram : Datagram}
    (wellFormed : datagram.message.WellFormed) :
    Unfinished (session.print datagram.direction datagram.packet).2 := by
  unfold Session.print
  split
  · exact unfinished.initialized
  · cases datagram.direction with
    | c2s => exact unfinished.initialized.afterRequest fun message => honest_unfinished wellFormed _ message
    | s2c => exact unfinished.initialized.afterResponse _ _

/-- Every datagram is printed by a machine that has not seen the client finish. -/
theorem lines_reached {machine : Machine Session} (unfinished : Unfinished machine.session) {datagrams : List Datagram}
    (wellFormed : ∀ datagram ∈ datagrams, datagram.message.WellFormed) {k : Nat} {datagram : Datagram}
    (found : datagrams[k]? = some datagram) :
    ∃ reached : Machine Session, Unfinished reached.session ∧
      (machine.lines adapter (datagrams.map Datagram.input))[k]? =
        some (reached.buildPredLine adapter datagram.direction datagram.packet).1 := by
  induction datagrams generalizing machine k with
  | nil => simp at found
  | cons first others ih =>
    obtain ⟨here, later⟩ := List.forall_mem_cons.mp wellFormed
    cases k with
    | zero =>
      cases found
      exact ⟨machine, unfinished, rfl⟩
    | succ k =>
      apply ih _ later found
      rw [Machine.buildPredLine_session, build_print]
      exact print_unfinished unfinished here

section Events

variable {checker : TypeChecker} (fit : Fits shapes tree checker) (compiled : TypeChecker.new tree.spec = .ok checker)
  {machine : Machine Session} (unfinished : Unfinished machine.session) (session : HonestSession) {k : Nat}
  {datagram : Datagram} (found : session.datagrams[k]? = some datagram)

include fit compiled unfinished found

/-- Every line of an honest session says that the handshake is not complete, and the rules
speak about a record printed so. -/
theorem event_incomplete :
    ∃ line state record after, (machine.lines adapter session.inputs)[k]? = some line ∧ Accepted tree checker line state ∧
      state.labelingFunction.lookup "handshake_complete" = some "false" ∧
      ((∀ rule ∈ rules, rule.Holds state) ↔ Record.Obeys record after) ∧ Unfinished after ∧
      ∃ before : Session, (record, after) = before.print datagram.direction datagram.packet := by
  obtain ⟨reached, kept, printed⟩ := lines_reached unfinished session.wellFormed found
  obtain ⟨state, accepted, own, meaning⟩ := line_rules fit compiled reached datagram.direction datagram.packet
  have after := print_unfinished kept (session.wellFormed datagram (List.mem_of_getElem? found))
  rw [build_print] at own
  have label := own _ (List.mem_of_getElem? (i := 12) rfl)
  rw [after.incomplete] at label
  exact ⟨_, state, _, _, printed, accepted, label, meaning, after, _, rfl⟩

/-- Data from the server breaks the rule that it comes after the handshake. -/
theorem data_flagged (side : datagram.direction = .s2c) (data : datagram.message.IsApplicationData) :
    ∃ line state, (machine.lines adapter session.inputs)[k]? = some line ∧ Accepted tree checker line state ∧
      ¬∀ rule ∈ rules, rule.Holds state := by
  obtain ⟨line, state, record, after, printed, accepted, _, meaning, incomplete, before, same⟩ :=
    event_incomplete fit compiled unfinished session found
  refine ⟨line, state, printed, accepted, ?_⟩
  rw [meaning]
  intro obeys
  have wellFormed := session.wellFormed datagram (List.mem_of_getElem? found)
  have kind : datagram.packet.byte 0 = applicationData := by
    rw [packet_contentType]
    cases message : datagram.message with
    | applicationData => rfl
    | fragment | changeCipherSpec | finished =>
      rw [message] at data
      exact data.elim
  have readable : ¬(datagram.packet.bytes.length < 13 ∨ datagram.packet.byte 0 = 0 ∨
      datagram.packet.bytes.length < 13 + datagram.packet.u16 11) := by
    rw [packet_length, packet_recordLength datagram wellFormed, kind]
    unfold applicationData
    omega
  rw [Session.print, if_neg readable, side] at same
  have answer : record.response = .applicationData := by
    rw [show record = (before.initialized.read .s2c datagram.packet).1 from congrArg Prod.fst same]
    simp [Session.read, Session.responseEnumForType, kind, applicationData, handshake, changeCipherSpec, alert]
  have complete := obeys.data_complete answer
  rw [incomplete.incomplete] at complete
  cases complete

end Events

namespace HonestSession

theorem side_finished (session : HonestSession) (side : Direction) :
    ∃ (i : Nat) (datagram : Datagram), session.datagrams[i]? = some datagram ∧ datagram.direction = side ∧ datagram.message.IsFinished := by
  obtain ⟨fragments, ciphertext, _, messages⟩ := session.sides side
  have last : Message.finished ciphertext ∈ (session.handshake.filter (·.direction = side)).map Datagram.message := by
    rw [messages]
    simp
  obtain ⟨datagram, member, message⟩ := List.mem_map.mp last
  obtain ⟨inside, same⟩ := List.mem_filter.mp member
  obtain ⟨i, found⟩ := List.getElem?_of_mem (List.mem_append_left session.data inside)
  exact ⟨i, datagram, found, of_decide_eq_true same, by rw [message]; trivial⟩

theorem finishes (session : HonestSession) : ∃ k < session.datagrams.length, session.FinishedBy k := by
  obtain ⟨i, client, clientFound, clientSide, clientLast⟩ := session.side_finished .c2s
  obtain ⟨j, server, serverFound, serverSide, serverLast⟩ := session.side_finished .s2c
  have different : i ≠ j := by
    rintro rfl
    cases clientFound.symm.trans serverFound
    cases clientSide.symm.trans serverSide
  have clientBound := (List.getElem?_eq_some_iff.mp clientFound).1
  have serverBound := (List.getElem?_eq_some_iff.mp serverFound).1
  rcases Nat.lt_or_gt_of_ne different with before | after
  · exact ⟨j, serverBound, i, j, client, server, before, le_refl j, clientFound, serverFound, clientLast, serverLast⟩
  · exact ⟨i, clientBound, j, i, server, client, after, le_refl i, serverFound, clientFound, serverLast, clientLast⟩

end HonestSession

/-- Not one honest session is followed to its end. -/
theorem honest_session_unrecognised (session : HonestSession) (machine : Machine Session)
    (fresh : machine.session = adapter.start ∨ machine.session = resetSession) :
    ∃ checker, TypeChecker.new tree.spec = .ok checker ∧ ¬Recognised checker machine session := by
  obtain ⟨checker, _, _, compiled, _, fit⟩ := fits_sound shapes_fit
  refine ⟨checker, compiled, ?_⟩
  intro recognised
  have unfinished : Unfinished machine.session := by
    rcases fresh with start | reset
    · rw [start]
      exact ⟨rfl, rfl⟩
    · rw [reset]
      exact ⟨rfl, rfl⟩
  obtain ⟨k, bound, finished⟩ := session.finishes
  obtain ⟨line, state, _, _, printed, accepted, incomplete, _⟩ :=
    event_incomplete fit compiled unfinished session (List.getElem?_eq_getElem bound)
  have complete := (recognised k line state printed accepted).2 finished
  exact absurd (Option.some.inj (incomplete.symm.trans complete)) (by decide)

/-- An unfragmented message of this type. -/
def whole (messageType : UInt8) (messageSeq : Nat) (body : List UInt8) : Message :=
  .fragment messageType body.length messageSeq 0 body

/-- A handshake with a pre-shared key, a record of data from the client and the answer. -/
def keySession : HonestSession where
  handshake :=
    [⟨.c2s, 0, whole 1 0 [254, 253], []⟩, ⟨.s2c, 0, whole 3 0 [254, 253, 1, 7], []⟩,
      ⟨.c2s, 1, whole 1 1 [254, 253, 1, 7], []⟩, ⟨.s2c, 1, whole 2 1 [254, 253], []⟩, ⟨.s2c, 2, whole 14 2 [], []⟩,
      ⟨.c2s, 2, whole 16 2 [0, 1, 97], []⟩, ⟨.c2s, 3, .changeCipherSpec, []⟩, ⟨.c2s, 0, .finished [9, 8, 7, 6], []⟩,
      ⟨.s2c, 3, .changeCipherSpec, []⟩, ⟨.s2c, 0, .finished [1, 2, 3, 4], []⟩]
  data := [⟨.c2s, 1, .applicationData [5, 5], []⟩, ⟨.s2c, 1, .applicationData [6, 6], []⟩]
  wellFormed := by simp [whole, Message.WellFormed, Message.bytes, bigEndian]
  sides
    | .c2s => ⟨[whole 1 0 [254, 253], whole 1 1 [254, 253, 1, 7], whole 16 2 [0, 1, 97]], _,
        by simp [whole, Message.IsFragment], rfl⟩
    | .s2c => ⟨[whole 3 0 [254, 253, 1, 7], whole 2 1 [254, 253], whole 14 2 []], _,
        by simp [whole, Message.IsFragment], rfl⟩
  applicationData := by simp [Message.IsApplicationData]

theorem keySession_unrecognised :
    (Machine.start adapter).session = adapter.start ∧
      ∃ checker, TypeChecker.new tree.spec = .ok checker ∧ ¬Recognised checker (Machine.start adapter) keySession :=
  ⟨rfl, honest_session_unrecognised keySession (Machine.start adapter) (Or.inl rfl)⟩

/-- The record of the server's Finished is printed with an incomplete handshake, and the
answer behind it breaks a rule. -/
theorem keySession_flagged :
    ∃ checker, TypeChecker.new tree.spec = .ok checker ∧ keySession.FinishedBy 9 ∧
      (∃ line state, ((Machine.start adapter).lines adapter keySession.inputs)[9]? = some line ∧
        Accepted tree checker line state ∧ state.labelingFunction.lookup "handshake_complete" = some "false") ∧
      ∃ line state, ((Machine.start adapter).lines adapter keySession.inputs)[11]? = some line ∧
        Accepted tree checker line state ∧ ¬∀ rule ∈ rules, rule.Holds state := by
  obtain ⟨checker, _, _, compiled, _, fit⟩ := fits_sound shapes_fit
  refine ⟨checker, compiled, ?_, ?_, ?_⟩
  · exact ⟨7, 9, _, _, by decide, by decide, rfl, rfl, trivial, trivial⟩
  · obtain ⟨line, state, _, _, printed, accepted, incomplete, _⟩ :=
      event_incomplete fit compiled start_unfinished keySession (k := 9) rfl
    exact ⟨line, state, printed, accepted, incomplete⟩
  · exact data_flagged fit compiled start_unfinished keySession (k := 11) rfl rfl trivial

end LtlFuzz.Adapter.Dtls

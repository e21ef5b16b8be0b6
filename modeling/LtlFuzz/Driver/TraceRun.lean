import LtlFuzz.Driver.PredicateTransformer
import LtlFuzz.Driver.Station

/-! `Fuzzer::runASingleTrace`: the packets of a trace are sent one after the other, the predicates of each
are computed, and the answer to the last one is judged. -/

namespace LtlFuzz.Driver
open Logic (bind_ok)
open PacketGen (DriverOracle)

section Model

variable {G : Type}

/-- A packet of the trace and what it meets. -/
structure Turn where
  token : List Char
  around : Surroundings
  oracle : Option DriverOracle
  crashed : Bool

/-- The variables of the loop. The answers are those that `response_trace` is written from. -/
structure TraceState (G : Type) extends Exchange G where
  transformer : PredicateTransformer
  prevApGroup : Int
  prevApSendConfirm : Int
  lastPacketWasRaw : Bool
  fout : List Verdict
  oracleOut : List Inference
  answers : List SaeFrame

/-- There is an answer of a type. The loop compares it with the types of packets, which have the same
numbers. -/
def SaeFrame.holds (frame : SaeFrame) (type : SaeFrameType) : Bool := frame.filled && frame.type = type

def SaeFrame.free (frame : SaeFrame) : SaeFrame := if frame.filled then { frame with data := none, dataLen := 0 } else frame

/-- The call of `predicate_transform`. -/
def TraceState.transform (state : TraceState G) (pkt : PacketType) (turn : Turn) (err : Int) : Except Fault (TraceState G) := do
  let (_, transformer) ← state.transformer.predicateTransform turn.oracle
    ⟨pkt, state.station.sendConfirm, state.ap, state.frame, state.response, state.prevApGroup, state.prevApSendConfirm, err⟩
  .ok { state with transformer := transformer, answers := state.answers ++ [state.response] }

variable [AddCommGroup G] (curve : Curve G) (mac : Mac) (pwes : Pwes G)

def commitTurn (turn : Turn) (state : TraceState G) : Except Fault (TraceState G) := do
  let exchange ← commitMessage curve mac pwes turn.around state.toExchange
  let state := { state with
    toExchange := exchange
    prevApGroup := if exchange.response.holds .saeCommit then exchange.ap.groupId else state.prevApGroup }
  let state ← state.transform .commit turn 1
  .ok { state with response := state.response.free }

def confirmTurn (turn : Turn) (state : TraceState G) : Except Fault (TraceState G) := do
  let state := { state with station := { state.station with sendConfirm := 1 } }
  let exchange ← confirmMessage curve mac pwes turn.around state.toExchange
  let state := { state with
    toExchange := exchange
    prevApSendConfirm := if exchange.response.holds .saeConfirm then exchange.ap.sendConfirm.toNat else state.prevApSendConfirm }
  let state ← state.transform .confirm turn 1
  .ok { state with response := state.response.free }

omit [AddCommGroup G] in
def associationTurn (turn : Turn) (state : TraceState G) : Except Fault (TraceState G) := do
  let state := { state with response := state.response.free }
  let state := { state with toExchange := associationMessage turn.around state.toExchange }
  let state ← state.transform .associationReq turn 1
  .ok { state with response := state.response.free }

def rawTurn (last : Bool) (turn : Turn) (state : TraceState G) : Except Stop (TraceState G) := do
  let state := { state with station := { state.station with sendConfirm := 1 } }
  let (code, exchange) ← rawPacket curve mac pwes turn.around state.toExchange turn.token
  let state := { state with
    toExchange := exchange
    prevApGroup := if exchange.response.holds .saeCommit then exchange.ap.groupId else state.prevApGroup }
  let state := { state with
    prevApGroup := if exchange.response.holds .saeConfirm && exchange.ap.status = 0 then exchange.ap.sendConfirm.toNat else state.prevApGroup }
  let state ← (state.transform .raw turn code).mapError Stop.fault
  .ok { state with lastPacketWasRaw := last || state.lastPacketWasRaw }

def packetTurn (last : Bool) (turn : Turn) (state : TraceState G) : Except Stop (TraceState G) :=
  match classifyToken turn.token with
  | .commit => (commitTurn curve mac pwes turn state).mapError Stop.fault
  | .confirm => (confirmTurn curve mac pwes turn state).mapError Stop.fault
  | .associationReq => (associationTurn turn state).mapError Stop.fault
  | .raw => rawTurn curve mac pwes last turn state

def judge (last : Bool) (turn : Turn) (state : TraceState G) : Except Fault (TraceState G) :=
  if last && state.lastPacketWasRaw then do
    let inference ← stateInference state.frame state.ap
    let verdict ← rawVerdict curve mac (turn.around.unwritten.buffers 7) turn.crashed state.station.toSaeContext state.ap state.frame
      state.replacer state.response
    .ok { state with oracleOut := state.oracleOut ++ [inference], fout := state.fout ++ [verdict] }
  else if last then .ok { state with fout := state.fout ++ [.successfulTransition] }
  else .ok state

/-- The body of the loop, for a packet that is the last one or not. -/
def traceStep (state : TraceState G) (input : Bool × Turn) : Except Stop (TraceState G) := do
  let state ← packetTurn curve mac pwes input.1 input.2 state
  let state ← (judge curve mac input.1 input.2 state).mapError Stop.fault
  .ok { state with response := state.response.free }

def marked : List Turn → List (Bool × Turn)
  | [] => []
  | [turn] => [(true, turn)]
  | turn :: rest => (false, turn) :: marked rest

def runASingleTrace (start : TraceState G) (trace : List Turn) : Except Stop (TraceState G) :=
  Logic.run (traceStep curve mac pwes) start (marked trace)

/-- What the variables hold before anything is written to them. -/
structure Uninitialised where
  confirm : List UInt8
  nonce : List UInt8
  apSendConfirm : UInt16
  apConfirm : List UInt8
  apToken : List UInt8
  didWeReceiveCommit : Bool
  data : Option (List UInt8)
  dataLen : Nat
  replacer : SaeReplacements

def initialState (before : Uninitialised) : TraceState G where
  station :=
    { rand := 0, mask := 0, scalar := 0, element := 0, pwe := 0, rgContainer := ⟨0, []⟩, kck := List.replicate 32 0,
      pmk := List.replicate 32 0, pmkId := List.replicate 16 0, areKeysSet := false, piContainer := ⟨0, []⟩, sendConfirm := 1,
      confirm := before.confirm, acToken := none, nonce := some before.nonce, eapolReplayCounter := 0 }
  ap :=
    { scalar := 0, element := 0, sendConfirm := before.apSendConfirm, confirm := before.apConfirm, acToken := some before.apToken,
      status := 0xFFFF, groupId := -1, didWeReceiveCommit := before.didWeReceiveCommit, isZeroElement := true }
  response := ⟨.other, before.data, before.dataLen⟩
  frame := .zero
  replacer := before.replacer
  transformer := .new
  prevApGroup := -1
  prevApSendConfirm := -1
  lastPacketWasRaw := false
  fout := []
  oracleOut := []
  answers := []

end Model

section Effects

variable {G : Type}

theorem SaeFrame.free_empty (frame : SaeFrame) : frame.free.filled = false := by
  rw [SaeFrame.free]
  split
  · rfl
  · next empty => exact Bool.not_eq_true _ ▸ empty

theorem transform_ok {state next : TraceState G} {pkt : PacketType} {turn : Turn} {err : Int} (done : state.transform pkt turn err = .ok next) :
    ∃ transformer, next = { state with transformer := transformer, answers := state.answers ++ [state.response] } := by
  obtain ⟨⟨_, transformer⟩, _, done⟩ := bind_ok done
  cases done
  exact ⟨transformer, rfl⟩

variable [AddCommGroup G] {curve : Curve G} {mac : Mac} {pwes : Pwes G}

/-- Every packet has one answer, which the context of the access point is updated from. Nothing is
judged yet. -/
structure Advanced (curve : Curve G) (turn : Turn) (state next : TraceState G) (answer : SaeFrame) : Prop where
  answers : next.answers = state.answers ++ [answer]
  fout : next.fout = state.fout
  parsed : ∃ ap code, SameNumbers ap state.ap ∧ parseSaeFrame curve turn.around.unwritten answer ap = .ok (code, next.ap)

variable {turn : Turn} {state next : TraceState G}

theorem commitTurn_ok (done : commitTurn curve mac pwes turn state = .ok next) :
    ∃ answer, answer = receiveFrames .saeCommit turn.around.receptions state.response ∧ Advanced curve turn state next answer ∧
      next.prevApGroup = (if answer.holds .saeCommit then next.ap.groupId else state.prevApGroup) ∧
      next.prevApSendConfirm = state.prevApSendConfirm := by
  obtain ⟨exchange, sent, done⟩ := bind_ok done
  obtain ⟨answer, code, parsed⟩ := commitMessage_ok sent
  obtain ⟨middle, transformed, done⟩ := bind_ok done
  obtain ⟨transformer, rfl⟩ := transform_ok transformed
  cases done
  exact ⟨exchange.response, answer, ⟨rfl, rfl, state.ap, code, ⟨rfl, rfl⟩, parsed⟩, rfl, rfl⟩

theorem confirmTurn_ok (done : confirmTurn curve mac pwes turn state = .ok next) :
    ∃ answer, answer = receiveFrames .saeConfirm turn.around.receptions state.response ∧ Advanced curve turn state next answer ∧
      next.prevApGroup = state.prevApGroup ∧
      next.prevApSendConfirm = (if answer.holds .saeConfirm then (next.ap.sendConfirm.toNat : Int) else state.prevApSendConfirm) := by
  obtain ⟨exchange, sent, done⟩ := bind_ok done
  obtain ⟨answer, ap, code, same, parsed⟩ := confirmMessage_ok sent
  obtain ⟨middle, transformed, done⟩ := bind_ok done
  obtain ⟨transformer, rfl⟩ := transform_ok transformed
  cases done
  exact ⟨exchange.response, answer, ⟨rfl, rfl, ap, code, same, parsed⟩, rfl, rfl⟩

omit [AddCommGroup G] in
theorem associationTurn_ok (done : associationTurn turn state = .ok next) :
    ∃ answer : SaeFrame, answer.filled = false ∧ next.answers = state.answers ++ [answer] ∧ next.fout = state.fout ∧ next.ap = state.ap ∧
      next.prevApGroup = state.prevApGroup ∧ next.prevApSendConfirm = state.prevApSendConfirm := by
  obtain ⟨middle, transformed, done⟩ := bind_ok done
  obtain ⟨transformer, rfl⟩ := transform_ok transformed
  cases done
  obtain ⟨ap, data⟩ := associationMessage_response turn.around { state.toExchange with response := state.response.free }
  refine ⟨_, ?_, rfl, rfl, ap, rfl, rfl⟩
  have empty := state.response.free_empty
  rw [associationMessage]
  split
  · exact empty
  · exact empty

theorem rawTurn_ok {last : Bool} (done : rawTurn curve mac pwes last turn state = .ok next) :
    ∃ packet code, stringToUnsignedChar turn.token = some packet ∧ parseFuzzerFrame (turn.around.malloc 0) packet = .ok (code, next.frame) ∧
      next.response = receiveFrames (requestType next.frame) turn.around.receptions state.response ∧
      Advanced curve turn state next next.response ∧ next.station.areKeysSet = true ∧
      next.lastPacketWasRaw = (last || state.lastPacketWasRaw) ∧
      next.prevApGroup = (if next.response.holds .saeConfirm && next.ap.status = 0 then (next.ap.sendConfirm.toNat : Int)
        else if next.response.holds .saeCommit then next.ap.groupId else state.prevApGroup) ∧
      next.prevApSendConfirm = state.prevApSendConfirm := by
  obtain ⟨⟨code, exchange⟩, sent, done⟩ := bind_ok done
  obtain ⟨packet, read, frame, answer, keys, ap, result, same, parsed⟩ := rawPacket_ok sent
  obtain ⟨middle, transformed, done⟩ := bind_ok done
  obtain ⟨transformer, rfl⟩ := transform_ok (mapError_ok transformed)
  cases done
  exact ⟨packet, code, read, frame, answer, ⟨rfl, rfl, ap, result, same, parsed⟩, keys, rfl, rfl, rfl⟩

/-- The judgement changes what is written and nothing else. -/
theorem judge_ok {last : Bool} (done : judge curve mac last turn state = .ok next) :
    ∃ oracleOut fout, next = { state with oracleOut := oracleOut, fout := fout } := by
  rw [judge] at done
  split at done
  · obtain ⟨inference, _, done⟩ := bind_ok done
    obtain ⟨verdict, _, done⟩ := bind_ok done
    cases done
    exact ⟨_, _, rfl⟩
  · split at done
    · cases done
      exact ⟨_, _, rfl⟩
    · cases done
      exact ⟨state.oracleOut, state.fout, rfl⟩

/-- A turn of the loop: the packet, the judgement, and the answer is given up. -/
theorem traceStep_ok {input : Bool × Turn} (done : traceStep curve mac pwes state input = .ok next) :
    ∃ middle judged, packetTurn curve mac pwes input.1 input.2 state = .ok middle ∧ judge curve mac input.1 input.2 middle = .ok judged ∧
      next = { judged with response := judged.response.free } := by
  obtain ⟨middle, turned, done⟩ := bind_ok done
  obtain ⟨judged, written, done⟩ := bind_ok done
  cases done
  exact ⟨middle, judged, turned, mapError_ok written, rfl⟩

end Effects

section Small

/-- The group of seven points, where both coordinates of a point are its number. -/
def sevenCurve : Curve (ZMod 7) where
  toEcGroup := sevenPoints
  affineY point := if point = 0 then none else some point.val
  setAffineCoordinates x _ := x

def zeroMemory : Unwritten := ⟨0, 0, [], 0, fun _ => List.replicate 65 0⟩

def zeroVariables : Uninitialised := ⟨[], [], 0, [], [], false, none, 0, .unset⟩

/-- A packet that is answered by one authentication frame. The random numbers are always the same. -/
def answered (token : List Char) (data : List UInt8) : Turn :=
  ⟨token, ⟨[.frame (.authentication data) true], [], true, 1, 3, fun _ _ => true, zeroMemory⟩, none, false⟩

def padded (byte : UInt8) : List UInt8 := List.replicate 31 0 ++ [byte]

def apCommit (low high scalar point : UInt8) : List UInt8 :=
  [3, 0, 1, 0, 0, 0, low, high] ++ padded scalar ++ padded point ++ padded point

end Small

end LtlFuzz.Driver

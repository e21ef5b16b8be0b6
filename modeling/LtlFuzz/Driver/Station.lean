import LtlFuzz.Driver.OracleVerdicts
import LtlFuzz.Driver.TraceFormat

/-! The station's side of an exchange: what the messages of `wrapper.cpp` do to the contexts of the
station and of the access point. What is sent is left out, and what is received is arbitrary. -/

namespace LtlFuzz.Driver
open Logic (bind_ok)

section Contexts

/-- A run stops at a fault, or because the program ends itself. -/
inductive Stop where
  | fault (fault : Fault)
  | terminated
  deriving DecidableEq, Repr

/-- `sae_context`. The nonce and a token are there from the time they are set. -/
structure Station (G : Type) extends SaeContext G where
  piContainer : Container
  sendConfirm : UInt16
  confirm : List UInt8
  acToken : Option (List UInt8)
  nonce : Option (List UInt8)
  eapolReplayCounter : UInt64

/-- `PWEs`: the password elements of the two methods. -/
structure Pwes (G : Type) where
  h2e : G
  loop : G

theorem mapError_ok {α : Type} {result : Except Fault α} {value : α} (done : result.mapError Stop.fault = .ok value) : result = .ok value := by
  cases result with
  | error fault => cases done
  | ok other =>
    cases done
    rfl

end Contexts

section Keys

variable {G : Type} [AddCommGroup G] (curve : Curve G) (mac : Mac)

def generateNewZeroKeys (station : Station G) (ap : ApContext G) : Station G × ApContext G :=
  ({ station with pmk := List.replicate 32 0, kck := List.replicate 32 0, areKeysSet := true },
    { ap with scalar := 0, element := 0, isZeroElement := true })

def ensureKeys (station : Station G) (ap : ApContext G) : Station G × ApContext G :=
  if station.areKeysSet then (station, ap) else generateNewZeroKeys station ap

/-- 64 bytes for the element of the access point. One that is zero is a single byte, if it is written
at all. -/
def apElementBytes (ap : ApContext G) (buffer data : List UInt8) : List UInt8 :=
  if ap.isZeroElement then
    let octets := curve.point2oct ap.element
    if octets.length ≤ 1 then (octets ++ data.drop octets.length).take 64 else data.take 64
  else elementBytes curve ap.element buffer

def generateSaeConfirm (unwritten : Unwritten) (station : Station G) (ap : ApContext G) : Station G :=
  let data := shortBytes station.sendConfirm.toNat ++ bn2binpad station.scalar 32 (unwritten.buffers 0) ++
    elementBytes curve station.element (unwritten.buffers 1) ++ bn2binpad ap.scalar 32 (unwritten.buffers 0) ++
    apElementBytes curve ap (unwritten.buffers 2) (unwritten.buffers 3)
  { station with confirm := mac.hmac256 station.kck data }

/-- One of the two containers: room for twice as many bytes as are copied. -/
def setContainer (allocated : Bool) (copy : Copy) : Except Fault Container :=
  if copy.present && copy.pointer.isSome && copy.len != 0 then
    if allocated then do
      let value ← readBytes (copy.pointer.getD []) 0 (copy.len - 1)
      .ok ⟨copy.len - 1, value ++ List.replicate (copy.len - 1) 0⟩
    else .ok ⟨0, []⟩
  else .ok ⟨0, []⟩

def setContainers (malloc : Malloc) (frame : FuzzerFrame) (station : Station G) : Except Fault (Station G) := do
  let piContainer ← setContainer (malloc 0) (frame.containers .passwordId)
  let rgContainer ← setContainer (malloc 1) (frame.containers .rejectedGroups)
  .ok { station with piContainer := piContainer, rgContainer := rgContainer }

end Keys

section Fields

variable {G : Type} [AddCommGroup G] (curve : Curve G)

/-- A value of its own, if there is memory for it. -/
def Replacement.of (allocated : Bool) (bytes : List UInt8) : Replacement :=
  if allocated then ⟨some bytes, bytes.length, fun _ same => (Option.some.inj same) ▸ Nat.le_refl _⟩
  else ⟨none, 0, fun _ none_ => (nomatch none_)⟩

def Replacement.unset : Replacement := .of false []

def SaeReplacements.unset : SaeReplacements :=
  ⟨.unset, .unset, .unset, .unset, .unset, .unset, .unset, .unset, .unset, .unset, .unset, .unset⟩

def rsnIeExample : List UInt8 :=
  [0x30, 0x14, 0x01, 0x00, 0x00, 0x0F, 0xAC, 0x04, 0x01, 0x00, 0x00, 0x0F, 0xAC, 0x04, 0x01, 0x00, 0x00, 0x0F, 0xAC, 0x02]

/-- The highest byte first. -/
def counterBytes (counter : UInt64) : List UInt8 := (List.range 8).map fun i => UInt8.ofNat (counter.toNat / 256 ^ (7 - i))

/-- A token has as many bytes as go with the status. -/
def replaceToken (malloc : Malloc) (station : Station G) (frame : FuzzerFrame) : Except Fault Replacement :=
  match station.acToken with
  | none => .ok .unset
  | some token => do .ok (.of (malloc 2) (← readBytes token 0 (if frame.statusCode = 126 then 35 else 32)))

/-- The values for commits and confirms. An element that is not written as 65 bytes ends the
program. -/
def replaceSaeFields (malloc : Malloc) (unwritten : Unwritten) (station : Station G) (frame : FuzzerFrame) : Except Stop SaeReplacements :=
  if malloc 1 && (curve.point2oct station.element).length != 65 then .error .terminated
  else do
    let acToken ← (replaceToken malloc station frame).mapError Stop.fault
    .ok { SaeReplacements.unset with
      scalar := .of (malloc 0) (bn2binpad station.scalar 32 (unwritten.buffers 4))
      element := .of (malloc 1) (((curve.point2oct station.element).drop 1).take 64)
      acToken := acToken
      sendConfirm := .of (malloc 3) [UInt8.ofNat (station.sendConfirm.toNat / 256), UInt8.ofNat station.sendConfirm.toNat]
      confirmHash := .of (malloc 4) (station.confirm.take 32) }

/-- The values for the frames of the four-way handshake. -/
def replaceEapolFields (malloc : Malloc) (station : Station G) (frame : FuzzerFrame) (values : SaeReplacements) : SaeReplacements :=
  { values with
    nonce := match station.nonce with
      | some nonce => .of (malloc 5) (nonce.take 32)
      | none => values.nonce
    counter := .of (malloc 6) (counterBytes station.eapolReplayCounter)
    rsnIe := if frame.seq = 4 then .of (malloc 7) rsnIeExample else values.rsnIe
    gtk := if frame.seq = 5 then .of (malloc 8) ((List.range 16).map fun i => UInt8.ofNat (i + 1)) else values.gtk
    installKeyFlag := if frame.seq = 6 then .of (malloc 9) [0x01] else values.installKeyFlag
    secureBit := if frame.seq = 6 then .of (malloc 10) [0x01] else values.secureBit }

def createReplaceFields (malloc : Malloc) (unwritten : Unwritten) (station : Station G) (frame : FuzzerFrame) : Except Stop SaeReplacements := do
  let values ← (if frame.seq = 1 ∨ frame.seq = 2 then replaceSaeFields curve malloc unwritten station frame else .ok .unset)
  .ok (if 3 ≤ frame.seq ∧ frame.seq ≤ 6 then replaceEapolFields malloc station frame values else values)

end Fields

section Messages

variable {G : Type} [AddCommGroup G] (curve : Curve G) (mac : Mac) (pwes : Pwes G)

/-- Everything that a message meets: what is received, the random numbers, the allocations and what
is in memory. -/
structure Surroundings where
  receptions : List Reception
  laterReceptions : List Reception
  requestSent : Bool
  rand : Nat
  mask : Nat
  malloc : Nat → Malloc
  unwritten : Unwritten

/-- The contexts and the frames that the messages share. -/
structure Exchange (G : Type) where
  station : Station G
  ap : ApContext G
  response : SaeFrame
  frame : FuzzerFrame
  replacer : SaeReplacements

def Station.generateCommit (station : Station G) (around : Surroundings) : Station G :=
  { station with toSaeContext := generateSaeCommit curve.toEcGroup station.toSaeContext around.rand around.mask }

def Station.calculateKeys (station : Station G) (ap : ApContext G) (unwritten : Unwritten) : Except Fault (Station G) := do
  let keys ← calculateKckAndPmk curve.toEcGroup mac station.toSaeContext ap.toSaeResponse (unwritten.buffers 5) (unwritten.buffers 6)
  .ok { station with toSaeContext := keys }

def commitMessage (around : Surroundings) (exchange : Exchange G) : Except Fault (Exchange G) := do
  let station := { exchange.station with pwe := pwes.h2e }.generateCommit curve around
  let response := receiveFrames .saeCommit around.receptions exchange.response
  let (ret, ap) ← parseSaeFrame curve around.unwritten response exchange.ap
  let station ← (if ret > 0 then station.calculateKeys curve mac ap around.unwritten else .ok station)
  .ok { exchange with station := station, ap := ap, response := response }

def confirmMessage (around : Surroundings) (exchange : Exchange G) : Except Fault (Exchange G) := do
  let (station, ap) :=
    if exchange.station.areKeysSet then (exchange.station, exchange.ap)
    else
      let (station, ap) := generateNewZeroKeys exchange.station exchange.ap
      ({ station with pwe := pwes.h2e }.generateCommit curve around, ap)
  let station := generateSaeConfirm curve mac around.unwritten station ap
  let response := receiveFrames .saeConfirm around.receptions exchange.response
  let (_, ap) ← parseSaeFrame curve around.unwritten response ap
  .ok { exchange with station := station, ap := ap, response := response }

/-- The frames of an association are received apart from the response. -/
def performSaeAssociation (around : Surroundings) : Bool :=
  let probe := receiveFrames .other around.receptions ⟨.association, none, 0⟩
  match probe.data with
  | none => false
  | some info =>
    if probe.type ≠ .association then false
    else if info.take 6 = List.replicate 6 0 then false
    else if !around.requestSent then false
    else
      let answer := receiveFrames .association around.laterReceptions ⟨.assocResponse, none, 0⟩
      answer.data.isSome && answer.type = .assocResponse

def associationMessage (around : Surroundings) (exchange : Exchange G) : Exchange G :=
  if performSaeAssociation around then { exchange with response := { exchange.response with type := .assocResponse } } else exchange

def requestType (frame : FuzzerFrame) : SaeFrameType :=
  if frame.seq = 1 ∧ frame.algo = 3 then .saeCommit
  else if frame.seq = 2 ∧ frame.algo = 3 then .saeConfirm
  else .other

/-- The contexts when a raw packet is sent, with the values that its placeholders give way to. -/
def prepareRaw (around : Surroundings) (exchange : Exchange G) (frame : FuzzerFrame) : Except Stop (Exchange G) := do
  let station ← (setContainers (around.malloc 1) frame exchange.station).mapError Stop.fault
  let keyed := ensureKeys { station with pwe := if frame.statusCode = 0 then pwes.loop else pwes.h2e } exchange.ap
  let station := generateSaeConfirm curve mac around.unwritten (keyed.1.generateCommit curve around) keyed.2
  let replacer ← createReplaceFields curve (around.malloc 2) around.unwritten station frame
  .ok { exchange with station := station, ap := keyed.2, frame := frame, replacer := replacer }

/-- The result is the error code of the parser and what is left of the exchange. -/
def rawPacket (around : Surroundings) (exchange : Exchange G) (rawPacketToSend : List Char) : Except Stop (Int × Exchange G) := do
  match stringToUnsignedChar rawPacketToSend with
  | none => .error .terminated
  | some binData =>
    let (code, frame) ← (parseFuzzerFrame (around.malloc 0) binData).mapError Stop.fault
    let exchange ← prepareRaw curve mac pwes around exchange frame
    let _ ← (replacePlaceholders binData exchange.replacer).mapError Stop.fault
    let response := receiveFrames (requestType frame) around.receptions exchange.response
    let (_, ap) ← (parseSaeFrame curve around.unwritten response exchange.ap).mapError Stop.fault
    .ok (code, { exchange with ap := ap, response := response })

end Messages

section Effects

variable {G : Type} [AddCommGroup G] {curve : Curve G} {mac : Mac} {pwes : Pwes G} {around : Surroundings} {exchange next : Exchange G}

/-- Two contexts that have the same group and the same counter. -/
def SameNumbers (first second : ApContext G) : Prop := first.groupId = second.groupId ∧ first.sendConfirm = second.sendConfirm

theorem commitMessage_ok (done : commitMessage curve mac pwes around exchange = .ok next) :
    next.response = receiveFrames .saeCommit around.receptions exchange.response ∧
      ∃ code, parseSaeFrame curve around.unwritten next.response exchange.ap = .ok (code, next.ap) := by
  obtain ⟨⟨code, ap⟩, parsed, done⟩ := bind_ok done
  obtain ⟨station, _, done⟩ := bind_ok done
  cases done
  exact ⟨rfl, code, parsed⟩

theorem confirmMessage_ok (done : confirmMessage curve mac pwes around exchange = .ok next) :
    next.response = receiveFrames .saeConfirm around.receptions exchange.response ∧
      ∃ ap code, SameNumbers ap exchange.ap ∧ parseSaeFrame curve around.unwritten next.response ap = .ok (code, next.ap) := by
  rw [confirmMessage] at done
  by_cases keys : exchange.station.areKeysSet = true
  · rw [if_pos keys] at done
    obtain ⟨⟨code, ap⟩, parsed, done⟩ := bind_ok done
    cases done
    exact ⟨rfl, exchange.ap, code, ⟨rfl, rfl⟩, parsed⟩
  · rw [if_neg keys] at done
    obtain ⟨⟨code, ap⟩, parsed, done⟩ := bind_ok done
    cases done
    exact ⟨rfl, (generateNewZeroKeys exchange.station exchange.ap).2, code, ⟨rfl, rfl⟩, parsed⟩

theorem ensureKeys_ok (station : Station G) (ap : ApContext G) :
    (ensureKeys station ap).1.areKeysSet = true ∧ SameNumbers (ensureKeys station ap).2 ap := by
  rw [ensureKeys]
  split
  · next keys => exact ⟨keys, rfl, rfl⟩
  · exact ⟨rfl, rfl, rfl⟩

omit [AddCommGroup G] in
theorem associationMessage_response (around : Surroundings) (exchange : Exchange G) :
    (associationMessage around exchange).ap = exchange.ap ∧ (associationMessage around exchange).response.data = exchange.response.data := by
  rw [associationMessage]
  split
  · exact ⟨rfl, rfl⟩
  · exact ⟨rfl, rfl⟩

theorem prepareRaw_ok {frame : FuzzerFrame} (done : prepareRaw curve mac pwes around exchange frame = .ok next) :
    next.frame = frame ∧ next.response = exchange.response ∧ next.station.areKeysSet = true ∧ SameNumbers next.ap exchange.ap := by
  obtain ⟨station, _, done⟩ := bind_ok done
  obtain ⟨replacer, _, done⟩ := bind_ok done
  obtain ⟨keys, same⟩ := ensureKeys_ok { station with pwe := if frame.statusCode = 0 then pwes.loop else pwes.h2e } exchange.ap
  cases done
  exact ⟨rfl, rfl, keys, same⟩

theorem rawPacket_ok {token : List Char} {code : Int} (done : rawPacket curve mac pwes around exchange token = .ok (code, next)) :
    ∃ binData, stringToUnsignedChar token = some binData ∧ parseFuzzerFrame (around.malloc 0) binData = .ok (code, next.frame) ∧
      next.response = receiveFrames (requestType next.frame) around.receptions exchange.response ∧ next.station.areKeysSet = true ∧
      ∃ ap result, SameNumbers ap exchange.ap ∧ parseSaeFrame curve around.unwritten next.response ap = .ok (result, next.ap) := by
  rw [rawPacket] at done
  split at done
  · cases done
  · next binData read =>
    obtain ⟨⟨code, frame⟩, parsed, done⟩ := bind_ok done
    obtain ⟨prepared, ready, done⟩ := bind_ok done
    obtain ⟨_, _, done⟩ := bind_ok done
    obtain ⟨⟨result, ap⟩, answer, done⟩ := bind_ok done
    cases done
    obtain ⟨rfl, response, keys, same⟩ := prepareRaw_ok ready
    rw [response] at answer ⊢
    exact ⟨binData, read, mapError_ok parsed, rfl, keys, prepared.ap, result, same, mapError_ok answer⟩

end Effects

end LtlFuzz.Driver

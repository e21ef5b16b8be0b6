import LtlFuzz.Driver.ApFrames
import LtlFuzz.Driver.RejectedGroups
import LtlFuzz.Driver.TraceFormat
import LtlFuzz.PacketGen.ByteParser

/-! `predicate_transformer.cpp`: the predicates of a step come from the answer of the access point, from
the packet that was sent and from what the generator wrote about it to `sync/driver_oracle.json`. -/

namespace LtlFuzz.Driver
open PacketGen (DriverOracle OracleValue)

section Oracle

/-- The value of a key. The last one counts. -/
def oracleValue (oracle : DriverOracle) (key : String) : Option OracleValue :=
  (oracle.reverse.find? fun entry => entry.1 = key).map Prod.snd

def oracleHas (oracle : DriverOracle) (key : String) : Bool := (oracleValue oracle key).isSome

def oracleIs (oracle : DriverOracle) (key text : String) : Bool := oracleValue oracle key = some (.text text.toList)

theorem oracleHas_of_oracleIs {oracle : DriverOracle} {key text : String} (said : oracleIs oracle key text = true) : oracleHas oracle key = true := by
  rw [oracleHas, of_decide_eq_true said]
  rfl

end Oracle

section Predicates

inductive Message where
  | messageNotSet
  | commitSuccess
  | commitBad
  | timeout
  | commitError
  | commitReuse
  | unknown
  | confirmError
  | commitReflect
  | confirmSuccess
  | confirmBad
  | associationRequest
  | associationResponse
  | commitSuccessAcToken
  | commitAcToken
  deriving DecidableEq, Repr

inductive StatusCode where
  | statusNotSet
  | success
  | h2e
  | unsupportedCyclicGroup
  | unknownPasswordIdentifier
  | unspecifiedFailure
  deriving DecidableEq, Repr

inductive Support where
  | supportNotSet
  | supported
  | unsupported
  deriving DecidableEq, Repr

structure PredicateTransformer where
  parserErrorCode : Int
  groupId : Int
  oracle : DriverOracle
  prevApGroup : Int
  prevApSendConfirm : Int
  sendConfirm : Int
  rgContainer : Bool
  acContainer : Bool
  piContainer : Bool
  ac : Bool
  pi : Bool
  apGroup : Int
  apSendConfirm : Int
  request : Message
  ourStatusCode : StatusCode
  apStatusCode : StatusCode
  response : Message
  rg : Support

def PredicateTransformer.new : PredicateTransformer :=
  ⟨1, -1, [], -1, -1, -1, false, false, false, false, false, -1, -1, .messageNotSet, .statusNotSet, .statusNotSet, .messageNotSet, .supportNotSet⟩

def PredicateTransformer.resetTransformer (self : PredicateTransformer) : PredicateTransformer :=
  { self with
    groupId := -1, sendConfirm := -1, apGroup := -1, apSendConfirm := -1
    rgContainer := false, acContainer := false, piContainer := false, ac := false, pi := false
    request := .messageNotSet, response := .messageNotSet
    ourStatusCode := .statusNotSet, apStatusCode := .statusNotSet, rg := .supportNotSet }

/-- A file that cannot be opened leaves the oracle as it is. -/
def PredicateTransformer.readOCamlOracle (self : PredicateTransformer) (file : Option DriverOracle) : PredicateTransformer :=
  { self with oracle := file.getD self.oracle }

end Predicates

section Mapping

variable {G : Type}

def PredicateTransformer.mapResponseToPredicates (self : PredicateTransformer) (ap : ApContext G) (response : SaeFrame) : PredicateTransformer :=
  match response.type with
  | .saeCommit =>
    if ap.status = 126 then { self with apStatusCode := .h2e, response := .commitSuccess, apGroup := ap.groupId }
    else if ap.status = 0 then { self with apStatusCode := .success, response := .commitSuccess, apGroup := ap.groupId }
    else if ap.status = 77 then { self with apStatusCode := .unsupportedCyclicGroup, apGroup := ap.groupId }
    else if ap.status = 76 then { self with response := .commitAcToken }
    else if ap.status = 1 then { self with response := .commitError, apStatusCode := .unspecifiedFailure }
    else if ap.status = 0x7b then { self with apStatusCode := .unknownPasswordIdentifier, response := .commitError }
    else self
  | .timeout => { self with response := .timeout }
  | .saeConfirm =>
    { self with
      response := if ap.status = 0 then .confirmSuccess else .confirmError
      apSendConfirm := ap.sendConfirm.toNat }
  | .assocResponse => { self with response := .associationResponse }
  | _ => self

/-- What follows from the rejected groups of a frame. -/
def PredicateTransformer.mapRejectedGroups (self : PredicateTransformer) (frame : FuzzerFrame) : Except Fault PredicateTransformer :=
  if oracleHas self.oracle "rg_list" then do
    let found ← scanGroups (frame.containers .rejectedGroups) (frame.containers .rejectedGroups).len 0
    let rg := if found then .supported else self.rg
    .ok { self with rgContainer := true, rg := if rg = .supported then rg else .unsupported }
  else .ok self

def PredicateTransformer.mapPasswordId (self : PredicateTransformer) (frame : FuzzerFrame) : PredicateTransformer :=
  if oracleHas self.oracle "pi_list" then
    { self with piContainer := true, pi := if (frame.containers .passwordId).pointer.isSome then true else self.pi }
  else self

def PredicateTransformer.mapAcContainer (self : PredicateTransformer) (frame : FuzzerFrame) : PredicateTransformer :=
  if oracleHas self.oracle "ac_list" then
    { self with acContainer := true, ac := if (frame.containers .acTokenContainer).pointer.isSome then true else self.ac }
  else self

def PredicateTransformer.mapAcToken (self : PredicateTransformer) : PredicateTransformer :=
  if oracleHas self.oracle "ac_token" && oracleIs self.oracle "ac_token" "3c41435f544f4b454e3e" then { self with ac := true } else self

/-- The element that a scalar goes with is compared, and found valid in any case. -/
def validCommit (oracle : DriverOracle) : Bool :=
  let valid := if oracleHas oracle "scalar" then oracleIs oracle "scalar" "3c5343414c41523e" else false
  if oracleHas oracle "element" && valid then
    if oracleIs oracle "element" "3c53454e445f434f4e4649524d3e" then true else valid
  else valid

def PredicateTransformer.mapCommitRequest (self : PredicateTransformer) : PredicateTransformer :=
  if validCommit self.oracle && oracleIs self.oracle "algo" "3" && (oracleIs self.oracle "status" "0" || oracleIs self.oracle "status" "126") then
    { self with request := .commitSuccess }
  else if oracleValue self.oracle "status" = some (.number 1) && oracleIs self.oracle "algo" "3" then { self with request := .commitError }
  else if validCommit self.oracle && oracleIs self.oracle "algo" "3" && !(oracleIs self.oracle "status" "0" || oracleIs self.oracle "status" "126") then
    { self with request := .commitBad }
  else if !oracleIs self.oracle "algo" "3" then { self with request := .unknown }
  else self

def PredicateTransformer.mapConfirmRequest (self : PredicateTransformer) (sendConfirm : UInt16) : PredicateTransformer :=
  let valid := if oracleHas self.oracle "confirm_hash" then oracleIs self.oracle "confirm_hash" "3c636f6e6669726d5f686173683e" else false
  let counted := oracleHas self.oracle "send_confirm" && valid
  let valid := if counted && oracleIs self.oracle "send_confirm" "3c53454e445f434f4e4649524d5f434f554e5445523e" then true else valid
  let valid := if !oracleIs self.oracle "status" "0" then false else valid
  { self with
    sendConfirm := if counted then sendConfirm.toNat else self.sendConfirm
    request := if valid then .confirmSuccess else .confirmBad }

def PredicateTransformer.mapOurStatus (self : PredicateTransformer) : PredicateTransformer :=
  if oracleIs self.oracle "status" "126" then { self with ourStatusCode := .h2e }
  else if oracleIs self.oracle "status" "0" then { self with ourStatusCode := .success }
  else if oracleIs self.oracle "status" "1" then { self with ourStatusCode := .unspecifiedFailure }
  else if oracleIs self.oracle "status" "77" then { self with ourStatusCode := .unsupportedCyclicGroup }
  else if oracleIs self.oracle "status" "123" then { self with ourStatusCode := .unknownPasswordIdentifier }
  else self

def PredicateTransformer.mapRawRequest (self : PredicateTransformer) (sendConfirm : UInt16) (frame : FuzzerFrame) :
    Except Fault PredicateTransformer :=
  if oracleHas self.oracle "algo" && oracleHas self.oracle "auth_seq" then
    if oracleIs self.oracle "auth_seq" "1" then do
      let self ← self.mapRejectedGroups frame
      .ok ((self.mapPasswordId frame).mapAcContainer frame).mapAcToken.mapCommitRequest.mapOurStatus
    else if oracleIs self.oracle "auth_seq" "2" then .ok (self.mapConfirmRequest sendConfirm).mapOurStatus
    else .ok { self with request := .unknown }.mapOurStatus
  else .ok self

/-- `sendConfirm` is the counter of the station. -/
def PredicateTransformer.mapRequestToPredicates (self : PredicateTransformer) (pkt : PacketType) (sendConfirm : UInt16) (frame : FuzzerFrame) :
    Except Fault PredicateTransformer :=
  match pkt with
  | .commit => .ok { self with request := .commitSuccess, ourStatusCode := .h2e, groupId := 19 }
  | .confirm => .ok { self with request := .confirmSuccess, ourStatusCode := .success, sendConfirm := sendConfirm.toNat }
  | .associationReq => .ok { self with request := .associationRequest }
  | .raw => self.mapRawRequest sendConfirm frame

/-- What the predicates of a step are computed from. -/
structure Observation (G : Type) where
  pkt : PacketType
  sendConfirm : UInt16
  ap : ApContext G
  frame : FuzzerFrame
  response : SaeFrame
  prevApGroup : Int
  prevApSendConfirm : Int
  err : Int

/-- The predicates of a step, and the transformer that is left for the next one. -/
def PredicateTransformer.predicateTransform (self : PredicateTransformer) (file : Option DriverOracle) (step : Observation G) :
    Except Fault (PredicateTransformer × PredicateTransformer) := do
  let self := { self with prevApGroup := step.prevApGroup, prevApSendConfirm := step.prevApSendConfirm, parserErrorCode := step.err }
  let self := (self.readOCamlOracle file).mapResponseToPredicates step.ap step.response
  let predicates ← self.mapRequestToPredicates step.pkt step.sendConfirm step.frame
  .ok (predicates, predicates.resetTransformer)

end Mapping

section Agreement

variable {self : PredicateTransformer} {frame : FuzzerFrame} {bytes : List UInt8}

theorem mapRejectedGroups_frame {next : PredicateTransformer} (done : self.mapRejectedGroups frame = .ok next) :
    next = { self with rgContainer := next.rgContainer, rg := next.rg } := by
  rw [PredicateTransformer.mapRejectedGroups] at done
  split at done
  · obtain ⟨found, _, done⟩ := Logic.bind_ok done
    cases done
    rfl
  · cases done
    rfl

theorem mapPasswordId_frame (self : PredicateTransformer) (frame : FuzzerFrame) :
    self.mapPasswordId frame = { self with piContainer := (self.mapPasswordId frame).piContainer, pi := (self.mapPasswordId frame).pi } := by
  rw [PredicateTransformer.mapPasswordId]
  split <;> rfl

theorem mapAcContainer_frame (self : PredicateTransformer) (frame : FuzzerFrame) :
    self.mapAcContainer frame = { self with acContainer := (self.mapAcContainer frame).acContainer, ac := (self.mapAcContainer frame).ac } := by
  rw [PredicateTransformer.mapAcContainer]
  split <;> rfl

theorem mapAcToken_frame (self : PredicateTransformer) : self.mapAcToken = { self with ac := self.mapAcToken.ac } := by
  rw [PredicateTransformer.mapAcToken]
  split <;> rfl

theorem mapContainers_kept (self : PredicateTransformer) (frame : FuzzerFrame) :
    ((self.mapPasswordId frame).mapAcContainer frame).mapAcToken.rg = self.rg ∧
      ((self.mapPasswordId frame).mapAcContainer frame).mapAcToken.oracle = self.oracle ∧
      ((self.mapPasswordId frame).mapAcContainer frame).mapAcToken.request = self.request := by
  rw [mapAcToken_frame]
  dsimp only
  rw [mapAcContainer_frame]
  dsimp only
  rw [mapPasswordId_frame]
  exact ⟨rfl, rfl, rfl⟩

theorem mapCommitRequest_frame (self : PredicateTransformer) :
    self.mapCommitRequest = { self with request := self.mapCommitRequest.request } := by
  rw [PredicateTransformer.mapCommitRequest]
  repeat' split
  all_goals rfl

theorem mapOurStatus_frame (self : PredicateTransformer) :
    self.mapOurStatus = { self with ourStatusCode := self.mapOurStatus.ourStatusCode } := by
  rw [PredicateTransformer.mapOurStatus]
  repeat' split
  all_goals rfl

/-- A raw commit with a list of rejected groups is classified by the numbers in the list. -/
theorem mapRawRequest_rg (fresh : self.rg = .supportNotSet) (sendConfirm : UInt16) (algo : oracleHas self.oracle "algo" = true)
    (commit : oracleIs self.oracle "auth_seq" "1" = true) (listed : oracleHas self.oracle "rg_list" = true)
    (stored : frame.containers .rejectedGroups = ⟨some bytes, bytes.length, true⟩) :
    ∃ next, self.mapRequestToPredicates .raw sendConfirm frame = .ok next ∧
      next.rg = if (groupNumbers bytes).any supportedGroup then .supported else .unsupported := by
  have scanned := @scanGroups_ok bytes bytes.length 0 (by omega)
  rw [List.drop_zero] at scanned
  have request : self.mapRequestToPredicates .raw sendConfirm frame = self.mapRawRequest sendConfirm frame := rfl
  rw [request, PredicateTransformer.mapRawRequest, algo, oracleHas_of_oracleIs commit, commit, PredicateTransformer.mapRejectedGroups, listed, stored,
    scanned]
  refine ⟨_, rfl, ?_⟩
  rw [mapOurStatus_frame, mapCommitRequest_frame]
  dsimp only
  rw [(mapContainers_kept _ frame).1]
  cases (groupNumbers bytes).any supportedGroup with
  | true => rfl
  | false =>
    dsimp only
    rw [if_neg Bool.false_ne_true, fresh]
    rfl

/-- The two readings of the rejected groups agree on a list exactly if none of its bytes is the
number of a supported group, or if one at an even position is and no other byte, or 0, comes behind it. -/
theorem rejectedGroups_agree_iff (fresh : self.rg = .supportNotSet) (sendConfirm : UInt16) (algo : oracleHas self.oracle "algo" = true)
    (commit : oracleIs self.oracle "auth_seq" "1" = true) (listed : oracleHas self.oracle "rg_list" = true)
    (stored : frame.containers .rejectedGroups = ⟨some bytes, bytes.length, true⟩) :
    (checkRejectedGroups frame = .ok false ↔
      ∃ next, self.mapRequestToPredicates .raw sendConfirm frame = .ok next ∧ next.rg = .supported) ↔
      (∀ byte ∈ bytes, supportedByte byte = false) ∨ StandsAlone bytes := by
  obtain ⟨next, mapped, classified⟩ := mapRawRequest_rg fresh sendConfirm algo commit listed stored
  have byBytes : checkRejectedGroups frame = .ok false ↔ bytes.any supportedByte = true := by
    rw [checkRejectedGroups_whole stored]
    cases bytes.any supportedByte <;> simp
  have byNumbers : (∃ next, self.mapRequestToPredicates .raw sendConfirm frame = .ok next ∧ next.rg = .supported) ↔ StandsAlone bytes := by
    rw [← groupNumbers_any, mapped]
    cases found : (groupNumbers bytes).any supportedGroup with
    | true =>
      rw [found] at classified
      exact iff_of_true ⟨next, rfl, classified⟩ rfl
    | false =>
      rw [found] at classified
      refine iff_of_false ?_ Bool.false_ne_true
      rintro ⟨other, same, supported⟩
      cases same
      rw [classified] at supported
      cases supported
  have none_ : (∀ byte ∈ bytes, supportedByte byte = false) ↔ ¬bytes.any supportedByte = true := by simp
  rw [byBytes, byNumbers, none_]
  constructor
  · intro same
    by_cases some_ : bytes.any supportedByte = true
    · exact Or.inr (same.mp some_)
    · exact Or.inl some_
  · intro either
    refine ⟨fun some_ => either.resolve_left (not_not.mpr some_), StandsAlone.any⟩

def rejectingCommit (groups : List UInt8) : List UInt8 :=
  [3, 0, 1, 0, 126, 0, 19, 0] ++ asciiBytes "<SCALAR>" ++ asciiBytes "<ELEMENT>" ++ [255, UInt8.ofNat (groups.length + 1), 92] ++ groups

/-- The transformer before a packet, with what the generator says about the packet. -/
def beforePacket (packet : List UInt8) : PredicateTransformer :=
  PredicateTransformer.new.readOCamlOracle ((PacketGen.parsePacket packet).map Prod.snd)

private def listsGroups (groups : List UInt8) : Bool :=
  oracleHas (beforePacket (rejectingCommit groups)).oracle "algo" && oracleIs (beforePacket (rejectingCommit groups)).oracle "auth_seq" "1" &&
    oracleHas (beforePacket (rejectingCommit groups)).oracle "rg_list" &&
    (parseFuzzerFrame (fun _ => true) (rejectingCommit groups)).toOption.any fun result =>
      result.2.containers .rejectedGroups = ⟨some groups, groups.length, true⟩

private theorem listsGroups_ok {groups : List UInt8} (checked : listsGroups groups = true) :
    (oracleHas (beforePacket (rejectingCommit groups)).oracle "algo" = true ∧
      oracleIs (beforePacket (rejectingCommit groups)).oracle "auth_seq" "1" = true ∧
      oracleHas (beforePacket (rejectingCommit groups)).oracle "rg_list" = true) ∧
    ∃ code frame, parseFuzzerFrame (fun _ => true) (rejectingCommit groups) = .ok (code, frame) ∧
      frame.containers .rejectedGroups = ⟨some groups, groups.length, true⟩ := by
  rw [listsGroups, Bool.and_eq_true, Bool.and_eq_true, Bool.and_eq_true] at checked
  obtain ⟨⟨⟨algo, commit⟩, listed⟩, parsed⟩ := checked
  obtain ⟨⟨code, frame⟩, read, stored⟩ := Logic.checked_ok parsed
  exact ⟨⟨algo, commit, listed⟩, code, frame, read, of_decide_eq_true stored⟩

theorem group20_seen : ∃ code frame, parseFuzzerFrame (fun _ => true) (rejectingCommit [20, 0]) = .ok (code, frame) ∧
    (checkRejectedGroups frame = .ok false ↔
      ∃ next, (beforePacket (rejectingCommit [20, 0])).mapRequestToPredicates .raw 1 frame = .ok next ∧ next.rg = .supported) := by
  obtain ⟨⟨algo, commit, listed⟩, code, frame, parsed, stored⟩ := listsGroups_ok (by decide +kernel : listsGroups [20, 0] = true)
  refine ⟨code, frame, parsed, (rejectedGroups_agree_iff rfl 1 algo commit listed stored).mpr (Or.inr ⟨0, 20, rfl, rfl, ?_⟩)⟩
  intro high same
  cases same
  rfl

/-- The bytes 19 and 1 are the number of group 275. -/
theorem group275_taken_for_19 : ∃ code frame, parseFuzzerFrame (fun _ => true) (rejectingCommit [19, 1]) = .ok (code, frame) ∧
    ¬(checkRejectedGroups frame = .ok false ↔
      ∃ next, (beforePacket (rejectingCommit [19, 1])).mapRequestToPredicates .raw 1 frame = .ok next ∧ next.rg = .supported) := by
  obtain ⟨⟨algo, commit, listed⟩, code, frame, parsed, stored⟩ := listsGroups_ok (by decide +kernel : listsGroups [19, 1] = true)
  have fresh : (beforePacket (rejectingCommit [19, 1])).rg = .supportNotSet := rfl
  obtain ⟨next, mapped, classified⟩ := mapRawRequest_rg fresh 1 algo commit listed stored
  refine ⟨code, frame, parsed, ?_⟩
  intro agree
  obtain ⟨other, same, supported⟩ := agree.mp (by rw [checkRejectedGroups_whole stored]; rfl)
  rw [mapped] at same
  cases same
  rw [classified] at supported
  cases supported

end Agreement

end LtlFuzz.Driver

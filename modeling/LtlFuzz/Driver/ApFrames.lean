import LtlFuzz.Driver.Containers
import LtlFuzz.Driver.KeyAgreement

/-! What the driver receives: `process_received_frame` and `receive_frames` of `sendFrame.c`, and
`parse_sae_frame` of `driver.c`. -/

namespace LtlFuzz.Driver
open Logic (bind_ok)

section Reception

inductive SaeFrameType where
  | saeCommit
  | saeConfirm
  | association
  | assocResponse
  | eapolKey1
  | eapolKey3
  | timeout
  | other
  deriving DecidableEq, Repr

/-- `sae_frame_t`. -/
structure SaeFrame where
  type : SaeFrameType
  data : Option (List UInt8)
  dataLen : Nat
  deriving DecidableEq, Repr

def SaeFrame.filled (frame : SaeFrame) : Bool := frame.data.isSome && frame.dataLen != 0

/-- A frame from the access point, behind its headers. A probe response is what becomes of its
`probe_info`, and whether all of it was there; a frame is short that has no whole radiotap header. -/
inductive ApFrame where
  | authentication (variable_ : List UInt8)
  | assocResponse (body : List UInt8)
  | eapolKey1 (key : List UInt8)
  | eapolKey3 (key : List UInt8)
  | probeResponse (info : List UInt8) (complete : Bool)
  | short
  | other
  deriving DecidableEq, Repr

/-- A copy of what was received, if there is memory for it. The type is set before. -/
def SaeFrame.take (type : SaeFrameType) (content : List UInt8) (allocated : Bool) : Bool × SaeFrame :=
  if allocated then (true, ⟨type, some content, content.length⟩) else (false, ⟨type, none, content.length⟩)

/-- The buffer holds zeros behind a frame. -/
def processReceivedFrame (frame : ApFrame) (allocated : Bool) (data : SaeFrame) : Bool × SaeFrame :=
  match frame with
  | .assocResponse body => SaeFrame.take .assocResponse body allocated
  | .eapolKey1 key => SaeFrame.take .eapolKey1 key allocated
  | .eapolKey3 key => SaeFrame.take .eapolKey3 key allocated
  | .probeResponse info complete =>
    if !allocated then (false, { data with data := none })
    else if !complete then (false, { data with data := some info })
    else (true, ⟨.association, some info, info.length⟩)
  | .authentication variable_ =>
    SaeFrame.take (if variable_.getD 2 0 &&& 1 ≠ 0 then .saeCommit else .saeConfirm) variable_ allocated
  | .short => (false, { data with type := .timeout, dataLen := 0 })
  | .other => (false, data)

/-- What `recv` returns. -/
inductive Reception where
  | frame (frame : ApFrame) (allocated : Bool)
  | failed
  | closed
  | timeout
  deriving DecidableEq, Repr

def awaited (requestType : SaeFrameType) : SaeFrameType → Bool
  | .saeCommit => requestType = .saeCommit
  | .saeConfirm => requestType = .saeConfirm
  | .eapolKey1 | .eapolKey3 | .association | .assocResponse => true
  | .timeout | .other => false

/-- So many receptions, or until nothing more comes. -/
def receiveFrom (requestType : SaeFrameType) : Nat → List Reception → SaeFrame → SaeFrame
  | 0, _, data => { data with type := .timeout }
  | _ + 1, [], data => { data with type := .timeout }
  | _ + 1, .timeout :: _, data => { data with type := .timeout }
  | _ + 1, .closed :: _, data => data
  | count + 1, .failed :: rest, data => receiveFrom requestType count rest data
  | count + 1, .frame frame allocated :: rest, data =>
    let (processed, data) := processReceivedFrame frame allocated data
    if processed && awaited requestType data.type then data else receiveFrom requestType count rest data

def receiveFrames (requestType : SaeFrameType) (receptions : List Reception) (data : SaeFrame) : SaeFrame :=
  receiveFrom requestType 10 receptions data

end Reception

section Parsing

variable {G : Type} [AddCommGroup G]

/-- A group with its points written as pairs of coordinates. A pair is stored whether it is on the curve or not. -/
structure Curve (G : Type) [AddCommGroup G] extends EcGroup G where
  affineY : G → Option Nat
  setAffineCoordinates : Nat → Nat → G

/-- `sae_response`. -/
structure ApContext (G : Type) extends SaeResponse G where
  sendConfirm : UInt16
  confirm : List UInt8
  acToken : Option (List UInt8)
  status : UInt16
  groupId : Int
  didWeReceiveCommit : Bool
  isZeroElement : Bool

/-- What lies in memory where nothing was written: in places behind a `sae_frame_t`, in that of a
value that was never returned, and in new buffers. -/
structure Unwritten where
  status : UInt16
  sendConfirm : UInt16
  confirm : List UInt8
  returned : Int
  buffers : Nat → List UInt8

/-- A number, the highest byte first. -/
def bin2bn (bytes : List UInt8) : Nat := bytes.foldl (fun n byte => n * 256 + byte.toNat) 0

def storeToken (token : Option (List UInt8)) (data : List UInt8) (dataLen pos : Nat) : Except Fault (Option (List UInt8)) :=
  match token with
  | none => .error .nullPointer
  | some old =>
    if pos ≤ dataLen ∧ dataLen - pos ≤ old.length then do
      let bytes ← readBytes data pos (dataLen - pos)
      .ok (some (bytes ++ old.drop (dataLen - pos)))
    else .error .outOfBounds

variable (curve : Curve G)

/-- The `SAE_COMMIT` branch. -/
def parseCommitResponse (data : List UInt8) (dataLen : Nat) (ap : ApContext G) : Except Fault (Int × ApContext G) := do
  let status ← readByte data 4
  let ap := { ap with status := status.toUInt16 }
  if ap.status = 1 then .ok (-4, ap)
  else if ap.status ≠ 0 ∧ ap.status ≠ 0x7e then .ok (-1, ap)
  else
    let group ← readByte data 6
    let ap := { ap with groupId := group.toNat }
    if ap.status = 76 then .ok (-2, { ap with acToken := ← storeToken ap.acToken data dataLen 8 })
    else if ap.status = 77 then .ok (-3, ap)
    else
      let scalar ← readBytes data 8 32
      let x ← readBytes data 40 32
      let y ← readBytes data 72 32
      .ok (1, { ap with
        scalar := bin2bn scalar
        element := curve.setAffineCoordinates (bin2bn x) (bin2bn y)
        didWeReceiveCommit := true
        isZeroElement := false })

/-- The `SAE_CONFIRM` branch. It reads behind the frame and not in its data. -/
def parseConfirmResponse (unwritten : Unwritten) (ap : ApContext G) : Int × ApContext G :=
  let ap := { ap with status := unwritten.status }
  if ap.status = 0 then (-2, ap)
  else if ap.status ≠ 0 then (-1, ap)
  else (2, { ap with sendConfirm := unwritten.sendConfirm, confirm := unwritten.confirm })

def parseSaeFrame (unwritten : Unwritten) (response : SaeFrame) (ap : ApContext G) : Except Fault (Int × ApContext G) :=
  if response.type = .timeout then .ok (-5, ap)
  else
    match response.data with
    | none => .ok (-5, ap)
    | some data =>
      match response.type with
      | .saeCommit => parseCommitResponse curve data response.dataLen ap
      | .saeConfirm => .ok (parseConfirmResponse unwritten ap)
      | .association => .ok (3, ap)
      | _ => .ok (unwritten.returned, ap)

/-- A commit that is taken in: its status is one that goes with a commit. -/
def acceptedStatus (status : UInt8) : Bool := status = 0 || status = 0x7e

variable {curve} {unwritten : Unwritten} {response : SaeFrame} {ap next : ApContext G} {code : Int}

omit [AddCommGroup G] in
/-- Neither the counter nor the hash of a confirm is ever read. -/
theorem parseConfirmResponse_eq (unwritten : Unwritten) (ap : ApContext G) :
    parseConfirmResponse unwritten ap = (if unwritten.status = 0 then -2 else -1, { ap with status := unwritten.status }) := by
  by_cases zero : unwritten.status = 0
  · rw [parseConfirmResponse, if_pos zero, if_pos zero]
  · rw [parseConfirmResponse, if_neg zero, if_neg zero, if_pos zero]

/-- What a commit changes of the status, of the group and of the counter. -/
theorem parseCommitResponse_ok {data : List UInt8} {dataLen : Nat} (parsed : parseCommitResponse curve data dataLen ap = .ok (code, next)) :
    ∃ status, data[4]? = some status ∧ next.status = status.toUInt16 ∧ next.sendConfirm = ap.sendConfirm ∧
      ((acceptedStatus status = false ∧ next.groupId = ap.groupId) ∨
        acceptedStatus status = true ∧ ∃ group, data[6]? = some group ∧ next.groupId = group.toNat) := by
  obtain ⟨status, read, parsed⟩ := bind_ok parsed
  have stands : data[4]? = some status := by
    rw [readByte] at read
    split at read
    · next found =>
      cases read
      exact found
    · cases read
  have wide : ∀ value : UInt8, status.toUInt16 = value.toUInt16 ↔ status = value := fun value => by
    rw [← UInt16.toNat_inj, ← UInt8.toNat_inj, UInt8.toNat_toUInt16, UInt8.toNat_toUInt16]
  dsimp only at parsed
  split at parsed
  · next one =>
    cases parsed
    have one : status = 1 := (wide 1).mp one
    exact ⟨status, stands, rfl, rfl, Or.inl ⟨by rw [one]; rfl, rfl⟩⟩
  · split at parsed
    · next other =>
      cases parsed
      have zero : status ≠ 0 := fun same => other.1 ((wide 0).mpr same)
      have element : status ≠ 0x7e := fun same => other.2 ((wide 0x7e).mpr same)
      exact ⟨status, stands, rfl, rfl, Or.inl ⟨by simp [acceptedStatus, zero, element], rfl⟩⟩
    · next good =>
      have accepted : acceptedStatus status = true := by
        rw [acceptedStatus, Bool.or_eq_true, decide_eq_true_eq, decide_eq_true_eq]
        rcases not_and_or.mp good with zero | element
        · exact Or.inl ((wide 0).mp (not_not.mp zero))
        · exact Or.inr ((wide 0x7e).mp (not_not.mp element))
      obtain ⟨group, groupRead, parsed⟩ := bind_ok parsed
      have groupStands : data[6]? = some group := by
        rw [readByte] at groupRead
        split at groupRead
        · next found =>
          cases groupRead
          exact found
        · cases groupRead
      split at parsed
      · obtain ⟨token, _, parsed⟩ := bind_ok parsed
        cases parsed
        exact ⟨status, stands, rfl, rfl, Or.inr ⟨accepted, group, groupStands, rfl⟩⟩
      · split at parsed
        · cases parsed
          exact ⟨status, stands, rfl, rfl, Or.inr ⟨accepted, group, groupStands, rfl⟩⟩
        · obtain ⟨scalar, _, parsed⟩ := bind_ok parsed
          obtain ⟨x, _, parsed⟩ := bind_ok parsed
          obtain ⟨y, _, parsed⟩ := bind_ok parsed
          cases parsed
          exact ⟨status, stands, rfl, rfl, Or.inr ⟨accepted, group, groupStands, rfl⟩⟩

/-- The counter of the access point is never written. -/
theorem parseSaeFrame_sendConfirm (parsed : parseSaeFrame curve unwritten response ap = .ok (code, next)) :
    next.sendConfirm = ap.sendConfirm := by
  rw [parseSaeFrame] at parsed
  split at parsed
  · cases parsed
    rfl
  · split at parsed
    · cases parsed
      rfl
    · split at parsed
      · obtain ⟨_, _, _, same, _⟩ := parseCommitResponse_ok parsed
        exact same
      · rw [parseConfirmResponse_eq] at parsed
        cases parsed
        rfl
      · cases parsed
        rfl
      · cases parsed
        rfl

end Parsing

end LtlFuzz.Driver

import LtlFuzz.Driver.ApFrames
import LtlFuzz.Driver.RejectedGroups
import LtlFuzz.Driver.Replacement

/-! What `fuzzer.cpp` says about a packet: `state_inference` names the state that it leads to, and the
verdict says whether the answer of the access point was to be expected. -/

namespace LtlFuzz.Driver
open Logic (bind_ok)

section Checks

variable {G : Type} [AddCommGroup G]

def checkPasswordId (frame : FuzzerFrame) : Bool := !(frame.containers .passwordId).present

/-- The text for a point without coordinates is a single byte. -/
def Curve.point2oct (curve : Curve G) (point : G) : List UInt8 :=
  match curve.affineX point, curve.affineY point with
  | some x, some y => 4 :: (bn2binpad x 32 [] ++ bn2binpad y 32 [])
  | _, _ => [0]

/-- 64 bytes of a buffer that a point was written to, behind the first one. -/
def elementBytes (curve : Curve G) (point : G) (buffer : List UInt8) : List UInt8 :=
  ((curve.point2oct point ++ buffer.drop (curve.point2oct point).length).drop 1).take 64

def Replacement.read (replacement : Replacement) (len : Nat) : Except Fault (List UInt8) :=
  match replacement.pointer with
  | some bytes => readBytes bytes 0 len
  | none => .error .nullPointer

/-- `elementBuf` is what the buffer for the element holds at first. The counter is written over 16
bytes, and the scalar over the last 14 of them. -/
def checkConfirm (curve : Curve G) (mac : Mac) (elementBuf : List UInt8) (ap : ApContext G) (kck : List UInt8) (frame : FuzzerFrame)
    (values : SaeReplacements) : Except Fault Bool := do
  let data := shortBytes ap.sendConfirm.toNat
  let data := data ++ bn2binpad ap.scalar 32 (ap.confirm.take 14)
  let data := data ++ elementBytes curve ap.element elementBuf
  if frame.scalar.isPlaceholder then
    let data := data ++ (← values.scalar.read 32)
    if frame.element.isPlaceholder then
      let data := data ++ (← values.element.read 64)
      let expectedConfirm := mac.hmac256 kck data
      sameBytes (some expectedConfirm) ap.confirm 0 32
    else .ok false
  else .ok false

end Checks

section Verdicts

variable {G : Type} [AddCommGroup G]

inductive Inference where
  | nothing
  | confirmed
  | accepted
  | ignore
  deriving DecidableEq, Repr

def validPlaceholders (frame : FuzzerFrame) : Bool :=
  frame.scalar.present && frame.scalar.isPlaceholder && frame.element.present && frame.element.isPlaceholder

/-- The last condition of `state_inference` and of the verdict on a commit. -/
def objectionable (frame : FuzzerFrame) (rgValid piValid acValid : Bool) : Bool :=
  !rgValid || !piValid || !acValid || frame.statusCode != 0 || frame.statusCode != 126 || frame.algo != 3 || frame.seq != 1

/-- The scalar and the element of the access point are always allocated. -/
def stateInference (frame : FuzzerFrame) (ap : ApContext G) : Except Fault Inference :=
  if frame.algo = 3 then
    if frame.seq = 1 then
      if !supportedGroup frame.groupId then .ok .nothing
      else if validPlaceholders frame then do
        let rgValid ← checkRejectedGroups frame
        let piValid := checkPasswordId frame
        let acValid ← checkAcTokenContainer frame ap.acToken
        .ok (if objectionable frame rgValid piValid acValid then .confirmed else .nothing)
      else .ok .nothing
    else if frame.seq = 2 then
      .ok (if frame.confirmHash.isPlaceholder && frame.sendConfirm.isPlaceholder then .accepted else .ignore)
    else .ok .ignore
  else .ok .ignore

inductive Verdict where
  | expectedOutput
  | unexpectedOutput
  | crash
  | timeout
  | successfulTransition
  deriving DecidableEq, Repr

def commitVerdict (frame : FuzzerFrame) (ap : ApContext G) : Except Fault Verdict :=
  if !supportedGroup frame.groupId then
    .ok (if ap.status = 77 then .expectedOutput else if ap.status = 0 ∨ ap.status = 126 then .unexpectedOutput else .expectedOutput)
  else if validPlaceholders frame then do
    let rgValid ← checkRejectedGroups frame
    let piValid := checkPasswordId frame
    let acValid ← checkAcTokenContainer frame ap.acToken
    .ok (if (ap.status = 0 ∨ ap.status = 126) ∧ objectionable frame rgValid piValid acValid then .unexpectedOutput else .expectedOutput)
  else .ok (if ap.status ≠ 0 ∧ ap.status ≠ 126 then .expectedOutput else .unexpectedOutput)

def confirmVerdict (curve : Curve G) (mac : Mac) (elementBuf : List UInt8) (ctx : SaeContext G) (ap : ApContext G) (frame : FuzzerFrame)
    (values : SaeReplacements) : Except Fault Verdict :=
  if ap.status = 0 then do
    .ok (if !(← checkConfirm curve mac elementBuf ap ctx.kck frame values) then .unexpectedOutput else .expectedOutput)
  else
    .ok (if ctx.areKeysSet && frame.confirmHash.isPlaceholder && frame.sendConfirm.isPlaceholder then .unexpectedOutput else .expectedOutput)

/-- The verdict after the last packet of a trace. -/
def rawVerdict (curve : Curve G) (mac : Mac) (elementBuf : List UInt8) (crashed : Bool) (ctx : SaeContext G) (ap : ApContext G)
    (frame : FuzzerFrame) (values : SaeReplacements) (response : SaeFrame) : Except Fault Verdict :=
  match response.type with
  | .saeCommit => commitVerdict frame ap
  | .saeConfirm => confirmVerdict curve mac elementBuf ctx ap frame values
  | .assocResponse => .ok .unexpectedOutput
  | .timeout => .ok (if crashed then .crash else .timeout)
  | _ => .ok .unexpectedOutput

end Verdicts

section Commits

variable {G : Type} {frame : FuzzerFrame} {ap : ApContext G}

/-- A commit of a supported group with valid placeholders, which passes the checks and has a status
that goes with a commit. -/
structure ValidCommit (frame : FuzzerFrame) (ap : ApContext G) : Prop where
  group : supportedGroup frame.groupId = true
  placeholders : validPlaceholders frame = true
  rejectedGroups : checkRejectedGroups frame = .ok true
  passwordId : checkPasswordId frame = true
  acToken : checkAcTokenContainer frame ap.acToken = .ok true
  status : frame.statusCode = 0 ∨ frame.statusCode = 126

/-- The checks read what is there. -/
def Checkable (frame : FuzzerFrame) (ap : ApContext G) : Prop :=
  ∃ rgValid acValid, checkRejectedGroups frame = .ok rgValid ∧ checkAcTokenContainer frame ap.acToken = .ok acValid

def Granted (ap : ApContext G) : Prop := ap.status = 0 ∨ ap.status = 126

/-- A commit is said to be confirmed, and its answer expected, exactly if it is valid. -/
def JudgedRightly (frame : FuzzerFrame) (ap : ApContext G) : Prop :=
  (stateInference frame ap = .ok .confirmed ↔ ValidCommit frame ap) ∧
    (Granted ap → (commitVerdict frame ap = .ok .expectedOutput ↔ ValidCommit frame ap))

theorem objectionable_eq (frame : FuzzerFrame) (rgValid piValid acValid : Bool) : objectionable frame rgValid piValid acValid = true := by
  have differs : (frame.statusCode != 0 || frame.statusCode != 126) = true := by
    by_cases zero : frame.statusCode = 0
    · rw [zero]
      rfl
    · rw [bne_iff_ne.mpr zero]
      rfl
  rw [objectionable, Bool.or_assoc (!rgValid || !piValid || !acValid), differs]
  simp

theorem ValidCommit.checkable (valid : ValidCommit frame ap) : Checkable frame ap := ⟨true, true, valid.rejectedGroups, valid.acToken⟩

/-- A commit that can be checked is confirmed whenever its group and its placeholders are right. -/
theorem stateInference_confirmed_iff (algo : frame.algo = 3) (commit : frame.seq = 1) :
    stateInference frame ap = .ok .confirmed ↔ supportedGroup frame.groupId = true ∧ validPlaceholders frame = true ∧ Checkable frame ap := by
  rw [stateInference, if_pos algo, if_pos commit]
  cases supported : supportedGroup frame.groupId with
  | false => simp
  | true =>
    cases valid : validPlaceholders frame with
    | false => simp
    | true =>
      rw [if_neg (by simp), if_pos rfl, Checkable]
      cases checkRejectedGroups frame with
      | error fault => simp [bind, Except.bind]
      | ok rgValid =>
        cases checkAcTokenContainer frame ap.acToken with
        | error fault => simp [bind, Except.bind]
        | ok acValid => simp [bind, Except.bind, objectionable_eq]

/-- A commit that is granted is never found to be expected. -/
theorem commitVerdict_granted (granted : Granted ap) : commitVerdict frame ap ≠ .ok .expectedOutput := by
  have answered : ap.status = 0 ∨ ap.status = 126 := granted
  have supported : ap.status ≠ 77 := by
    rcases granted with zero | element
    · rw [zero]
      decide
    · rw [element]
      decide
  rw [commitVerdict]
  cases supportedGroup frame.groupId with
  | false =>
    rw [if_pos Bool.not_false, if_neg supported, if_pos answered]
    exact (nomatch ·)
  | true =>
    rw [if_neg (by simp)]
    split
    · intro expected
      obtain ⟨rgValid, _, expected⟩ := bind_ok expected
      obtain ⟨acValid, _, expected⟩ := bind_ok expected
      rw [if_pos ⟨answered, objectionable_eq frame _ _ _⟩] at expected
      cases expected
    · rw [if_neg (fun other => answered.elim other.1 other.2)]
      exact (nomatch ·)

/-- A commit is judged rightly if it has another group or no valid placeholders, if it cannot be
checked, or if it is valid and not granted. -/
theorem commit_judged_iff (algo : frame.algo = 3) (commit : frame.seq = 1) :
    JudgedRightly frame ap ↔
      supportedGroup frame.groupId = false ∨ validPlaceholders frame = false ∨ ¬Checkable frame ap ∨ (ValidCommit frame ap ∧ ¬Granted ap) := by
  rw [JudgedRightly, stateInference_confirmed_iff algo commit]
  have verdict : (Granted ap → (commitVerdict frame ap = .ok .expectedOutput ↔ ValidCommit frame ap)) ↔ (Granted ap → ¬ValidCommit frame ap) := by
    refine forall_congr' fun granted => ?_
    rw [iff_false_left (commitVerdict_granted granted)]
  rw [verdict]
  have needs : ValidCommit frame ap → supportedGroup frame.groupId = true ∧ validPlaceholders frame = true ∧ Checkable frame ap :=
    fun valid => ⟨valid.group, valid.placeholders, valid.checkable⟩
  by_cases valid : ValidCommit frame ap
  · obtain ⟨supported, placeholders, checkable⟩ := needs valid
    simp [valid, supported, placeholders, checkable]
  · simp only [valid, false_and, or_false, iff_false, not_and, not_false_iff, implies_true, and_true]
    cases supportedGroup frame.groupId with
    | false => simp
    | true =>
      cases validPlaceholders frame with
      | false => simp
      | true => simp

def placeholderCommit (group : UInt8) : List UInt8 :=
  [3, 0, 1, 0, 126, 0, group, 0] ++ asciiBytes "<SCALAR>" ++ asciiBytes "<ELEMENT>"

def grantingAp : ApContext Unit := ⟨⟨0, ()⟩, 0, [], some (List.replicate 35 0), 126, 19, true, false⟩

theorem group22_judged : ∃ code frame, parseFuzzerFrame (fun _ => true) (placeholderCommit 22) = .ok (code, frame) ∧
    JudgedRightly frame grantingAp := by
  have parsed : ((parseFuzzerFrame (fun _ => true) (placeholderCommit 22)).toOption.any fun result =>
      result.2.algo = 3 && result.2.seq = 1 && !supportedGroup result.2.groupId) = true := by decide +kernel
  obtain ⟨⟨code, frame⟩, read, fields⟩ := Logic.checked_ok parsed
  simp only [Bool.and_eq_true, decide_eq_true_eq, Bool.not_eq_true'] at fields
  obtain ⟨⟨algo, commit⟩, unsupported⟩ := fields
  exact ⟨code, frame, read, (commit_judged_iff algo commit).mpr (Or.inl unsupported)⟩

theorem validCommit_misjudged : ∃ code frame, parseFuzzerFrame (fun _ => true) (placeholderCommit 19) = .ok (code, frame) ∧
    ValidCommit frame grantingAp ∧ ¬JudgedRightly frame grantingAp := by
  have parsed : ((parseFuzzerFrame (fun _ => true) (placeholderCommit 19)).toOption.any fun result =>
      supportedGroup result.2.groupId && validPlaceholders result.2 && decide (checkRejectedGroups result.2 = .ok true) &&
        checkPasswordId result.2 && decide (checkAcTokenContainer result.2 grantingAp.acToken = .ok true) &&
        decide (result.2.statusCode = 0 ∨ result.2.statusCode = 126)) = true := by decide +kernel
  obtain ⟨⟨code, frame⟩, read, fields⟩ := Logic.checked_ok parsed
  simp only [Bool.and_eq_true, decide_eq_true_eq] at fields
  obtain ⟨⟨⟨⟨⟨group, placeholders⟩, rejectedGroups⟩, passwordId⟩, acToken⟩, status⟩ := fields
  have valid : ValidCommit frame grantingAp := ⟨group, placeholders, rejectedGroups, passwordId, acToken, status⟩
  refine ⟨code, frame, read, valid, ?_⟩
  intro right
  exact commitVerdict_granted (Or.inr rfl) ((right.2 (Or.inr rfl)).mpr valid)

end Commits

end LtlFuzz.Driver

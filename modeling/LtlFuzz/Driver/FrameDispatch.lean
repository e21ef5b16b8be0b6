import LtlFuzz.Driver.TraceRun

/-! What an authentication frame of the access point ought to do, by its sequence number and
status, and which frames `parse_sae_frame` does it for. -/

namespace LtlFuzz.Driver

section Dispatch

variable {G : Type} [AddCommGroup G] (curve : Curve G)

def field16 (frame : List UInt8) (pos : Nat) : Option Nat :=
  match frame[pos]?, frame[pos + 1]? with
  | some low, some high => some (low.toNat + 256 * high.toNat)
  | _, _ => none

/-- An authentication frame as `receive_frames` hands it over. -/
def SaeFrame.authentication (variable_ : List UInt8) : SaeFrame :=
  (processReceivedFrame (.authentication variable_) true ⟨.other, none, 0⟩).2

/-- The frame is taken in by its sequence number and its status, and nothing behind its end
has a part in that. -/
structure Dispatches (variable_ : List UInt8) (ap : ApContext G) (code : Int) (next : ApContext G) : Prop where
  inside : ∀ unwritten, parseSaeFrame curve unwritten (.authentication variable_) ap = .ok (code, next)
  token : field16 variable_ 2 = some 1 → field16 variable_ 4 = some 76 →
    code = -2 ∧ ∃ stored, next.acToken = some stored ∧ variable_.drop 8 <+: stored
  group : field16 variable_ 2 = some 1 → field16 variable_ 4 = some 77 →
    code = -3 ∧ ∀ group, field16 variable_ 6 = some group → next.groupId = group
  confirm : field16 variable_ 2 = some 2 → field16 variable_ 4 = some 0 →
    code = 2 ∧ (∀ counter, field16 variable_ 6 = some counter → next.sendConfirm.toNat = counter) ∧
      next.confirm = (variable_.drop 8).take 32

/-- The frames that reach their own branch: commits long enough for what is read of them,
without the two statuses whose branches stand behind a return. -/
structure ReachesItsBranch (variable_ : List UInt8) : Prop where
  commit : variable_.getD 2 0 &&& 1 ≠ 0
  status : 5 ≤ variable_.length
  other : ¬ (field16 variable_ 2 = some 1 ∧ (field16 variable_ 4 = some 76 ∨ field16 variable_ 4 = some 77))
  whole : ∀ status, variable_[4]? = some status → acceptedStatus status = true → 104 ≤ variable_.length

variable {curve} {variable_ : List UInt8} {ap : ApContext G} {unwritten : Unwritten}

omit [AddCommGroup G] in
private theorem field16_low {pos value : Nat} (found : field16 variable_ pos = some value) :
    ∃ low, variable_[pos]? = some low ∧ low.toNat = value % 256 := by
  unfold field16 at found
  split at found
  next low high readLow _ =>
    cases found
    have small := low.toNat_lt
    exact ⟨low, readLow, by omega⟩
  next => cases found

theorem parse_commit (odd : variable_.getD 2 0 &&& 1 ≠ 0) :
    parseSaeFrame curve unwritten (.authentication variable_) ap = parseCommitResponse curve variable_ variable_.length ap := by
  simp only [SaeFrame.authentication, processReceivedFrame, SaeFrame.take, if_pos odd, if_true]
  rfl

theorem parse_confirm (even : ¬ variable_.getD 2 0 &&& 1 ≠ 0) :
    parseSaeFrame curve unwritten (.authentication variable_) ap = .ok (parseConfirmResponse unwritten ap) := by
  simp only [SaeFrame.authentication, processReceivedFrame, SaeFrame.take, if_neg even, if_true]
  rfl

private theorem toUInt16_inj {status : UInt8} (value : UInt8) : status.toUInt16 = value.toUInt16 ↔ status = value := by
  rw [← UInt16.toNat_inj, ← UInt8.toNat_inj, UInt8.toNat_toUInt16, UInt8.toNat_toUInt16]

theorem parseCommitResponse_short (short : variable_.length < 5) :
    parseCommitResponse curve variable_ variable_.length ap = .error .outOfBounds := by
  have missing : variable_[4]? = none := List.getElem?_eq_none (by omega)
  simp [parseCommitResponse, readByte, missing, bind, Except.bind]

theorem parseCommitResponse_refused {status : UInt8} (here : variable_[4]? = some status)
    (refused : acceptedStatus status = false) :
    parseCommitResponse curve variable_ variable_.length ap =
      .ok (if status = 1 then -4 else -1, { ap with status := status.toUInt16 }) := by
  simp only [acceptedStatus, Bool.or_eq_false_iff, decide_eq_false_iff_not] at refused
  have zero : status.toUInt16 ≠ 0 := fun same => refused.1 ((toUInt16_inj 0).mp same)
  have element : status.toUInt16 ≠ 0x7e := fun same => refused.2 ((toUInt16_inj 0x7e).mp same)
  by_cases one : status = 1
  · subst one
    simp [parseCommitResponse, readByte, here, bind, Except.bind]
  · have other : status.toUInt16 ≠ 1 := fun same => one ((toUInt16_inj 1).mp same)
    simp [parseCommitResponse, readByte, here, bind, Except.bind, one, other, zero, element]

private theorem readBytes_inside {data read : List UInt8} {offset len : Nat}
    (found : readBytes data offset len = .ok read) : offset + len ≤ data.length := by
  unfold readBytes at found
  split at found
  next inside => exact inside
  next => cases found

private theorem parseCommitResponse_granted {status : UInt8} (here : variable_[4]? = some status)
    (accepted : acceptedStatus status = true) :
    parseCommitResponse curve variable_ variable_.length ap = (do
      let group ← readByte variable_ 6
      let scalar ← readBytes variable_ 8 32
      let x ← readBytes variable_ 40 32
      let y ← readBytes variable_ 72 32
      .ok (1, { ap with
        status := status.toUInt16
        groupId := group.toNat
        scalar := bin2bn scalar
        element := curve.setAffineCoordinates (bin2bn x) (bin2bn y)
        didWeReceiveCommit := true
        isZeroElement := false })) := by
  simp only [acceptedStatus, Bool.or_eq_true, decide_eq_true_eq] at accepted
  rcases accepted with rfl | rfl
  · simp [parseCommitResponse, readByte, here, bind, Except.bind]
  · simp [parseCommitResponse, readByte, here, bind, Except.bind]

theorem parseCommitResponse_accepted {status : UInt8} (here : variable_[4]? = some status)
    (accepted : acceptedStatus status = true) :
    (∃ output, parseCommitResponse curve variable_ variable_.length ap = .ok output) ↔ 104 ≤ variable_.length := by
  rw [parseCommitResponse_granted here accepted]
  constructor
  · rintro ⟨output, parsed⟩
    obtain ⟨group, _, parsed⟩ := Logic.bind_ok parsed
    obtain ⟨scalar, _, parsed⟩ := Logic.bind_ok parsed
    obtain ⟨x, _, parsed⟩ := Logic.bind_ok parsed
    obtain ⟨y, read, _⟩ := Logic.bind_ok parsed
    exact readBytes_inside read
  · intro whole
    rw [readByte_ok (by omega), readBytes_ok (by omega), readBytes_ok (by omega), readBytes_ok (by omega)]
    exact ⟨_, rfl⟩

omit [AddCommGroup G] in
private theorem confirm_even (confirm : field16 variable_ 2 = some 2) : ¬ variable_.getD 2 0 &&& 1 ≠ 0 := by
  obtain ⟨low, here, value⟩ := field16_low confirm
  have two : low = 2 := UInt8.toNat_inj.mp value
  rw [List.getD_eq_getElem?_getD, here, Option.getD_some, two]
  decide

omit [AddCommGroup G] in
/-- The status of a commit whose branch stands behind the return. -/
private theorem refused_status {value : Nat} (found : field16 variable_ 4 = some value) (listed : value = 76 ∨ value = 77) :
    ∃ status, variable_[4]? = some status ∧ acceptedStatus status = false ∧ status ≠ 1 := by
  obtain ⟨low, here, same⟩ := field16_low found
  refine ⟨low, here, ?_, ?_⟩
  · rcases listed with rfl | rfl
    · rw [UInt8.toNat_inj (b := 76) |>.mp same]; rfl
    · rw [UInt8.toNat_inj (b := 77) |>.mp same]; rfl
  · rintro rfl
    rcases listed with rfl | rfl
    · cases same
    · cases same

/-- What a confirm leaves depends on what lies behind the frame. -/
private theorem confirm_reads_outside (even : ¬ variable_.getD 2 0 &&& 1 ≠ 0) {code : Int} {next : ApContext G}
    (inside : ∀ unwritten, parseSaeFrame curve unwritten (.authentication variable_) ap = .ok (code, next)) : False := by
  have status (unwritten : Unwritten) : next.status = unwritten.status := by
    have parsed := inside unwritten
    rw [parse_confirm even, parseConfirmResponse_eq] at parsed
    rw [← (Prod.mk.inj (Except.ok.inj parsed)).2]
  have zero := status zeroMemory
  have one := status { zeroMemory with status := 1 }
  rw [zero] at one
  cases one

private theorem dispatches_of_commit (odd : variable_.getD 2 0 &&& 1 ≠ 0) {code : Int} {next : ApContext G}
    (parsed : parseCommitResponse curve variable_ variable_.length ap = .ok (code, next))
    (other : ¬ (field16 variable_ 2 = some 1 ∧ (field16 variable_ 4 = some 76 ∨ field16 variable_ 4 = some 77))) :
    Dispatches curve variable_ ap code next where
  inside _ := (parse_commit odd).trans parsed
  token commit status := absurd ⟨commit, Or.inl status⟩ other
  group commit status := absurd ⟨commit, Or.inr status⟩ other
  confirm confirm _ := absurd odd (confirm_even confirm)

/-- An authentication frame is dispatched as it ought to be exactly when it is a commit that
reaches its own branch. -/
theorem parseSaeFrame_dispatches_iff (curve : Curve G) (variable_ : List UInt8) (ap : ApContext G) :
    (∃ code next, Dispatches curve variable_ ap code next) ↔ ReachesItsBranch variable_ := by
  constructor
  · rintro ⟨code, next, dispatches⟩
    have odd : variable_.getD 2 0 &&& 1 ≠ 0 := by
      by_contra even
      exact confirm_reads_outside (not_not.mpr even) dispatches.inside
    have parsed := (parse_commit odd).symm.trans (dispatches.inside zeroMemory)
    refine ⟨odd, ?_, ?_, fun status here accepted => (parseCommitResponse_accepted here accepted).mp ⟨_, parsed⟩⟩
    · by_contra short
      rw [parseCommitResponse_short (by omega)] at parsed
      cases parsed
    · rintro ⟨commit, listed⟩
      have refused : code = -1 := by
        obtain ⟨status, here, refused, one⟩ : ∃ status, variable_[4]? = some status ∧ acceptedStatus status = false ∧ status ≠ 1 := by
          rcases listed with found | found
          · exact refused_status found (Or.inl rfl)
          · exact refused_status found (Or.inr rfl)
        rw [parseCommitResponse_refused here refused, if_neg one] at parsed
        exact (Prod.mk.inj (Except.ok.inj parsed)).1.symm
      rcases listed with found | found
      · exact absurd ((dispatches.token commit found).1.symm.trans refused) (by decide)
      · exact absurd ((dispatches.group commit found).1.symm.trans refused) (by decide)
  · rintro ⟨odd, long, other, whole⟩
    have here : variable_[4]? = some variable_[4] := List.getElem?_eq_getElem (by omega)
    cases accepted : acceptedStatus variable_[4] with
    | true =>
      obtain ⟨⟨code, next⟩, parsed⟩ : ∃ output, parseCommitResponse curve variable_ variable_.length ap = .ok output :=
        (parseCommitResponse_accepted here accepted).mpr (whole _ here accepted)
      exact ⟨code, next, dispatches_of_commit odd parsed other⟩
    | false => exact ⟨_, _, dispatches_of_commit odd (parseCommitResponse_refused here accepted) other⟩

def tokenRequest : List UInt8 := [3, 0, 1, 0, 76, 0, 19, 0, 1, 2, 3, 4]

def emptyContext : ApContext (ZMod 7) := ⟨⟨0, 0⟩, 0, [], some (List.replicate 4 0), 0, -1, false, true⟩

theorem tokenRequest_refused :
    parseSaeFrame sevenCurve zeroMemory (.authentication tokenRequest) emptyContext =
        .ok (-1, { emptyContext with status := 76 }) ∧
      field16 tokenRequest 2 = some 1 ∧ field16 tokenRequest 4 = some 76 ∧
      ¬ ∃ code next, Dispatches sevenCurve tokenRequest emptyContext code next := by
  have parsed : parseSaeFrame sevenCurve zeroMemory (.authentication tokenRequest) emptyContext =
      .ok (-1, { emptyContext with status := 76 }) := rfl
  refine ⟨parsed, by decide, by decide, ?_⟩
  rintro ⟨code, next, dispatches⟩
  have code_ := (dispatches.token (by decide) (by decide)).1
  rw [dispatches.inside zeroMemory] at parsed
  rw [(Prod.mk.inj (Except.ok.inj parsed)).1] at code_
  exact absurd code_ (by decide)

end Dispatch

end LtlFuzz.Driver

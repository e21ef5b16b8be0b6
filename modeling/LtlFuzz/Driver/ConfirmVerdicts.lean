import LtlFuzz.Driver.TraceRun

/-! The verdict on the answer to a raw confirm. The parser leaves scalar and element of a confirm unset,
and `check_confirm` wants placeholders in both. -/

namespace LtlFuzz.Driver
open Logic (bind_ok)

section Parsing

variable {malloc : Malloc} {data : List UInt8}

private theorem parseCommit_seq {frame later : FuzzerFrame} {at_ : Position} {code : Int}
    (done : parseCommit malloc data frame at_ = .ok (code, later)) : later.seq = frame.seq := by
  obtain ⟨⟨middle, result⟩, fields, done⟩ := bind_ok done
  have kept : middle.seq = frame.seq := by
    rw [parseCommitFields_frame fields]
  match result, done with
  | .error other, done =>
    cases done
    exact kept
  | .ok last, done =>
    obtain ⟨scan, _, done⟩ := bind_ok done
    cases done
    exact kept

theorem confirm_scalar {frame : FuzzerFrame} {code : Int} (parsed : parseFuzzerFrame malloc data = .ok (code, frame)) (confirm : frame.seq = 2) :
    frame.scalar = .zero := by
  rw [parseFuzzerFrame] at parsed
  split at parsed
  · cases parsed
    rfl
  · obtain ⟨header, read, parsed⟩ := bind_ok parsed
    have zero : header.scalar = .zero := by
      rw [parseHeader_frame read]
      rfl
    split at parsed
    · next commit =>
      rw [parseCommit_seq parsed, commit] at confirm
      cases confirm
    · split at parsed
      · rw [parseConfirm_frame parsed]
        exact zero
      · cases parsed
        exact zero

end Parsing

section Verdicts

variable {G : Type} [AddCommGroup G] {curve : Curve G} {mac : Mac} {pwes : Pwes G}

/-- Without a placeholder for the scalar nothing is compared. -/
theorem checkConfirm_refuses {frame : FuzzerFrame} (unset : frame.scalar = .zero) (elementBuf : List UInt8) (ap : ApContext G) (kck : List UInt8)
    (values : SaeReplacements) : checkConfirm curve mac elementBuf ap kck frame values = .ok false := by
  rw [checkConfirm, unset]
  rfl

/-- Where keys are set, any answer to a confirm with both placeholders is taken for wrong. -/
theorem confirmVerdict_unexpected {frame : FuzzerFrame} {ctx : SaeContext G} (unset : frame.scalar = .zero) (keys : ctx.areKeysSet = true)
    (counter : frame.sendConfirm.isPlaceholder = true) (hash : frame.confirmHash.isPlaceholder = true) (elementBuf : List UInt8)
    (ap : ApContext G) (values : SaeReplacements) : confirmVerdict curve mac elementBuf ctx ap frame values = .ok .unexpectedOutput := by
  rw [confirmVerdict, checkConfirm_refuses unset, keys, counter, hash]
  split
  · rfl
  · rfl

theorem marked_concat (trace : List Turn) (turn : Turn) : marked (trace ++ [turn]) = trace.map (fun earlier => (false, earlier)) ++ [(true, turn)] := by
  induction trace with
  | nil => rfl
  | cons first rest ih =>
    cases rest with
    | nil => rfl
    | cons second rest => exact congrArg ((false, first) :: ·) ih

theorem packetTurn_fout {last : Bool} {turn : Turn} {state next : TraceState G} (done : packetTurn curve mac pwes last turn state = .ok next) :
    next.fout = state.fout := by
  rw [packetTurn] at done
  split at done
  · obtain ⟨_, _, advanced, _⟩ := commitTurn_ok (mapError_ok done)
    exact advanced.fout
  · obtain ⟨_, _, advanced, _⟩ := confirmTurn_ok (mapError_ok done)
    exact advanced.fout
  · obtain ⟨_, _, _, kept, _⟩ := associationTurn_ok (mapError_ok done)
    exact kept
  · obtain ⟨_, _, _, _, _, advanced, _⟩ := rawTurn_ok done
    exact advanced.fout

theorem earlier_fout {trace : List Turn} {state middle : TraceState G}
    (executed : Logic.run (traceStep curve mac pwes) state (trace.map fun turn => (false, turn)) = .ok middle) : middle.fout = state.fout := by
  induction trace generalizing state with
  | nil =>
    cases executed
    rfl
  | cons turn rest ih =>
    obtain ⟨next, stepped, executed⟩ := Logic.run_cons_ok executed
    obtain ⟨turned, judged, done, written, rfl⟩ := traceStep_ok stepped
    cases written
    have kept : turned.fout = state.fout := packetTurn_fout done
    exact (ih executed).trans kept

theorem trace_last {before : Uninitialised} {trace : List Turn} {turn : Turn} {final : TraceState G}
    (executed : runASingleTrace curve mac pwes (initialState before) (trace ++ [turn]) = .ok final) :
    ∃ state middle judged, packetTurn curve mac pwes true turn state = .ok middle ∧ judge curve mac true turn middle = .ok judged ∧
      final = { judged with response := judged.response.free } ∧ middle.fout = [] := by
  rw [runASingleTrace, marked_concat] at executed
  obtain ⟨state, front, executed⟩ := Logic.run_prefix executed
  obtain ⟨next, stepped, executed⟩ := Logic.run_cons_ok executed
  cases executed
  obtain ⟨middle, judged, turned, written, rest⟩ := traceStep_ok stepped
  exact ⟨state, middle, judged, turned, written, rest, (packetTurn_fout turned).trans (earlier_fout front)⟩

/-- Whatever confirm answers a raw confirm, it is never accepted, and with both placeholders in the
packet it is taken for wrong. -/
theorem rawConfirm_refused {before : Uninitialised} {trace : List Turn} {turn : Turn} {final : TraceState G} {packet : List UInt8}
    {frame : FuzzerFrame} {code : Int} {answer : SaeFrame}
    (executed : runASingleTrace curve mac pwes (initialState before) (trace ++ [turn]) = .ok final) (raw : classifyToken turn.token = .raw)
    (read : stringToUnsignedChar turn.token = some packet) (parsed : parseFuzzerFrame (turn.around.malloc 0) packet = .ok (code, frame))
    (confirm : frame.seq = 2) (last : final.answers.getLast? = some answer) (type : answer.type = .saeConfirm) :
    checkConfirm curve mac (turn.around.unwritten.buffers 7) final.ap final.station.kck final.frame final.replacer = .ok false ∧
      (frame.sendConfirm.isPlaceholder = true → frame.confirmHash.isPlaceholder = true → final.fout = [.unexpectedOutput]) := by
  obtain ⟨state, middle, judged, turned, written, rfl, empty⟩ := trace_last executed
  rw [packetTurn, raw] at turned
  obtain ⟨packet', code', read', parsed', _, advanced, keys, marked_, _⟩ := rawTurn_ok turned
  cases read.symm.trans read'
  cases parsed.symm.trans parsed'
  have unset := confirm_scalar parsed confirm
  obtain ⟨oracleOut, fout, rfl⟩ := judge_ok written
  have response : middle.response = answer := by
    rw [advanced.answers, List.getLast?_concat] at last
    exact Option.some.inj last
  refine ⟨checkConfirm_refuses unset _ _ _ _, ?_⟩
  intro counter hash
  rw [judge, marked_, Bool.true_or, Bool.and_true, if_pos rfl] at written
  obtain ⟨inference, _, written⟩ := bind_ok written
  obtain ⟨verdict, decided, written⟩ := bind_ok written
  rw [rawVerdict, response, type] at decided
  have unexpected := decided.symm.trans (confirmVerdict_unexpected unset keys counter hash _ _ _)
  have outputs := congrArg TraceState.fout (Except.ok.inj written)
  cases unexpected
  exact outputs.symm.trans (congrArg (· ++ [Verdict.unexpectedOutput]) empty)

/-- The confirm of a party with the keys of the exchange, for its counter and the commits of both. -/
def honestConfirm (curve : Curve G) (mac : Mac) (kck : List UInt8) (counter : Nat) (own peer : SaeResponse G) : List UInt8 :=
  [3, 0, 2, 0, 0, 0] ++ shortBytes counter ++ mac.hmac256 kck (shortBytes counter ++ bn2binpad own.scalar 32 [] ++
    elementBytes curve own.element [] ++ bn2binpad peer.scalar 32 [] ++ elementBytes curve peer.element [])

def party (rand mask : Nat) : SaeContext (ZMod 7) :=
  generateSaeCommit sevenPoints { freshContext with rgContainer := ⟨0, []⟩ } rand mask

/-- The access point calculates its keys from the commit of the station. -/
def apKck : List UInt8 :=
  ((calculateKckAndPmk sevenPoints sumMac (party 5 2) (party 1 3).commit [] []).toOption.map SaeContext.kck).getD []

/-- A confirm as the driver reads it, with both placeholders. -/
def rawConfirm : List UInt8 := [3, 0, 2, 0, 0, 0, 19, 0] ++ asciiBytes "<SEND_CONFIRM_COUNTER>" ++ asciiBytes "<CONFIRM_HASH>"

def confirmTurnOf (data : List UInt8) : Turn := answered (bytesToHex rawConfirm) data

def honestTurn : Turn := confirmTurnOf (honestConfirm sevenCurve sumMac apKck 1 (party 5 2).commit (party 1 3).commit)

/-- The exchange is complete: both sides have the same keys, and each has the commit of the other. -/
structure Exchanged (final : TraceState (ZMod 7)) : Prop where
  kck : final.station.kck = apKck
  scalar : final.ap.scalar = (party 5 2).scalar
  element : final.ap.element = (party 5 2).element
  ownScalar : final.station.scalar = (party 1 3).scalar
  ownElement : final.station.element = (party 1 3).element

private theorem honestTurn_parsed : ∃ packet code frame, stringToUnsignedChar honestTurn.token = some packet ∧
    parseFuzzerFrame (honestTurn.around.malloc 0) packet = .ok (code, frame) ∧ frame.seq = 2 ∧ frame.sendConfirm.isPlaceholder = true ∧
      frame.confirmHash.isPlaceholder = true := by
  have read : stringToUnsignedChar honestTurn.token = some rawConfirm := by decide
  have checked : ((parseFuzzerFrame (honestTurn.around.malloc 0) rawConfirm).toOption.any fun result =>
      result.2.seq = 2 && result.2.sendConfirm.isPlaceholder && result.2.confirmHash.isPlaceholder) = true := by decide
  obtain ⟨⟨code, frame⟩, parsed, fields⟩ := Logic.checked_ok checked
  simp only [Bool.and_eq_true, decide_eq_true_eq] at fields
  exact ⟨rawConfirm, code, frame, read, parsed, fields.1.1, fields.1.2, fields.2⟩

private theorem honestTrace_runs : ∃ final answer,
    runASingleTrace sevenCurve sumMac ⟨3, 3⟩ (initialState zeroVariables) ([answered "COMMIT".toList (apCommit 19 0 2 5)] ++ [honestTurn]) =
      .ok final ∧ Exchanged final ∧ final.fout = [.unexpectedOutput] ∧ final.answers.getLast? = some answer ∧ answer.type = .saeConfirm := by
  have checked : ((runASingleTrace sevenCurve sumMac ⟨3, 3⟩ (initialState zeroVariables)
      ([answered "COMMIT".toList (apCommit 19 0 2 5)] ++ [honestTurn])).toOption.any fun final =>
        final.station.kck = apKck && final.ap.scalar = (party 5 2).scalar && decide (final.ap.element = (party 5 2).element) &&
          final.station.scalar = (party 1 3).scalar && decide (final.station.element = (party 1 3).element) &&
          final.fout = [.unexpectedOutput] && final.answers.getLast?.any fun answer => answer.type = .saeConfirm) = true := by
    decide +kernel
  obtain ⟨final, executed, fields⟩ := Logic.checked_ok checked
  simp only [Bool.and_eq_true, decide_eq_true_eq, Option.any_eq_true] at fields
  obtain ⟨⟨⟨⟨⟨⟨kck, scalar⟩, element⟩, ownScalar⟩, ownElement⟩, output⟩, answer, last, type⟩ := fields
  exact ⟨final, answer, executed, ⟨kck, scalar, element, ownScalar, ownElement⟩, output, last, type⟩

theorem honestConfirm_refused : ∃ final,
    runASingleTrace sevenCurve sumMac ⟨3, 3⟩ (initialState zeroVariables) ([answered "COMMIT".toList (apCommit 19 0 2 5)] ++ [honestTurn]) =
      .ok final ∧
    checkConfirm sevenCurve sumMac (zeroMemory.buffers 7) final.ap final.station.kck final.frame final.replacer = .ok false ∧
    final.fout = [.unexpectedOutput] := by
  obtain ⟨final, answer, executed, _, _, last, type⟩ := honestTrace_runs
  obtain ⟨packet, code, frame, read, parsed, confirm, counter, hash⟩ := honestTurn_parsed
  obtain ⟨refused, output⟩ := rawConfirm_refused executed (by decide +kernel) read parsed confirm last type
  exact ⟨final, executed, refused, output counter hash⟩

theorem honestConfirm_unexpected : ∃ final,
    runASingleTrace sevenCurve sumMac ⟨3, 3⟩ (initialState zeroVariables) ([answered "COMMIT".toList (apCommit 19 0 2 5)] ++ [honestTurn]) =
      .ok final ∧ Exchanged final ∧ final.fout ≠ [.expectedOutput] := by
  obtain ⟨final, answer, executed, complete, output, _⟩ := honestTrace_runs
  refine ⟨final, executed, complete, ?_⟩
  rw [output]
  exact (nomatch ·)

end Verdicts

end LtlFuzz.Driver

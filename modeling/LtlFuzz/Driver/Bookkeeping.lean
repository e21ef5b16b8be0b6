import LtlFuzz.Driver.TraceRun

/-! What `runASingleTrace` remembers of the access point: the group of its last commit and the counter of
its last successful confirm. Which answers it gets right depends on the state that they meet. -/

namespace LtlFuzz.Driver
open Logic (bind_ok)

section History

/-- The number in two bytes, the lower one first. -/
def wordAt (data : List UInt8) (i : Nat) : Option Int :=
  match data[i]?, data[i + 1]? with
  | some low, some high => some (low.toNat + 256 * high.toNat)
  | _, _ => none

def SaeFrame.wordAt (frame : SaeFrame) (i : Nat) : Option Int := frame.data.bind fun data => Driver.wordAt data i

def SaeFrame.isCommit (frame : SaeFrame) : Bool := frame.holds .saeCommit

/-- A confirm with status 0. -/
def SaeFrame.isSuccess (frame : SaeFrame) : Bool := frame.holds .saeConfirm && frame.wordAt 4 = some 0

def lastOf (kind : SaeFrame → Bool) (answers : List SaeFrame) : Option SaeFrame := answers.reverse.find? kind

/-- A value that is -1, or the number at a place of the last answer of a kind. -/
def Known (kind : SaeFrame → Bool) (i : Nat) (answers : List SaeFrame) (value : Int) : Prop :=
  value = -1 ∨ ∃ answer, lastOf kind answers = some answer ∧ answer.wordAt i = some value

theorem lastOf_concat (kind : SaeFrame → Bool) (answers : List SaeFrame) (answer : SaeFrame) :
    lastOf kind (answers ++ [answer]) = if kind answer then some answer else lastOf kind answers := by
  rw [lastOf, List.reverse_append, List.reverse_singleton, List.singleton_append, List.find?_cons]
  cases kind answer <;> rfl

theorem known_concat_of_kind {kind : SaeFrame → Bool} {answer : SaeFrame} (of : kind answer = true) (i : Nat) (answers : List SaeFrame)
    (value : Int) : Known kind i (answers ++ [answer]) value ↔ value = -1 ∨ answer.wordAt i = some value := by
  rw [Known, lastOf_concat, if_pos of]
  simp

theorem known_concat_of_other {kind : SaeFrame → Bool} {answer : SaeFrame} (other : kind answer = false) (i : Nat) (answers : List SaeFrame)
    (value : Int) : Known kind i (answers ++ [answer]) value ↔ Known kind i answers value := by
  rw [Known, lastOf_concat, other]
  rfl

/-- What is known of the answers so far stays known unless an answer of the kind has another number. -/
theorem known_concat_iff {kind : SaeFrame → Bool} {i : Nat} {answers : List SaeFrame} {value : Int} (known : Known kind i answers value)
    (answer : SaeFrame) :
    Known kind i (answers ++ [answer]) value ↔ (kind answer = true → value = -1 ∨ answer.wordAt i = some value) := by
  by_cases of : kind answer = true
  · rw [known_concat_of_kind of, forall_prop_of_true of]
  · rw [known_concat_of_other (Bool.not_eq_true _ ▸ of)]
    exact iff_of_true known fun yes => absurd yes of

theorem not_commit_of_confirm {answer : SaeFrame} (confirm : answer.holds .saeConfirm = true) : answer.isCommit = false := by
  have type := of_decide_eq_true (Bool.and_eq_true_iff.mp confirm).2
  simp [SaeFrame.isCommit, SaeFrame.holds, type]

theorem confirm_of_success {answer : SaeFrame} (success : answer.isSuccess = true) : answer.holds .saeConfirm = true :=
  (Bool.and_eq_true_iff.mp success).1

end History

section Invariant

variable {G : Type}

/-- The group and the counter that are passed to `predicate_transform`. -/
structure Remembered (state : TraceState G) : Prop where
  group : Known SaeFrame.isCommit 6 state.answers state.prevApGroup
  sendConfirm : Known SaeFrame.isSuccess 6 state.answers state.prevApSendConfirm

def Turn.requestType (turn : Turn) : SaeFrameType :=
  match classifyToken turn.token with
  | .commit => .saeCommit
  | .confirm => .saeConfirm
  | .associationReq => .other
  | .raw =>
    match (stringToUnsignedChar turn.token).map (parseFuzzerFrame (turn.around.malloc 0)) with
    | some (.ok (_, frame)) => Driver.requestType frame
    | _ => .other

def Turn.answer (turn : Turn) (state : TraceState G) : SaeFrame :=
  receiveFrames turn.requestType turn.around.receptions state.response

/-- A commit that is taken in has a group below 256. One that is not has the group that is known
already, or none is known. -/
def GroupFits (ap : ApContext G) (answer : SaeFrame) : Prop :=
  ∃ data status, answer.data = some data ∧ data[4]? = some status ∧
    if acceptedStatus status then data[7]? = some 0 else ap.groupId = -1 ∨ answer.wordAt 6 = some ap.groupId

/-- The answers that are remembered rightly. The counter in the context of the access point is the one
it had at first. -/
def Orderly (state : TraceState G) (turn : Turn) : Prop :=
  match classifyToken turn.token with
  | .commit =>
    ((turn.answer state).isCommit = true → GroupFits state.ap (turn.answer state)) ∧
      ((turn.answer state).isSuccess = true →
        state.prevApSendConfirm = -1 ∨ (turn.answer state).wordAt 6 = some state.prevApSendConfirm)
  | .confirm =>
    ((turn.answer state).isCommit = true → state.prevApGroup = -1 ∨ (turn.answer state).wordAt 6 = some state.prevApGroup) ∧
      ((turn.answer state).holds .saeConfirm = true →
        Known SaeFrame.isSuccess 6 (state.answers ++ [turn.answer state]) state.ap.sendConfirm.toNat)
  | .associationReq => True
  | .raw =>
    ((turn.answer state).isCommit = true → GroupFits state.ap (turn.answer state)) ∧
      ((turn.answer state).holds .saeConfirm = true → turn.around.unwritten.status = 0 →
        Known SaeFrame.isCommit 6 state.answers state.ap.sendConfirm.toNat) ∧
      ((turn.answer state).isSuccess = true →
        state.prevApSendConfirm = -1 ∨ (turn.answer state).wordAt 6 = some state.prevApSendConfirm)

end Invariant

section Steps

variable {G : Type} [AddCommGroup G] {curve : Curve G} {mac : Mac} {pwes : Pwes G} {turn : Turn} {state next : TraceState G}

theorem parseSaeFrame_commit (curve : Curve G) {answer : SaeFrame} (commit : answer.isCommit = true) (unwritten : Unwritten) (ap : ApContext G) :
    ∃ data, answer.data = some data ∧ parseSaeFrame curve unwritten answer ap = parseCommitResponse curve data answer.dataLen ap := by
  obtain ⟨filled, type⟩ := Bool.and_eq_true_iff.mp commit
  obtain ⟨data, held⟩ := Option.isSome_iff_exists.mp (Bool.and_eq_true_iff.mp filled).1
  have type := of_decide_eq_true type
  refine ⟨data, held, ?_⟩
  rw [parseSaeFrame, type, if_neg (by simp), held]

theorem wordAt_eq_low_iff {data : List UInt8} {i : Nat} {low : UInt8} (stands : data[i]? = some low) :
    wordAt data i = some (low.toNat : Int) ↔ data[i + 1]? = some 0 := by
  rw [wordAt, stands]
  cases data[i + 1]? with
  | none => simp
  | some high =>
    rw [Option.some.injEq, Option.some.injEq, ← UInt8.toNat_inj]
    have zero : (0 : UInt8).toNat = 0 := rfl
    rw [zero]
    omega

theorem groupFits_iff {ap other later : ApContext G} {answer : SaeFrame} {unwritten : Unwritten} {code : Int} (commit : answer.isCommit = true)
    (same : SameNumbers ap other) (parsed : parseSaeFrame curve unwritten answer ap = .ok (code, later)) :
    (later.groupId = -1 ∨ answer.wordAt 6 = some later.groupId) ↔ GroupFits other answer := by
  obtain ⟨data, held, branch⟩ := parseSaeFrame_commit curve commit unwritten ap
  rw [branch] at parsed
  obtain ⟨status, stands, _, _, outcome⟩ := parseCommitResponse_ok parsed
  have read : answer.wordAt 6 = wordAt data 6 := by rw [SaeFrame.wordAt, held, Option.bind_some]
  have fits : GroupFits other answer ↔
      if acceptedStatus status then data[7]? = some 0 else other.groupId = -1 ∨ answer.wordAt 6 = some other.groupId := by
    refine ⟨?_, fun fit => ⟨data, status, held, stands, fit⟩⟩
    rintro ⟨data', status', held', stands', fit⟩
    cases held.symm.trans held'
    cases stands.symm.trans stands'
    exact fit
  rw [fits]
  rcases outcome with ⟨rejected, kept⟩ | ⟨accepted, group, low, taken⟩
  · rw [rejected, kept, same.1]
    exact Iff.rfl
  · rw [accepted, if_pos rfl, taken, read, wordAt_eq_low_iff low]
    refine or_iff_right ?_
    omega

omit [AddCommGroup G] in
theorem remembered_iff {answer : SaeFrame} (answers : next.answers = state.answers ++ [answer]) :
    Remembered next ↔ Known SaeFrame.isCommit 6 (state.answers ++ [answer]) next.prevApGroup ∧
      Known SaeFrame.isSuccess 6 (state.answers ++ [answer]) next.prevApSendConfirm := by
  rw [← answers]
  exact ⟨fun right => ⟨right.group, right.sendConfirm⟩, fun right => ⟨right.1, right.2⟩⟩

theorem parsed_status {answer : SaeFrame} {ap later : ApContext G} {unwritten : Unwritten} {code : Int} (confirm : answer.holds .saeConfirm = true)
    (parsed : parseSaeFrame curve unwritten answer ap = .ok (code, later)) : later = { ap with status := unwritten.status } := by
  obtain ⟨filled, type⟩ := Bool.and_eq_true_iff.mp confirm
  obtain ⟨data, held⟩ := Option.isSome_iff_exists.mp (Bool.and_eq_true_iff.mp filled).1
  have type := of_decide_eq_true type
  rw [parseSaeFrame, type, if_neg (by simp), held, parseConfirmResponse_eq] at parsed
  cases parsed
  rfl

theorem commitTurn_iff (right : Remembered state) (token : classifyToken turn.token = .commit)
    (done : commitTurn curve mac pwes turn state = .ok next) : Remembered next ↔ Orderly state turn := by
  obtain ⟨answer, received, ⟨answers, _, ap, code, same, parsed⟩, group, sendConfirm⟩ := commitTurn_ok done
  have here : turn.answer state = answer := by rw [Turn.answer, Turn.requestType, token, received]
  rw [remembered_iff answers, sendConfirm, known_concat_iff right.sendConfirm, Orderly, token, here, group]
  refine and_congr ?_ Iff.rfl
  by_cases commit : answer.holds .saeCommit = true
  · rw [if_pos commit, known_concat_of_kind (by exact commit), groupFits_iff (by exact commit) same parsed]
    exact ⟨fun fits _ => fits, fun fits => fits commit⟩
  · rw [if_neg commit, known_concat_iff right.group]
    exact iff_of_true (fun yes => absurd yes commit) fun yes => absurd yes commit

theorem confirmTurn_iff (right : Remembered state) (token : classifyToken turn.token = .confirm)
    (done : confirmTurn curve mac pwes turn state = .ok next) : Remembered next ↔ Orderly state turn := by
  obtain ⟨answer, received, ⟨answers, _, ap, code, same, parsed⟩, group, sendConfirm⟩ := confirmTurn_ok done
  have here : turn.answer state = answer := by rw [Turn.answer, Turn.requestType, token, received]
  have counter : next.ap.sendConfirm = state.ap.sendConfirm := (parseSaeFrame_sendConfirm parsed).trans same.2
  rw [remembered_iff answers, group, known_concat_iff right.group, Orderly, token, here, sendConfirm, counter]
  refine and_congr Iff.rfl ?_
  by_cases confirm : answer.holds .saeConfirm = true
  · rw [if_pos confirm]
    exact ⟨fun known _ => known, fun known => known confirm⟩
  · rw [if_neg confirm, known_concat_iff right.sendConfirm]
    exact iff_of_true (fun yes => absurd (confirm_of_success yes) confirm) fun yes => absurd yes confirm

omit [AddCommGroup G] in
theorem associationTurn_iff (right : Remembered state) (token : classifyToken turn.token = .associationReq)
    (done : associationTurn turn state = .ok next) : Remembered next ↔ Orderly state turn := by
  obtain ⟨answer, empty, answers, _, _, group, sendConfirm⟩ := associationTurn_ok done
  have nothing : ∀ type, answer.holds type = false := fun type => by rw [SaeFrame.holds, empty, Bool.false_and]
  rw [remembered_iff answers, group, sendConfirm, known_concat_of_other (nothing .saeCommit),
    known_concat_of_other (by rw [SaeFrame.isSuccess, nothing, Bool.false_and]), Orderly, token]
  exact iff_of_true ⟨right.group, right.sendConfirm⟩ trivial

theorem rawTurn_iff {last : Bool} (right : Remembered state) (token : classifyToken turn.token = .raw)
    (done : rawTurn curve mac pwes last turn state = .ok next) : Remembered next ↔ Orderly state turn := by
  obtain ⟨packet, code, read, frame, received, ⟨answers, _, ap, result, same, parsed⟩, _, _, group, sendConfirm⟩ := rawTurn_ok done
  have here : turn.answer state = next.response := by
    rw [Turn.answer, Turn.requestType, token, read, received, Option.map_some, frame]
  have counter : next.ap.sendConfirm = state.ap.sendConfirm := (parseSaeFrame_sendConfirm parsed).trans same.2
  rw [remembered_iff answers, sendConfirm, known_concat_iff right.sendConfirm, Orderly, token, here, group, ← and_assoc]
  refine and_congr ?_ Iff.rfl
  by_cases commit : next.response.holds .saeCommit = true
  · have confirm : next.response.holds .saeConfirm = false := by
      rw [← Bool.not_eq_true]
      exact fun yes => absurd commit (Bool.eq_false_iff.mp (not_commit_of_confirm yes))
    rw [confirm, Bool.false_and, if_neg Bool.false_ne_true, if_pos commit, known_concat_of_kind (by exact commit),
      groupFits_iff (by exact commit) same parsed]
    exact ⟨fun fits => ⟨fun _ => fits, fun yes => absurd yes Bool.false_ne_true⟩, fun both => both.1 commit⟩
  · have other : next.response.isCommit = false := Bool.not_eq_true _ ▸ commit
    rw [if_neg commit, known_concat_of_other other]
    by_cases confirm : next.response.holds .saeConfirm = true
    · have status : next.ap.status = turn.around.unwritten.status := by rw [parsed_status confirm parsed]
      rw [confirm, Bool.true_and, status, counter]
      by_cases zero : turn.around.unwritten.status = 0
      · rw [if_pos (decide_eq_true zero)]
        exact ⟨fun known => ⟨fun yes => absurd yes commit, fun _ _ => known⟩, fun both => both.2 rfl zero⟩
      · rw [if_neg (by simpa using zero)]
        exact iff_of_true right.group ⟨fun yes => absurd yes commit, fun _ yes => absurd yes zero⟩
    · rw [Bool.not_eq_true] at confirm
      rw [confirm, Bool.false_and, if_neg Bool.false_ne_true]
      exact iff_of_true right.group ⟨fun yes => absurd yes commit, fun yes => absurd yes Bool.false_ne_true⟩

/-- A turn leaves what is remembered right exactly if its answer is orderly. -/
theorem traceStep_remembers_iff {input : Bool × Turn} (right : Remembered state) (done : traceStep curve mac pwes state input = .ok next) :
    Remembered next ↔ Orderly state input.2 := by
  obtain ⟨middle, judged, turned, written, rfl⟩ := traceStep_ok done
  obtain ⟨oracleOut, fout, rfl⟩ := judge_ok written
  have kept : Remembered { middle with oracleOut := oracleOut, fout := fout, response := middle.response.free } ↔ Remembered middle :=
    ⟨fun known => ⟨known.group, known.sendConfirm⟩, fun known => ⟨known.group, known.sendConfirm⟩⟩
  refine Iff.trans kept ?_
  rw [packetTurn] at turned
  split at turned
  · next token => exact commitTurn_iff right token (mapError_ok turned)
  · next token => exact confirmTurn_iff right token (mapError_ok turned)
  · next token => exact associationTurn_iff right token (mapError_ok turned)
  · next token => exact rawTurn_iff right token turned

end Steps

section Runs

variable {G : Type} [AddCommGroup G] {curve : Curve G} {mac : Mac} {pwes : Pwes G}

/-- If all answers of a trace are orderly, what is remembered is right after every turn, and so it was
when the predicates of the turn were computed. -/
theorem trace_remembered {before : Uninitialised} {trace : List Turn} {k : Nat} {reached : TraceState G}
    (orderly : Logic.Along (traceStep curve mac pwes) (fun state input => Orderly state input.2) (initialState before) (marked trace))
    (executed : Logic.run (traceStep curve mac pwes) (initialState before) ((marked trace).take k) = .ok reached) : Remembered reached := by
  have initial : Remembered (initialState before : TraceState G) := ⟨Or.inl rfl, Or.inl rfl⟩
  apply Logic.run_invariant_along (fun state input => Orderly state input.2) Remembered _ initial (orderly.take k) executed
  intro state input next right allowed done
  exact (traceStep_remembers_iff right done).mpr allowed

private theorem commit19_orderly : Orderly (initialState zeroVariables : TraceState (ZMod 7)) (answered "COMMIT".toList (apCommit 19 0 2 3)) := by
  have token : classifyToken (answered "COMMIT".toList (apCommit 19 0 2 3)).token = .commit := by decide
  have received : (answered "COMMIT".toList (apCommit 19 0 2 3)).answer (initialState zeroVariables : TraceState (ZMod 7)) =
      ⟨.saeCommit, some (apCommit 19 0 2 3), 104⟩ := by decide
  rw [Orderly, token, received]
  refine ⟨fun _ => ⟨_, 0, rfl, rfl, rfl⟩, fun success => ?_⟩
  cases success

/-- A confirm of the access point with status 0, whose counter is 0. -/
def apConfirm : List UInt8 := [3, 0, 2, 0, 0, 0, 0, 0] ++ List.replicate 32 7

def exchange : List Turn := [answered "COMMIT".toList (apCommit 19 0 2 3), answered "CONFIRM".toList apConfirm]

private theorem confirm0_orderly {state : TraceState (ZMod 7)} (counter : state.ap.sendConfirm = 0)
    (received : (answered "CONFIRM".toList apConfirm).answer state = ⟨.saeConfirm, some apConfirm, 40⟩) :
    Orderly state (answered "CONFIRM".toList apConfirm) := by
  have token : classifyToken (answered "CONFIRM".toList apConfirm).token = .confirm := by decide
  rw [Orderly, token, received, counter]
  refine ⟨fun commit => ?_, fun _ => ?_⟩
  · cases commit
  · rw [known_concat_of_kind (by decide)]
    exact Or.inr rfl

theorem exchange_remembered : ∃ reached : TraceState (ZMod 7),
    Logic.run (traceStep sevenCurve sumMac ⟨3, 5⟩) (initialState zeroVariables) ((marked exchange).take 2) = .ok reached ∧
      reached.prevApGroup = 19 ∧ reached.prevApSendConfirm = 0 ∧ Remembered reached := by
  have first : ((Logic.run (traceStep sevenCurve sumMac ⟨3, 5⟩) (initialState zeroVariables)
      ((marked exchange).take 1)).toOption.any fun state => state.ap.sendConfirm = 0 &&
        (answered "CONFIRM".toList apConfirm).answer state = ⟨.saeConfirm, some apConfirm, 40⟩) = true := by
    decide +kernel
  have second : ((Logic.run (traceStep sevenCurve sumMac ⟨3, 5⟩) (initialState zeroVariables)
      ((marked exchange).take 2)).toOption.any fun state => state.prevApGroup = 19 && state.prevApSendConfirm = 0) = true := by
    decide +kernel
  obtain ⟨reached, executed, values⟩ := Logic.checked_ok second
  simp only [Bool.and_eq_true, decide_eq_true_eq] at values
  refine ⟨reached, executed, values.1, values.2, trace_remembered ?_ executed⟩
  intro j input state found stepped
  match j with
  | 0 =>
    cases found
    cases stepped
    exact commit19_orderly
  | 1 =>
    cases found
    obtain ⟨after, ran, fields⟩ := Logic.checked_ok first
    obtain rfl := Except.ok.inj (stepped.symm.trans ran)
    simp only [Bool.and_eq_true, decide_eq_true_eq] at fields
    exact confirm0_orderly fields.1 fields.2
  | j + 2 => cases found

theorem commit275_forgotten : ∃ reached : TraceState (ZMod 7),
    runASingleTrace sevenCurve sumMac ⟨3, 5⟩ (initialState zeroVariables) [answered "COMMIT".toList (apCommit 19 1 2 3)] = .ok reached ∧
      ¬Remembered reached := by
  have checked : ((runASingleTrace sevenCurve sumMac ⟨3, 5⟩ (initialState zeroVariables)
      [answered "COMMIT".toList (apCommit 19 1 2 3)]).toOption.any fun reached =>
        reached.prevApGroup = 19 && reached.answers.all fun answer => answer.wordAt 6 = some 275) = true := by
    decide +kernel
  obtain ⟨reached, executed, fields⟩ := Logic.checked_ok checked
  simp only [Bool.and_eq_true, decide_eq_true_eq, List.all_eq_true] at fields
  refine ⟨reached, executed, ?_⟩
  intro right
  rcases right.group with unknown | ⟨answer, last, number⟩
  · rw [fields.1] at unknown
    cases unknown
  · have member : answer ∈ reached.answers := List.mem_reverse.mp (List.mem_of_find?_eq_some last)
    rw [fields.2 answer member, fields.1] at number
    cases number

end Runs

end LtlFuzz.Driver

import Mathlib.Algebra.Order.Ring.Int
import Mathlib.Data.List.Induction

/-! Which run a violation is charged to. `run_target` ends with a look at the flag
`g_last_violation_detected`, but `common_fuzz_stuff` sets that flag after its own run,
so it is found by whichever run next gets as far as the look. A run is given by what
the fuzzer observes of it: the child's status, its own interruptions and the answer of
`monitor_check_violation`; `reported` is what the monitor process did meanwhile. -/

namespace LtlFuzz.Fuzzer

inductive FaultCode where
  | none
  | tmout
  | crash
  | error
  | noinst
  | nobits
  | violation
  deriving DecidableEq, Repr

inductive Caller where
  | commonFuzzStuff
  | direct
  deriving DecidableEq, Repr

structure Run where
  caller : Caller
  returnedEarly : Bool
  termSignal : Option Nat
  stopSoon : Bool
  childTimedOut : Bool
  msanError : Bool
  execFailed : Bool
  stopSoonAfter : Bool
  skipRequested : Bool
  checkViolation : Bool
  reported : Bool
  deriving DecidableEq, Repr

def sigkill : Nat := 9

def sigterm : Nat := 15

inductive Status where
  | returnedEarly
  | timedOut
  | terminated
  | crashed
  | notExecuted
  | finished
  deriving DecidableEq, Repr

/-- The exits of `run_target` in their order; `return 0` stands for a fork server that
is gone while `stop_soon` is set and for a failed first message, dump or restore. -/
def Run.status (run : Run) : Status :=
  if run.returnedEarly then .returnedEarly
  else
    match run.termSignal, run.stopSoon with
    | some signal, false =>
      if run.childTimedOut && signal == sigkill then .timedOut
      else if signal == sigterm then .terminated
      else .crashed
    | _, _ => if run.msanError then .crashed else if run.execFailed then .notExecuted else .finished

/-- The fault code and the new value of `g_last_violation_detected`. -/
def runTarget (lastViolationDetected : Bool) (run : Run) : FaultCode × Bool :=
  match run.status with
  | .returnedEarly | .terminated => (.none, lastViolationDetected)
  | .timedOut => (.tmout, lastViolationDetected)
  | .crashed => (.crash, lastViolationDetected)
  | .notExecuted => (.error, lastViolationDetected)
  | .finished => if lastViolationDetected then (.violation, false) else (.none, lastViolationDetected)

structure State where
  lastViolationDetected : Bool := false
  subseqTmouts : Nat := 0
  deriving DecidableEq, Repr

def tmoutLimit : Nat := 250

/-- `common_fuzz_stuff` from the call of `run_target` on, with the fault code it hands to
`save_if_interesting` if it gets there. -/
def commonFuzzStuff (state : State) (run : Run) : Option FaultCode × State :=
  let (returned, flag) := runTarget state.lastViolationDetected run
  let flag := if run.checkViolation then true else flag
  let fault := if run.checkViolation && returned == .none then .violation else returned
  if run.stopSoonAfter then (none, { state with lastViolationDetected := flag })
  else if fault == .tmout then
    let tmouts := (state.subseqTmouts + 1) % 2 ^ 32
    if state.subseqTmouts > tmoutLimit || run.skipRequested then (none, ⟨flag, tmouts⟩)
    else (some fault, ⟨flag, tmouts⟩)
  else if run.skipRequested then (none, ⟨flag, 0⟩)
  else (some fault, ⟨flag, 0⟩)

def execute (state : State) (run : Run) : State :=
  match run.caller with
  | .commonFuzzStuff => (commonFuzzStuff state run).2
  | .direct => { state with lastViolationDetected := (runTarget state.lastViolationDetected run).2 }

/-- The fault code of this run speaks about this run. -/
def Attributed (state : State) (run : Run) : Prop :=
  match run.caller with
  | .commonFuzzStuff => run.status ≠ .crashed → run.status ≠ .timedOut →
      ∀ fault, (commonFuzzStuff state run).1 = some fault → (fault = .violation ↔ run.reported = true)
  | .direct => run.reported = false → (runTarget state.lastViolationDetected run).1 ≠ .violation

/-- Some earlier run of `common_fuzz_stuff` found a violation and no run since then has
finished normally. -/
def Flagged (history : List Run) : Prop :=
  ∃ earlier found later, history = earlier ++ found :: later ∧ found.caller = .commonFuzzStuff ∧
    found.checkViolation = true ∧ ∀ run ∈ later, run.status ≠ .finished

def Run.Submitted (run : Run) : Prop := run.stopSoonAfter = false ∧ run.skipRequested = false

/-- The condition on a run and the runs before it under which its fault code is right. -/
def Orderly (history : List Run) (run : Run) : Prop :=
  match run.caller with
  | .commonFuzzStuff => run.Submitted →
      match run.status with
      | .crashed | .timedOut => True
      | .notExecuted => run.reported = false
      | .returnedEarly | .terminated => run.reported = run.checkViolation
      | .finished => run.reported = true ↔ run.checkViolation = true ∨ Flagged history
  | .direct => run.reported = false → run.status = .finished → ¬ Flagged history

@[simp] theorem runTarget_flag (flag : Bool) (run : Run) :
    (runTarget flag run).2 = (flag && !decide (run.status = .finished)) := by
  cases status : run.status <;> cases flag <;> simp [runTarget, status]

theorem commonFuzzStuff_flag (state : State) (run : Run) :
    (commonFuzzStuff state run).2.lastViolationDetected =
      (run.checkViolation || (runTarget state.lastViolationDetected run).2) := by
  simp only [commonFuzzStuff]
  split_ifs <;> simp_all

theorem execute_flag (state : State) (run : Run) :
    (execute state run).lastViolationDetected =
      ((run.caller == .commonFuzzStuff && run.checkViolation) ||
        (state.lastViolationDetected && !decide (run.status = .finished))) := by
  cases caller : run.caller with
  | commonFuzzStuff => simp [execute, caller, commonFuzzStuff_flag]
  | direct => simp [execute, caller]

private theorem flagged_append (history : List Run) (run : Run) :
    Flagged (history ++ [run]) ↔
      (run.caller = .commonFuzzStuff ∧ run.checkViolation = true) ∨
        (Flagged history ∧ run.status ≠ .finished) := by
  constructor
  · rintro ⟨earlier, found, later, split, caller, answered, unfinished⟩
    obtain rfl | ⟨front, last, rfl⟩ := List.eq_nil_or_concat later
    · obtain ⟨rfl, same⟩ := List.append_inj' split rfl
      cases same
      exact .inl ⟨caller, answered⟩
    · rw [List.concat_eq_append, ← List.cons_append, ← List.append_assoc] at split
      obtain ⟨rfl, same⟩ := List.append_inj' split rfl
      cases same
      refine .inr ⟨⟨earlier, found, front, rfl, caller, answered, ?_⟩, unfinished run (by simp)⟩
      intro other member
      exact unfinished other (by simp [member])
  · rintro (⟨caller, answered⟩ | ⟨⟨earlier, found, later, rfl, caller, answered, unfinished⟩, ending⟩)
    · exact ⟨history, run, [], rfl, caller, answered, by simp⟩
    · refine ⟨earlier, found, later ++ [run], by simp, caller, answered, ?_⟩
      intro other member
      rcases List.mem_append.mp member with old | new
      · exact unfinished other old
      · rwa [List.mem_singleton.mp new]

/-- What the flag remembers about a whole history of runs. -/
theorem flag_iff_flagged (history : List Run) :
    (history.foldl execute {}).lastViolationDetected = true ↔ Flagged history := by
  induction history using List.reverseRecOn with
  | nil => simp [Flagged]
  | append_singleton history run ih =>
    rw [List.foldl_append, List.foldl_cons, List.foldl_nil, execute_flag, flagged_append, ← ih]
    simp

private theorem commonFuzzStuff_submits (state : State) (run : Run) (fault : FaultCode)
    (alive : run.status ≠ .timedOut) :
    (commonFuzzStuff state run).1 = some fault ↔ run.Submitted ∧
      (if run.checkViolation && (runTarget state.lastViolationDetected run).1 == .none then .violation
        else (runTarget state.lastViolationDetected run).1) = fault := by
  have answered : (runTarget state.lastViolationDetected run).1 ≠ .tmout := by
    cases status : run.status <;> simp_all [runTarget]
    split <;> simp
  simp only [commonFuzzStuff, Run.Submitted]
  split_ifs <;> simp_all

theorem attributed_iff (history : List Run) (run : Run) :
    Attributed (history.foldl execute {}) run ↔ Orderly history run := by
  have remembered := flag_iff_flagged history
  generalize history.foldl execute {} = state at remembered ⊢
  cases caller : run.caller with
  | direct =>
    simp only [Attributed, Orderly, caller, ← remembered]
    cases status : run.status <;> simp [runTarget, status]
    cases state.lastViolationDetected <;> simp
  | commonFuzzStuff =>
    simp only [Attributed, Orderly, caller, ← remembered]
    by_cases alive : run.status = .timedOut
    · simp [alive]
    · simp only [commonFuzzStuff_submits state run _ alive]
      cases status : run.status <;> cases run.reported <;> cases run.checkViolation <;>
        cases state.lastViolationDetected <;> simp_all [runTarget]

/-- Over every sequence of runs, each fault code speaks about its own run exactly when each
run meets the condition on it and on the runs before it. -/
theorem faults_attributed_iff (runs : List Run) :
    (∀ k run, runs[k]? = some run → Attributed ((runs.take k).foldl execute {}) run) ↔
      ∀ k run, runs[k]? = some run → Orderly (runs.take k) run := by
  constructor
  · intro attributed k run here
    exact (attributed_iff _ run).mp (attributed k run here)
  · intro orderly k run here
    exact (attributed_iff _ run).mpr (orderly k run here)

def plainRun (caller : Caller) (violates : Bool) : Run where
  caller := caller
  returnedEarly := false
  termSignal := none
  stopSoon := false
  childTimedOut := false
  msanError := false
  execFailed := false
  stopSoonAfter := false
  skipRequested := false
  checkViolation := violates && caller == .commonFuzzStuff
  reported := violates

theorem next_run_inherits_violation :
    ¬ (∀ k run, [plainRun .commonFuzzStuff true, plainRun .commonFuzzStuff false][k]? = some run →
      Attributed (([plainRun .commonFuzzStuff true, plainRun .commonFuzzStuff false].take k).foldl execute {}) run) ∧
    ¬ (∀ k run, [plainRun .commonFuzzStuff true, plainRun .direct false][k]? = some run →
      Attributed (([plainRun .commonFuzzStuff true, plainRun .direct false].take k).foldl execute {}) run) := by
  constructor
  · intro attributed
    have charged := attributed 1 _ rfl (by decide) (by decide) .violation (by decide)
    exact absurd (charged.mp rfl) (by decide)
  · intro attributed
    exact attributed 1 _ rfl rfl (by decide)

end LtlFuzz.Fuzzer

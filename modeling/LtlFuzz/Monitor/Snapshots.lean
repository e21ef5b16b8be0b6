import LtlFuzz.Monitor.Main
import LtlFuzz.Monitor.PastTime

/-! Saving and restoring the monitor. The logical trace of a run is kept beside the
process as a ghost: the events since the session start, as if the process had never
done anything else. The evaluator stands for it at every line, the printed session
trace only while restores go back to a prefix of it. -/

namespace LtlFuzz.Monitor
open Text (Fault)
open Logic

/-- The events a run has logically gone through, and those it had gone through at each save. -/
structure Logical where
  current : List KeyValues
  saved : AList fun _ : Nat => List KeyValues

namespace Logical

def new : Logical := ⟨[], ∅⟩

def step (logical : Logical) : Command → Logical
  | .blank => logical
  | .save snapId => { logical with saved := logical.saved.insert snapId logical.current }
  | .restore snapId =>
    match logical.saved.lookup snapId with
    | none => logical
    | some events => { logical with current := events }
  | .endSession => { logical with current := [] }
  | .event kv => { logical with current := logical.current ++ [kv] }

def readLine (logical : Logical) (line : List Char) : Logical :=
  match Command.parse line with
  | .ok command => logical.step command
  | .error _ => logical

/-- The logical trace after some lines of input. -/
def after (lines : List (List Char)) : Logical := lines.foldl readLine new

end Logical

section Following

variable {checker : TypeChecker} {nodes : List (ASTNode Nat)} {snums : List Nat}

/-- The evaluator is where a new one is after the states of these events. -/
def Represents (checker : TypeChecker) (nodes : List (ASTNode Nat)) (snums : List Nat) (events : List KeyValues)
    (evaluator : Evaluator) : Prop :=
  ∃ states, List.Forall₂ (fun kv state => eventState checker kv = .ok state) events states ∧
    (Evaluator.new nodes snums).steps states = .ok evaluator

/-- A saved record holds the evaluator's memory of the events that were current then. -/
def Recalls (checker : TypeChecker) (nodes : List (ASTNode Nat)) (snums : List Nat) (record : EvaluatorState)
    (events : List KeyValues) : Prop :=
  record.eventCount = events.length ∧ ∃ evaluator, Represents checker nodes snums events evaluator ∧
    record.index = evaluator.index ∧ record.oldBv = evaluator.oldBv ∧ record.newBv = evaluator.newBv

structure Follows (checker : TypeChecker) (nodes : List (ASTNode Nat)) (snums : List Nat) (process : Process)
    (logical : Logical) : Prop where
  checked : process.typeChecker = checker
  live : Represents checker nodes snums logical.current process.eval
  counted : process.eventCount = logical.current.length
  saved : ∀ snapId, Option.Rel (Recalls checker nodes snums) (process.savedStates.lookup snapId)
    (logical.saved.lookup snapId)

theorem Follows.saved_cases {process : Process} {logical : Logical} (follows : Follows checker nodes snums process logical)
    (snapId : Nat) :
    (process.savedStates.lookup snapId = none ∧ logical.saved.lookup snapId = none) ∨
      ∃ record events, process.savedStates.lookup snapId = some record ∧ logical.saved.lookup snapId = some events ∧
        Recalls checker nodes snums record events := by
  have related := follows.saved snapId
  cases found : process.savedStates.lookup snapId with
  | none =>
    rw [found] at related
    cases known : logical.saved.lookup snapId with
    | none => exact Or.inl ⟨rfl, rfl⟩
    | some events => rw [known] at related; cases related
  | some record =>
    rw [found] at related
    cases known : logical.saved.lookup snapId with
    | none => rw [known] at related; cases related
    | some events =>
      rw [known] at related
      cases related with
      | some recalls => exact Or.inr ⟨record, events, rfl, rfl, recalls⟩

private theorem represents_nil : Represents checker nodes snums [] (Evaluator.new nodes snums) :=
  ⟨[], .nil, rfl⟩

private theorem advance_fixed {evaluator next : Evaluator} {state : State}
    (executed : evaluator.advance state = .ok next) :
    next.formulas = evaluator.formulas ∧ next.serialNumbers = evaluator.serialNumbers := by
  obtain ⟨verdicts, stepped⟩ := Evaluator.advance_ok executed
  obtain ⟨_, formulas, serials, _⟩ := Evaluator.evaluateOneStep_ok stepped
  exact ⟨formulas, serials⟩

theorem Represents.fixed {events : List KeyValues} {evaluator : Evaluator}
    (represents : Represents checker nodes snums events evaluator) :
    evaluator.formulas = nodes ∧ evaluator.serialNumbers = snums := by
  obtain ⟨states, _, executed⟩ := represents
  refine run_invariant (fun evaluator => evaluator.formulas = nodes ∧ evaluator.serialNumbers = snums) ?_
    ⟨rfl, rfl⟩ executed
  intro before state next held advanced
  obtain ⟨formulas, serials⟩ := advance_fixed advanced
  exact ⟨formulas.trans held.1, serials.trans held.2⟩

private theorem Represents.extend {events : List KeyValues} {evaluator next : Evaluator} {kv : KeyValues} {state : State}
    (represents : Represents checker nodes snums events evaluator) (read : eventState checker kv = .ok state)
    (advanced : evaluator.advance state = .ok next) : Represents checker nodes snums (events ++ [kv]) next := by
  obtain ⟨states, related, executed⟩ := represents
  refine ⟨states ++ [state], List.rel_append related (.cons read .nil), ?_⟩
  rw [Evaluator.steps, run_append executed]
  simp [run, advanced]

/-- The memory of an evaluator and its formulas are all there is to it. -/
theorem recall_evaluator {current evaluator : Evaluator} (formulas : current.formulas = evaluator.formulas)
    (serials : current.serialNumbers = evaluator.serialNumbers) :
    { current with index := evaluator.index, oldBv := evaluator.oldBv, newBv := evaluator.newBv } = evaluator := by
  cases current
  cases evaluator
  simp_all

private theorem rel_insert {α β : Type} {r : α → β → Prop} {left : AList fun _ : Nat => α} {right : AList fun _ : Nat => β}
    (related : ∀ id, Option.Rel r (left.lookup id) (right.lookup id)) (new : Nat) {a : α} {b : β} (held : r a b) :
    ∀ id, Option.Rel r ((left.insert new a).lookup id) ((right.insert new b).lookup id) := by
  intro id
  by_cases same : id = new
  · subst same
    rw [AList.lookup_insert, AList.lookup_insert]
    exact .some held
  · rw [AList.lookup_insert_ne same, AList.lookup_insert_ne same]
    exact related id

theorem new_follows (protoTag : ProtoTag) :
    Follows checker nodes snums (Process.new checker protoTag nodes snums) Logical.new where
  checked := rfl
  live := represents_nil
  counted := rfl
  saved := fun _ => .none

/-- One command keeps the process on its logical trace. -/
theorem handle_follows {process next : Process} {logical : Logical} {command : Command} {replies : List Reply}
    (follows : Follows checker nodes snums process logical) (handled : process.handle command = .ok (next, replies)) :
    Follows checker nodes snums next (logical.step command) := by
  cases command with
  | blank =>
    cases handled
    exact follows
  | save snapId =>
    cases handled
    refine ⟨follows.checked, follows.live, follows.counted, rel_insert follows.saved snapId ?_⟩
    exact ⟨follows.counted, process.eval, follows.live, rfl, rfl, rfl⟩
  | restore snapId =>
    simp only [Process.handle] at handled
    simp only [Logical.step]
    rcases follows.saved_cases snapId with ⟨found, known⟩ | ⟨record, events, found, known, recalls⟩
    · rw [found] at handled
      rw [known]
      cases handled
      exact follows
    · rw [found] at handled
      rw [known]
      cases handled
      obtain ⟨counted, evaluator, represents, index, old, new⟩ := recalls
      refine ⟨follows.checked, ?_, counted, follows.saved⟩
      obtain ⟨formulas, serials⟩ := follows.live.fixed
      obtain ⟨sameFormulas, sameSerials⟩ := represents.fixed
      have recalled := recall_evaluator (formulas.trans sameFormulas.symm) (serials.trans sameSerials.symm)
      simp only [Process.restoreState, index, old, new, recalled]
      exact represents
  | endSession =>
    cases handled
    refine ⟨follows.checked, ?_, rfl, follows.saved⟩
    obtain ⟨formulas, serials⟩ := follows.live.fixed
    rw [Process.endSession, Evaluator.starts_eq (Or.inr ⟨process.eval, formulas, serials, rfl⟩)]
    exact represents_nil
  | event kv =>
    obtain ⟨state, verdicts, read, stepped, checked, saved, counted, _⟩ := Process.handleEvent_ok handled
    rw [follows.checked] at read
    have advanced : process.eval.advance state = .ok next.eval := by simp [Evaluator.advance, stepped, Except.map]
    refine ⟨checked.trans follows.checked, follows.live.extend read advanced, ?_, ?_⟩
    · rw [counted, follows.counted]
      simp [Logical.step]
    · rw [saved]
      exact follows.saved

theorem readLine_follows {process next : Process} {logical : Logical} {line : List Char}
    (follows : Follows checker nodes snums process logical) (executed : process.readLine line = .ok next) :
    Follows checker nodes snums next (logical.readLine line) := by
  obtain ⟨command, replies, parsed, handled⟩ := Process.readLine_ok executed
  simp only [Logical.readLine, parsed]
  exact handle_follows follows handled

theorem readLines_follows {start process : Process} {lines : List (List Char)}
    (follows : Follows checker nodes snums start Logical.new) (executed : start.readLines lines = .ok process) :
    Follows checker nodes snums process (Logical.after lines) :=
  run_related Logical.readLine (Follows checker nodes snums) (fun _ _ _ _ held stepped => readLine_follows held stepped)
    Logical.new follows executed

/-- A line the process survives: it parses, and an event has labels on which every
formula evaluates. -/
def WellFormed (checker : TypeChecker) (nodes : List (ASTNode Nat)) (line : List Char) : Prop :=
  ∃ command, Command.parse line = .ok command ∧ ∀ kv, command = .event kv →
    ∃ state, eventState checker kv = .ok state ∧ ∀ node ∈ nodes, Evaluates state node

theorem readLine_completes {process : Process} {logical : Logical} {line : List Char}
    (follows : Follows checker nodes snums process logical) (wellFormed : WellFormed checker nodes line) :
    ∃ next, process.readLine line = .ok next := by
  obtain ⟨command, parsed, events⟩ := wellFormed
  obtain ⟨output, handled⟩ : ∃ output, process.handle command = .ok output := by
    cases command with
    | blank | save | endSession => exact ⟨_, rfl⟩
    | restore snapId =>
      simp only [Process.handle]
      cases process.savedStates.lookup snapId with
      | none => exact ⟨_, rfl⟩
      | some record => exact ⟨_, rfl⟩
    | event kv =>
      obtain ⟨state, read, evaluates⟩ := events kv rfl
      rw [← follows.live.fixed.1] at evaluates
      obtain ⟨verdicts, eval, stepped⟩ := Evaluator.evaluateOneStep_completes evaluates
      rw [← follows.checked] at read
      exact Process.handleEvent_completes read stepped
  exact ⟨output.1, by simp [Process.readLine, parsed, handled, bind, Except.bind, pure, Except.pure]⟩

theorem readLines_completes (snums : List Nat) (protoTag : ProtoTag) {lines : List (List Char)}
    (wellFormed : ∀ line ∈ lines, WellFormed checker nodes line) :
    ∃ process, (Process.new checker protoTag nodes snums).readLines lines = .ok process ∧
      Follows checker nodes snums process (Logical.after lines) := by
  obtain ⟨process, executed, _⟩ := run_completes (WellFormed checker nodes)
    (fun process => ∃ logical, Follows checker nodes snums process logical)
    (fun process line ⟨logical, follows⟩ admissible => by
      obtain ⟨next, stepped⟩ := readLine_completes follows admissible
      exact ⟨next, stepped, _, readLine_follows follows stepped⟩)
    ⟨_, new_follows protoTag⟩ wellFormed
  exact ⟨process, executed, readLines_follows (new_follows protoTag) executed⟩

/-- The session trace is the printed logical trace. -/
def Prints (order : HashOrder) (process : Process) (logical : Logical) : Prop :=
  process.sessionTrace.map (formatEventKv order) = logical.current.map (formatEventKv order)

/-- What a command may go back to while the printed trace stays right. -/
def Command.Rewinds (order : HashOrder) (logical : Logical) : Command → Prop
  | .restore snapId => ∀ events, logical.saved.lookup snapId = some events →
      events.map (formatEventKv order) <+: logical.current.map (formatEventKv order)
  | _ => True

private theorem restore_prints_iff (order : HashOrder) {trace events : List KeyValues} {count : Nat}
    (counted : count = events.length) :
    (if trace.length > count then trace.take count else trace).map (formatEventKv order) =
        events.map (formatEventKv order) ↔
      events.map (formatEventKv order) <+: trace.map (formatEventKv order) := by
  have cut : (if trace.length > count then trace.take count else trace) = trace.take count := by
    split
    next => rfl
    next short => exact (List.take_of_length_le (Nat.le_of_not_lt short)).symm
  rw [cut, List.prefix_iff_eq_take, counted, List.length_map, List.map_take]
  exact eq_comm

/-- One command keeps the printed trace right exactly when it rewinds. -/
theorem handle_prints_iff (order : HashOrder) {process next : Process} {logical : Logical} {command : Command}
    {replies : List Reply} (follows : Follows checker nodes snums process logical) (prints : Prints order process logical)
    (handled : process.handle command = .ok (next, replies)) :
    Prints order next (logical.step command) ↔ command.Rewinds order logical := by
  cases command with
  | blank | save | endSession =>
    cases handled
    simp only [Command.Rewinds, iff_true]
    first | exact prints | rfl
  | event kv =>
    obtain ⟨_, _, _, _, _, _, _, printed⟩ := Process.handleEvent_ok handled
    simp only [Command.Rewinds, iff_true]
    rw [Prints, printed, List.map_append, prints]
    simp [Logical.step]
  | restore snapId =>
    simp only [Process.handle] at handled
    simp only [Logical.step, Command.Rewinds]
    rcases follows.saved_cases snapId with ⟨found, known⟩ | ⟨record, events, found, known, recalls⟩
    · rw [found] at handled
      rw [known]
      cases handled
      simpa using prints
    · rw [found] at handled
      rw [known]
      cases handled
      simp only [Option.some.injEq, forall_eq', Prints, Process.restoreState]
      rw [← prints]
      exact restore_prints_iff order recalls.1

end Following

/-- After every line the evaluator is the one an uninterrupted monitor would have after
the logical trace, and gives the next event the same verdicts. -/
theorem evaluator_follows_logical_trace (checker : TypeChecker) (protoTag : ProtoTag) (nodes : List (ASTNode Nat))
    (snums : List Nat) (lines : List (List Char)) (wellFormed : ∀ line ∈ lines, WellFormed checker nodes line)
    (k : Nat) :
    ∃ process states fresh, (Process.new checker protoTag nodes snums).readLines (lines.take k) = .ok process ∧
      List.Forall₂ (fun kv state => eventState checker kv = .ok state) (Logical.after (lines.take k)).current states ∧
      (Evaluator.new nodes snums).steps states = .ok fresh ∧
      process.eval.index = fresh.index ∧ process.eval.oldBv = fresh.oldBv ∧ process.eval.newBv = fresh.newBv ∧
      ∀ (line : List Char) (kv : KeyValues), lines[k]? = some line → Command.parse line = .ok (.event kv) →
        ∃ state verdicts next, eventState checker kv = .ok state ∧
          process.eval.evaluateOneStep state = .ok (verdicts, next) ∧
          fresh.evaluateOneStep state = .ok (verdicts, next) := by
  obtain ⟨process, executed, follows⟩ := readLines_completes snums protoTag
    fun line member => wellFormed line (List.mem_of_mem_take member)
  obtain ⟨states, related, stepped⟩ := follows.live
  refine ⟨process, states, process.eval, executed, related, stepped, rfl, rfl, rfl, ?_⟩
  intro line kv here parsed
  obtain ⟨command, parsedAgain, events⟩ := wellFormed line (List.mem_of_getElem? here)
  obtain rfl : command = .event kv := Except.ok.inj (parsedAgain.symm.trans parsed)
  obtain ⟨state, read, evaluates⟩ := events kv rfl
  rw [← follows.live.fixed.1] at evaluates
  obtain ⟨verdicts, next, result⟩ := Evaluator.evaluateOneStep_completes evaluates
  exact ⟨state, verdicts, next, read, result, result⟩

/-- A session that is saved after two events, and restored after another session has begun. -/
def flagLines : List (List Char) :=
  ["x=true".toList, "x=true".toList, "__SAVE_STATE__ 1".toList, "__END_SESSION__".toList, "x=false".toList,
    "__RESTORE_STATE__ 1".toList]

theorem flagLines_wellFormed : ∀ line ∈ flagLines, WellFormed flagChecker [flagNode 0] line := by
  have labelled : WellFormed flagChecker [flagNode 0] "x=true".toList :=
    ⟨.event (AList.singleton "x" "true"), rfl, fun kv same => by
      cases same
      exact ⟨flagState "true", rfl, by simpa using ⟨true, rfl⟩⟩⟩
  have cleared : WellFormed flagChecker [flagNode 0] "x=false".toList :=
    ⟨.event (AList.singleton "x" "false"), rfl, fun kv same => by
      cases same
      exact ⟨flagState "false", rfl, by simpa using ⟨false, rfl⟩⟩⟩
  have saved : WellFormed flagChecker [flagNode 0] "__SAVE_STATE__ 1".toList :=
    ⟨.save 1, rfl, fun _ impossible => by cases impossible⟩
  have restored : WellFormed flagChecker [flagNode 0] "__RESTORE_STATE__ 1".toList :=
    ⟨.restore 1, rfl, fun _ impossible => by cases impossible⟩
  have ended : WellFormed flagChecker [flagNode 0] "__END_SESSION__".toList :=
    ⟨.endSession, rfl, fun _ impossible => by cases impossible⟩
  simp only [flagLines, List.forall_mem_cons]
  exact ⟨labelled, labelled, saved, ended, cleared, restored, by simp⟩

theorem evaluator_follows_logical_trace_of_flagLines :
    ∃ process states fresh, (Process.new flagChecker .generic [flagNode 0] [3]).readLines (flagLines.take 6) = .ok process ∧
      List.Forall₂ (fun kv state => eventState flagChecker kv = .ok state) (Logical.after (flagLines.take 6)).current
        states ∧
      (Evaluator.new [flagNode 0] [3]).steps states = .ok fresh ∧
      process.eval.index = fresh.index ∧ process.eval.oldBv = fresh.oldBv ∧ process.eval.newBv = fresh.newBv := by
  obtain ⟨process, states, fresh, executed, related, stepped, index, old, new, _⟩ :=
    evaluator_follows_logical_trace flagChecker .generic [flagNode 0] [3] flagLines flagLines_wellFormed 6
  exact ⟨process, states, fresh, executed, related, stepped, index, old, new⟩

private theorem after_take_succ {lines : List (List Char)} {k : Nat} {line : List Char} (here : lines[k]? = some line) :
    Logical.after (lines.take (k + 1)) = (Logical.after (lines.take k)).readLine line := by
  rw [List.take_add_one, here]
  simp [Logical.after]

private theorem sessionTrace_step (order : HashOrder) {checker : TypeChecker} {protoTag : ProtoTag}
    {nodes : List (ASTNode Nat)} {snums : List Nat} {lines : List (List Char)}
    (wellFormed : ∀ line ∈ lines, WellFormed checker nodes line)
    {k : Nat} {line : List Char} (here : lines[k]? = some line) :
    ∃ process next command, (Process.new checker protoTag nodes snums).readLines (lines.take k) = .ok process ∧
      (Process.new checker protoTag nodes snums).readLines (lines.take (k + 1)) = .ok next ∧
      Command.parse line = .ok command ∧
      (Prints order process (Logical.after (lines.take k)) →
        (Prints order next (Logical.after (lines.take (k + 1))) ↔ command.Rewinds order (Logical.after (lines.take k)))) := by
  obtain ⟨final, executed, _⟩ := readLines_completes snums protoTag wellFormed
  obtain ⟨process, next, before, stepped, through⟩ := run_at executed here
  obtain ⟨command, replies, parsed, handled⟩ := Process.readLine_ok stepped
  refine ⟨process, next, command, before, through, parsed, ?_⟩
  intro prints
  rw [after_take_succ here, Logical.readLine, parsed]
  exact handle_prints_iff order (readLines_follows (new_follows protoTag) before) prints handled

/-- The printed trace is the logical one at every moment exactly when every restore that
finds its record goes back to a prefix of what is current, in whatever order pairs are printed. -/
theorem sessionTrace_prints_logical_trace_iff (order : HashOrder) (checker : TypeChecker) (protoTag : ProtoTag)
    (nodes : List (ASTNode Nat)) (snums : List Nat) (lines : List (List Char))
    (wellFormed : ∀ line ∈ lines, WellFormed checker nodes line) :
    (∀ (k : Nat) (process : Process),
        (Process.new checker protoTag nodes snums).readLines (lines.take k) = .ok process →
        process.sessionTrace.map (formatEventKv order) =
            (Logical.after (lines.take k)).current.map (formatEventKv order) ∧
          process.sessionTrace.length = process.eventCount) ↔
      ∀ (k : Nat) (line : List Char) (snapId : Nat) (events : List KeyValues), lines[k]? = some line →
        Command.parse line = .ok (.restore snapId) → (Logical.after (lines.take k)).saved.lookup snapId = some events →
        events.map (formatEventKv order) <+: (Logical.after (lines.take k)).current.map (formatEventKv order) := by
  constructor
  · intro printed k line snapId events here parsed known
    obtain ⟨process, next, command, before, through, parsedAgain, iff⟩ := sessionTrace_step order wellFormed here
    obtain rfl : command = .restore snapId := Except.ok.inj (parsedAgain.symm.trans parsed)
    exact (iff (printed k process before).1).mp (printed (k + 1) next through).1 events known
  · intro rewinds
    have prints : ∀ (k : Nat) (process : Process),
        (Process.new checker protoTag nodes snums).readLines (lines.take k) = .ok process →
        Prints order process (Logical.after (lines.take k)) := by
      intro k
      induction k with
      | zero =>
        intro process executed
        cases executed
        rfl
      | succ k ih =>
        intro process executed
        cases here : lines[k]? with
        | none =>
          have short := List.getElem?_eq_none_iff.mp here
          rw [List.take_of_length_le (Nat.le_succ_of_le short)] at executed ⊢
          rw [List.take_of_length_le short] at ih
          exact ih process executed
        | some line =>
          obtain ⟨earlier, next, command, before, through, parsed, iff⟩ := sessionTrace_step order wellFormed here
          obtain rfl : next = process := Except.ok.inj (through.symm.trans executed)
          apply (iff (ih earlier before)).mpr
          cases command with
          | restore snapId => exact fun events known => rewinds k line snapId events here parsed known
          | blank | save | endSession | event => trivial
    intro k process executed
    have printed := prints k process executed
    refine ⟨printed, ?_⟩
    have counted := congrArg List.length printed
    rw [List.length_map, List.length_map] at counted
    rw [counted]
    exact (readLines_follows (new_follows protoTag) executed).counted.symm

/-- A hash table that is gone through as it stands. -/
def insertionOrder : HashOrder := ⟨id, List.Perm.refl⟩

/-- The restored session has two events, but the printed trace is the one event of the
session that was running. -/
theorem sessionTrace_keeps_other_session :
    (∀ line ∈ flagLines, WellFormed flagChecker [flagNode 0] line) ∧
      ((Process.new flagChecker .generic [flagNode 0] [3]).readLines flagLines).map
          (fun process => (process.sessionTrace.map (formatEventKv insertionOrder), process.eventCount)) =
        .ok (["\x7bx=false\x7d"], 2) ∧
      (Logical.after flagLines).current.map (formatEventKv insertionOrder) = ["\x7bx=true\x7d", "\x7bx=true\x7d"] :=
  ⟨flagLines_wellFormed, rfl, rfl⟩

/-- A session that is saved, goes on and is restored. -/
def rewoundLines : List (List Char) :=
  ["x=true".toList, "__SAVE_STATE__ 1".toList, "x=true".toList, "__RESTORE_STATE__ 1".toList, "x=false".toList]

theorem sessionTrace_prints_rewound_session :
    (∀ line ∈ rewoundLines, WellFormed flagChecker [flagNode 0] line) ∧
      ∀ (k : Nat) (process : Process),
        (Process.new flagChecker .generic [flagNode 0] [3]).readLines (rewoundLines.take k) = .ok process →
        process.sessionTrace.map (formatEventKv insertionOrder) =
            (Logical.after (rewoundLines.take k)).current.map (formatEventKv insertionOrder) ∧
          process.sessionTrace.length = process.eventCount := by
  have wellFormed : ∀ line ∈ rewoundLines, WellFormed flagChecker [flagNode 0] line := by
    intro line member
    apply flagLines_wellFormed
    simp only [rewoundLines, flagLines, List.mem_cons, List.not_mem_nil, or_false] at member ⊢
    tauto
  refine ⟨wellFormed, ?_⟩
  apply (sessionTrace_prints_logical_trace_iff insertionOrder flagChecker .generic [flagNode 0] [3] rewoundLines
    wellFormed).mpr
  intro k line snapId events here parsed known
  match k with
  | 0 | 1 | 2 | 4 => cases here; cases parsed
  | 3 =>
    cases here
    cases parsed
    cases known
    exact ⟨_, rfl⟩
  | k + 5 => simp [rewoundLines] at here

end LtlFuzz.Monitor

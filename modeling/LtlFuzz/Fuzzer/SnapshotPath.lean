import LtlFuzz.Adapter.Resumption
import LtlFuzz.Bridge.Delivery
import LtlFuzz.Monitor.Snapshots
import LtlFuzz.Fuzzer.Isolation

/-! The path with snapshots. `self_criu_dump` and `self_criu_restore` save and restore the
evaluator of the monitor together with the server, and leave the session of the adapter as
it is. The monitor process reads the lines in the order in which the fuzzer writes them. -/

namespace LtlFuzz.Fuzzer
open Adapter Monitor Bridge Logic Preprocessor Text

/-- What the monitor finds about a line: a verdict on each formula, and whether it reports
a violation. -/
abbrev Judgement := List Bool × Bool

def judge (process : Process) (line : List Char) : Except Fault (Judgement × Process) := do
  let command ← Command.parse line
  let (next, replies) ← process.handle command
  match command with
  | .event kv =>
    let state ← eventState process.typeChecker kv
    let (verdicts, _) ← process.eval.evaluateOneStep state
    return ((verdicts, !replies.isEmpty), next)
  | _ => return (([], false), next)

def judgements (process : Process) : List (List Char) → Except Fault (List Judgement × Process)
  | [] => .ok ([], process)
  | line :: lines => do
    let (judgement, next) ← judge process line
    let (rest, last) ← judgements next lines
    return (judgement :: rest, last)

section Judging

variable {checker : TypeChecker} {nodes : List (ASTNode Nat)}

/-- Two processes that judge alike from here on. -/
structure Twins (checker : TypeChecker) (nodes : List (ASTNode Nat)) (left right : Process) : Prop where
  leftChecker : left.typeChecker = checker
  rightChecker : right.typeChecker = checker
  formulas : left.eval.formulas = nodes
  eval : left.eval = right.eval
  protoTag : left.protoTag = right.protoTag

/-- Two lines an adapter can print for the same fields. -/
def SameFields (shapes : List (String × Shape)) (left right : List Char) : Prop :=
  ∃ fields first second, Matches shapes fields ∧ IsTrace first ∧ IsTrace second ∧
    left = predicateText (fields ++ first) ∧ right = predicateText (fields ++ second)

variable {shapes : List (String × Shape)} {tree : Grammar.SpecTree} {snums : List Nat}

private theorem judge_event {process : Process} {line : List Char} {kv : KeyValues} {state : Monitor.State} {verdicts : List Bool}
    {eval : Evaluator} (parsed : Command.parse line = .ok (.event kv)) (derived : deriveIdMismatch kv = .ok kv)
    (read : eventState process.typeChecker kv = .ok state)
    (stepped : process.eval.evaluateOneStep state = .ok (verdicts, eval)) :
    ∃ next, judge process line =
        .ok ((verdicts, decide (false ∈ verdicts ∧ isValidResponse process.protoTag kv)), next) ∧
      process.readLine line = .ok next ∧ next.eval = eval ∧ next.typeChecker = process.typeChecker ∧
      next.protoTag = process.protoTag := by
  obtain ⟨next, replies, handled, sameEval, sameChecker, sameTag, reported⟩ :=
    Process.handleEvent_eq derived read stepped
  refine ⟨next, ?_, ?_, sameEval, sameChecker, sameTag⟩
  · simp [judge, parsed, Process.handle, handled, read, stepped, reported, bind, Except.bind, pure, Except.pure]
  · simp [Process.readLine, parsed, Process.handle, handled, bind, Except.bind, pure, Except.pure]

/-- Lines with the same fields are judged the same, whatever packet they trace. -/
theorem judge_twins (fit : Fits shapes tree checker) (accepted : TypeChecker.new tree.spec = .ok checker)
    (numbered : doPreProcess tree.spec.2 = some (nodes, snums)) {left right : Process} {line other : List Char}
    (twins : Twins checker nodes left right) (same : SameFields shapes line other) :
    ∃ judgement leftNext rightNext, judge left line = .ok (judgement, leftNext) ∧
      judge right other = .ok (judgement, rightNext) ∧ left.readLine line = .ok leftNext ∧
      right.readLine other = .ok rightNext ∧ Twins checker nodes leftNext rightNext := by
  obtain ⟨fields, first, second, matching, firstTrace, secondTrace, rfl, rfl⟩ := same
  obtain ⟨lookups, states⟩ := fit.trace_unread matching firstTrace secondTrace
  obtain ⟨state, labelled, evaluates⟩ := fit.labelled accepted matching firstTrace
  obtain ⟨kv, parsed, read⟩ := labelled.event
  cases parsed.symm.trans (fit.parse matching firstTrace)
  have formulas : ∀ node ∈ left.eval.formulas, Evaluates state node := by
    rw [twins.formulas, (doPreProcess_some numbered).1]
    exact List.forall_mem_map.mpr evaluates
  obtain ⟨verdicts, eval, stepped⟩ := Evaluator.evaluateOneStep_completes formulas
  have leftRead := read
  rw [← twins.leftChecker] at leftRead
  have rightRead := states.symm.trans read
  rw [← twins.rightChecker] at rightRead
  have rightStepped := stepped
  rw [twins.eval] at rightStepped
  obtain ⟨leftNext, leftJudged, leftLine, leftEval, leftChecker, leftTag⟩ := judge_event parsed
    (fit.deriveIdMismatch_fields matching firstTrace) leftRead stepped
  obtain ⟨rightNext, rightJudged, rightLine, rightEval, rightChecker, rightTag⟩ := judge_event
    (fit.parse matching secondTrace) (fit.deriveIdMismatch_fields matching secondTrace) rightRead rightStepped
  rw [← twins.protoTag, ← isValidResponse_congr lookups] at rightJudged
  obtain ⟨_, kept, _⟩ := Evaluator.evaluateOneStep_ok stepped
  refine ⟨_, leftNext, rightNext, leftJudged, rightJudged, leftLine, rightLine, ?_⟩
  exact ⟨leftChecker.trans twins.leftChecker, rightChecker.trans twins.rightChecker,
    by rw [leftEval, kept, twins.formulas], leftEval.trans rightEval.symm,
    leftTag.trans (twins.protoTag.trans rightTag.symm)⟩

theorem judgements_twins (fit : Fits shapes tree checker) (accepted : TypeChecker.new tree.spec = .ok checker)
    (numbered : doPreProcess tree.spec.2 = some (nodes, snums)) {left right : Process} {lines others : List (List Char)}
    (twins : Twins checker nodes left right) (same : List.Forall₂ (SameFields shapes) lines others) :
    ∃ judged leftLast rightLast, judgements left lines = .ok (judged, leftLast) ∧
      judgements right others = .ok (judged, rightLast) ∧ left.readLines lines = .ok leftLast ∧
      right.readLines others = .ok rightLast ∧ judged.length = lines.length ∧ Twins checker nodes leftLast rightLast := by
  induction same generalizing left right with
  | nil => exact ⟨[], left, right, rfl, rfl, rfl, rfl, rfl, twins⟩
  | @cons line other lines others head _ ih =>
    obtain ⟨judgement, leftNext, rightNext, leftJudged, rightJudged, leftLine, rightLine, next⟩ :=
      judge_twins fit accepted numbered twins head
    obtain ⟨judged, leftLast, rightLast, leftRest, rightRest, leftLines, rightLines, counted, last⟩ := ih next
    refine ⟨judgement :: judged, leftLast, rightLast, ?_, ?_, ?_, ?_, by simp [counted], last⟩
    · simp [judgements, leftJudged, leftRest, bind, Except.bind, pure, Except.pure]
    · simp [judgements, rightJudged, rightRest, bind, Except.bind, pure, Except.pure]
    · rw [Process.readLines, run_cons_of_ok leftLine]
      exact leftLines
    · rw [Process.readLines, run_cons_of_ok rightLine]
      exact rightLines

end Judging

def maxSnapshots : Nat := 1024

/-- What the fuzzer does to the adapter and the monitor. A dump that `criu` makes from its
command line saves nothing of the monitor. -/
inductive Action where
  | fuzzOne
  | send (traffic : Traffic)
  | dump (targetStateId : Fin (2 ^ 32)) (byApi : Bool)
  | restore (targetStateId : Fin (2 ^ 32))
  | endSession (checkViolation : Bool)
  deriving DecidableEq

/-- The adapter, the monitor process and the snapshots that are marked as valid. -/
structure Campaign (protocol : Protocol) where
  machine : Machine protocol.Session
  process : Process
  valid : List (Fin (2 ^ 32))

namespace Action

variable {protocol : Protocol}

def machine (machine : Machine protocol.Session) : Action → Machine protocol.Session
  | .fuzzOne => machine.resetSession protocol.adapter
  | .send traffic => (machine.send protocol.adapter traffic).2
  | .dump _ _ | .restore _ => machine
  | .endSession checkViolation => if checkViolation then machine.resetSession protocol.adapter else machine

/-- The packets that the adapter was given since its last reset. -/
def heard (traffic : Traffic) : Action → Traffic
  | .fuzzOne => []
  | .send more => traffic ++ more
  | .dump _ _ | .restore _ => traffic
  | .endSession checkViolation => if checkViolation then [] else traffic

def valid (valid : List (Fin (2 ^ 32))) : Action → List (Fin (2 ^ 32))
  | .dump targetStateId byApi =>
    if byApi ∧ targetStateId.val < maxSnapshots then targetStateId :: valid else valid
  | _ => valid

def lines (campaign : Campaign protocol) : Action → List (List Char)
  | .fuzzOne => []
  | .send traffic => (campaign.machine.send protocol.adapter traffic).1
  | .dump targetStateId byApi =>
    if byApi ∧ targetStateId.val < maxSnapshots then [saveLine targetStateId] else []
  | .restore targetStateId =>
    if targetStateId.val < maxSnapshots ∧ targetStateId ∈ campaign.valid then [restoreLine targetStateId] else []
  | .endSession _ => [endLine]

end Action

namespace Campaign

variable {protocol : Protocol}

def act (campaign : Campaign protocol) (action : Action) : Except Fault (Campaign protocol) := do
  let process ← campaign.process.readLines (action.lines campaign)
  return ⟨action.machine campaign.machine, process, action.valid campaign.valid⟩

def run : Campaign protocol → List Action → Except Fault (Campaign protocol) := Logic.run act

def start (protocol : Protocol) (checker : TypeChecker) (protoTag : ProtoTag) (nodes : List (ASTNode Nat))
    (snums : List Nat) : Campaign protocol where
  machine := Machine.start protocol.adapter
  process := Process.new checker protoTag nodes snums
  valid := []

theorem act_ok {campaign next : Campaign protocol} {action : Action} (executed : campaign.act action = .ok next) :
    campaign.process.readLines (action.lines campaign) = .ok next.process ∧
      next.machine = action.machine campaign.machine ∧ next.valid = action.valid campaign.valid := by
  obtain ⟨process, read, same⟩ := bind_ok executed
  cases same
  exact ⟨read, rfl, rfl⟩

/-- The adapter does not depend on the monitor. -/
theorem run_machine {campaign last : Campaign protocol} {actions : List Action} (executed : campaign.run actions = .ok last) :
    last.machine = actions.foldl Action.machine campaign.machine :=
  run_related Action.machine (fun campaign machine => campaign.machine = machine)
    (fun _ _ _ _ same stepped => (act_ok stepped).2.1.trans (congrArg (Action.machine · _) same)) _ rfl executed

/-- The session is what the packets since the last reset have made of it. -/
def Heard (campaign : Campaign protocol) (traffic : Traffic) : Prop :=
  protocol.view.visible campaign.machine.session = protocol.view.visible (protocol.adapter.after protocol.adapter.resetSession traffic)

theorem act_heard {campaign next : Campaign protocol} {traffic : Traffic} {action : Action} (heard : campaign.Heard traffic)
    (executed : campaign.act action = .ok next) : next.Heard (action.heard traffic) := by
  rw [Heard, (act_ok executed).2.1]
  cases action with
  | fuzzOne => rfl
  | send more =>
    rw [Action.machine, Machine.send_session, Action.heard, PredicateAdapter.after_append]
    exact protocol.view.after_eq heard more
  | dump targetStateId byApi => exact heard
  | restore targetStateId => exact heard
  | endSession checkViolation =>
    cases checkViolation with
    | true => rfl
    | false => exact heard

theorem run_heard {campaign last : Campaign protocol} {traffic : Traffic} {actions : List Action} (heard : campaign.Heard traffic)
    (executed : campaign.run actions = .ok last) : last.Heard (actions.foldl Action.heard traffic) :=
  run_related Action.heard Heard (fun _ _ _ _ heard stepped => act_heard heard stepped) _ heard executed

end Campaign

section Running

variable {protocol : Protocol} {checker : TypeChecker} {nodes : List (ASTNode Nat)} {snums : List Nat}
  (fit : Fits protocol.shapes protocol.tree checker) (accepted : TypeChecker.new protocol.tree.spec = .ok checker)
  (numbered : doPreProcess protocol.tree.spec.2 = some (nodes, snums))

/-- The monitor process has come through all its lines. -/
def Running (checker : TypeChecker) (nodes : List (ASTNode Nat)) (snums : List Nat) (process : Process) : Prop :=
  ∃ logical, Follows checker nodes snums process logical

private theorem readLines_completes_from {process : Process} {lines : List (List Char)}
    (running : Running checker nodes snums process) (wellFormed : ∀ line ∈ lines, WellFormed checker nodes line) :
    ∃ last, process.readLines lines = .ok last ∧ Running checker nodes snums last := by
  refine run_completes (WellFormed checker nodes) (Running checker nodes snums) ?_ running wellFormed
  rintro process line ⟨logical, follows⟩ admissible
  obtain ⟨next, stepped⟩ := readLine_completes follows admissible
  exact ⟨next, stepped, _, readLine_follows follows stepped⟩

include fit accepted numbered in
/-- The lines of an action, as the monitor parses them. -/
theorem line_cases {campaign : Campaign protocol} {action : Action} {line : List Char} (member : line ∈ action.lines campaign) :
    (∃ kv state, Command.parse line = .ok (.event kv) ∧ eventState checker kv = .ok state ∧
        ∀ node ∈ nodes, Evaluates state node) ∨
      (∃ targetStateId byApi, action = .dump targetStateId byApi ∧ Command.parse line = .ok (.save targetStateId.val)) ∨
      (∃ snapId, Command.parse line = .ok (.restore snapId)) ∨ Command.parse line = .ok .endSession := by
  cases action with
  | fuzzOne => cases member
  | send traffic =>
    rw [Action.lines, Machine.send_lines] at member
    obtain ⟨state, labelled, evaluates⟩ := lines_labelled protocol.build_matches fit accepted _ _ line member
    obtain ⟨kv, parsed, read⟩ := labelled.event
    refine Or.inl ⟨kv, state, parsed, read, ?_⟩
    rw [(doPreProcess_some numbered).1]
    exact List.forall_mem_map.mpr evaluates
  | dump targetStateId byApi =>
    simp only [Action.lines] at member
    split at member
    · cases List.mem_singleton.mp member
      exact Or.inr (Or.inl ⟨targetStateId, byApi, rfl, parse_saveLine targetStateId⟩)
    · cases member
  | restore targetStateId =>
    simp only [Action.lines] at member
    split at member
    · cases List.mem_singleton.mp member
      exact Or.inr (Or.inr (Or.inl ⟨_, parse_restoreLine targetStateId⟩))
    · cases member
  | endSession checkViolation =>
    cases List.mem_singleton.mp member
    exact Or.inr (Or.inr (Or.inr parse_endLine))

include fit accepted numbered in
theorem lines_wellFormed (campaign : Campaign protocol) (action : Action) :
    ∀ line ∈ action.lines campaign, WellFormed checker nodes line := by
  intro line member
  rcases line_cases fit accepted numbered member with
    ⟨kv, state, parsed, read, evaluates⟩ | ⟨_, _, _, parsed⟩ | ⟨_, parsed⟩ | parsed
  · refine ⟨_, parsed, ?_⟩
    intro other same
    cases same
    exact ⟨state, read, evaluates⟩
  all_goals exact ⟨_, parsed, fun _ impossible => by cases impossible⟩

include fit accepted numbered in
/-- No line of an adapter or of the fuzzer stops the monitor. -/
theorem run_completes_from {campaign : Campaign protocol} (running : Running checker nodes snums campaign.process)
    (actions : List Action) :
    ∃ last, campaign.run actions = .ok last ∧ Running checker nodes snums last.process := by
  refine run_completes (fun _ => True) (fun campaign : Campaign protocol => Running checker nodes snums campaign.process) ?_
    running fun _ _ => trivial
  intro campaign action held _
  obtain ⟨process, read, kept⟩ := readLines_completes_from held (lines_wellFormed fit accepted numbered campaign action)
  exact ⟨⟨action.machine campaign.machine, process, action.valid campaign.valid⟩,
    by simp [Campaign.act, read, bind, Except.bind, pure, Except.pure], kept⟩

include fit accepted numbered in
theorem run_running {campaign last : Campaign protocol} {actions : List Action} (executed : campaign.run actions = .ok last)
    (running : Running checker nodes snums campaign.process) : Running checker nodes snums last.process := by
  obtain ⟨other, completed, kept⟩ := run_completes_from fit accepted numbered running actions
  rwa [Except.ok.inj (executed.symm.trans completed)]

theorem readLines_protoTag {process last : Process} {lines : List (List Char)} (executed : process.readLines lines = .ok last) :
    last.protoTag = process.protoTag :=
  run_invariant (fun reached => reached.protoTag = process.protoTag)
    (fun _ _ _ held stepped => (Process.readLine_frame stepped).1.trans held) rfl executed

theorem run_protoTag {campaign last : Campaign protocol} {actions : List Action} (executed : campaign.run actions = .ok last) :
    last.process.protoTag = campaign.process.protoTag :=
  run_invariant (fun reached : Campaign protocol => reached.process.protoTag = campaign.process.protoTag)
    (fun _ _ _ held stepped => (readLines_protoTag (Campaign.act_ok stepped).1).trans held) rfl executed

theorem readLines_saved {process last : Process} {lines : List (List Char)} (executed : process.readLines lines = .ok last)
    {snapId : Nat} (others : ∀ line ∈ lines, Command.parse line ≠ .ok (.save snapId)) :
    last.savedStates.lookup snapId = process.savedStates.lookup snapId := by
  refine run_invariant_along (fun _ line => Command.parse line ≠ .ok (.save snapId))
    (fun reached => reached.savedStates.lookup snapId = process.savedStates.lookup snapId) ?_ rfl ?_ executed
  · intro reached line next held other stepped
    exact ((Process.readLine_frame stepped).2 snapId other).trans held
  · intro k line reached here _
    exact others line (List.mem_of_getElem? here)

include fit accepted numbered in
/-- A run that takes no other snapshot under this number keeps its record. -/
theorem run_saved {campaign last : Campaign protocol} {actions : List Action} (executed : campaign.run actions = .ok last)
    {targetStateId : Fin (2 ^ 32)} (others : ∀ byApi, .dump targetStateId byApi ∉ actions) :
    last.process.savedStates.lookup targetStateId.val = campaign.process.savedStates.lookup targetStateId.val ∧
      (targetStateId ∈ campaign.valid → targetStateId ∈ last.valid) := by
  refine run_invariant_along (fun _ action => ∀ byApi, action ≠ .dump targetStateId byApi)
    (fun reached : Campaign protocol =>
      reached.process.savedStates.lookup targetStateId.val = campaign.process.savedStates.lookup targetStateId.val ∧
      (targetStateId ∈ campaign.valid → targetStateId ∈ reached.valid)) ?_ ⟨rfl, id⟩ ?_ executed
  · intro reached action next ⟨saved, valid⟩ other stepped
    obtain ⟨read, _, marked⟩ := Campaign.act_ok stepped
    have unsaved : ∀ line ∈ action.lines reached, Command.parse line ≠ .ok (.save targetStateId.val) := by
      intro line member same
      rcases line_cases fit accepted numbered member with
        ⟨_, _, parsed, _⟩ | ⟨written, byApi, dumped, parsed⟩ | ⟨_, parsed⟩ | parsed
      · cases parsed.symm.trans same
      · have number : written.val = targetStateId.val := Command.save.inj (Except.ok.inj (parsed.symm.trans same))
        exact other byApi (by rw [dumped, Fin.ext number])
      · cases parsed.symm.trans same
      · cases parsed.symm.trans same
    refine ⟨(readLines_saved read unsaved).trans saved, ?_⟩
    intro before
    rw [marked]
    cases action with
    | dump written byApi =>
      simp only [Action.valid]
      split
      · exact List.mem_cons_of_mem _ (valid before)
      · exact valid before
    | fuzzOne | send | restore | endSession => exact valid before
  · intro k action reached here _ byApi same
    exact others byApi (same ▸ List.mem_of_getElem? here)

/-- Where two sessions print the same fields, their lines are judged alike. -/
theorem send_sameFields (fit : Fits protocol.shapes protocol.tree checker) {left right : protocol.Session} {traffic : Traffic}
    (alike : protocol.adapter.AlikeOn left right traffic) (first second : Nat) :
    List.Forall₂ (SameFields protocol.shapes) (Machine.send protocol.adapter ⟨left, first⟩ traffic).1
      (Machine.send protocol.adapter ⟨right, second⟩ traffic).1 := by
  induction traffic generalizing left right first second with
  | nil => exact .nil
  | cons packet traffic ih =>
    obtain ⟨fields, next⟩ := alike
    have leftMatches := protocol.build_matches packet.1 left packet.2
    have rightMatches := protocol.build_matches packet.1 right packet.2
    obtain ⟨leftTrace, leftIs, leftText⟩ := buildPredLine_text fit.toLayout ⟨left, first⟩ leftMatches
    obtain ⟨rightTrace, rightIs, rightText⟩ := buildPredLine_text fit.toLayout ⟨right, second⟩ rightMatches
    refine .cons ⟨_, leftTrace, rightTrace, leftMatches, leftIs, rightIs, leftText, ?_⟩ ?_
    · rw [fields]
      exact rightText
    · rw [← Machine.buildPredLine_session protocol.adapter ⟨left, first⟩,
        ← Machine.buildPredLine_session protocol.adapter ⟨right, second⟩] at next
      exact ih next _ _

theorem act_dump {campaign next : Campaign protocol} {targetStateId : Fin (2 ^ 32)}
    (small : targetStateId.val < maxSnapshots) (executed : campaign.act (.dump targetStateId true) = .ok next) :
    next = ⟨campaign.machine, campaign.process.saveState targetStateId.val, targetStateId :: campaign.valid⟩ := by
  have saved : campaign.process.readLines [saveLine targetStateId] = .ok (campaign.process.saveState targetStateId.val) := by
    simp [Process.readLines, Logic.run, Process.readLine, parse_saveLine, Process.handle, bind, Except.bind, pure, Except.pure]
  simp only [Campaign.act, Action.lines, Action.valid, Action.machine, small, and_self, if_true, saved, bind, Except.bind,
    pure, Except.pure] at executed
  exact (Except.ok.inj executed).symm

theorem act_restore {campaign next : Campaign protocol} {targetStateId : Fin (2 ^ 32)} {record : EvaluatorState}
    (small : targetStateId.val < maxSnapshots) (valid : targetStateId ∈ campaign.valid)
    (known : campaign.process.savedStates.lookup targetStateId.val = some record)
    (executed : campaign.act (.restore targetStateId) = .ok next) :
    next = ⟨campaign.machine, campaign.process.restoreState record, campaign.valid⟩ := by
  have recalled : campaign.process.readLines [restoreLine targetStateId] = .ok (campaign.process.restoreState record) := by
    simp [Process.readLines, Logic.run, Process.readLine, parse_restoreLine, Process.handle, known, bind, Except.bind, pure,
      Except.pure]
  simp only [Campaign.act, Action.lines, Action.valid, Action.machine, small, valid, and_self, if_true, recalled, bind,
    Except.bind, pure, Except.pure] at executed
  exact (Except.ok.inj executed).symm

/-- The evaluator that a restore brings back is the one that was dumped. -/
theorem restored_eval {dumped last restored : Process} {snapId : Nat} {record : EvaluatorState}
    (dumpedRuns : Running checker nodes snums dumped) (lastRuns : Running checker nodes snums last)
    (known : (dumped.saveState snapId).savedStates.lookup snapId = some record)
    (recalled : restored = last.restoreState record) : restored.eval = dumped.eval := by
  obtain ⟨_, dumpedFollows⟩ := dumpedRuns
  obtain ⟨_, lastFollows⟩ := lastRuns
  obtain ⟨formulas, serials⟩ := lastFollows.live.fixed
  obtain ⟨sameFormulas, sameSerials⟩ := dumpedFollows.live.fixed
  simp only [Process.saveState, AList.lookup_insert, Option.some.injEq] at known
  rw [recalled, ← known]
  exact recall_evaluator (formulas.trans sameFormulas.symm) (serials.trans sameSerials.symm)

end Running

theorem judgements_append {process middle last : Process} {first second : List (List Char)} {before judged : List Judgement}
    (start : judgements process first = .ok (before, middle)) (rest : judgements middle second = .ok (judged, last)) :
    judgements process (first ++ second) = .ok (before ++ judged, last) := by
  induction first generalizing process before with
  | nil =>
    cases start
    exact rest
  | cons line first ih =>
    obtain ⟨⟨judgement, next⟩, head, tail⟩ := bind_ok start
    obtain ⟨⟨others, reached⟩, found, same⟩ := bind_ok tail
    cases same
    have followed := ih found
    simp [judgements, head, followed, bind, Except.bind, pure, Except.pure]

/-- The first part of a test case, which has to go through for a dump to follow. -/
def sendOverNetworkM1 (earlyResponse : Packet) (m1 : List Exchange) : Traffic := receive earlyResponse ++ sendMessages m1

def sendOverNetworkM23 (m23 : List Exchange) : Traffic := sendMessages m23

theorem sendMessages_append {m1 : List Exchange} (complete : ∀ exchange ∈ m1, exchange.failed = false) (m23 : List Exchange) :
    sendMessages (m1 ++ m23) = sendMessages m1 ++ sendMessages m23 := by
  induction m1 with
  | nil => rfl
  | cons exchange m1 ih =>
    obtain ⟨first, rest⟩ := List.forall_mem_cons.mp complete
    simp [sendMessages, first, ih rest]

/-- The rest of a test case begins with a message of the client. -/
theorem sendOverNetworkM23_asks (m23 : List Exchange) : ∀ packet ∈ (sendOverNetworkM23 m23).head?, packet.1 = .c2s := by
  intro packet first
  cases m23 with
  | nil => cases first
  | cons exchange m23 =>
    cases first
    rfl

theorem sendOverNetwork_eq (earlyResponse : Packet) {m1 : List Exchange}
    (complete : ∀ exchange ∈ m1, exchange.failed = false) (m23 : List Exchange) :
    ({ earlyResponse, messages := m1 ++ m23 } : TestCase).sendOverNetwork =
      sendOverNetworkM1 earlyResponse m1 ++ sendOverNetworkM23 m23 := by
  simp [TestCase.sendOverNetwork, sendOverNetworkM1, sendOverNetworkM23, sendMessages_append complete]

/-- A session begins: the adapter looks as after a reset, and the evaluator is a new one. -/
structure Fresh {protocol : Protocol} (nodes : List (ASTNode Nat)) (snums : List Nat) (campaign : Campaign protocol) : Prop where
  session : protocol.view.visible campaign.machine.session = protocol.view.visible protocol.adapter.resetSession
  eval : campaign.process.eval = Evaluator.new nodes snums

/-- After a restore the monitor is shown the rest of a test case as on the plain path, where
`send_over_network` sends all of it in a fresh session: the lines are the same, numbered on
from the last message, and they are judged the same. -/
def Agrees {protocol : Protocol} (checker : TypeChecker) (protoTag : ProtoTag) (nodes : List (ASTNode Nat)) (snums : List Nat)
    (earlyResponse : Packet) (m1 m23 : List Exchange) (restored : Campaign protocol) : Prop :=
  (restored.machine.send protocol.adapter (sendOverNetworkM23 m23)).1 =
      (Machine.send protocol.adapter
        ⟨protocol.adapter.after protocol.adapter.resetSession (sendOverNetworkM1 earlyResponse m1), restored.machine.messageId⟩
        (sendOverNetworkM23 m23)).1 ∧
    ∀ messageId, ∃ before judged plainLast last,
      judgements (Process.new checker protoTag nodes snums)
          (Machine.send protocol.adapter ⟨protocol.adapter.resetSession, messageId⟩
            ({ earlyResponse, messages := m1 ++ m23 } : TestCase).sendOverNetwork).1 = .ok (before ++ judged, plainLast) ∧
        before.length = (sendOverNetworkM1 earlyResponse m1).length ∧
        judgements restored.process (restored.machine.send protocol.adapter (sendOverNetworkM23 m23)).1 = .ok (judged, last)

section Path

variable {protocol : Protocol} {checker : TypeChecker} {nodes : List (ASTNode Nat)} {snums : List Nat}
  (fit : Fits protocol.shapes protocol.tree checker) (accepted : TypeChecker.new protocol.tree.spec = .ok checker)
  (numbered : doPreProcess protocol.tree.spec.2 = some (nodes, snums))

include fit accepted numbered in
/-- From the first part of a test case in a fresh session to a restore that finds it. -/
theorem restored_spec {first dumped last restored : Campaign protocol} {m1Traffic : Traffic} {between : List Action}
    {targetStateId : Fin (2 ^ 32)} (running : Running checker nodes snums first.process)
    (dumping : first.run [.send m1Traffic, .dump targetStateId true] = .ok dumped)
    (passing : dumped.run between = .ok last) (restoring : last.run [.restore targetStateId] = .ok restored)
    (small : targetStateId.val < maxSnapshots) (others : ∀ byApi, .dump targetStateId byApi ∉ between) :
    ∃ sent, first.act (.send m1Traffic) = .ok sent ∧ dumped.machine = sent.machine ∧ restored.machine = last.machine ∧
      restored.process.eval = sent.process.eval ∧ restored.process.protoTag = first.process.protoTag ∧
      Running checker nodes snums restored.process := by
  obtain ⟨sent, sending, rest⟩ := run_cons_ok dumping
  obtain ⟨_, saving, same⟩ := run_cons_ok rest
  cases same
  obtain ⟨_, recalling, same⟩ := run_cons_ok restoring
  cases same
  have sentRuns := run_running fit accepted numbered (run_cons_of_ok sending [] : first.run [.send m1Traffic] = _) running
  have dumpedRuns := run_running fit accepted numbered dumping running
  have lastRuns := run_running fit accepted numbered passing dumpedRuns
  have restoredRuns := run_running fit accepted numbered restoring lastRuns
  have tags := (run_protoTag restoring).trans ((run_protoTag passing).trans (run_protoTag dumping))
  obtain ⟨saved, valid⟩ := run_saved fit accepted numbered passing others
  cases act_dump small saving
  obtain ⟨record, recorded⟩ :
      ∃ record, (sent.process.saveState targetStateId.val).savedStates.lookup targetStateId.val = some record :=
    ⟨_, AList.lookup_insert _⟩
  have found := act_restore small (valid List.mem_cons_self) (saved.trans recorded) recalling
  refine ⟨sent, sending, rfl, by rw [found], ?_, tags, restoredRuns⟩
  exact restored_eval sentRuns lastRuns recorded (by rw [found])

include fit accepted numbered in
private theorem agrees_of_resumes {first dumped last restored : Campaign protocol} {earlyResponse : Packet} {m1 : List Exchange}
    {between : List Action} {targetStateId : Fin (2 ^ 32)} (running : Running checker nodes snums first.process)
    (dumping : first.run [.send (sendOverNetworkM1 earlyResponse m1), .dump targetStateId true] = .ok dumped)
    (passing : dumped.run between = .ok last) (restoring : last.run [.restore targetStateId] = .ok restored)
    (complete : ∀ exchange ∈ m1, exchange.failed = false) (small : targetStateId.val < maxSnapshots)
    (others : ∀ byApi, .dump targetStateId byApi ∉ between) (fresh : Fresh nodes snums first) {m23 : List Exchange}
    (resumes : protocol.Resumes (between.foldl Action.heard (sendOverNetworkM1 earlyResponse m1))
      (sendOverNetworkM1 earlyResponse m1) (sendOverNetworkM23 m23)) :
    Agrees checker first.process.protoTag nodes snums earlyResponse m1 m23 restored := by
  obtain ⟨sent, sending, dumpedMachine, restoredMachine, evals, tags, restoredRuns⟩ :=
    restored_spec fit accepted numbered running dumping passing restoring small others
  obtain ⟨sentLines, _, _⟩ := Campaign.act_ok sending
  have heard := Campaign.run_heard (Campaign.run_heard (show first.Heard [] from fresh.session) dumping) passing
  rw [Campaign.Heard, ← restoredMachine] at heard
  have alike : protocol.adapter.AlikeOn restored.machine.session
      (protocol.adapter.after protocol.adapter.resetSession (sendOverNetworkM1 earlyResponse m1)) (sendOverNetworkM23 m23) :=
    protocol.view.alikeOn_left heard (protocol.resumes_alikeOn (sendOverNetworkM23_asks m23) resumes)
  refine ⟨alike.send_eq _, ?_⟩
  intro messageId
  obtain ⟨_, follows⟩ := running
  have twins : Twins checker nodes first.process (Process.new checker first.process.protoTag nodes snums) :=
    ⟨follows.checked, rfl, follows.live.fixed.1, fresh.eval, rfl⟩
  obtain ⟨before, sentLast, plainMiddle, _, plainStart, sentRead, _, counted, middle⟩ :=
    judgements_twins fit accepted numbered twins
      (send_sameFields fit (protocol.view.alikeOn fresh.session _) first.machine.messageId messageId)
  have sentProcess : sentLast = sent.process := Except.ok.inj (sentRead.symm.trans sentLines)
  obtain ⟨_, restoredFollows⟩ := restoredRuns
  have again : Twins checker nodes restored.process plainMiddle :=
    ⟨restoredFollows.checked, middle.rightChecker, restoredFollows.live.fixed.1,
      evals.trans (sentProcess ▸ middle.eval), tags.trans ((readLines_protoTag sentRead).symm.trans middle.protoTag)⟩
  have next : protocol.adapter.AlikeOn restored.machine.session (Machine.send protocol.adapter ⟨protocol.adapter.resetSession, messageId⟩
      (sendOverNetworkM1 earlyResponse m1)).2.session (sendOverNetworkM23 m23) := by
    rw [Machine.send_session]
    exact alike
  obtain ⟨judged, last, plainLast, snapshotPath, plainPath, _⟩ := judgements_twins fit accepted numbered again
    (send_sameFields fit next restored.machine.messageId _)
  refine ⟨before, judged, plainLast, last, ?_, counted.trans (Machine.send_length _ _), snapshotPath⟩
  rw [sendOverNetwork_eq earlyResponse complete, Machine.send_append]
  exact judgements_append plainStart plainPath

end Path

/-- In every run that takes a snapshot after the first part of a test case and restores it
after any other runs, the rest of the test case is shown to the monitor as on the plain
path, if the session was fresh when the first part was sent and the packets that the adapter
was given in between tell nothing else about that rest. -/
theorem snapshot_path_agrees (protocol : Protocol) :
    ∃ checker nodes snums, TypeChecker.new protocol.tree.spec = .ok checker ∧
      doPreProcess protocol.tree.spec.2 = some (nodes, snums) ∧
      ∀ (protoTag : ProtoTag) (history between : List Action) (earlyResponse : Packet) (m1 m23 : List Exchange)
        (targetStateId : Fin (2 ^ 32)), ∃ first dumped last restored : Campaign protocol,
          (Campaign.start protocol checker protoTag nodes snums).run history = .ok first ∧
          first.run [.send (sendOverNetworkM1 earlyResponse m1), .dump targetStateId true] = .ok dumped ∧
          dumped.run between = .ok last ∧ last.run [.restore targetStateId] = .ok restored ∧
          ((∀ exchange ∈ m1, exchange.failed = false) → targetStateId.val < maxSnapshots →
            (∀ byApi, .dump targetStateId byApi ∉ between) → Fresh nodes snums first →
            protocol.Resumes (between.foldl Action.heard (sendOverNetworkM1 earlyResponse m1))
              (sendOverNetworkM1 earlyResponse m1) (sendOverNetworkM23 m23) →
            Agrees checker protoTag nodes snums earlyResponse m1 m23 restored) := by
  obtain ⟨checker, nodes, snums, accepted, numbered, fit⟩ := fits_sound protocol.shapes_fit
  refine ⟨checker, nodes, snums, accepted, numbered, ?_⟩
  intro protoTag history between earlyResponse m1 m23 targetStateId
  obtain ⟨first, starting, firstRuns⟩ := run_completes_from fit accepted numbered
    (⟨_, new_follows protoTag⟩ : Running checker nodes snums (Campaign.start protocol checker protoTag nodes snums).process)
    history
  obtain ⟨dumped, dumping, dumpedRuns⟩ := run_completes_from fit accepted numbered firstRuns
    [.send (sendOverNetworkM1 earlyResponse m1), .dump targetStateId true]
  obtain ⟨last, passing, lastRuns⟩ := run_completes_from fit accepted numbered dumpedRuns between
  obtain ⟨restored, restoring, _⟩ := run_completes_from fit accepted numbered lastRuns [.restore targetStateId]
  refine ⟨first, dumped, last, restored, starting, dumping, passing, restoring, ?_⟩
  intro complete small others fresh resumes
  have agrees := agrees_of_resumes fit accepted numbered firstRuns dumping passing restoring complete small others fresh resumes
  rwa [run_protoTag starting] at agrees

def userExchange : Exchange := ⟨{ bytes := [85, 83, 69, 82, 32, 97, 13, 10] }, { bytes := [51, 51, 49, 32, 13, 10] }, false⟩

def passExchange : Exchange := ⟨{ bytes := [80, 65, 83, 83, 32, 98, 13, 10] }, { bytes := [50, 51, 48, 32, 13, 10] }, false⟩

def noopExchange : Exchange := ⟨noop, { bytes := [50, 48, 48, 32, 13, 10] }, false⟩

def greeting : Packet := { bytes := [50, 50, 48, 32, 13, 10] }

private theorem fuzzOne_fresh {protocol : Protocol} {checker : TypeChecker} {protoTag : ProtoTag} {nodes : List (ASTNode Nat)}
    {snums : List Nat} {first : Campaign protocol}
    (starting : (Campaign.start protocol checker protoTag nodes snums).run [.fuzzOne] = .ok first) :
    Fresh nodes snums first := by
  obtain ⟨_, stepped, same⟩ := run_cons_ok starting
  cases same
  cases stepped
  exact ⟨rfl, rfl⟩

/-- A snapshot after `USER`: one test case goes on with `PASS`, and the next one, restored
from the same snapshot, with `NOOP`, for which the adapter says that a password was sent. -/
theorem restored_session_knows_other_case :
    ∃ checker nodes snums, TypeChecker.new Protocol.ftp.tree.spec = .ok checker ∧
      doPreProcess Protocol.ftp.tree.spec.2 = some (nodes, snums) ∧
      ∃ first dumped last restored : Campaign .ftp,
        (Campaign.start .ftp checker .ftp nodes snums).run [.fuzzOne] = .ok first ∧ Fresh nodes snums first ∧
        first.run [.send (sendOverNetworkM1 greeting [userExchange]), .dump 1 true] = .ok dumped ∧
        dumped.run [.restore 1, .send (sendOverNetworkM23 [passExchange]), .endSession false] = .ok last ∧
        last.run [.restore 1] = .ok restored ∧
        ¬ Agrees checker .ftp nodes snums greeting [userExchange] [noopExchange] restored := by
  obtain ⟨checker, nodes, snums, accepted, numbered, fit⟩ := fits_sound Protocol.ftp.shapes_fit
  obtain ⟨first, starting, firstRuns⟩ := run_completes_from fit accepted numbered
    (⟨_, new_follows .ftp⟩ : Running checker nodes snums (Campaign.start .ftp checker .ftp nodes snums).process) [.fuzzOne]
  obtain ⟨dumped, dumping, dumpedRuns⟩ := run_completes_from fit accepted numbered firstRuns
    [.send (sendOverNetworkM1 greeting [userExchange]), .dump 1 true]
  obtain ⟨last, passing, lastRuns⟩ := run_completes_from fit accepted numbered dumpedRuns
    [.restore 1, .send (sendOverNetworkM23 [passExchange]), .endSession false]
  obtain ⟨restored, restoring, _⟩ := run_completes_from fit accepted numbered lastRuns [.restore 1]
  refine ⟨checker, nodes, snums, accepted, numbered, first, dumped, last, restored, starting, fuzzOne_fresh starting, dumping,
    passing, restoring, ?_⟩
  intro agrees
  have line := Protocol.ftp.send_fields agrees.1
  rw [Campaign.run_machine restoring, Campaign.run_machine passing, Campaign.run_machine dumping,
    Campaign.run_machine starting] at line
  dsimp only [Campaign.start] at line
  exact absurd (congrArg (·[15]?) line) (by decide +kernel)

def addressExchange (queryId : UInt8) : Exchange :=
  let question : List UInt8 := [0, 0, 1, 0, 1]
  ⟨{ bytes := [0, queryId, 1, 0, 0, 1, 0, 0, 0, 0, 0, 0] ++ question },
    { bytes := [0, queryId, 129, 128, 0, 1, 0, 0, 0, 0, 0, 0] ++ question }, false⟩

/-- Other questions are asked in between; and after a violation the first part is sent again, which
the adapter reads as before. -/
theorem snapshot_path_agrees_after_runs :
    (∃ checker nodes snums, ∃ restored : Campaign .dnsmasq,
      (Campaign.start .dnsmasq checker .dns nodes snums).run
        [.fuzzOne, .send (sendOverNetworkM1 { bytes := [] } [addressExchange 1]), .dump 1 true, .restore 1,
          .send (sendOverNetworkM23 [addressExchange 2, addressExchange 3]), .endSession false, .restore 1,
          .send (sendOverNetworkM23 [addressExchange 4]), .endSession false, .restore 1] = .ok restored ∧
      Agrees checker .dns nodes snums { bytes := [] } [addressExchange 1] [addressExchange 5] restored) ∧
    ∃ checker nodes snums, ∃ restored : Campaign .ftp,
      (Campaign.start .ftp checker .ftp nodes snums).run
        [.fuzzOne, .send (sendOverNetworkM1 greeting [userExchange]), .dump 1 true, .restore 1,
          .send (sendOverNetworkM23 [passExchange]), .endSession true, .send (sendOverNetworkM1 greeting [userExchange]),
          .restore 1] = .ok restored ∧
      Agrees checker .ftp nodes snums greeting [userExchange] [noopExchange] restored := by
  constructor
  · obtain ⟨checker, nodes, snums, _, _, agrees⟩ := snapshot_path_agrees .dnsmasq
    obtain ⟨first, dumped, last, restored, starting, dumping, passing, restoring, shown⟩ :=
      agrees .dns [.fuzzOne] [.restore 1, .send (sendOverNetworkM23 [addressExchange 2, addressExchange 3]), .endSession false,
        .restore 1, .send (sendOverNetworkM23 [addressExchange 4]), .endSession false] { bytes := [] } [addressExchange 1]
        [addressExchange 5] 1
    refine ⟨checker, nodes, snums, restored, ?_, ?_⟩
    · exact (run_append starting _).trans ((run_append dumping _).trans ((run_append passing _).trans restoring))
    · exact shown (by simp [addressExchange]) (by decide) (by simp) (fuzzOne_fresh starting)
        (show TellsAlike Dnsmasq.told _ _ _ by decide +kernel)
  · obtain ⟨checker, nodes, snums, _, _, agrees⟩ := snapshot_path_agrees .ftp
    obtain ⟨first, dumped, last, restored, starting, dumping, passing, restoring, shown⟩ :=
      agrees .ftp [.fuzzOne] [.restore 1, .send (sendOverNetworkM23 [passExchange]), .endSession true,
        .send (sendOverNetworkM1 greeting [userExchange])] greeting [userExchange] [noopExchange] 1
    refine ⟨checker, nodes, snums, restored, ?_, ?_⟩
    · exact (run_append starting _).trans ((run_append dumping _).trans ((run_append passing _).trans restoring))
    · exact shown (by simp [userExchange]) (by decide) (by simp) (fuzzOne_fresh starting) (Or.inr rfl)

end LtlFuzz.Fuzzer

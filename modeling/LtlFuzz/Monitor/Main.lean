import LtlFuzz.Monitor.Evaluator
import LtlFuzz.Text.Words

/-! `main.cpp`: the monitor process as a machine that reads lines, keeps the evaluator
and the saved evaluator states, and answers on its standard output. Logging and the
dump of a violation are left out; what they print is the session trace kept here. -/

namespace LtlFuzz.Monitor
open Text (Fault words)
open Logic (bind_ok)

/-- The pairs of a hash table, the key that came last in front. -/
abbrev KeyValues := AList fun _ : String => String

/-- `kv[k] = v`: a key that is there keeps its place. -/
def KeyValues.assign (kv : KeyValues) (k v : String) : KeyValues :=
  if k ∈ kv then kv.replace k v else kv.insert k v

/-- The blanks `trim` removes. -/
def isTrimmed (c : Char) : Bool := c == ' ' || c == '\t' || c == '\r' || c == '\n'

def trim (line : List Char) : List Char :=
  ((line.dropWhile isTrimmed).reverse.dropWhile isTrimmed).reverse

def keyValue (tok : List Char) : Option (String × String) :=
  if '=' ∈ tok then
    some (String.ofList (tok.takeWhile (· != '=')), String.ofList (tok.dropWhile (· != '=')).tail)
  else none

def addKeyValue (kv : KeyValues) (tok : List Char) : KeyValues :=
  match keyValue tok with
  | some (k, v) => kv.assign k v
  | none => kv

def parseKvLine (line : List Char) : KeyValues := (words line).foldl addKeyValue ∅

/-- The order in which a hash table is gone through: that of some hash function, which sees the
keys in the order in which they came. -/
structure HashOrder where
  arrange : List String → List String
  perm : ∀ keys, (arrange keys).Perm keys

def formatEventKv (order : HashOrder) (kv : KeyValues) : String :=
  "\x7b" ++ ", ".intercalate ((order.arrange kv.keys).filterMap fun k => (kv.lookup k).map fun v => k ++ "=" ++ v) ++ "\x7d"

inductive Command where
  | blank
  | save (snapId : Nat)
  | restore (snapId : Nat)
  | endSession
  | event (kv : KeyValues)

/-- `std::stoul(line.substr(pos))` stored in an `unsigned int`. -/
def snapshotId (line : List Char) (pos : Nat) : Except Fault Nat :=
  if line.length < pos then .error .outOfRange
  else (Text.stoul (String.ofList (line.drop pos))).map (· % 2 ^ 32)

def Command.parse (line : List Char) : Except Fault Command :=
  let line := trim line
  if line = [] then .ok .blank
  else if line.take 14 = "__SAVE_STATE__".toList then (snapshotId line 15).map .save
  else if line.take 17 = "__RESTORE_STATE__".toList then (snapshotId line 18).map .restore
  else if line = "__END_SESSION__".toList then .ok .endSession
  else .ok (.event (parseKvLine line))

theorem Command.parse_save {line : List Char} (whole : trim line = line) (nonempty : line ≠ [])
    (command : line.take 14 = "__SAVE_STATE__".toList) : Command.parse line = (snapshotId line 15).map .save := by
  simp only [Command.parse, whole, if_neg nonempty, if_pos command]

theorem Command.parse_restore {line : List Char} (whole : trim line = line) (nonempty : line ≠ [])
    (other : line.take 14 ≠ "__SAVE_STATE__".toList) (command : line.take 17 = "__RESTORE_STATE__".toList) :
    Command.parse line = (snapshotId line 18).map .restore := by
  simp only [Command.parse, whole, if_neg nonempty, if_neg other, if_pos command]

inductive Reply where
  | stateSaved (snapId : Nat)
  | stateRestored (snapId : Nat)
  | stateRestoreFailed (snapId : Nat)
  | violationDetected (number : Nat)
  deriving DecidableEq, Repr

/-- The line a reply is on standard output. -/
def Reply.text : Reply → String
  | .stateSaved snapId => "STATE_SAVED:" ++ toString snapId
  | .stateRestored snapId => "STATE_RESTORED:" ++ toString snapId
  | .stateRestoreFailed snapId => "STATE_RESTORE_FAILED:" ++ toString snapId
  | .violationDetected number => "VIOLATION_DETECTED:" ++ toString number

inductive ProtoTag where
  | dns | ssh | rtsp | dtls | sip | ftp | generic
  deriving DecidableEq, Repr

def ProtoTag.ofString (tag : String) : ProtoTag :=
  if tag = "dnsmasq" ∨ tag = "dns" then .dns
  else if tag = "ssh" then .ssh
  else if tag = "rtsp" then .rtsp
  else if tag = "dtls" then .dtls
  else if tag = "sip" then .sip
  else if tag = "ftp" then .ftp
  else .generic

/-- Whether a violation on this event is reported at all. -/
def isValidResponse (protoTag : ProtoTag) (kv : KeyValues) : Bool :=
  let notTimeout := kv.lookup "timeout" = none ∨ kv.lookup "timeout" = some "false"
  let isSet (key unset : String) := kv.lookup key ≠ none ∧ kv.lookup key ≠ some unset
  match protoTag with
  | .dns => kv.lookup "response_valid" = some "true"
  | .ssh => kv.lookup "encrypted" = some "true" ∧ kv.lookup "mac_ok" = some "true"
  | .rtsp => notTimeout ∧ isSet "status_class" "scNotSet"
  | .dtls => isSet "response" "responseNotSet"
  | .sip => kv.lookup "sip_msg_type" = some "response" ∧ notTimeout
  | .ftp => notTimeout ∧ isSet "ftp_status_class" "scNotSet"
  | .generic => true

def optionalId (kv : KeyValues) (key : String) : Except Fault (Option Int) :=
  match kv.lookup key with
  | none => .ok none
  | some v => (Text.stol v).map some

/-- The derived predicate `id_mismatch`. -/
def deriveIdMismatch (kv : KeyValues) : Except Fault KeyValues := do
  let qid ← optionalId kv "q_id"
  let respid ← optionalId kv "resp_id"
  match qid, respid with
  | some qid, some respid =>
    if "id_mismatch" ∈ kv then return kv
    else return kv.insert "id_mismatch" (if qid ≠ respid then "true" else "false")
  | _, _ => return kv

theorem deriveIdMismatch_absent {kv : KeyValues} (query : kv.lookup "q_id" = none) (answer : kv.lookup "resp_id" = none) :
    deriveIdMismatch kv = .ok kv := by
  simp [deriveIdMismatch, optionalId, query, answer, bind, Except.bind, pure, Except.pure]

def metaKeys : List String := ["msg_id", "dir", "trace"]

theorem isValidResponse_congr {left right : KeyValues} (same : ∀ key ∉ metaKeys, left.lookup key = right.lookup key)
    (protoTag : ProtoTag) : isValidResponse protoTag left = isValidResponse protoTag right := by
  cases protoTag <;> simp (disch := decide) only [isValidResponse, same]

def addLabels (state : State) : List (Sigma fun _ : String => String) → Except Fault State
  | [] => .ok state
  | ⟨k, v⟩ :: rest =>
    if k ∈ metaKeys ∨ k = "" ∨ v = "" then addLabels state rest
    else do addLabels (← state.addLabel k v) rest

theorem addLabels_skips {entries : List (Sigma fun _ : String => String)} (metadata : ∀ entry ∈ entries, entry.1 ∈ metaKeys)
    (state : State) (rest : List (Sigma fun _ : String => String)) :
    addLabels state (entries ++ rest) = addLabels state rest := by
  induction entries with
  | nil => rfl
  | cons entry entries ih =>
    obtain ⟨first, others⟩ := List.forall_mem_cons.mp metadata
    rw [List.cons_append, addLabels, if_pos (Or.inl first), ih others]

/-- The labels after all the pairs with a key and a value, apart from the metadata. -/
theorem addLabels_ok {state next : State} {entries : List (Sigma fun _ : String => String)}
    (executed : addLabels state entries = .ok next) :
    next.tchecker = state.tchecker ∧ ∀ name label, next.labelingFunction.lookup name = some label ↔
      (⟨name, label⟩ ∈ entries ∧ name ∉ metaKeys ∧ name ≠ "" ∧ label ≠ "") ∨
        state.labelingFunction.lookup name = some label := by
  induction entries generalizing state with
  | nil =>
    cases executed
    exact ⟨rfl, by simp⟩
  | cons entry entries ih =>
    obtain ⟨k, v⟩ := entry
    simp only [addLabels] at executed
    split at executed
    next skipped =>
      obtain ⟨checker, labels⟩ := ih executed
      refine ⟨checker, fun name label => ?_⟩
      rw [labels]
      have other : (⟨name, label⟩ : Sigma fun _ : String => String) = ⟨k, v⟩ →
          ¬(name ∉ metaKeys ∧ name ≠ "" ∧ label ≠ "") := by
        rintro ⟨⟩
        tauto
      simp only [List.mem_cons]
      tauto
    next added =>
      obtain ⟨middle, labelled, rest⟩ := bind_ok executed
      obtain ⟨missing, checker, inserted⟩ := State.addLabel_ok labelled
      obtain ⟨kept, labels⟩ := ih rest
      refine ⟨kept.trans checker, fun name label => ?_⟩
      rw [labels, inserted]
      by_cases same : name = k
      · subst same
        have unset : state.labelingFunction.lookup name = none := AList.lookup_eq_none.mpr missing
        have visible : name ∉ metaKeys ∧ name ≠ "" ∧ v ≠ "" := by tauto
        simp only [AList.lookup_insert, unset, List.mem_cons, Sigma.mk.injEq, heq_eq_eq, true_and, reduceCtorEq, or_false,
          Option.some.injEq]
        constructor
        · rintro (inside | rfl)
          · exact ⟨Or.inr inside.1, inside.2⟩
          · exact ⟨Or.inl rfl, visible⟩
        · rintro ⟨rfl | inside, facts⟩
          · exact Or.inr rfl
          · exact Or.inl ⟨inside, facts⟩
      · rw [AList.lookup_insert_ne same]
        simp [same]

/-- Distinct keys that have no label yet all get theirs, apart from the metadata. -/
theorem addLabels_completes {state : State} {entries : List (Sigma fun _ : String => String)}
    (distinct : (entries.map Sigma.fst).Nodup)
    (unlabelled : ∀ entry ∈ entries, entry.1 ∉ metaKeys →
      entry.1 ∉ state.labelingFunction ∧ entry.1 ≠ "" ∧ entry.2 ≠ "") :
    ∃ next, addLabels state entries = .ok next ∧ next.tchecker = state.tchecker ∧
      ∀ name label, next.labelingFunction.lookup name = some label ↔
        (⟨name, label⟩ ∈ entries ∧ name ∉ metaKeys) ∨ state.labelingFunction.lookup name = some label := by
  induction entries generalizing state with
  | nil => exact ⟨state, rfl, rfl, by simp⟩
  | cons entry entries ih =>
    obtain ⟨k, v⟩ := entry
    obtain ⟨fresh, later⟩ := List.nodup_cons.mp distinct
    by_cases isMeta : k ∈ metaKeys
    · obtain ⟨next, executed, checker, labels⟩ := ih later fun other member => unlabelled other (List.mem_cons_of_mem _ member)
      refine ⟨next, by simp only [addLabels, isMeta, true_or, if_true]; exact executed, checker, ?_⟩
      intro name label
      rw [labels]
      have skipped : (⟨name, label⟩ : Sigma fun _ : String => String) = ⟨k, v⟩ → name ∈ metaKeys := by
        rintro ⟨⟩
        exact isMeta
      simp only [List.mem_cons]
      tauto
    · obtain ⟨missing, named, written⟩ := unlabelled ⟨k, v⟩ List.mem_cons_self isMeta
      obtain ⟨middle, added⟩ : ∃ middle, state.addLabel k v = .ok middle := by
        simp only [State.addLabel, dif_neg missing]
        exact ⟨_, rfl⟩
      obtain ⟨_, checker, inserted⟩ := State.addLabel_ok added
      have rest : ∀ other ∈ entries, other.1 ∉ metaKeys →
          other.1 ∉ middle.labelingFunction ∧ other.1 ≠ "" ∧ other.2 ≠ "" := by
        intro other member unmarked
        obtain ⟨absent, texts⟩ := unlabelled other (List.mem_cons_of_mem _ member) unmarked
        refine ⟨?_, texts⟩
        rw [inserted, AList.mem_insert]
        rintro (same | known)
        · exact fresh (List.mem_map.mpr ⟨other, member, same⟩)
        · exact absent known
      obtain ⟨next, executed, kept, labels⟩ := ih later rest
      refine ⟨next, ?_, kept.trans checker, ?_⟩
      · simp only [addLabels, isMeta, named, written, or_self, if_false, added]
        exact executed
      · intro name label
        rw [labels, inserted]
        by_cases same : name = k
        · subst same
          have unique : (⟨name, label⟩ : Sigma fun _ : String => String) ∉ entries := by
            intro member
            exact fresh (List.mem_map.mpr ⟨_, member, rfl⟩)
          have unset : state.labelingFunction.lookup name = none := AList.lookup_eq_none.mpr missing
          simp [AList.lookup_insert, unique, unset, isMeta, eq_comm]
        · rw [AList.lookup_insert_ne same]
          simp [same]

/-- The labelled state of an event, after `assert(ltl_state.IsSane())`. -/
def labelledState (checker : TypeChecker) (kv : KeyValues) : Except Fault State := do
  let state ← addLabels (State.new checker) kv.entries
  if (← state.isSane) then return state else .error .assertion

/-- The state an event line stands for. -/
def eventState (checker : TypeChecker) (kv : KeyValues) : Except Fault State := do
  labelledState checker (← deriveIdMismatch kv)

theorem eventState_ok {checker : TypeChecker} {kv : KeyValues} {state : State} (read : eventState checker kv = .ok state) :
    ∃ derived, deriveIdMismatch kv = .ok derived ∧ addLabels (State.new checker) derived.entries = .ok state ∧
      state.isSane = .ok true := by
  obtain ⟨derived, first, rest⟩ := bind_ok read
  obtain ⟨labelled, second, rest⟩ := bind_ok rest
  obtain ⟨sane, third, rest⟩ := bind_ok rest
  cases sane with
  | false => cases rest
  | true =>
    cases rest
    exact ⟨derived, first, second, third⟩

theorem eventState_checker {checker : TypeChecker} {kv : KeyValues} {state : State} (read : eventState checker kv = .ok state) :
    state.tchecker = checker := by
  obtain ⟨derived, _, labelled, _⟩ := eventState_ok read
  exact (addLabels_ok labelled).1

structure EvaluatorState where
  index : Int32
  eventCount : Nat
  sessionCount : Nat
  oldBv : List BitVector
  newBv : List BitVector
  deriving DecidableEq

/-- An event of the session trace is kept as its pairs, and made a text by `formatEventKv` where it
is printed. -/
structure Process where
  typeChecker : TypeChecker
  protoTag : ProtoTag
  eval : Evaluator
  eventCount : Nat
  sessionCount : Nat
  totalViolations : Nat
  sessionTrace : List KeyValues
  savedStates : AList fun _ : Nat => EvaluatorState

namespace Process

def new (typeChecker : TypeChecker) (protoTag : ProtoTag) (nodes : List (ASTNode Nat)) (serials : List Nat) : Process where
  typeChecker := typeChecker
  protoTag := protoTag
  eval := Evaluator.new nodes serials
  eventCount := 0
  sessionCount := 0
  totalViolations := 0
  sessionTrace := []
  savedStates := ∅

def saveState (process : Process) (snapId : Nat) : Process :=
  let state : EvaluatorState :=
    { index := process.eval.index
      eventCount := process.eventCount
      sessionCount := process.sessionCount
      oldBv := process.eval.oldBv
      newBv := process.eval.newBv }
  { process with savedStates := process.savedStates.insert snapId state }

/-- A restored session trace is only ever cut down to the saved number of events. -/
def restoreState (process : Process) (state : EvaluatorState) : Process :=
  { process with
    eval := { process.eval with index := state.index, oldBv := state.oldBv, newBv := state.newBv }
    eventCount := state.eventCount
    sessionCount := state.sessionCount
    sessionTrace :=
      if process.sessionTrace.length > state.eventCount then process.sessionTrace.take state.eventCount
      else process.sessionTrace }

def endSession (process : Process) : Process :=
  { process with
    sessionCount := process.sessionCount + 1
    eval := process.eval.resetEvaluator
    eventCount := 0
    sessionTrace := [] }

def handleEvent (process : Process) (kv : KeyValues) : Except Fault (Process × List Reply) := do
  let sessionTrace := process.sessionTrace ++ [kv]
  let kv ← deriveIdMismatch kv
  let state ← labelledState process.typeChecker kv
  let (verdicts, eval) ← process.eval.evaluateOneStep state
  let process := { process with eventCount := process.eventCount + 1, sessionTrace, eval }
  if false ∈ verdicts ∧ isValidResponse process.protoTag kv then
    let totalViolations := process.totalViolations + 1
    return ({ process with totalViolations }, [.violationDetected totalViolations])
  else return (process, [])

def handle (process : Process) : Command → Except Fault (Process × List Reply)
  | .blank => .ok (process, [])
  | .save snapId => .ok (process.saveState snapId, [.stateSaved snapId])
  | .restore snapId =>
    match process.savedStates.lookup snapId with
    | none => .ok (process, [.stateRestoreFailed snapId])
    | some state => .ok (process.restoreState state, [.stateRestored snapId])
  | .endSession => .ok (process.endSession, [])
  | .event kv => process.handleEvent kv

/-- What an event does to the process, apart from the count of violations. -/
theorem handleEvent_ok {process next : Process} {kv : KeyValues} {replies : List Reply}
    (executed : process.handleEvent kv = .ok (next, replies)) :
    ∃ state verdicts, eventState process.typeChecker kv = .ok state ∧
      process.eval.evaluateOneStep state = .ok (verdicts, next.eval) ∧
      next.typeChecker = process.typeChecker ∧ next.savedStates = process.savedStates ∧
      next.eventCount = process.eventCount + 1 ∧
      next.sessionTrace = process.sessionTrace ++ [kv] := by
  obtain ⟨derived, first, rest⟩ := bind_ok executed
  obtain ⟨state, second, rest⟩ := bind_ok rest
  obtain ⟨⟨verdicts, eval⟩, third, rest⟩ := bind_ok rest
  refine ⟨state, verdicts, by simp only [eventState, first]; exact second, ?_⟩
  dsimp only at rest
  split at rest
  · cases rest
    exact ⟨third, rfl, rfl, rfl, rfl⟩
  · cases rest
    exact ⟨third, rfl, rfl, rfl, rfl⟩

theorem handleEvent_completes {process : Process} {kv : KeyValues} {state : State} {verdicts : List Bool} {eval : Evaluator}
    (read : eventState process.typeChecker kv = .ok state)
    (stepped : process.eval.evaluateOneStep state = .ok (verdicts, eval)) :
    ∃ output, process.handleEvent kv = .ok output := by
  obtain ⟨derived, first, second⟩ := bind_ok read
  simp only [handleEvent, first, second, stepped, bind, Except.bind]
  split
  · exact ⟨_, rfl⟩
  · exact ⟨_, rfl⟩

/-- The outcome of an event whose labels evaluate. -/
theorem handleEvent_eq {process : Process} {kv : KeyValues} {state : State} {verdicts : List Bool} {eval : Evaluator}
    (derived : deriveIdMismatch kv = .ok kv) (read : eventState process.typeChecker kv = .ok state)
    (stepped : process.eval.evaluateOneStep state = .ok (verdicts, eval)) :
    ∃ next replies, process.handleEvent kv = .ok (next, replies) ∧ next.eval = eval ∧
      next.typeChecker = process.typeChecker ∧ next.protoTag = process.protoTag ∧
      replies.isEmpty = !decide (false ∈ verdicts ∧ isValidResponse process.protoTag kv) := by
  have labelled : labelledState process.typeChecker kv = .ok state := by
    simpa [eventState, derived, bind, Except.bind] using read
  simp only [handleEvent, derived, labelled, stepped, bind, Except.bind]
  split
  next violated => exact ⟨_, _, rfl, rfl, rfl, rfl, by simp [violated]⟩
  next fine => exact ⟨_, _, rfl, rfl, rfl, rfl, by simp [fine]⟩

/-- One pass of the loop, without what it prints. -/
def readLine (process : Process) (line : List Char) : Except Fault Process := do
  let command ← Command.parse line
  return (← process.handle command).1

theorem readLine_ok {process next : Process} {line : List Char} (executed : process.readLine line = .ok next) :
    ∃ command replies, Command.parse line = .ok command ∧ process.handle command = .ok (next, replies) := by
  obtain ⟨command, parsed, rest⟩ := bind_ok executed
  obtain ⟨⟨after, replies⟩, handled, same⟩ := bind_ok rest
  cases same
  exact ⟨command, replies, parsed, handled⟩

/-- A line leaves the protocol and all but one of the records alone. -/
theorem readLine_frame {process next : Process} {line : List Char} (executed : process.readLine line = .ok next) :
    next.protoTag = process.protoTag ∧ ∀ snapId, Command.parse line ≠ .ok (.save snapId) →
      next.savedStates.lookup snapId = process.savedStates.lookup snapId := by
  obtain ⟨command, replies, parsed, handled⟩ := readLine_ok executed
  rw [parsed]
  cases command with
  | blank | endSession =>
    cases handled
    exact ⟨rfl, fun _ _ => rfl⟩
  | save written =>
    cases handled
    refine ⟨rfl, ?_⟩
    intro snapId other
    exact AList.lookup_insert_ne fun same => other (by rw [same])
  | restore snapId =>
    simp only [handle] at handled
    split at handled
    · cases handled
      exact ⟨rfl, fun _ _ => rfl⟩
    · cases handled
      exact ⟨rfl, fun _ _ => rfl⟩
  | event kv =>
    obtain ⟨derived, _, rest⟩ := bind_ok handled
    obtain ⟨state, _, rest⟩ := bind_ok rest
    obtain ⟨⟨verdicts, eval⟩, _, rest⟩ := bind_ok rest
    dsimp only at rest
    split at rest
    · cases rest
      exact ⟨rfl, fun _ _ => rfl⟩
    · cases rest
      exact ⟨rfl, fun _ _ => rfl⟩

def readLines : Process → List (List Char) → Except Fault Process := Logic.run readLine

end Process

end LtlFuzz.Monitor

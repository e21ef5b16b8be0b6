import LtlFuzz.Fuzzer.ResponseCodes
import LtlFuzz.Logic.Run

/-! What the fuzzer knows of the states of the server. A state found in a response gets a row of
`was_fuzzed_map` and a list of the seeds that reach it, a seed gets a column; fuzzing goes by choosing
a state and one of its seeds. -/

namespace LtlFuzz.Fuzzer
open Logic

section Table

structure StateInfo where
  paths : Nat := 0
  pathsDiscovered : Nat := 0
  selectedTimes : Nat := 0
  fuzzs : Nat := 0
  selectedSeedIndex : Nat := 0
  seeds : List Nat := []

/-- A queue entry with the state sequences of its regions; its index is its place in the queue. -/
structure Seed where
  regionCount : Nat
  generatingStateId : Nat
  isInitialSeed : Bool := false
  wasFuzzed : Bool := false
  uniqueStateCount : Nat := 0
  regions : List (List Nat) := []

/-- `response_buf` and `response_bytes`, which has the size of the responses after each message sent. -/
structure Response where
  buf : List UInt8
  bytes : List Nat
  within : ∀ size ∈ bytes, size ≤ buf.length
  grows : bytes.Pairwise (· ≤ ·)

/-- The variables of the state-aware mode: `nodes` are the vertices of `ipsm`, `infos` is `khms_states`, `paths`
is `khs_ipsm_paths`, and `cells` is `was_fuzzed_map` with its rows and columns. -/
structure StateTable where
  nodes : List Nat := []
  infos : Nat → Option StateInfo := fun _ => none
  stateIds : List Nat := []
  paths : List Nat := []
  rows : Nat := 0
  columns : Nat := 0
  cells : Nat → Nat → Int := fun _ _ => 0
  queue : List Seed := []
  targetStateId : Nat := 0
  selectedStateIndex : Nat := 0
  stateCycles : Nat := 0
  queueCur : Option Nat := none

def StateTable.graph (table : StateTable) : List Nat × List Nat × List Nat := (table.nodes, table.stateIds, table.paths)

/-- Why the fuzzer ends: an access out of range, a division by zero, an extractor that fails, one of
its own fatal errors, or a loop without an end. -/
inductive Abort where
  | outOfRange
  | divisionByZero
  | extractor
  | noInitialState
  | noStates
  | noEntry
  | noRegions
  | endless
  deriving DecidableEq

namespace StateTable

/-- `get_state_index`, the number of all states for one that is not there. -/
def getStateIndex (table : StateTable) (stateId : Nat) : Nat := table.stateIds.idxOf stateId

def expandWasFuzzedMap (table : StateTable) (newStates newQentries : Nat) : StateTable :=
  { table with
    cells := fun i j =>
      if i < table.rows + newStates ∧ j < table.columns + newQentries ∧ (table.rows ≤ i ∨ table.columns ≤ j) then -1 else table.cells i j
    rows := table.rows + newStates
    columns := table.columns + newQentries }

def mark (table : StateTable) (stateIndex seed : Nat) (value : Int) : Except Abort StateTable :=
  if stateIndex < table.rows ∧ seed < table.columns then
    .ok { table with cells := fun i j => if i = stateIndex ∧ j = seed then value else table.cells i j }
  else .error .outOfRange

def addToQueue (table : StateTable) (regionCount : Nat) : StateTable :=
  let seed : Seed := { regionCount, generatingStateId := table.targetStateId }
  let table := { table with queue := table.queue ++ [seed] }
  if table.rows ≠ 0 then table.expandWasFuzzedMap 0 1 else table.expandWasFuzzedMap 1 1

def addState (table : StateTable) (stateId : Nat) (info : StateInfo) : StateTable :=
  let table := { table with infos := Function.update table.infos stateId (some info), stateIds := table.stateIds ++ [stateId] }
  if stateId ≠ 0 then table.expandWasFuzzedMap 1 0 else table

/-- A state becomes a vertex if it is none yet. -/
def visit (table : StateTable) (stateId : Nat) : StateTable :=
  if stateId ∈ table.nodes then table
  else
    let table := { table with nodes := table.nodes ++ [stateId] }
    table.addState stateId {}

/-- The loop of `update_state_aware_variables` over the steps of the state sequence; one state alone is no step. -/
def visitSteps (table : StateTable) : List Nat → StateTable
  | prevStateId :: curStateId :: rest => ((table.visit prevStateId).visit curStateId).visitSteps (curStateId :: rest)
  | _ => table

/-- The sequence from the third state on, without a state that the two before it are equal to. -/
def trimmedFrom : Nat → Nat → List Nat → List Nat
  | _, _, [] => []
  | first, second, state :: rest =>
    if state = second ∧ state = first then trimmedFrom second state rest else state :: trimmedFrom second state rest

def trimmed : List Nat → List Nat
  | first :: second :: rest => first :: second :: trimmedFrom first second rest
  | short => short

def rol64 (x r : UInt64) : UInt64 := x <<< r ||| x >>> (64 - r)

/-- The words of eight bytes that an array of states is read as. A state that is left over is in none. -/
def words : List Nat → List Nat
  | low :: high :: rest => (low % 2 ^ 32 + high % 2 ^ 32 * 2 ^ 32) :: words rest
  | _ => []

/-- The loop of `hash32` at one word. -/
def hashWord (h1 : UInt64) (word : Nat) : UInt64 :=
  let k1 := rol64 (UInt64.ofNat word * 0x87c37b91114253d5) 31 * 0x4cf5ad432745937f
  rol64 (h1 ^^^ k1) 27 * 5 + 0x52dce729

/-- `hash32` of an array of states, in the form for `__x86_64__`. -/
def hash32 (key : List Nat) (seed : Nat) : Nat :=
  let h1 := (words key).foldl hashWord (UInt64.ofNat ((seed ^^^ key.length * 4) % 2 ^ 32))
  let h1 := (h1 ^^^ h1 >>> 33) * 0xff51afd7ed558ccd
  let h1 := (h1 ^^^ h1 >>> 33) * 0xc4ceb9fe1a85ec53
  (h1 ^^^ h1 >>> 33).toNat % 2 ^ 32

def isStateSequenceInteresting (table : StateTable) (stateSequence : List Nat) : Bool × StateTable :=
  let hashKey := hash32 (trimmed stateSequence) 0
  if hashKey ∈ table.paths then (false, table) else (true, { table with paths := hashKey :: table.paths })

/-- The loop of `update_region_annotations`, from the size before a message on. -/
def annotate (extractResponseCodes : List UInt8 → Nat → Option (List Nat)) (buf : List UInt8) : Nat → List Nat → Option (List (List Nat))
  | _, [] => some []
  | before, bytes :: rest => do
    let stateSequence ← if bytes = 0 ∨ bytes = before then some [] else extractResponseCodes buf bytes
    let later ← annotate extractResponseCodes buf bytes rest
    return stateSequence :: later

/-- A seed is put on the list of the state that a region of it ends in. -/
def reach (seed : Nat) (table : StateTable) (stateSequence : List Nat) : Except Abort StateTable :=
  match stateSequence.getLast? with
  | none => .ok table
  | some stateId =>
    let table := match table.infos stateId with
      | some info => { table with infos := Function.update table.infos stateId (some { info with seeds := info.seeds ++ [seed] }) }
      | none => table.addState stateId { seeds := [seed] }
    table.mark (table.getStateIndex stateId) seed 0

/-- One is added for each state of a sequence that is in the hashtable, once for a state that comes again. -/
def count (table : StateTable) (stateSequence : List Nat) (add : StateInfo → StateInfo) : StateTable :=
  { table with infos := fun stateId => if stateId ∈ stateSequence then (table.infos stateId).map add else table.infos stateId }

end StateTable

/-- The extractor of the protocol, and the score of a state, which is worked out in floating point. -/
structure Env where
  extractResponseCodes : List UInt8 → Nat → Option (List Nat)
  score : StateInfo → Nat

namespace StateTable

/-- The part of `update_state_aware_variables` that takes a sequence into the graph if it is interesting. -/
def updateIpsm (table : StateTable) (stateSequence : List Nat) : StateTable :=
  let (interesting, table) := table.isStateSequenceInteresting stateSequence
  if interesting then table.visitSteps stateSequence else table

/-- The part of `update_state_aware_variables` that puts a seed on the lists of the states it reaches; every seed reaches the
initial state. -/
def listSeeds (table : StateTable) (seed : Nat) (regions : List (List Nat)) : Except Abort StateTable :=
  match table.infos 0 with
  | none => .error .noInitialState
  | some info => do
    let table := { table with infos := Function.update table.infos 0 (some { info with seeds := info.seeds ++ [seed] }) }
    let table ← table.mark 0 seed 0
    run (reach seed) table regions

/-- `update_state_aware_variables`. The buffer has a zero byte after its last. -/
def updateStateAwareVariables (env : Env) (table : StateTable) (seed : Nat) (response : Response) (dryRun : Bool) :
    Except Abort StateTable :=
  if response.buf = [] ∨ response.bytes = [] then .ok table
  else do
    let buf := response.buf ++ [0]
    let some stateSequence := env.extractResponseCodes buf response.buf.length | .error .extractor
    let table := table.updateIpsm stateSequence
    let some regions := annotate env.extractResponseCodes buf 0 response.bytes | .error .extractor
    let some entry := table.queue[seed]? | .error .outOfRange
    if entry.regionCount < regions.length then .error .outOfRange
    else
      let entry := { entry with regions, uniqueStateCount := stateSequence.dedup.length }
      let table ← listSeeds { table with queue := table.queue.set seed entry } seed regions
      let table := table.count stateSequence fun info => { info with paths := info.paths + 1 }
      return if dryRun then table
        else table.count [table.targetStateId] fun info => { info with pathsDiscovered := info.pathsDiscovered + 1 }

def updateFuzzs (env : Env) (table : StateTable) (response : Response) : Except Abort StateTable :=
  match env.extractResponseCodes (response.buf ++ [0]) response.buf.length with
  | none => .error .extractor
  | some stateSequence => .ok (table.count stateSequence fun info => { info with fuzzs := info.fuzzs + 1 })

end StateTable
end Table

section Choosing

/-- The modes of selection; `other` is any number on the command line that is none of them. -/
inductive SelectionMode where
  | random
  | roundRobin
  | favor
  | other

def indexSearch (values : List Nat) (val : Nat) : Nat := values.findIdx fun value => decide (val ≤ value)

/-- The sums of scores up to each, as `u32`. -/
def runningSums (scores : List Nat) : List Nat := (scores.scanl (fun sum score => wrap (sum + score)) 0).tail

/-- One of the candidates, drawn by their scores. -/
def drawByScore (candidates scores : List Nat) (draw : Nat) : Except Abort Nat :=
  let sums := runningSums scores
  let total := sums.getLastD 0
  if total = 0 then .error .divisionByZero
  else
    match candidates[indexSearch sums (draw % total)]? with
    | none => .error .outOfRange
    | some candidate => .ok candidate

namespace StateTable

def scoreOf (env : Env) (table : StateTable) (stateId : Nat) : Nat := ((table.infos stateId).map env.score).getD 0

def updateScoresAndSelectNextState (env : Env) (table : StateTable) (draw : Nat) : Except Abort Nat :=
  if table.stateIds = [] then .ok 0 else drawByScore table.stateIds (table.stateIds.map (table.scoreOf env)) draw

def nextState (table : StateTable) : Except Abort (Nat × Nat) :=
  match table.stateIds[table.selectedStateIndex]? with
  | none => .error .outOfRange
  | some stateId => .ok (stateId, if table.selectedStateIndex + 1 = table.stateIds.length then 0 else table.selectedStateIndex + 1)

def chooseTargetState (env : Env) (table : StateTable) (mode : SelectionMode) (draw : Nat) : Except Abort StateTable :=
  match mode with
  | .random =>
    if table.stateIds = [] then .error .divisionByZero
    else
      let selectedStateIndex := draw % table.stateIds.length
      match table.stateIds[selectedStateIndex]? with
      | none => .error .outOfRange
      | some targetStateId => .ok { table with targetStateId, selectedStateIndex }
  | .roundRobin => do
    let (targetStateId, selectedStateIndex) ← table.nextState
    return { table with targetStateId, selectedStateIndex }
  | .favor =>
    if table.stateCycles < 5 then do
      let (targetStateId, selectedStateIndex) ← table.nextState
      return { table with targetStateId, selectedStateIndex, stateCycles := table.stateCycles + if selectedStateIndex = 0 then 1 else 0 }
    else do
      let targetStateId ← table.updateScoresAndSelectNextState env draw
      return { table with targetStateId }
  | .other => .ok { table with targetStateId := 0 }

/-- What is decided of a queue entry elsewhere. -/
structure QueueView where
  favored : Nat → Bool
  pendingFavored : Bool
  queueCycle : Nat

/-- One turn of the loop in `choose_seed`: whether the seed is taken, and how many numbers have been drawn. -/
def weigh (table : StateTable) (view : QueueView) (draws : Nat → Nat) (drawn seed : Nat) : Except Abort (Bool × Nat) :=
  match table.queue[seed]? with
  | none => .error .outOfRange
  | some entry =>
    let foreign := entry.generatingStateId ≠ table.targetStateId ∧ ¬ entry.isInitialSeed
    if foreign ∧ draws drawn % 100 < 90 then .ok (false, drawn + 1)
    else
      let drawn := if foreign then drawn + 1 else drawn
      let index := table.getStateIndex table.targetStateId
      if ¬ (index < table.rows ∧ seed < table.columns) then .error .outOfRange
      else if view.pendingFavored then
        if table.cells index seed = 1 ∨ ¬ view.favored seed then .ok (decide (99 ≤ draws drawn % 100), drawn + 1) else .ok (true, drawn)
      else if ¬ view.favored seed ∧ 10 < table.queue.length then
        .ok (decide ((if 1 < view.queueCycle ∧ table.cells index seed = 0 then 75 else 95) ≤ draws drawn % 100), drawn + 1)
      else .ok (false, drawn)

/-- The loop in `choose_seed`, which ends with the seed it looked at last: that seed, and the index after it. -/
def passSeeds (table : StateTable) (view : QueueView) (draws : Nat → Nat) (seeds : List Nat) :
    Nat → Nat → Nat → Nat → Except Abort (Option Nat × Nat)
  | 0, _, _, _ => .error .endless
  | fuel + 1, drawn, index, passedCycles =>
    match seeds[index]? with
    | none => .error .outOfRange
    | some seed => do
      let (next, passed) := if index + 1 = seeds.length then (0, passedCycles + 1) else (index + 1, passedCycles)
      let (taken, drawn) ← table.weigh view draws drawn seed
      if taken ∨ 5 ≤ passed then return (some seed, next) else passSeeds table view draws seeds fuel drawn next passed

def nextSeed (info : StateInfo) : Except Abort (Option Nat × Nat) :=
  match info.seeds[info.selectedSeedIndex]? with
  | none => .error .outOfRange
  | some seed => .ok (some seed, if info.selectedSeedIndex + 1 = info.seeds.length then 0 else info.selectedSeedIndex + 1)

def pickSeed (table : StateTable) (mode : SelectionMode) (view : QueueView) (draws : Nat → Nat) (info : StateInfo) :
    Except Abort (Option Nat × Nat) :=
  match mode with
  | .random =>
    match info.seeds[draws 0 % info.seeds.length]? with
    | none => .error .outOfRange
    | some seed => .ok (some seed, draws 0 % info.seeds.length)
  | .roundRobin => nextSeed info
  | .favor =>
    if 10 < info.seeds.length then table.passSeeds view draws info.seeds (5 * info.seeds.length + 1) 0 info.selectedSeedIndex 0
    else nextSeed info
  | .other => .ok (none, info.selectedSeedIndex)

/-- `choose_seed` for the target state: a seed if there is one, and the index for the next choice. -/
def chooseSeed (table : StateTable) (mode : SelectionMode) (view : QueueView) (draws : Nat → Nat) :
    Except Abort (Option Nat × StateTable) :=
  match table.infos table.targetStateId with
  | none => .error .noEntry
  | some info =>
    if info.seeds = [] then .ok (none, table)
    else do
      let (seed, selectedSeedIndex) ← table.pickSeed mode view draws info
      return (seed, { table with infos := Function.update table.infos table.targetStateId (some { info with selectedSeedIndex }) })

end StateTable

end Choosing

section Campaigns

/-- A seed of the corpus, and what comes of it in the dry run. No more messages are sent than it has. -/
structure DryRun where
  regionCount : Nat
  response : Response
  sent : response.bytes.length ≤ regionCount

/-- What the main loop does: a state and a seed are chosen; an input is executed; one that is kept is added to the queue, with a
region for each message sent; and `fuzz_one` ends with its seed, calibrated and not skipped. -/
inductive Event where
  | select (targetMode seedMode : SelectionMode) (draw : Nat) (view : StateTable.QueueView) (draws : Nat → Nat)
  | executed (response : Response)
  | saved (response : Response)
  | fuzzed

namespace StateTable

def calibrate (env : Env) (table : StateTable) (item : DryRun × Nat) : Except Abort StateTable :=
  let table := { table with queue := table.queue.modify item.2 fun entry => { entry with isInitialSeed := true } }
  table.updateStateAwareVariables env item.2 item.1.response true

/-- `read_testcases`, then `perform_dry_run`. -/
def setUp (env : Env) (runs : List DryRun) : Except Abort StateTable :=
  run (calibrate env) (runs.foldl (fun table dryRun => table.addToQueue dryRun.regionCount) {}) runs.zipIdx

def act (env : Env) (table : StateTable) : Event → Except Abort StateTable
  | .select targetMode seedMode draw view draws => do
    let table ← table.chooseTargetState env targetMode draw
    let table := table.count [table.targetStateId] fun info => { info with selectedTimes := info.selectedTimes + 1 }
    let (seed, table) ← table.chooseSeed seedMode view draws
    return { table with
      queueCur := seed.filter fun seed => decide (((table.queue[seed]?).map Seed.regionCount).getD 0 ≠ 0) }
  | .executed response => table.updateFuzzs env response
  | .saved response =>
    (table.addToQueue response.bytes.length).updateStateAwareVariables env table.queue.length response false
  | .fuzzed =>
    match table.queueCur with
    | none => .ok table
    | some seed =>
      match table.queue[seed]? with
      | none => .error .outOfRange
      | some entry =>
        if entry.wasFuzzed then .ok table
        else
          let table := { table with queue := table.queue.set seed { entry with wasFuzzed := true } }
          table.mark (table.getStateIndex table.targetStateId) seed 1

/-- The state-aware mode: there has to be a state after the dry run. -/
def campaign (env : Env) (runs : List DryRun) (events : List Event) : Except Abort StateTable := do
  let table ← setUp env runs
  if table.stateIds = [] then .error .noStates
  else run (act env) table events

end StateTable
end Campaigns

section Soundness

namespace StateTable

/-- What holds of the variables after each step: the map has a row for each place in `state_ids`, of which the initial state has the
first, and a column for each queue entry; a seed on the list of a state is not unreachable in the row of that state; and every index
that is kept from one choice to the next is in range. -/
structure Sound (table : StateTable) : Prop where
  rows : table.rows = max 1 table.stateIds.length
  columns : table.columns = table.queue.length
  known : ∀ stateId, table.infos stateId ≠ none ↔ stateId ∈ table.stateIds
  first : table.stateIds = [] ∨ ∃ others, table.stateIds = 0 :: others ∧ 0 ∉ others
  vertex : 0 ∈ table.stateIds → 0 ∈ table.nodes
  listed : ∀ stateId ∈ table.nodes, stateId ∈ table.stateIds
  seeds : ∀ stateId info, table.infos stateId = some info →
    (∀ seed ∈ info.seeds, seed < table.queue.length ∧ table.cells (table.getStateIndex stateId) seed ≠ -1) ∧
      (info.selectedSeedIndex < info.seeds.length ∨ info.selectedSeedIndex = 0)
  selected : table.selectedStateIndex < table.stateIds.length ∨ table.selectedStateIndex = 0
  target : table.targetStateId = 0 ∨ table.targetStateId ∈ table.stateIds
  current : ∀ seed, table.queueCur = some seed → seed < table.queue.length

variable {table : StateTable}

theorem Sound.getStateIndex_lt (sound : table.Sound) {stateId : Nat} (member : stateId ∈ table.stateIds) :
    table.getStateIndex stateId < table.rows := by
  rw [sound.rows, getStateIndex]
  have inside := List.idxOf_lt_length_of_mem member
  omega

theorem Sound.row_lt (sound : table.Sound) {stateId : Nat} (found : stateId = 0 ∨ stateId ∈ table.stateIds) :
    table.getStateIndex stateId < table.rows := by
  rcases found with rfl | member
  · rcases sound.first with none_ | ⟨others, list, _⟩
    · rw [sound.rows, getStateIndex, none_]
      exact Nat.one_pos
    · exact sound.getStateIndex_lt (by rw [list]; exact List.mem_cons_self)
  · exact sound.getStateIndex_lt member

theorem addState_fields (table : StateTable) (stateId : Nat) (info : StateInfo) :
    ∃ cells, table.addState stateId info =
        { table with
          infos := Function.update table.infos stateId (some info), stateIds := table.stateIds ++ [stateId], cells
          rows := table.rows + if stateId = 0 then 0 else 1 } ∧
      ∀ i j, i < table.rows → cells i j = table.cells i j := by
  rw [addState]
  by_cases zero : stateId = 0
  · exact ⟨table.cells, by simp [zero], fun _ _ _ => rfl⟩
  · refine ⟨_, by simp only [ne_eq, zero, not_false_eq_true, if_true, expandWasFuzzedMap, if_false, Nat.add_zero]; rfl, ?_⟩
    intro i j inside
    exact if_neg (by omega)

/-- A state gets a row, whether or not it had one; only the initial state gets the first. -/
theorem Sound.addState (sound : table.Sound) {stateId : Nat} (nodes : List Nat) (zero : stateId = 0 ↔ table.stateIds = [])
    (vertex : 0 ∈ table.stateIds ++ [stateId] → 0 ∈ nodes) (listed : ∀ other ∈ nodes, other ∈ table.stateIds ++ [stateId]) :
    ∃ after, ({ table with nodes } : StateTable).addState stateId {} = after ∧ after.Sound ∧
      after.stateIds = table.stateIds ++ [stateId] ∧ after.queue = table.queue ∧ after.infos stateId = some {} := by
  obtain ⟨cells, result, same⟩ := addState_fields { table with nodes } stateId {}
  refine ⟨_, result, ⟨?_, sound.columns, ?_, ?_, vertex, listed, ?_, ?_, ?_, sound.current⟩, rfl, rfl, Function.update_self ..⟩
  · simp only [sound.rows, List.length_append, List.length_singleton]
    split
    next initial =>
      rw [zero.mp initial]
      rfl
    next other =>
      have some_ := List.length_pos_of_ne_nil fun none_ => other (zero.mpr none_)
      omega
  · intro other
    simp only
    rw [List.mem_append, List.mem_singleton, ← sound.known]
    by_cases equal : other = stateId
    · simp [equal]
    · simp [equal]
  · right
    rcases sound.first with none_ | ⟨others, list, once⟩
    · exact ⟨[], by simp [none_, zero.mpr none_], by simp⟩
    · refine ⟨others ++ [stateId], by simp [list], ?_⟩
      rw [List.mem_append, List.mem_singleton]
      rintro (before | here)
      · exact once before
      · rw [zero.mp here.symm] at list
        cases list
  · intro other info here
    simp only at here
    by_cases equal : other = stateId
    · subst equal
      rw [Function.update_self] at here
      obtain rfl := Option.some.inj here
      exact ⟨by simp, Or.inr rfl⟩
    · rw [Function.update_of_ne equal] at here
      obtain ⟨reached, index⟩ := sound.seeds other info here
      have member : other ∈ table.stateIds := (sound.known other).mp (by simp [here])
      refine ⟨fun seed on => ⟨(reached seed on).1, ?_⟩, index⟩
      have inside := sound.getStateIndex_lt member
      have before := (reached seed on).2
      simp only [getStateIndex] at inside before ⊢
      rwa [List.idxOf_append_of_mem member, same _ _ inside]
  · refine sound.selected.imp_left fun inside => ?_
    rw [List.length_append]
    exact Nat.lt_add_right _ inside
  · exact sound.target.imp_right fun member => List.mem_append_left _ member

theorem Sound.visit (sound : table.Sound) (stateId : Nat) (order : stateId = 0 ∨ table.stateIds ≠ []) :
    (table.visit stateId).Sound ∧ (table.visit stateId).stateIds ≠ [] ∧ (table.visit stateId).queue = table.queue := by
  by_cases vertex : stateId ∈ table.nodes
  · have same : table.visit stateId = table := if_pos vertex
    rw [same]
    exact ⟨sound, List.ne_nil_of_mem (sound.listed _ vertex), rfl⟩
  · have zero : stateId = 0 ↔ table.stateIds = [] := by
      constructor
      · rintro rfl
        rcases sound.first with none_ | ⟨others, list, _⟩
        · exact none_
        · exact absurd (sound.vertex (by rw [list]; exact List.mem_cons_self)) vertex
      · intro none_
        exact order.resolve_right fun some_ => some_ none_
    obtain ⟨after, result, sound', list, queue, _⟩ := sound.addState (table.nodes ++ [stateId]) zero
      (by
        simp only [List.mem_append, List.mem_singleton]
        exact Or.imp_left sound.vertex)
      (by
        intro other member
        rw [List.mem_append] at member ⊢
        exact member.imp_left (sound.listed other))
    have goes : table.visit stateId = after := by
      rw [StateTable.visit, if_neg vertex, ← result]
    rw [goes]
    exact ⟨sound', by simp [list], queue⟩

/-- All states of a sequence that begins at the initial state become vertices. -/
theorem Sound.visitSteps (sound : table.Sound) {stateSequence : List Nat} (order : stateSequence.head? = some 0 ∨ table.stateIds ≠ []) :
    (table.visitSteps stateSequence).Sound ∧ (table.visitSteps stateSequence).queue = table.queue ∧
      ((table.visitSteps stateSequence).stateIds = [] → table.stateIds = [] ∧ stateSequence.length ≤ 1) := by
  fun_induction StateTable.visitSteps table stateSequence with
  | case1 table prevStateId curStateId rest ih =>
    obtain ⟨sound', some_, queue⟩ := sound.visit prevStateId (order.imp_left fun head => by simpa using head)
    obtain ⟨sound'', some_', queue'⟩ := sound'.visit curStateId (Or.inr some_)
    obtain ⟨last, queue'', ends⟩ := ih sound'' (Or.inr some_')
    exact ⟨last, by rw [queue'', queue', queue], fun none_ => absurd (ends none_).1 some_'⟩
  | case2 short table long =>
    refine ⟨sound, rfl, fun none_ => ⟨none_, ?_⟩⟩
    match short, long with
    | [], _ => simp
    | [_], _ => simp
    | prevStateId :: curStateId :: rest, long => exact absurd rfl (long prevStateId curStateId rest)

theorem mark_ok {stateIndex seed : Nat} (row : stateIndex < table.rows) (column : seed < table.columns) (value : Int) :
    table.mark stateIndex seed value =
      .ok { table with cells := fun i j => if i = stateIndex ∧ j = seed then value else table.cells i j } := if_pos ⟨row, column⟩

/-- A cell may become anything but unreachable. -/
theorem Sound.marked (sound : table.Sound) (stateIndex seed : Nat) (value : Int) (reachable : value ≠ -1) :
    ({ table with cells := fun i j => if i = stateIndex ∧ j = seed then value else table.cells i j } : StateTable).Sound := by
  refine { sound with seeds := fun other info here => ?_ }
  obtain ⟨reached, index⟩ := sound.seeds other info here
  refine ⟨fun on listed => ⟨(reached on listed).1, ?_⟩, index⟩
  simp only
  split
  · exact reachable
  · exact (reached on listed).2

theorem Sound.setInfo (sound : table.Sound) {stateId : Nat} {old info : StateInfo} (here : table.infos stateId = some old)
    (reached : ∀ seed ∈ info.seeds, seed < table.queue.length ∧ table.cells (table.getStateIndex stateId) seed ≠ -1)
    (index : info.selectedSeedIndex < info.seeds.length ∨ info.selectedSeedIndex = 0) :
    ({ table with infos := Function.update table.infos stateId (some info) } : StateTable).Sound := by
  refine { sound with known := fun other => ?_, seeds := fun other found there => ?_ }
  · rw [← sound.known]
    by_cases equal : other = stateId
    · simp [equal, here]
    · simp [equal]
  · simp only at there
    by_cases equal : other = stateId
    · subst equal
      rw [Function.update_self] at there
      obtain rfl := Option.some.inj there
      exact ⟨reached, index⟩
    · rw [Function.update_of_ne equal] at there
      exact sound.seeds other found there

/-- A seed is listed for a state and its cell is written. -/
theorem Sound.listSeed (sound : table.Sound) {stateId seed : Nat} {info : StateInfo} (here : table.infos stateId = some info)
    (inside : seed < table.queue.length) :
    ({ table with
      infos := Function.update table.infos stateId (some { info with seeds := info.seeds ++ [seed] })
      cells := fun i j => if i = table.getStateIndex stateId ∧ j = seed then 0 else table.cells i j } : StateTable).Sound := by
  obtain ⟨reached, index⟩ := sound.seeds stateId info here
  have sound' := sound.marked (table.getStateIndex stateId) seed 0 (by decide)
  refine sound'.setInfo here ?_ ?_
  · intro other listed
    rcases List.mem_append.mp listed with before | new
    · exact ((sound'.seeds stateId info here).1 other before)
    · obtain rfl := List.mem_singleton.mp new
      exact ⟨inside, by simp [getStateIndex]⟩
  · refine index.imp_left fun below => ?_
    rw [List.length_append]
    exact Nat.lt_add_right _ below

theorem Sound.reach (sound : table.Sound) {seed : Nat} (inside : seed < table.queue.length) (some_ : table.stateIds ≠ [])
    (stateSequence : List Nat) :
    ∃ after, reach seed table stateSequence = .ok after ∧ after.Sound ∧ after.stateIds ≠ [] ∧ after.queue = table.queue := by
  rw [StateTable.reach]
  cases stateSequence.getLast? with
  | none => exact ⟨table, rfl, sound, some_, rfl⟩
  | some stateId =>
    simp only
    cases here : table.infos stateId with
    | some info =>
      have member : stateId ∈ table.stateIds := (sound.known stateId).mp (by simp [here])
      refine ⟨_, mark_ok ?_ ?_ 0, sound.listSeed here inside, some_, rfl⟩
      · exact sound.getStateIndex_lt member
      · rw [sound.columns]
        exact inside
    | none =>
      have outside : stateId ∉ table.stateIds := fun member => (sound.known stateId).mpr member here
      have zero : stateId = 0 ↔ table.stateIds = [] := by
        refine ⟨?_, fun none_ => absurd none_ some_⟩
        rintro rfl
        rcases sound.first with none_ | ⟨others, list, _⟩
        · exact none_
        · exact absurd (by rw [list]; exact List.mem_cons_self) outside
      obtain ⟨after, result, sound', list, queue, new⟩ := sound.addState table.nodes zero
        (by
          rw [List.mem_append, List.mem_singleton]
          rintro (before | rfl)
          · exact sound.vertex before
          · exact absurd (zero.mp rfl) some_)
        (fun other member => List.mem_append_left _ (sound.listed other member))
      have added : table.addState stateId { seeds := [seed] } =
          { after with infos := Function.update after.infos stateId (some { seeds := [seed] }) } := by
        rw [← result, StateTable.addState, StateTable.addState]
        split <;> simp [expandWasFuzzedMap]
      have member : stateId ∈ after.stateIds := by simp [list]
      simp only [added]
      rw [← queue] at inside
      refine ⟨_, mark_ok ?_ ?_ 0, sound'.listSeed new inside, List.ne_nil_of_mem member, queue⟩
      · exact sound'.getStateIndex_lt member
      · rw [sound'.columns]
        exact inside

theorem Sound.count (sound : table.Sound) (stateSequence : List Nat) (add : StateInfo → StateInfo)
    (same : ∀ info, (add info).seeds = info.seeds ∧ (add info).selectedSeedIndex = info.selectedSeedIndex) :
    (table.count stateSequence add).Sound := by
  refine { sound with known := fun stateId => ?_, seeds := fun stateId info here => ?_ }
  · refine Iff.trans ?_ (sound.known stateId)
    simp only [StateTable.count]
    split <;> simp
  · simp only [StateTable.count] at here
    split at here
    · rw [Option.map_eq_some_iff] at here
      obtain ⟨before, there, rfl⟩ := here
      rw [(same before).1, (same before).2]
      exact sound.seeds stateId before there
    · exact sound.seeds stateId info here

theorem Sound.addToQueue (sound : table.Sound) (regionCount : Nat) : (table.addToQueue regionCount).Sound := by
  have some_ : table.rows ≠ 0 := by
    rw [sound.rows]
    omega
  simp only [StateTable.addToQueue, if_pos some_]
  refine { sound with rows := ?_, columns := ?_, seeds := fun stateId info here => ?_, current := fun seed here => ?_ }
  · exact sound.rows
  · simp [expandWasFuzzedMap, sound.columns]
  · obtain ⟨reached, index⟩ := sound.seeds stateId info here
    refine ⟨fun seed listed => ?_, index⟩
    obtain ⟨inside, cell⟩ := reached seed listed
    have member : stateId ∈ table.stateIds :=
      (sound.known stateId).mp (by simpa [expandWasFuzzedMap] using Option.ne_none_iff_exists'.mpr ⟨info, here⟩)
    have row := sound.getStateIndex_lt member
    have column := sound.columns
    simp only [expandWasFuzzedMap, List.length_append, List.length_singleton]
    refine ⟨by omega, ?_⟩
    rw [if_neg]
    · exact cell
    · intro outside
      simp only [getStateIndex] at row outside
      omega
  · have before := sound.current seed here
    simp only [expandWasFuzzedMap, List.length_append, List.length_singleton]
    omega

theorem Sound.updateIpsm (sound : table.Sound) (fresh : table.stateIds = [] → table.paths = []) (stateSequence : List Nat)
    (begins : stateSequence.head? = some 0) :
    (table.updateIpsm stateSequence).Sound ∧ (table.updateIpsm stateSequence).queue = table.queue ∧
      ((table.updateIpsm stateSequence).stateIds = [] → table.stateIds = [] ∧ stateSequence.length ≤ 1) := by
  simp only [StateTable.updateIpsm, isStateSequenceInteresting]
  by_cases known : hash32 (trimmed stateSequence) 0 ∈ table.paths
  · simp only [if_pos known, Bool.false_eq_true, if_false]
    refine ⟨sound, trivial, fun none_ => ?_⟩
    rw [fresh none_] at known
    cases known
  · simp only [if_neg known, if_true]
    have sound' : ({ table with paths := hash32 (trimmed stateSequence) 0 :: table.paths } : StateTable).Sound := { sound with }
    exact sound'.visitSteps (Or.inl begins)

theorem annotate_cons {extractResponseCodes : List UInt8 → Nat → Option (List Nat)} {buf : List UInt8} {before size : Nat}
    {bytes : List Nat} {regions : List (List Nat)} (found : annotate extractResponseCodes buf before (size :: bytes) = some regions) :
    ∃ first later, regions = first :: later ∧ annotate extractResponseCodes buf size bytes = some later ∧
      (first = [] ∨ 0 < size ∧ extractResponseCodes buf size = some first) := by
  rw [annotate] at found
  split at found
  next =>
    simp only [Option.bind_eq_bind, Option.bind_some, Option.bind_eq_some_iff, Option.pure_def, Option.some.injEq] at found
    obtain ⟨later, rest, rfl⟩ := found
    exact ⟨[], later, rfl, rest, Or.inl rfl⟩
  next new =>
    simp only [Option.bind_eq_bind, Option.bind_eq_some_iff, Option.pure_def, Option.some.injEq] at found
    obtain ⟨first, extracted, later, rest, rfl⟩ := found
    exact ⟨first, later, rfl, rest, Or.inr ⟨by omega, extracted⟩⟩

theorem annotate_length {extractResponseCodes : List UInt8 → Nat → Option (List Nat)} {buf : List UInt8} {before : Nat} {bytes : List Nat}
    {regions : List (List Nat)} (found : annotate extractResponseCodes buf before bytes = some regions) : regions.length = bytes.length := by
  induction bytes generalizing before regions with
  | nil => simp [← Option.some.inj found]
  | cons size rest ih =>
    obtain ⟨first, later, rfl, found', _⟩ := annotate_cons found
    simp [ih found']

theorem annotate_none {extractResponseCodes : List UInt8 → Nat → Option (List Nat)} {buf : List UInt8} {before : Nat} {bytes : List Nat}
    (fails : annotate extractResponseCodes buf before bytes = none) : ∃ size ∈ bytes, extractResponseCodes buf size = none := by
  induction bytes generalizing before with
  | nil => cases fails
  | cons size rest ih =>
    by_cases here : extractResponseCodes buf size = none
    · exact ⟨size, List.mem_cons_self, here⟩
    · obtain ⟨states, found⟩ := Option.ne_none_iff_exists'.mp here
      cases later : annotate extractResponseCodes buf size rest with
      | none =>
        obtain ⟨other, member, none_⟩ := ih later
        exact ⟨other, List.mem_cons_of_mem size member, none_⟩
      | some regions =>
        rw [annotate, later, found] at fails
        split at fails <;> cases fails

theorem Sound.reachAll (sound : table.Sound) {seed : Nat} (inside : seed < table.queue.length) (some_ : table.stateIds ≠ [])
    (regions : List (List Nat)) :
    ∃ after, run (StateTable.reach seed) table regions = .ok after ∧ after.Sound ∧ after.stateIds ≠ [] ∧ after.queue = table.queue := by
  apply run_completes (fun _ => True) (fun after : StateTable => after.Sound ∧ after.stateIds ≠ [] ∧ after.queue = table.queue)
  · rintro before region ⟨sound', some', queue⟩ _
    obtain ⟨after, step, sound'', some'', queue'⟩ := sound'.reach (by rw [queue]; exact inside) some' region
    exact ⟨after, step, sound'', some'', queue'.trans queue⟩
  · exact ⟨sound, some_, rfl⟩
  · exact fun _ _ => trivial

theorem Sound.requeue (sound : table.Sound) (queue : List Seed) (same : queue.length = table.queue.length) :
    ({ table with queue } : StateTable).Sound := by
  refine { sound with columns := ?_, seeds := fun stateId info here => ?_, current := fun other here => ?_ }
  · simp only [same]
    exact sound.columns
  · simp only [same]
    exact sound.seeds stateId info here
  · simp only [same]
    exact sound.current other here

theorem Sound.listSeeds (sound : table.Sound) (some_ : table.stateIds ≠ []) {seed : Nat} (inside : seed < table.queue.length)
    (regions : List (List Nat)) :
    ∃ after, table.listSeeds seed regions = .ok after ∧ after.Sound ∧ after.stateIds ≠ [] ∧ after.queue = table.queue := by
  obtain ⟨others, list, _⟩ := sound.first.resolve_left some_
  have member : 0 ∈ table.stateIds := by
    rw [list]
    exact List.mem_cons_self
  obtain ⟨info, initial⟩ := Option.ne_none_iff_exists'.mp ((sound.known 0).mpr member)
  have row : table.getStateIndex 0 = 0 := by simp [getStateIndex, list]
  have listed := sound.listSeed initial inside
  rw [row] at listed
  simp only [StateTable.listSeeds, initial]
  rw [mark_ok (by simp only [sound.rows]; omega) (by simp only [sound.columns]; exact inside)]
  exact listed.reachAll inside some_ regions

theorem regionCounts_set {queue : List Seed} {seed : Nat} {entry other : Seed} (here : queue[seed]? = some entry)
    (same : other.regionCount = entry.regionCount) :
    (queue.set seed other).map Seed.regionCount = queue.map Seed.regionCount := by
  obtain ⟨inside, rfl⟩ := List.getElem?_eq_some_iff.mp here
  rw [List.map_set, same, ← List.getElem_map Seed.regionCount (h := by simpa using inside), List.set_getElem_self]

/-- What `update_state_aware_variables` comes to: it fails only where the extractor does on a part of the responses, or when no state is
known yet and the responses have none but the initial one. -/
theorem Sound.update (sound : table.Sound) (fresh : table.stateIds = [] → table.paths = []) {env : Env}
    (gradual : Gradual env.extractResponseCodes) {seed : Nat} {entry : Seed} (here : table.queue[seed]? = some entry) {response : Response}
    (sent : response.bytes.length ≤ entry.regionCount) (dryRun : Bool) :
    match table.updateStateAwareVariables env seed response dryRun with
    | .ok after => after.Sound ∧ after.queue.map Seed.regionCount = table.queue.map Seed.regionCount ∧
        (after.stateIds = [] → after = table ∧ (response.buf = [] ∨ response.bytes = []))
    | .error abort =>
      abort = .extractor ∧ (∃ bufSize ≤ response.buf.length, env.extractResponseCodes (response.buf ++ [0]) bufSize = none) ∨
        abort = .noInitialState ∧ table.stateIds = [] ∧ ¬ (response.buf = [] ∨ response.bytes = []) ∧
          env.extractResponseCodes (response.buf ++ [0]) response.buf.length = some [0] := by
  unfold updateStateAwareVariables
  by_cases silent : response.buf = [] ∨ response.bytes = []
  · rw [if_pos silent]
    exact ⟨sound, rfl, fun _ => ⟨rfl, silent⟩⟩
  · rw [if_neg silent]
    cases extracted : env.extractResponseCodes (response.buf ++ [0]) response.buf.length with
    | none =>
      simp only [extracted]
      exact Or.inl ⟨trivial, _, Nat.le_refl _, extracted⟩
    | some stateSequence =>
      have positive := List.length_pos_of_ne_nil fun none_ => silent (Or.inl none_)
      obtain ⟨codes, rfl⟩ := gradual.begins positive extracted
      obtain ⟨sound', queue, none_⟩ := sound.updateIpsm fresh (0 :: codes) rfl
      cases annotated : annotate env.extractResponseCodes (response.buf ++ [0]) 0 response.bytes with
      | none =>
        obtain ⟨bytes, member, fails⟩ := annotate_none annotated
        simp only [extracted, annotated]
        exact Or.inl ⟨trivial, bytes, response.within bytes member, fails⟩
      | some regions =>
        have enough : ¬ entry.regionCount < regions.length := by
          rw [annotate_length annotated]
          omega
        have inside : seed < table.queue.length := (List.getElem?_eq_some_iff.mp here).1
        simp only [extracted, annotated, queue, here, if_neg enough]
        generalize table.updateIpsm (0 :: codes) = middle at sound' queue none_
        by_cases empty : middle.stateIds = []
        · obtain ⟨before, short⟩ := none_ empty
          rw [List.length_cons] at short
          obtain rfl := List.eq_nil_of_length_eq_zero (show codes.length = 0 by omega)
          have unknown : middle.infos 0 = none := by
            by_contra known
            have member := (sound'.known 0).mp known
            rw [empty] at member
            cases member
          simp only [StateTable.listSeeds, unknown]
          exact Or.inr ⟨rfl, before, silent, trivial⟩
        · rw [← queue] at inside
          let entry' := { entry with regions, uniqueStateCount := (0 :: codes).dedup.length }
          obtain ⟨after, result, sound'', some_, queue'⟩ := (sound'.requeue (middle.queue.set seed entry') List.length_set).listSeeds empty
            (by simpa using inside) regions
          have paths := sound''.count (0 :: codes) (fun info => { info with paths := info.paths + 1 }) fun _ => ⟨rfl, rfl⟩
          have kept : after.queue.map Seed.regionCount = middle.queue.map Seed.regionCount := by
            have there : middle.queue[seed]? = some entry := queue ▸ here
            rw [queue']
            exact regionCounts_set there (show entry'.regionCount = entry.regionCount from rfl)
          simp only [← queue, entry'] at result ⊢
          rw [result]
          cases dryRun with
          | true => exact ⟨paths, kept, fun none_ => absurd none_ some_⟩
          | false => exact ⟨paths.count _ _ fun _ => ⟨rfl, rfl⟩, kept, fun none_ => absurd none_ some_⟩

theorem length_runningSums (scores : List Nat) : (runningSums scores).length = scores.length := by simp [runningSums]

theorem foldl_wrap (start : Nat) (scores : List Nat) :
    scores.foldl (fun sum score => wrap (sum + score)) (wrap start) = wrap (start + scores.sum) := by
  induction scores generalizing start with
  | nil => simp
  | cons score scores ih =>
    rw [List.foldl_cons, List.sum_cons, ← Nat.add_assoc, ← ih]
    congr 1
    simp only [wrap]
    omega

theorem getElem?_runningSums {scores : List Nat} {i : Nat} (inside : i < scores.length) :
    (runningSums scores)[i]? = some (wrap (scores.take (i + 1)).sum) := by
  rw [runningSums, List.getElem?_tail, List.getElem?_scanl, if_pos (by omega)]
  have sums := foldl_wrap 0 (scores.take (i + 1))
  rw [Nat.zero_add] at sums
  rw [← sums]
  rfl

theorem total_runningSums (scores : List Nat) : (runningSums scores).getLastD 0 = wrap scores.sum := by
  rw [List.getLastD_eq_getLast?, List.getLast?_eq_getElem?, length_runningSums]
  cases scores with
  | nil => rfl
  | cons score scores =>
    rw [getElem?_runningSums (by simp)]
    simp

theorem indexSearch_lt {values : List Nat} {val : Nat} (small : val < values.getLastD 0) : indexSearch values val < values.length := by
  rw [indexSearch, List.findIdx_lt_length]
  cases last : values.getLast? with
  | none =>
    rw [List.getLastD_eq_getLast?, last] at small
    cases small
  | some value =>
    rw [List.getLastD_eq_getLast?, last] at small
    exact ⟨value, List.mem_of_getLast? last, by simpa using Nat.le_of_lt small⟩

/-- A draw by scores fails only when the scores sum up to nothing. -/
theorem drawByScore_spec {candidates scores : List Nat} (length : scores.length = candidates.length) (draw : Nat) :
    match drawByScore candidates scores draw with
    | .ok candidate => candidate ∈ candidates
    | .error abort => abort = .divisionByZero ∧ scores.sum % 2 ^ 32 = 0 := by
  have total := total_runningSums scores
  have sums := length_runningSums scores
  simp only [drawByScore]
  generalize runningSums scores = values at total sums
  by_cases zero : values.getLastD 0 = 0
  · rw [if_pos zero]
    exact ⟨rfl, total.symm.trans zero⟩
  · rw [if_neg zero]
    have inside := indexSearch_lt (Nat.mod_lt draw (Nat.pos_of_ne_zero zero))
    rw [sums, length] at inside
    rw [List.getElem?_eq_getElem inside]
    exact List.getElem_mem inside

theorem updateScores_spec (env : Env) (some_ : table.stateIds ≠ []) (draw : Nat) :
    match table.updateScoresAndSelectNextState env draw with
    | .ok stateId => stateId ∈ table.stateIds
    | .error abort => abort = .divisionByZero ∧ (table.stateIds.map (table.scoreOf env)).sum % 2 ^ 32 = 0 := by
  rw [updateScoresAndSelectNextState, if_neg some_]
  exact drawByScore_spec (List.length_map _) draw

theorem Sound.nextState (sound : table.Sound) (some_ : table.stateIds ≠ []) :
    ∃ stateId next, table.nextState = .ok (stateId, next) ∧ stateId ∈ table.stateIds ∧ next < table.stateIds.length := by
  have positive := List.length_pos_of_ne_nil some_
  have inside : table.selectedStateIndex < table.stateIds.length := by
    rcases sound.selected with inside | zero
    · exact inside
    · omega
  rw [StateTable.nextState, List.getElem?_eq_getElem inside]
  refine ⟨_, _, rfl, List.getElem_mem inside, ?_⟩
  split <;> omega

theorem Sound.retarget (sound : table.Sound) {targetStateId selectedStateIndex : Nat} (member : targetStateId ∈ table.stateIds)
    (index : selectedStateIndex < table.stateIds.length ∨ selectedStateIndex = 0) (stateCycles : Nat) :
    ({ table with targetStateId, selectedStateIndex, stateCycles } : StateTable).Sound :=
  { sound with selected := index, target := Or.inr member }

theorem Sound.chooseTargetState (sound : table.Sound) (some_ : table.stateIds ≠ []) (env : Env) (mode : SelectionMode) (draw : Nat) :
    match table.chooseTargetState env mode draw with
    | .ok after => after.Sound ∧ after.targetStateId ∈ after.stateIds ∧ after.graph = table.graph
    | .error abort => abort = .divisionByZero ∧ (table.stateIds.map (table.scoreOf env)).sum % 2 ^ 32 = 0 := by
  obtain ⟨stateId, next, goes, member, below⟩ := sound.nextState some_
  cases mode with
  | random =>
    have inside := Nat.mod_lt draw (List.length_pos_of_ne_nil some_)
    simp only [StateTable.chooseTargetState, if_neg some_, List.getElem?_eq_getElem inside]
    exact ⟨sound.retarget (List.getElem_mem inside) (Or.inl inside) _, List.getElem_mem inside, rfl⟩
  | roundRobin =>
    simp only [StateTable.chooseTargetState, goes]
    exact ⟨sound.retarget member (Or.inl below) _, member, rfl⟩
  | favor =>
    by_cases early : table.stateCycles < 5
    · simp only [StateTable.chooseTargetState, if_pos early, goes]
      exact ⟨sound.retarget member (Or.inl below) _, member, rfl⟩
    · have chosen := updateScores_spec env some_ draw
      simp only [StateTable.chooseTargetState, if_neg early]
      cases result : table.updateScoresAndSelectNextState env draw with
      | error abort =>
        rw [result] at chosen
        exact chosen
      | ok targetStateId =>
        rw [result] at chosen
        exact ⟨sound.retarget chosen sound.selected _, chosen, rfl⟩
  | other =>
    obtain ⟨others, list, _⟩ := sound.first.resolve_left some_
    have initial : 0 ∈ table.stateIds := list ▸ List.mem_cons_self
    exact ⟨sound.retarget initial sound.selected _, initial, rfl⟩

/-- Every pass looks at all seeds that are left of it; after five the loop ends. With no favored entry pending, it is never a
favored seed that ends it before. -/
theorem passSeeds_spec (view : QueueView) (draws : Nat → Nat) {seeds : List Nat}
    (listed : ∀ seed ∈ seeds, seed < table.queue.length ∧ seed < table.columns)
    (row : table.getStateIndex table.targetStateId < table.rows) (fuel drawn index passes : Nat) (inside : index < seeds.length)
    (passing : passes < 5) (enough : (5 - passes) * seeds.length < fuel + index) :
    ∃ seed next, table.passSeeds view draws seeds fuel drawn index passes = .ok (some seed, next) ∧ seed ∈ seeds ∧ next < seeds.length ∧
      (view.pendingFavored = false →
        view.favored seed = false ∧ 10 < table.queue.length ∨ next = 0 ∧ seeds.getLast? = some seed) := by
  induction fuel generalizing drawn index passes with
  | zero =>
    obtain ⟨left, more⟩ : ∃ left, 5 - passes = left + 1 := ⟨4 - passes, by omega⟩
    rw [more, Nat.succ_mul] at enough
    omega
  | succ fuel ih =>
    have member := List.getElem_mem inside
    obtain ⟨known, column⟩ := listed _ member
    -- What the turn decides, and the place the loop goes on at.
    obtain ⟨taken, drawn', decided, honest⟩ : ∃ taken drawn', table.weigh view draws drawn seeds[index] = .ok (taken, drawn') ∧
        (taken = true → view.pendingFavored = false → view.favored seeds[index] = false ∧ 10 < table.queue.length) := by
      rw [weigh, List.getElem?_eq_getElem known]
      simp only
      split
      next => exact ⟨_, _, rfl, nofun⟩
      next =>
        rw [if_neg (not_not.mpr ⟨row, column⟩)]
        split
        next pending =>
          split
          next => exact ⟨_, _, rfl, fun _ none_ => absurd pending (by simp [none_])⟩
          next => exact ⟨_, _, rfl, fun _ none_ => absurd pending (by simp [none_])⟩
        next =>
          split
          next apart => exact ⟨_, _, rfl, fun _ _ => ⟨by simpa using apart.1, apart.2⟩⟩
          next => exact ⟨_, _, rfl, nofun⟩
    rw [passSeeds, List.getElem?_eq_getElem inside]
    simp only [decided]
    by_cases last : index + 1 = seeds.length
    · have tail : seeds.getLast? = some seeds[index] := by
        rw [List.getLast?_eq_getElem?, show seeds.length - 1 = index by omega, List.getElem?_eq_getElem inside]
      simp only [if_pos last, bind, Except.bind]
      by_cases ends : taken = true ∨ 5 ≤ passes + 1
      · refine ⟨_, _, if_pos ends, member, by omega, fun _ => Or.inr ⟨rfl, tail⟩⟩
      · obtain ⟨left, more⟩ : ∃ left, 5 - passes = left + 1 := ⟨4 - passes, by omega⟩
        rw [more, Nat.succ_mul] at enough
        rw [if_neg ends]
        apply ih drawn' 0 (passes + 1) (by omega) (by omega)
        rw [show 5 - (passes + 1) = left by omega]
        omega
    · simp only [if_neg last, bind, Except.bind]
      by_cases ends : taken = true ∨ 5 ≤ passes
      · refine ⟨_, _, if_pos ends, member, by omega, fun none_ => Or.inl (honest (ends.resolve_right (by omega)) none_)⟩
      · rw [if_neg ends]
        exact ih drawn' (index + 1) passes (by omega) passing (by omega)

/-- What the switch takes is a seed of the list, and it leaves an index into the list. -/
theorem Sound.pickSeed (sound : table.Sound) (member : table.targetStateId ∈ table.stateIds) {info : StateInfo}
    (here : table.infos table.targetStateId = some info) (some_ : info.seeds ≠ []) (mode : SelectionMode) (view : QueueView)
    (draws : Nat → Nat) :
    ∃ seed next, table.pickSeed mode view draws info = .ok (seed, next) ∧ (∀ q ∈ seed, q ∈ info.seeds) ∧ next < info.seeds.length := by
  obtain ⟨reached, index⟩ := sound.seeds _ info here
  have positive := List.length_pos_of_ne_nil some_
  have inside : info.selectedSeedIndex < info.seeds.length := by
    rcases index with inside | zero
    · exact inside
    · omega
  have one {seed next : Nat} (listed : seed ∈ info.seeds) (below : next < info.seeds.length) :
      (∀ q ∈ some seed, q ∈ info.seeds) ∧ next < info.seeds.length :=
    ⟨fun q taken => Option.mem_some.mp taken ▸ listed, below⟩
  have round : ∃ seed next, nextSeed info = .ok (seed, next) ∧ (∀ q ∈ seed, q ∈ info.seeds) ∧ next < info.seeds.length := by
    rw [nextSeed, List.getElem?_eq_getElem inside]
    refine ⟨_, _, rfl, one (List.getElem_mem inside) ?_⟩
    split <;> omega
  cases mode with
  | random =>
    have drawn := Nat.mod_lt (draws 0) positive
    simp only [StateTable.pickSeed, List.getElem?_eq_getElem drawn]
    exact ⟨_, _, rfl, one (List.getElem_mem drawn) drawn⟩
  | roundRobin => exact round
  | favor =>
    by_cases many : 10 < info.seeds.length
    · obtain ⟨seed, next, goes, listed, below, _⟩ := passSeeds_spec view draws
        (fun seed listed => ⟨(reached seed listed).1, sound.columns ▸ (reached seed listed).1⟩) (sound.getStateIndex_lt member)
        (5 * info.seeds.length + 1) 0 info.selectedSeedIndex 0 inside (by omega) (by omega)
      exact ⟨seed, next, by simp only [StateTable.pickSeed, if_pos many, goes], one listed below⟩
    · obtain ⟨seed, next, goes, listed, below⟩ := round
      exact ⟨seed, next, by simp only [StateTable.pickSeed, if_neg many, goes], listed, below⟩
  | other => exact ⟨none, _, rfl, nofun, inside⟩

theorem Sound.chooseSeed (sound : table.Sound) (member : table.targetStateId ∈ table.stateIds) (mode : SelectionMode) (view : QueueView)
    (draws : Nat → Nat) :
    ∃ seed after, table.chooseSeed mode view draws = .ok (seed, after) ∧ after.Sound ∧ after.graph = table.graph ∧
      after.queue = table.queue ∧ ∀ q, seed = some q → q < table.queue.length := by
  obtain ⟨info, here⟩ := Option.ne_none_iff_exists'.mp ((sound.known _).mpr member)
  obtain ⟨reached, index⟩ := sound.seeds _ info here
  by_cases none_ : info.seeds = []
  · exact ⟨none, table, by simp only [StateTable.chooseSeed, here, if_pos none_], sound, rfl, rfl, nofun⟩
  · obtain ⟨seed, next, goes, listed, below⟩ := sound.pickSeed member here none_ mode view draws
    simp only [StateTable.chooseSeed, here, if_neg none_, goes]
    exact ⟨_, _, rfl, sound.setInfo here reached (Or.inl below), rfl, rfl, fun q taken => (reached q (listed q taken)).1⟩

theorem Sound.select (sound : table.Sound) (some_ : table.stateIds ≠ []) (env : Env) (targetMode seedMode : SelectionMode) (draw : Nat)
    (view : QueueView) (draws : Nat → Nat) :
    match act env table (.select targetMode seedMode draw view draws) with
    | .ok after => after.Sound ∧ after.stateIds ≠ []
    | .error abort => abort = .divisionByZero ∧ (table.stateIds.map (table.scoreOf env)).sum % 2 ^ 32 = 0 := by
  have targeted := sound.chooseTargetState some_ env targetMode draw
  simp only [StateTable.act]
  cases result : table.chooseTargetState env targetMode draw with
  | error abort =>
    rw [result] at targeted
    exact targeted
  | ok after =>
    rw [result] at targeted
    obtain ⟨sound', member, _⟩ := targeted
    have counted :=
      sound'.count [after.targetStateId] (fun info => { info with selectedTimes := info.selectedTimes + 1 }) fun _ => ⟨rfl, rfl⟩
    obtain ⟨seed, last, chosen, sound'', graph, queue, known⟩ := counted.chooseSeed member seedMode view draws
    simp only [bind, Except.bind, chosen, pure, Except.pure]
    refine ⟨{ sound'' with current := fun q here => ?_ }, ?_⟩
    · rw [queue]
      exact known q (Option.filter_eq_some_iff.mp here).1
    · have same : last.stateIds = after.stateIds := congrArg (fun graph => graph.2.1) graph
      simp only [same]
      exact List.ne_nil_of_mem member

theorem Sound.saved (sound : table.Sound) (some_ : table.stateIds ≠ []) {env : Env} (gradual : Gradual env.extractResponseCodes)
    (response : Response) :
    match act env table (.saved response) with
    | .ok after => after.Sound ∧ after.stateIds ≠ []
    | .error abort =>
      abort = .extractor ∧ ∃ bufSize ≤ response.buf.length, env.extractResponseCodes (response.buf ++ [0]) bufSize = none := by
  have added := sound.addToQueue response.bytes.length
  have list : (table.addToQueue response.bytes.length).stateIds = table.stateIds := by
    simp only [StateTable.addToQueue]
    split <;> rfl
  have here : (table.addToQueue response.bytes.length).queue[table.queue.length]? =
      some { regionCount := response.bytes.length, generatingStateId := table.targetStateId } := by
    simp only [StateTable.addToQueue]
    split <;> simp [expandWasFuzzedMap]
  have updated := added.update (fun none_ => absurd (list ▸ none_) some_) gradual here (Nat.le_refl _) false
  simp only [StateTable.act]
  cases result : (table.addToQueue response.bytes.length).updateStateAwareVariables env table.queue.length response false with
  | error abort =>
    rw [result] at updated
    rcases updated with failed | ⟨_, none_, _⟩
    · exact failed
    · exact absurd (list ▸ none_) some_
  | ok after =>
    rw [result] at updated
    refine ⟨updated.1, fun none_ => ?_⟩
    obtain ⟨same, _⟩ := updated.2.2 none_
    rw [same, list] at none_
    exact some_ none_

theorem Sound.fuzzed (sound : table.Sound) (env : Env) :
    ∃ after, act env table .fuzzed = .ok after ∧ after.Sound ∧ after.stateIds = table.stateIds := by
  simp only [StateTable.act]
  cases here : table.queueCur with
  | none => exact ⟨table, rfl, sound, rfl⟩
  | some seed =>
    have inside := sound.current seed here
    simp only [List.getElem?_eq_getElem inside]
    by_cases fuzzed : table.queue[seed].wasFuzzed
    · rw [if_pos fuzzed]
      exact ⟨table, rfl, sound, rfl⟩
    · rw [if_neg fuzzed]
      have sound' := sound.requeue (table.queue.set seed { table.queue[seed] with wasFuzzed := true }) List.length_set
      rw [here] at sound'
      have column : seed < (table.queue.set seed { table.queue[seed] with wasFuzzed := true }).length := by simpa using inside
      rw [mark_ok (sound'.row_lt sound'.target) (by rw [sound'.columns]; exact column)]
      exact ⟨_, rfl, sound'.marked (table.getStateIndex table.targetStateId) seed 1 (by decide), rfl⟩

/-- After the dry run there is a state, and no step fails but for the extractor and for scores that come to nothing. -/
theorem Sound.act (sound : table.Sound) (some_ : table.stateIds ≠ []) {env : Env} (gradual : Gradual env.extractResponseCodes) (event : Event) :
    match act env table event with
    | .ok after => after.Sound ∧ after.stateIds ≠ []
    | .error abort =>
      abort = .extractor ∧ (∃ response : Response, ∃ bufSize ≤ response.buf.length,
        env.extractResponseCodes (response.buf ++ [0]) bufSize = none) ∨
      abort = .divisionByZero ∧ (table.stateIds.map (table.scoreOf env)).sum % 2 ^ 32 = 0 := by
  cases event with
  | select targetMode seedMode draw view draws =>
    have selected := sound.select some_ env targetMode seedMode draw view draws
    cases result : StateTable.act env table (.select targetMode seedMode draw view draws) with
    | error abort =>
      rw [result] at selected
      exact Or.inr selected
    | ok after =>
      rw [result] at selected
      exact selected
  | executed response =>
    simp only [StateTable.act, updateFuzzs]
    cases extracted : env.extractResponseCodes (response.buf ++ [0]) response.buf.length with
    | none => exact Or.inl ⟨rfl, response, _, Nat.le_refl _, extracted⟩
    | some stateSequence => exact ⟨sound.count _ _ fun _ => ⟨rfl, rfl⟩, some_⟩
  | saved response =>
    have saved := sound.saved some_ gradual response
    cases result : StateTable.act env table (.saved response) with
    | error abort =>
      rw [result] at saved
      exact Or.inl ⟨saved.1, response, saved.2⟩
    | ok after =>
      rw [result] at saved
      exact saved
  | fuzzed =>
    obtain ⟨after, acted, sound', same⟩ := sound.fuzzed env
    rw [acted]
    exact ⟨sound', same ▸ some_⟩

theorem setUp_queue (sound : table.Sound) (runs : List DryRun) :
    ∃ after, runs.foldl (fun table dryRun => table.addToQueue dryRun.regionCount) table = after ∧ after.Sound ∧
      after.graph = table.graph ∧ after.queue.map Seed.regionCount = table.queue.map Seed.regionCount ++ runs.map DryRun.regionCount := by
  induction runs generalizing table with
  | nil => exact ⟨table, rfl, sound, rfl, by simp⟩
  | cons dryRun runs ih =>
    obtain ⟨after, added, sound', graph, queue⟩ := ih (sound.addToQueue dryRun.regionCount)
    have same : (table.addToQueue dryRun.regionCount).graph = table.graph ∧
        (table.addToQueue dryRun.regionCount).queue.map Seed.regionCount = table.queue.map Seed.regionCount ++ [dryRun.regionCount] := by
      simp only [StateTable.addToQueue]
      split <;> simp [expandWasFuzzedMap, StateTable.graph]
    exact ⟨after, added, sound', graph.trans same.1, by rw [queue, same.2]; simp⟩

/-- The map has no row before the first entry is added to the queue. -/
theorem addToQueue_first (regionCount : Nat) : (({} : StateTable).addToQueue regionCount).Sound := by
  simp only [StateTable.addToQueue, expandWasFuzzedMap]
  constructor
  all_goals simp

theorem map_modify_initial (queue : List Seed) (seed : Nat) :
    (queue.modify seed fun entry => { entry with isInitialSeed := true }).map Seed.regionCount = queue.map Seed.regionCount := by
  apply List.ext_getElem?
  intro i
  simp only [List.getElem?_map, List.getElem?_modify]
  cases queue[i]? with
  | none => rfl
  | some entry =>
    simp only [Option.map_eq_map, Option.map_some]
    split <;> rfl

/-- The dry run of the seeds that are left, when those before it found no state or found one. -/
theorem calibrate_all {env : Env} (gradual : Gradual env.extractResponseCodes) (before rest : List DryRun) (sound : table.Sound)
    (queue : table.queue.map Seed.regionCount = (before ++ rest).map DryRun.regionCount)
    (fresh : table.stateIds = [] → table.paths = [] ∧ ∀ dryRun ∈ before, dryRun.response.buf = [] ∨ dryRun.response.bytes = []) :
    match run (calibrate env) table (rest.zipIdx before.length) with
    | .ok after => after.Sound ∧
        (after.stateIds = [] → ∀ dryRun ∈ before ++ rest, dryRun.response.buf = [] ∨ dryRun.response.bytes = [])
    | .error abort =>
      abort = .extractor ∧ (∃ response : Response, ∃ bufSize ≤ response.buf.length,
        env.extractResponseCodes (response.buf ++ [0]) bufSize = none) ∨
      abort = .noInitialState ∧ ∃ silent dryRun later, before ++ rest = silent ++ dryRun :: later ∧
        (∀ other ∈ silent, other.response.buf = [] ∨ other.response.bytes = []) ∧
        ¬ (dryRun.response.buf = [] ∨ dryRun.response.bytes = []) ∧
        env.extractResponseCodes (dryRun.response.buf ++ [0]) dryRun.response.buf.length = some [0] := by
  induction rest generalizing table before with
  | nil => exact ⟨sound, fun none_ => by simpa using (fresh none_).2⟩
  | cons dryRun rest ih =>
    have inside : before.length < table.queue.length := by
      have same := congrArg List.length queue
      simp only [List.length_map, List.length_append, List.length_cons] at same
      omega
    have regions : table.queue[before.length].regionCount = dryRun.regionCount := by
      have same := congrArg (·[before.length]?) queue
      simpa [List.getElem?_map, List.getElem?_append, inside] using same
    have sound' := sound.requeue (table.queue.modify before.length fun entry => { entry with isInitialSeed := true })
      (List.length_modify ..)
    have here : (table.queue.modify before.length fun entry => { entry with isInitialSeed := true })[before.length]? =
        some { table.queue[before.length] with isInitialSeed := true } := by simp [inside]
    have updated := sound'.update (fun none_ => (fresh none_).1) gradual here (by simpa only [regions] using dryRun.sent) true
    rw [map_modify_initial] at updated
    rw [List.zipIdx_cons, run, calibrate]
    simp only at updated ⊢
    cases result : ({ table with queue := table.queue.modify before.length fun entry => { entry with isInitialSeed := true } } :
        StateTable).updateStateAwareVariables env before.length dryRun.response true with
    | error abort =>
      rw [result] at updated
      rcases updated with ⟨failed, size⟩ | ⟨failed, none_, answered, initial⟩
      · exact Or.inl ⟨failed, dryRun.response, size⟩
      · exact Or.inr ⟨failed, before, dryRun, rest, rfl, (fresh none_).2, answered, initial⟩
    | ok after =>
      rw [result] at updated
      obtain ⟨sound'', queue', none_⟩ := updated
      have step := ih (before ++ [dryRun]) sound'' (by simp [queue', queue]) fun empty => by
        obtain ⟨rfl, silent⟩ := none_ empty
        obtain ⟨paths, earlier⟩ := fresh empty
        refine ⟨paths, fun other member => ?_⟩
        rcases List.mem_append.mp member with old | new
        · exact earlier other old
        · rw [List.mem_singleton.mp new]
          exact silent
      simpa only [List.append_assoc, List.singleton_append, List.length_append, List.length_singleton] using step

/-- How the dry run ends. -/
theorem setUp_spec {env : Env} (gradual : Gradual env.extractResponseCodes) (runs : List DryRun) :
    match setUp env runs with
    | .ok after => (after.stateIds ≠ [] → after.Sound) ∧
        (after.stateIds = [] → ∀ dryRun ∈ runs, dryRun.response.buf = [] ∨ dryRun.response.bytes = [])
    | .error abort =>
      abort = .extractor ∧ (∃ response : Response, ∃ bufSize ≤ response.buf.length,
        env.extractResponseCodes (response.buf ++ [0]) bufSize = none) ∨
      abort = .noInitialState ∧ ∃ silent dryRun later, runs = silent ++ dryRun :: later ∧
        (∀ other ∈ silent, other.response.buf = [] ∨ other.response.bytes = []) ∧
        ¬ (dryRun.response.buf = [] ∨ dryRun.response.bytes = []) ∧
        env.extractResponseCodes (dryRun.response.buf ++ [0]) dryRun.response.buf.length = some [0] := by
  cases runs with
  | nil => exact ⟨fun some_ => absurd rfl some_, fun _ => by simp⟩
  | cons dryRun runs =>
    obtain ⟨table, added, sound, graph, queue⟩ := setUp_queue (addToQueue_first dryRun.regionCount) runs
    have bare : table.stateIds = [] ∧ table.paths = [] := by
      simp only [StateTable.graph, Prod.mk.injEq] at graph
      exact ⟨graph.2.1, graph.2.2⟩
    have ends := calibrate_all gradual [] (dryRun :: runs) sound (by simp [queue, StateTable.addToQueue, expandWasFuzzedMap])
      fun _ => ⟨bare.2, by simp⟩
    simp only [setUp, List.foldl_cons, added]
    simp only [List.length_nil, List.nil_append] at ends
    cases result : run (calibrate env) table ((dryRun :: runs).zipIdx 0) with
    | ok after =>
      rw [result] at ends
      exact ⟨fun _ => ends.1, ends.2⟩
    | error abort =>
      rw [result] at ends
      exact ends

/-- Every step of the main loop after the dry run. -/
theorem events_kept {env : Env} (gradual : Gradual env.extractResponseCodes) {events : List Event} {after : StateTable}
    (sound : table.Sound) (some_ : table.stateIds ≠ []) (ran : run (act env) table events = .ok after) :
    after.Sound ∧ after.stateIds ≠ [] := by
  refine run_invariant (fun table : StateTable => table.Sound ∧ table.stateIds ≠ []) ?_ ⟨sound, some_⟩ ran
  intro before event after kept acted
  have result := kept.1.act kept.2 gradual event
  rwa [acted] at result

theorem campaign_sound {env : Env} (gradual : Gradual env.extractResponseCodes) {runs : List DryRun} {events : List Event}
    (ran : campaign env runs events = .ok table) : table.Sound ∧ table.stateIds ≠ [] := by
  have started := setUp_spec gradual runs
  obtain ⟨start, set, rest⟩ := bind_ok ran
  rw [set] at started
  split at rest
  · cases rest
  · next some_ => exact events_kept gradual (started.1 some_) some_ rest

/-- No campaign reaches past the variables, for a state without an entry, or never ends choosing a seed. It ends in an error only where
no seed of the corpus is answered, where the first answer shows no state but the initial one, where the scores sum up to nothing, or in
one of the two extractors that may fail. -/
theorem campaign_safe {env : Env} (steady : env.extractResponseCodes ∈ steadyExtractors) (runs : List DryRun) (events : List Event) :
    match campaign env runs events with
    | .ok table => table.Sound ∧ table.stateIds ≠ []
    | .error .noStates => ∀ dryRun ∈ runs, dryRun.response.buf = [] ∨ dryRun.response.bytes = []
    | .error .noInitialState => ∃ silent dryRun later, runs = silent ++ dryRun :: later ∧
        (∀ other ∈ silent, other.response.buf = [] ∨ other.response.bytes = []) ∧
        ¬ (dryRun.response.buf = [] ∨ dryRun.response.bytes = []) ∧
        env.extractResponseCodes (dryRun.response.buf ++ [0]) dryRun.response.buf.length = some [0]
    | .error .divisionByZero => ∃ first rest table, events = first ++ rest ∧ campaign env runs first = .ok table ∧
        (table.stateIds.map (table.scoreOf env)).sum % 2 ^ 32 = 0
    | .error .extractor => env.extractResponseCodes = extractResponseCodesIpp ∨ env.extractResponseCodes = extractResponseCodesDtls12
    | .error _ => False := by
  have gradual := steadyExtractors_gradual steady
  have fails (response : Response) (bufSize : Nat) (within : bufSize ≤ response.buf.length)
      (failed : env.extractResponseCodes (response.buf ++ [0]) bufSize = none) :
      env.extractResponseCodes = extractResponseCodesIpp ∨ env.extractResponseCodes = extractResponseCodesDtls12 := by
    rcases steadyExtractors_returns steady with ipp | dtls | returns
    · exact Or.inl ipp
    · exact Or.inr dtls
    · obtain ⟨states, found⟩ := returns (response.buf ++ [0]) bufSize (by rw [List.length_append]; omega)
      rw [failed] at found
      cases found
  have started := setUp_spec gradual runs
  unfold campaign
  cases set : setUp env runs with
  | error abort =>
    rw [set] at started
    rcases started with ⟨rfl, response, bufSize, within, failed⟩ | ⟨rfl, initial⟩
    · exact fails response bufSize within failed
    · exact initial
  | ok table =>
    rw [set] at started
    simp only [bind, Except.bind]
    by_cases none_ : table.stateIds = []
    · rw [if_pos none_]
      exact started.2 none_
    · rw [if_neg none_]
      cases ran : run (act env) table events with
      | ok after => exact events_kept gradual (started.1 none_) none_ ran
      | error abort =>
        obtain ⟨first, event, rest, reached, rfl, executed, failed⟩ := run_error ran
        obtain ⟨sound, some_⟩ := events_kept gradual (started.1 none_) none_ executed
        have result := sound.act some_ gradual event
        rw [failed] at result
        rcases result with ⟨rfl, response, bufSize, within, failed⟩ | ⟨rfl, zero⟩
        · exact fails response bufSize within failed
        · exact ⟨first, event :: rest, reached, rfl, by simp only [if_neg none_, executed], zero⟩

def greeting : DryRun := ⟨2, ⟨ascii "220 ready\r\n331 user\r\n", [11, 21], by decide, by decide⟩, by decide⟩

def greetingEnv : Env := ⟨extractResponseCodesFtp, fun _ => 1⟩

def greetingView : QueueView := ⟨fun _ => true, true, 1⟩

theorem campaign_safe_greeting : ∃ table, campaign greetingEnv [greeting]
    [.select .roundRobin .favor 0 greetingView id, .saved greeting.response, .fuzzed] = .ok table ∧ table.Sound := by
  have safe := campaign_safe (show greetingEnv.extractResponseCodes ∈ steadyExtractors by simp [greetingEnv, steadyExtractors]) [greeting]
    [.select .roundRobin .favor 0 greetingView id, .saved greeting.response, .fuzzed]
  have ends : (campaign greetingEnv [greeting] [.select .roundRobin .favor 0 greetingView id, .saved greeting.response,
      .fuzzed]).toOption.isSome = true := by decide
  cases result : campaign greetingEnv [greeting] [.select .roundRobin .favor 0 greetingView id, .saved greeting.response, .fuzzed] with
  | error abort =>
    rw [result] at ends
    cases ends
  | ok table =>
    rw [result] at safe
    exact ⟨table, rfl, safe.1⟩

end StateTable
end Soundness

end LtlFuzz.Fuzzer

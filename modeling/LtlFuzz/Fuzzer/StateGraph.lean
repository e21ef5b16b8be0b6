import LtlFuzz.Fuzzer.StateTable

/-! What the lists of seeds and the annotations of regions say. A seed is on the list of a state because a region
of it ends in that state; the annotations of a seed grow from region to region; and the graph has the states that
the map has. -/

namespace LtlFuzz.Fuzzer.StateTable
open Logic

section Lists

def lists (table : StateTable) (stateId : Nat) : List Nat := ((table.infos stateId).map StateInfo.seeds).getD []

def annotations (table : StateTable) : List (List (List Nat)) := table.queue.map Seed.regions

/-- The seeds below a bound that have annotated regions are listed for the states they end a region in, and for the initial state. -/
def Traced (table : StateTable) (bound : Nat) : Prop :=
  ∀ stateId, ∀ seed ∈ table.lists stateId, seed < bound ∧
    ∃ regions, table.annotations[seed]? = some regions ∧ regions ≠ [] ∧ (stateId = 0 ∨ ∃ region ∈ regions, region.getLast? = some stateId)

/-- No list has a seed that it had not before. -/
structure Kept (before after : StateTable) : Prop where
  lists : ∀ stateId, after.lists stateId ⊆ before.lists stateId
  annotations : after.annotations = before.annotations

/-- No state is found either. -/
structure Quiet (before after : StateTable) : Prop extends Kept before after where
  graph : after.graph = before.graph
  known : ∀ stateId, after.infos stateId = none ↔ before.infos stateId = none

variable {table before after : StateTable} {bound : Nat}

theorem Kept.of_same (infos : after.infos = before.infos) (queue : after.queue = before.queue) : Kept before after :=
  ⟨fun stateId => by rw [StateTable.lists, StateTable.lists, infos]; exact List.Subset.refl _,
    by rw [StateTable.annotations, StateTable.annotations, queue]⟩

theorem Kept.trans {last : StateTable} (first : Kept before after) (second : Kept after last) : Kept before last :=
  ⟨fun stateId => List.Subset.trans (second.lists stateId) (first.lists stateId), second.annotations.trans first.annotations⟩

theorem Quiet.of_same (infos : after.infos = before.infos) (queue : after.queue = before.queue) (graph : after.graph = before.graph) :
    Quiet before after := ⟨Kept.of_same infos queue, graph, fun stateId => by rw [infos]⟩

theorem Quiet.trans {last : StateTable} (first : Quiet before after) (second : Quiet after last) : Quiet before last :=
  ⟨first.toKept.trans second.toKept, second.graph.trans first.graph, fun stateId => (second.known stateId).trans (first.known stateId)⟩

theorem Traced.kept (traced : before.Traced bound) (kept : Kept before after) : after.Traced bound := by
  intro stateId seed listed
  rw [kept.annotations]
  exact traced stateId seed (kept.lists stateId listed)

theorem Traced.mono (traced : table.Traced bound) {larger : Nat} (wider : bound ≤ larger) : table.Traced larger :=
  fun stateId seed listed => ⟨Nat.lt_of_lt_of_le (traced stateId seed listed).1 wider, (traced stateId seed listed).2⟩

theorem lists_update (table : StateTable) (stateId : Nat) (info : StateInfo) (other : Nat) :
    ({ table with infos := Function.update table.infos stateId (some info) } : StateTable).lists other =
      if other = stateId then info.seeds else table.lists other := by
  simp only [lists]
  split
  next equal => rw [equal, Function.update_self]; rfl
  next apart => rw [Function.update_of_ne apart]

theorem lists_addState (table : StateTable) (stateId : Nat) (info : StateInfo) (other : Nat) :
    (table.addState stateId info).lists other = if other = stateId then info.seeds else table.lists other := by
  obtain ⟨cells, result, _⟩ := addState_fields table stateId info
  rw [result]
  exact lists_update table stateId info other

theorem queue_addState (table : StateTable) (stateId : Nat) (info : StateInfo) : (table.addState stateId info).queue = table.queue := by
  obtain ⟨cells, result, _⟩ := addState_fields table stateId info
  rw [result]

theorem Kept.visit (table : StateTable) (stateId : Nat) : Kept table (table.visit stateId) := by
  rw [StateTable.visit]
  split
  next => exact Kept.of_same rfl rfl
  next =>
    constructor
    · intro other
      rw [lists_addState]
      split
      next => exact List.nil_subset _
      next => exact List.Subset.refl _
    · rw [StateTable.annotations, queue_addState]
      rfl

theorem Kept.visitSteps (table : StateTable) (stateSequence : List Nat) : Kept table (table.visitSteps stateSequence) := by
  fun_induction StateTable.visitSteps table stateSequence with
  | case1 table prevStateId curStateId rest ih => exact ((Kept.visit table prevStateId).trans (Kept.visit _ curStateId)).trans ih
  | case2 => exact Kept.of_same rfl rfl

theorem Kept.updateIpsm (table : StateTable) (stateSequence : List Nat) : Kept table (table.updateIpsm stateSequence) := by
  simp only [StateTable.updateIpsm, isStateSequenceInteresting]
  by_cases known : hash32 (trimmed stateSequence) 0 ∈ table.paths
  · simp only [if_pos known, Bool.false_eq_true, if_false]
    exact Kept.of_same rfl rfl
  · simp only [if_neg known, if_true]
    have noted : Kept table { table with paths := hash32 (trimmed stateSequence) 0 :: table.paths } := Kept.of_same rfl rfl
    exact noted.trans (Kept.visitSteps _ stateSequence)

theorem Quiet.count (table : StateTable) (stateSequence : List Nat) (add : StateInfo → StateInfo)
    (same : ∀ info, (add info).seeds = info.seeds) : Quiet table (table.count stateSequence add) := by
  refine ⟨⟨fun stateId => ?_, rfl⟩, rfl, fun stateId => ?_⟩
  · simp only [StateTable.lists, StateTable.count]
    split
    · cases table.infos stateId with
      | none => exact List.Subset.refl _
      | some info => simp [same]
    · exact List.Subset.refl _
  · simp only [StateTable.count]
    split <;> simp

theorem mark_cells {stateIndex seed : Nat} {value : Int} (marked : table.mark stateIndex seed value = .ok after) :
    ∃ cells, after = { table with cells } := by
  rw [mark] at marked
  split at marked
  · exact ⟨_, (Except.ok.inj marked).symm⟩
  · cases marked

/-- What a seed is put on the list of: the state that a region ends in. -/
theorem reach_lists {seed : Nat} {stateSequence : List Nat} (reached : reach seed table stateSequence = .ok after) :
    after.queue = table.queue ∧
      ∀ stateId, ∀ other ∈ after.lists stateId, other ∈ table.lists stateId ∨ other = seed ∧ stateSequence.getLast? = some stateId := by
  rw [reach] at reached
  cases last : stateSequence.getLast? with
  | none =>
    simp only [last, Except.ok.injEq] at reached
    subst reached
    exact ⟨rfl, fun _ _ listed => Or.inl listed⟩
  | some stateId =>
    simp only [last] at reached
    cases here : table.infos stateId with
    | some info =>
      simp only [here] at reached
      obtain ⟨cells, rfl⟩ := mark_cells reached
      refine ⟨rfl, fun other q listed => ?_⟩
      have either := lists_update table stateId { info with seeds := info.seeds ++ [seed] } other
      simp only [lists] at either listed ⊢
      rw [either] at listed
      split at listed
      next equal =>
        subst equal
        simp only [here, Option.map_some, Option.getD_some, List.mem_append, List.mem_singleton] at listed ⊢
        exact listed.imp_right fun new => ⟨new, trivial⟩
      next => exact Or.inl listed
    | none =>
      simp only [here] at reached
      obtain ⟨cells, rfl⟩ := mark_cells reached
      refine ⟨queue_addState table stateId _, fun other q listed => ?_⟩
      have either := lists_addState table stateId { seeds := [seed] } other
      simp only [lists] at either listed ⊢
      rw [either] at listed
      split at listed
      next equal =>
        subst equal
        exact Or.inr ⟨List.mem_singleton.mp listed, rfl⟩
      next => exact Or.inl listed

theorem run_reach_lists {seed : Nat} {regions : List (List Nat)} (reached : run (reach seed) table regions = .ok after) :
    after.queue = table.queue ∧
      ∀ stateId, ∀ other ∈ after.lists stateId,
        other ∈ table.lists stateId ∨ other = seed ∧ ∃ region ∈ regions, region.getLast? = some stateId := by
  induction regions generalizing table with
  | nil =>
    obtain rfl := Except.ok.inj reached
    exact ⟨rfl, fun _ _ listed => Or.inl listed⟩
  | cons region regions ih =>
    obtain ⟨middle, step, rest⟩ := run_cons_ok reached
    obtain ⟨queue, first⟩ := reach_lists step
    obtain ⟨queue', later⟩ := ih rest
    refine ⟨queue'.trans queue, fun stateId other listed => ?_⟩
    rcases later stateId other listed with before | ⟨new, region', member, ends⟩
    · exact (first stateId other before).imp_right fun ⟨new, ends⟩ => ⟨new, region, List.mem_cons_self, ends⟩
    · exact Or.inr ⟨new, region', List.mem_cons_of_mem region member, ends⟩

theorem listSeeds_lists {seed : Nat} {regions : List (List Nat)} (listed : table.listSeeds seed regions = .ok after) :
    after.queue = table.queue ∧
      ∀ stateId, ∀ other ∈ after.lists stateId,
        other ∈ table.lists stateId ∨ other = seed ∧ (stateId = 0 ∨ ∃ region ∈ regions, region.getLast? = some stateId) := by
  rw [listSeeds] at listed
  cases initial : table.infos 0 with
  | none => simp [initial] at listed
  | some info =>
    simp only [initial] at listed
    obtain ⟨middle, marked, reached⟩ := bind_ok listed
    obtain ⟨cells, rfl⟩ := mark_cells marked
    obtain ⟨queue, later⟩ := run_reach_lists reached
    refine ⟨queue, fun stateId other member => ?_⟩
    rcases later stateId other member with before | ⟨new, ends⟩
    · have either := lists_update table 0 { info with seeds := info.seeds ++ [seed] } stateId
      simp only [lists] at either before ⊢
      rw [either] at before
      split at before
      next equal =>
        subst equal
        simp only [initial, Option.map_some, Option.getD_some, List.mem_append, List.mem_singleton] at before ⊢
        exact before.imp_right fun new => ⟨new, Or.inl trivial⟩
      next => exact Or.inl before
    · exact Or.inr ⟨new, Or.inr ends⟩

/-- What `update_state_aware_variables` does with responses that there are. -/
theorem update_cases {env : Env} {seed : Nat} {response : Response} {dryRun : Bool}
    (updated : table.updateStateAwareVariables env seed response dryRun = .ok after) :
    (response.buf = [] ∨ response.bytes = []) ∧ after = table ∨ ∃ stateSequence regions entry last,
      ¬ (response.buf = [] ∨ response.bytes = []) ∧
      env.extractResponseCodes (response.buf ++ [0]) response.buf.length = some stateSequence ∧
      annotate env.extractResponseCodes (response.buf ++ [0]) 0 response.bytes = some regions ∧
      (table.updateIpsm stateSequence).queue[seed]? = some entry ∧
      listSeeds { table.updateIpsm stateSequence with
        queue := (table.updateIpsm stateSequence).queue.set seed
          { entry with regions, uniqueStateCount := stateSequence.dedup.length } } seed regions = .ok last ∧
      Quiet last after := by
  unfold updateStateAwareVariables at updated
  by_cases silent : response.buf = [] ∨ response.bytes = []
  · rw [if_pos silent] at updated
    exact Or.inl ⟨silent, (Except.ok.inj updated).symm⟩
  · rw [if_neg silent] at updated
    right
    cases extracted : env.extractResponseCodes (response.buf ++ [0]) response.buf.length with
    | none => simp [extracted] at updated
    | some stateSequence =>
      cases annotated : annotate env.extractResponseCodes (response.buf ++ [0]) 0 response.bytes with
      | none => simp [extracted, annotated] at updated
      | some regions =>
        cases here : (table.updateIpsm stateSequence).queue[seed]? with
        | none => simp [extracted, annotated, here] at updated
        | some entry =>
          simp only [extracted, annotated, here] at updated
          split at updated
          · cases updated
          · obtain ⟨last, listed, rest⟩ := bind_ok updated
            refine ⟨stateSequence, regions, entry, last, silent, rfl, rfl, here, listed, ?_⟩
            obtain rfl := Except.ok.inj rest
            split
            · exact Quiet.count _ _ _ fun _ => rfl
            · have first := Quiet.count last stateSequence (fun info => { info with paths := info.paths + 1 }) fun _ => rfl
              exact first.trans (Quiet.count _ _ _ fun _ => rfl)

theorem annotations_set (table : StateTable) (seed : Nat) (entry : Seed) :
    ({ table with queue := table.queue.set seed entry } : StateTable).annotations = table.annotations.set seed entry.regions := by
  simp only [annotations, List.map_set]

/-- The regions of the seed are annotated, and it is listed for the states they end in. -/
theorem update_lists {env : Env} {seed : Nat} {response : Response} {dryRun : Bool}
    (updated : table.updateStateAwareVariables env seed response dryRun = .ok after) :
    after = table ∨ ∃ regions, annotate env.extractResponseCodes (response.buf ++ [0]) 0 response.bytes = some regions ∧
      regions ≠ [] ∧ seed < table.annotations.length ∧ after.annotations = table.annotations.set seed regions ∧
      ∀ stateId, ∀ other ∈ after.lists stateId,
        other ∈ table.lists stateId ∨ other = seed ∧ (stateId = 0 ∨ ∃ region ∈ regions, region.getLast? = some stateId) := by
  refine (update_cases updated).imp And.right ?_
  rintro ⟨stateSequence, regions, entry, last, answered, _, annotated, here, listed, quiet⟩
  have moved := Kept.updateIpsm table stateSequence
  obtain ⟨queue, lists⟩ := listSeeds_lists listed
  have same : last.annotations = (table.updateIpsm stateSequence).annotations.set seed regions := by
    rw [← annotations_set _ seed { entry with regions, uniqueStateCount := stateSequence.dedup.length }]
    exact congrArg (List.map Seed.regions) queue
  have some_ : regions ≠ [] := by
    rintro rfl
    exact answered (Or.inr (List.eq_nil_of_length_eq_zero (annotate_length annotated).symm))
  refine ⟨regions, annotated, some_, ?_, by rw [quiet.annotations, same, moved.annotations], fun stateId other member => ?_⟩
  · rw [← moved.annotations, annotations, List.length_map]
    exact (List.getElem?_eq_some_iff.mp here).1
  · exact (lists stateId other (quiet.lists stateId member)).imp_left fun old => moved.lists stateId old

theorem Traced.update (traced : table.Traced bound) {env : Env} {response : Response} {dryRun : Bool}
    (updated : table.updateStateAwareVariables env bound response dryRun = .ok after) :
    after.Traced (bound + 1) ∧ after.annotations.length = table.annotations.length := by
  rcases update_lists updated with rfl | ⟨regions, _, some_, inside, annotated, lists⟩
  · exact ⟨traced.mono (Nat.le_succ bound), rfl⟩
  · refine ⟨fun stateId seed member => ?_, by rw [annotated, List.length_set]⟩
    rw [annotated]
    rcases lists stateId seed member with old | ⟨rfl, ends⟩
    · obtain ⟨below, regions', there, ends⟩ := traced stateId seed old
      exact ⟨Nat.lt_succ_of_lt below, regions', by rw [List.getElem?_set_ne (Nat.ne_of_gt below)]; exact there, ends⟩
    · exact ⟨Nat.lt_succ_self seed, regions, List.getElem?_set_self inside, some_, ends⟩

theorem chooseTargetState_quiet {env : Env} {mode : SelectionMode} {draw : Nat} (chosen : table.chooseTargetState env mode draw = .ok after) :
    Quiet table after := by
  cases mode with
  | random =>
    simp only [chooseTargetState] at chosen
    split at chosen
    · cases chosen
    · split at chosen
      · cases chosen
      · obtain rfl := Except.ok.inj chosen
        exact Quiet.of_same rfl rfl rfl
  | roundRobin =>
    obtain ⟨item, _, rest⟩ := bind_ok chosen
    obtain rfl := Except.ok.inj rest
    exact Quiet.of_same rfl rfl rfl
  | favor =>
    simp only [chooseTargetState] at chosen
    split at chosen
    all_goals
      obtain ⟨item, _, rest⟩ := bind_ok chosen
      obtain rfl := Except.ok.inj rest
      exact Quiet.of_same rfl rfl rfl
  | other =>
    obtain rfl := Except.ok.inj chosen
    exact Quiet.of_same rfl rfl rfl

theorem chooseSeed_quiet {mode : SelectionMode} {view : QueueView} {draws : Nat → Nat} {seed : Option Nat}
    (chosen : table.chooseSeed mode view draws = .ok (seed, after)) : Quiet table after := by
  rw [chooseSeed] at chosen
  cases here : table.infos table.targetStateId with
  | none => simp [here] at chosen
  | some info =>
    simp only [here] at chosen
    split at chosen
    · cases chosen
      exact Quiet.of_same rfl rfl rfl
    · obtain ⟨⟨found, selectedSeedIndex⟩, _, rest⟩ := bind_ok chosen
      cases rest
      refine ⟨⟨fun stateId => ?_, rfl⟩, rfl, fun stateId => ?_⟩
      · rw [lists_update]
        split
        next equal => simp [lists, equal, here]
        next => exact List.Subset.refl _
      · by_cases equal : stateId = table.targetStateId
        · simp [equal, here]
        · simp [equal]

/-- Only an input that is kept changes what is found. -/
theorem act_cases {env : Env} {event : Event} (acted : act env table event = .ok after) :
    Quiet table after ∨ ∃ response : Response, event = .saved response ∧
      (table.addToQueue response.bytes.length).updateStateAwareVariables env table.annotations.length response false = .ok after := by
  cases event with
  | select targetMode seedMode draw view draws =>
    left
    obtain ⟨middle, targeted, rest⟩ := bind_ok acted
    obtain ⟨⟨seed, last⟩, chosen, rest⟩ := bind_ok rest
    obtain rfl := Except.ok.inj rest
    have counted := Quiet.count middle [middle.targetStateId] (fun info => { info with selectedTimes := info.selectedTimes + 1 }) fun _ => rfl
    have quiet := ((chooseTargetState_quiet targeted).trans counted).trans (chooseSeed_quiet chosen)
    exact ⟨⟨quiet.lists, quiet.annotations⟩, quiet.graph, quiet.known⟩
  | executed response =>
    left
    simp only [act, updateFuzzs] at acted
    split at acted
    · cases acted
    · obtain rfl := Except.ok.inj acted
      exact Quiet.count _ _ _ fun _ => rfl
  | saved response => exact Or.inr ⟨response, rfl, by rw [annotations, List.length_map]; exact acted⟩
  | fuzzed =>
    left
    simp only [act] at acted
    split at acted
    · obtain rfl := Except.ok.inj acted
      exact Quiet.of_same rfl rfl rfl
    · split at acted
      · cases acted
      · next seed _ entry here =>
        split at acted
        · obtain rfl := Except.ok.inj acted
          exact Quiet.of_same rfl rfl rfl
        · obtain ⟨cells, rfl⟩ := mark_cells acted
          refine ⟨⟨fun _ => List.Subset.refl _, ?_⟩, rfl, fun _ => Iff.rfl⟩
          obtain ⟨inside, rfl⟩ := List.getElem?_eq_some_iff.mp here
          apply List.ext_getElem?
          intro i
          simp only [annotations, List.getElem?_map, List.getElem?_set]
          split
          next equal => simp [← equal, inside]
          next => rfl

theorem addToQueue_annotations (table : StateTable) (regionCount : Nat) :
    (table.addToQueue regionCount).infos = table.infos ∧ (table.addToQueue regionCount).annotations = table.annotations ++ [[]] := by
  simp only [addToQueue]
  split <;> simp [expandWasFuzzedMap, annotations]

theorem Traced.addToQueue (traced : table.Traced bound) (regionCount : Nat) : (table.addToQueue regionCount).Traced bound := by
  obtain ⟨infos, annotated⟩ := addToQueue_annotations table regionCount
  intro stateId seed listed
  rw [lists, infos] at listed
  obtain ⟨below, regions, here, ends⟩ := traced stateId seed listed
  refine ⟨below, regions, ?_, ends⟩
  rw [annotated, List.getElem?_append_left (List.getElem?_eq_some_iff.mp here).1]
  exact here

theorem Traced.act {env : Env} {event : Event} (traced : table.Traced table.annotations.length) (acted : act env table event = .ok after) :
    after.Traced after.annotations.length := by
  rcases act_cases acted with quiet | ⟨response, rfl, updated⟩
  · rw [quiet.annotations]
    exact traced.kept quiet.toKept
  · obtain ⟨traced', length⟩ := (traced.addToQueue response.bytes.length).update updated
    rw [length, (addToQueue_annotations table _).2, List.length_append]
    exact traced'

theorem calibrate_kept (table : StateTable) (seed : Nat) :
    Kept table { table with queue := table.queue.modify seed fun entry => { entry with isInitialSeed := true } } := by
  refine ⟨fun _ => List.Subset.refl _, ?_⟩
  apply List.ext_getElem?
  intro i
  simp only [annotations, List.getElem?_map, List.getElem?_modify]
  cases table.queue[i]? with
  | none => rfl
  | some entry =>
    simp only [Option.map_eq_map, Option.map_some]
    split <;> rfl

theorem Traced.calibrate_all {env : Env} {runs : List DryRun} (traced : table.Traced bound)
    (ran : run (calibrate env) table (runs.zipIdx bound) = .ok after) :
    after.Traced (bound + runs.length) ∧ after.annotations.length = table.annotations.length := by
  induction runs generalizing table bound with
  | nil =>
    obtain rfl := Except.ok.inj ran
    exact ⟨traced, rfl⟩
  | cons dryRun runs ih =>
    obtain ⟨middle, step, rest⟩ := run_cons_ok ran
    have kept := calibrate_kept table bound
    obtain ⟨traced', length⟩ := (traced.kept kept).update step
    obtain ⟨traced'', length'⟩ := ih traced' rest
    refine ⟨?_, by rw [length', length, kept.annotations]⟩
    rw [List.length_cons, ← Nat.add_assoc, Nat.add_right_comm]
    exact traced''

theorem setUp_enqueued (runs : List DryRun) :
    ∃ table : StateTable, runs.foldl (fun table dryRun => table.addToQueue dryRun.regionCount) {} = table ∧ table.Traced 0 ∧
      table.annotations.length = runs.length := by
  have added (runs : List DryRun) {table : StateTable} (traced : table.Traced 0) :
      ∃ after : StateTable, runs.foldl (fun table dryRun => table.addToQueue dryRun.regionCount) table = after ∧ after.Traced 0 ∧
        after.annotations.length = table.annotations.length + runs.length := by
    induction runs generalizing table with
    | nil => exact ⟨table, rfl, traced, rfl⟩
    | cons dryRun runs ih =>
      obtain ⟨after, result, traced', length⟩ := ih (traced.addToQueue dryRun.regionCount)
      refine ⟨after, result, traced', ?_⟩
      rw [length, (addToQueue_annotations table _).2, List.length_append, List.length_singleton, List.length_cons]
      omega
  have empty : ({} : StateTable).Traced 0 := by
    intro stateId seed listed
    cases listed
  obtain ⟨after, result, traced, length⟩ := added runs empty
  exact ⟨after, result, traced, by simpa [annotations] using length⟩

theorem campaign_kept {env : Env} {runs : List DryRun} {events : List Event} (ran : campaign env runs events = .ok table) :
    table.Traced table.annotations.length := by
  obtain ⟨start, set, rest⟩ := bind_ok ran
  split at rest
  · cases rest
  · obtain ⟨enqueued, added, traced, length⟩ := setUp_enqueued runs
    rw [setUp, added] at set
    obtain ⟨traced', length'⟩ := traced.calibrate_all set
    refine run_invariant (fun table : StateTable => table.Traced table.annotations.length)
      (fun before event after traced acted => traced.act acted) ?_ rest
    rw [length', length]
    simpa using traced'

/-- In every campaign a seed is on the list of a state only because one of its regions ends in that state. -/
theorem campaign_traced {env : Env} {runs : List DryRun} {events : List Event} (ran : campaign env runs events = .ok table)
    {stateId : Nat} {info : StateInfo} (known : table.infos stateId = some info) (other : stateId ≠ 0) {seed : Nat}
    (listed : seed ∈ info.seeds) :
    ∃ entry, table.queue[seed]? = some entry ∧ ∃ region ∈ entry.regions, region.getLast? = some stateId := by
  obtain ⟨_, regions, here, _, ends⟩ := campaign_kept ran stateId seed (by simpa [lists, known] using listed)
  rw [annotations, List.getElem?_map, Option.map_eq_some_iff] at here
  obtain ⟨entry, there, rfl⟩ := here
  exact ⟨entry, there, ends.resolve_left other⟩

theorem campaign_traced_greeting : ∃ table, campaign greetingEnv [greeting] [.saved greeting.response] = .ok table ∧
    ∃ entry, table.queue[1]? = some entry ∧ ∃ region ∈ entry.regions, region.getLast? = some 331 := by
  have ends : (campaign greetingEnv [greeting] [.saved greeting.response]).toOption.any
      (fun table => (table.infos 331).any fun info => info.seeds.contains 1) = true := by decide
  obtain ⟨table, ran, listed⟩ := checked_ok ends
  obtain ⟨info, known, listed⟩ := (Option.any_eq_true _ _).mp listed
  exact ⟨table, ran, campaign_traced ran known (by decide) (by simpa using listed)⟩

end Lists

section Annotations

/-- The annotations of a seed begin at the initial state, and each begins with the one before it. -/
structure Nested (regions : List (List Nat)) : Prop where
  begins : ∀ region ∈ regions, region = [] ∨ ∃ codes, region = 0 :: codes
  grows : (regions.filter (decide <| · ≠ [])).Pairwise (· <+: ·)

variable {table after : StateTable} {extractResponseCodes : List UInt8 → Nat → Option (List Nat)} {buf : List UInt8}

theorem annotate_mem {before : Nat} {bytes : List Nat} {regions : List (List Nat)}
    (annotated : annotate extractResponseCodes buf before bytes = some regions) :
    ∀ region ∈ regions, region = [] ∨ ∃ size ∈ bytes, 0 < size ∧ extractResponseCodes buf size = some region := by
  induction bytes generalizing before regions with
  | nil => simp [← Option.some.inj annotated]
  | cons size bytes ih =>
    obtain ⟨first, later, rfl, rest, extracted⟩ := annotate_cons annotated
    intro region member
    rcases List.mem_cons.mp member with rfl | later
    · exact extracted.imp_right fun found => ⟨size, List.mem_cons_self, found⟩
    · refine (ih rest region later).imp_right ?_
      rintro ⟨other, member, found⟩
      exact ⟨other, List.mem_cons_of_mem size member, found⟩

theorem Nested.annotate (gradual : Gradual extractResponseCodes) {before : Nat} {bytes : List Nat} {regions : List (List Nat)}
    (annotated : annotate extractResponseCodes buf before bytes = some regions) (grows : bytes.Pairwise (· ≤ ·)) : Nested regions := by
  constructor
  · intro region member
    refine (annotate_mem annotated region member).imp_right ?_
    rintro ⟨size, _, positive, extracted⟩
    exact gradual.begins positive extracted
  · induction bytes generalizing before regions with
    | nil => simp [← Option.some.inj annotated]
    | cons size bytes ih =>
      obtain ⟨least, grows⟩ := List.pairwise_cons.mp grows
      obtain ⟨first, later, rfl, rest, extracted⟩ := annotate_cons annotated
      have tail := ih rest grows
      rw [List.filter_cons]
      split
      next new =>
        refine List.pairwise_cons.mpr ⟨fun region member => ?_, tail⟩
        obtain ⟨member, some_⟩ := List.mem_filter.mp member
        obtain ⟨other, listed, _, found⟩ := (annotate_mem rest region member).resolve_left (by simpa using some_)
        obtain ⟨_, extracted⟩ := extracted.resolve_left (by simpa using new)
        exact gradual.prefix_ (least other listed) extracted found
      next => exact tail

/-- A property of what is annotated, and of a seed that is not yet, is a property of every seed. -/
theorem campaign_annotations {env : Env} {runs : List DryRun} {events : List Event} (ran : campaign env runs events = .ok table)
    (holds : List (List Nat) → Prop) (bare : holds [])
    (each : ∀ (response : Response) regions,
      annotate env.extractResponseCodes (response.buf ++ [0]) 0 response.bytes = some regions → holds regions) :
    ∀ regions ∈ table.annotations, holds regions := by
  have update {before after : StateTable} {seed : Nat} {response : Response} {dryRun : Bool}
      (held : ∀ regions ∈ before.annotations, holds regions)
      (updated : before.updateStateAwareVariables env seed response dryRun = .ok after) : ∀ regions ∈ after.annotations, holds regions := by
    rcases update_lists updated with rfl | ⟨regions, found, _, _, annotated, _⟩
    · exact held
    · rw [annotated]
      intro other member
      rcases List.mem_or_eq_of_mem_set member with old | rfl
      · exact held other old
      · exact each response other found
  have added {before : StateTable} (held : ∀ regions ∈ before.annotations, holds regions) (regionCount : Nat) :
      ∀ regions ∈ (before.addToQueue regionCount).annotations, holds regions := by
    rw [(addToQueue_annotations before regionCount).2]
    intro regions member
    rcases List.mem_append.mp member with old | new
    · exact held regions old
    · rw [List.mem_singleton.mp new]
      exact bare
  have enqueued (runs : List DryRun) {before : StateTable} (held : ∀ regions ∈ before.annotations, holds regions) :
      ∀ regions ∈ (runs.foldl (fun table dryRun => table.addToQueue dryRun.regionCount) before).annotations, holds regions := by
    induction runs generalizing before with
    | nil => exact held
    | cons dryRun runs ih => exact ih (added held dryRun.regionCount)
  obtain ⟨start, set, rest⟩ := bind_ok ran
  split at rest
  · cases rest
  · refine run_invariant (fun table : StateTable => ∀ regions ∈ table.annotations, holds regions) ?_ ?_ rest
    · intro before event after held acted
      rcases act_cases acted with quiet | ⟨response, rfl, updated⟩
      · rw [quiet.annotations]
        exact held
      · exact update (added held _) updated
    · refine run_invariant (fun table : StateTable => ∀ regions ∈ table.annotations, holds regions) ?_ ?_ set
      · intro before item after held calibrated
        exact update (by rw [(calibrate_kept before item.2).annotations]; exact held) calibrated
      · exact enqueued runs (by simp [annotations])

/-- In every campaign the annotations of a seed grow from one region to the next. -/
theorem campaign_nested {env : Env} (steady : env.extractResponseCodes ∈ steadyExtractors) {runs : List DryRun} {events : List Event}
    (ran : campaign env runs events = .ok table) : ∀ entry ∈ table.queue, Nested entry.regions := by
  have nested := campaign_annotations ran Nested ⟨by simp, by simp⟩ fun response regions annotated =>
    Nested.annotate (steadyExtractors_gradual steady) annotated response.grows
  intro entry member
  exact nested entry.regions (List.mem_map_of_mem member)

theorem campaign_nested_greeting : ∃ table, campaign greetingEnv [greeting] [.saved greeting.response] = .ok table ∧
    ∀ entry ∈ table.queue, Nested entry.regions := by
  have ends : (campaign greetingEnv [greeting] [.saved greeting.response]).toOption.any (fun _ => true) = true := by decide
  obtain ⟨table, ran, _⟩ := checked_ok ends
  exact ⟨table, ran, campaign_nested (by simp [greetingEnv, steadyExtractors]) ran⟩

end Annotations

section Graph

variable {table after : StateTable}

theorem mem_trimmedFrom (first second : Nat) (rest : List Nat) (stateId : Nat) :
    stateId ∈ first :: second :: trimmedFrom first second rest ↔ stateId ∈ first :: second :: rest := by
  induction rest generalizing first second with
  | nil => simp [trimmedFrom]
  | cons state rest ih =>
    have later := ih second state
    rw [trimmedFrom]
    split
    next again =>
      obtain ⟨rfl, rfl⟩ := again
      simp only [List.mem_cons] at later ⊢
      simp only [later, or_self_left]
    next => simp only [List.mem_cons] at later ⊢; rw [later]

/-- Trimming leaves out no state. -/
theorem mem_trimmed (stateSequence : List Nat) (stateId : Nat) : stateId ∈ trimmed stateSequence ↔ stateId ∈ stateSequence := by
  match stateSequence with
  | [] => rfl
  | [_] => rfl
  | first :: second :: rest => exact mem_trimmedFrom first second rest stateId

theorem trimmed_steps (stateSequence : List Nat) : 2 ≤ (trimmed stateSequence).length ↔ 2 ≤ stateSequence.length := by
  match stateSequence with
  | [] => rfl
  | [_] => rfl
  | first :: second :: rest => simp [trimmed]

def Answers (env : Env) (responses : List Response) (stateSequence : List Nat) : Prop :=
  ∃ response ∈ responses, ¬ (response.buf = [] ∨ response.bytes = []) ∧
    env.extractResponseCodes (response.buf ++ [0]) response.buf.length = some stateSequence

/-- No two sequences have one hash unless they are the same but for loops. -/
def Apart (env : Env) (responses : List Response) : Prop :=
  ∀ first second, Answers env responses first → Answers env responses second →
    hash32 (trimmed first) 0 = hash32 (trimmed second) 0 → trimmed first = trimmed second

/-- Every vertex has one place in `state_ids`, and an entry in the hashtable. -/
structure Paired (table : StateTable) : Prop where
  vertices : table.nodes = table.stateIds
  once : table.stateIds.Nodup
  known : ∀ stateId, table.infos stateId ≠ none ↔ stateId ∈ table.stateIds

/-- The vertices are the states of the sequences that have a step. -/
structure Drawn (env : Env) (responses : List Response) (table : StateTable) : Prop extends Paired table where
  paths : ∀ hashKey, hashKey ∈ table.paths ↔
    ∃ stateSequence, Answers env responses stateSequence ∧ hash32 (trimmed stateSequence) 0 = hashKey
  states : ∀ stateId, stateId ∈ table.nodes ↔
    ∃ stateSequence, Answers env responses stateSequence ∧ 2 ≤ stateSequence.length ∧ stateId ∈ stateSequence

theorem Paired.visit (paired : table.Paired) (stateId : Nat) :
    (table.visit stateId).Paired ∧ (table.visit stateId).paths = table.paths ∧
      ∀ other, other ∈ (table.visit stateId).nodes ↔ other ∈ table.nodes ∨ other = stateId := by
  by_cases vertex : stateId ∈ table.nodes
  · have same : table.visit stateId = table := if_pos vertex
    rw [same]
    refine ⟨paired, rfl, fun other => ⟨Or.inl, ?_⟩⟩
    rintro (before | rfl)
    · exact before
    · exact vertex
  · obtain ⟨cells, result, _⟩ := addState_fields { table with nodes := table.nodes ++ [stateId] } stateId {}
    rw [StateTable.visit, if_neg vertex]
    simp only [result]
    refine ⟨⟨by rw [paired.vertices], ?_, fun other => ?_⟩, trivial, fun other => by simp⟩
    · rw [List.nodup_append]
      refine ⟨paired.once, by simp, ?_⟩
      rintro other before new member rfl
      exact vertex (by rw [paired.vertices, ← List.mem_singleton.mp member]; exact before)
    · rw [List.mem_append, List.mem_singleton, ← paired.known]
      by_cases equal : other = stateId
      · simp [equal]
      · simp [equal]

theorem Paired.visitSteps (paired : table.Paired) (stateSequence : List Nat) :
    (table.visitSteps stateSequence).Paired ∧ (table.visitSteps stateSequence).paths = table.paths ∧
      ∀ other, other ∈ (table.visitSteps stateSequence).nodes ↔
        other ∈ table.nodes ∨ 2 ≤ stateSequence.length ∧ other ∈ stateSequence := by
  fun_induction StateTable.visitSteps table stateSequence with
  | case1 table prevStateId curStateId rest ih =>
    obtain ⟨paired', paths', nodes'⟩ := paired.visit prevStateId
    obtain ⟨paired'', paths'', nodes''⟩ := paired'.visit curStateId
    obtain ⟨last, paths, nodes⟩ := ih paired''
    refine ⟨last, by rw [paths, paths'', paths'], fun other => ?_⟩
    rw [nodes, nodes'', nodes']
    -- A single state is no step, but it has been visited at the end of the step before.
    cases rest with
    | nil => simp [or_assoc]
    | cons next rest =>
      simp only [List.length_cons, List.mem_cons]
      constructor
      · rintro (((before | here) | here) | ⟨_, here⟩)
        · exact Or.inl before
        · exact Or.inr ⟨by omega, Or.inl here⟩
        · exact Or.inr ⟨by omega, Or.inr (Or.inl here)⟩
        · exact Or.inr ⟨by omega, Or.inr here⟩
      · rintro (before | ⟨_, here | here⟩)
        · exact Or.inl (Or.inl (Or.inl before))
        · exact Or.inl (Or.inl (Or.inr here))
        · exact Or.inr ⟨by omega, here⟩
  | case2 short table long =>
    refine ⟨paired, rfl, fun other => ⟨Or.inl, ?_⟩⟩
    rintro (before | ⟨steps, _⟩)
    · exact before
    · match short, long, steps with
      | prevStateId :: curStateId :: rest, long, _ => exact absurd rfl (long prevStateId curStateId rest)

theorem Drawn.quiet {env : Env} {responses : List Response} (drawn : table.Drawn env responses) (graph : after.graph = table.graph)
    (known : ∀ stateId, after.infos stateId = none ↔ table.infos stateId = none) : after.Drawn env responses := by
  simp only [StateTable.graph, Prod.mk.injEq] at graph
  obtain ⟨nodes, stateIds, paths⟩ := graph
  constructor
  · constructor
    · rw [nodes, stateIds, drawn.vertices]
    · rw [stateIds]
      exact drawn.once
    · intro stateId
      rw [stateIds, ← drawn.known, ne_eq, known]
  · rw [paths]
    exact drawn.paths
  · rw [nodes]
    exact drawn.states

theorem answers_append {env : Env} (responses : List Response) {response : Response} {stateSequence : List Nat}
    (answered : ¬ (response.buf = [] ∨ response.bytes = []))
    (extracted : env.extractResponseCodes (response.buf ++ [0]) response.buf.length = some stateSequence) (other : List Nat) :
    Answers env (responses ++ [response]) other ↔ Answers env responses other ∨ other = stateSequence := by
  constructor
  · rintro ⟨found, member, answered', extracted'⟩
    rcases List.mem_append.mp member with old | new
    · exact Or.inl ⟨found, old, answered', extracted'⟩
    · rw [List.mem_singleton.mp new, extracted] at extracted'
      exact Or.inr (Option.some.inj extracted').symm
  · rintro (⟨found, member, rest⟩ | rfl)
    · exact ⟨found, List.mem_append_left _ member, rest⟩
    · exact ⟨response, by simp, answered, extracted⟩

theorem Drawn.updateIpsm {env : Env} {responses : List Response} (drawn : table.Drawn env responses) {response : Response}
    (apart : Apart env (responses ++ [response])) {stateSequence : List Nat} (answered : ¬ (response.buf = [] ∨ response.bytes = []))
    (extracted : env.extractResponseCodes (response.buf ++ [0]) response.buf.length = some stateSequence) :
    (table.updateIpsm stateSequence).Drawn env (responses ++ [response]) := by
  have answers := fun other => answers_append responses answered extracted other
  simp only [StateTable.updateIpsm, isStateSequenceInteresting]
  by_cases known : hash32 (trimmed stateSequence) 0 ∈ table.paths
  · simp only [if_pos known, Bool.false_eq_true, if_false]
    -- A sequence with the hash has been answered before, and it has the same states.
    obtain ⟨other, before, same⟩ := (drawn.paths _).mp known
    have equal := apart other stateSequence ((answers other).mpr (Or.inl before)) ((answers stateSequence).mpr (Or.inr rfl)) same
    refine { drawn.toPaired with paths := fun hashKey => ?_, states := fun stateId => ?_ }
    · rw [drawn.paths]
      constructor
      · rintro ⟨found, old, hash⟩
        exact ⟨found, (answers found).mpr (Or.inl old), hash⟩
      · rintro ⟨found, either, hash⟩
        rcases (answers found).mp either with old | rfl
        · exact ⟨found, old, hash⟩
        · exact ⟨other, before, same.trans hash⟩
    · rw [drawn.states]
      constructor
      · rintro ⟨found, old, rest⟩
        exact ⟨found, (answers found).mpr (Or.inl old), rest⟩
      · rintro ⟨found, either, steps, member⟩
        rcases (answers found).mp either with old | rfl
        · exact ⟨found, old, steps, member⟩
        · rw [← trimmed_steps, ← equal, trimmed_steps] at steps
          rw [← mem_trimmed, ← equal, mem_trimmed] at member
          exact ⟨other, before, steps, member⟩
  · simp only [if_neg known, if_true]
    have noted : ({ table with paths := hash32 (trimmed stateSequence) 0 :: table.paths } : StateTable).Paired := { drawn.toPaired with }
    obtain ⟨paired, paths, nodes⟩ := noted.visitSteps stateSequence
    refine { paired with paths := fun hashKey => ?_, states := fun stateId => ?_ }
    · rw [paths, List.mem_cons, drawn.paths]
      constructor
      · rintro (rfl | ⟨found, old, hash⟩)
        · exact ⟨stateSequence, (answers stateSequence).mpr (Or.inr rfl), rfl⟩
        · exact ⟨found, (answers found).mpr (Or.inl old), hash⟩
      · rintro ⟨found, either, hash⟩
        rcases (answers found).mp either with old | rfl
        · exact Or.inr ⟨found, old, hash⟩
        · exact Or.inl hash.symm
    · rw [nodes, drawn.states]
      constructor
      · rintro (⟨found, old, rest⟩ | here)
        · exact ⟨found, (answers found).mpr (Or.inl old), rest⟩
        · exact ⟨stateSequence, (answers stateSequence).mpr (Or.inr rfl), here⟩
      · rintro ⟨found, either, rest⟩
        rcases (answers found).mp either with old | rfl
        · exact Or.inl ⟨found, old, rest⟩
        · exact Or.inr rest

theorem reach_quiet {seed : Nat} {region : List Nat} (found : ∀ stateId, region.getLast? = some stateId → table.infos stateId ≠ none)
    (reached : reach seed table region = .ok after) :
    after.graph = table.graph ∧ ∀ stateId, after.infos stateId = none ↔ table.infos stateId = none := by
  rw [reach] at reached
  cases last : region.getLast? with
  | none =>
    simp only [last, Except.ok.injEq] at reached
    subst reached
    exact ⟨rfl, fun _ => Iff.rfl⟩
  | some stateId =>
    obtain ⟨info, here⟩ := Option.ne_none_iff_exists'.mp (found stateId last)
    simp only [last, here] at reached
    obtain ⟨cells, rfl⟩ := mark_cells reached
    refine ⟨rfl, fun other => ?_⟩
    by_cases equal : other = stateId
    · simp [equal, here]
    · simp [equal]

theorem run_reach_quiet {seed : Nat} {regions : List (List Nat)}
    (found : ∀ region ∈ regions, ∀ stateId, region.getLast? = some stateId → table.infos stateId ≠ none)
    (reached : run (reach seed) table regions = .ok after) :
    after.graph = table.graph ∧ ∀ stateId, after.infos stateId = none ↔ table.infos stateId = none := by
  induction regions generalizing table with
  | nil =>
    obtain rfl := Except.ok.inj reached
    exact ⟨rfl, fun _ => Iff.rfl⟩
  | cons region regions ih =>
    obtain ⟨middle, step, rest⟩ := run_cons_ok reached
    obtain ⟨graph, known⟩ := reach_quiet (found region List.mem_cons_self) step
    have later : ∀ other ∈ regions, ∀ stateId, other.getLast? = some stateId → middle.infos stateId ≠ none := by
      intro other member stateId ends
      rw [ne_eq, known]
      exact found other (List.mem_cons_of_mem region member) stateId ends
    obtain ⟨graph', known'⟩ := ih later rest
    exact ⟨graph'.trans graph, fun stateId => (known' stateId).trans (known stateId)⟩

/-- A seed is listed without a new state when its regions end in known ones. -/
theorem listSeeds_quiet {seed : Nat} {regions : List (List Nat)}
    (found : ∀ region ∈ regions, ∀ stateId, region.getLast? = some stateId → stateId = 0 ∨ table.infos stateId ≠ none)
    (listed : table.listSeeds seed regions = .ok after) :
    after.graph = table.graph ∧ ∀ stateId, after.infos stateId = none ↔ table.infos stateId = none := by
  rw [listSeeds] at listed
  cases initial : table.infos 0 with
  | none => simp [initial] at listed
  | some info =>
    simp only [initial] at listed
    obtain ⟨middle, marked, reached⟩ := bind_ok listed
    obtain ⟨cells, rfl⟩ := mark_cells marked
    have known (stateId : Nat) : Function.update table.infos 0 (some { info with seeds := info.seeds ++ [seed] }) stateId = none ↔
        table.infos stateId = none := by
      by_cases equal : stateId = 0
      · simp [equal, initial]
      · simp [equal]
    obtain ⟨graph, known'⟩ := run_reach_quiet (fun region member stateId ends => by
      rw [ne_eq, known]
      rcases found region member stateId ends with rfl | some_
      · simp [initial]
      · exact some_) reached
    exact ⟨graph, fun stateId => (known' stateId).trans (known stateId)⟩

theorem answers_silent {env : Env} {responses : List Response} {response : Response} (silent : response.buf = [] ∨ response.bytes = [])
    (other : List Nat) : Answers env (responses ++ [response]) other ↔ Answers env responses other := by
  constructor
  · rintro ⟨found, member, answered, rest⟩
    rcases List.mem_append.mp member with old | new
    · exact ⟨found, old, answered, rest⟩
    · rw [List.mem_singleton.mp new] at answered
      exact absurd silent answered
  · rintro ⟨found, member, rest⟩
    exact ⟨found, List.mem_append_left _ member, rest⟩

theorem Drawn.update {env : Env} (gradual : Gradual env.extractResponseCodes) {responses : List Response} (drawn : table.Drawn env responses)
    {response : Response} (apart : Apart env (responses ++ [response])) {seed : Nat} {dryRun : Bool}
    (updated : table.updateStateAwareVariables env seed response dryRun = .ok after) : after.Drawn env (responses ++ [response]) := by
  rcases update_cases updated with ⟨silent, rfl⟩ | ⟨stateSequence, regions, entry, last, answered, extracted, annotated, here, listed, quiet⟩
  · refine { drawn.toPaired with paths := fun hashKey => ?_, states := fun stateId => ?_ }
    · simp only [answers_silent silent]
      exact drawn.paths hashKey
    · simp only [answers_silent silent]
      exact drawn.states stateId
  · have drawn' := drawn.updateIpsm apart answered extracted
    obtain ⟨codes, rfl⟩ := gradual.begins (List.length_pos_of_ne_nil fun none_ => answered (Or.inl none_)) extracted
    have visited (stateId : Nat) (steps : 2 ≤ (0 :: codes).length) (member : stateId ∈ 0 :: codes) :
        (table.updateIpsm (0 :: codes)).infos stateId ≠ none := by
      rw [drawn'.known, ← drawn'.vertices, drawn'.states]
      exact ⟨0 :: codes, (answers_append responses answered extracted _).mpr (Or.inr rfl), steps, member⟩
    have found : ∀ region ∈ regions, ∀ stateId, region.getLast? = some stateId →
        stateId = 0 ∨ (table.updateIpsm (0 :: codes)).infos stateId ≠ none := by
      intro region member stateId ends
      rcases annotate_mem annotated region member with rfl | ⟨size, listed, _, extracted'⟩
      · cases ends
      · have part := gradual.prefix_ (response.within size listed) extracted' extracted
        have inside := part.subset (List.mem_of_getLast? ends)
        by_cases steps : 2 ≤ (0 :: codes).length
        · exact Or.inr (visited stateId steps inside)
        · rw [List.length_cons] at steps
          obtain rfl := List.eq_nil_of_length_eq_zero (show codes.length = 0 by omega)
          exact Or.inl (List.mem_singleton.mp inside)
    obtain ⟨graph, known⟩ := listSeeds_quiet (by exact found) listed
    exact drawn'.quiet (quiet.graph.trans graph) fun stateId => (quiet.known stateId).trans (known stateId)

def savedResponses : Event → List Response
  | .saved response => [response]
  | _ => []

theorem Apart.first {env : Env} {first rest : List Response} (apart : Apart env (first ++ rest)) : Apart env first := by
  have wider {stateSequence : List Nat} (answered : Answers env first stateSequence) : Answers env (first ++ rest) stateSequence := by
    obtain ⟨response, member, held⟩ := answered
    exact ⟨response, List.mem_append_left rest member, held⟩
  exact fun one other answered answered' same => apart one other (wider answered) (wider answered') same

theorem Drawn.act {env : Env} (gradual : Gradual env.extractResponseCodes) {responses : List Response} (drawn : table.Drawn env responses)
    {event : Event} (apart : Apart env (responses ++ savedResponses event)) (acted : act env table event = .ok after) :
    after.Drawn env (responses ++ savedResponses event) := by
  by_cases saved : ∃ response, event = .saved response
  · obtain ⟨response, rfl⟩ := saved
    have added : (table.addToQueue response.bytes.length).Drawn env responses := by
      refine drawn.quiet ?_ fun stateId => by rw [(addToQueue_annotations table _).1]
      simp only [StateTable.addToQueue]
      split <;> rfl
    exact added.update gradual apart acted
  · rcases act_cases acted with quiet | ⟨response, rfl, _⟩
    · have none_ : savedResponses event = [] := by
        cases event with
        | saved response => exact absurd ⟨response, rfl⟩ saved
        | _ => rfl
      rw [none_, List.append_nil]
      exact drawn.quiet quiet.graph quiet.known
    · exact absurd ⟨response, rfl⟩ saved

theorem Drawn.run {env : Env} (gradual : Gradual env.extractResponseCodes) {responses : List Response} (drawn : table.Drawn env responses)
    {events : List Event} (apart : Apart env (responses ++ events.flatMap savedResponses))
    (ran : Logic.run (StateTable.act env) table events = .ok after) :
    after.Drawn env (responses ++ events.flatMap savedResponses) := by
  induction events generalizing table responses with
  | nil =>
    obtain rfl := Except.ok.inj ran
    simpa using drawn
  | cons event events ih =>
    obtain ⟨middle, step, rest⟩ := run_cons_ok ran
    rw [List.flatMap_cons, ← List.append_assoc] at apart ⊢
    exact ih (drawn.act gradual apart.first step) apart rest

theorem Drawn.calibrate_all {env : Env} (gradual : Gradual env.extractResponseCodes) {responses : List Response}
    (drawn : table.Drawn env responses) {runs : List DryRun} (apart : Apart env (responses ++ runs.map DryRun.response)) {bound : Nat}
    (ran : Logic.run (calibrate env) table (runs.zipIdx bound) = .ok after) : after.Drawn env (responses ++ runs.map DryRun.response) := by
  induction runs generalizing table responses bound with
  | nil =>
    obtain rfl := Except.ok.inj ran
    simpa using drawn
  | cons dryRun runs ih =>
    obtain ⟨middle, step, rest⟩ := run_cons_ok ran
    rw [List.map_cons, ← List.singleton_append, ← List.append_assoc] at apart ⊢
    have marked : ({ table with
        queue := table.queue.modify bound fun entry => { entry with isInitialSeed := true } } : StateTable).Drawn env responses :=
      drawn.quiet rfl fun _ => Iff.rfl
    exact ih (marked.update gradual apart.first step) apart rest

/-- Where `hash32` tells the sequences of a campaign apart, the graph has the states of the responses that have a step, each once, and
the vertices are the places of `state_ids`: no state is found that the graph has not. -/
theorem campaign_drawn {env : Env} (steady : env.extractResponseCodes ∈ steadyExtractors) {runs : List DryRun} {events : List Event}
    (ran : campaign env runs events = .ok table)
    (apart : Apart env (runs.map DryRun.response ++ events.flatMap savedResponses)) :
    table.nodes = table.stateIds ∧ table.stateIds.Nodup ∧ ∀ stateId, stateId ∈ table.nodes ↔
      ∃ stateSequence, Answers env (runs.map DryRun.response ++ events.flatMap savedResponses) stateSequence ∧
        2 ≤ stateSequence.length ∧ stateId ∈ stateSequence := by
  have gradual := steadyExtractors_gradual steady
  obtain ⟨start, set, rest⟩ := bind_ok ran
  split at rest
  · cases rest
  · have bare : ({} : StateTable).Drawn env [] := by
      refine ⟨⟨rfl, List.nodup_nil, by simp⟩, fun hashKey => ?_, fun stateId => ?_⟩
      · simp [Answers]
      · simp [Answers]
    have enqueued (runs : List DryRun) {before : StateTable} (drawn : before.Drawn env []) :
        (runs.foldl (fun table dryRun => table.addToQueue dryRun.regionCount) before).Drawn env [] := by
      induction runs generalizing before with
      | nil => exact drawn
      | cons dryRun runs ih =>
        apply ih
        refine drawn.quiet ?_ fun stateId => by rw [(addToQueue_annotations before _).1]
        simp only [StateTable.addToQueue]
        split <;> rfl
    have set_up := (enqueued runs bare).calibrate_all gradual apart.first set
    have last := set_up.run gradual apart rest
    exact ⟨last.vertices, last.once, last.states⟩

def refusal : Response := ⟨ascii "220 ready\r\n331 user\r\n530 no\r\n", [11, 21, 29], by decide, by decide⟩

theorem campaign_drawn_greeting : ∃ table, campaign greetingEnv [greeting] [.saved refusal] = .ok table ∧
    table.nodes = table.stateIds ∧ table.stateIds.Nodup ∧ 530 ∈ table.nodes := by
  have ends : (campaign greetingEnv [greeting] [.saved refusal]).toOption.any (fun _ => true) = true := by decide +kernel
  obtain ⟨table, ran, _⟩ := checked_ok ends
  have refused : greetingEnv.extractResponseCodes (refusal.buf ++ [0]) refusal.buf.length = some [0, 220, 331, 530] := by decide
  have answers (stateSequence : List Nat)
      (answered : Answers greetingEnv ([greeting].map DryRun.response ++ [Event.saved refusal].flatMap savedResponses) stateSequence) :
      stateSequence = [0, 220, 331] ∨ stateSequence = [0, 220, 331, 530] := by
    obtain ⟨response, member, _, extracted⟩ := answered
    have either : response = greeting.response ∨ response = refusal := by simpa [savedResponses] using member
    rcases either with rfl | rfl
    · have found : greetingEnv.extractResponseCodes (greeting.response.buf ++ [0]) greeting.response.buf.length = some [0, 220, 331] := by decide
      exact Or.inl (Option.some.inj (extracted.symm.trans found))
    · exact Or.inr (Option.some.inj (extracted.symm.trans refused))
  have apart : Apart greetingEnv ([greeting].map DryRun.response ++ [Event.saved refusal].flatMap savedResponses) := by
    intro first second answered answered' same
    rcases answers first answered with rfl | rfl
    · rcases answers second answered' with rfl | rfl
      · rfl
      · exact absurd same (by decide +kernel)
    · rcases answers second answered' with rfl | rfl
      · exact absurd same (by decide +kernel)
      · rfl
  obtain ⟨vertices, once, states⟩ := campaign_drawn (by simp [greetingEnv, steadyExtractors]) ran apart
  refine ⟨table, ran, vertices, once, (states 530).mpr ⟨[0, 220, 331, 530], ⟨refusal, ?_, by decide, refused⟩, by decide, by decide⟩⟩
  simp [savedResponses]

theorem words_last (pairs : List (Nat × Nat)) (last : Nat) :
    words (pairs.flatMap (fun pair => [pair.1, pair.2]) ++ [last]) = words (pairs.flatMap fun pair => [pair.1, pair.2]) := by
  induction pairs with
  | nil => rfl
  | cons pair rest ih => simp only [List.flatMap_cons, List.cons_append, List.nil_append, words, ih]

/-- A sequence of an odd number of states is hashed without its last. -/
theorem hash32_last (pairs : List (Nat × Nat)) (one other seed : Nat) :
    hash32 (pairs.flatMap (fun pair => [pair.1, pair.2]) ++ [one]) seed =
      hash32 (pairs.flatMap (fun pair => [pair.1, pair.2]) ++ [other]) seed := by
  simp only [hash32, words_last, List.length_append, List.length_singleton]

/-- The server refuses the user. -/
def early : Response := ⟨ascii "220 ready\r\n530 no\r\n", [11, 19], by decide, by decide⟩

-- The last state of the sequence is not hashed: `530` is found for the seed, and is no vertex.
example : (campaign greetingEnv [greeting] [.saved early]).toOption.map (fun table => (table.nodes, table.stateIds)) =
    some ([0, 220, 331], [0, 220, 331, 530]) := by decide +kernel

end Graph

end LtlFuzz.Fuzzer.StateTable

import LtlFuzz.PacketGen.GrammarFuzzing

/-! What one iteration of the fuzzer does with each child that it samples. The lists of children,
answers and states stay in step, so that no child is credited with what another one led to. -/

namespace LtlFuzz.PacketGen
open Driver (Provenance ValidPacket bytesToHex runTrace writeTraceToFile provenanceText)
open Logic (Draw bind_ok)

section Bookkeeping

variable {Score : Type} (scoring : Scoring Score) (lib : GraphLib) (env : Environment)

/-- The queue of a state. -/
def TripleQueue.population (q : TripleQueue Score) : OracleState → List (Child Score)
  | .nothing => q.nothing
  | .confirmed => q.confirmed
  | .accepted => q.accepted
  | .ignore => []

def getChildFromState : StateChild Score → Child Score
  | .nothing x => x
  | .confirmed x => x
  | .accepted x => x

def StateChild.state : StateChild Score → OracleState
  | .nothing _ => .nothing
  | .confirmed _ => .confirmed
  | .accepted _ => .accepted

/-- The tenths that an answer of the driver is worth. -/
def reward : Output → Nat
  | .timeout => 1
  | .expectedOutput => 3
  | .crash => 5
  | .unexpectedOutput => 7
  | .message _ => 0

/-- The packet that is made of a grammar without its dead rules. -/
def packetOf (i : Nat) (grammar : Ast) : Option (List UInt8) :=
  match deadRuleRemoval lib grammar "SAE_PACKET" with
  | .ok (some grammarToSygus) => env.sygusGrammarToPacket i grammarToSygus
  | _ => none

/-- A sampled child with the state of its queue, its mutation and what that leads to. -/
structure Turn (Score : Type) where
  child : Child Score
  state : OracleState
  mutation : Mutation
  outcome : Option (ValidPacket × Ast)

namespace Turn

/-- The child is from the queue of its state. -/
def Sampled (q : TripleQueue Score) (turn : Turn Score) : Prop := turn.child ∈ q.population turn.state

/-- The child that its mutation makes of the sampled one. -/
def mutant (turn : Turn Score) : Child Score := PacketGen.mutant scoring turn.child turn.outcome

/-- What a mutation leads to: only a correct packet is put behind the trace, and then the grammar stays. -/
structure Mutated (turn : Turn Score) : Prop where
  possible : (applyMutation lib turn.mutation turn.child.grammar 10).Yields turn.outcome
  correct : ∀ injected grammar, turn.outcome = some (injected, grammar) → turn.mutation = .correctPacket →
    injected ∈ [ValidPacket.commit, .confirm, .associationRequest] ∧ grammar = turn.child.grammar
  others : ∀ injected grammar, turn.outcome = some (injected, grammar) → turn.mutation ≠ .correctPacket → injected = .nothing

/-- There is no packet. -/
def Dropped (i : Nat) (turn : Turn Score) : Prop :=
  ∀ injected grammar, turn.outcome = some (injected, grammar) → packetOf lib env i grammar = none

/-- A child is tagged with the state that the oracle answers to its own trace, or else with that of its queue. -/
def Credited (i : Nat) (turn : Turn Score) (tagged : StateChild Score) : Prop :=
  ∃ injected grammar packet trace lines answer, turn.outcome = some (injected, grammar) ∧ packetOf lib env i grammar = some packet ∧
    trace = turn.child.trace ++ (if turn.mutation = .correctPacket then [.validPacket injected] else []) ++ [.rawPacket packet] ∧
    runTrace trace = .ok lines ∧ waitForOracleResponse (env.oracleResponse i (writeTraceToFile lines)) = .ok answer ∧
    tagged.state = (if answer = .ignore then turn.state else answer) ∧
    getChildFromState tagged = ⟨trace, grammar,
      scoring.raise turn.child.score (reward (waitForPythonResponse (env.driverResponse i (writeTraceToFile lines))))⟩

end Turn

/-- Each turn from a position on leads to one child with a tag, or to none where there is no packet. -/
inductive Bookkept : Nat → List (Turn Score) → List (StateChild Score) → Prop where
  | nil (i) : Bookkept i [] []
  | dropped {i turn turns tagged} (none : turn.Dropped lib env i) (rest : Bookkept (i + 1) turns tagged) :
    Bookkept i (turn :: turns) tagged
  | credited {i turn turns child tagged} (own : turn.Credited scoring lib env i child) (rest : Bookkept (i + 1) turns tagged) :
    Bookkept i (turn :: turns) (child :: tagged)

/-- The ways in which what is done to a single grammar or trace fails. -/
def operatorFaults : List Fault :=
  [.internalError "Empty list", .invalidArgument "Random.int", .internalError "error crossover",
    .internalError "unexpected crossover", .internalError "Vertex not found", .internalError "unexpected provenance element..", .diverges]

/-- The ways in which lists of different lengths fail. -/
def lengthFaults : List Fault :=
  [.invalidArgument "List.map2", .internalError "child list exhausted, state list non-empty",
    .internalError "state list exhausted, child list non-empty"]

/-- The answers of a driver and an oracle that work. -/
structure Environment.Answers : Prop where
  driver : ∀ i message, env.driverResponse i message ∈ ["CRASH", "TIMEOUT", "EXPECTED_OUTPUT", "UNEXPECTED_OUTPUT"]
  oracle : ∀ i message, env.oracleResponse i message ∈ ["NOTHING", "CONFIRMED", "ACCEPTED", "IGNORE"]

end Bookkeeping

section Choices

/-- A fault of an operator. -/
private abbrev OperatorFault (fault : Fault) : Prop := fault ∈ operatorFaults

private theorem bind_error {α β : Type} {first : Except Fault α} {next : α → Except Fault β} {fault : Fault}
    (failed : (first >>= next) = .error fault) : first = .error fault ∨ ∃ value, first = .ok value ∧ next value = .error fault := by
  cases first with
  | error other =>
    cases failed
    exact .inl rfl
  | ok value => exact .inr ⟨value, rfl, failed⟩

private theorem pick_ensures : pick.Ensures (fun _ => True) OperatorFault := by
  apply Draw.Ensures.next
  decide

private theorem randomElement_ok {α : Type} {items : List α} {drawn : Nat} {item : α} (found : randomElement items drawn = .ok item) :
    item ∈ items := by
  rw [randomElement] at found
  cases known : items[drawn % items.length]? with
  | none =>
    rw [known] at found
    cases found
  | some other =>
    rw [known] at found
    cases found
    exact List.mem_of_getElem? known

private theorem randomElement_error {α : Type} {items : List α} {drawn : Nat} {fault : Fault}
    (failed : randomElement items drawn = .error fault) : OperatorFault fault := by
  rw [randomElement] at failed
  cases known : items[drawn % items.length]? with
  | none =>
    rw [known] at failed
    cases failed
    decide
  | some other =>
    rw [known] at failed
    cases failed

private theorem choose_ensures {α : Type} (items : List α) : (choose items).Ensures (fun item => item ∈ items) OperatorFault := by
  apply Draw.Ensures.bind pick_ensures
  intro drawn _
  apply Draw.Ensures.lift
  · exact fun item found => randomElement_ok found
  · exact fun fault failed => randomElement_error failed

private theorem findRandomProductionRule_ensures (g : Ast) :
    Draw.Ensures (findRandomProductionRule g) (fun _ => True) OperatorFault := by
  intro tape
  induction tape with
  | nil => exact (by decide : OperatorFault .diverges)
  | cons drawn tape ih =>
    rw [findRandomProductionRule]
    cases known : randomElement g drawn with
    | error fault => exact randomElement_error known
    | ok element =>
      cases element with
      | prodRule nt rhss => trivial
      | typeAnnot nt ty scs => exact ih

/-- Both are rules. -/
private theorem getProductionRulesForCrossover_ensures (g : Ast) :
    Draw.Ensures (getProductionRulesForCrossover g) (fun rules => ∃ a b c d, rules = (.prodRule a b, .prodRule c d)) OperatorFault
  | [] => (by decide : OperatorFault .diverges)
  | [_] => (by decide : OperatorFault .diverges)
  | first :: second :: tape => by
    have again := getProductionRulesForCrossover_ensures g tape
    rw [getProductionRulesForCrossover]
    cases one : randomElement g first with
    | error fault => exact randomElement_error one
    | ok r1 =>
      cases two : randomElement g second with
      | error fault => exact randomElement_error two
      | ok r2 =>
        cases r1 with
        | typeAnnot nt ty scs => exact again
        | prodRule a b =>
          cases r2 with
          | typeAnnot nt ty scs => exact again
          | prodRule c d =>
            simp only [bind, Except.bind]
            by_cases reserved : a = "SAE_PACKET" ∨ c = "SAE_PACKET"
            · rw [if_pos reserved]
              exact again
            · rw [if_neg reserved]
              exact ⟨a, b, c, d, rfl⟩

private theorem addToRule_error {nt ntName : String} {drawn : Nat} (g : Ast) {fault : Fault}
    (failed : addToRule nt ntName drawn g = .error fault) : OperatorFault fault := by
  induction g with
  | nil => cases failed
  | cons element rest ih =>
    cases element with
    | typeAnnot nt ty scs =>
      obtain failed | ⟨_, _, failed⟩ := bind_error failed
      · exact ih failed
      · cases failed
    | prodRule nonterminal prRhs =>
      unfold addToRule at failed
      split at failed
      · split at failed
        · cases failed
        · split at failed
          · cases failed
            decide
          · cases failed
        · cases failed
      · obtain failed | ⟨_, _, failed⟩ := bind_error failed
        · exact ih failed
        · cases failed

private theorem mutationAddS1_error {nt : String} {drawn : Nat} {g : Ast} {rule : Option Element} {fault : Fault}
    (failed : mutationAddS1 nt drawn g rule = .error fault) : OperatorFault fault := by
  rw [mutationAddS1.eq_def] at failed
  split at failed
  · exact addToRule_error g failed
  · cases failed
  · cases failed

private theorem replaceElement_error {first second : GrammarElement} {ges : List GrammarElement} {fault : Fault}
    (failed : replaceElement first second ges = .error fault) : OperatorFault fault := by
  induction ges with
  | nil =>
    cases failed
    decide
  | cons ge ges ih =>
    rw [replaceElement] at failed
    split at failed
    · cases failed
    · obtain failed | ⟨_, _, failed⟩ := bind_error failed
      · exact ih failed
      · cases failed

private theorem mutationCrossover_error {pick1 pick2 : Nat} {rhs1 rhs2 : ProdRuleRhs} {fault : Fault}
    (failed : mutationCrossover pick1 pick2 rhs1 rhs2 = .error fault) : OperatorFault fault := by
  rw [mutationCrossover.eq_def] at failed
  split at failed
  · cases failed
  · obtain failed | ⟨_, _, failed⟩ := bind_error failed
    · exact randomElement_error failed
    obtain failed | ⟨_, _, failed⟩ := bind_error failed
    · exact randomElement_error failed
    obtain failed | ⟨_, _, failed⟩ := bind_error failed
    · exact replaceElement_error failed
    obtain failed | ⟨_, _, failed⟩ := bind_error failed
    · exact replaceElement_error failed
    split at failed
    · cases failed
    · cases failed
      decide
  · cases failed
    decide

variable (lib : GraphLib)

/-- What a mutation of a grammar leads to. -/
private def Leads (m : Mutation) (g : Ast) (outcome : Option (ValidPacket × Ast)) : Prop :=
  ∀ injected grammar, outcome = some (injected, grammar) →
    (m = .correctPacket → injected ∈ [ValidPacket.commit, .confirm, .associationRequest] ∧ grammar = g) ∧
      (m ≠ .correctPacket → injected = .nothing)

private theorem leads_none (m : Mutation) (g : Ast) : Leads m g none := by
  intro injected grammar same
  cases same

private theorem leads_nothing {m : Mutation} (other : m ≠ .correctPacket) (g z : Ast) : Leads m g (some (.nothing, z)) := by
  intro injected grammar same
  cases same
  exact ⟨fun correct => absurd correct other, fun _ => rfl⟩

private theorem leads_correct {type : ValidPacket} (valid : type ∈ [ValidPacket.commit, .confirm, .associationRequest]) (g : Ast) :
    Leads .correctPacket g (some (type, g)) := by
  intro injected grammar same
  cases same
  exact ⟨fun _ => ⟨valid, rfl⟩, fun other => absurd rfl other⟩

/-- A grammar that is checked is the outcome, or else the mutation is tried again. -/
private theorem checked_ensures {m : Mutation} (other : m ≠ .correctPacket) {g : Ast} {again : Chance (Option (ValidPacket × Ast))}
    (ensured : again.Ensures (Leads m g) OperatorFault) (result : Option Ast) :
    Draw.Ensures (match result with
      | some x => if checkWellFormedRules x then pure (some (.nothing, x)) else again
      | none => again) (Leads m g) OperatorFault := by
  cases result with
  | none => exact ensured
  | some x =>
    dsimp only
    split
    · exact .pure (leads_nothing other g x)
    · exact ensured

private theorem applyMutation_ensures (m : Mutation) (g : Ast) (count : Nat) :
    (applyMutation lib m g count).Ensures (Leads m g) OperatorFault := by
  induction count with
  | zero => exact .pure (leads_none m g)
  | succ count ih =>
    rw [applyMutation]
    apply Draw.Ensures.bind (choose_ensures nonterminals)
    intro nt _
    cases m with
    | add =>
      apply Draw.Ensures.bind (findRandomProductionRule_ensures g)
      intro rule _
      apply Draw.Ensures.bind pick_ensures
      intro drawn _
      apply Draw.Ensures.bind (.lift (fun _ _ => trivial) (fun fault failed => mutationAddS1_error failed))
      intro added _
      split
      · exact ih
      · exact .pure (leads_nothing (by decide) g _)
    | delete =>
      dsimp only
      split
      · exact ih
      · exact checked_ensures (by decide) ih _
    | modify =>
      apply Draw.Ensures.bind (choose_ensures _)
      intro operation _
      dsimp only
      split
      · exact .pure (leads_nothing (by decide) g _)
      · exact ih
    | crossOver =>
      apply Draw.Ensures.bind (getProductionRulesForCrossover_ensures g)
      intro rules both
      obtain ⟨a, b, c, d, rfl⟩ := both
      have extracted : Draw.Ensures (liftM (extractNtPo (.prodRule a b) (.prodRule c d)) : Chance _)
          (fun parts => parts = (a, c, b, d)) OperatorFault := .pure rfl
      apply Draw.Ensures.bind extracted
      rintro parts rfl
      apply Draw.Ensures.bind (choose_ensures b)
      intro rhs1 _
      apply Draw.Ensures.bind (choose_ensures d)
      intro rhs2 _
      apply Draw.Ensures.bind pick_ensures
      intro pick1 _
      apply Draw.Ensures.bind pick_ensures
      intro pick2 _
      apply Draw.Ensures.bind (.lift (fun _ _ => trivial) (fun fault failed => mutationCrossover_error failed))
      intro crossed _
      exact checked_ensures (by decide) ih _
    | correctPacket =>
      apply Draw.Ensures.bind (choose_ensures _)
      intro type valid
      cases type with
      | commit => exact .pure (leads_correct valid g)
      | confirm => exact .pure (leads_correct valid g)
      | associationRequest => exact .pure (leads_correct valid g)
      | nothing => exact absurd valid (by decide)
      | reset => exact absurd valid (by decide)
    | none => exact .pure (leads_nothing (by decide) g g)

end Choices

section Samples

variable {Score : Type} (scoring : Scoring Score)

private theorem mutationList_ensures (operations : List Mutation) (n : Nat) :
    (mutationList operations n).Ensures (fun ms => ms.length = n) OperatorFault := by
  induction n with
  | zero => exact .pure rfl
  | succ n ih =>
    apply Draw.Ensures.bind ih
    intro rest known
    apply Draw.Ensures.bind (choose_ensures operations)
    intro mutation _
    apply Draw.Ensures.pure
    rw [List.length_cons, known]

private theorem slice_subset {α : Type} (start count : Nat) (items : List α) : ∀ item ∈ slice start count items, item ∈ items := by
  fun_induction slice start count items with
  | case1 => exact fun item member => member
  | case2 start count hd tl ih => exact fun item member => List.mem_cons_of_mem hd (ih item member)
  | case3 count hd tl ih =>
    intro item member
    obtain rfl | later := List.mem_cons.mp member
    · exact List.mem_cons_self
    · exact List.mem_cons_of_mem hd (ih item later)
  | case4 => exact fun item member => nomatch member

private theorem sample_ensures {pop : List (Child Score)} (size : Nat) {acc remaining : List (Child Score)}
    (taken : ∀ child ∈ acc, child ∈ pop) (left : ∀ child ∈ remaining, child ∈ pop) :
    (sample scoring size acc remaining).Ensures (fun sampled => ∀ child ∈ sampled, child ∈ pop) OperatorFault := by
  induction size generalizing acc remaining with
  | zero => exact .pure taken
  | succ size ih =>
    rw [sample]
    split
    · exact .pure taken
    · apply Draw.Ensures.bind (choose_ensures remaining)
      intro elem chosen
      apply ih
      · intro child member
        obtain rfl | earlier := List.mem_cons.mp member
        · exact left child chosen
        · exact taken child earlier
      · exact fun child member => left child (List.mem_filter.mp member).1

private theorem sampleFromPercentileRange_ensures (pop : List (Child Score)) (lower upper size : Nat) :
    (sampleFromPercentileRange scoring pop lower upper size).Ensures (fun sampled => ∀ child ∈ sampled, child ∈ pop) OperatorFault := by
  rw [sampleFromPercentileRange]
  split
  · exact .pure fun child member => member
  · apply sample_ensures
    · exact fun child member => nomatch member
    · intro child member
      exact (List.perm_insertionSort _ pop).mem_iff.mp (slice_subset _ _ _ child member)

/-- Lists that are made from one list have one length. -/
private theorem listMap2_map {α β γ δ : Type} (f : β → γ → δ) (first : α → β) (second : α → γ) (items : List α) :
    listMap2 f (items.map first) (items.map second) = .ok (items.map fun item => f (first item) (second item)) := by
  induction items with
  | nil => rfl
  | cons item items ih =>
    rw [List.map_cons, List.map_cons, listMap2, ih]
    rfl

private theorem removeDuplicates_subset {α : Type} (same : α → α → Bool) (items : List α) :
    ∀ item ∈ removeDuplicates same items, item ∈ items := by
  induction items with
  | nil => exact fun item member => member
  | cons head items ih =>
    intro item member
    rw [removeDuplicates] at member
    split at member
    · exact List.mem_cons_of_mem head (ih item member)
    · obtain rfl | later := List.mem_cons.mp member
      · exact List.mem_cons_self
      · exact List.mem_cons_of_mem head (ih item later)

/-- Children with the state of their queue. -/
private def label (state : OracleState) (children : List (Child Score)) : List (Child Score × OracleState) :=
  children.map fun child => (child, state)

private theorem label_fst (state : OracleState) (children : List (Child Score)) : (label state children).map Prod.fst = children := by
  simp [label, Function.comp_def]

private theorem label_snd (state : OracleState) (children : List (Child Score)) :
    (label state children).map Prod.snd = children.map fun _ => state := by
  rw [label, List.map_map]
  rfl

private theorem label_inside {q : TripleQueue Score} {state : OracleState} {children : List (Child Score)}
    (known : ∀ child ∈ children, child ∈ q.population state) : ∀ pair ∈ label state children, pair.1 ∈ q.population pair.2 := by
  intro pair member
  obtain ⟨child, listed, rfl⟩ := List.mem_map.mp member
  exact known child listed

/-- Children and states are those of one list of pairs. -/
private theorem uniformSampleFromQueue_ensures (q : TripleQueue Score) :
    (uniformSampleFromQueue scoring q).Ensures (fun sampled => ∃ samples : List (Child Score × OracleState),
      sampled = (samples.map Prod.fst, samples.map Prod.snd) ∧ ∀ sample ∈ samples, sample.1 ∈ q.population sample.2) OperatorFault := by
  rw [uniformSampleFromQueue]
  apply Draw.Ensures.bind (sampleFromPercentileRange_ensures scoring q.nothing _ _ _)
  intro npTop npTopIn
  apply Draw.Ensures.bind (sampleFromPercentileRange_ensures scoring q.confirmed _ _ _)
  intro cnfTop cnfTopIn
  apply Draw.Ensures.bind (sampleFromPercentileRange_ensures scoring q.accepted _ _ _)
  intro accTop accTopIn
  apply Draw.Ensures.bind (sampleFromPercentileRange_ensures scoring q.nothing _ _ _)
  intro npBottom npBottomIn
  apply Draw.Ensures.bind (sampleFromPercentileRange_ensures scoring q.confirmed _ _ _)
  intro cnfBottom cnfBottomIn
  apply Draw.Ensures.bind (sampleFromPercentileRange_ensures scoring q.accepted _ _ _)
  intro accBottom accBottomIn
  let pairs := label .nothing npTop ++ label .nothing npBottom ++ label .confirmed cnfTop ++ label .confirmed cnfBottom ++
    label .accepted accTop ++ label .accepted accBottom
  have inside : ∀ pair ∈ pairs, pair.1 ∈ q.population pair.2 := by
    intro pair member
    simp only [pairs, List.mem_append] at member
    obtain ((((member | member) | member) | member) | member) | member := member
    · exact label_inside npTopIn pair member
    · exact label_inside npBottomIn pair member
    · exact label_inside cnfTopIn pair member
    · exact label_inside cnfBottomIn pair member
    · exact label_inside accTopIn pair member
    · exact label_inside accBottomIn pair member
  have children : npTop ++ npBottom ++ cnfTop ++ cnfBottom ++ accTop ++ accBottom = pairs.map Prod.fst := by
    simp only [pairs, List.map_append, label_fst]
  have states : npTop.map (fun _ => OracleState.nothing) ++ npBottom.map (fun _ => OracleState.nothing) ++
      cnfTop.map (fun _ => OracleState.confirmed) ++ cnfBottom.map (fun _ => OracleState.confirmed) ++
      accTop.map (fun _ => OracleState.accepted) ++ accBottom.map (fun _ => OracleState.accepted) = pairs.map Prod.snd := by
    simp only [pairs, List.map_append, label_snd]
  rw [children, states]
  dsimp only
  rw [listMap2_map]
  apply Draw.Ensures.bind (.pure rfl : Draw.Ensures (liftM (.ok (pairs.map fun pair => (pair.1, pair.2)) : Except Fault _) : Chance _)
    (fun zipped => zipped = pairs.map fun pair => (pair.1, pair.2)) OperatorFault)
  rintro zipped rfl
  apply Draw.Ensures.pure
  refine ⟨_, rfl, ?_⟩
  intro sample member
  apply inside sample
  simpa using removeDuplicates_subset _ _ sample member

variable (lib : GraphLib)

/-- Each child is mutated in a turn of its own. -/
private theorem newMutatedSet_ensures (samples : List (Child Score × OracleState)) {mutations : List Mutation}
    (paired : mutations.length = samples.length) :
    (newMutatedSet lib scoring (samples.map Prod.fst) mutations samples.length).Ensures
      (fun mutated => ∃ turns : List (Turn Score), turns.map (fun turn => (turn.child, turn.state)) = samples ∧
        turns.map Turn.mutation = mutations ∧ (∀ turn ∈ turns, turn.Mutated lib) ∧ mutated = turns.map (Turn.mutant scoring))
      OperatorFault := by
  induction samples generalizing mutations with
  | nil =>
    rw [List.length_eq_zero_iff.mp paired]
    exact .pure ⟨[], rfl, rfl, fun turn member => (nomatch member), rfl⟩
  | cons sample samples ih =>
    cases mutations with
    | nil => cases paired
    | cons mutation mutations =>
      rw [List.map_cons, List.length_cons, newMutatedSet]
      apply Draw.Ensures.bind (applyMutation_ensures lib mutation sample.1.grammar 10).yields
      intro outcome possible
      apply Draw.Ensures.bind (ih (Nat.succ.inj paired))
      intro rest others
      obtain ⟨turns, sampled, chosen, mutated, rfl⟩ := others
      apply Draw.Ensures.pure
      refine ⟨⟨sample.1, sample.2, mutation, outcome⟩ :: turns, ?_, ?_, ?_, rfl⟩
      · rw [List.map_cons, sampled]
      · rw [List.map_cons, chosen]
      · intro turn member
        obtain rfl | later := List.mem_cons.mp member
        · exact ⟨possible.2, fun injected grammar same => (possible.1 injected grammar same).1,
            fun injected grammar same => (possible.1 injected grammar same).2⟩
        · exact mutated turn later

end Samples

section Answers

variable {Score : Type} (scoring : Scoring Score) (lib : GraphLib) (env : Environment)

private theorem same_dummy : (Child.dummy scoring).same scoring (Child.dummy scoring) = true := by
  simp [Child.same, Child.dummy, scoring.same_zero]

private theorem grammar_of_same {child : Child Score} (same : child.same scoring (Child.dummy scoring) = true) : child.grammar = [] := by
  simp only [Child.same, Child.dummy, Bool.and_eq_true] at same
  exact of_decide_eq_true same.1.2

private theorem deadRuleRemoval_error {g : Ast} {start : String} {fault : Fault}
    (failed : deadRuleRemoval lib g start = .error fault) : OperatorFault fault := by
  have vertex : ∀ {graph label fault}, findVertex graph label = .error fault → OperatorFault fault := by
    intro graph label fault failed
    rw [findVertex] at failed
    split at failed
    · cases failed
    · cases failed
      decide
  have paths : ∀ {graph start names fault}, connectedPaths lib graph start names = .error fault → OperatorFault fault := by
    intro graph start names fault failed
    induction names with
    | nil => cases failed
    | cons name names ih =>
      obtain failed | ⟨_, _, failed⟩ := bind_error failed
      · exact vertex failed
      obtain failed | ⟨_, _, failed⟩ := bind_error failed
      · exact ih failed
      · cases failed
  obtain failed | ⟨_, _, failed⟩ := bind_error failed
  · exact vertex failed
  obtain failed | ⟨_, _, failed⟩ := bind_error failed
  · exact paths failed
  · cases failed

private theorem packetOf_empty (i : Nat) : packetOf lib env i [] = none := by
  have missing : deadRuleRemoval lib [] "SAE_PACKET" = .error (.internalError "Vertex not found") := rfl
  rw [packetOf, missing]

private theorem runTrace_error {trace : List Provenance} {fault : Fault} (failed : runTrace trace = .error fault) : OperatorFault fault := by
  induction trace with
  | nil => cases failed
  | cons item trace ih =>
    rw [runTrace, List.mapM_cons] at failed
    obtain failed | ⟨_, _, failed⟩ := bind_error failed
    · cases item with
      | rawPacket bytes => cases failed
      | validPacket type =>
        cases type with
        | nothing =>
          cases failed
          decide
        | reset =>
          cases failed
          decide
        | commit => cases failed
        | confirm => cases failed
        | associationRequest => cases failed
    obtain failed | ⟨_, _, failed⟩ := bind_error failed
    · exact ih failed
    · cases failed

private theorem runTrace_snoc {trace : List Provenance} {lines : List (List Char)} (ran : runTrace trace = .ok lines) (packet : List UInt8) :
    runTrace (trace ++ [.rawPacket packet]) = .ok (lines ++ [bytesToHex packet]) := by
  rw [runTrace] at ran ⊢
  rw [List.mapM_append, ran]
  rfl

private theorem waitForOracleResponse_ok {response : String} (known : response ∈ ["NOTHING", "CONFIRMED", "ACCEPTED", "IGNORE"]) :
    ∃ state, waitForOracleResponse response = .ok state := by
  simp only [List.mem_cons, List.not_mem_nil, or_false] at known
  obtain rfl | rfl | rfl | rfl := known
  · exact ⟨.nothing, rfl⟩
  · exact ⟨.confirmed, rfl⟩
  · exact ⟨.accepted, rfl⟩
  · exact ⟨.ignore, rfl⟩

private theorem waitForPythonResponse_plain {response : String}
    (known : response ∈ ["CRASH", "TIMEOUT", "EXPECTED_OUTPUT", "UNEXPECTED_OUTPUT"]) (text : String) :
    waitForPythonResponse response ≠ .message text := by
  simp only [List.mem_cons, List.not_mem_nil, or_false] at known
  obtain rfl | rfl | rfl | rfl := known
  · exact fun same => nomatch same
  · exact fun same => nomatch same
  · exact fun same => nomatch same
  · exact fun same => nomatch same

/-- The answer to a turn: there is no packet, or it is the answer to the trace of the turn with its packet. -/
private def Answered (i : Nat) (turn : Turn Score) (answer : (Provenance × Output) × OracleState) : Prop :=
  (answer = noPacket ∧ turn.Dropped lib env i) ∨
    ∃ injected grammar packet lines oracle, turn.outcome = some (injected, grammar) ∧ packetOf lib env i grammar = some packet ∧
      runTrace ((turn.mutant scoring).trace ++ [.rawPacket packet]) = .ok lines ∧
      waitForOracleResponse (env.oracleResponse i (writeTraceToFile lines)) = .ok oracle ∧
      answer = ((.rawPacket packet, waitForPythonResponse (env.driverResponse i (writeTraceToFile lines))), oracle)

private theorem mutant_grammar {turn : Turn Score} {injected : ValidPacket} {grammar : Ast}
    (outcome : turn.outcome = some (injected, grammar)) : (turn.mutant scoring).grammar = grammar := by
  rw [Turn.mutant, outcome]
  cases injected <;> rfl

private theorem runSequence_ok (answers : env.Answers) (i : Nat) (turn : Turn Score) :
    match runSequence scoring lib env i (turn.mutant scoring) with
    | .ok answer => Answered scoring lib env i turn answer
    | .error fault => OperatorFault fault := by
  rw [runSequence]
  by_cases empty : (turn.mutant scoring).same scoring (Child.dummy scoring) = true
  · rw [if_pos empty]
    refine .inl ⟨rfl, ?_⟩
    intro injected grammar outcome
    rw [← mutant_grammar scoring outcome, grammar_of_same scoring empty]
    exact packetOf_empty lib env i
  · rw [if_neg empty]
    cases outcome : turn.outcome with
    | none =>
      rw [Turn.mutant, outcome] at empty
      exact absurd (same_dummy scoring) empty
    | some result =>
      obtain ⟨injected, grammar⟩ := result
      rw [mutant_grammar scoring outcome]
      have dropped : packetOf lib env i grammar = none → turn.Dropped lib env i := by
        intro none_ injected' grammar' outcome'
        cases outcome.symm.trans outcome'
        exact none_
      cases removed : deadRuleRemoval lib grammar "SAE_PACKET" with
      | error fault => exact deadRuleRemoval_error lib removed
      | ok result =>
        cases result with
        | none => exact .inl ⟨rfl, dropped (by rw [packetOf, removed])⟩
        | some grammarToSygus =>
          have made : packetOf lib env i grammar = env.sygusGrammarToPacket i grammarToSygus := by rw [packetOf, removed]
          cases packets : env.sygusGrammarToPacket i grammarToSygus with
          | none =>
            simp only [bind, Except.bind, packets]
            exact .inl ⟨rfl, dropped (made.trans packets)⟩
          | some packet =>
            simp only [bind, Except.bind, packets]
            cases ran : runTrace (turn.mutant scoring).trace with
            | error fault => exact runTrace_error ran
            | ok lines =>
              obtain ⟨oracle, answered⟩ := waitForOracleResponse_ok (answers.oracle i (writeTraceToFile (lines ++ [bytesToHex packet])))
              simp only [callDriverNew, bind, Except.bind, answered]
              exact .inr ⟨injected, grammar, packet, _, oracle, outcome, made.trans packets, runTrace_snoc ran packet, answered, rfl⟩

/-- Turns from a position on, each with its answer. -/
private def AllAnswered : Nat → List (Turn Score × ((Provenance × Output) × OracleState)) → Prop
  | _, [] => True
  | i, row :: rows => Answered scoring lib env i row.1 row.2 ∧ AllAnswered (i + 1) rows

private theorem runSequences_ok (answers : env.Answers) (turns : List (Turn Score)) (i : Nat) :
    match runSequences scoring lib env i (turns.map (Turn.mutant scoring)) with
    | .ok outputs => ∃ rows, rows.map Prod.fst = turns ∧ rows.map Prod.snd = outputs ∧ AllAnswered scoring lib env i rows
    | .error fault => OperatorFault fault := by
  induction turns generalizing i with
  | nil => exact ⟨[], rfl, rfl, trivial⟩
  | cons turn turns ih =>
    have first := runSequence_ok scoring lib env answers i turn
    have others := ih (i + 1)
    rw [List.map_cons, runSequences]
    cases one : runSequence scoring lib env i (turn.mutant scoring) with
    | error fault =>
      rw [one] at first
      exact first
    | ok answer =>
      rw [one] at first
      cases rest : runSequences scoring lib env (i + 1) (turns.map (Turn.mutant scoring)) with
      | error fault =>
        rw [rest] at others
        exact others
      | ok outputs =>
        rw [rest] at others
        obtain ⟨rows, same, listed, answered⟩ := others
        exact ⟨(turn, answer) :: rows, congrArg (turn :: ·) same, congrArg (answer :: ·) listed, first, answered⟩

end Answers

section Credits

variable {Score : Type} (scoring : Scoring Score) (lib : GraphLib) (env : Environment)

/-- A child with a tag; what is to be ignored is no tag. -/
private def tagOf (state : OracleState) (child : Child Score) : StateChild Score :=
  match state with
  | .nothing => .nothing child
  | .confirmed => .confirmed child
  | .accepted => .accepted child
  | .ignore => .nothing child

private theorem tagOf_state {state : OracleState} (known : state ≠ .ignore) (child : Child Score) : (tagOf state child).state = state := by
  cases state with
  | ignore => exact absurd rfl known
  | nothing => rfl
  | confirmed => rfl
  | accepted => rfl

private theorem tagOf_child (state : OracleState) (child : Child Score) : getChildFromState (tagOf state child) = child := by
  cases state <;> rfl

/-- A child behind whose trace a packet was sent. -/
private def Child.scored (child : Child Score) (output : Provenance × Output) : Child Score :=
  ⟨child.trace ++ [output.1], child.grammar, scoring.raise child.score (reward output.2)⟩

/-- Children and answers that are made from one list are scored in step. -/
private theorem scoreFunction_map {α : Type} (output : α → Provenance × Output) (child : α → Child Score) (items : List α)
    (plain : ∀ item ∈ items, ∀ text, (output item).2 ≠ .message text) :
    ∃ traces, scoreFunction scoring (items.map output) (items.map child) =
      .ok (traces, items.map fun item => (child item).scored scoring (output item)) := by
  induction items with
  | nil => exact ⟨[], rfl⟩
  | cons item items ih =>
    obtain ⟨traces, scored⟩ := ih fun other member => plain other (List.mem_cons_of_mem item member)
    have own := plain item List.mem_cons_self
    rw [List.map_cons, List.map_cons, List.map_cons]
    cases known : output item with | mk packet symbol =>
    rw [known] at own
    obtain ⟨trace, grammar, score⟩ := child item
    simp only [scoreFunction, scored, bind, Except.bind]
    cases symbol with
    | timeout => exact ⟨_, rfl⟩
    | expectedOutput => exact ⟨_, rfl⟩
    | crash => exact ⟨_, rfl⟩
    | unexpectedOutput => exact ⟨_, rfl⟩
    | message text => exact absurd rfl (own text)

/-- Children and states that are made from one list are tagged in step. -/
private theorem mapPacketToState_map {α : Type} (child : α → Child Score) (old new : α → OracleState) (items : List α)
    (known : ∀ item ∈ items, old item ≠ .ignore) :
    mapPacketToState (items.map child) (items.map old) (items.map new) =
      .ok (items.map fun item => tagOf (if new item = .ignore then old item else new item) (child item)) := by
  induction items with
  | nil => rfl
  | cons item items ih =>
    have rest := ih fun other member => known other (List.mem_cons_of_mem item member)
    have own := known item List.mem_cons_self
    rw [List.map_cons, List.map_cons, List.map_cons, List.map_cons]
    cases answer : new item with
    | nothing => rw [mapPacketToState, rest]; rfl
    | confirmed => rw [mapPacketToState, rest]; rfl
    | accepted => rw [mapPacketToState, rest]; rfl
    | ignore =>
      cases before : old item with
      | nothing => rw [mapPacketToState, rest]; rfl
      | confirmed => rw [mapPacketToState, rest]; rfl
      | accepted => rw [mapPacketToState, rest]; rfl
      | ignore => exact absurd before own

/-- The rows for which there is a packet. -/
private def kept (rows : List (Turn Score × ((Provenance × Output) × OracleState))) : List (Turn Score × ((Provenance × Output) × OracleState)) :=
  rows.filter fun row => row.2.1.1 ≠ .validPacket .nothing

private theorem executeMutatedPopulation_rows (rows : List (Turn Score × ((Provenance × Output) × OracleState)))
    (ran : runSequences scoring lib env 0 (rows.map fun row => row.1.mutant scoring) = .ok (rows.map Prod.snd))
    (plain : ∀ row ∈ rows, ∀ text, row.2.1.2 ≠ .message text) :
    ∃ traces, executeMutatedPopulation scoring lib env (rows.map fun row => row.1.mutant scoring) (rows.map fun row => row.1.state) =
      .ok (((traces, (kept rows).map fun row => (row.1.mutant scoring).scored scoring row.2.1), (kept rows).map fun row => row.2.2),
        (kept rows).map fun row => row.1.state) := by
  obtain ⟨traces, scored⟩ := scoreFunction_map scoring (fun row : Turn Score × ((Provenance × Output) × OracleState) => row.2.1)
    (fun row => row.1.mutant scoring) (kept rows) fun row member => plain row (List.mem_filter.mp member).1
  refine ⟨traces, ?_⟩
  rw [executeMutatedPopulation, ran]
  simp only [bind, Except.bind]
  rw [listMap2_map]
  simp only []
  rw [listMap2_map]
  simp only [List.filter_map, List.map_map, Function.comp_def]
  rw [show (rows.filter fun row => decide (row.2.1.1 ≠ .validPacket .nothing)) = kept rows from rfl, scored]

private theorem mutant_trace {turn : Turn Score} (mutated : turn.Mutated lib) {injected : ValidPacket} {grammar : Ast}
    (outcome : turn.outcome = some (injected, grammar)) :
    (turn.mutant scoring).trace = turn.child.trace ++ (if turn.mutation = .correctPacket then [.validPacket injected] else []) := by
  rw [Turn.mutant, outcome]
  split
  · next correct =>
    obtain ⟨valid, -⟩ := mutated.correct injected grammar outcome correct
    cases injected with
    | nothing => exact absurd valid (by decide)
    | commit => rfl
    | confirm => rfl
    | associationRequest => rfl
    | reset => rfl
  · next other =>
    rw [mutated.others injected grammar outcome other]
    exact (List.append_nil _).symm

private theorem mutant_score {turn : Turn Score} {injected : ValidPacket} {grammar : Ast}
    (outcome : turn.outcome = some (injected, grammar)) : (turn.mutant scoring).score = turn.child.score := by
  rw [Turn.mutant, outcome]
  cases injected <;> rfl

private theorem bookkept_rows {rows : List (Turn Score × ((Provenance × Output) × OracleState))} {i : Nat}
    (answered : AllAnswered scoring lib env i rows) (mutated : ∀ row ∈ rows, row.1.Mutated lib) (known : ∀ row ∈ rows, row.1.state ≠ .ignore) :
    Bookkept scoring lib env i (rows.map Prod.fst)
      ((kept rows).map fun row => tagOf (if row.2.2 = .ignore then row.1.state else row.2.2) ((row.1.mutant scoring).scored scoring row.2.1)) := by
  induction rows generalizing i with
  | nil => exact .nil i
  | cons row rows ih =>
    have rest := ih answered.2 (fun other member => mutated other (List.mem_cons_of_mem row member))
      (fun other member => known other (List.mem_cons_of_mem row member))
    obtain ⟨turn, answer⟩ := row
    obtain ⟨rfl, dropped⟩ | ⟨injected, grammar, packet, lines, oracle, outcome, made, ran, answers, rfl⟩ := answered.1
    · exact .dropped dropped rest
    · have trace := mutant_trace scoring lib (mutated _ List.mem_cons_self) outcome
      have state : (if oracle = .ignore then turn.state else oracle) ≠ .ignore := by
        split
        · exact known _ List.mem_cons_self
        · next other => exact other
      refine .credited ⟨injected, grammar, packet, _, lines, oracle, outcome, made, rfl, ?_, answers, tagOf_state state _, ?_⟩ rest
      · rw [← trace]
        exact ran
      · rw [tagOf_child, Child.scored, trace, mutant_grammar scoring outcome, mutant_score scoring outcome]

private theorem answered_plain (answers : env.Answers) {rows : List (Turn Score × ((Provenance × Output) × OracleState))} {i : Nat}
    (answered : AllAnswered scoring lib env i rows) : ∀ row ∈ rows, ∀ text, row.2.1.2 ≠ .message text := by
  induction rows generalizing i with
  | nil => exact fun row member => nomatch member
  | cons row rows ih =>
    intro other member text
    obtain rfl | later := List.mem_cons.mp member
    · obtain ⟨none_, -⟩ | ⟨_, _, _, lines, _, _, _, _, _, same⟩ := answered.1
      · rw [none_]
        exact fun message => nomatch message
      · rw [same]
        exact waitForPythonResponse_plain (answers.driver i _) text
    · exact ih answered.2 other later text

/-- The children of some turns are executed, and what is left are the rows with a packet. -/
private theorem executeMutatedPopulation_ensures (answers : env.Answers) (turns : List (Turn Score)) :
    Draw.Ensures (liftM (executeMutatedPopulation scoring lib env (turns.map (Turn.mutant scoring)) (turns.map Turn.state)) : Chance _)
      (fun executed => ∃ rows traces, rows.map Prod.fst = turns ∧ AllAnswered scoring lib env 0 rows ∧
        executed = (((traces, (kept rows).map fun row => (row.1.mutant scoring).scored scoring row.2.1), (kept rows).map fun row => row.2.2),
          (kept rows).map fun row => row.1.state)) OperatorFault := by
  have ran := runSequences_ok scoring lib env answers turns 0
  cases sequences : runSequences scoring lib env 0 (turns.map (Turn.mutant scoring)) with
  | error fault =>
    rw [sequences] at ran
    rw [executeMutatedPopulation, sequences]
    exact .fail ran
  | ok outputs =>
    rw [sequences] at ran
    obtain ⟨rows, rfl, rfl, answered⟩ := ran
    rw [List.map_map] at sequences
    obtain ⟨traces, executed⟩ := executeMutatedPopulation_rows scoring lib env rows sequences (answered_plain scoring lib env answers answered)
    rw [List.map_map, List.map_map, Function.comp_def, Function.comp_def, executed]
    exact .pure ⟨rows, traces, rfl, answered, rfl⟩

end Credits

section Iteration

variable {Score : Type} (scoring : Scoring Score) (lib : GraphLib) (env : Environment)

/-- A turn with a child from one of the queues of short traces. -/
private theorem sampled_of_short {q : TripleQueue Score} {short : Child Score → Bool} {turn : Turn Score}
    (inside : turn.child ∈
      TripleQueue.population ⟨q.nothing.filter short, q.confirmed.filter short, q.accepted.filter short⟩ turn.state) :
    turn.Sampled q ∧ turn.state ≠ .ignore := by
  rw [Turn.Sampled]
  cases state : turn.state with
  | ignore =>
    rw [state] at inside
    cases inside
  | nothing | confirmed | accepted =>
    rw [state] at inside
    exact ⟨(List.mem_filter.mp inside).1, nofun⟩

/-- One iteration fails only where a single grammar or trace does. Otherwise every sampled child is mutated in a
turn of its own, which makes the mutated child in its place, and each turn with a packet leads to one child, behind
whose trace its own packet was sent, with the state that the oracle answered to it. -/
theorem fuzzingIteration_bookkept (answers : env.Answers) (operations : List Mutation) (q : TripleQueue Score) (tape : List Nat) :
    match fuzzingIteration scoring lib env operations q tape with
    | .ok (round, _) => ∃ turns : List (Turn Score), turns.map Turn.child = round.newPopulation ∧
        turns.map Turn.state = round.oldStates ∧ turns.map Turn.mutation = round.selectedMutations ∧
        turns.map (Turn.mutant scoring) = round.mutatedPopulation ∧
        (∀ turn ∈ turns, turn.Sampled q ∧ turn.Mutated lib) ∧ Bookkept scoring lib env 0 turns round.tagged
    | .error fault => fault ∈ operatorFaults ∧ fault ∉ lengthFaults := by
  have ensured : (fuzzingIteration scoring lib env operations q).Ensures
      (fun round => ∃ turns : List (Turn Score), turns.map Turn.child = round.newPopulation ∧
        turns.map Turn.state = round.oldStates ∧ turns.map Turn.mutation = round.selectedMutations ∧
        turns.map (Turn.mutant scoring) = round.mutatedPopulation ∧
        (∀ turn ∈ turns, turn.Sampled q ∧ turn.Mutated lib) ∧ Bookkept scoring lib env 0 turns round.tagged) OperatorFault := by
    rw [fuzzingIteration]
    apply Draw.Ensures.bind (uniformSampleFromQueue_ensures scoring _)
    intro sampled known
    obtain ⟨samples, rfl, inside⟩ := known
    apply Draw.Ensures.bind (mutationList_ensures operations _)
    intro mutations paired
    rw [List.length_map] at paired ⊢
    apply Draw.Ensures.bind (newMutatedSet_ensures scoring lib samples paired)
    intro mutatedPopulation led
    obtain ⟨turns, rfl, chosen, mutated, rfl⟩ := led
    have children : (turns.map fun turn => (turn.child, turn.state)).map Prod.fst = turns.map Turn.child := by
      simp [Function.comp_def]
    have states : (turns.map fun turn => (turn.child, turn.state)).map Prod.snd = turns.map Turn.state := by
      simp [Function.comp_def]
    rw [children, states]
    apply Draw.Ensures.bind (executeMutatedPopulation_ensures scoring lib env answers turns)
    intro result led
    obtain ⟨rows, traces, rfl, answered, rfl⟩ := led
    have sampled : ∀ row ∈ rows, row.1.Sampled q ∧ row.1.state ≠ .ignore :=
      fun row member => sampled_of_short (inside _ (List.mem_map_of_mem (List.mem_map_of_mem member)))
    have tagged := mapPacketToState_map (fun row : Turn Score × ((Provenance × Output) × OracleState) =>
      (row.1.mutant scoring).scored scoring row.2.1) (fun row => row.1.state) (fun row => row.2.2) (kept rows)
      fun row member => (sampled row (List.mem_filter.mp member).1).2
    dsimp only
    rw [tagged]
    apply Draw.Ensures.pure
    refine ⟨rows.map Prod.fst, ?_, ?_, chosen, ?_, ?_, ?_⟩
    · rfl
    · rfl
    · rfl
    · intro turn member
      obtain ⟨row, listed, rfl⟩ := List.mem_map.mp member
      exact ⟨(sampled row listed).1, mutated _ member⟩
    · exact bookkept_rows scoring lib env answered (fun row member => mutated _ (List.mem_map_of_mem member))
        fun row member => (sampled row member).2
  have drawn := ensured tape
  cases result : fuzzingIteration scoring lib env operations q tape with
  | error fault =>
    rw [result] at drawn
    have apart : ∀ fault ∈ operatorFaults, fault ∉ lengthFaults := by decide
    exact ⟨drawn, apart fault drawn⟩
  | ok pair =>
    rw [result] at drawn
    exact drawn

/-- Scores in whole tenths. -/
def Scoring.tenths : Scoring Nat where
  zero := 0
  raise score tenths := score + tenths
  compare := Ord.compare
  same x y := decide (x = y)
  same_zero := rfl

/-- One packet for every grammar; the first child is confirmed, and the others stay where they are. -/
def Environment.plain : Environment where
  sygusGrammarToPacket _ _ := some [3, 0]
  oracleResponse i _ := if i = 0 then "CONFIRMED" else "IGNORE"
  driverResponse i _ := if i = 0 then "TIMEOUT" else "CRASH"

theorem Environment.plain_answers : Environment.plain.Answers := by
  refine ⟨fun i message => ?_, fun i message => ?_⟩ <;> by_cases first : i = 0 <;> simp [Environment.plain, first]

def onePacket : Ast := [.prodRule "SAE_PACKET" [.rhs [.nonterminal "AUTH_ALGO"] []], .typeAnnot "AUTH_ALGO" (.bitVector 16) []]

def someQueue : TripleQueue Nat := ⟨[⟨[], onePacket, 0⟩], [], [⟨[.validPacket .commit, .validPacket .confirm], onePacket, 0⟩]⟩

/-- A child of each of two queues, with a correct packet in front of its own. -/
theorem someQueue_bookkept : ∃ round rest turns,
    fuzzingIteration Scoring.tenths GraphLib.plain Environment.plain [.correctPacket] someQueue (List.replicate 10 1) = .ok (round, rest) ∧
      turns.map Turn.child = round.newPopulation ∧ turns.map (Turn.mutant Scoring.tenths) = round.mutatedPopulation ∧
      (∀ turn ∈ turns, turn.Sampled someQueue ∧ turn.Mutated GraphLib.plain) ∧
      Bookkept Scoring.tenths GraphLib.plain Environment.plain 0 turns
        [.confirmed ⟨[.validPacket .confirm, .rawPacket [3, 0]], onePacket, 1⟩,
          .accepted ⟨[.validPacket .commit, .validPacket .confirm, .validPacket .confirm, .rawPacket [3, 0]], onePacket, 5⟩] := by
  have bookkept := fuzzingIteration_bookkept Scoring.tenths GraphLib.plain Environment.plain Environment.plain_answers [.correctPacket] someQueue
    (List.replicate 10 1)
  have checked : (fuzzingIteration Scoring.tenths GraphLib.plain Environment.plain [.correctPacket] someQueue
      (List.replicate 10 1)).toOption.any (fun result => result.1.tagged =
        [.confirmed ⟨[.validPacket .confirm, .rawPacket [3, 0]], onePacket, 1⟩,
          .accepted ⟨[.validPacket .commit, .validPacket .confirm, .validPacket .confirm, .rawPacket [3, 0]], onePacket, 5⟩]) = true := by
    decide +kernel
  obtain ⟨⟨round, rest⟩, done, tagged⟩ := Logic.checked_ok checked
  rw [done] at bookkept
  obtain ⟨turns, children, _, _, mutants, known, credits⟩ := bookkept
  rw [of_decide_eq_true tagged] at credits
  exact ⟨round, rest, turns, done, children, mutants, known, credits⟩

end Iteration

end LtlFuzz.PacketGen

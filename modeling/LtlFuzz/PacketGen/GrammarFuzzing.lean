import LtlFuzz.Driver.TraceFormat
import LtlFuzz.Logic.Draws
import LtlFuzz.PacketGen.DeadRules
import LtlFuzz.PacketGen.MutationOps

/-! `grammarFuzzing.ml`: one iteration of the fuzzer. Children are sampled from three queues, their
grammars are mutated, each packet is sent behind the trace of its child, and the child is put into the
queue of the state that the oracle answers. -/

namespace LtlFuzz.PacketGen
open Driver (Provenance ValidPacket bytesToHex runTrace writeTraceToFile)
open Logic (Draw)

section Types

inductive Mutation where
  | add
  | delete
  | modify
  | crossOver
  | none
  | correctPacket
  deriving DecidableEq, Repr

/-- The answer of the driver. -/
inductive Output where
  | crash
  | timeout
  | expectedOutput
  | unexpectedOutput
  | message (text : String)
  deriving DecidableEq, Repr

/-- `state` of `byteParser.ml`. -/
inductive OracleState where
  | nothing
  | confirmed
  | accepted
  | ignore
  deriving DecidableEq, Repr

/-- What is done with the scores of children. They are raised by tenths and compared in a total
order; a score need not be the same as itself, as `nan` is not. -/
structure Scoring (Score : Type) where
  zero : Score
  raise : Score → Nat → Score
  compare : Score → Score → Ordering
  same : Score → Score → Bool
  same_zero : same zero zero = true

structure Child (Score : Type) where
  trace : List Provenance
  grammar : Ast
  score : Score
  deriving DecidableEq, Repr

inductive StateChild (Score : Type) where
  | nothing (child : Child Score)
  | confirmed (child : Child Score)
  | accepted (child : Child Score)
  deriving DecidableEq, Repr

structure TripleQueue (Score : Type) where
  nothing : List (Child Score)
  confirmed : List (Child Score)
  accepted : List (Child Score)

variable {Score : Type} (scoring : Scoring Score)

/-- Equality of children, as the library decides it. -/
def Child.same (x y : Child Score) : Bool := decide (x.trace = y.trace) && decide (x.grammar = y.grammar) && scoring.same x.score y.score

/-- The child that stands for a mutation that failed. -/
def Child.dummy : Child Score := ⟨[], [], scoring.zero⟩

/-- A computation of the fuzzer; loops that no number on the tape ends do not end. -/
abbrev Chance := Draw Fault

def pick : Chance Nat := Draw.next .diverges

def choose {α : Type} (items : List α) : Chance α := do
  randomElement items (← pick)

end Types

section Sampling

variable {Score : Type} (scoring : Scoring Score)

def slice {α : Type} : Nat → Nat → List α → List α
  | _, _, [] => []
  | start + 1, count, _ :: tl => slice start count tl
  | 0, count + 1, hd :: tl => hd :: slice 0 count tl
  | 0, 0, _ :: _ => []

def sample : Nat → List (Child Score) → List (Child Score) → Chance (List (Child Score))
  | 0, acc, _ => pure acc
  | size + 1, acc, remaining =>
    if remaining.isEmpty then pure acc
    else do
      let elem ← choose remaining
      sample size (elem :: acc) (remaining.filter fun child => !elem.same scoring child)

def sampleFromPercentileRange (pop : List (Child Score)) (lowerPercentile upperPercentile sampleSize : Nat) : Chance (List (Child Score)) :=
  if sampleSize = 0 then pure pop
  else
    let sortedPop := pop.insertionSort fun x y => scoring.compare y.score x.score ≠ .gt
    let startIndex := lowerPercentile * sortedPop.length / 100
    let endIndex := upperPercentile * sortedPop.length / 100
    let segment := slice startIndex (min (endIndex - startIndex + 1) (sortedPop.length - startIndex)) sortedPop
    sample scoring sampleSize [] segment

def getPercentile (p : List (Child Score)) : Nat :=
  if p.length ≤ 100 then 50 else if p.length ≤ 1000 then 25 else if p.length ≤ 5000 then 10 else 5

/-- `List.map2`. -/
def listMap2 {α β γ : Type} (f : α → β → γ) : List α → List β → Except Fault (List γ)
  | [], [] => .ok []
  | x :: xs, y :: ys => do .ok (f x y :: (← listMap2 f xs ys))
  | _, _ => .error (.invalidArgument "List.map2")

/-- The last of several equal elements is kept. -/
def removeDuplicates {α : Type} (same : α → α → Bool) : List α → List α
  | [] => []
  | x :: xs => if xs.any fun y => same y x then removeDuplicates same xs else x :: removeDuplicates same xs

def uniformSampleFromQueue (q : TripleQueue Score) : Chance (List (Child Score) × List OracleState) := do
  let npTopSample ← sampleFromPercentileRange scoring q.nothing 0 (getPercentile q.nothing) 15
  let cnfTopSample ← sampleFromPercentileRange scoring q.confirmed 0 (getPercentile q.confirmed) 15
  let accTopSample ← sampleFromPercentileRange scoring q.accepted 0 (getPercentile q.accepted) 15
  let npBottomSample ← sampleFromPercentileRange scoring q.nothing 0 100 5
  let cnfBottomSample ← sampleFromPercentileRange scoring q.confirmed 0 100 5
  let accBottomSample ← sampleFromPercentileRange scoring q.accepted 0 100 5
  let stateConcatenated := npTopSample.map (fun _ => OracleState.nothing) ++ npBottomSample.map (fun _ => OracleState.nothing) ++
    cnfTopSample.map (fun _ => OracleState.confirmed) ++ cnfBottomSample.map (fun _ => OracleState.confirmed) ++
    accTopSample.map (fun _ => OracleState.accepted) ++ accBottomSample.map (fun _ => OracleState.accepted)
  let populationConcatenated := npTopSample ++ npBottomSample ++ cnfTopSample ++ cnfBottomSample ++ accTopSample ++ accBottomSample
  let filterAll ← listMap2 (fun x y => (x, y)) populationConcatenated stateConcatenated
  let removedDuplicates := removeDuplicates (fun x y => x.1.same scoring y.1 && decide (x.2 = y.2)) filterAll
  pure (removedDuplicates.map Prod.fst, removedDuplicates.map Prod.snd)

end Sampling

section Mutating

def nonterminals : List String :=
  ["AC_TOKEN", "RG_ID", "RG_ID_LIST", "REJECTED_GROUPS", "RG_ID_LENGTH", "PASSWD_ELEMENT_ID_EXTENSION", "AC_ID_LENGTH",
    "STATUS_CODE", "RG_ELEMENT_ID_EXTENSION", "PASSWD_ID_LENGTH", "PASSWORD_IDENTIFIER", "PASSWD_ELEMENT_ID", "RG_ELEMENT_ID",
    "PASSWD_ID", "AC_ELEMENT_ID", "AC_TOKEN_ELEMENT", "AC_TOKEN", "COMMIT", "CONFIRM", "AUTH_SEQ_CONFIRM", "AC_TOKEN_CONTAINER",
    "CONFIRM_HASH", "AUTH_ALGO", "AUTH_SEQ_COMMIT", "CONFIRM_HASH", "SCALAR", "GROUP_ID", "ELEMENT", "SEND_CONFIRM_COUNTER"]

def checkWellFormedRules (grammar : Ast) : Bool :=
  grammar.all fun element =>
    match element with
    | .prodRule nt rhsList => !(rhsList.length = 1 && isNonTerminalPresent nt rhsList)
    | .typeAnnot .. => true

/-- A random element is drawn until it is a rule. -/
def findRandomProductionRule (grammar : Ast) : List Nat → Except Fault (Option Element × List Nat)
  | [] => .error .diverges
  | drawn :: tape => do
    match ← randomElement grammar drawn with
    | .prodRule x y => .ok (some (.prodRule x y), tape)
    | .typeAnnot .. => findRandomProductionRule grammar tape

def getProductionRulesForCrossover (g : Ast) : List Nat → Except Fault ((Element × Element) × List Nat)
  | first :: second :: tape => do
    let r1 ← randomElement g first
    let r2 ← randomElement g second
    match r1, r2 with
    | .prodRule a _, .prodRule c _ =>
      if a = "SAE_PACKET" ∨ c = "SAE_PACKET" then getProductionRulesForCrossover g tape else .ok ((r1, r2), tape)
    | _, _ => getProductionRulesForCrossover g tape
  | _ => .error .diverges

def extractNtPo : Element → Element → Except Fault (String × String × List ProdRuleRhs × List ProdRuleRhs)
  | .prodRule a b, .prodRule c d => .ok (a, c, b, d)
  | _, _ => .error (.internalError "bad random for crossover")

variable (lib : GraphLib) {Score : Type} (scoring : Scoring Score)

def applyMutation (m : Mutation) (g : Ast) : Nat → Chance (Option (ValidPacket × Ast))
  | 0 => pure none
  | count + 1 => do
    let nt ← choose nonterminals
    match m with
    | .add =>
      let randomProdRule ← findRandomProductionRule g
      let addedGrammar ← mutationAddS1 nt (← pick) g randomProdRule
      if addedGrammar.2 = false then applyMutation .add g count else pure (some (.nothing, addedGrammar.1))
    | .delete =>
      let deleteAttempt := mutationDelete nt g
      if deleteAttempt.2 = false then applyMutation .delete g count
      else
        match canonicalize lib deleteAttempt.1 with
        | some x => if checkWellFormedRules x then pure (some (.nothing, x)) else applyMutation .delete g count
        | none => applyMutation .delete g count
    | .modify =>
      let operation ← choose [BinOperator.plus, BinOperator.minus]
      let (modifiedGrammar, successCode) := mutationUpdate nt operation g
      if successCode then pure (some (.nothing, modifiedGrammar)) else applyMutation .modify g count
    | .crossOver =>
      let (pr1, pr2) ← getProductionRulesForCrossover g
      let (nt1, nt2, po1, po2) ← extractNtPo pr1 pr2
      let rhs1 ← choose po1
      let rhs2 ← choose po2
      let crossoverPRs ← mutationCrossover (← pick) (← pick) rhs1 rhs2
      match canonicalize lib (crossoverGrammar nt1 nt2 rhs1 rhs2 crossoverPRs g) with
      | some x => if checkWellFormedRules x then pure (some (.nothing, x)) else applyMutation .crossOver g count
      | none => applyMutation .crossOver g count
    | .correctPacket =>
      match ← choose [ValidPacket.commit, ValidPacket.confirm, ValidPacket.associationRequest] with
      | .commit => pure (some (.commit, g))
      | .confirm => pure (some (.confirm, g))
      | .associationRequest => pure (some (.associationRequest, g))
      | .nothing => throw (.internalError "unexpected symbol NOTHING")
      | .reset => throw (.internalError "RESET should not occur")
    | .none => pure (some (.nothing, g))

/-- The child that a mutation leads to. -/
def mutant (x : Child Score) : Option (ValidPacket × Ast) → Child Score
  | some (.nothing, z) => ⟨x.trace, z, x.score⟩
  | some (y, z) => ⟨x.trace ++ [.validPacket y], z, x.score⟩
  | none => Child.dummy scoring

def newMutatedSet : List (Child Score) → List Mutation → Nat → Chance (List (Child Score))
  | x :: xs, mu :: ms, n + 1 => do
    let mutatedGrammar ← applyMutation lib mu x.grammar 10
    let rest ← newMutatedSet xs ms n
    pure (mutant scoring x mutatedGrammar :: rest)
  | _, _, _ => pure []

/-- The last mutation is drawn first. -/
def mutationList (mutationOps : List Mutation) : Nat → Chance (List Mutation)
  | 0 => pure []
  | n + 1 => do
    let rest ← mutationList mutationOps n
    let mutation ← choose mutationOps
    pure (mutation :: rest)

end Mutating

section Executing

/-- What the fuzzer meets while the child at a position is executed: the packet that the pipeline makes of a
grammar, unless it fails or takes too long, and what the oracle and the driver answer to a message. -/
structure Environment where
  sygusGrammarToPacket : Nat → Ast → Option (List UInt8)
  oracleResponse : Nat → List Char → String
  driverResponse : Nat → List Char → String

def waitForPythonResponse (response : String) : Output :=
  if response = "CRASH" then .crash
  else if response = "TIMEOUT" then .timeout
  else if response = "EXPECTED_OUTPUT" then .expectedOutput
  else if response = "UNEXPECTED_OUTPUT" then .unexpectedOutput
  else if response = "SUCCESSFUL_TRANSITION_SUCCESS" then .expectedOutput
  else .message response

def waitForOracleResponse (response : String) : Except Fault OracleState :=
  if response = "NOTHING" then .ok .nothing
  else if response = "CONFIRMED" then .ok .confirmed
  else if response = "ACCEPTED" then .ok .accepted
  else if response = "IGNORE" then .ok .ignore
  else .error (.internalError "unexpected condition in oracle..")

variable {Score : Type} (scoring : Scoring Score) (lib : GraphLib) (env : Environment)

def callDriverNew (i : Nat) (packets : List (List Char)) : Provenance → Except Fault (Output × OracleState)
  | .validPacket _ => .error (.internalError "unexpected sygus output ADT..")
  | .rawPacket y => do
    let message := writeTraceToFile (packets ++ [bytesToHex y])
    let oracleResult ← waitForOracleResponse (env.oracleResponse i message)
    .ok (waitForPythonResponse (env.driverResponse i message), oracleResult)

/-- The answer for a child without a packet. -/
def noPacket : (Provenance × Output) × OracleState := ((.validPacket .nothing, .expectedOutput), .ignore)

def runSequence (i : Nat) (c : Child Score) : Except Fault ((Provenance × Output) × OracleState) := do
  if c.same scoring (Child.dummy scoring) then .ok noPacket
  else
    match ← deadRuleRemoval lib c.grammar "SAE_PACKET" with
    | some grammarToSygus =>
      match env.sygusGrammarToPacket i grammarToSygus with
      | some packetToSend => do
        let driverOutput ← callDriverNew env i (← runTrace c.trace) (.rawPacket packetToSend)
        .ok ((.rawPacket packetToSend, driverOutput.1), driverOutput.2)
      | none => .ok noPacket
    | none => .ok noPacket

def runSequences (i : Nat) : List (Child Score) → Except Fault (List ((Provenance × Output) × OracleState))
  | [] => .ok []
  | c :: cs => do
    let output ← runSequence scoring lib env i c
    .ok (output :: (← runSequences (i + 1) cs))

/-- The traces that led to a crash or to an unexpected output, and the children with their new traces and
scores. -/
def scoreFunction : List (Provenance × Output) → List (Child Score) → Except Fault (List (List Provenance) × List (Child Score))
  | _, [] => .ok ([], [])
  | [], p => .ok ([], p)
  | (packet, outputSymbol) :: xs, ⟨oldProvenance, currentGrammar, score⟩ :: ys => do
    let future ← scoreFunction xs ys
    match outputSymbol with
    | .timeout => .ok (future.1, ⟨oldProvenance ++ [packet], currentGrammar, scoring.raise score 1⟩ :: future.2)
    | .expectedOutput => .ok (future.1, ⟨oldProvenance ++ [packet], currentGrammar, scoring.raise score 3⟩ :: future.2)
    | .crash =>
      .ok ((oldProvenance ++ [packet]) :: future.1, ⟨oldProvenance ++ [packet], currentGrammar, scoring.raise score 5⟩ :: future.2)
    | .unexpectedOutput =>
      .ok ((oldProvenance ++ [packet]) :: future.1, ⟨oldProvenance ++ [packet], currentGrammar, scoring.raise score 7⟩ :: future.2)
    | .message _ => .error (.internalError "Message type should not be matched in score func..")

def executeMutatedPopulation (mutatedPopulation : List (Child Score)) (oldStates : List OracleState) :
    Except Fault (((List (List Provenance) × List (Child Score)) × List OracleState) × List OracleState) := do
  let outputList ← runSequences scoring lib env 0 mutatedPopulation
  let catMutatedPopulation ← listMap2 (fun x y => (x, y)) mutatedPopulation outputList
  let oldNewStates ← listMap2 (fun x y => (x, y)) catMutatedPopulation oldStates
  let removedSygusErrors := oldNewStates.filter fun x => x.1.2.1.1 ≠ .validPacket .nothing
  let filteredMutatedPopulation := removedSygusErrors.map fun x => x.1.1
  let oldStates := removedSygusErrors.map fun x => x.2
  let outputList := removedSygusErrors.map fun x => x.1.2.1
  let expectedStates := removedSygusErrors.map fun x => x.1.2.2
  let scored ← scoreFunction scoring outputList filteredMutatedPopulation
  .ok ((scored, expectedStates), oldStates)

def mapPacketToState : List (Child Score) → List OracleState → List OracleState → Except Fault (List (StateChild Score))
  | [], [], [] => .ok []
  | [], _, _ => .error (.internalError "child list exhausted, state list non-empty")
  | _, [], _ => .error (.internalError "state list exhausted, child list non-empty")
  | _, _, [] => .error (.internalError "state list exhausted, child list non-empty")
  | x :: xs, y :: ys, z :: zs =>
    match z with
    | .nothing => do .ok (.nothing x :: (← mapPacketToState xs ys zs))
    | .confirmed => do .ok (.confirmed x :: (← mapPacketToState xs ys zs))
    | .accepted => do .ok (.accepted x :: (← mapPacketToState xs ys zs))
    | .ignore =>
      match y with
      | .nothing => do .ok (.nothing x :: (← mapPacketToState xs ys zs))
      | .confirmed => do .ok (.confirmed x :: (← mapPacketToState xs ys zs))
      | .accepted => do .ok (.accepted x :: (← mapPacketToState xs ys zs))
      | .ignore => .error (.internalError "unexpected IGNORE_ pattern")

/-- What one iteration samples, chooses and leads to. -/
structure Round (Score : Type) where
  newPopulation : List (Child Score)
  oldStates : List OracleState
  selectedMutations : List Mutation
  mutatedPopulation : List (Child Score)
  interestingTraces : List (List Provenance)
  tagged : List (StateChild Score)

/-- The body of `fuzzingAlgorithm`, up to the tags of the children. -/
def fuzzingIteration (mutationOperations : List Mutation) (q : TripleQueue Score) : Chance (Round Score) := do
  let short := fun child : Child Score => decide (child.trace.length ≤ 10)
  let currentQueue : TripleQueue Score := ⟨q.nothing.filter short, q.confirmed.filter short, q.accepted.filter short⟩
  let (newPopulation, oldStates) ← uniformSampleFromQueue scoring currentQueue
  let selectedMutations ← mutationList mutationOperations newPopulation.length
  let mutatedPopulation ← newMutatedSet lib scoring newPopulation selectedMutations newPopulation.length
  let (((iT, newPopulation'), newStates), oldStates') ← executeMutatedPopulation scoring lib env mutatedPopulation oldStates
  let tagged ← mapPacketToState newPopulation' oldStates' newStates
  pure ⟨newPopulation, oldStates, selectedMutations, mutatedPopulation, iT, tagged⟩

end Executing

end LtlFuzz.PacketGen

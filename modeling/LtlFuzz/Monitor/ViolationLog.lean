import LtlFuzz.Monitor.Main
import LtlFuzz.Text.Lines

/-! The violation log of the monitor: the packets it has seen last, what it writes down
with every violation it reports, and the text of the file. -/

namespace LtlFuzz.Monitor
open Text (Fault isSpace)

/-- `ASTPrinter::printStuff`. -/
def printStuff {σ : Type} : ASTNode σ → List Char
  | .id _ idName => idName.toList
  | .int _ intValue => (toString intValue).toList
  | .bool _ boolValue => (boolToString boolValue).toList
  | .unary _ .h child => "H(".toList ++ printStuff child ++ ")".toList
  | .unary _ .o child => "O(".toList ++ printStuff child ++ ")".toList
  | .unary _ .y child => "Y(".toList ++ printStuff child ++ ")".toList
  | .unary _ .not child => "!(".toList ++ printStuff child ++ ")".toList
  | .binary _ .arrow left right => printStuff left ++ " -> ".toList ++ printStuff right
  | .binary _ .and left right => printStuff left ++ " & ".toList ++ printStuff right
  | .binary _ .or left right => printStuff left ++ " | ".toList ++ printStuff right
  | .binary _ .s left right => "(".toList ++ printStuff left ++ " S ".toList ++ printStuff right ++ ")".toList
  | .predicate _ .eq left right => printStuff left ++ "==".toList ++ printStuff right
  | .predicate _ .neq left right => printStuff left ++ " != ".toList ++ printStuff right
  | .predicate _ .gt left right => "(".toList ++ printStuff left ++ " > ".toList ++ printStuff right ++ ")".toList
  | .predicate _ .gte left right => "(".toList ++ printStuff left ++ " >= ".toList ++ printStuff right ++ ")".toList
  | .predicate _ .lt left right => "(".toList ++ printStuff left ++ " < ".toList ++ printStuff right ++ ")".toList
  | .predicate _ .lte left right => "(".toList ++ printStuff left ++ " <= ".toList ++ printStuff right ++ ")".toList

structure TraceRef where
  msgId : String
  dir : String
  trace : String
  deriving DecidableEq, Repr

/-- The packet an event line refers to, if it names one. -/
def TraceRef.ofKv (kv : KeyValues) : Option TraceRef :=
  match kv.lookup "msg_id", kv.lookup "trace" with
  | some msgId, some trace => some ⟨msgId, (kv.lookup "dir").getD "-", trace⟩
  | _, _ => none

/-- `TRACE_WINDOW`. -/
def traceWindow : Nat := 20

/-- The oldest packet is forgotten as soon as there are too many. -/
def pushTrace (recent : List TraceRef) : Option TraceRef → List TraceRef
  | none => recent
  | some tr => if (recent ++ [tr]).length > traceWindow then (recent ++ [tr]).tail else recent ++ [tr]

/-- What is known about a violation when it is written down. -/
structure Violation where
  number : Nat
  badIdx : List Nat
  sessionTrace : List KeyValues
  window : List TraceRef
  deriving DecidableEq

def badIndices (verdicts : List Bool) : List Nat := (List.range verdicts.length).filter fun i => verdicts[i]? == some false

/-- The monitor together with what its log depends on. -/
structure Logger where
  process : Process
  recentTraces : List TraceRef := []
  violations : List Violation := []

namespace Logger

def handleEvent (logger : Logger) (kv : KeyValues) : Except Fault Logger := do
  let recentTraces := pushTrace logger.recentTraces (TraceRef.ofKv kv)
  let state ← eventState logger.process.typeChecker kv
  let (verdicts, _) ← logger.process.eval.evaluateOneStep state
  let (process, replies) ← logger.process.handle (.event kv)
  match replies with
  | [.violationDetected number] =>
    let violation := ⟨number, badIndices verdicts, process.sessionTrace, recentTraces⟩
    return { logger with process, recentTraces, violations := logger.violations ++ [violation] }
  | _ => return { logger with process, recentTraces }

def readLine (logger : Logger) (line : List Char) : Except Fault Logger := do
  match ← Command.parse line with
  | .event kv => logger.handleEvent kv
  | command => return { logger with process := (← logger.process.handle command).1 }

def readLines : Logger → List (List Char) → Except Fault Logger := Logic.run readLine

end Logger

section Text

def decimal (n : Nat) : List Char := (toString n).toList

def propertyLine (propTexts : List (List Char)) (i : Nat) : List Char :=
  "  Property[".toList ++ decimal i ++ "]".toList ++
    match propTexts[i]? with
    | some text => ": ".toList ++ text
    | none => []

def eventLine (order : HashOrder) (entry : KeyValues × Nat) : List Char :=
  "  [".toList ++ decimal entry.2 ++ "] ".toList ++ (formatEventKv order entry.1).toList

def TraceRef.line (tr : TraceRef) : List Char :=
  "  msg_id=".toList ++ tr.msgId.toList ++ " dir=".toList ++ tr.dir.toList ++ " trace=".toList ++ tr.trace.toList

/-- The lines `dump_violation_trace` writes, and the packets behind them. -/
def Violation.lines (order : HashOrder) (protoTag : List Char) (propTexts : List (List Char)) (violation : Violation) : List (List Char) :=
  [] :: ("--- Violation #".toList ++ decimal violation.number ++ " [".toList ++ protoTag ++ "] ---".toList) ::
    ("Violated property indices: ".toList ++ violation.badIdx.flatMap fun i => decimal i ++ " ".toList) ::
    violation.badIdx.map (propertyLine propTexts) ++
    ("Trace (".toList ++ decimal violation.sessionTrace.length ++ " events):".toList) ::
    violation.sessionTrace.zipIdx.map (eventLine order) ++
    if violation.window = [] then []
    else ("Recent packet window (".toList ++ decimal traceWindow ++ "):".toList) :: violation.window.map TraceRef.line

/-- The lines a monitor started at this time has written. -/
def Logger.logLines (order : HashOrder) (logger : Logger) (time : Nat) (protoTag : List Char) : List (List Char) :=
  [] :: ("=== New Monitor Session at ".toList ++ decimal time ++ " ===".toList) ::
    logger.violations.flatMap (Violation.lines order protoTag (logger.process.eval.formulas.map printStuff))

def Logger.log (order : HashOrder) (logger : Logger) (time : Nat) (protoTag : List Char) : List Char :=
  (logger.logLines order time protoTag).flatMap (· ++ ['\n'])

end Text

end LtlFuzz.Monitor

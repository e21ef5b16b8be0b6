import LtlFuzz.Monitor.Main

/-! `monitor_bridge.c` and the monitor process as two parties joined by two pipes. The
fuzzer reads the process's output through a buffered stream: `select` looks at the pipe
alone, while `fgets` takes lines from the stream's buffer first and refills it with
whatever the pipe holds. Every line carries ghost marks that nothing reads: which call
caused it and how often the violation flag had been cleared when it was written. -/

namespace LtlFuzz.Bridge
open Monitor

inductive Output where
  | typeCheckPassed
  | reply (answer : Reply)
  deriving DecidableEq, Repr

def Output.text : Output → String
  | .typeCheckPassed => "Type check passed."
  | .reply answer => answer.text

/-- The answers to a save or a restore. -/
def Output.IsAcknowledgement : Output → Prop
  | .reply (.stateSaved _) | .reply (.stateRestored _) | .reply (.stateRestoreFailed _) => True
  | .reply (.violationDetected _) | .typeCheckPassed => False

def Output.IsViolation : Output → Prop
  | .reply (.violationDetected _) => True
  | _ => False

/-- `strstr(response, "VIOLATION_DETECTED")`. -/
def reportsViolation (response : String) : Bool := Text.strstr response.toList "VIOLATION_DETECTED".toList

structure Message where
  call : Nat
  epoch : Nat
  output : Output
  deriving DecidableEq, Repr

/-- What the fuzzer is doing: nothing, waiting for the one line that answers a save or
restore, or draining at a session end. -/
inductive Waiting where
  | idle
  | acknowledgement (call : Nat)
  | drain (call : Nat)
  deriving DecidableEq, Repr

structure System where
  violationDetected : Bool
  waiting : Waiting
  evalStdin : List (Nat × List Char)
  evalStdout : List Message
  buffer : List Message
  started : Bool
  process : Process
  calls : Nat
  epoch : Nat
  written : List Message
  consumed : List (Nat × Message)

/-- A line an adapter hands to `monitor_emit_line`: the process reads it as an event. -/
structure PredLine where
  line : List Char
  kv : KeyValues
  parsed : Command.parse line = .ok (.event kv)

inductive Event where
  | start
  | evaluate
  | emitLine (line : PredLine)
  | saveBitvectors (snapshotId : Fin (2 ^ 32))
  | restoreBitvectors (snapshotId : Fin (2 ^ 32))
  | endSession
  | clearViolation
  | select (ahead : Nat)

inductive Disabled where
  | disabled
  deriving DecidableEq, Repr

def saveLine (snapshotId : Nat) : List Char := "__SAVE_STATE__ ".toList ++ (toString snapshotId).toList

def restoreLine (snapshotId : Nat) : List Char := "__RESTORE_STATE__ ".toList ++ (toString snapshotId).toList

def endLine : List Char := "__END_SESSION__".toList

/-- One line off the stream. A refill brings in the line that is returned and `ahead` of
the lines behind it, as many as fit the stream's buffer. -/
def fgets (ahead : Nat) : List Message → List Message → Option (Message × List Message × List Message)
  | message :: buffer, evalStdout => some (message, buffer, evalStdout)
  | [], message :: evalStdout => some (message, evalStdout.take ahead, evalStdout.drop ahead)
  | [], [] => none

namespace System

def new (process : Process) : System where
  violationDetected := false
  waiting := .idle
  evalStdin := []
  evalStdout := []
  buffer := []
  started := false
  process := process
  calls := 0
  epoch := 0
  written := []
  consumed := []

/-- The process writes lines that answer a call. -/
def write (system : System) (call : Nat) (outputs : List Output) : System :=
  let messages := outputs.map fun output => { call, epoch := system.epoch, output : Message }
  { system with
    evalStdout := system.evalStdout ++ messages
    written := system.written ++ messages }

/-- The fuzzer writes a line and goes on to wait as the call does. -/
def send (system : System) (line : List Char) (waiting : Nat → Waiting) : System :=
  { system with
    evalStdin := system.evalStdin ++ [(system.calls, line)]
    waiting := waiting system.calls
    calls := system.calls + 1 }

def evaluate (system : System) : Except Disabled System :=
  match system.started, system.evalStdin with
  | true, (call, line) :: rest =>
    match Command.parse line with
    | .error _ => .error .disabled
    | .ok command =>
      match system.process.handle command with
      | .error _ => .error .disabled
      | .ok (process, replies) =>
        .ok ({ system with process, evalStdin := rest }.write call (replies.map .reply))
  | _, _ => .error .disabled

/-- One round of a waiting call: `select`, and `fgets` when the pipe has data. A save or a
restore reads one line and drops it; a session end goes on until the pipe is empty. -/
def select (system : System) (ahead : Nat) : Except Disabled System :=
  match system.waiting with
  | .idle => .error .disabled
  | .acknowledgement call =>
    if system.evalStdout = [] then .ok { system with waiting := .idle }
    else match fgets ahead system.buffer system.evalStdout with
      | none => .ok { system with waiting := .idle }
      | some (message, buffer, evalStdout) =>
        .ok { system with
          waiting := .idle, buffer, evalStdout, consumed := system.consumed ++ [(call, message)] }
  | .drain call =>
    if system.evalStdout = [] then .ok { system with waiting := .idle }
    else match fgets ahead system.buffer system.evalStdout with
      | none => .ok { system with waiting := .idle }
      | some (message, buffer, evalStdout) =>
        .ok { system with
          violationDetected := system.violationDetected || reportsViolation message.output.text
          buffer, evalStdout, consumed := system.consumed ++ [(call, message)] }

def step (system : System) (event : Event) : Except Disabled System :=
  match event with
  | .start => if system.started then .error .disabled else .ok ({ system with started := true }.write 0 [.typeCheckPassed])
  | .evaluate => system.evaluate
  | .select ahead => system.select ahead
  | .emitLine line => if system.waiting = .idle then .ok (system.send line.line fun _ => .idle) else .error .disabled
  | .saveBitvectors snapshotId =>
    if system.waiting = .idle then .ok (system.send (saveLine snapshotId) .acknowledgement) else .error .disabled
  | .restoreBitvectors snapshotId =>
    if system.waiting = .idle then .ok (system.send (restoreLine snapshotId) .acknowledgement) else .error .disabled
  | .endSession => if system.waiting = .idle then .ok (system.send endLine .drain) else .error .disabled
  | .clearViolation =>
    if system.waiting = .idle then .ok { system with violationDetected := false, epoch := system.epoch + 1 }
    else .error .disabled

def run : System → List Event → Except Disabled System := Logic.run step

/-- Lines the process has written and nobody has read. -/
def unread (system : System) : List Message := system.buffer ++ system.evalStdout

end System

end LtlFuzz.Bridge

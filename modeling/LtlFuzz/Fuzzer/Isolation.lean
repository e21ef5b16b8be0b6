import LtlFuzz.Adapter.Memory

/-! What one test case leaves behind for the next on the path without snapshots. The
session of an adapter lives in static variables: `fuzz_one` resets them, and
`common_fuzz_stuff` does so only after a run that was answered as a violation. -/

namespace LtlFuzz.Fuzzer
open Adapter

/-- One turn of the loop over `kl_messages`: the request, what the reply added to the
response buffer, and whether `net_send` or `net_recv` failed. -/
structure Exchange where
  request : Packet
  reply : Packet
  failed : Bool := false
  deriving DecidableEq, Repr

/-- A line is built for a reply only if something has come in. -/
def receive (reply : Packet) : Traffic := if reply.bytes = [] then [] else [(.s2c, reply)]

def sendMessages : List Exchange → Traffic
  | [] => []
  | exchange :: rest =>
    (.c2s, exchange.request) :: if exchange.failed then [] else receive exchange.reply ++ sendMessages rest

structure TestCase where
  opened : Bool := true
  earlyResponse : Packet := { bytes := [] }
  messages : List Exchange
  deriving DecidableEq, Repr

/-- Nothing is sent if the connection or the early response fails. -/
def TestCase.sendOverNetwork (testCase : TestCase) : Traffic :=
  if testCase.opened then receive testCase.earlyResponse ++ sendMessages testCase.messages else []

/-- The protocols that `-P` installs builders for. -/
inductive Target where
  | ftp
  | dtls12
  | dns
  deriving DecidableEq, Repr

namespace Target

def protocol : Target → Protocol
  | .ftp => .ftp
  | .dtls12 => .dtls
  | .dns => .dnsmasq

def adapter (target : Target) : PredicateAdapter target.protocol.Session := target.protocol.adapter

def Quiet : Target → Direction × Packet → Prop
  | .ftp => Ftp.Quiet
  | .dtls12 => Dtls.Quiet
  | .dns => Dnsmasq.Quiet

theorem build_quiet (target : Target) {direction : Direction} {packet : Packet} (quiet : target.Quiet (direction, packet))
    (session : target.protocol.Session) :
    target.protocol.view.visible (target.adapter.build direction session packet).2 =
      target.protocol.view.visible session := by
  cases target with
  | ftp => exact quiet.elim
  | dtls12 => exact Dtls.build_quiet quiet session
  | dns =>
    change Dnsmasq.Session.initialized _ = _
    rw [show (Target.dns.adapter.build direction session packet).2 = _ from Dnsmasq.build_quiet quiet session]
    exact Dnsmasq.Session.initialized_idem session

theorem after_quiet (target : Target) {traffic : Traffic} (quiet : ∀ packet ∈ traffic, target.Quiet packet)
    (session : target.protocol.Session) :
    target.protocol.view.visible (target.adapter.after session traffic) = target.protocol.view.visible session := by
  induction traffic generalizing session with
  | nil => rfl
  | cons packet traffic ih =>
    obtain ⟨first, rest⟩ := List.forall_mem_cons.mp quiet
    exact (ih rest _).trans (target.build_quiet first session)

/-- After a packet that is not quiet, one more packet shows it. -/
theorem remembered (target : Target) {traffic : Traffic} (short : traffic.length < 2 ^ 32)
    (unquiet : ∃ packet ∈ traffic, ¬ target.Quiet packet) :
    ∃ direction packet, packet.bytes ≠ [] ∧
      (target.adapter.build direction (target.adapter.after target.adapter.resetSession traffic) packet).1 ≠
        (target.adapter.build direction target.adapter.resetSession packet).1 := by
  cases target with
  | ftp =>
    obtain ⟨packet, member, _⟩ := unquiet
    exact ⟨.s2c, Ftp.codeless, by decide, Ftp.remembered short (List.ne_nil_of_mem member)⟩
  | dtls12 => exact Dtls.remembered unquiet
  | dns =>
    obtain ⟨packet, nonempty, different⟩ := Dnsmasq.remembered unquiet
    exact ⟨.s2c, packet, nonempty, different⟩

end Target

inductive Step where
  | fuzzOne
  | runTarget (testCase : TestCase)
  | commonFuzzStuff (testCase : TestCase) (checkViolation : Bool)
  deriving DecidableEq, Repr

def step (target : Target) (machine : Machine target.protocol.Session) : Step → Machine target.protocol.Session
  | .fuzzOne => machine.resetSession target.adapter
  | .runTarget testCase => (machine.send target.adapter testCase.sendOverNetwork).2
  | .commonFuzzStuff testCase checkViolation =>
    let machine := (machine.send target.adapter testCase.sendOverNetwork).2
    if checkViolation then machine.resetSession target.adapter else machine

def machineAfter (target : Target) (steps : List Step) : Machine target.protocol.Session :=
  steps.foldl (step target) (Machine.start target.adapter)

/-- The packets since the adapter was last reset. -/
def sinceReset (steps : List Step) : Traffic :=
  steps.foldl (fun traffic step =>
    match step with
    | .fuzzOne => []
    | .runTarget testCase => traffic ++ testCase.sendOverNetwork
    | .commonFuzzStuff testCase checkViolation => if checkViolation then [] else traffic ++ testCase.sendOverNetwork) []

/-- The lines of a test case are those of an adapter that has just been reset. They are
numbered on from the last message: the monitor skips `msg_id`, and a reset of the FTP
adapter does not set it back. -/
def Isolated (target : Target) (machine : Machine target.protocol.Session) (testCase : TestCase) : Prop :=
  (machine.send target.adapter testCase.sendOverNetwork).1 =
    (Machine.send target.adapter ⟨target.adapter.resetSession, machine.messageId⟩ testCase.sendOverNetwork).1

theorem visible_after (target : Target) (steps : List Step) :
    target.protocol.view.visible (machineAfter target steps).session =
      target.protocol.view.visible (target.adapter.after target.adapter.resetSession (sinceReset steps)) := by
  induction steps using List.reverseRecOn with
  | nil => exact target.protocol.view.start
  | append_singleton steps step ih =>
    simp only [machineAfter, sinceReset, List.foldl_append, List.foldl_cons, List.foldl_nil] at ih ⊢
    cases step with
    | fuzzOne => rfl
    | runTarget testCase =>
      simp only [Fuzzer.step, Machine.send_session, PredicateAdapter.after_append]
      exact target.protocol.view.after_eq ih _
    | commonFuzzStuff testCase checkViolation =>
      cases checkViolation with
      | true => rfl
      | false =>
        simp only [Fuzzer.step, Bool.false_eq_true, if_false, Machine.send_session, PredicateAdapter.after_append]
        exact target.protocol.view.after_eq ih _

private theorem isolated_of_quiet {target : Target} {steps : List Step}
    (quiet : ∀ packet ∈ sinceReset steps, target.Quiet packet) (testCase : TestCase) :
    Isolated target (machineAfter target steps) testCase :=
  target.protocol.view.send_eq ((visible_after target steps).trans (target.after_quiet quiet _)) _ _

def probe (direction : Direction) (packet : Packet) : TestCase :=
  match direction with
  | .c2s => { messages := [⟨packet, { bytes := [] }, false⟩] }
  | .s2c => { earlyResponse := packet, messages := [] }

private theorem probe_sends (direction : Direction) {packet : Packet} (nonempty : packet.bytes ≠ []) :
    (probe direction packet).sendOverNetwork = [(direction, packet)] := by
  cases direction with
  | c2s => rfl
  | s2c => simp [probe, TestCase.sendOverNetwork, receive, sendMessages, nonempty]

private theorem probe_fields {target : Target} {machine : Machine target.protocol.Session} {direction : Direction}
    {packet : Packet} (nonempty : packet.bytes ≠ []) (isolated : Isolated target machine (probe direction packet)) :
    (target.adapter.build direction machine.session packet).1 =
      (target.adapter.build direction target.adapter.resetSession packet).1 := by
  rw [Isolated, probe_sends direction nonempty] at isolated
  exact target.protocol.send_fields isolated

/-- After any history of runs, the next test case is isolated if every packet since the
last reset was quiet; and unless more than `2 ^ 32` packets have come since then, so that
the FTP adapter counts its lines from zero again, every next test case is isolated only
in that case. -/
theorem test_cases_isolated_iff (target : Target) (steps : List Step) :
    ((∀ packet ∈ sinceReset steps, target.Quiet packet) →
        ∀ testCase, Isolated target (machineAfter target steps) testCase) ∧
      ((sinceReset steps).length < 2 ^ 32 → (∀ testCase, Isolated target (machineAfter target steps) testCase) →
        ∀ packet ∈ sinceReset steps, target.Quiet packet) := by
  refine ⟨isolated_of_quiet, ?_⟩
  intro short isolated
  by_contra loud
  push Not at loud
  obtain ⟨direction, packet, nonempty, different⟩ := target.remembered short loud
  apply different
  rw [← probe_fields nonempty (isolated (probe direction packet))]
  exact target.protocol.view.fields_eq (visible_after target steps).symm direction packet

def loginCase : TestCase :=
  { earlyResponse := { bytes := [50, 50, 48, 32, 13, 10] }
    messages := [⟨{ bytes := [85, 83, 69, 82, 32, 97, 13, 10] }, { bytes := [51, 51, 49, 32, 13, 10] }, false⟩] }

def noop : Packet := { bytes := [78, 79, 79, 80, 13, 10] }

/-- The first line of the second test case says that a user name was sent. -/
theorem login_leaks_into_next_case :
    ¬ Isolated .ftp (machineAfter .ftp [.fuzzOne, .commonFuzzStuff loginCase false]) (probe .c2s noop) := by
  intro isolated
  have same := probe_fields (by decide) isolated
  have told := congrArg (·[14]?) same
  exact absurd told (by decide +kernel)

theorem case_after_violation_isolated :
    Isolated .ftp (machineAfter .ftp [.fuzzOne, .commonFuzzStuff loginCase true]) (probe .c2s noop) ∧
      Isolated .dns (machineAfter .dns [.fuzzOne, .commonFuzzStuff (probe .s2c noop) false]) (probe .c2s noop) ∧
      Target.dns.Quiet (.s2c, noop) := by
  refine ⟨(test_cases_isolated_iff .ftp [.fuzzOne, .commonFuzzStuff loginCase true]).1 (by simp [sinceReset]) _,
    (test_cases_isolated_iff .dns [.fuzzOne, .commonFuzzStuff (probe .s2c noop) false]).1 ?_ _, trivial⟩
  intro packet member
  cases List.mem_singleton.mp member
  trivial

end LtlFuzz.Fuzzer

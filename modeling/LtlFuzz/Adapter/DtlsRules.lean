import LtlFuzz.Adapter.Dtls

/-! The five rules of `dtls.ltl` on the lines the adapter prints: which records of a
client break them, and what becomes of the sessions of an honest client and server. -/

namespace LtlFuzz.Adapter.Dtls
open Monitor Monitor.Grammar Preprocessor Logic

/-- The body of `H((condition) -> (conclusion))`. -/
structure Rule where
  condition : Predicates
  conclusion : Predicates

def rules : List Rule :=
  [⟨⟨encrypted, .eq, .true⟩, ⟨epoch, .gt, .int 0⟩⟩, ⟨⟨epoch, .gt, .int 0⟩, ⟨encrypted, .eq, .true⟩⟩,
    ⟨⟨response, .eq, .id s2cApplicationData⟩, ⟨handshakeComplete, .eq, .true⟩⟩,
    ⟨⟨response, .eq, .id s2cApplicationData⟩, ⟨encrypted, .eq, .true⟩⟩,
    ⟨⟨response, .eq, .id s2cFinished⟩, ⟨encrypted, .eq, .true⟩⟩]

namespace Rule

def Holds (rule : Rule) (state : State) : Prop :=
  ∃ one two, evaluatePredicate state rule.condition.node = .ok one ∧
    evaluatePredicate state rule.conclusion.node = .ok two ∧ (one = true → two = true)

def body (rule : Rule) : PastLTL Predicates := .arrow (.atom rule.condition) (.atom rule.conclusion)

theorem body_says {rule : Rule} {states : List State} {k : Nat} {state : State} (here : states[k]? = some state)
    (holds : rule.Holds state) (snum : Nat) : (preProcess (pastNode rule.body) snum).1.Says states k := by
  obtain ⟨one, two, first, second, implies⟩ := holds
  intro said
  obtain ⟨other, same, met⟩ := (says_comparison states k rule.condition _).mp said
  cases here.symm.trans same
  cases first.symm.trans met
  exact (says_comparison states k rule.conclusion _).mpr ⟨state, here, by rw [second, implies rfl]⟩

end Rule

/-- The bodies in the order in which the parser leaves the rules. -/
def bodies : List (PastLTL Predicates) := (rules.map Rule.body).reverse

theorem tree_formulas : tree.spec.2 = (bodies.map .historically).map pastNode := rfl

/-- What is printed for a packet, and the session after it. -/
def Session.print (session : Session) (direction : Direction) (packet : Packet) : Record × Session :=
  if packet.bytes.length < 13 ∨ packet.byte 0 = 0 ∨ packet.bytes.length < 13 + packet.u16 11 then ({}, session.initialized)
  else session.initialized.read direction packet

theorem build_print (session : Session) (direction : Direction) (packet : Packet) :
    adapter.build direction session packet =
      ((session.print direction packet).1.predicates (session.print direction packet).2,
        (session.print direction packet).2) := by
  change buildPredLineInternal direction session packet = _
  unfold buildPredLineInternal Session.print
  dsimp only
  split <;> rfl

theorem print_epoch (session : Session) (direction : Direction) (packet : Packet) :
    (session.print direction packet).1.epoch < 2 ^ 16 := by
  unfold Session.print
  split
  · exact Nat.two_pow_pos 16
  · exact (read_bounded _ direction packet).epoch

/-- What the rules ask of a record and the session after it. -/
structure Record.Obeys (record : Record) (session : Session) : Prop where
  encrypted_epoch : record.encrypted = true → 0 < record.epoch
  epoch_encrypted : 0 < record.epoch → record.encrypted = true
  data_complete : record.response = .applicationData → session.handshakeComplete = true
  data_encrypted : record.response = .applicationData → record.encrypted = true
  finished_encrypted : record.response = .finished → record.encrypted = true

private theorem response_text {response : Response} :
    ((response.text == s2cApplicationData.name) = true ↔ response = .applicationData) ∧
      ((response.text == s2cFinished.name) = true ↔ response = .finished) := by
  cases response <;> decide

theorem Rule.holds_iff {condition conclusion : Predicates} {state : State} {one two : Bool}
    (first : evaluatePredicate state condition.node = .ok one) (second : evaluatePredicate state conclusion.node = .ok two) :
    (Rule.mk condition conclusion).Holds state ↔ (one = true → two = true) := by
  constructor
  · rintro ⟨left, right, leftSame, rightSame, implies⟩
    cases first.symm.trans leftSame
    cases second.symm.trans rightSame
    exact implies
  · intro implies
    exact ⟨one, two, first, second, implies⟩

/-- In the state of a line the rules say what they say about its record. -/
theorem rules_hold_iff {record : Record} {session : Session} {state : State}
    (own : ∀ field ∈ record.predicates session, state.labelingFunction.lookup field.1 = some field.2)
    (data : state.labelingFunction.lookup s2cApplicationData.name = some s2cApplicationData.name)
    (last : state.labelingFunction.lookup s2cFinished.name = some s2cFinished.name) (small : record.epoch < 2 ^ 16) :
    (∀ rule ∈ rules, rule.Holds state) ↔ record.Obeys session := by
  have label {k : Nat} {field : Field} (printed : (record.predicates session)[k]? = some field) :
      state.labelingFunction.lookup field.1 = some field.2 := own field (List.mem_of_getElem? printed)
  have encryptedLabel : state.labelingFunction.lookup encrypted.name = some (boolToString record.encrypted) :=
    label (k := 6) rfl
  have epochLabel : state.labelingFunction.lookup epoch.name = some (toString (record.epoch : Int)) := label (k := 8) rfl
  have responseLabel : state.labelingFunction.lookup response.name = some record.response.text := label (k := 1) rfl
  have completeLabel : state.labelingFunction.lookup handshakeComplete.name = some (boolToString session.handshakeComplete) :=
    label (k := 12) rfl
  have isEncrypted := evaluatePredicate_isTrue encryptedLabel
  have isComplete := evaluatePredicate_isTrue completeLabel
  have positive := evaluatePredicate_exceeds epochLabel (by omega) (by omega) 0
  have isData := evaluatePredicate_is responseLabel data
  have isFinished := evaluatePredicate_is responseLabel last
  simp only [rules, List.forall_mem_cons, List.not_mem_nil, false_implies, implies_true, and_true,
    Rule.holds_iff isEncrypted positive, Rule.holds_iff positive isEncrypted, Rule.holds_iff isData isComplete,
    Rule.holds_iff isData isEncrypted, Rule.holds_iff isFinished isEncrypted, response_text, decide_eq_true_eq,
    gt_iff_lt, Int.natCast_pos]
  exact ⟨fun ⟨a, b, c, d, e⟩ => ⟨a, b, c, d, e⟩, fun ⟨a, b, c, d, e⟩ => ⟨a, b, c, d, e⟩⟩

section Lines

variable {checker : TypeChecker} (fit : Fits shapes tree checker) (compiled : TypeChecker.new tree.spec = .ok checker)

include compiled in
private theorem constants_listed :
    s2cApplicationData.name ∈ checker.constantList ∧ s2cFinished.name ∈ checker.constantList := by
  have checked : (TypeChecker.new tree.spec).toOption.any (fun checker => decide
      (s2cApplicationData.name ∈ checker.constantList ∧ s2cFinished.name ∈ checker.constantList)) = true := by
    decide +kernel
  rw [compiled] at checked
  exact of_decide_eq_true checked

include fit compiled in
/-- The state of a line has the labels of its fields, and the rules hold in it as they do
of the record. -/
theorem line_rules (machine : Machine Session) (direction : Direction) (packet : Packet) :
    ∃ state, Accepted tree checker (machine.buildPredLine adapter direction packet).1 state ∧
      (∀ field ∈ (adapter.build direction machine.session packet).1,
        state.labelingFunction.lookup field.1 = some field.2) ∧
      ((∀ rule ∈ rules, rule.Holds state) ↔
        (machine.session.print direction packet).1.Obeys (machine.session.print direction packet).2) := by
  have matching := build_matches direction machine.session packet
  obtain ⟨trailing, isTrace, text⟩ := buildPredLine_text fit.toLayout machine matching
  obtain ⟨state, accepted, own, _⟩ := fit.accepted compiled matching isTrace
  obtain ⟨kv, _, read⟩ := accepted.event
  have constant {name : String} (listed : name ∈ checker.constantList) :
      state.labelingFunction.lookup name = some name :=
    state.constants name (eventState_checker read ▸ listed)
  obtain ⟨data, last⟩ := constants_listed compiled
  refine ⟨state, text ▸ accepted, own, ?_⟩
  rw [build_print] at own
  exact rules_hold_iff own (constant data) (constant last) (print_epoch _ _ _)

end Lines

/-- A whole record of application data in the epoch without encryption. -/
def PlainApplicationData (packet : Packet) : Prop :=
  13 + packet.u16 11 ≤ packet.bytes.length ∧ packet.byte 0 = applicationData ∧ packet.u16 3 = 0

/-- A client's record is encrypted as its epoch says, application data always. -/
theorem parseRequest_encrypted (packet : Packet) (contentType recordLength : Nat) (encrypted : Bool) :
    (parseRequest packet contentType recordLength encrypted).2 = (encrypted || contentType == applicationData) := by
  unfold parseRequest
  by_cases message : contentType = handshake
  · simp [message, handshake, applicationData]
  by_cases switch : contentType = changeCipherSpec
  · simp [switch, changeCipherSpec, handshake, applicationData]
  by_cases warning : contentType = alert
  · simp [warning, alert, changeCipherSpec, handshake, applicationData]
  rw [if_neg message, if_neg switch, if_neg warning]
  by_cases data : contentType = applicationData
  · simp [data]
  · simp [data]

theorem client_record_obeys_iff (session : Session) (packet : Packet) :
    (session.print .c2s packet).1.Obeys (session.print .c2s packet).2 ↔ ¬PlainApplicationData packet := by
  unfold Session.print
  split
  next unread =>
    have whole : ¬PlainApplicationData packet := by
      rintro ⟨long, kind, _⟩
      unfold applicationData at kind
      omega
    simp only [whole, not_false_eq_true, iff_true]
    exact ⟨by simp, by simp, by simp, by simp, by simp⟩
  next whole =>
    have flag : (session.initialized.read .c2s packet).1.encrypted =
        (decide (packet.u16 3 > 0) || packet.byte 0 == applicationData) := parseRequest_encrypted packet _ _ _
    have number : (session.initialized.read .c2s packet).1.epoch = packet.u16 3 := rfl
    have silent : (session.initialized.read .c2s packet).1.response = .notSet := rfl
    constructor
    · rintro obeys ⟨_, kind, plain⟩
      have positive := obeys.encrypted_epoch (by simp [flag, kind])
      rw [number] at positive
      omega
    · intro guarded
      refine ⟨?_, ?_, by simp [silent], by simp [silent], by simp [silent]⟩
      · rw [flag, number]
        intro marked
        by_contra zero
        refine guarded ⟨by omega, ?_, by omega⟩
        simpa [Nat.eq_zero_of_not_pos zero] using marked
      · rw [flag, number]
        intro positive
        simp [positive]

/-- A state that a line of the adapter stands for. -/
def Printed (checker : TypeChecker) (state : State) : Prop :=
  ∃ (machine : Machine Session) (direction : Direction) (packet : Packet),
    Accepted tree checker (machine.buildPredLine adapter direction packet).1 state

/-- The line of a client's packet satisfies all the rules, and in no session does a verdict
become false on it. -/
def ClientSafe (checker : TypeChecker) (nodes : List (ASTNode Nat)) (snums : List Nat) (machine : Machine Session)
    (packet : Packet) : Prop :=
  ∃ state, Accepted tree checker (machine.buildPredLine adapter .c2s packet).1 state ∧ (∀ rule ∈ rules, rule.Holds state) ∧
    ∀ (start : Evaluator) (states : List State) (k slot : Nat), Evaluator.Starts nodes snums start →
      (∀ other ∈ states, Printed checker other) → states[k]? = some state → slot < rules.length →
      VerdictAt start states k slot false → ∃ before, k = before + 1 ∧ VerdictAt start states before slot false

theorem printed_defined {checker : TypeChecker} (fit : Fits shapes tree checker)
    (compiled : TypeChecker.new tree.spec = .ok checker) {state : State} (printed : Printed checker state) :
    ∀ body ∈ bodies, ∀ predicates ∈ body.atoms, ∃ result, evaluatePredicate state predicates.node = .ok result := by
  obtain ⟨machine, direction, packet, accepted⟩ := printed
  have matching := build_matches direction machine.session packet
  obtain ⟨trailing, isTrace, text⟩ := buildPredLine_text fit.toLayout machine matching
  obtain ⟨other, same, _, evaluates⟩ := fit.accepted compiled matching isTrace
  cases (text ▸ accepted).unique same
  intro body member predicates inside
  have listed : pastNode (.historically body) ∈ tree.spec.2 := by
    rw [tree_formulas]
    exact List.mem_map_of_mem (List.mem_map_of_mem member)
  obtain ⟨rule, _, rfl⟩ := List.mem_map.mp (List.mem_reverse.mp member)
  obtain ⟨⟨one, first⟩, two, second⟩ := evaluates _ listed
  rcases List.mem_cons.mp inside with rfl | last
  · exact ⟨one, (evaluatePredicate_preProcess state _ _).symm.trans first⟩
  · cases List.mem_singleton.mp last
    exact ⟨two, (evaluatePredicate_preProcess state _ _).symm.trans second⟩

/-- A client can break the rules with application data in epoch 0, and with nothing else. -/
theorem client_safe_iff (machine : Machine Session) (packet : Packet) :
    ∃ checker nodes snums, TypeChecker.new tree.spec = .ok checker ∧ doPreProcess tree.spec.2 = some (nodes, snums) ∧
      (ClientSafe checker nodes snums machine packet ↔ ¬PlainApplicationData packet) := by
  obtain ⟨checker, nodes, snums, compiled, numbered, fit⟩ := fits_sound shapes_fit
  refine ⟨checker, nodes, snums, compiled, numbered, ?_⟩
  obtain ⟨state, accepted, _, meaning⟩ := line_rules fit compiled machine .c2s packet
  rw [← client_record_obeys_iff machine.session packet, ← meaning]
  constructor
  · rintro ⟨other, same, holds, _⟩
    cases accepted.unique same
    exact holds
  · intro holds
    refine ⟨state, accepted, holds, ?_⟩
    intro start states k slot starts printed here inside broken
    have bound : k < states.length := (List.getElem?_eq_some_iff.mp here).1
    rw [tree_formulas] at numbered
    refine historically_kept numbered starts ?_ bound ?_ inside broken
    · intro other member
      exact printed_defined fit compiled (printed other member)
    · intro body member
      obtain ⟨rule, listed, rfl⟩ := List.mem_map.mp (List.mem_reverse.mp member)
      exact Rule.body_says here (holds rule listed) 1

/-- An empty record of application data in epoch 0. -/
def plainRecord : Packet := ⟨[23, 254, 253, 0, 0, 0, 0, 0, 0, 0, 0, 0, 0], []⟩

theorem plainRecord_unsafe :
    ∃ checker nodes snums, TypeChecker.new tree.spec = .ok checker ∧ doPreProcess tree.spec.2 = some (nodes, snums) ∧
      ∃ state, Accepted tree checker ((Machine.start adapter).buildPredLine adapter .c2s plainRecord).1 state ∧
        ¬∀ rule ∈ rules, rule.Holds state := by
  obtain ⟨checker, nodes, snums, compiled, numbered, fit⟩ := fits_sound shapes_fit
  obtain ⟨state, accepted, _, meaning⟩ := line_rules fit compiled (Machine.start adapter) .c2s plainRecord
  refine ⟨checker, nodes, snums, compiled, numbered, state, accepted, ?_⟩
  rw [meaning, client_record_obeys_iff, not_not]
  exact ⟨by decide, by decide, by decide⟩

end LtlFuzz.Adapter.Dtls

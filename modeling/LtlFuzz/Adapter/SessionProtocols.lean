import LtlFuzz.Adapter.Ssh
import LtlFuzz.Adapter.Sip

/-! The adapters for SSH and SIP against the specifications that come with them. Each has
one message the monitor does not get through: the identification string of a server, and a
reply before the session has seen a request. -/

namespace LtlFuzz.Adapter
open Monitor Preprocessor

inductive SessionProtocol where
  | ssh
  | sip
  deriving DecidableEq, Repr

namespace SessionProtocol

def tree : SessionProtocol → Grammar.SpecTree
  | .ssh => Ssh.tree
  | .sip => Sip.tree

def shapes : SessionProtocol → List (String × Shape)
  | .ssh => Ssh.shapes
  | .sip => Sip.shapes

/-- The lines an adapter prints for the inputs since its process started. -/
def lines : SessionProtocol → List Input → List (List Char)
  | .ssh, inputs => (Machine.start Ssh.adapter).lines Ssh.adapter inputs
  | .sip, inputs => Sip.lines Sip.start inputs

/-- No server identifies itself. The first message of a session is not a reply, or one in
whose headers the adapter is lost. -/
def Orderly : SessionProtocol → List Input → Prop
  | .ssh, inputs => ∀ packet, .packet .s2c packet ∈ inputs → Ssh.isSshBanner packet = false
  | .sip, inputs => ∀ packet, inputs.head? = some (.packet .s2c packet) →
      Sip.findHeader packet "To" = none ∨ Sip.findHeader packet "Content-Length" = none

theorem shapes_fill (protocol : SessionProtocol) : fills protocol.shapes protocol.tree = true := by
  cases protocol with
  | ssh => exact Ssh.shapes_fill
  | sip => exact Sip.shapes_fill

end SessionProtocol

/-- Every line is accepted, and on any trace of such lines every evaluation step returns. -/
structure Conforms (tree : Grammar.SpecTree) (checker : TypeChecker) (nodes : List (ASTNode Nat)) (snums : List Nat)
    (lines : List (List Char)) : Prop where
  accepted : ∀ line ∈ lines, ∃ state, Accepted tree checker line state
  evaluated : ∀ (start : Evaluator) (states : List State), Evaluator.Starts nodes snums start →
    (∀ state ∈ states, ∃ line ∈ lines, Accepted tree checker line state) →
    ∀ (k : Nat) (state : State), states[k]? = some state → ∃ evaluator verdicts next,
      start.steps (states.take k) = .ok evaluator ∧ evaluator.evaluateOneStep state = .ok (verdicts, next)

/-- A line whose formulas all have a value. -/
def Answers (tree : Grammar.SpecTree) (checker : TypeChecker) (line : List Char) : Prop :=
  ∃ state, Accepted tree checker line state ∧ ∀ ast ∈ tree.spec.2, Evaluates state (preProcess ast 0).1

section Conforming

variable {tree : Grammar.SpecTree} {checker : TypeChecker} {nodes : List (ASTNode Nat)} {snums : List Nat}
  {lines : List (List Char)} {shapes : List (String × Shape)} {fields : List Field}

theorem Conforms.of_answers (numbered : doPreProcess tree.spec.2 = some (nodes, snums))
    (answers : ∀ line ∈ lines, Answers tree checker line) : Conforms tree checker nodes snums lines := by
  constructor
  · intro line member
    obtain ⟨state, accepted, _⟩ := answers line member
    exact ⟨state, accepted⟩
  · intro start states starts printed
    rw [Evaluator.starts_eq starts]
    apply (steps_return_iff (Evaluator.new_ready numbered)).mpr
    intro state member
    obtain ⟨line, inside, accepted⟩ := printed state member
    obtain ⟨other, same, evaluates⟩ := answers line inside
    rw [accepted.unique same]
    exact evaluates

theorem Fills.answers (fit : Fills shapes tree checker) (compiled : TypeChecker.new tree.spec = .ok checker)
    (matching : Matches shapes fields) {trailing : List Field} (isTrace : IsTrace trailing) :
    Answers tree checker (predicateText (fields ++ trailing)) := by
  obtain ⟨state, accepted, _, evaluates⟩ := fit.accepted compiled matching isTrace
  exact ⟨state, accepted, evaluates⟩

end Conforming

namespace Ssh

/-- The enumeration of responses has no name for the identification string. -/
theorem banner_unknown {checker : TypeChecker} (compiled : TypeChecker.new tree.spec = .ok checker) :
    State.labelSane checker "response" "s2c_banner" ≠ .ok true := by
  have checked : (TypeChecker.new tree.spec).toOption.any
      (fun checker => decide (State.labelSane checker "response" "s2c_banner" = .ok true)) = false := by decide +kernel
  rw [compiled] at checked
  exact of_decide_eq_false checked

variable {checker : TypeChecker} (fit : Fills shapes tree checker) (compiled : TypeChecker.new tree.spec = .ok checker)
  {inputs : List Input}

include fit compiled in
theorem lines_answer (orderly : SessionProtocol.ssh.Orderly inputs) (machine : Machine Session) :
    ∀ line ∈ machine.lines adapter inputs, Answers tree checker line := by
  apply lines_invariant (Answers tree checker) (fun _ => True)
    (fun input => ∀ packet, input = .packet .s2c packet → isSshBanner packet = false) trivial _ trivial
  · intro input member packet same
    exact orderly packet (same ▸ member)
  · intro machine _ direction packet numbered
    refine ⟨?_, trivial⟩
    have known : direction = .s2c → isSshBanner packet = false := by
      rintro rfl
      exact numbered packet rfl
    have fields := build_matches known machine.session
    obtain ⟨trailing, isTrace, text⟩ := buildPredLine_text fit.toLayout machine fields
    rw [text]
    exact fit.answers compiled fields isTrace

include compiled in
theorem banner_refused {packet : Packet} (banner : isSshBanner packet = true) (machine : Machine Session) (state : State) :
    ¬Accepted tree checker (machine.buildPredLine adapter .s2c packet).1 state := by
  obtain ⟨fields, member⟩ := build_banner banner machine.session
  obtain ⟨trailing, isTrace, text⟩ := buildPredLine_text shapes_layout machine fields
  rw [text]
  apply shapes_layout.refused_insane fields isTrace member _ (banner_unknown compiled)
  exact ⟨by decide, by decide⟩

end Ssh

namespace Sip

theorem method_variable {checker : TypeChecker} (compiled : TypeChecker.new tree.spec = .ok checker) :
    sipMethod.name ∉ checker.constantList := by
  have checked : (TypeChecker.new tree.spec).toOption.any
      (fun checker => decide (sipMethod.name ∈ checker.constantList)) = false := by decide +kernel
  rw [compiled] at checked
  exact of_decide_eq_false checked

theorem method_used : sipMethod ∈ tree.identifiers := by decide +kernel

/-- A line without a trace is all there is in the buffer. -/
theorem printed_text {shapes : List (String × Shape)} {fields : List Field} (layout : Layout shapes)
    (matching : Matches shapes fields) :
    snprintf predLineSize (predicateText fields) = predicateText (fields ++ []) := by
  have short : (predicateText fields).length < predLineSize := matching.length.trans_lt layout.narrow
  rw [List.append_nil]
  exact List.take_of_length_le (by omega)

/-- As soon as the session holds a method, every line names it or its own. -/
theorem build_matches {direction : Direction} {session next : Session} {packet : Packet} {fields : List Field}
    (known : direction = .s2c → session.lastMethod.isSome = true)
    (built : build direction session packet = some (fields, next)) :
    Matches shapes fields ∧ next.lastMethod.isSome = true := by
  cases direction with
  | c2s => exact buildRequestPredLine_some built
  | s2c =>
    obtain ⟨kept, _, matching⟩ := buildResponsePredLine_some built
    refine ⟨matching methodTexts ?_, by rw [kept]; exact known rfl⟩
    obtain ⟨method, same⟩ := Option.isSome_iff_exists.mp (known rfl)
    rw [lastMethodText, same]
    exact methodText_listed method

variable {checker : TypeChecker} (fit : Fills shapes tree checker) (compiled : TypeChecker.new tree.spec = .ok checker)

include fit compiled in
theorem lines_answer {session : Session} (known : session.lastMethod.isSome = true) (inputs : List Input) :
    ∀ line ∈ lines session inputs, Answers tree checker line := by
  induction inputs generalizing session with
  | nil => simp [lines]
  | cons input inputs ih =>
    cases input with
    | reset => exact ih rfl
    | packet direction packet =>
      simp only [lines]
      split
      · simp
      next fields next built =>
        obtain ⟨matching, kept⟩ := build_matches (fun _ => known) built
        refine List.forall_mem_cons.mpr ⟨?_, ih kept⟩
        rw [printed_text fit.toLayout matching]
        exact fit.answers compiled matching (Or.inl rfl)

include fit compiled in
theorem start_lines_answer {inputs : List Input} (orderly : SessionProtocol.sip.Orderly inputs) :
    ∀ line ∈ lines start inputs, Answers tree checker line := by
  cases inputs with
  | nil => simp [lines]
  | cons input inputs =>
    cases input with
    | reset => exact lines_answer fit compiled rfl inputs
    | packet direction packet =>
      simp only [lines]
      split
      · simp
      next fields next built =>
        have request : direction = .c2s := by
          cases direction with
          | c2s => rfl
          | s2c =>
            rcases orderly packet rfl with lost | lost
            · simp [build, buildResponsePredLine, lost] at built
            · simp [build, buildResponsePredLine, lost] at built
        obtain ⟨matching, known⟩ := build_matches (by simp [request]) built
        refine List.forall_mem_cons.mpr ⟨?_, lines_answer fit compiled known inputs⟩
        rw [printed_text fit.toLayout matching]
        exact fit.answers compiled matching (Or.inl rfl)

include compiled in
theorem reply_refused {packet : Packet} (toFound : findHeader packet "To" ≠ none)
    (lengthFound : findHeader packet "Content-Length" ≠ none) (inputs : List Input) :
    ∃ line ∈ lines start (.packet .s2c packet :: inputs), ∀ state, ¬Accepted tree checker line state := by
  obtain ⟨toHeader, first⟩ := Option.ne_none_iff_exists'.mp toFound
  obtain ⟨lengthHeader, second⟩ := Option.ne_none_iff_exists'.mp lengthFound
  obtain ⟨fields, next, built⟩ : ∃ fields next, build .s2c start packet = some (fields, next) := by
    simp [build, buildResponsePredLine, first, second]
  obtain ⟨_, unnamed, matching⟩ := buildResponsePredLine_some built
  have fields_match := matching ("" :: methodTexts) List.mem_cons_self
  refine ⟨snprintf predLineSize (predicateText fields), by simp [lines, built], ?_⟩
  intro state
  rw [printed_text shapes_layout fields_match]
  exact shapes_layout.refused_empty fields_match (Or.inl rfl) method_used (method_variable compiled) unnamed state

end Sip

/-- What a session prints is understood to its end exactly when it is orderly. -/
theorem session_adapters_conform_iff (protocol : SessionProtocol) :
    ∃ checker nodes snums, TypeChecker.new protocol.tree.spec = .ok checker ∧
      doPreProcess protocol.tree.spec.2 = some (nodes, snums) ∧
      ∀ inputs : List Input, Conforms protocol.tree checker nodes snums (protocol.lines inputs) ↔
        protocol.Orderly inputs := by
  obtain ⟨checker, nodes, snums, compiled, numbered, fit⟩ := fills_sound protocol.shapes_fill
  refine ⟨checker, nodes, snums, compiled, numbered, ?_⟩
  intro inputs
  constructor
  · intro conforms
    cases protocol with
    | ssh =>
      intro packet member
      by_contra identified
      obtain ⟨before, after, rfl⟩ := List.append_of_mem member
      obtain ⟨machine, printed⟩ := Machine.lines_member Ssh.adapter (Machine.start Ssh.adapter) before after .s2c packet
      obtain ⟨state, accepted⟩ := conforms.accepted _ printed
      exact Ssh.banner_refused compiled (by simpa using identified) machine state accepted
    | sip =>
      intro packet first
      by_contra found
      push Not at found
      obtain ⟨others, rfl⟩ := List.head?_eq_some_iff.mp first
      obtain ⟨line, printed, refused⟩ := Sip.reply_refused compiled found.1 found.2 others
      obtain ⟨state, accepted⟩ := conforms.accepted line printed
      exact refused state accepted
  · intro orderly
    apply Conforms.of_answers numbered
    cases protocol with
    | ssh => exact Ssh.lines_answer fit compiled orderly _
    | sip => exact Sip.start_lines_answer fit compiled orderly

/-- `SSH-2.0-x`. -/
def serverBanner : Packet := ⟨[83, 83, 72, 45, 50, 46, 48, 45, 120, 13, 10], []⟩

/-- `SIP/2.0 200 OK`, without headers. -/
def bareReply : Packet := ⟨[83, 73, 80, 47, 50, 46, 48, 32, 50, 48, 48, 32, 79, 75, 13, 10, 13, 10], []⟩

theorem first_replies_refused :
    (∃ checker, TypeChecker.new Ssh.tree.spec = .ok checker ∧
      ∃ line ∈ SessionProtocol.ssh.lines [.packet .s2c serverBanner], ∀ state, ¬Accepted Ssh.tree checker line state) ∧
    ∃ checker, TypeChecker.new Sip.tree.spec = .ok checker ∧
      ∃ line ∈ SessionProtocol.sip.lines [.packet .s2c bareReply], ∀ state, ¬Accepted Sip.tree checker line state := by
  constructor
  · obtain ⟨checker, _, _, compiled, _⟩ := fills_sound Ssh.shapes_fill
    refine ⟨checker, compiled, _, List.mem_cons_self, ?_⟩
    exact Ssh.banner_refused compiled (by decide) _
  · obtain ⟨checker, _, _, compiled, _⟩ := fills_sound Sip.shapes_fill
    refine ⟨checker, compiled, Sip.reply_refused compiled ?_ ?_ []⟩
    all_goals
      unfold Sip.findHeader Sip.findHeaderFrom
      decide

end LtlFuzz.Adapter

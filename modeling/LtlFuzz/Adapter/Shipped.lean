import LtlFuzz.Adapter.Ftp
import LtlFuzz.Adapter.Dtls
import LtlFuzz.Adapter.Dnsmasq
import LtlFuzz.Adapter.Rtsp

/-! The four adapters that come with a specification of their own, and that the monitor
process gets through every line they print. -/

namespace LtlFuzz.Adapter
open Monitor Preprocessor

inductive Protocol where
  | ftp
  | dtls
  | dnsmasq
  | rtsp
  deriving DecidableEq, Repr

namespace Protocol

def Session : Protocol → Type
  | .ftp => Ftp.Session
  | .dtls => Dtls.Session
  | .dnsmasq => Dnsmasq.Session
  | .rtsp => Rtsp.Session

def adapter : (protocol : Protocol) → PredicateAdapter protocol.Session
  | .ftp => Ftp.adapter
  | .dtls => Dtls.adapter
  | .dnsmasq => Dnsmasq.adapter
  | .rtsp => Rtsp.adapter

def tree : Protocol → Grammar.SpecTree
  | .ftp => Ftp.tree
  | .dtls => Dtls.tree
  | .dnsmasq => Dnsmasq.tree
  | .rtsp => Rtsp.tree

def shapes : Protocol → List (String × Shape)
  | .ftp => Ftp.shapes
  | .dtls => Dtls.shapes
  | .dnsmasq => Dnsmasq.shapes
  | .rtsp => Rtsp.shapes

theorem shapes_fit (protocol : Protocol) : fits protocol.shapes protocol.tree = true := by
  cases protocol with
  | ftp => exact Ftp.shapes_fit
  | dtls => exact Dtls.shapes_fit
  | dnsmasq => exact Dnsmasq.shapes_fit
  | rtsp => exact Rtsp.shapes_fit

theorem build_matches (protocol : Protocol) (direction : Direction) (session : protocol.Session) (packet : Packet) :
    Matches protocol.shapes (protocol.adapter.build direction session packet).1 := by
  cases protocol with
  | ftp => exact Ftp.build_matches direction session packet
  | dtls => exact Dtls.build_matches direction session packet
  | dnsmasq => exact Dnsmasq.build_matches direction session packet
  | rtsp => exact Rtsp.build_matches direction session packet

end Protocol

/-- Every line an adapter prints, whatever the packets and resets since the process
started, labels each variable of its specification exactly once with a value of its type,
and on any trace of such lines every evaluation step returns. -/
theorem adapters_conform (protocol : Protocol) :
    ∃ checker nodes snums, TypeChecker.new protocol.tree.spec = .ok checker ∧
      doPreProcess protocol.tree.spec.2 = some (nodes, snums) ∧
      ∀ inputs : List Input,
        (∀ line ∈ (Machine.start protocol.adapter).lines protocol.adapter inputs,
          ∃ state, Labelled protocol.tree checker line state) ∧
        ∀ (start : Evaluator) (states : List State), Evaluator.Starts nodes snums start →
          (∀ state ∈ states, ∃ line ∈ (Machine.start protocol.adapter).lines protocol.adapter inputs,
            Labelled protocol.tree checker line state) →
          ∀ (k : Nat) (state : State), states[k]? = some state → ∃ evaluator verdicts next,
            start.steps (states.take k) = .ok evaluator ∧ evaluator.evaluateOneStep state = .ok (verdicts, next) := by
  obtain ⟨checker, nodes, snums, accepted, numbered, fit⟩ := fits_sound protocol.shapes_fit
  refine ⟨checker, nodes, snums, accepted, numbered, ?_⟩
  intro inputs
  have accepts := lines_labelled protocol.build_matches fit accepted (Machine.start protocol.adapter) inputs
  constructor
  · intro line member
    obtain ⟨state, labelled, _⟩ := accepts line member
    exact ⟨state, labelled⟩
  · intro start states starts printed
    rw [Evaluator.starts_eq starts]
    apply (steps_return_iff (Evaluator.new_ready numbered)).mpr
    intro state member
    obtain ⟨line, inside, labelled⟩ := printed state member
    obtain ⟨other, same, evaluates⟩ := accepts line inside
    rw [labelled.unique same]
    exact evaluates

end LtlFuzz.Adapter

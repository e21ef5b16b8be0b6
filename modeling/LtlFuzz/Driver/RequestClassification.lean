import LtlFuzz.Driver.PredicateTransformer

/-! A packet from the generator is classified by what `parse_packet` writes about it. -/

namespace LtlFuzz.Driver
open PacketGen (DriverOracle bitstringToHex parsePacket)
open Logic (bind_ok)

section Description

def describe (packet : List UInt8) : Option DriverOracle := (parsePacket packet).map Prod.snd

/-- A value is the text of some bytes in hexadecimal. -/
def oracleShows (oracle : DriverOracle) (key : String) (bytes : List UInt8) : Prop :=
  oracleValue oracle key = some (.text (bitstringToHex [] bytes))

instance (oracle : DriverOracle) (key : String) (bytes : List UInt8) : Decidable (oracleShows oracle key bytes) :=
  inferInstanceAs (Decidable (_ = _))

/-- A commit of SAE with the placeholder for the scalar. -/
structure CommitDescribed (oracle : DriverOracle) : Prop where
  algo : oracleIs oracle "algo" "3" = true
  authSeq : oracleIs oracle "auth_seq" "1" = true
  scalar : oracleShows oracle "scalar" (asciiBytes "<SCALAR>")

/-- The status of a commit that is not a refusal. -/
def statusAccepted (oracle : DriverOracle) : Bool := oracleIs oracle "status" "0" || oracleIs oracle "status" "126"

/-- Every packet is described. The last pattern matches all that is left. -/
theorem describe_total (packet : List UInt8) : ∃ oracle, describe packet = some oracle := by
  have listed : PacketGen.Shape.failed ∈ PacketGen.packetShapes := by decide
  cases found : parsePacket packet with
  | some result => exact ⟨result.2, by rw [describe, found]; rfl⟩
  | none =>
    have refused := List.findSome?_eq_none_iff.mp found _ listed
    cases refused

private theorem scalar_shown (oracle : DriverOracle) :
    oracleIs oracle "scalar" "3c5343414c41523e" = true ↔ oracleShows oracle "scalar" (asciiBytes "<SCALAR>") := by
  have same : "3c5343414c41523e".toList = bitstringToHex [] (asciiBytes "<SCALAR>") := by decide
  rw [oracleIs, decide_eq_true_iff, oracleShows, same]

/-- The element is of no consequence. -/
theorem validCommit_iff (oracle : DriverOracle) : validCommit oracle = true ↔ oracleShows oracle "scalar" (asciiBytes "<SCALAR>") := by
  rw [← scalar_shown, validCommit]
  cases scalar : oracleIs oracle "scalar" "3c5343414c41523e" with
  | false => simp
  | true =>
    rw [oracleHas_of_oracleIs scalar]
    simp

end Description

section Mapping

variable {self next : PredicateTransformer} {frame : FuzzerFrame}

private theorem mapCommitRequest_success (unset : self.request = .messageNotSet) :
    self.mapCommitRequest.request = .commitSuccess ↔
      oracleShows self.oracle "scalar" (asciiBytes "<SCALAR>") ∧ oracleIs self.oracle "algo" "3" = true ∧ statusAccepted self.oracle = true := by
  rw [← validCommit_iff, PredicateTransformer.mapCommitRequest, statusAccepted]
  split
  · next all =>
    simp only [Bool.and_eq_true] at all
    exact iff_of_true rfl ⟨all.1.1, all.1.2, all.2⟩
  · next missing =>
    simp only [Bool.and_eq_true, and_assoc] at missing
    refine iff_of_false ?_ missing
    repeat' split
    all_goals simp [unset]

/-- The groups of a frame are read if the last list of them was copied, or none was. -/
theorem scanGroups_copied {entries : List (List UInt8 × Option (List UInt8))}
    (faithful : ∀ body bytes, (body, some bytes) ∈ entries → bytes = body) (copied : LastCopied entries) :
    ∃ found, scanGroups (storeAll entries) (storeAll entries).len 0 = .ok found := by
  by_cases present : (storeAll entries).present = true
  · obtain ⟨bytes, pointer, length, _⟩ := (holds_iff faithful).mpr copied present
    have whole : storeAll entries = ⟨some bytes, bytes.length, true⟩ := by
      rw [← pointer, length, ← present]
    rw [whole]
    exact ⟨_, scanGroups_ok (Nat.le_add_left _ _)⟩
  · have none_ : ∀ entry ∈ entries, entry.2 = none := by
      by_contra some_
      exact present ((storeAll_present entries).mpr some_)
    rw [storeAll_none none_]
    exact ⟨false, rfl⟩

theorem mapRawRequest_success (unset : self.request = .messageNotSet) {sendConfirm : UInt16}
    (done : self.mapRawRequest sendConfirm frame = .ok next) :
    next.request = .commitSuccess ↔ CommitDescribed self.oracle ∧ statusAccepted self.oracle = true := by
  rw [PredicateTransformer.mapRawRequest] at done
  split at done
  · split at done
    · next authSeq =>
      obtain ⟨grouped, groups, done⟩ := bind_ok done
      cases done
      obtain ⟨_, oracle, request⟩ := mapContainers_kept grouped frame
      rw [mapRejectedGroups_frame groups] at oracle request
      rw [mapRejectedGroups_frame groups, mapOurStatus_frame]
      dsimp only at oracle request ⊢
      rw [mapCommitRequest_success (request.trans unset), oracle]
      constructor
      · rintro ⟨scalar, algo, status⟩
        exact ⟨⟨algo, authSeq, scalar⟩, status⟩
      · rintro ⟨described, status⟩
        exact ⟨described.scalar, described.algo, status⟩
    · next notCommit =>
      refine iff_of_false ?_ (fun both => notCommit both.1.authSeq)
      split at done <;> cases done <;> rw [mapOurStatus_frame]
      · rw [PredicateTransformer.mapConfirmRequest]
        dsimp only
        repeat' split
        all_goals exact Message.noConfusion
      · exact Message.noConfusion
  · next missing =>
    cases done
    refine iff_of_false (by rw [unset]; exact Message.noConfusion) ?_
    intro both
    exact missing (by rw [oracleHas_of_oracleIs both.1.algo, oracleHas_of_oracleIs both.1.authSeq]; rfl)

theorem mapRawRequest_completes (self : PredicateTransformer) (sendConfirm : UInt16)
    (groups : ∃ found, scanGroups (frame.containers .rejectedGroups) (frame.containers .rejectedGroups).len 0 = .ok found) :
    ∃ next, self.mapRawRequest sendConfirm frame = .ok next := by
  obtain ⟨found, scanned⟩ := groups
  have mapped : ∃ grouped, self.mapRejectedGroups frame = .ok grouped := by
    rw [PredicateTransformer.mapRejectedGroups, scanned]
    split
    · exact ⟨_, rfl⟩
    · exact ⟨_, rfl⟩
  obtain ⟨grouped, mapped⟩ := mapped
  rw [PredicateTransformer.mapRawRequest, mapped]
  repeat' split
  all_goals exact ⟨_, rfl⟩

end Mapping

section Runs

variable {G : Type}

def PredicateTransformer.after (self : PredicateTransformer) (input : Option DriverOracle × Observation G) : Except Fault PredicateTransformer :=
  (self.predicateTransform input.1 input.2).map Prod.snd

/-- Nothing but what every step sets anew is left of the steps before. -/
def PredicateTransformer.Fresh (self : PredicateTransformer) : Prop := self.resetTransformer = self

theorem predicateTransform_leaves {self predicates next : PredicateTransformer} {file : Option DriverOracle} {step : Observation G}
    (done : self.predicateTransform file step = .ok (predicates, next)) : next.Fresh := by
  obtain ⟨_, _, done⟩ := bind_ok done
  cases done
  rfl

theorem after_fresh {history : List (Option DriverOracle × Observation G)} {reached : PredicateTransformer}
    (before : Logic.run PredicateTransformer.after PredicateTransformer.new history = .ok reached) : reached.Fresh := by
  refine Logic.run_invariant PredicateTransformer.Fresh ?_ (rfl : PredicateTransformer.new.Fresh) before
  intro self input next _ stepped
  rw [PredicateTransformer.after] at stepped
  cases done : self.predicateTransform input.1 input.2 with
  | error fault =>
    rw [done] at stepped
    cases stepped
  | ok result =>
    rw [done] at stepped
    cases stepped
    exact predicateTransform_leaves done

/-- A described packet is classified as it is by a new transformer. -/
theorem predicateTransform_fresh_eq {self : PredicateTransformer} (fresh : self.Fresh) (oracle : DriverOracle) (step : Observation G) :
    self.predicateTransform (some oracle) step = PredicateTransformer.new.predicateTransform (some oracle) step := by
  have same : self.resetTransformer.predicateTransform (some oracle) step =
      PredicateTransformer.new.predicateTransform (some oracle) step := rfl
  rw [← same, fresh]

/-- The transformer that a request is mapped by. -/
def observed (oracle : DriverOracle) (step : Observation G) : PredicateTransformer :=
  ({ PredicateTransformer.new with
      prevApGroup := step.prevApGroup, prevApSendConfirm := step.prevApSendConfirm, parserErrorCode := step.err
      oracle := oracle }).mapResponseToPredicates step.ap step.response

theorem observed_kept (oracle : DriverOracle) (step : Observation G) :
    (observed oracle step).oracle = oracle ∧ (observed oracle step).request = .messageNotSet := by
  rw [observed, PredicateTransformer.mapResponseToPredicates.eq_def]
  repeat' split
  all_goals exact ⟨rfl, rfl⟩

theorem predicateTransform_raw {step : Observation G} (raw : step.pkt = .raw) (oracle : DriverOracle) :
    PredicateTransformer.new.predicateTransform (some oracle) step =
      (do
        let predicates ← (observed oracle step).mapRawRequest step.sendConfirm step.frame
        .ok (predicates, predicates.resetTransformer)) := by
  have request : (observed oracle step).mapRequestToPredicates step.pkt step.sendConfirm step.frame =
      (observed oracle step).mapRawRequest step.sendConfirm step.frame := by
    rw [raw]
    rfl
  rw [← request]
  rfl

/-- What is written about a packet, and how the step that sends it is classified. -/
theorem request_classified (malloc : Malloc) (packet : List UInt8) :
    ∃ oracle code frame, describe packet = some oracle ∧ parseFuzzerFrame malloc packet = .ok (code, frame) ∧
      ∀ (history : List (Option DriverOracle × Observation G)) (reached : PredicateTransformer) (step : Observation G),
        Logic.run PredicateTransformer.after PredicateTransformer.new history = .ok reached → step.pkt = .raw → step.frame = frame →
        reached.predicateTransform (some oracle) step = PredicateTransformer.new.predicateTransform (some oracle) step ∧
        (LastCopied (ofKind .rejectedGroups (containersMet malloc packet)) →
          ∃ predicates next, reached.predicateTransform (some oracle) step = .ok (predicates, next)) ∧
        ∀ predicates next, reached.predicateTransform (some oracle) step = .ok (predicates, next) →
          (CommitDescribed oracle → oracleShows oracle "element" (asciiBytes "<ELEMENT>") → statusAccepted oracle = true →
            predicates.request = .commitSuccess) ∧
          (predicates.request = .commitSuccess → CommitDescribed oracle ∧ statusAccepted oracle = true) := by
  obtain ⟨oracle, described⟩ := describe_total packet
  obtain ⟨_, code, frame, parsed, _⟩ := parseFuzzerFrame_bounded malloc packet
  refine ⟨oracle, code, frame, described, parsed, ?_⟩
  rintro history reached step before raw rfl
  have alone := predicateTransform_fresh_eq (after_fresh before) oracle step
  have transformed := predicateTransform_raw raw oracle
  refine ⟨alone, ?_, ?_⟩
  · intro copied
    have groups := scanGroups_copied (containersMet_faithful .rejectedGroups) copied
    rw [← parseFuzzerFrame_stored parsed] at groups
    obtain ⟨mapped, classified⟩ := mapRawRequest_completes (observed oracle step) step.sendConfirm groups
    rw [alone, transformed, classified]
    exact ⟨_, _, rfl⟩
  · intro predicates next done
    rw [alone, transformed] at done
    obtain ⟨mapped, classified, done⟩ := bind_ok done
    cases done
    obtain ⟨known, unset⟩ := observed_kept oracle step
    have success := mapRawRequest_success unset classified
    rw [known] at success
    exact ⟨fun commit _ status => success.mpr ⟨commit, status⟩, success.mp⟩

def h2eCommit : List UInt8 := [3, 0, 1, 0, 126, 0, 19, 0] ++ asciiBytes "<SCALAR>" ++ asciiBytes "<ELEMENT>"

def unanswered (frame : FuzzerFrame) : Observation Unit :=
  ⟨.raw, 1, ⟨⟨0, ()⟩, 0, [], none, 0, -1, false, true⟩, frame, ⟨.timeout, none, 0⟩, -1, -1, 1⟩

/-- What is said of a packet, and that there are no rejected groups in it. -/
private def describedCommit (packet : List UInt8) : Bool :=
  (describe packet).any fun oracle =>
    oracleIs oracle "algo" "3" && oracleIs oracle "auth_seq" "1" && decide (oracleShows oracle "scalar" (asciiBytes "<SCALAR>")) &&
      decide (oracleShows oracle "element" (asciiBytes "<ELEMENT>")) && oracleIs oracle "status" "126" && !oracleIs oracle "status" "0" &&
      decide (ofKind .rejectedGroups (containersMet (fun _ => true) packet) = [])

private theorem h2eCommit_described : ∃ oracle, describe h2eCommit = some oracle ∧ CommitDescribed oracle ∧
    oracleShows oracle "element" (asciiBytes "<ELEMENT>") ∧ oracleIs oracle "status" "126" = true ∧ oracleIs oracle "status" "0" = false ∧
    ofKind .rejectedGroups (containersMet (fun _ => true) h2eCommit) = [] := by
  have evaluated : describedCommit h2eCommit = true := by decide
  obtain ⟨oracle, described, all⟩ := (Option.any_eq_true _ _).mp evaluated
  simp only [Bool.and_eq_true, decide_eq_true_eq, Bool.not_eq_true'] at all
  obtain ⟨⟨⟨⟨⟨⟨algo, authSeq⟩, scalar⟩, element⟩, h2e⟩, zero⟩, empty⟩ := all
  exact ⟨oracle, described, ⟨algo, authSeq, scalar⟩, element, h2e, zero, empty⟩

theorem h2eCommit_classified : ∃ oracle code frame reached predicates next,
    describe h2eCommit = some oracle ∧ parseFuzzerFrame (fun _ => true) h2eCommit = .ok (code, frame) ∧
      Logic.run PredicateTransformer.after PredicateTransformer.new [(describe [], unanswered FuzzerFrame.zero)] = .ok reached ∧
      reached.predicateTransform (some oracle) (unanswered frame) = .ok (predicates, next) ∧ predicates.request = .commitSuccess := by
  obtain ⟨oracle, code, frame, described, parsed, classified⟩ := request_classified (G := Unit) (fun _ => true) h2eCommit
  obtain ⟨other, same, commit, element, h2e, _, empty⟩ := h2eCommit_described
  obtain rfl : other = oracle := Option.some.inj (same.symm.trans described)
  have executed : (Logic.run PredicateTransformer.after PredicateTransformer.new
      [(describe [], unanswered FuzzerFrame.zero)]).toOption.any (fun _ => true) = true := by decide +kernel
  obtain ⟨reached, before, _⟩ := Logic.checked_ok executed
  obtain ⟨_, completes, class_⟩ := classified _ reached (unanswered frame) before rfl rfl
  obtain ⟨predicates, next, done⟩ := completes (Or.inr (by rw [empty]; exact List.forall_mem_nil _))
  refine ⟨other, code, frame, reached, predicates, next, described, parsed, before, done, (class_ predicates next done).1 commit element ?_⟩
  rw [statusAccepted, h2e, Bool.or_true]

/-- The status is not 0, and the commit is successful. -/
theorem h2eCommit_succeeds : ∃ oracle code frame predicates next, describe h2eCommit = some oracle ∧
    parseFuzzerFrame (fun _ => true) h2eCommit = .ok (code, frame) ∧ CommitDescribed oracle ∧ oracleIs oracle "status" "0" = false ∧
      PredicateTransformer.new.predicateTransform (some oracle) (unanswered frame) = .ok (predicates, next) ∧
      predicates.request = .commitSuccess := by
  obtain ⟨oracle, described, commit, _, h2e, zero, empty⟩ := h2eCommit_described
  obtain ⟨_, code, frame, parsed, _⟩ := parseFuzzerFrame_bounded (fun _ => true) h2eCommit
  have groups := scanGroups_copied (containersMet_faithful .rejectedGroups) (Or.inr (by rw [empty]; exact List.forall_mem_nil _))
  rw [← parseFuzzerFrame_stored parsed] at groups
  obtain ⟨mapped, classified⟩ := mapRawRequest_completes (observed oracle (unanswered frame)) 1 groups
  obtain ⟨known, unset⟩ := observed_kept oracle (unanswered frame)
  have accepted : statusAccepted oracle = true := by rw [statusAccepted, h2e, Bool.or_true]
  refine ⟨oracle, code, frame, mapped, mapped.resetTransformer, described, parsed, commit, zero, ?_, ?_⟩
  · rw [predicateTransform_raw rfl]
    exact congrArg (fun result => result >>= fun predicates => .ok (predicates, predicates.resetTransformer)) classified
  · exact (mapRawRequest_success unset classified).mpr (by rw [known]; exact ⟨commit, accepted⟩)

end Runs

end LtlFuzz.Driver

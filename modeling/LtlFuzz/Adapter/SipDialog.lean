import LtlFuzz.Adapter.Sip
import LtlFuzz.Adapter.View
import Mathlib.Data.List.Induction

/-! The dialog that the SIP adapter tells of. A call that is set up after another one was
ended leaves it both established and terminated, as no flag is cleared for it. -/

namespace LtlFuzz.Adapter.Sip
open Monitor (boolToString)

section Calls

/-- The session after some messages, if every call returned. -/
def after (session : Session) (traffic : Traffic) : Option Session :=
  traffic.foldlM (fun session packet => (build packet.1 session packet.2).map Prod.snd) session

def requestMethod (packet : Packet) : Method := mapSipMethod (extractMethod packet.text)

/-- The method of the last request. -/
def latest : Method → Traffic → Method
  | method, [] => method
  | _, (.c2s, packet) :: traffic => latest (requestMethod packet) traffic
  | method, (.s2c, _) :: traffic => latest method traffic

/-- The methods that were answered by 200. -/
def confirmed : Method → Traffic → List Method
  | _, [] => []
  | _, (.c2s, packet) :: traffic => confirmed (requestMethod packet) traffic
  | method, (.s2c, packet) :: traffic =>
    if extractResponseCode packet.text = 200 then method :: confirmed method traffic else confirmed method traffic

/-- A line does not tell of a dialog that is both established and terminated. -/
structure CoherentLine (fields : List Field) : Prop where
  exclusive : ¬(fields.lookup "dialog_established" = some "true" ∧ fields.lookup "dialog_terminated" = some "true")
  state : fields.lookup "dialog_state" = some "dsConfirmed" ↔ fields.lookup "dialog_established" = some "true"

def Coherent (traffic : Traffic) : Prop :=
  ∀ before direction packet behind, traffic = before ++ (direction, packet) :: behind →
    ∀ session, after resetSession before = some session →
      ∀ fields next, build direction session packet = some (fields, next) → CoherentLine fields

/-- No INVITE is accepted after a BYE was. -/
def OneCall (answered : List Method) : Prop := answered.Pairwise fun earlier later => ¬(earlier = .bye ∧ later = .invite)

end Calls

section Lines

theorem build_predicates {direction : Direction} {session next : Session} {packet : Packet} {fields : List Field}
    (built : build direction session packet = some (fields, next)) : ∃ message : Message, fields = message.predicates next := by
  cases direction with
  | c2s =>
    obtain ⟨message, _, _, _, same, _⟩ := buildRequestPredLine_step built
    exact ⟨message, same⟩
  | s2c =>
    obtain ⟨message, _, same, _⟩ := buildResponsePredLine_step built
    exact ⟨message, same⟩

theorem coherentLine_iff {direction : Direction} {session next : Session} {packet : Packet} {fields : List Field}
    (built : build direction session packet = some (fields, next)) :
    CoherentLine fields ↔ ¬(next.dialogEstablished = true ∧ next.dialogTerminated = true) := by
  obtain ⟨message, rfl⟩ := build_predicates built
  have established : (message.predicates next).lookup "dialog_established" = some (boolToString next.dialogEstablished) := rfl
  have terminated : (message.predicates next).lookup "dialog_terminated" = some (boolToString next.dialogTerminated) := rfl
  have state : (message.predicates next).lookup "dialog_state" = some next.dialogState.text := rfl
  have flag (flag : Bool) : some (boolToString flag) = some "true" ↔ flag = true := by cases flag <;> decide
  have shown : next.dialogState.text = "dsConfirmed" ↔ next.dialogEstablished = true ∧ next.dialogTerminated = false := by
    unfold Session.dialogState
    cases next.dialogTerminated <;> cases next.dialogEstablished <;> cases next.earlyDialog <;> decide
  constructor
  · intro coherent both
    apply coherent.exclusive
    rw [established, terminated, flag, flag]
    exact both
  · intro exclusive
    refine ⟨?_, ?_⟩
    · rw [established, terminated, flag, flag]
      exact exclusive
    · rw [state, established, flag, Option.some_inj, shown]
      exact ⟨And.left, fun set => ⟨set, Bool.eq_false_iff.mpr fun ended => exclusive ⟨set, ended⟩⟩⟩

end Lines

section Following

/-- The last of the calls that were set up was not ended. -/
def stands (answered : List Method) : Bool :=
  answered.foldl (fun standing method => (standing || decide (method = .invite)) && decide (method ≠ .bye)) false

@[simp] theorem stands_append (answered : List Method) (method : Method) :
    stands (answered ++ [method]) = ((stands answered || decide (method = .invite)) && decide (method ≠ .bye)) := by
  simp [stands]

/-- The session knows the last method, and of the answers what the flags can hold. -/
structure Follows (method : Method) (answered : List Method) (session : Session) : Prop where
  lastMethod : session.lastMethod = some method
  established : session.dialogEstablished = stands answered
  terminated : session.dialogTerminated = decide (.bye ∈ answered)

theorem follows_reset : Follows .notSet [] resetSession := ⟨rfl, rfl, rfl⟩

theorem request_follows {session next : Session} {packet : Packet} {fields : List Field} {method : Method}
    {answered : List Method} (follows : Follows method answered session)
    (built : build .c2s session packet = some (fields, next)) : Follows (requestMethod packet) answered next := by
  obtain ⟨_, _, _, hasAuth, _, _, _, rfl⟩ := buildRequestPredLine_step built
  have flags (session : Session) (method : Method) : (session.afterRequest method hasAuth).dialogEstablished =
      session.dialogEstablished ∧ (session.afterRequest method hasAuth).dialogTerminated = session.dialogTerminated := by
    cases method <;> exact ⟨rfl, rfl⟩
  refine ⟨afterRequest_lastMethod _ _ _, ?_, ?_⟩
  · rw [(flags _ _).1, ← follows.established]
  · rw [(flags _ _).2, ← follows.terminated]

theorem afterResponse_other {respCode : Nat} (other : respCode ≠ 200) (session : Session) (hasToTag : Bool) :
    (session.afterResponse respCode hasToTag).dialogEstablished = session.dialogEstablished ∧
      (session.afterResponse respCode hasToTag).dialogTerminated = session.dialogTerminated := by
  unfold Session.afterResponse
  dsimp only
  split_ifs <;> exact ⟨rfl, rfl⟩

theorem afterResponse_confirmed {session : Session} {method : Method} (last : session.lastMethod = some method)
    (hasToTag : Bool) : (session.afterResponse 200 hasToTag).dialogEstablished =
      ((session.dialogEstablished || decide (method = .invite)) && decide (method ≠ .bye)) ∧
    (session.afterResponse 200 hasToTag).dialogTerminated = (session.dialogTerminated || decide (method = .bye)) := by
  unfold Session.afterResponse
  dsimp only
  rw [if_neg (by decide), if_pos (by decide), if_pos rfl, last]
  cases method <;> simp

theorem response_follows {session next : Session} {packet : Packet} {fields : List Field} {method : Method}
    {answered : List Method} (follows : Follows method answered session)
    (built : build .s2c session packet = some (fields, next)) :
    Follows method (answered ++ confirmed method [(.s2c, packet)]) next := by
  obtain ⟨_, hasToTag, _, _, _, rfl⟩ := buildResponsePredLine_step built
  by_cases accepted : extractResponseCode packet.text = 200
  · obtain ⟨established, terminated⟩ := afterResponse_confirmed follows.lastMethod hasToTag
    have added : confirmed method [(.s2c, packet)] = [method] := if_pos accepted
    rw [accepted, added]
    refine ⟨?_, ?_, ?_⟩
    · rw [afterResponse_lastMethod, follows.lastMethod]
    · rw [established, stands_append, follows.established]
    · rw [terminated, follows.terminated]
      cases method <;> simp
  · obtain ⟨established, terminated⟩ := afterResponse_other accepted session hasToTag
    have added : confirmed method [(.s2c, packet)] = [] := if_neg accepted
    rw [added, List.append_nil]
    refine ⟨?_, ?_, ?_⟩
    · rw [afterResponse_lastMethod, follows.lastMethod]
    · rw [established, follows.established]
    · rw [terminated, follows.terminated]

/-- One message answers at most one method. -/
theorem confirmed_singleton (method : Method) (packet : Direction × Packet) :
    confirmed method [packet] = [] ∨ confirmed method [packet] = [method] := by
  obtain ⟨direction, packet⟩ := packet
  cases direction with
  | c2s => exact Or.inl rfl
  | s2c =>
    unfold confirmed
    split
    · exact Or.inr rfl
    · exact Or.inl rfl

theorem confirmed_append (method : Method) (before behind : Traffic) :
    confirmed method (before ++ behind) = confirmed method before ++ confirmed (latest method before) behind := by
  induction before generalizing method with
  | nil => rfl
  | cons first before ih =>
    obtain ⟨direction, packet⟩ := first
    cases direction with
    | c2s => exact ih _
    | s2c =>
      rw [List.cons_append, confirmed, confirmed, latest, ih]
      split <;> rfl

theorem latest_append (method : Method) (before behind : Traffic) :
    latest method (before ++ behind) = latest (latest method before) behind := by
  induction before generalizing method with
  | nil => rfl
  | cons first before ih =>
    obtain ⟨direction, packet⟩ := first
    cases direction with
    | c2s => exact ih _
    | s2c => exact ih _

theorem after_snoc {session next : Session} {before : Traffic} {packet : Direction × Packet} :
    after session (before ++ [packet]) = some next ↔ ∃ reached fields,
      after session before = some reached ∧ build packet.1 reached packet.2 = some (fields, next) := by
  unfold after
  rw [List.foldlM_append]
  constructor
  · intro handled
    obtain ⟨reached, earlier, last⟩ := Option.bind_eq_some_iff.mp handled
    obtain ⟨fields, built⟩ : ∃ fields, build packet.1 reached packet.2 = some (fields, next) := by simpa using last
    exact ⟨reached, fields, earlier, built⟩
  · rintro ⟨reached, fields, earlier, built⟩
    refine Option.bind_eq_some_iff.mpr ⟨reached, earlier, ?_⟩
    simp [built]

theorem after_follows {traffic : Traffic} {session : Session} (handled : after resetSession traffic = some session) :
    Follows (latest .notSet traffic) (confirmed .notSet traffic) session := by
  induction traffic using List.reverseRecOn generalizing session with
  | nil =>
    cases handled
    exact follows_reset
  | append_singleton before last ih =>
    obtain ⟨direction, packet⟩ := last
    obtain ⟨reached, fields, earlier, built⟩ := after_snoc.mp handled
    have follows := ih earlier
    rw [confirmed_append, latest_append]
    cases direction with
    | c2s =>
      have added : confirmed (latest .notSet before) [(.c2s, packet)] = [] := rfl
      rw [added, List.append_nil]
      exact request_follows follows built
    | s2c => exact response_follows follows built

end Following

section Coherence

theorem stands_false {answered : List Method} (one : OneCall answered) (ended : .bye ∈ answered) : stands answered = false := by
  induction answered using List.reverseRecOn with
  | nil => rfl
  | append_singleton answered method ih =>
    obtain ⟨earlier, _, order⟩ := List.pairwise_append.mp one
    rw [stands_append]
    obtain ended | ended := List.mem_append.mp ended
    · have other : method ≠ .invite := fun invite => order _ ended method List.mem_cons_self ⟨rfl, invite⟩
      simp [ih earlier ended, other]
    · obtain rfl := List.mem_singleton.mp ended
      simp

/-- The dialog is told coherently exactly as long as no call is set up after one was ended. -/
theorem coherent_iff (traffic : Traffic) : Coherent traffic ↔
    ∀ before behind, traffic = before ++ behind → (after resetSession before).isSome = true →
      OneCall (confirmed .notSet before) := by
  constructor
  · intro coherent before
    induction before using List.reverseRecOn with
    | nil => exact fun _ _ _ => List.Pairwise.nil
    | append_singleton before last ih =>
      obtain ⟨direction, packet⟩ := last
      intro behind split returns
      obtain ⟨next, handled⟩ := Option.isSome_iff_exists.mp returns
      obtain ⟨reached, fields, earlier, built⟩ := after_snoc.mp handled
      have follows := after_follows handled
      have line := (coherentLine_iff built).mp
        (coherent before direction packet behind (by rw [split, List.append_assoc]; rfl) reached earlier fields next built)
      have one := ih ((direction, packet) :: behind) (by rw [split, List.append_assoc]; rfl) (by rw [earlier]; rfl)
      rw [follows.established, follows.terminated, decide_eq_true_iff, confirmed_append] at line
      rw [confirmed_append]
      obtain added | added := confirmed_singleton (latest .notSet before) (direction, packet)
      · rw [added, List.append_nil]
        exact one
      · rw [added] at line ⊢
        refine List.pairwise_append.mpr ⟨one, List.pairwise_singleton _ _, ?_⟩
        rintro method ended later accepted ⟨rfl, rfl⟩
        obtain same := List.mem_singleton.mp accepted
        refine line ⟨?_, List.mem_append_left _ ended⟩
        rw [stands_append, ← same]
        simp
  · rintro calls before direction packet behind rfl session earlier fields next built
    have handled : after resetSession (before ++ [(direction, packet)]) = some next := after_snoc.mpr ⟨session, fields, earlier, built⟩
    have follows := after_follows handled
    have one := calls (before ++ [(direction, packet)]) behind (by rw [List.append_assoc]; rfl) (by rw [handled]; rfl)
    rw [coherentLine_iff built, follows.established, follows.terminated, decide_eq_true_iff]
    rintro ⟨standing, ended⟩
    rw [stands_false one ended] at standing
    cases standing

def inviteRequest : Packet := { bytes := [73, 78, 86, 73, 84, 69, 32, 97, 32, 83, 73, 80, 47, 50, 46, 48, 13, 10, 13, 10] }

def byeRequest : Packet := { bytes := [66, 89, 69, 32, 97, 32, 83, 73, 80, 47, 50, 46, 48, 13, 10, 13, 10] }

def okReply : Packet := { bytes := [83, 73, 80, 47, 50, 46, 48, 32, 50, 48, 48, 32, 79, 75, 13, 10, 13, 10] }

/-- A call is set up and ended, and another one is set up. -/
def secondCall : Traffic :=
  [(.c2s, inviteRequest), (.s2c, okReply), (.c2s, byeRequest), (.s2c, okReply), (.c2s, inviteRequest), (.s2c, okReply)]

theorem secondCall_incoherent : ¬Coherent secondCall := by
  intro coherent
  have flags : (after resetSession secondCall).map (fun session => (session.dialogEstablished, session.dialogTerminated)) =
      some (true, true) := by decide +kernel
  obtain ⟨next, handled, both⟩ := Option.map_eq_some_iff.mp flags
  have last : after resetSession (secondCall.take 5 ++ [(.s2c, okReply)]) = some next := handled
  obtain ⟨reached, fields, earlier, built⟩ := after_snoc.mp last
  have line := (coherentLine_iff built).mp (coherent (secondCall.take 5) .s2c okReply [] rfl reached earlier fields next built)
  obtain ⟨established, terminated⟩ := Prod.mk.inj both
  exact line ⟨established, terminated⟩

end Coherence

end LtlFuzz.Adapter.Sip

import LtlFuzz.Adapter.View

/-! What the RTSP adapter tells of a session, next to what happened in it. It compares methods
and status classes with texts that its helpers never produce, so that nothing is ever tracked. -/

namespace LtlFuzz.Adapter.Rtsp
open Monitor (boolToString)

section Exchanges

/-- What the adapter reads of a request. -/
structure Request where
  method : Method := .notSet
  hasSession : Bool := false
  deriving DecidableEq, Repr

def Request.read (packet : Packet) : Request :=
  if isMalformedRequest packet.text then {}
  else
    let (line, headers) := parseMessage packet.text
    ⟨parseRequestMethod line, headers.hasSession⟩

structure Reply where
  statusClass : StatusClass := .notSet
  hasSession : Bool := false
  timeout : Bool := false
  deriving DecidableEq, Repr

def Reply.read (packet : Packet) : Reply :=
  let timeout := packet.bytes.isEmpty
  if isMalformedResponse packet.text then { timeout }
  else
    let (line, headers) := parseMessage packet.text
    ⟨getStatusClass (parseResponseStatus line), headers.hasSession, timeout⟩

structure Exchange where
  request : Request
  reply : Reply
  deriving DecidableEq, Repr

/-- Each reply answers the request before it. -/
def exchanges : Request → Traffic → List Exchange
  | _, [] => []
  | _, (.c2s, packet) :: traffic => exchanges (Request.read packet) traffic
  | request, (.s2c, packet) :: traffic => ⟨request, Reply.read packet⟩ :: exchanges request traffic

namespace Exchange

variable (exchange : Exchange)

def setsUp : Bool := exchange.request.method == .setup && exchange.reply.statusClass == .success && exchange.reply.hasSession

def plays : Bool := exchange.request.method == .play && exchange.reply.statusClass == .success

def tearsDown : Bool := exchange.request.method == .teardown && exchange.reply.statusClass == .success

def failsKeepalive : Bool :=
  exchange.request.method == .getParameter && exchange.request.hasSession &&
    (exchange.reply.timeout || exchange.reply.statusClass == .clientErr || exchange.reply.statusClass == .serverErr)

end Exchange

/-- A session was set up and not torn down since. -/
def Established (history : List Exchange) : Prop :=
  ∃ before exchange after, history = before ++ exchange :: after ∧ exchange.setsUp = true ∧
    ∀ later ∈ after, later.tearsDown = false

/-- The fields of a reply's line say what has happened up to the exchange it ends. -/
structure Tracks (earlier : List Exchange) (last : Exchange) (fields : List Field) : Prop where
  established : ∃ flag, fields.lookup "session_established" = some (boolToString flag) ∧
    (flag = true ↔ Established (earlier ++ [last]))
  setups : fields.lookup "setup_success_count" = some (toString ((earlier ++ [last]).countP Exchange.setsUp : Int))
  playing : fields.lookup "play_success_count" = some (toString ((earlier ++ [last]).countP Exchange.plays : Int))
  keepalive : ∃ flag, fields.lookup "keepalive_failed" = some (boolToString flag) ∧
    (flag = true ↔ last.failsKeepalive = true)

/-- Every reply of a session is tracked. -/
def Tracked (traffic : Traffic) : Prop :=
  ∀ before packet after, traffic = before ++ (.s2c, packet) :: after → ∀ earlier last,
    exchanges {} (before ++ [(.s2c, packet)]) = earlier ++ [last] →
    Tracks earlier last (adapter.build .s2c (adapter.after adapter.resetSession before) packet).1

end Exchanges

section Idle

/-- The texts are kept with the prefix of their enumeration. -/
private theorem method_text (method : Method) : (method.text == "SETUP") = false ∧ (method.text == "PLAY") = false ∧
    (method.text == "TEARDOWN") = false ∧ (method.text == "GET_PARAMETER") = false := by
  cases method <;> decide

private theorem statusClass_text (statusClass : StatusClass) : (statusClass.text == "SUCCESS") = false := by
  cases statusClass <;> decide

theorem afterResponse_unchanged (session : Session) (statusClass : StatusClass) (headers : Headers) :
    session.afterResponse statusClass headers = (false, session) := by
  simp [Session.afterResponse, statusClass_text]

/-- Nothing was tracked. -/
structure Idle (session : Session) : Prop where
  initialized : session.sessionInitialized = true
  established : session.sessionEstablished = false
  setups : session.setupSuccessCount = 0
  playing : session.playSuccessCount = 0

theorem idle_reset : Idle resetSession := ⟨rfl, rfl, rfl, rfl⟩

/-- A reply leaves no mark. -/
theorem build_reply {session : Session} (ready : session.sessionInitialized = true) (packet : Packet) :
    (adapter.build .s2c session packet).2 = session := by
  simp only [adapter, buildResponsePredLine, Session.initialized, if_pos ready, afterResponse_unchanged, statusClass_text,
    Bool.and_false, Bool.false_eq_true, if_false]

private theorem build_idle {session : Session} (idle : Idle session) (direction : Direction) (packet : Packet) :
    Idle (adapter.build direction session packet).2 := by
  cases direction with
  | c2s =>
    simp only [adapter, buildRequestPredLine, Session.initialized, if_pos idle.initialized]
    exact ⟨idle.initialized, idle.established, idle.setups, idle.playing⟩
  | s2c =>
    rw [build_reply idle.initialized]
    exact idle

theorem after_idle (traffic : Traffic) : Idle (adapter.after adapter.resetSession traffic) :=
  adapter.after_invariant Idle (fun _ direction packet idle => build_idle idle direction packet) idle_reset traffic

/-- What a reply's line says of the session does not depend on the reply. -/
private theorem reply_fields {session : Session} (idle : Idle session) (packet : Packet) :
    let fields := (adapter.build .s2c session packet).1
    fields.lookup "session_established" = some (boolToString false) ∧
      fields.lookup "setup_success_count" = some (toString (0 : Int)) ∧
      fields.lookup "play_success_count" = some (toString (0 : Int)) ∧
      fields.lookup "keepalive_failed" = some (boolToString false) := by
  have ready : session.initialized = session := if_pos idle.initialized
  simp only [adapter, buildResponsePredLine, ready, afterResponse_unchanged, method_text, Bool.false_and, Bool.false_eq_true,
    if_false, Message.predicates, idle.established, idle.setups, idle.playing]
  exact ⟨rfl, rfl, rfl, rfl⟩

end Idle

section Tracking

private theorem boolToString_injective {first second : Bool} (same : boolToString first = boolToString second) :
    first = second := by
  cases first <;> cases second <;> first | rfl | exact absurd same (by decide)

private theorem countP_zero {history : List Exchange} {happened : Exchange → Bool}
    (zero : some (toString (0 : Int)) = some (toString (history.countP happened : Int))) :
    ∀ exchange ∈ history, happened exchange = false := by
  have none_ : history.countP happened = 0 := by
    have same := Text.toString_int_injective (Option.some.inj zero)
    omega
  intro exchange member
  exact Bool.eq_false_iff.mpr (List.countP_eq_zero.mp none_ exchange member)

/-- A line is right where there was nothing to track. -/
theorem tracks_iff {session : Session} (idle : Idle session) (earlier : List Exchange) (last : Exchange) (packet : Packet) :
    Tracks earlier last (adapter.build .s2c session packet).1 ↔
      (∀ exchange ∈ earlier ++ [last], exchange.setsUp = false ∧ exchange.plays = false) ∧ last.failsKeepalive = false := by
  obtain ⟨established, setups, playing, keepalive⟩ := reply_fields idle packet
  constructor
  · intro tracks
    have noSetup := countP_zero (setups.symm.trans tracks.setups)
    have noPlay := countP_zero (playing.symm.trans tracks.playing)
    obtain ⟨flag, told, failed⟩ := tracks.keepalive
    have unset := boolToString_injective (Option.some.inj (keepalive.symm.trans told))
    refine ⟨fun exchange member => ⟨noSetup exchange member, noPlay exchange member⟩, ?_⟩
    rw [← unset] at failed
    exact Bool.eq_false_iff.mpr fun fails => absurd (failed.mpr fails) (by decide)
  · rintro ⟨nothing, kept⟩
    have none_ : ∀ happened : Exchange → Bool, (∀ exchange ∈ earlier ++ [last], happened exchange = false) →
        (earlier ++ [last]).countP happened = 0 := by
      intro happened never
      exact List.countP_eq_zero.mpr fun exchange member => Bool.eq_false_iff.mp (never exchange member)
    refine ⟨⟨false, established, ?_⟩, ?_, ?_, ⟨false, keepalive, ?_⟩⟩
    · refine ⟨fun wrong => absurd wrong (by decide), ?_⟩
      rintro ⟨before, exchange, after, split, setUp, _⟩
      have member : exchange ∈ earlier ++ [last] := by
        rw [split]
        exact List.mem_append_right _ List.mem_cons_self
      rw [(nothing exchange member).1] at setUp
      exact absurd setUp (by decide)
    · rw [setups, none_ _ fun exchange member => (nothing exchange member).1]
      rfl
    · rw [playing, none_ _ fun exchange member => (nothing exchange member).2]
      rfl
    · rw [kept]

theorem exchanges_append (request : Request) (before after : Traffic) :
    ∃ latest, exchanges request (before ++ after) = exchanges request before ++ exchanges latest after := by
  induction before generalizing request with
  | nil => exact ⟨request, rfl⟩
  | cons first before ih =>
    obtain ⟨direction, packet⟩ := first
    cases direction with
    | c2s => exact ih (Request.read packet)
    | s2c =>
      obtain ⟨latest, rest⟩ := ih request
      exact ⟨latest, congrArg _ rest⟩

/-- Every exchange ends with a reply of the session. -/
private theorem reply_of_exchange {request : Request} {traffic : Traffic} {earlier later : List Exchange} {exchange : Exchange}
    (split : exchanges request traffic = earlier ++ exchange :: later) :
    ∃ before packet after, traffic = before ++ (.s2c, packet) :: after ∧
      exchanges request (before ++ [(.s2c, packet)]) = earlier ++ [exchange] := by
  induction traffic generalizing request earlier with
  | nil => exact absurd split (by simp [exchanges])
  | cons first traffic ih =>
    obtain ⟨direction, packet⟩ := first
    cases direction with
    | c2s =>
      obtain ⟨before, reply, after, rfl, ended⟩ := ih split
      exact ⟨(.c2s, packet) :: before, reply, after, rfl, ended⟩
    | s2c =>
      cases earlier with
      | nil =>
        obtain ⟨same, _⟩ := List.cons.inj split
        exact ⟨[], packet, traffic, rfl, congrArg (· :: []) same⟩
      | cons one earlier =>
        obtain ⟨same, rest⟩ := List.cons.inj split
        obtain ⟨before, reply, after, rfl, ended⟩ := ih rest
        refine ⟨(.s2c, packet) :: before, reply, after, rfl, ?_⟩
        rw [List.cons_append, exchanges, ended, same]
        rfl

/-- A session is tracked exactly when nothing happens in it that would have to be. -/
theorem tracked_iff (traffic : Traffic) : Tracked traffic ↔
    ∀ exchange ∈ exchanges {} traffic, exchange.setsUp = false ∧ exchange.plays = false ∧ exchange.failsKeepalive = false := by
  constructor
  · intro tracked exchange member
    obtain ⟨earlier, later, split⟩ := List.append_of_mem member
    obtain ⟨before, packet, after, whole, ended⟩ := reply_of_exchange split
    obtain ⟨nothing, kept⟩ := (tracks_iff (after_idle before) earlier exchange packet).mp
      (tracked before packet after whole earlier exchange ended)
    obtain ⟨noSetup, noPlay⟩ := nothing exchange (List.mem_append_right _ List.mem_cons_self)
    exact ⟨noSetup, noPlay, kept⟩
  · rintro nothing before packet after rfl earlier last ended
    obtain ⟨latest, whole⟩ := exchanges_append {} (before ++ [(.s2c, packet)]) after
    rw [List.append_assoc, List.singleton_append, ended] at whole
    have inside : ∀ exchange ∈ earlier ++ [last], exchange ∈ exchanges {} (before ++ (.s2c, packet) :: after) := by
      intro exchange member
      rw [whole]
      exact List.mem_append_left _ member
    apply (tracks_iff (after_idle before) earlier last packet).mpr
    refine ⟨fun exchange member => ?_, ?_⟩
    · obtain ⟨noSetup, noPlay, _⟩ := nothing exchange (inside exchange member)
      exact ⟨noSetup, noPlay⟩
    · exact (nothing last (inside last (List.mem_append_right _ List.mem_cons_self))).2.2

/-- `SETUP a RTSP/1.0`. -/
def setupRequest : Packet := { bytes := [83, 69, 84, 85, 80, 32, 97, 32, 82, 84, 83, 80, 47, 49, 46, 48,
  13, 10, 13, 10] }

/-- `RTSP/1.0 200 OK` with `Session: 1`. -/
def setupReply : Packet := { bytes := [82, 84, 83, 80, 47, 49, 46, 48, 32, 50, 48, 48, 32, 79, 75, 13, 10, 83, 101,
  115, 115, 105, 111, 110, 58, 32, 49, 13, 10, 13, 10] }

private theorem setupExchange : (Exchange.mk (Request.read setupRequest) (Reply.read setupReply)).setsUp = true := by
  decide +kernel

/-- A session that was set up is not established. -/
theorem setup_untracked : ¬Tracked [(.c2s, setupRequest), (.s2c, setupReply)] := by
  intro tracked
  have told := tracked [(.c2s, setupRequest)] setupReply [] rfl [] _ rfl
  obtain ⟨nothing, _⟩ := (tracks_iff (after_idle _) _ _ _).mp told
  have missed := (nothing _ List.mem_cons_self).1
  rw [setupExchange] at missed
  cases missed

end Tracking

end LtlFuzz.Adapter.Rtsp

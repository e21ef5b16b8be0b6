import LtlFuzz.Adapter.Shipped

/-! How much of a session the builders look at. A view forgets what no builder reads
before it writes; sessions that look alike print the same lines for ever after. -/

namespace LtlFuzz.Adapter

structure View {σ : Type} (adapter : PredicateAdapter σ) where
  visible : σ → σ
  start : visible adapter.start = visible adapter.resetSession
  fields : ∀ direction session packet,
    (adapter.build direction session packet).1 = (adapter.build direction (visible session) packet).1
  next : ∀ direction session packet,
    visible (adapter.build direction session packet).2 = visible (adapter.build direction (visible session) packet).2

/-- Packets in the order in which their lines are built. -/
abbrev Traffic := List (Direction × Packet)

section Sending

variable {σ : Type} (adapter : PredicateAdapter σ)

def Machine.send (machine : Machine σ) : Traffic → List (List Char) × Machine σ
  | [] => ([], machine)
  | (direction, packet) :: traffic =>
    let (line, next) := machine.buildPredLine adapter direction packet
    let (lines, last) := next.send traffic
    (line :: lines, last)

/-- The session after some packets. -/
def PredicateAdapter.after (session : σ) (traffic : Traffic) : σ :=
  traffic.foldl (fun session packet => (adapter.build packet.1 session packet.2).2) session

@[simp] theorem PredicateAdapter.after_append (session : σ) (first second : Traffic) :
    adapter.after session (first ++ second) = adapter.after (adapter.after session first) second := by
  simp [after]

theorem PredicateAdapter.after_invariant (invariant : σ → Prop)
    (kept : ∀ session direction packet, invariant session → invariant (adapter.build direction session packet).2)
    {session : σ} (initial : invariant session) (traffic : Traffic) : invariant (adapter.after session traffic) := by
  induction traffic generalizing session with
  | nil => exact initial
  | cons packet traffic ih => exact ih (kept session packet.1 packet.2 initial)

/-- A mark that some packets leave and no packet removes. -/
theorem PredicateAdapter.after_marked (invariant marked : σ → Prop) {marks : Direction × Packet → Prop}
    (kept : ∀ session direction packet, invariant session → invariant (adapter.build direction session packet).2)
    (left : ∀ session direction packet, invariant session → marks (direction, packet) ∨ marked session →
      marked (adapter.build direction session packet).2)
    {session : σ} (initial : invariant session) {traffic : Traffic} (found : ∃ packet ∈ traffic, marks packet) :
    invariant (adapter.after session traffic) ∧ marked (adapter.after session traffic) := by
  obtain ⟨packet, member, marking⟩ := found
  obtain ⟨before, behind, rfl⟩ := List.append_of_mem member
  have reached := adapter.after_invariant invariant kept initial before
  rw [after_append]
  refine adapter.after_invariant (fun session => invariant session ∧ marked session) ?_
    ⟨kept _ packet.1 packet.2 reached, left _ packet.1 packet.2 reached (Or.inl marking)⟩ behind
  intro session direction packet held
  exact ⟨kept session direction packet held.1, left session direction packet held.1 (Or.inr held.2)⟩

/-- Two sessions that print the same fields about some packets. -/
def PredicateAdapter.AlikeOn : σ → σ → Traffic → Prop
  | _, _, [] => True
  | left, right, packet :: traffic =>
    (adapter.build packet.1 left packet.2).1 = (adapter.build packet.1 right packet.2).1 ∧
      AlikeOn (adapter.build packet.1 left packet.2).2 (adapter.build packet.1 right packet.2).2 traffic

variable {adapter}

/-- They print the same lines, numbered from the same message. -/
theorem PredicateAdapter.AlikeOn.send_eq {left right : σ} {traffic : Traffic} (alike : adapter.AlikeOn left right traffic)
    (messageId : Nat) :
    (Machine.send adapter ⟨left, messageId⟩ traffic).1 = (Machine.send adapter ⟨right, messageId⟩ traffic).1 := by
  induction traffic generalizing left right messageId with
  | nil => rfl
  | cons packet traffic ih =>
    obtain ⟨fields, next⟩ := alike
    simp only [Machine.send, Machine.buildPredLine, fields]
    split
    · rw [ih next]
    · rw [ih next]

@[simp] theorem Machine.send_session (machine : Machine σ) (traffic : Traffic) :
    (machine.send adapter traffic).2.session = adapter.after machine.session traffic := by
  induction traffic generalizing machine with
  | nil => rfl
  | cons packet traffic ih => simp [send, ih, PredicateAdapter.after]

@[simp] theorem Machine.send_length (machine : Machine σ) (traffic : Traffic) :
    (machine.send adapter traffic).1.length = traffic.length := by
  induction traffic generalizing machine with
  | nil => rfl
  | cons packet traffic ih => simp [send, ih]

theorem Machine.send_lines (machine : Machine σ) (traffic : Traffic) :
    (machine.send adapter traffic).1 = machine.lines adapter (traffic.map fun packet => .packet packet.1 packet.2) := by
  induction traffic generalizing machine with
  | nil => rfl
  | cons packet traffic ih => simp [send, lines, ih]

theorem Machine.send_append (machine : Machine σ) (first second : Traffic) :
    machine.send adapter (first ++ second) =
      ((machine.send adapter first).1 ++ ((machine.send adapter first).2.send adapter second).1,
        ((machine.send adapter first).2.send adapter second).2) := by
  induction first generalizing machine with
  | nil => rfl
  | cons packet first ih => simp [send, ih]

namespace View

variable (view : View adapter)

theorem fields_eq {left right : σ} (alike : view.visible left = view.visible right) (direction : Direction)
    (packet : Packet) : (adapter.build direction left packet).1 = (adapter.build direction right packet).1 := by
  rw [view.fields direction left, alike, ← view.fields]

theorem next_eq {left right : σ} (alike : view.visible left = view.visible right) (direction : Direction)
    (packet : Packet) :
    view.visible (adapter.build direction left packet).2 = view.visible (adapter.build direction right packet).2 := by
  rw [view.next direction left, alike, ← view.next]

theorem after_eq {left right : σ} (alike : view.visible left = view.visible right) (traffic : Traffic) :
    view.visible (adapter.after left traffic) = view.visible (adapter.after right traffic) := by
  induction traffic generalizing left right with
  | nil => exact alike
  | cons packet traffic ih => exact ih (view.next_eq alike packet.1 packet.2)

theorem alikeOn {left right : σ} (alike : view.visible left = view.visible right) (traffic : Traffic) :
    adapter.AlikeOn left right traffic := by
  induction traffic generalizing left right with
  | nil => trivial
  | cons packet traffic ih =>
    exact ⟨view.fields_eq alike packet.1 packet.2, ih (view.next_eq alike packet.1 packet.2)⟩

theorem alikeOn_left {left other right : σ} (alike : view.visible left = view.visible other) {traffic : Traffic}
    (same : adapter.AlikeOn other right traffic) : adapter.AlikeOn left right traffic := by
  induction traffic generalizing left other right with
  | nil => trivial
  | cons packet traffic ih =>
    exact ⟨(view.fields_eq alike packet.1 packet.2).trans same.1, ih (view.next_eq alike packet.1 packet.2) same.2⟩

/-- Alike sessions print the same lines, numbered from the same message. -/
theorem send_eq {left right : σ} (alike : view.visible left = view.visible right) (messageId : Nat) (traffic : Traffic) :
    (Machine.send adapter ⟨left, messageId⟩ traffic).1 = (Machine.send adapter ⟨right, messageId⟩ traffic).1 :=
  (view.alikeOn alike traffic).send_eq messageId

end View

end Sending

/-- Every variable of the FTP session is printed. -/
def Ftp.view : View Ftp.adapter where
  visible session := session
  start := rfl
  fields _ _ _ := rfl
  next _ _ _ := rfl

@[simp] theorem Dnsmasq.Session.initialized_idem (session : Session) :
    session.initialized.initialized = session.initialized := by
  unfold initialized
  split <;> simp_all [resetSession]

@[simp] theorem Rtsp.Session.initialized_idem (session : Session) :
    session.initialized.initialized = session.initialized := by
  unfold initialized
  split <;> simp_all [resetSession]

namespace Dtls.Session

/-- What is left without the two flags that are set and never read. -/
def hide (session : Session) : Session := { session with serverHelloSent := false, serverHelloDoneSent := false }

def visible (session : Session) : Session := session.initialized.hide

@[simp] theorem initialized_visible (session : Session) : session.visible.initialized = session.visible := by
  unfold visible initialized hide
  split <;> simp_all [resetSession]

@[simp] theorem hide_visible (session : Session) : session.visible.hide = session.visible := rfl

theorem cookie_eq {left right : Session} (same : left.hide = right.hide) :
    left.cookieExchangeDone = right.cookieExchangeDone := by
  simpa [hide] using congrArg cookieExchangeDone same

theorem visible_eq {left right : Session} (same : left.hide = right.hide) : left.visible = right.visible := by
  have ready : left.sessionInitialized = right.sessionInitialized := by
    simpa [hide] using congrArg sessionInitialized same
  unfold visible initialized
  rw [ready]
  split
  · exact same
  · rfl

theorem predicates_eq {left right : Session} (same : left.hide = right.hide) (record : Record) :
    record.predicates left = record.predicates right := by
  have complete : left.handshakeComplete = right.handshakeComplete := by
    simpa [hide] using congrArg handshakeComplete same
  have cipher : left.cipherNegotiated = right.cipherNegotiated := by
    simpa [hide] using congrArg cipherNegotiated same
  simp only [Record.predicates, complete, cipher]

theorem read_hide (session : Session) (direction : Direction) (packet : Packet) :
    (session.hide.read direction packet).1 = (session.read direction packet).1 ∧
      (session.hide.read direction packet).2.hide = (session.read direction packet).2.hide := by
  have request (contentType messageType : Nat) :
      (session.hide.afterRequest contentType messageType).hide = (session.afterRequest contentType messageType).hide := by
    simp only [afterRequest, complete, hide]
    split_ifs <;> rfl
  have response (contentType messageType : Nat) :
      (session.hide.afterResponse contentType messageType).hide =
        (session.afterResponse contentType messageType).hide := by
    simp only [afterResponse, complete, hide]
    split_ifs <;> rfl
  cases direction with
  | c2s =>
    have same := request (packet.byte 0) (parseRequest packet (packet.byte 0) (packet.u16 11) (packet.u16 3 > 0)).1
    have cookie := cookie_eq same
    refine ⟨?_, same⟩
    simp only [read, cookie]
    rfl
  | s2c =>
    have same := response (packet.byte 0) (parseResponse packet (packet.byte 0) (packet.u16 11) (packet.u16 3 > 0)).1
    have cookie := cookie_eq same
    refine ⟨?_, same⟩
    simp only [read, cookie]
    rfl

end Dtls.Session

theorem Dtls.build_visible (direction : Direction) (session : Session) (packet : Packet) :
    (adapter.build direction session packet).1 = (adapter.build direction session.visible packet).1 ∧
      (adapter.build direction session packet).2.visible = (adapter.build direction session.visible packet).2.visible := by
  have hidden : session.visible.hide = session.initialized.hide := rfl
  obtain ⟨sameRecord, sameNext⟩ : (session.visible.read direction packet).1 = (session.initialized.read direction packet).1 ∧
      (session.visible.read direction packet).2.hide = (session.initialized.read direction packet).2.hide :=
    session.initialized.read_hide direction packet
  simp only [adapter, buildPredLineInternal, Session.initialized_visible]
  split
  · exact ⟨Session.predicates_eq hidden.symm _, Session.visible_eq hidden.symm⟩
  · dsimp only
    rw [sameRecord]
    exact ⟨Session.predicates_eq sameNext.symm _, Session.visible_eq sameNext.symm⟩

def Dtls.view : View Dtls.adapter where
  visible := Session.visible
  start := rfl
  fields direction session packet := (build_visible direction session packet).1
  next direction session packet := (build_visible direction session packet).2

/-- The first call of a builder sets the session up. -/
def Dnsmasq.view : View Dnsmasq.adapter where
  visible := Session.initialized
  start := rfl
  fields direction session packet := by
    simp only [adapter, buildPredLineInternal, Session.initialized_idem]
  next direction session packet := by
    simp only [adapter, buildPredLineInternal, Session.initialized_idem]

def Rtsp.view : View Rtsp.adapter where
  visible := Session.initialized
  start := rfl
  fields direction session packet := by
    cases direction <;> simp only [adapter, buildRequestPredLine, buildResponsePredLine, Session.initialized_idem]
  next direction session packet := by
    cases direction <;> simp only [adapter, buildRequestPredLine, buildResponsePredLine, Session.initialized_idem]

def Protocol.view : (protocol : Protocol) → View protocol.adapter
  | .ftp => Ftp.view
  | .dtls => Dtls.view
  | .dnsmasq => Dnsmasq.view
  | .rtsp => Rtsp.view

/-- Equal lines begin with equal fields. -/
theorem Protocol.send_fields (protocol : Protocol) {left right : Machine protocol.Session} {direction : Direction}
    {packet : Packet} {traffic : Traffic}
    (same : (left.send protocol.adapter ((direction, packet) :: traffic)).1 =
      (right.send protocol.adapter ((direction, packet) :: traffic)).1) :
    (protocol.adapter.build direction left.session packet).1 = (protocol.adapter.build direction right.session packet).1 := by
  obtain ⟨checker, nodes, snums, accepted, _, fit⟩ := fits_sound protocol.shapes_fit
  exact buildPredLine_injective protocol.build_matches fit.toLayout (List.cons.inj same).1

end LtlFuzz.Adapter

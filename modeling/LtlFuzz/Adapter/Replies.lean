import LtlFuzz.Adapter.Ftp
import LtlFuzz.Adapter.Rtsp
import LtlFuzz.Adapter.SessionProtocols

/-! The filter of the monitor against the lines of genuine replies. For FTP and RTSP it
looks at keys the adapters print; for SIP it waits for one that no adapter prints. -/

namespace LtlFuzz.Adapter
open Monitor Preprocessor

inductive ReplyProtocol where
  | ftp
  | rtsp
  | sip
  deriving DecidableEq, Repr

namespace ReplyProtocol

def protoTag : ReplyProtocol → ProtoTag
  | .ftp => .ftp
  | .rtsp => .rtsp
  | .sip => .sip

/-- The status code an adapter reads from a reply. -/
def statusCode : ReplyProtocol → Packet → Int
  | .ftp, packet => Ftp.extractResponseCode packet.text
  | .rtsp, packet => (Rtsp.parseResponseStatus (Rtsp.extractLine Rtsp.lineRoom packet.text).1).toInt
  | .sip, packet => Sip.extractResponseCode packet.text

def isMalformed : ReplyProtocol → Packet → Bool
  | .ftp, packet => Ftp.isRespMalformed packet.text
  | .rtsp, packet => Rtsp.isMalformedResponse packet.text
  | .sip, packet => Sip.isMalformedResponse packet.text

structure Genuine (protocol : ReplyProtocol) (packet : Packet) : Prop where
  nonempty : packet.bytes ≠ []
  wellFormed : protocol.isMalformed packet = false
  lowest : 100 ≤ protocol.statusCode packet
  highest : protocol.statusCode packet ≤ 599

/-- A line some session of the adapter builds for this reply. -/
def Prints : ReplyProtocol → Packet → List Char → Prop
  | .ftp, packet, line => ∃ machine : Machine Ftp.Session, line = (machine.buildPredLine Ftp.adapter .s2c packet).1
  | .rtsp, packet, line => ∃ machine : Machine Rtsp.Session, line = (machine.buildPredLine Rtsp.adapter .s2c packet).1
  | .sip, packet, line => ∃ session fields next, Sip.build .s2c session packet = some (fields, next) ∧
      line = snprintf predLineSize (predicateText fields)

end ReplyProtocol

/-- What a reply's line lets the monitor read. -/
structure ReplyLine (line : List Char) (fields : List Field) (keys : List String) : Prop where
  event : Command.parse line = .ok (.event (parseKvLine line))
  derived : deriveIdMismatch (parseKvLine line) = .ok (parseKvLine line)
  own : ∀ field ∈ fields, (parseKvLine line).lookup field.1 = some field.2
  foreign : ∀ key ∉ keys, key ∉ metaKeys → (parseKvLine line).lookup key = none

theorem Layout.replyLine {shapes : List (String × Shape)} {fields trailing : List Field} (layout : Layout shapes)
    (matching : Matches shapes fields) (isTrace : IsTrace trailing) :
    ReplyLine (predicateText (fields ++ trailing)) fields (shapes.map Prod.fst) where
  event := layout.parse matching isTrace
  derived := layout.deriveIdMismatch_fields matching isTrace
  own _ member := layout.lookup_field matching isTrace member
  foreign _ other unmarked := layout.lookup_foreign matching isTrace other unmarked

theorem ReplyLine.answered {line : List Char} {fields : List Field} {keys : List String} (read : ReplyLine line fields keys)
    {statusKey status : String} (inTime : ("timeout", "false") ∈ fields) (member : (statusKey, status) ∈ fields)
    (set : status ≠ "scNotSet") :
    (parseKvLine line).lookup "timeout" = some "false" ∧ (parseKvLine line).lookup statusKey ≠ none ∧
      (parseKvLine line).lookup statusKey ≠ some "scNotSet" := by
  have found := read.own _ member
  refine ⟨read.own _ inTime, ?_, ?_⟩
  · rw [found]
    exact Option.some_ne_none _
  · rw [found]
    exact fun same => set (Option.some.inj same)

namespace Ftp

theorem status_set {code : Nat} (lowest : 100 ≤ code) (highest : code ≤ 599) :
    (mapStatusClass code).text ≠ "scNotSet" := by
  unfold mapStatusClass
  split_ifs
  · omega
  · decide
  · decide
  · decide
  · decide
  · decide
  · omega

theorem reply_valid {packet : Packet} (genuine : ReplyProtocol.ftp.Genuine packet) (machine : Machine Session) :
    ∃ fields keys, ReplyLine (machine.buildPredLine adapter .s2c packet).1 fields keys ∧
      isValidResponse .ftp (parseKvLine (machine.buildPredLine adapter .s2c packet).1) = true := by
  obtain ⟨checker, _, _, _, _, fit⟩ := fits_sound shapes_fit
  have matching := build_matches .s2c machine.session packet
  obtain ⟨trailing, isTrace, text⟩ := buildPredLine_text fit.toLayout machine matching
  have read := fit.replyLine matching isTrace
  rw [← text] at read
  have lowest : 100 ≤ extractResponseCode packet.text := Int.ofNat_le.mp genuine.lowest
  have highest : extractResponseCode packet.text ≤ 599 := Int.ofNat_le.mp genuine.highest
  have inTime : (packet.bytes.isEmpty || extractResponseCode packet.text == 0) = false := by
    simp [genuine.nonempty, show extractResponseCode packet.text ≠ 0 by omega]
  have timeout : (adapter.build .s2c machine.session packet).1[12]? = some ("timeout", "false") := by
    change some ("timeout", boolToString (packet.bytes.isEmpty || extractResponseCode packet.text == 0)) = _
    rw [inTime]
    rfl
  have status : (adapter.build .s2c machine.session packet).1[1]? =
    some ("ftp_status_class", (mapStatusClass (extractResponseCode packet.text)).text) := rfl
  have answered := read.answered (List.mem_of_getElem? timeout) (List.mem_of_getElem? status) (status_set lowest highest)
  exact ⟨_, _, read, by simp [isValidResponse, answered]⟩

end Ftp

namespace Rtsp

theorem status_set {code : Int32} (lowest : 100 ≤ code.toInt) (highest : code.toInt ≤ 599) :
    (getStatusClass code).text ≠ "scNotSet" := by
  have order (bound : Int32) : bound ≤ code ↔ bound.toInt ≤ code.toInt := Int32.le_iff_toInt_le
  have below (bound : Int32) : code < bound ↔ code.toInt < bound.toInt := Int32.lt_iff_toInt_lt
  have numbers : (100 : Int32).toInt = 100 ∧ (200 : Int32).toInt = 200 ∧ (300 : Int32).toInt = 300 ∧
      (400 : Int32).toInt = 400 ∧ (500 : Int32).toInt = 500 ∧ (600 : Int32).toInt = 600 := by decide
  unfold getStatusClass
  simp only [order, below, numbers]
  split_ifs
  next zero =>
    rw [zero] at lowest
    exact absurd lowest (by decide)
  · decide
  · decide
  · decide
  · decide
  · decide
  · omega

theorem reply_valid {packet : Packet} (genuine : ReplyProtocol.rtsp.Genuine packet) (machine : Machine Session) :
    ∃ fields keys, ReplyLine (machine.buildPredLine adapter .s2c packet).1 fields keys ∧
      isValidResponse .rtsp (parseKvLine (machine.buildPredLine adapter .s2c packet).1) = true := by
  obtain ⟨checker, _, _, _, _, fit⟩ := fits_sound shapes_fit
  have matching := build_matches .s2c machine.session packet
  obtain ⟨trailing, isTrace, text⟩ := buildPredLine_text fit.toLayout machine matching
  have read := fit.replyLine matching isTrace
  rw [← text] at read
  have wellFormed : isMalformedResponse packet.text = false := genuine.wellFormed
  have timeout : (adapter.build .s2c machine.session packet).1[26]? = some ("timeout", "false") := by
    change some ("timeout", boolToString packet.bytes.isEmpty) = _
    rw [List.isEmpty_eq_false_iff.mpr genuine.nonempty]
    rfl
  have status : (adapter.build .s2c machine.session packet).1[1]? = some ("status_class",
      (getStatusClass (parseResponseStatus (extractLine lineRoom packet.text).1)).text) := by
    change some ("status_class", (getStatusClass (if isMalformedResponse packet.text then ((0, {}) : Int32 × Headers) else
      (parseResponseStatus (parseMessage packet.text).1, (parseMessage packet.text).2)).1).text) = _
    rw [wellFormed]
    rfl
  have answered := read.answered (List.mem_of_getElem? timeout) (List.mem_of_getElem? status)
    (status_set genuine.lowest genuine.highest)
  exact ⟨_, _, read, by simp [isValidResponse, answered]⟩

end Rtsp

namespace Sip

theorem reply_silent {session next : Session} {packet : Packet} {fields : List Field}
    (built : build .s2c session packet = some (fields, next)) :
    ∃ keys, ReplyLine (snprintf predLineSize (predicateText fields)) fields keys ∧
      isValidResponse .sip (parseKvLine (snprintf predLineSize (predicateText fields))) = false := by
  obtain ⟨_, _, matching⟩ := buildResponsePredLine_some built
  have named : lastMethodText session ∈ "" :: methodTexts := by
    unfold lastMethodText
    cases session.lastMethod with
    | none => exact List.mem_cons_self
    | some method => exact List.mem_cons_of_mem _ (methodText_listed method)
  have fields_match := matching _ named
  have read := shapes_layout.replyLine fields_match (Or.inl rfl)
  rw [← printed_text shapes_layout fields_match] at read
  have untyped := read.foreign "sip_msg_type" (by decide) (by decide)
  exact ⟨_, read, by simp [isValidResponse, untyped]⟩

end Sip

/-- A violation on a genuine reply is reported for every protocol but SIP, and for SIP never. -/
theorem reply_violation_reported_iff (protocol : ReplyProtocol) (packet : Packet) (genuine : protocol.Genuine packet)
    (line : List Char) (printed : protocol.Prints packet line) (process : Process)
    (tagged : process.protoTag = protocol.protoTag) (violates : process.Violates line) :
    process.Reports line ↔ protocol ≠ .sip := by
  cases protocol with
  | ftp =>
    obtain ⟨machine, rfl⟩ := printed
    obtain ⟨_, _, read, valid⟩ := Ftp.reply_valid genuine machine
    rw [process.reports_iff violates read.event read.derived, tagged]
    exact ⟨fun _ => by decide, fun _ => valid⟩
  | rtsp =>
    obtain ⟨machine, rfl⟩ := printed
    obtain ⟨_, _, read, valid⟩ := Rtsp.reply_valid genuine machine
    rw [process.reports_iff violates read.event read.derived, tagged]
    exact ⟨fun _ => by decide, fun _ => valid⟩
  | sip =>
    obtain ⟨session, fields, next, built, rfl⟩ := printed
    obtain ⟨_, read, silent⟩ := Sip.reply_silent built
    rw [process.reports_iff violates read.event read.derived, tagged]
    change isValidResponse .sip _ = true ↔ _
    simp [silent]

/-- `227 x`, sent by a server that was not asked for it. -/
def unaskedReply : Packet := ⟨[50, 50, 55, 32, 120, 13, 10], []⟩

def unaskedLine : List Char := ((Machine.start Ftp.adapter).buildPredLine Ftp.adapter .s2c unaskedReply).1

theorem unaskedReply_violates {checker : TypeChecker} {nodes : List (ASTNode Nat)} {snums : List Nat}
    (fit : Fits Ftp.shapes Ftp.tree checker) (compiled : TypeChecker.new Ftp.tree.spec = .ok checker)
    (numbered : doPreProcess Ftp.tree.spec.2 = some (nodes, snums)) :
    (Process.new checker .ftp nodes snums).Violates unaskedLine := by
  have matching := Ftp.build_matches .s2c (Machine.start Ftp.adapter).session unaskedReply
  obtain ⟨trailing, isTrace, text⟩ := buildPredLine_text fit.toLayout (Machine.start Ftp.adapter) matching
  have passive : "cmdPASV" ∈ checker.constantList := by
    have checked : (TypeChecker.new Ftp.tree.spec).toOption.any
        (fun checker => decide ("cmdPASV" ∈ checker.constantList)) = true := by decide +kernel
    rw [compiled] at checked
    exact of_decide_eq_true checked
  rw [unaskedLine, text]
  apply fit.first_violation compiled numbered matching isTrace (List.mem_of_getElem? (i := 4) rfl)
  intro state own constants oldBv
  have label {k : Nat} {field : Field}
      (printed : (Ftp.adapter.build .s2c (Machine.start Ftp.adapter).session unaskedReply).1[k]? = some field) :
      state.labelingFunction.lookup field.1 = some field.2 := own field (List.mem_of_getElem? printed)
  have flag {k : Nat} {flag : Grammar.Identifier}
      (printed : (Ftp.adapter.build .s2c (Machine.start Ftp.adapter).session unaskedReply).1[k]? =
        some (flag.name, boolToString false)) : (Ftp.isFalse flag).Has 0 oldBv state (!false) := by
    have labelled : state.labelingFunction.lookup flag.name = some (boolToString false) := label printed
    exact .predicates (evaluatePredicate_isFalse labelled)
  have code : state.labelingFunction.lookup Ftp.respCode.name = some (toString (227 : Int)) := label (k := 2) rfl
  have answered : (Grammar.Formula.predicates ⟨Ftp.respCode, .eq, .int 227⟩).Has 0 oldBv state (decide ((227 : Int) = 227)) :=
    .predicates (evaluatePredicate_equals code 227)
  have command : state.labelingFunction.lookup Ftp.ftpCommand.name = some "cmdNotSet" := label (k := 0) rfl
  have unasked : (Ftp.isCommand "cmdPASV" (by decide)).Has 0 oldBv state ("cmdNotSet" == "cmdPASV") :=
    .predicates (evaluatePredicate_is command (constants _ passive))
  have inTime : (Ftp.isFalse Ftp.timeout).Has 0 oldBv state true := flag (k := 12) rfl
  have wellFormed : (Ftp.isFalse Ftp.respMalformed).Has 0 oldBv state true := flag (k := 8) rfl
  have connected : (Ftp.isFalse Ftp.connectionClosed).Has 0 oldBv state true := flag (k := 13) rfl
  have active : (Ftp.isFalse Ftp.quitSent).Has 0 oldBv state true := flag (k := 31) rfl
  apply Grammar.Formula.Has.not_historically
  exact ((((inTime.and wellFormed).and connected).and active).and answered).arrow unasked

theorem unaskedReply_reported :
    ∃ checker nodes snums, TypeChecker.new Ftp.tree.spec = .ok checker ∧
      doPreProcess Ftp.tree.spec.2 = some (nodes, snums) ∧ ReplyProtocol.ftp.Genuine unaskedReply ∧
      (Process.new checker .ftp nodes snums).Violates unaskedLine ∧
      ((Process.new checker .ftp nodes snums).Reports unaskedLine ↔ ReplyProtocol.ftp ≠ .sip) := by
  obtain ⟨checker, nodes, snums, compiled, numbered, fit⟩ := fits_sound Ftp.shapes_fit
  have genuine : ReplyProtocol.ftp.Genuine unaskedReply := ⟨by decide, by decide, by decide, by decide⟩
  have violates := unaskedReply_violates fit compiled numbered
  refine ⟨checker, nodes, snums, compiled, numbered, genuine, violates, ?_⟩
  exact reply_violation_reported_iff .ftp unaskedReply genuine unaskedLine ⟨_, rfl⟩ _ rfl violates

/-- A specification that asks for provisional replies sees none in `200 OK`, but nothing is
reported. -/
theorem bareReply_unreported :
    ∃ checker nodes snums, TypeChecker.new Sip.tree.spec = .ok checker ∧
      doPreProcess Sip.tree.spec.2 = some (nodes, snums) ∧ ReplyProtocol.sip.Genuine bareReply ∧
      ∃ line, ReplyProtocol.sip.Prints bareReply line ∧ (Process.new checker .sip nodes snums).Violates line ∧
        ¬(Process.new checker .sip nodes snums).Reports line := by
  obtain ⟨checker, nodes, snums, compiled, numbered, fit⟩ := fills_sound Sip.shapes_fill
  have noTo : Sip.findHeader bareReply "To" = some none := by
    unfold Sip.findHeader Sip.findHeaderFrom
    decide
  have noLength : Sip.findHeader bareReply "Content-Length" = some none := by
    unfold Sip.findHeader Sip.findHeaderFrom
    decide
  obtain ⟨fields, next, built, status, sent⟩ : ∃ fields next, Sip.build .s2c Sip.resetSession bareReply = some (fields, next) ∧
      fields[1]? = some ("sip_status_class", "scSuccess") ∧ fields[29]? = some ("provisional_sent", boolToString false) := by
    simp only [Sip.build, Sip.buildResponsePredLine, noTo, noLength, bind, Option.bind_some]
    exact ⟨_, _, rfl, rfl, rfl⟩
  obtain ⟨matching, _⟩ := Sip.build_matches (fun _ => rfl) built
  have constant : "scProvisional" ∈ checker.constantList := by
    have checked : (TypeChecker.new Sip.tree.spec).toOption.any
        (fun checker => decide ("scProvisional" ∈ checker.constantList)) = true := by decide +kernel
    rw [compiled] at checked
    exact of_decide_eq_true checked
  have genuine : ReplyProtocol.sip.Genuine bareReply := ⟨by decide, by decide, by decide, by decide⟩
  have violates : (Process.new checker .sip nodes snums).Violates (snprintf predLineSize (predicateText fields)) := by
    rw [Sip.printed_text fit.toLayout matching]
    apply fit.first_violation compiled numbered matching (Or.inl rfl) (List.mem_of_getElem? (i := 43) rfl)
    intro state own constants oldBv
    have success : state.labelingFunction.lookup Sip.sipStatusClass.name = some "scSuccess" :=
      own _ (List.mem_of_getElem? status)
    have unsent : state.labelingFunction.lookup Sip.provisionalSent.name = some (boolToString false) :=
      own _ (List.mem_of_getElem? sent)
    have provisional : (Sip.sipStatusClass.is Sip.scProvisional).Has 0 oldBv state ("scSuccess" == "scProvisional") :=
      .predicates (evaluatePredicate_is success (constants _ constant))
    have announced : Sip.provisionalSent.isTrue.Has 0 oldBv state false :=
      .predicates (evaluatePredicate_isTrue unsent)
    exact (provisional.and announced).not_historically
  refine ⟨checker, nodes, snums, compiled, numbered, genuine, _, ⟨_, fields, next, built, rfl⟩, violates, ?_⟩
  obtain ⟨_, read, silent⟩ := Sip.reply_silent built
  rw [Process.reports_iff violates read.event read.derived]
  exact Bool.eq_false_iff.mp silent

end LtlFuzz.Adapter

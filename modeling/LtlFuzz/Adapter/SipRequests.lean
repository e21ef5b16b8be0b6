import LtlFuzz.Adapter.SipHeaders

/-! What a SIP request says of its own headers, next to what the adapter prints and keeps of
them. All values are copied to one place, and each copy is used after the next is made. -/

namespace LtlFuzz.Adapter.Sip
open Buffer Monitor

section Memory

/-- The headers end with an empty line. -/
def WellTerminated (text : List Char) : Prop :=
  ∃ start ∈ lineStarts (afterLine text), start.head?.any isLineEnd = true

instance (text : List Char) : Decidable (WellTerminated text) :=
  inferInstanceAs (Decidable (∃ start ∈ lineStarts (afterLine text), start.head?.any isLineEnd = true))

theorem terminated_of_afterLine {p : List Char} (clean : '\x00' ∉ p) (more : afterLine p ≠ []) : ∃ ending,
    (∀ c ∈ ofLine p, isPlain c = true) ∧ Terminated ending (afterLine p) ∧ p = ofLine p ++ (ending ++ afterLine p) := by
  obtain ⟨line, rest, plain, lineEnd, rfl⟩ := exists_lineEnd p
  have inside : ∀ c ∈ line, (!isLineEnd c) = true := fun c member => by
    rw [((isPlain_iff c).mp (plain c member)).2]
    rfl
  cases lineEnd with
  | missing =>
    refine absurd ?_ more
    rw [afterLine, List.dropWhile_append_of_pos inside]
    rfl
  | cut =>
    refine absurd ?_ more
    rw [afterLine, List.dropWhile_append_of_pos inside]
    rfl
  | zero rest => exact absurd (List.mem_append_right _ List.mem_cons_self) clean
  | @terminated ending rest terminated =>
    rw [ofLine_terminated plain terminated, afterLine_terminated plain terminated]
    exact ⟨ending, plain, terminated, rfl⟩

theorem skipOne_suffix (c : Char) (p : List Char) : skipOne c p <:+ p := by
  unfold skipOne
  split
  · exact List.tail_suffix p
  · exact List.suffix_rfl

theorem afterLine_suffix (p : List Char) : afterLine p <:+ p :=
  (skipOne_suffix '\n' _).trans ((skipOne_suffix '\r' _).trans (List.dropWhile_suffix _))

theorem lineStarts_suffix {p start : List Char} (member : start ∈ lineStarts p) : start <:+ p := by
  induction p using lineStarts.induct with
  | case1 =>
    rw [lineStarts, if_pos rfl] at member
    cases member
  | case2 p nonempty ih =>
    rw [lineStarts, if_neg nonempty] at member
    obtain rfl | member := List.mem_cons.mp member
    · exact List.suffix_rfl
    · exact (ih member).trans (afterLine_suffix p)

theorem not_mem_afterLine {c : Char} {p : List Char} (clean : c ∉ p) : c ∉ afterLine p :=
  fun member => clean ((afterLine_suffix p).subset member)

theorem scans_of_clean (name : HeaderName) {p : List Char} (clean : '\x00' ∉ p)
    (ended : ∃ start ∈ lineStarts p, start.head?.any isLineEnd = true) : Scans (fun _ => True) name p := by
  induction p using lineStarts.induct with
  | case1 => exact .done
  | case2 p nonempty ih =>
    obtain ⟨c, rest, same⟩ := List.exists_cons_of_ne_nil nonempty
    by_cases first : isLineEnd c = true
    · rw [same]
      exact .empty first rest
    have later : ∃ start ∈ lineStarts (afterLine p), start.head?.any isLineEnd = true := by
      obtain ⟨start, member, empty⟩ := ended
      rw [lineStarts, if_neg nonempty] at member
      obtain rfl | member := List.mem_cons.mp member
      · rw [same] at empty
        exact absurd empty (by simpa using first)
      · exact ⟨start, member, empty⟩
    have more : afterLine p ≠ [] := by
      intro none
      obtain ⟨start, member, _⟩ := later
      rw [none, lineStarts, if_pos rfl] at member
      cases member
    by_cases named : Names name p
    · exact .found named trivial
    obtain ⟨ending, plain, terminated, split⟩ := terminated_of_afterLine clean more
    have filled : ofLine p ≠ [] := by
      rw [same, ofLine, List.takeWhile_cons, if_pos (by simpa using first)]
      exact List.cons_ne_nil _ _
    rw [split] at named ⊢
    exact .next filled plain ((names_of_terminated name plain terminated).not.mp named) terminated
      (ih (not_mem_afterLine clean) later)

theorem copyValue_append (p beyond : List Char) : copyValue beyond.length (p ++ beyond) = copied p := by
  unfold copyValue copied ofLine
  dsimp only
  cases left : p.dropWhile Text.isSpace with
  | nil =>
    have blank := List.dropWhile_eq_nil_iff.mp left
    have short := List.length_dropWhile_le Text.isSpace beyond
    rw [List.dropWhile_append_of_pos blank, Nat.sub_eq_zero_of_le short]
    rfl
  | cons c q =>
    rw [List.dropWhile_append, left, List.isEmpty_cons, if_neg Bool.false_ne_true, List.length_append, Nat.add_sub_cancel,
      List.take_left]

theorem skipLine_terminated {line ending rest : List Char} (plain : ∀ c ∈ line, isPlain c = true)
    (terminated : Terminated ending rest) : skipLine (line ++ (ending ++ rest)) = rest := by
  have stopped : (line ++ (ending ++ rest)).dropWhile isPlain = (ending ++ rest).dropWhile isPlain :=
    List.dropWhile_append_of_pos plain
  unfold skipLine
  erw [stopped]
  cases terminated with
  | feed => rfl
  | both => rfl
  | carriage other rest => simp [isPlain, isLineEnd, skipOne, other]

/-- What lies behind the message makes no difference where its lines can be passed. -/
theorem findHeaderFrom_of_scans {readable : List Char → Prop} {name : HeaderName} {p : List Char}
    (scans : Scans readable name p) (beyond : List Char) :
    findHeaderFrom (String.ofList name.text) beyond.length (p ++ beyond) = some ((behindColon name p).map copied) := by
  induction scans with
  | done =>
    rw [findHeaderFrom, List.nil_append, if_pos (Nat.le_refl _), behindColon, headerStarts_nil]
    rfl
  | @empty c ended rest =>
    rw [findHeaderFrom, if_neg (by rw [List.length_append]; simp), if_pos (by simpa using ended), behindColon_empty name ended]
    rfl
  | @found p named read =>
    obtain ⟨same, colon⟩ := names_append name named beyond
    have bound := (List.getElem?_eq_some_iff.mp named.2).1
    have inside : ¬(p ++ beyond).head?.any isLineEnd = true := by
      obtain ⟨c, rest, rfl, inside⟩ := head_of_ofLine (ofLine_ne_nil name named)
      simpa using inside
    rw [findHeaderFrom, String.toList_ofList, if_neg (by rw [List.length_append]; omega), if_neg inside, same, colon,
      List.drop_append_of_le_length bound, copyValue_append, behindColon_found name named]
    rfl
  | @next line ending rest nonempty plain other terminated scans ih =>
    have further := terminated.append beyond
    have unnamed := (names_of_terminated name plain further).not.mpr other
    have inside : ¬(line ++ (ending ++ (rest ++ beyond))).head?.any isLineEnd = true := by
      obtain ⟨c, line, rfl⟩ := List.exists_cons_of_ne_nil nonempty
      simpa using ((isPlain_iff c).mp (plain c List.mem_cons_self)).2
    have shorter : (rest ++ beyond).length < (line ++ (ending ++ (rest ++ beyond))).length := by
      have filled := List.length_pos_of_ne_nil nonempty
      simp only [List.length_append]
      omega
    rw [List.append_assoc, List.append_assoc, findHeaderFrom, String.toList_ofList, if_neg _, if_neg inside, if_neg _,
      skipLine_terminated plain further, if_pos shorter, ih, behindColon_other name nonempty plain other terminated]
    · simpa [Names] using unnamed
    · simp only [List.length_append] at shorter ⊢
      omega

theorem findHeader_of_clean {packet : Packet} (clean : '\x00' ∉ packet.text) (ended : WellTerminated packet.text)
    (name : HeaderName) :
    findHeader packet (String.ofList name.text) = some ((behindColon name (afterLine packet.text)).map copied) := by
  have more : afterLine packet.text ≠ [] := by
    intro none
    obtain ⟨start, member, _⟩ := ended
    rw [none, lineStarts, if_pos rfl] at member
    cases member
  obtain ⟨ending, plain, terminated, split⟩ := terminated_of_afterLine clean more
  have scans := scans_of_clean name (not_mem_afterLine clean) ended
  have length : packet.beyond.length = (packet.beyond.map charOfByte).length := (List.length_map charOfByte).symm
  have skipped : skipLine (packet.text ++ packet.beyond.map charOfByte) =
      afterLine packet.text ++ packet.beyond.map charOfByte := by
    conv_lhs => rw [split]
    rw [List.append_assoc, List.append_assoc, skipLine_terminated plain (terminated.append _)]
  rw [findHeader, skipped, length, findHeaderFrom_of_scans scans]

end Memory

section Fields

def isBlank (c : Char) : Bool := c == ' ' || c == '\t'

/-- The text behind a colon, and the lines that go on with it. -/
def unfolded (p : List Char) : List Char :=
  if p = [] then []
  else if (afterLine p).head?.any isBlank then ofLine p ++ ' ' :: (unfolded (afterLine p)).dropWhile isBlank
  else ofLine p
termination_by p.length
decreasing_by exact afterLine_length (by assumption)

/-- The value of the first header with a name. -/
def headerValue (name : HeaderName) (text : List Char) : Option (List Char) :=
  (behindColon name (afterLine text)).map fun p => (unfolded p).dropWhile isBlank

def leadingInteger (value : List Char) : Int := ((Text.scanNumber value).map Text.signed).getD 0

def cseqHeader : HeaderName := ⟨"CSeq".toList, List.all_eq_true.mp rfl⟩

def callIdHeader : HeaderName := ⟨"Call-ID".toList, List.all_eq_true.mp rfl⟩

def contactHeader : HeaderName := ⟨"Contact".toList, List.all_eq_true.mp rfl⟩

/-- The number printed for a request and the Call-ID kept of it are those of their headers. -/
structure OwnFields (text : List Char) (fields : List Field) (session : Session) : Prop where
  cseqNumber : fields.lookup "cseq_number" = some (toString (((headerValue cseqHeader text).map leadingInteger).getD 0))
  callId : ∀ value, headerValue callIdHeader text = some value → session.callId = value.take 127

/-- The last of some headers that a request has, as far as one line and 255 characters go. -/
def lastOf (names : List HeaderName) (text : List Char) : Option (List Char) :=
  (names.filterMap fun name => behindColon name (afterLine text)).getLast?.map copied

/-- The headers that are looked up after one of the two, and that the request has, begin alike. -/
structure Undisturbed (text : List Char) : Prop where
  cseqNumber : ∀ own, headerValue cseqHeader text = some own →
    ∃ last, lastOf [cseqHeader, callIdHeader, contactHeader] text = some last ∧ (atoiHeader last).toInt = leadingInteger own
  callId : ∀ own, headerValue callIdHeader text = some own →
    ∃ last, lastOf [callIdHeader, contactHeader] text = some last ∧ last.take 127 = own.take 127

theorem lastOf_two (first second : HeaderName) (text : List Char) : lastOf [first, second] text =
    ((behindColon second (afterLine text)).map copied).or ((behindColon first (afterLine text)).map copied) := by
  unfold lastOf
  cases one : behindColon first (afterLine text) <;> cases two : behindColon second (afterLine text) <;>
    simp [one, two]

theorem lastOf_three (first second third : HeaderName) (text : List Char) : lastOf [first, second, third] text =
    ((behindColon third (afterLine text)).map copied).or (lastOf [first, second] text) := by
  unfold lastOf
  cases one : behindColon first (afterLine text) <;> cases two : behindColon second (afterLine text) <;>
    cases three : behindColon third (afterLine text) <;> simp [one, two, three]

theorem cString_copied {text : List Char} (clean : '\x00' ∉ text) {name : HeaderName} {p : List Char}
    (found : behindColon name (afterLine text) = some p) : cString (copied p) = copied p := by
  obtain ⟨start, first, rfl⟩ := Option.map_eq_some_iff.mp found
  have member := (List.takeWhile_sublist _).subset (List.mem_of_find?_eq_some first)
  have inside : copied (start.drop (name.text.length + 1)) ⊆ text := by
    refine List.Subset.trans (List.take_subset _ _) (List.Subset.trans (List.takeWhile_sublist _).subset ?_)
    refine List.Subset.trans (List.dropWhile_suffix _).subset (List.Subset.trans (List.drop_subset _ _) ?_)
    exact ((lineStarts_suffix member).trans (afterLine_suffix text)).subset
  apply List.takeWhile_eq_self_iff.mpr
  intro c belongs
  exact bne_iff_ne.mpr fun zero => clean (zero ▸ inside belongs)

theorem predicates_cseqNumber (message : Message) (session : Session) :
    (message.predicates session).lookup "cseq_number" = some (toString message.cseqNumber.toInt) := rfl

@[simp] theorem afterRequest_callId (session : Session) (method : Method) (hasAuth : Bool) :
    (session.afterRequest method hasAuth).callId = session.callId := by
  cases method <;> rfl

/-- The place that the headers are copied to is read for the number and for the Call-ID. -/
theorem buildRequestPredLine_fields {packet : Packet} {via cseq callId contact : Option (List Char)}
    (viaFound : findHeader packet "Via" = some via) (cseqFound : findHeader packet "CSeq" = some cseq)
    (callIdFound : findHeader packet "Call-ID" = some callId) (contactFound : findHeader packet "Contact" = some contact)
    (others : ∀ name ∈ ["From", "To", "Expires", "Max-Forwards", "Content-Length"], ∃ value, findHeader packet name = some value)
    {hasAuth : Bool} (authorized : findAuthorization packet = some hasAuth) (session : Session) :
    ∃ fields next, buildRequestPredLine session packet = some (fields, next) ∧
      fields.lookup "cseq_number" = some (toString
        (if cseq.isSome then atoiHeader ((contact.or (callId.or (cseq.or via))).getD []) else 0).toInt) ∧
      (callId.isSome = true → next.callId = (cString ((contact.or (callId.or (cseq.or via))).getD [])).take 127) := by
  obtain ⟨fromTag, fromFound⟩ := others "From" (by decide)
  obtain ⟨toTag, toFound⟩ := others "To" (by decide)
  obtain ⟨expires, expiresFound⟩ := others "Expires" (by decide)
  obtain ⟨maxForwards, maxForwardsFound⟩ := others "Max-Forwards" (by decide)
  obtain ⟨contentLength, contentLengthFound⟩ := others "Content-Length" (by decide)
  simp only [buildRequestPredLine, viaFound, cseqFound, callIdFound, contactFound, fromFound, toFound, expiresFound,
    maxForwardsFound, contentLengthFound, authorized, bind, Option.bind_some]
  refine ⟨_, _, rfl, predicates_cseqNumber _ _, fun present => ?_⟩
  rw [afterRequest_callId, if_pos present]

theorem findHeader_plain {packet : Packet} (clean : '\x00' ∉ packet.text) (ended : WellTerminated packet.text) (name : String)
    (plain : name.toList.all isPlain = true) : findHeader packet name =
      some ((behindColon ⟨name.toList, List.all_eq_true.mp plain⟩ (afterLine packet.text)).map copied) := by
  rw [← findHeader_of_clean clean ended, String.ofList_toList]

theorem findAuthorization_of_clean {packet : Packet} (clean : '\x00' ∉ packet.text) (ended : WellTerminated packet.text) :
    ∃ hasAuth, findAuthorization packet = some hasAuth := by
  rw [findAuthorization, findHeader_plain clean ended "Authorization" rfl,
    findHeader_plain clean ended "Proxy-Authorization" rfl]
  simp only [bind, Option.bind_some]
  split <;> exact ⟨_, rfl⟩

/-- A request is printed and kept as the last of its headers say. -/
theorem buildRequestPredLine_of_clean {packet : Packet} (clean : '\x00' ∉ packet.text)
    (ended : WellTerminated packet.text) (session : Session) : ∃ fields next,
    buildRequestPredLine session packet = some (fields, next) ∧
      fields.lookup "cseq_number" = some (toString (if (behindColon cseqHeader (afterLine packet.text)).isSome then
        (atoiHeader ((lastOf [cseqHeader, callIdHeader, contactHeader] packet.text).getD [])).toInt else 0)) ∧
      ((behindColon callIdHeader (afterLine packet.text)).isSome = true →
        next.callId = ((lastOf [callIdHeader, contactHeader] packet.text).getD []).take 127) := by
  have others : ∀ name ∈ ["From", "To", "Expires", "Max-Forwards", "Content-Length"],
      ∃ value, findHeader packet name = some value := by
    intro name member
    have plain : ∀ name ∈ ["From", "To", "Expires", "Max-Forwards", "Content-Length"],
      name.toList.all isPlain = true := by decide
    exact ⟨_, findHeader_plain clean ended name (plain name member)⟩
  obtain ⟨hasAuth, authorized⟩ := findAuthorization_of_clean clean ended
  have via := findHeader_plain clean ended "Via" rfl
  have cseq : findHeader packet "CSeq" = some ((behindColon cseqHeader (afterLine packet.text)).map copied) :=
    findHeader_plain clean ended "CSeq" rfl
  have callId : findHeader packet "Call-ID" = some ((behindColon callIdHeader (afterLine packet.text)).map copied) :=
    findHeader_plain clean ended "Call-ID" rfl
  have contact : findHeader packet "Contact" = some ((behindColon contactHeader (afterLine packet.text)).map copied) :=
    findHeader_plain clean ended "Contact" rfl
  obtain ⟨fields, next, built, number, kept⟩ := buildRequestPredLine_fields via cseq callId contact others authorized session
  refine ⟨fields, next, built, ?_, fun present => ?_⟩
  · rw [number, lastOf_three, lastOf_two]
    cases behindColon cseqHeader (afterLine packet.text) with
    | none => rfl
    | some p => simp only [Option.map_some, Option.isSome_some, if_true, Option.some_or]
  · obtain ⟨p, own⟩ := Option.isSome_iff_exists.mp present
    rw [kept (by rw [Option.isSome_map]; exact present), lastOf_two, own]
    cases other : behindColon contactHeader (afterLine packet.text) with
    | none =>
      rw [Option.map_none, Option.none_or, Option.map_some, Option.some_or, Option.getD_some, cString_copied clean own]
      rfl
    | some q =>
      rw [Option.map_some, Option.some_or, Option.getD_some, cString_copied clean other]
      rfl

/-- The number and the Call-ID of a request are its own exactly when the headers that are
looked up after them begin as they do. -/
theorem ownFields_iff {packet : Packet} (clean : '\x00' ∉ packet.text) (ended : WellTerminated packet.text)
    (session : Session) : (∃ fields next, buildRequestPredLine session packet = some (fields, next) ∧
      OwnFields packet.text fields next) ↔ Undisturbed packet.text := by
  obtain ⟨fields, next, built, number, kept⟩ := buildRequestPredLine_of_clean clean ended session
  have last (names : List HeaderName) {name : HeaderName} (member : name ∈ names) {own : List Char}
      (present : headerValue name packet.text = some own) : ∃ value, lastOf names packet.text = some value := by
    obtain ⟨p, found, _⟩ := Option.map_eq_some_iff.mp present
    have listed : p ∈ names.filterMap fun name => behindColon name (afterLine packet.text) :=
      List.mem_filterMap.mpr ⟨name, member, found⟩
    have some_ := List.getLast?_isSome.mpr (List.ne_nil_of_mem listed)
    exact Option.isSome_iff_exists.mp (by rw [lastOf, Option.isSome_map]; exact some_)
  have present {name : HeaderName} {own : List Char} (own_ : headerValue name packet.text = some own) :
      (behindColon name (afterLine packet.text)).isSome = true := by
    obtain ⟨p, found, _⟩ := Option.map_eq_some_iff.mp own_
    rw [found]
    rfl
  constructor
  · rintro ⟨_, _, same, own⟩
    rw [built] at same
    cases same
    refine ⟨fun value valued => ?_, fun value valued => ?_⟩
    · obtain ⟨copy, read⟩ := last [cseqHeader, callIdHeader, contactHeader] (by simp) valued
      have printed := own.cseqNumber
      rw [number, if_pos (present valued), read, valued] at printed
      exact ⟨copy, read, Text.toString_int_injective (Option.some.inj printed)⟩
    · obtain ⟨copy, read⟩ := last [callIdHeader, contactHeader] (by simp) valued
      have stored := kept (present valued)
      rw [own.callId value valued, read] at stored
      exact ⟨copy, read, stored.symm⟩
  · intro undisturbed
    refine ⟨fields, next, built, ?_, fun value valued => ?_⟩
    · rw [number]
      cases valued : headerValue cseqHeader packet.text with
      | none =>
        have missing : behindColon cseqHeader (afterLine packet.text) = none := Option.map_eq_none_iff.mp valued
        rw [missing]
        rfl
      | some value =>
        obtain ⟨copy, read, same⟩ := undisturbed.cseqNumber value valued
        rw [if_pos (present valued), read, Option.getD_some, same]
        rfl
    · obtain ⟨copy, read, same⟩ := undisturbed.callId value valued
      rw [kept (present valued), read, Option.getD_some, same]

/-- `BYE a SIP/2.0` with `CSeq: 7` and `Call-ID: b`. -/
def numberedRequest : Packet := { bytes := [66, 89, 69, 32, 97, 32, 83, 73, 80, 47, 50, 46, 48, 13, 10, 67, 83, 101, 113, 58, 32, 55, 13, 10, 67, 97, 108,
    108, 45, 73, 68, 58, 32, 98, 13, 10, 13, 10] }

/-- The number is read from the Call-ID. -/
theorem numberedRequest_misread : ('\x00' ∉ numberedRequest.text ∧ WellTerminated numberedRequest.text) ∧ ¬∃ fields next,
    buildRequestPredLine resetSession numberedRequest = some (fields, next) ∧ OwnFields numberedRequest.text fields next := by
  refine ⟨by decide +kernel, ?_⟩
  rintro ⟨fields, next, built, own⟩
  have printed : (buildRequestPredLine resetSession numberedRequest).bind (·.1.lookup "cseq_number") = some "0" := by
    decide +kernel
  have numbered : ((headerValue cseqHeader numberedRequest.text).map leadingInteger).getD 0 = 7 := by decide +kernel
  rw [built, Option.bind_some, own.cseqNumber, numbered] at printed
  exact absurd printed (by decide)

/-- `BYE a SIP/2.0` with `CSeq: 7`, and no Call-ID. -/
def anonymousRequest : Packet := { bytes := [66, 89, 69, 32, 97, 32, 83, 73, 80, 47, 50, 46, 48, 13, 10, 67, 83, 101, 113, 58, 32, 55, 13, 10, 13, 10] }

theorem anonymousRequest_read : ('\x00' ∉ anonymousRequest.text ∧ WellTerminated anonymousRequest.text) ∧
    ((∃ fields next, buildRequestPredLine resetSession anonymousRequest = some (fields, next) ∧
      OwnFields anonymousRequest.text fields next) ↔ Undisturbed anonymousRequest.text) :=
  have clean : '\x00' ∉ anonymousRequest.text ∧ WellTerminated anonymousRequest.text := by decide +kernel
  ⟨clean, ownFields_iff clean.1 clean.2 resetSession⟩

end Fields

end LtlFuzz.Adapter.Sip

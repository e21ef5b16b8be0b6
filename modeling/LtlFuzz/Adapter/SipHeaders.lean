import LtlFuzz.Adapter.Sip
import LtlFuzz.Text.Letters

/-! `find_header` on a buffer with nothing known to follow it. A pointer is the rest of the
buffer it points to, and reading through one that is at the end is a fault; the loop is given
fuel, as nothing else bounds it. -/

namespace LtlFuzz.Adapter.Sip.Buffer
open Text (isSpace equalIgnoringCase toLower_toNat char_ext)

inductive Fault where
  | outOfBounds
  | diverges
  deriving DecidableEq, Repr

def isPlain (c : Char) : Bool := c != '\x00' && !isLineEnd c

/-- The name of a header, as a C string that stands in one line. -/
structure HeaderName where
  text : List Char
  plain : ∀ c ∈ text, isPlain c = true

section Search

def deref : List Char → Except Fault Char
  | [] => .error .outOfBounds
  | c :: _ => .ok c

def skipWs : List Char → Except Fault (List Char)
  | [] => .error .outOfBounds
  | c :: rest => if isSpace c then skipWs rest else .ok (c :: rest)

/-- The loop of `skip_line`. -/
def skipText : List Char → Except Fault (List Char)
  | [] => .error .outOfBounds
  | c :: rest => if isPlain c then skipText rest else .ok (c :: rest)

def skipChar (c : Char) (p : List Char) : Except Fault (List Char) := do
  if (← deref p) = c then .ok p.tail else .ok p

def skipLine (p : List Char) : Except Fault (List Char) := do
  skipChar '\n' (← skipChar '\r' (← skipText p))

/-- `strncasecmp(p, name, strlen(name)) == 0`. -/
def startsWith : List Char → List Char → Except Fault Bool
  | [], _ => .ok true
  | _ :: _, [] => .error .outOfBounds
  | n :: name, c :: p => if c.toLower = n.toLower then startsWith name p else .ok false

def isHeader (name : HeaderName) (p : List Char) : Except Fault Bool := do
  if ← startsWith name.text p then .ok ((← deref (p.drop name.text.length)) == ':') else .ok false

def copyValue (p : List Char) : Except Fault (List Char) := do
  .ok (((← skipWs p).takeWhile fun c => !isLineEnd c).take 255)

def findHeaderFrom (name : HeaderName) : Nat → List Char → Except Fault (Option (List Char))
  | 0, _ => .error .diverges
  | fuel + 1, p =>
    if p = [] then .ok none
    else if p.head?.any isLineEnd then .ok none
    else do
      if ← isHeader name p then .ok (some (← copyValue (p.drop (name.text.length + 1))))
      else findHeaderFrom name fuel (← skipLine p)

def findHeader (fuel : Nat) (name : HeaderName) (buf : List Char) : Except Fault (Option (List Char)) := do
  findHeaderFrom name fuel (← skipLine buf)

end Search

section Lines

def ofLine (text : List Char) : List Char := text.takeWhile fun c => !isLineEnd c

/-- A line ends with a carriage return, a line feed, or both. -/
def afterLine (text : List Char) : List Char := skipOne '\n' (skipOne '\r' (text.dropWhile fun c => !isLineEnd c))

theorem skipOne_length_le (c : Char) (rest : List Char) : (skipOne c rest).length ≤ rest.length := by
  unfold skipOne
  split <;> simp

theorem afterLine_length {text : List Char} (nonempty : text ≠ []) : (afterLine text).length < text.length := by
  have bound := skipOne_length_le '\n' (skipOne '\r' (text.dropWhile fun c => !isLineEnd c))
  have left := List.length_dropWhile_le (fun c => !isLineEnd c) text
  have skipped := skipOne_length_le '\r' (text.dropWhile fun c => !isLineEnd c)
  obtain ⟨c, rest, rfl⟩ := List.exists_cons_of_ne_nil nonempty
  by_cases ended : isLineEnd c = true
  · have kept : (c :: rest).dropWhile (fun c => !isLineEnd c) = c :: rest := by simp [ended]
    have which : c = '\r' ∨ c = '\n' := by simpa [isLineEnd] using ended
    unfold afterLine
    rw [kept]
    obtain rfl | rfl := which
    · have less := skipOne_length_le '\n' (skipOne '\r' ('\r' :: rest))
      simp only [skipOne, List.head?_cons, if_true, List.tail_cons] at less ⊢
      simp only [List.length_cons]
      omega
    · simp [skipOne]
  · have dropped : (c :: rest).dropWhile (fun c => !isLineEnd c) = rest.dropWhile fun c => !isLineEnd c := by simp [ended]
    have less := List.length_dropWhile_le (fun c => !isLineEnd c) rest
    unfold afterLine
    rw [dropped] at bound skipped ⊢
    simp only [List.length_cons]
    omega

/-- Where the lines of a text start. -/
def lineStarts (text : List Char) : List (List Char) :=
  if text = [] then [] else text :: lineStarts (afterLine text)
termination_by text.length
decreasing_by exact afterLine_length (by assumption)

/-- Where the lines in front of the first empty one start. -/
def headerStarts (p : List Char) : List (List Char) := (lineStarts p).takeWhile fun start => ofLine start ≠ []

/-- The lines between the first one and the first empty one. -/
def headerLines (text : List Char) : List (List Char) := (headerStarts (afterLine text)).map ofLine

def Names (name : HeaderName) (text : List Char) : Prop :=
  equalIgnoringCase (text.take name.text.length) name.text = true ∧ text[name.text.length]? = some ':'

instance (name : HeaderName) : DecidablePred (Names name) := fun text =>
  inferInstanceAs (Decidable (equalIgnoringCase (text.take name.text.length) name.text = true ∧
    text[name.text.length]? = some ':'))

/-- The text behind the colon of the first header with a name. -/
def behindColon (name : HeaderName) (p : List Char) : Option (List Char) :=
  ((headerStarts p).find? (Names name)).map (·.drop (name.text.length + 1))

/-- What is copied of the text behind a colon. -/
def copied (p : List Char) : List Char := (ofLine (p.dropWhile isSpace)).take 255

/-- A line end that can be told to be one without looking behind the buffer. -/
inductive Terminated : List Char → List Char → Prop where
  | feed (rest : List Char) : Terminated ['\n'] rest
  | both (rest : List Char) : Terminated ['\r', '\n'] rest
  | carriage {c : Char} (other : c ≠ '\n') (rest : List Char) : Terminated ['\r'] (c :: rest)

theorem Terminated.append {ending rest : List Char} (terminated : Terminated ending rest) (beyond : List Char) :
    Terminated ending (rest ++ beyond) := by
  cases terminated with
  | feed => exact .feed _
  | both => exact .both _
  | carriage other rest => exact .carriage other _

/-- Every line that has to be passed is terminated and has no zero byte, and the text behind the
colon of a header that is found is readable. -/
inductive Scans (readable : List Char → Prop) (name : HeaderName) : List Char → Prop where
  | done : Scans readable name []
  | empty {c : Char} (ended : isLineEnd c = true) (rest : List Char) : Scans readable name (c :: rest)
  | found {p : List Char} (named : Names name p) (read : readable (p.drop (name.text.length + 1))) : Scans readable name p
  | next {line ending rest : List Char} (nonempty : line ≠ []) (plain : ∀ c ∈ line, isPlain c = true)
      (other : ¬Names name line) (terminated : Terminated ending rest) (scans : Scans readable name rest) :
      Scans readable name (line ++ (ending ++ rest))

/-- White space is skipped until something else comes. -/
def HasText (p : List Char) : Prop := ∃ c ∈ p, isSpace c = false

/-- The first line is passed in any case. -/
def Searchable (name : HeaderName) (text : List Char) : Prop :=
  ∃ line ending rest, (∀ c ∈ line, isPlain c = true) ∧ Terminated ending rest ∧ text = line ++ (ending ++ rest) ∧
    Scans HasText name rest

end Lines

section Steps

theorem isPlain_iff (c : Char) : isPlain c = true ↔ c ≠ '\x00' ∧ isLineEnd c = false := by
  simp [isPlain]

theorem not_isPlain_iff (c : Char) : isPlain c = false ↔ c = '\x00' ∨ c = '\r' ∨ c = '\n' := by
  simp only [isPlain, isLineEnd, Bool.and_eq_false_iff, bne_eq_false_iff_eq, Bool.not_eq_false', Bool.or_eq_true, beq_iff_eq]

theorem skipText_append {line : List Char} (plain : ∀ c ∈ line, isPlain c = true) (p : List Char) :
    skipText (line ++ p) = skipText p := by
  induction line with
  | nil => rfl
  | cons c line ih =>
    rw [List.cons_append, skipText, if_pos (plain c List.mem_cons_self)]
    exact ih fun c member => plain c (List.mem_cons_of_mem _ member)

theorem skipLine_append {line : List Char} (plain : ∀ c ∈ line, isPlain c = true) (p : List Char) :
    skipLine (line ++ p) = skipLine p := by
  unfold skipLine
  rw [skipText_append plain]

theorem skipLine_zero (rest : List Char) : skipLine ('\x00' :: rest) = .ok ('\x00' :: rest) := rfl

theorem skipLine_terminated {ending rest : List Char} (terminated : Terminated ending rest) :
    skipLine (ending ++ rest) = .ok rest := by
  cases terminated with
  | feed => rfl
  | both => rfl
  | carriage other =>
    change skipChar '\n' (_ :: _) = _
    simp only [skipChar, deref, bind, Except.bind, if_neg other]

/-- What stands in a buffer at the end of a line. -/
inductive LineEnd : List Char → Prop where
  | missing : LineEnd []
  | cut : LineEnd ['\r']
  | zero (rest : List Char) : LineEnd ('\x00' :: rest)
  | terminated {ending rest : List Char} (terminated : Terminated ending rest) : LineEnd (ending ++ rest)

theorem lineEnd_of_not_plain {c : Char} (stops : isPlain c = false) (rest : List Char) : LineEnd (c :: rest) := by
  obtain rfl | rfl | rfl := (not_isPlain_iff c).mp stops
  · exact .zero rest
  · cases rest with
    | nil => exact .cut
    | cons d rest =>
      by_cases feed : d = '\n'
      · subst feed
        exact .terminated (.both rest)
      · exact .terminated (.carriage feed rest)
  · exact .terminated (.feed rest)

theorem exists_lineEnd (p : List Char) : ∃ line rest, (∀ c ∈ line, isPlain c = true) ∧ LineEnd rest ∧ p = line ++ rest := by
  refine ⟨p.takeWhile isPlain, p.dropWhile isPlain, fun c => List.mem_takeWhile_imp, ?_, List.takeWhile_append_dropWhile.symm⟩
  cases left : p.dropWhile isPlain with
  | nil => exact .missing
  | cons c rest =>
    apply lineEnd_of_not_plain
    have stops := List.head_dropWhile_not isPlain (l := p) (by rw [left]; exact List.cons_ne_nil _ _)
    simpa only [left, List.head_cons] using stops

end Steps

section Names

theorem toLower_ne {c n : Char} (stops : isPlain c = false) (plain : isPlain n = true) : c.toLower ≠ n.toLower := by
  have same : c.toLower = c := by
    obtain rfl | rfl | rfl := (not_isPlain_iff c).mp stops <;> rfl
  have low : c.toNat ≤ 13 := by
    obtain rfl | rfl | rfl := (not_isPlain_iff c).mp stops <;> decide
  intro equal
  have value : c.toNat = n.toLower.toNat := by rw [← equal, same]
  rw [toLower_toNat] at value
  split at value
  next upper => omega
  next =>
    rw [char_ext value, plain] at stops
    cases stops

theorem startsWith_true {name p : List Char} (starts : startsWith name p = .ok true) :
    equalIgnoringCase (p.take name.length) name = true := by
  induction name generalizing p with
  | nil => rfl
  | cons n name ih =>
    cases p with
    | nil => cases starts
    | cons c p =>
      rw [startsWith] at starts
      split at starts
      next same =>
        have tail := ih starts
        simp only [equalIgnoringCase, List.length_cons, List.take_succ_cons, List.map_cons, beq_iff_eq] at tail ⊢
        rw [same, tail]
      next => cases starts

theorem startsWith_of_equal {name p : List Char} (same : equalIgnoringCase (p.take name.length) name = true) :
    startsWith name p = .ok true := by
  induction name generalizing p with
  | nil => rfl
  | cons n name ih =>
    cases p with
    | nil => cases same
    | cons c p =>
      have both : c.toLower = n.toLower ∧ (p.take name.length).map Char.toLower = name.map Char.toLower := by
        simpa [equalIgnoringCase] using same
      rw [startsWith, if_pos both.1]
      exact ih (by simpa [equalIgnoringCase] using both.2)

theorem startsWith_stops {name : List Char} (plain : ∀ n ∈ name, isPlain n = true) {c : Char} (stops : isPlain c = false)
    (line rest : List Char) : startsWith name (line ++ c :: rest) = .ok true ∧ name.length ≤ line.length ∨
      startsWith name (line ++ c :: rest) = .ok false := by
  induction name generalizing line with
  | nil => exact Or.inl ⟨rfl, Nat.zero_le _⟩
  | cons n name ih =>
    have others : ∀ n ∈ name, isPlain n = true := fun n member => plain n (List.mem_cons_of_mem _ member)
    cases line with
    | nil => exact Or.inr (by rw [List.nil_append, startsWith, if_neg (toLower_ne stops (plain n List.mem_cons_self))])
    | cons d line =>
      rw [List.cons_append, startsWith, List.length_cons, List.length_cons]
      split
      · simpa using ih others line
      · exact Or.inr rfl

variable (name : HeaderName)

theorem isHeader_true {p : List Char} (header : isHeader name p = .ok true) : Names name p := by
  unfold isHeader at header
  cases starts : startsWith name.text p with
  | error fault => simp [starts, bind, Except.bind] at header
  | ok found =>
    cases found with
    | false => simp [starts, bind, Except.bind] at header
    | true =>
      refine ⟨startsWith_true starts, ?_⟩
      cases behind : p.drop name.text.length with
      | nil => simp [starts, behind, deref, bind, Except.bind] at header
      | cons c rest =>
        have colon : c = ':' := by simpa [starts, behind, deref, bind, Except.bind] using header
        rw [← colon, ← List.head?_drop, behind]
        rfl

theorem isHeader_of_names {p : List Char} (named : Names name p) : isHeader name p = .ok true := by
  obtain ⟨same, colon⟩ := named
  unfold isHeader
  cases behind : p.drop name.text.length with
  | nil =>
    rw [← List.head?_drop, behind] at colon
    cases colon
  | cons c rest =>
    rw [← List.head?_drop, behind] at colon
    cases colon
    simp [startsWith_of_equal same, deref, bind, Except.bind]

theorem isHeader_false {p : List Char} (header : isHeader name p = .ok false) : ¬Names name p := by
  intro named
  rw [isHeader_of_names name named] at header
  cases header

/-- A line that ends inside the buffer can be compared with the name. -/
theorem isHeader_stops (line : List Char) {c : Char} (stops : isPlain c = false) (rest : List Char) :
    ∃ header, isHeader name (line ++ c :: rest) = .ok header := by
  unfold isHeader
  obtain ⟨starts, bound⟩ | starts := startsWith_stops name.plain stops line rest
  · have behind : ∃ d behind, (line ++ c :: rest).drop name.text.length = d :: behind := by
      rw [List.drop_append_of_le_length bound]
      cases line.drop name.text.length with
      | nil => exact ⟨c, rest, rfl⟩
      | cons d left => exact ⟨d, left ++ c :: rest, rfl⟩
    obtain ⟨d, behind, points⟩ := behind
    exact ⟨d == ':', by simp [starts, points, deref, bind, Except.bind]⟩
  · exact ⟨false, by simp [starts, bind, Except.bind]⟩

theorem names_append {line : List Char} (named : Names name line) (rest : List Char) : Names name (line ++ rest) := by
  obtain ⟨same, colon⟩ := named
  have inside : name.text.length < line.length := (List.getElem?_eq_some_iff.mp colon).1
  refine ⟨?_, ?_⟩
  · rw [List.take_append_of_le_length (Nat.le_of_lt inside)]
    exact same
  · rw [List.getElem?_append_left inside]
    exact colon

theorem plain_of_names {name line : List Char} (plain : ∀ n ∈ name, isPlain n = true)
    (same : equalIgnoringCase line name = true) : ∀ c ∈ line, isLineEnd c = false := by
  induction name generalizing line with
  | nil =>
    cases line with
    | nil => exact fun _ member => absurd member List.not_mem_nil
    | cons c line => cases same
  | cons n name ih =>
    cases line with
    | nil => cases same
    | cons d line =>
      have both : d.toLower = n.toLower ∧ line.map Char.toLower = name.map Char.toLower := by
        simpa [equalIgnoringCase] using same
      intro c member
      obtain rfl | member := List.mem_cons.mp member
      · apply Bool.eq_false_iff.mpr
        intro ended
        exact toLower_ne (by simp [isPlain, ended]) (plain n List.mem_cons_self) both.1
      · refine ih (fun n member => plain n (List.mem_cons_of_mem _ member)) ?_ c member
        simpa [equalIgnoringCase] using both.2

theorem names_ofLine {p : List Char} (named : Names name p) : Names name (ofLine p) := by
  obtain ⟨same, colon⟩ := named
  obtain ⟨inside, value⟩ := List.getElem?_eq_some_iff.mp colon
  have header : p = p.take name.text.length ++ ':' :: p.drop (name.text.length + 1) := by
    rw [← value, List.getElem_cons_drop, List.take_append_drop]
  have plain := plain_of_names name.plain same
  have length : (p.take name.text.length).length = name.text.length := List.length_take_of_le (Nat.le_of_lt inside)
  have line : ofLine p = p.take name.text.length ++ ':' :: ofLine (p.drop (name.text.length + 1)) := by
    conv_lhs => rw [header]
    unfold ofLine
    rw [List.takeWhile_append_of_pos fun c member => by rw [plain c member]; rfl]
    rfl
  rw [line]
  refine ⟨?_, ?_⟩
  · rw [List.take_left' length]
    exact same
  · rw [List.getElem?_append_right (Nat.le_of_eq length), length, Nat.sub_self]
    rfl

end Names

section Search

theorem ofLine_terminated {line ending rest : List Char} (plain : ∀ c ∈ line, isPlain c = true)
    (terminated : Terminated ending rest) : ofLine (line ++ (ending ++ rest)) = line := by
  unfold ofLine
  rw [List.takeWhile_append_of_pos fun c member => by rw [((isPlain_iff c).mp (plain c member)).2]; rfl]
  cases terminated <;> simp [isLineEnd]

theorem afterLine_terminated {line ending rest : List Char} (plain : ∀ c ∈ line, isPlain c = true)
    (terminated : Terminated ending rest) : afterLine (line ++ (ending ++ rest)) = rest := by
  unfold afterLine
  rw [List.dropWhile_append_of_pos fun c member => by rw [((isPlain_iff c).mp (plain c member)).2]; rfl]
  cases terminated with
  | feed => rfl
  | both => rfl
  | carriage other rest => simp [isLineEnd, skipOne, other]

variable (name : HeaderName)

theorem ofLine_ne_nil {p : List Char} (named : Names name p) : ofLine p ≠ [] := by
  intro empty
  have line := names_ofLine name named
  rw [empty] at line
  cases line.2

theorem head_of_ofLine {p : List Char} (filled : ofLine p ≠ []) : ∃ c rest, p = c :: rest ∧ isLineEnd c = false := by
  cases p with
  | nil => exact absurd rfl filled
  | cons c rest =>
    refine ⟨c, rest, rfl, Bool.eq_false_iff.mpr fun ended => filled ?_⟩
    simp [ofLine, ended]

theorem headerStarts_nil : headerStarts [] = [] := by
  rw [headerStarts, lineStarts, if_pos rfl]
  rfl

theorem headerStarts_empty {p : List Char} (empty : ofLine p = []) : headerStarts p = [] := by
  rw [headerStarts, lineStarts]
  split
  · rfl
  · rw [List.takeWhile_cons, if_neg (by simpa using empty)]

theorem headerStarts_cons {p : List Char} (filled : ofLine p ≠ []) :
    headerStarts p = p :: headerStarts (afterLine p) := by
  have nonempty : p ≠ [] := by
    rintro rfl
    exact filled rfl
  rw [headerStarts, lineStarts, if_neg nonempty, List.takeWhile_cons, if_pos (decide_eq_true filled)]
  rfl

theorem behindColon_empty {c : Char} (ended : isLineEnd c = true) (rest : List Char) :
    behindColon name (c :: rest) = none := by
  have empty : ofLine (c :: rest) = [] := by simp [ofLine, ended]
  rw [behindColon, headerStarts_empty empty]
  rfl

theorem behindColon_found {p : List Char} (named : Names name p) :
    behindColon name p = some (p.drop (name.text.length + 1)) := by
  rw [behindColon, headerStarts_cons (ofLine_ne_nil name named), List.find?_cons, decide_eq_true named]
  rfl

theorem names_of_terminated {line ending rest : List Char} (plain : ∀ c ∈ line, isPlain c = true)
    (terminated : Terminated ending rest) : Names name (line ++ (ending ++ rest)) ↔ Names name line := by
  constructor
  · intro named
    have line := names_ofLine name named
    rwa [ofLine_terminated plain terminated] at line
  · exact fun named => names_append name named _

theorem behindColon_other {line ending rest : List Char} (nonempty : line ≠ []) (plain : ∀ c ∈ line, isPlain c = true)
    (other : ¬Names name line) (terminated : Terminated ending rest) :
    behindColon name (line ++ (ending ++ rest)) = behindColon name rest := by
  have filled : ofLine (line ++ (ending ++ rest)) ≠ [] := by
    rw [ofLine_terminated plain terminated]
    exact nonempty
  have unnamed := (names_of_terminated name plain terminated).not.mpr other
  rw [behindColon, headerStarts_cons filled, List.find?_cons, decide_eq_false unnamed, afterLine_terminated plain terminated]
  rfl

theorem behindColon_isSome (p : List Char) :
    (behindColon name p).isSome = true ↔ ∃ line ∈ (headerStarts p).map ofLine, Names name line := by
  rw [behindColon, Option.isSome_map, List.find?_isSome]
  constructor
  · rintro ⟨start, member, named⟩
    exact ⟨ofLine start, List.mem_map_of_mem member, names_ofLine name (of_decide_eq_true named)⟩
  · rintro ⟨line, member, named⟩
    obtain ⟨start, inside, rfl⟩ := List.mem_map.mp member
    refine ⟨start, inside, decide_eq_true ?_⟩
    have whole := names_append name named (start.dropWhile fun c => !isLineEnd c)
    rwa [ofLine, List.takeWhile_append_dropWhile] at whole

theorem skipWs_eq {p : List Char} (text : HasText p) : skipWs p = .ok (p.dropWhile isSpace) := by
  induction p with
  | nil =>
    obtain ⟨_, member, _⟩ := text
    cases member
  | cons c p ih =>
    rw [skipWs, List.dropWhile_cons]
    split
    next blank =>
      obtain ⟨d, member, filled⟩ := text
      obtain rfl | member := List.mem_cons.mp member
      · rw [blank] at filled
        cases filled
      · exact ih ⟨d, member, filled⟩
    next => rfl

theorem hasText_of_skipWs {p q : List Char} (skipped : skipWs p = .ok q) : HasText p := by
  induction p with
  | nil => cases skipped
  | cons c p ih =>
    rw [skipWs] at skipped
    split at skipped
    next =>
      obtain ⟨d, member, filled⟩ := ih skipped
      exact ⟨d, List.mem_cons_of_mem _ member, filled⟩
    next filled => exact ⟨c, List.mem_cons_self, Bool.eq_false_iff.mpr filled⟩

theorem copyValue_eq {p : List Char} (text : HasText p) : copyValue p = .ok (copied p) := by
  unfold copyValue
  rw [skipWs_eq text]
  rfl

theorem hasText_of_copyValue {p value : List Char} (copied : copyValue p = .ok value) : HasText p := by
  unfold copyValue at copied
  cases skipped : skipWs p with
  | error fault =>
    rw [skipped] at copied
    cases copied
  | ok q => exact hasText_of_skipWs skipped

theorem isHeader_zero (rest : List Char) : isHeader name ('\x00' :: rest) = .ok false := by
  cases named : name.text with
  | nil =>
    simp only [isHeader, named, startsWith, bind, Except.bind, if_true]
    rfl
  | cons n text =>
    have other := toLower_ne (c := '\x00') rfl (name.plain n (by rw [named]; exact List.mem_cons_self))
    simp only [isHeader, named, startsWith, bind, Except.bind, if_neg other, Bool.false_eq_true, if_false]

/-- The loop does not get past a zero byte. -/
theorem findHeaderFrom_zero (fuel : Nat) (rest : List Char) :
    findHeaderFrom name fuel ('\x00' :: rest) = .error .diverges := by
  induction fuel with
  | zero => rfl
  | succ fuel ih =>
    have other := isHeader_zero name rest
    rw [findHeaderFrom, if_neg (List.cons_ne_nil _ _), List.head?_cons, if_neg (show ¬(some '\x00').any isLineEnd = true by decide)]
    simp only [other, bind, Except.bind, Bool.false_eq_true, if_false, skipLine_zero, ih]

theorem findHeaderFrom_found {c : Char} {rest : List Char} (inside : isLineEnd c = false)
    (header : isHeader name (c :: rest) = .ok true) (fuel : Nat) :
    findHeaderFrom name (fuel + 1) (c :: rest) = some <$> copyValue ((c :: rest).drop (name.text.length + 1)) := by
  rw [findHeaderFrom, if_neg (List.cons_ne_nil _ _), if_neg (by simpa using inside)]
  simp only [header, bind, Except.bind, if_true]
  rfl

theorem findHeaderFrom_other {c : Char} {rest : List Char} (inside : isLineEnd c = false)
    (header : isHeader name (c :: rest) = .ok false) (fuel : Nat) :
    findHeaderFrom name (fuel + 1) (c :: rest) = skipLine (c :: rest) >>= findHeaderFrom name fuel := by
  rw [findHeaderFrom, if_neg (List.cons_ne_nil _ _), if_neg (by simpa using inside)]
  simp only [header, bind, Except.bind, Bool.false_eq_true, if_false]

theorem findHeaderFrom_fault {c : Char} {rest : List Char} (inside : isLineEnd c = false) {fault : Fault}
    (header : isHeader name (c :: rest) = .error fault) (fuel : Nat) :
    findHeaderFrom name (fuel + 1) (c :: rest) = .error fault := by
  rw [findHeaderFrom, if_neg (List.cons_ne_nil _ _), if_neg (by simpa using inside)]
  simp only [header, bind, Except.bind]

theorem isHeader_terminated {line ending rest : List Char} (plain : ∀ c ∈ line, isPlain c = true)
    (other : ¬Names name line) (terminated : Terminated ending rest) :
    isHeader name (line ++ (ending ++ rest)) = .ok false := by
  have compared : ∃ header, isHeader name (line ++ (ending ++ rest)) = .ok header := by
    cases terminated with
    | feed => exact isHeader_stops name line rfl _
    | both => exact isHeader_stops name line rfl _
    | carriage => exact isHeader_stops name line rfl _
  obtain ⟨header, compared⟩ := compared
  cases header with
  | false => exact compared
  | true => exact absurd ((names_of_terminated name plain terminated).mp (isHeader_true name compared)) other

theorem findHeaderFrom_of_scans {p : List Char} (scans : Scans HasText name p) :
    ∃ fuel, findHeaderFrom name fuel p = .ok ((behindColon name p).map copied) := by
  induction scans with
  | done =>
    refine ⟨1, ?_⟩
    rw [behindColon, headerStarts_nil]
    rfl
  | empty ended rest =>
    refine ⟨1, ?_⟩
    rw [findHeaderFrom, if_neg (List.cons_ne_nil _ _), if_pos (by simpa using ended), behindColon_empty name ended]
    rfl
  | @found p named read =>
    refine ⟨1, ?_⟩
    obtain ⟨c, rest, rfl, inside⟩ := head_of_ofLine (ofLine_ne_nil name named)
    rw [findHeaderFrom_found name inside (isHeader_of_names name named), copyValue_eq read, behindColon_found name named]
    rfl
  | @next line ending rest nonempty plain other terminated scans ih =>
    obtain ⟨fuel, returned⟩ := ih
    refine ⟨fuel + 1, ?_⟩
    have skipped : skipLine (line ++ (ending ++ rest)) = .ok rest := by
      rw [skipLine_append plain, skipLine_terminated terminated]
    have header := isHeader_terminated name plain other terminated
    rw [behindColon_other name nonempty plain other terminated]
    obtain ⟨c, line, rfl⟩ := List.exists_cons_of_ne_nil nonempty
    rw [List.cons_append] at skipped header ⊢
    rw [findHeaderFrom_other name ((isPlain_iff c).mp (plain c List.mem_cons_self)).2 header, skipped]
    exact returned

/-- A search that gets past a line found its end. -/
theorem lineEnd_of_returned {fuel : Nat} {p : List Char} {value : Option (List Char)}
    (returned : skipLine p >>= findHeaderFrom name fuel = .ok value) : ∃ line ending rest,
      (∀ c ∈ line, isPlain c = true) ∧ Terminated ending rest ∧ p = line ++ (ending ++ rest) ∧
        findHeaderFrom name fuel rest = .ok value := by
  obtain ⟨line, left, plain, lineEnd, rfl⟩ := exists_lineEnd p
  rw [skipLine_append plain] at returned
  cases lineEnd with
  | missing => cases returned
  | cut => cases returned
  | zero rest =>
    rw [skipLine_zero] at returned
    change findHeaderFrom name fuel _ = _ at returned
    rw [findHeaderFrom_zero] at returned
    cases returned
  | @terminated ending rest terminated =>
    rw [skipLine_terminated terminated] at returned
    exact ⟨line, ending, rest, plain, terminated, rfl, returned⟩

theorem scans_of_findHeaderFrom {fuel : Nat} {p : List Char} {value : Option (List Char)}
    (returned : findHeaderFrom name fuel p = .ok value) : Scans HasText name p := by
  induction fuel generalizing p with
  | zero => cases returned
  | succ fuel ih =>
    cases p with
    | nil => exact .done
    | cons c rest =>
      by_cases ended : isLineEnd c = true
      · exact .empty ended rest
      have inside := Bool.eq_false_iff.mpr ended
      cases header : isHeader name (c :: rest) with
      | error fault =>
        rw [findHeaderFrom_fault name inside header] at returned
        cases returned
      | ok found =>
        cases found with
        | true =>
          rw [findHeaderFrom_found name inside header] at returned
          cases read : copyValue ((c :: rest).drop (name.text.length + 1)) with
          | error fault =>
            rw [read] at returned
            cases returned
          | ok text => exact .found (isHeader_true name header) (hasText_of_copyValue read)
        | false =>
          have other := isHeader_false name header
          rw [findHeaderFrom_other name inside header] at returned
          obtain ⟨line, ending, left, plain, terminated, split, returned⟩ := lineEnd_of_returned name returned
          have nonempty : line ≠ [] := by
            rintro rfl
            cases terminated <;> exact ended (by cases split; rfl)
          rw [split] at other ⊢
          exact .next nonempty plain (fun named => other (names_append name named _)) terminated (ih returned)

/-- The search answers exactly when everything that it has to pass can be passed; the answer
is then right. -/
theorem findHeader_iff (name : HeaderName) (text : List Char) :
    (∃ fuel value, findHeader fuel name text = .ok value ∧
      (value.isSome = true ↔ ∃ line ∈ headerLines text, Names name line)) ↔ Searchable name text := by
  constructor
  · rintro ⟨fuel, value, returned, _⟩
    obtain ⟨line, ending, rest, plain, terminated, split, returned⟩ := lineEnd_of_returned name returned
    exact ⟨line, ending, rest, plain, terminated, split, scans_of_findHeaderFrom name returned⟩
  · rintro ⟨line, ending, rest, plain, terminated, rfl, scans⟩
    obtain ⟨fuel, returned⟩ := findHeaderFrom_of_scans name scans
    refine ⟨fuel, (behindColon name rest).map copied, ?_, ?_⟩
    · unfold findHeader
      rw [skipLine_append plain, skipLine_terminated terminated]
      exact returned
    · rw [headerLines, afterLine_terminated plain terminated, Option.isSome_map]
      exact behindColon_isSome name rest

def via : HeaderName := ⟨['V', 'i', 'a'], List.all_eq_true.mp rfl⟩

/-- A request with a zero byte in its first header. -/
def zeroRequest : List Char := "OPTIONS a SIP/2.0\r\nX\x00: 1\r\nVia: b\r\n\r\n".toList

/-- The header is there, and the search does not come to an end. -/
theorem zeroRequest_unanswered : ¬∃ fuel value, findHeader fuel via zeroRequest = .ok value ∧
    (value.isSome = true ↔ ∃ line ∈ headerLines zeroRequest, Names via line) := by
  rintro ⟨fuel, value, returned, _⟩
  match fuel with
  | 0 => cases returned
  | 1 => cases returned
  | fuel + 2 =>
    change findHeaderFrom via (fuel + 1) ('\x00' :: _) = _ at returned
    rw [findHeaderFrom_zero] at returned
    cases returned

end Search

end LtlFuzz.Adapter.Sip.Buffer

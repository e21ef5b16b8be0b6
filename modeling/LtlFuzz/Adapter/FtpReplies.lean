import LtlFuzz.Adapter.Ftp

/-! FTP replies as their definition has them, of one line or of several, and what the adapter
takes for malformed among them: it wants a code in front of every line. -/

namespace LtlFuzz.Adapter.Ftp

section Replies

/-- Text that stays in its line. -/
structure LineText where
  text : List Char
  inside : ∀ c ∈ text, c ≠ '\r' ∧ c ≠ '\n'

structure ReplyCode extends LineText where
  three : text.length = 3
  digits : text.all Char.isDigit = true

structure FilledText extends LineText where
  filled : text ≠ []

inductive Reply where
  | single (code : ReplyCode) (text : LineText)
  | multi (code : ReplyCode) (first : LineText) (middle : List FilledText) (last : LineText)

namespace Reply

def middle : Reply → List FilledText
  | single _ _ => []
  | multi _ _ middle _ => middle

/-- The lines of a reply, without their ends. -/
def lines : Reply → List (List Char)
  | single code text => [code.text ++ ' ' :: text.text]
  | multi code first middle last =>
    (code.text ++ '-' :: first.text) :: (middle.map (·.text) ++ [code.text ++ ' ' :: last.text])

def encode (reply : Reply) : List Char := reply.lines.flatMap (· ++ ['\r', '\n'])

end Reply

def transmit (replies : List Reply) : List Char := replies.flatMap Reply.encode

def Numbered (line : List Char) : Prop := 4 ≤ line.length ∧ (line.take 3).all Char.isDigit = true

end Replies

section Scanning

theorem hasMalformedLine_append {line : List Char} (inside : '\n' ∉ line) (seen rest : List Char) :
    hasMalformedLine seen (line ++ rest) = hasMalformedLine (seen ++ line) rest := by
  induction line generalizing seen with
  | nil => rw [List.nil_append, List.append_nil]
  | cons c line ih =>
    have other : c ≠ '\n' := fun same => inside (same ▸ List.mem_cons_self)
    rw [List.cons_append, hasMalformedLine, if_neg other, ih (fun member => inside (List.mem_cons_of_mem _ member)),
      List.append_assoc]
    rfl

theorem isReplyLineMalformed_ended (line : List Char) : isReplyLineMalformed (line ++ ['\r']) = false ↔ Numbered line := by
  have ended : (line ++ ['\r']).getLast? = some '\r' := by simp
  unfold isReplyLineMalformed Numbered
  rw [if_pos ended, List.dropLast_concat]
  simp

/-- A text of lines is well formed if each line is. -/
theorem hasMalformedLine_lines {lines : List (List Char)} (inside : ∀ line ∈ lines, '\n' ∉ line) :
    hasMalformedLine [] (lines.flatMap (· ++ ['\r', '\n'])) = false ↔ ∀ line ∈ lines, Numbered line := by
  induction lines with
  | nil => simp [hasMalformedLine]
  | cons line lines ih =>
    have here := inside line List.mem_cons_self
    have rest := ih fun line member => inside line (List.mem_cons_of_mem _ member)
    have split : (line :: lines).flatMap (· ++ ['\r', '\n']) =
        (line ++ ['\r']) ++ '\n' :: lines.flatMap (· ++ ['\r', '\n']) := by simp
    have feedless : '\n' ∉ line ++ ['\r'] := by simp [here]
    rw [split, hasMalformedLine_append feedless, List.nil_append, hasMalformedLine, if_pos rfl, Bool.or_eq_false_iff,
      isReplyLineMalformed_ended, rest, List.forall_mem_cons]

end Scanning

section Legality

theorem ReplyCode.numbered (code : ReplyCode) (separator : Char) (text : List Char) :
    Numbered (code.text ++ separator :: text) := by
  refine ⟨?_, ?_⟩
  · rw [List.length_append, code.three, List.length_cons]
    omega
  · rw [List.take_left' code.three]
    exact code.digits

theorem LineText.feedless (text : LineText) : '\n' ∉ text.text := fun member => (text.inside _ member).2 rfl

theorem Reply.lines_inside (reply : Reply) : ∀ line ∈ reply.lines, '\n' ∉ line := by
  have headed (code : ReplyCode) {separator : Char} (other : separator ≠ '\n') (text : LineText) :
      '\n' ∉ code.text ++ separator :: text.text := by
    simp [code.feedless, text.feedless, other.symm]
  intro line member
  cases reply with
  | single code text =>
    obtain rfl := List.mem_singleton.mp member
    exact headed code (by decide) text
  | multi code first middle last =>
    obtain rfl | member := List.mem_cons.mp member
    · exact headed code (by decide) first
    obtain member | member := List.mem_append.mp member
    · obtain ⟨text, _, rfl⟩ := List.mem_map.mp member
      exact text.feedless
    · obtain rfl := List.mem_singleton.mp member
      exact headed code (by decide) last

/-- The lines with a code are well formed. -/
theorem Reply.lines_numbered (reply : Reply) :
    (∀ line ∈ reply.lines, Numbered line) ↔ ∀ line ∈ reply.middle, Numbered line.text := by
  cases reply with
  | single code text => simp [lines, middle, code.numbered]
  | multi code first middle last => simp [lines, Reply.middle, code.numbered, or_imp, forall_and]

/-- Legal replies pass exactly when every line inside of them looks like one of their own. -/
theorem transmit_passes (first : Reply) (more : List Reply) : isRespMalformed (transmit (first :: more)) = false ↔
    ∀ reply ∈ first :: more, ∀ line ∈ reply.middle, Numbered line.text := by
  have lines : transmit (first :: more) = ((first :: more).flatMap Reply.lines).flatMap (· ++ ['\r', '\n']) := by
    rw [List.flatMap_assoc]
    rfl
  have nonempty : (transmit (first :: more)).isEmpty = false := by
    cases first <;> simp [transmit, Reply.encode, Reply.lines]
  have inside : ∀ line ∈ (first :: more).flatMap Reply.lines, '\n' ∉ line := by
    intro line member
    obtain ⟨reply, _, member⟩ := List.mem_flatMap.mp member
    exact reply.lines_inside line member
  rw [isRespMalformed, nonempty, Bool.false_or, lines, hasMalformedLine_lines inside]
  simp only [List.mem_flatMap, forall_exists_index, and_imp]
  rw [forall_comm]
  refine forall_congr' fun reply => ?_
  rw [forall_comm]
  exact forall_congr' fun _ => reply.lines_numbered

/-- The reply to `FEAT`, with an indented line. -/
def features : Reply :=
  .multi ⟨⟨"211".toList, by simp⟩, rfl, rfl⟩ ⟨"Features:".toList, by simp⟩ [⟨⟨" SIZE".toList, by simp⟩, by simp⟩]
    ⟨"End".toList, by simp⟩

theorem features_malformed : ¬(isRespMalformed (transmit [features]) = false) := by decide +kernel

end Legality

end LtlFuzz.Adapter.Ftp

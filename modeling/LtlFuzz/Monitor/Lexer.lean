import LtlFuzz.Logic.MaximalMunch
import LtlFuzz.Text.Numbers
import Mathlib.Algebra.Group.Nat.Even
import Mathlib.Data.List.DropRight

/-! `lexer.l`: the rules of the specification language, in their order, and what they say
about block comments. -/

namespace LtlFuzz.Monitor
open Text (Fault)
open Logic (Pattern munch lexemes munch_winner lexemes_of_munch)

inductive Token where
  | enum | intType | boolType | true | false
  | lparen | rparen | lbrace | rbrace | semicolon | comma
  | arrow | not | and | or | o | h | s | y
  | gt | lt | gte | lte | eq | neq
  | id (text : String)
  | int (value : Int)
  deriving DecidableEq, Repr

/-- What the rules do with the text they match. -/
inductive Action where
  | ignore
  | token (token : Token)
  | identifier
  | integer
  deriving DecidableEq, Repr

/-- The conversion of a number may throw. -/
def Action.run (yytext : List Char) : Action → Option (Except Fault Token)
  | .ignore => none
  | .token fixed => some (.ok fixed)
  | .identifier => some (.ok (.id (String.ofList yytext)))
  | .integer => some ((Text.stoi (String.ofList yytext)).map .int)

namespace Lexer
open Logic.Pattern

def isLetter (c : Char) : Bool := ('a' ≤ c && c ≤ 'z') || ('A' ≤ c && c ≤ 'Z') || c == '_'

def whitespace : Pattern Char := atLeastOnce (one fun c => c == ' ' || c == '\r' || c == '\t' || c == '\n')

def lineComment : Pattern Char := andThen (word "//".toList) (many (one (· != '\n')))

/-- Inside a block comment: anything but a star, or a star and anything but a slash. -/
def commentBody : Pattern Char := many (either (one (· != '*')) (andThen (one (· == '*')) (one (· != '/'))))

def blockComment : Pattern Char := andThen (word "/*".toList) (andThen commentBody (word "*/".toList))

def identifier : Pattern Char := andThen (one isLetter) (many (one fun c => isLetter c || c.isDigit))

def integer : Pattern Char := andThen (optional (one (· == '-'))) (atLeastOnce (one Char.isDigit))

def keyword (text : String) (token : Token) : Action × Pattern Char := (.token token, word text.toList)

/-- The rules behind the one for block comments. -/
def tokenRules : List (Action × Pattern Char) :=
  [keyword "enum" .enum, keyword "int" .intType, keyword "bool" .boolType, keyword "true" .true, keyword "false" .false,
    keyword "(" .lparen, keyword ")" .rparen, keyword "\x7b" .lbrace, keyword "\x7d" .rbrace, keyword ";" .semicolon,
    keyword "," .comma, keyword "->" .arrow, keyword "!" .not, keyword "&" .and, keyword "|" .or, keyword "O" .o,
    keyword "H" .h, keyword "S" .s, keyword "Y" .y, keyword ">" .gt, keyword "<" .lt, keyword ">=" .gte,
    keyword "<=" .lte, keyword "=" .eq, keyword "!=" .neq, (.identifier, identifier), (.integer, integer),
    (.ignore, one (· != '\n'))]

def rules : List (Action × Pattern Char) :=
  [(.ignore, whitespace), (.ignore, lineComment)] ++ (.ignore, blockComment) :: tokenRules

/-- An exception ends the scan. -/
def untilFault : List (Except Fault Token) → List (Except Fault Token)
  | [] => []
  | .ok token :: rest => .ok token :: untilFault rest
  | .error fault :: _ => [.error fault]

/-- What the parser is given, token by token. -/
def lex (text : List Char) : List (Except Fault Token) :=
  untilFault ((lexemes rules text).filterMap fun lexeme => lexeme.1.run lexeme.2)

section Comment

/-- The state of the scan inside a block comment: `true` behind a star that still waits
for the letter it is paired with. -/
def scanBody : Bool → List Char → Option Bool
  | pending, [] => some pending
  | false, c :: text => scanBody (c == '*') text
  | true, c :: text => if c = '/' then none else scanBody false text

theorem scanBody_append (pending : Bool) (first second : List Char) :
    scanBody pending (first ++ second) = (scanBody pending first).bind fun state => scanBody state second := by
  induction first generalizing pending with
  | nil => rfl
  | cons c first ih =>
    cases pending with
    | false => exact ih (c == '*')
    | true =>
      by_cases slash : c = '/'
      · simp [scanBody, slash]
      · simpa [scanBody, slash] using ih false

private theorem cons_mem_commentBody (c : Char) (text : List Char) :
    c :: text ∈ commentBody.language ↔
      (c ≠ '*' ∧ text ∈ commentBody.language) ∨
        (c = '*' ∧ ∃ d rest, text = d :: rest ∧ d ≠ '/' ∧ rest ∈ commentBody.language) := by
  rw [commentBody, cons_mem_many]
  constructor
  · rintro ⟨one, two, inside, rest, rfl⟩
    rcases mem_either.mp inside with ⟨other, plain, same⟩ | paired
    · obtain ⟨rfl, rfl⟩ := List.cons.inj same
      exact Or.inl ⟨by simpa using plain, rest⟩
    · obtain ⟨_, ⟨star, isStar, rfl⟩, _, ⟨d, isPlain, rfl⟩, same⟩ := mem_andThen.mp paired
      obtain ⟨rfl, rfl⟩ := List.cons.inj same
      exact Or.inr ⟨by simpa using isStar, d, two, rfl, by simpa using isPlain, rest⟩
  · rintro (⟨plain, rest⟩ | ⟨rfl, d, rest, rfl, plain, inside⟩)
    · exact ⟨[], text, mem_either.mpr (Or.inl ⟨c, by simpa using plain, rfl⟩), rest, rfl⟩
    · exact ⟨[d], rest, mem_either.mpr (Or.inr (mem_andThen.mpr
        ⟨['*'], ⟨'*', by decide, rfl⟩, [d], ⟨d, by simpa using plain, rfl⟩, rfl⟩)), inside, rfl⟩

/-- The texts a comment may hold are those the scan leaves without a waiting star. -/
theorem mem_commentBody (text : List Char) : text ∈ commentBody.language ↔ scanBody false text = some false := by
  induction text using List.twoStepInduction with
  | nil => simp [scanBody, commentBody, language, Language.nil_mem_kstar]
  | singleton c =>
    have blank : [] ∈ commentBody.language := Language.nil_mem_kstar _
    rw [cons_mem_commentBody]
    simp [scanBody, blank]
  | cons_cons c d text ih ihTail =>
    rw [cons_mem_commentBody, ihTail]
    by_cases star : c = '*'
    · subst star
      by_cases slash : d = '/'
      · simp [scanBody, slash]
      · simp [scanBody, slash, ih]
    · have other : (c == '*') = false := by simpa using star
      simp [scanBody, star, other]

theorem mem_blockComment (text : List Char) :
    text ∈ blockComment.language ↔
      ∃ body, scanBody false body = some false ∧ text = '/' :: '*' :: (body ++ ['*', '/']) := by
  rw [blockComment, mem_andThen]
  constructor
  · rintro ⟨_, opening, _, rest, rfl⟩
    obtain ⟨body, inside, _, closing, rfl⟩ := mem_andThen.mp rest
    rw [mem_word.mp opening, mem_word.mp closing]
    exact ⟨body, (mem_commentBody body).mp inside, by simp⟩
  · rintro ⟨body, scanned, rfl⟩
    exact ⟨['/', '*'], mem_word.mpr (by simp), body ++ ['*', '/'],
      mem_andThen.mpr ⟨body, (mem_commentBody body).mpr scanned, ['*', '/'], mem_word.mpr (by simp), rfl⟩, rfl⟩

/-- How many stars a text ends with. -/
def finalStars (text : List Char) : Nat := (text.rtakeWhile (· == '*')).length

private theorem finalStars_concat (text : List Char) (c : Char) :
    finalStars (text ++ [c]) = if c = '*' then finalStars text + 1 else 0 := by
  unfold finalStars
  rw [List.rtakeWhile_concat]
  by_cases star : c = '*'
  · simp [star]
  · simp [star]

private theorem ends_with_star {text : List Char} (some_star : finalStars text ≠ 0) : ∃ front, text = front ++ ['*'] := by
  cases text using List.reverseRecOn with
  | nil => exact absurd rfl some_star
  | append_singleton front c =>
    rw [finalStars_concat] at some_star
    by_cases star : c = '*'
    · exact ⟨front, by rw [star]⟩
    · exact absurd (if_neg star) some_star

/-- Where the end of the comment is not inside it, the scan pairs up the stars it ends with. -/
theorem scanBody_unclosed {text : List Char} (unclosed : ¬ ['*', '/'] <:+: text) :
    scanBody false text = some (decide (¬ Even (finalStars text))) := by
  induction text using List.reverseRecOn with
  | nil => rfl
  | append_singleton text c ih =>
    have before := ih fun inside => unclosed (inside.trans (List.prefix_append text [c]).isInfix)
    rw [scanBody_append, before, finalStars_concat, Option.bind_some]
    by_cases star : c = '*'
    · subst star
      by_cases even : Even (finalStars text)
      · simp [scanBody, even, Nat.even_add_one]
      · simp [scanBody, even, Nat.even_add_one]
    · have other : (c == '*') = false := by simpa using star
      by_cases even : Even (finalStars text)
      · simp [scanBody, even, other, star]
      · have plain : c ≠ '/' := by
          rintro rfl
          have some_star : finalStars text ≠ 0 := fun none => even (none ▸ Even.zero)
          obtain ⟨front, rfl⟩ := ends_with_star some_star
          exact unclosed ⟨front, [], by simp⟩
        simp [scanBody, even, plain, star]

/-- Only the rule for block comments goes on behind the start of one. -/
private theorem ruled_out : ∀ rule ∈ [(Action.ignore, whitespace), (.ignore, lineComment)] ++ tokenRules,
    ((rule.2.behind '/').behind '*').dead = true := by
  decide

private theorem munch_blockComment {rest : List Char} {length : Nat}
    (matched : blockComment.longest ('/' :: '*' :: rest) = some length) :
    munch rules ('/' :: '*' :: rest) = some (.ignore, length) := by
  obtain ⟨inside, here, _⟩ := longest_iff.mp matched
  have long : 1 < length := by
    obtain ⟨body, _, same⟩ := (mem_blockComment _).mp here
    have sizes := congrArg List.length same
    simp only [List.length_take, List.length_cons] at sizes
    omega
  apply munch_winner (Nat.zero_lt_of_lt long) matched
  · intro rule member other found
    exact Nat.lt_of_le_of_lt (longest_le_one (ruled_out rule (List.mem_append_left _ member)) found) long
  · intro rule member other found
    exact (longest_le_one (ruled_out rule (List.mem_append_right _ member)) found).trans long.le

/-- Whatever the rule for block comments matches leaves no token. -/
theorem lex_blockComment {rest : List Char} {length : Nat}
    (matched : blockComment.longest ('/' :: '*' :: rest) = some length) :
    lex ('/' :: '*' :: rest) = lex (('/' :: '*' :: rest).drop length) := by
  rw [lex, lexemes_of_munch (munch_blockComment matched), List.filterMap_cons]
  rfl

/-- No comment reaches over the end of a whole one. -/
private theorem scanBody_past {text rest body : List Char} (whole : scanBody false text = some false) (more : rest ≠ [])
    (same : body ++ ['*', '/'] = text ++ '*' :: '/' :: rest) : scanBody false body ≠ some false := by
  have some_rest := List.length_pos_iff.mpr more
  rcases List.append_eq_append_iff.mp same with ⟨tail, rfl, closing⟩ | ⟨tail, rfl, closing⟩
  · have sizes := congrArg List.length closing
    simp only [List.length_append, List.length_cons, List.length_nil] at sizes
    omega
  · rw [scanBody_append, whole]
    rcases tail with _ | ⟨star, _ | ⟨slash, tail⟩⟩
    · have sizes := congrArg List.length closing
      simp only [List.length_append, List.length_cons, List.length_nil] at sizes
      omega
    · obtain ⟨rfl, _⟩ := List.cons.inj closing
      simp [scanBody]
    · obtain ⟨rfl, others⟩ := List.cons.inj closing
      obtain ⟨rfl, _⟩ := List.cons.inj others
      simp [scanBody]

private theorem longest_whole {text : List Char} (whole : scanBody false text = some false) (rest : List Char) :
    blockComment.longest ('/' :: '*' :: (text ++ '*' :: '/' :: rest)) = some (text.length + 4) := by
  have shape : '/' :: '*' :: (text ++ '*' :: '/' :: rest) = '/' :: '*' :: (text ++ ['*', '/']) ++ rest := by simp
  have size : ('/' :: '*' :: (text ++ ['*', '/'])).length = text.length + 4 := by simp
  rw [longest_iff, shape, ← size]
  refine ⟨by simp, ?_, ?_⟩
  · rw [List.take_left]
    exact (mem_blockComment _).mpr ⟨text, whole, rfl⟩
  · intro longer low high inside
    obtain ⟨body, scanned, same⟩ := (mem_blockComment _).mp inside
    obtain ⟨count, rfl⟩ := Nat.exists_eq_add_of_lt low
    rw [Nat.add_assoc, List.take_length_add_append] at same
    have more : rest.take (count + 1) ≠ [] := by
      rw [List.length_append] at high
      apply List.ne_nil_of_length_pos
      rw [List.length_take]
      omega
    exact scanBody_past whole more (by simpa using same.symm) scanned

private theorem longest_everything {text : List Char} (inside : text ∈ blockComment.language) :
    blockComment.longest text = some text.length := by
  rw [longest_iff]
  exact ⟨Nat.le_refl _, by rwa [List.take_length], fun longer low high => absurd high (Nat.not_le.mpr low)⟩

/-- A block comment is skipped and nothing else exactly when an even number of stars stands
before its end mark. -/
theorem lex_comment_iff (text : List Char) (unclosed : ¬ ['*', '/'] <:+: text) :
    (∀ rest, lex ('/' :: '*' :: (text ++ '*' :: '/' :: rest)) = lex rest) ↔ Even (finalStars text) := by
  have scanned := scanBody_unclosed unclosed
  constructor
  · intro skipped
    by_contra odd
    have swallowed : '/' :: '*' :: (text ++ '*' :: '/' :: ";*/".toList) ∈ blockComment.language := by
      refine (mem_blockComment _).mpr ⟨text ++ ['*', '/', ';'], ?_, by simp⟩
      rw [scanBody_append, scanned]
      simp [scanBody, odd]
    have nothing := lex_blockComment (longest_everything swallowed)
    rw [List.drop_length, skipped] at nothing
    exact absurd nothing (by decide +kernel)
  · intro even rest
    have whole : scanBody false text = some false := by simpa [even] using scanned
    have shape : '/' :: '*' :: (text ++ '*' :: '/' :: rest) = '/' :: '*' :: (text ++ ['*', '/']) ++ rest := by simp
    have size : ('/' :: '*' :: (text ++ ['*', '/'])).length = text.length + 4 := by simp
    rw [lex_blockComment (longest_whole whole rest), shape, ← size, List.drop_left]

/-- The comment of the text `/***/x=true;/* */` runs to its end and takes the formula with it. -/
theorem comment_swallows_formula :
    ¬ ['*', '/'] <:+: ['*'] ∧
      lex ('/' :: '*' :: (['*'] ++ '*' :: '/' :: "x=true;/* */".toList)) = [] ∧
      lex "x=true;/* */".toList = [.ok (.id "x"), .ok .eq, .ok .true, .ok .semicolon] := by
  refine ⟨by decide, by decide +kernel, by decide +kernel⟩

theorem doubly_starred_comment_skipped :
    (∀ rest, lex ('/' :: '*' :: ("* note **".toList ++ '*' :: '/' :: rest)) = lex rest) ↔
      Even (finalStars "* note **".toList) :=
  lex_comment_iff "* note **".toList (by decide)

end Comment

end Lexer

end LtlFuzz.Monitor

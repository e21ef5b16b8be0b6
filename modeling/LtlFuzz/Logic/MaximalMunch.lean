import Mathlib.Computability.Language
import Mathlib.Computability.RegularExpressions

/-! Scanners that cut a text into lexemes: at every position the longest match of any
pattern wins, and among equally long ones the pattern listed first. A letter that no
pattern matches is passed over. Patterns are regular expressions over classes of letters,
matched by taking off one letter at a time. -/

namespace LtlFuzz.Logic

universe u v

inductive Pattern (α : Type u) where
  | nothing
  | empty
  | one (accepts : α → Bool)
  | either (first second : Pattern α)
  | andThen (first second : Pattern α)
  | many (pattern : Pattern α)

variable {α : Type u} {β : Type v}

namespace Pattern

def word [DecidableEq α] : List α → Pattern α
  | [] => empty
  | letter :: rest => andThen (one (· == letter)) (word rest)

def atLeastOnce (pattern : Pattern α) : Pattern α := andThen pattern (many pattern)

def optional (pattern : Pattern α) : Pattern α := either empty pattern

def language : Pattern α → Language α
  | nothing => 0
  | empty => 1
  | one accepts => {text | ∃ letter, accepts letter = true ∧ text = [letter]}
  | either first second => first.language + second.language
  | andThen first second => first.language * second.language
  | many pattern => KStar.kstar pattern.language

def nullable : Pattern α → Bool
  | nothing | one _ => false
  | empty | many _ => true
  | either first second => first.nullable || second.nullable
  | andThen first second => first.nullable && second.nullable

/-- What is left of a pattern behind a letter. -/
def behind (letter : α) : Pattern α → Pattern α
  | nothing | empty => nothing
  | one accepts => if accepts letter then empty else nothing
  | either first second => either (first.behind letter) (second.behind letter)
  | andThen first second =>
    if first.nullable then either (andThen (first.behind letter) second) (second.behind letter)
    else andThen (first.behind letter) second
  | many pattern => andThen (pattern.behind letter) (many pattern)

theorem mem_one {accepts : α → Bool} {text : List α} :
    text ∈ (one accepts).language ↔ ∃ letter, accepts letter = true ∧ text = [letter] := Iff.rfl

theorem nullable_iff (pattern : Pattern α) : pattern.nullable = true ↔ [] ∈ pattern.language := by
  induction pattern with
  | nothing => simp [nullable, language]
  | empty => simp [nullable, language]
  | one accepts => simp [nullable, mem_one]
  | either first second ihFirst ihSecond => simp [nullable, language, Language.mem_add, ihFirst, ihSecond]
  | andThen first second ihFirst ihSecond => simp [nullable, language, Language.mem_mul, ihFirst, ihSecond]
  | many pattern => simp [nullable, language, Language.nil_mem_kstar]

theorem mem_either {first second : Pattern α} {text : List α} :
    text ∈ (either first second).language ↔ text ∈ first.language ∨ text ∈ second.language := Iff.rfl

theorem mem_andThen {first second : Pattern α} {text : List α} :
    text ∈ (andThen first second).language ↔ ∃ one ∈ first.language, ∃ two ∈ second.language, one ++ two = text :=
  Language.mem_mul

theorem mem_word [DecidableEq α] {letters text : List α} : text ∈ (word letters).language ↔ text = letters := by
  induction letters generalizing text with
  | nil => exact Iff.rfl
  | cons letter letters ih =>
    rw [word, mem_andThen]
    constructor
    · rintro ⟨one, ⟨other, same, rfl⟩, two, rest, rfl⟩
      rw [ih.mp rest, beq_iff_eq.mp same]
      rfl
    · rintro rfl
      exact ⟨[letter], ⟨letter, beq_self_eq_true letter, rfl⟩, letters, ih.mpr rfl, rfl⟩

private theorem cons_mem_mul {first second : Language α} {letter : α} {text : List α} :
    letter :: text ∈ first * second ↔
      (∃ one two, letter :: one ∈ first ∧ two ∈ second ∧ text = one ++ two) ∨ ([] ∈ first ∧ letter :: text ∈ second) := by
  rw [Language.mem_mul]
  constructor
  · rintro ⟨one, inFirst, two, inSecond, same⟩
    cases one with
    | nil => exact Or.inr ⟨inFirst, by rwa [← same]⟩
    | cons other one =>
      obtain ⟨rfl, rfl⟩ := List.cons.inj same
      exact Or.inl ⟨one, two, inFirst, inSecond, rfl⟩
  · rintro (⟨one, two, inFirst, inSecond, rfl⟩ | ⟨blank, inSecond⟩)
    · exact ⟨letter :: one, inFirst, two, inSecond, rfl⟩
    · exact ⟨[], blank, letter :: text, inSecond, rfl⟩

/-- A repetition starts with a repeated text that is not empty. -/
theorem cons_mem_many {pattern : Pattern α} {letter : α} {text : List α} :
    letter :: text ∈ (many pattern).language ↔
      ∃ one two, letter :: one ∈ pattern.language ∧ two ∈ (many pattern).language ∧ text = one ++ two := by
  simp only [language]
  rw [Language.mem_kstar_iff_exists_nonempty]
  constructor
  · rintro ⟨parts, same, all⟩
    cases parts with
    | nil => cases same
    | cons part parts =>
      obtain ⟨inside, some_letter⟩ := all part List.mem_cons_self
      obtain ⟨other, rest, rfl⟩ := List.exists_cons_of_ne_nil some_letter
      obtain ⟨rfl, rfl⟩ := List.cons.inj same
      exact ⟨rest, parts.flatten, inside, Language.join_mem_kstar fun other member =>
        (all other (List.mem_cons_of_mem _ member)).1, rfl⟩
  · rintro ⟨one, two, inside, rest, rfl⟩
    rw [Language.mem_kstar_iff_exists_nonempty] at rest
    obtain ⟨parts, rfl, all⟩ := rest
    exact ⟨(letter :: one) :: parts, rfl, List.forall_mem_cons.mpr ⟨⟨inside, List.cons_ne_nil _ _⟩, all⟩⟩

theorem mem_behind (pattern : Pattern α) (letter : α) (text : List α) :
    text ∈ (pattern.behind letter).language ↔ letter :: text ∈ pattern.language := by
  induction pattern generalizing text with
  | nothing => simp [behind, language]
  | empty => simp [behind, language]
  | one accepts =>
    rw [mem_one]
    by_cases accepted : accepts letter = true
    · simp [behind, language, accepted, Language.mem_one]
    · simp [behind, language, accepted]
  | either first second ihFirst ihSecond => simp [behind, language, Language.mem_add, ihFirst, ihSecond]
  | andThen first second ihFirst ihSecond =>
    have split : text ∈ (first.behind letter).language * second.language ↔
        ∃ one two, letter :: one ∈ first.language ∧ two ∈ second.language ∧ text = one ++ two := by
      simp only [Language.mem_mul, ihFirst]
      constructor
      · rintro ⟨one, inFirst, two, inSecond, rfl⟩
        exact ⟨one, two, inFirst, inSecond, rfl⟩
      · rintro ⟨one, two, inFirst, inSecond, rfl⟩
        exact ⟨one, inFirst, two, inSecond, rfl⟩
    simp only [language]
    rw [cons_mem_mul, ← split, ← nullable_iff, ← ihSecond]
    by_cases blank : first.nullable = true
    · simp [behind, language, blank, Language.mem_add]
    · simp [behind, language, blank]
  | many pattern ih =>
    rw [behind, mem_andThen, cons_mem_many]
    constructor
    · rintro ⟨one, inside, two, rest, rfl⟩
      exact ⟨one, two, (ih one).mp inside, rest, rfl⟩
    · rintro ⟨one, two, inside, rest, rfl⟩
      exact ⟨one, (ih one).mpr inside, two, rest, rfl⟩

/-- The length of the longest match at the start of a text. -/
def longest : Pattern α → List α → Option Nat
  | pattern, [] => if pattern.nullable then some 0 else none
  | pattern, letter :: text =>
    match longest (pattern.behind letter) text with
    | some length => some (length + 1)
    | none => if pattern.nullable then some 0 else none

/-- A start of the text that matches, and none that is longer does. -/
structure Longest (pattern : Pattern α) (text : List α) (length : Nat) : Prop where
  inside : length ≤ text.length
  here : text.take length ∈ pattern.language
  beyond : ∀ longer, length < longer → longer ≤ text.length → text.take longer ∉ pattern.language

private theorem longest_correct (pattern : Pattern α) (text : List α) :
    (∀ length, pattern.longest text = some length → Longest pattern text length) ∧
      (pattern.longest text = none → ∀ length ≤ text.length, text.take length ∉ pattern.language) := by
  induction text generalizing pattern with
  | nil =>
    by_cases blank : pattern.nullable = true
    · refine ⟨fun length found => ?_, fun missing => absurd missing (by simp [longest, blank])⟩
      obtain rfl : 0 = length := by simpa [longest, blank] using found
      exact ⟨Nat.le_refl _, (nullable_iff pattern).mp blank, fun longer low high => absurd high (by simpa using low.ne')⟩
    · refine ⟨fun length found => absurd found (by simp [longest, blank]), fun _ length _ => ?_⟩
      rw [List.take_nil]
      exact fun inside => blank ((nullable_iff pattern).mpr inside)
  | cons letter text ih =>
    obtain ⟨found, missing⟩ := ih (pattern.behind letter)
    have step (length : Nat) : (letter :: text).take (length + 1) ∈ pattern.language ↔
        text.take length ∈ (pattern.behind letter).language := by
      rw [mem_behind, List.take_succ_cons]
    cases inner : longest (pattern.behind letter) text with
    | some length =>
      obtain ⟨inside, here, beyond⟩ := found length inner
      refine ⟨fun result same => ?_, fun none => absurd none (by simp [longest, inner])⟩
      obtain rfl : length + 1 = result := by simpa [longest, inner] using same
      refine ⟨Nat.succ_le_succ inside, (step length).mpr here, fun longer low high => ?_⟩
      obtain ⟨longer, rfl⟩ := Nat.exists_eq_add_of_lt (Nat.zero_lt_of_lt low)
      rw [Nat.zero_add, step]
      exact beyond longer (by omega) (by simpa using high)
    | none =>
      have longer (length : Nat) (low : 0 < length) (high : length ≤ (letter :: text).length) :
          (letter :: text).take length ∉ pattern.language := by
        obtain ⟨length, rfl⟩ := Nat.exists_eq_add_of_lt low
        rw [Nat.zero_add, step]
        exact missing inner length (by simpa using high)
      by_cases blank : pattern.nullable = true
      · refine ⟨fun result same => ?_, fun none => absurd none (by simp [longest, inner, blank])⟩
        obtain rfl : 0 = result := by simpa [longest, inner, blank] using same
        exact ⟨Nat.zero_le _, (nullable_iff pattern).mp blank, longer⟩
      · refine ⟨fun result same => absurd same (by simp [longest, inner, blank]), fun _ length bound => ?_⟩
        cases length with
        | zero => exact fun inside => blank ((nullable_iff pattern).mpr inside)
        | succ length => exact longer _ (Nat.succ_pos _) bound

theorem longest_iff {pattern : Pattern α} {text : List α} {length : Nat} :
    pattern.longest text = some length ↔ Longest pattern text length := by
  obtain ⟨found, missing⟩ := longest_correct pattern text
  refine ⟨found length, fun longest => ?_⟩
  cases result : pattern.longest text with
  | none => exact absurd longest.here (missing result _ longest.inside)
  | some other =>
    have same := found other result
    rcases Nat.lt_trichotomy length other with less | rfl | more
    · exact absurd same.here (longest.beyond other less same.inside)
    · rfl
    · exact absurd longest.here (same.beyond length more longest.inside)

/-- No text matches, as far as the shape of the pattern tells. -/
def dead : Pattern α → Bool
  | nothing => true
  | empty | one _ | many _ => false
  | either first second => first.dead && second.dead
  | andThen first second => first.dead || second.dead

theorem not_mem_of_dead {pattern : Pattern α} (isDead : pattern.dead = true) (text : List α) : text ∉ pattern.language := by
  induction pattern generalizing text with
  | nothing => exact Language.notMem_zero text
  | empty | one _ | many _ => cases isDead
  | either first second ihFirst ihSecond =>
    simp only [dead, Bool.and_eq_true] at isDead
    rintro (inside | inside)
    · exact ihFirst isDead.1 text inside
    · exact ihSecond isDead.2 text inside
  | andThen first second ihFirst ihSecond =>
    simp only [dead, Bool.or_eq_true] at isDead
    rintro ⟨one, inFirst, two, inSecond, _⟩
    rcases isDead with gone | gone
    · exact ihFirst gone one inFirst
    · exact ihSecond gone two inSecond

/-- A pattern that two letters rule out matches one letter at most. -/
theorem longest_le_one {pattern : Pattern α} {first second : α}
    (ruledOut : ((pattern.behind first).behind second).dead = true) {text : List α} {length : Nat}
    (found : pattern.longest (first :: second :: text) = some length) : length ≤ 1 := by
  have here := (longest_iff.mp found).here
  rcases length with _ | _ | length
  · exact Nat.zero_le 1
  · exact Nat.le_refl 1
  · rw [List.take_succ_cons, List.take_succ_cons, ← mem_behind, ← mem_behind] at here
    exact absurd here (not_mem_of_dead ruledOut _)

end Pattern

/-- The winner at the start of a text, and how much of it it matches. -/
def munch : List (β × Pattern α) → List α → Option (β × Nat)
  | [], _ => none
  | (name, pattern) :: rules, text =>
    match (pattern.longest text).filter (0 < ·), munch rules text with
    | none, later => later
    | some length, some (other, longer) => if length < longer then some (other, longer) else some (name, length)
    | some length, none => some (name, length)

def lexemesWithin (rules : List (β × Pattern α)) : Nat → List α → List (β × List α)
  | 0, _ => []
  | fuel + 1, text =>
    match munch rules text with
    | some (name, length) => (name, text.take length) :: lexemesWithin rules fuel (text.drop length)
    | none => lexemesWithin rules fuel text.tail

/-- The lexemes of a text, each with the name of its rule. -/
def lexemes (rules : List (β × Pattern α)) (text : List α) : List (β × List α) := lexemesWithin rules text.length text

section Munch

variable {rules before after : List (β × Pattern α)} {name : β} {pattern : Pattern α} {text : List α} {length : Nat}

/-- The winner is a match of one of the rules. -/
theorem munch_matched (found : munch rules text = some (name, length)) :
    ∃ rule ∈ rules, rule.2.longest text = some length ∧ 0 < length := by
  induction rules generalizing name length with
  | nil => cases found
  | cons rule rules ih =>
    obtain ⟨first, pattern⟩ := rule
    have others {winner : β} {size : Nat} (won : munch rules text = some (winner, size)) :
        ∃ rule ∈ (first, pattern) :: rules, rule.2.longest text = some size ∧ 0 < size := by
      obtain ⟨other, member, matched⟩ := ih won
      exact ⟨other, List.mem_cons_of_mem _ member, matched⟩
    simp only [munch] at found
    cases mine : (pattern.longest text).filter (0 < ·) with
    | none => exact others (by simpa [mine] using found)
    | some size =>
      obtain ⟨matched, positive⟩ := Option.filter_eq_some_iff.mp mine
      have own : ∃ rule ∈ (first, pattern) :: rules, rule.2.longest text = some size ∧ 0 < size :=
        ⟨_, List.mem_cons_self, matched, by simpa using positive⟩
      cases later : munch rules text with
      | none =>
        simp only [mine, later, Option.some.injEq, Prod.mk.injEq] at found
        rw [← found.2]
        exact own
      | some winner =>
        simp only [mine, later] at found
        split at found
        · exact others (by rw [later]; exact found)
        · cases found
          exact own

theorem munch_pos (found : munch rules text = some (name, length)) : 0 < length := by
  obtain ⟨_, _, _, positive⟩ := munch_matched found
  exact positive

private theorem munch_le {bound : Nat}
    (bounded : ∀ rule ∈ rules, ∀ length, rule.2.longest text = some length → length ≤ bound)
    (found : munch rules text = some (name, length)) : length ≤ bound := by
  obtain ⟨rule, member, matched, _⟩ := munch_matched found
  exact bounded rule member length matched

/-- A rule wins if its match is longer than those of the rules before it and no shorter
than those of the rules after it. -/
theorem munch_winner (positive : 0 < length) (matched : pattern.longest text = some length)
    (earlier : ∀ rule ∈ before, ∀ other, rule.2.longest text = some other → other < length)
    (later : ∀ rule ∈ after, ∀ other, rule.2.longest text = some other → other ≤ length) :
    munch (before ++ (name, pattern) :: after) text = some (name, length) := by
  induction before with
  | nil =>
    have mine : (pattern.longest text).filter (0 < ·) = some length := by simp [matched, positive]
    simp only [List.nil_append, munch, mine]
    cases rest : munch after text with
    | none => rfl
    | some winner =>
      have small := munch_le later rest
      exact if_neg (by omega)
  | cons rule before ih =>
    obtain ⟨first, other⟩ := rule
    have rest := ih fun rule member => earlier rule (List.mem_cons_of_mem _ member)
    simp only [List.cons_append, munch, rest]
    cases mine : (other.longest text).filter (0 < ·) with
    | none => rfl
    | some size =>
      have small := earlier _ List.mem_cons_self size (Option.filter_eq_some_iff.mp mine).1
      exact if_pos small

end Munch

section Lexemes

variable {rules : List (β × Pattern α)}

private theorem munch_nil : munch rules [] = none := by
  cases found : munch rules [] with
  | none => rfl
  | some winner =>
    have bounded : ∀ rule ∈ rules, ∀ length, rule.2.longest [] = some length → length ≤ 0 :=
      fun _ _ length matched => (Pattern.longest_iff.mp matched).inside
    have positive := munch_pos found
    have small := munch_le bounded found
    omega

private theorem lexemesWithin_step (fuel : Nat) (text : List α) :
    lexemesWithin rules (fuel + 1) text =
      match munch rules text with
      | some (name, length) => (name, text.take length) :: lexemesWithin rules fuel (text.drop length)
      | none => lexemesWithin rules fuel text.tail := rfl

private theorem lexemesWithin_succ (fuel : Nat) {text : List α} (enough : text.length ≤ fuel) :
    lexemesWithin rules (fuel + 1) text = lexemesWithin rules fuel text := by
  induction fuel generalizing text with
  | zero =>
    obtain rfl := List.length_eq_zero_iff.mp (Nat.le_zero.mp enough)
    simp [lexemesWithin, munch_nil]
  | succ fuel ih =>
    rw [lexemesWithin_step (fuel + 1) text, lexemesWithin_step fuel text]
    cases found : munch rules text with
    | none =>
      have shorter : text.tail.length ≤ fuel := by
        rw [List.length_tail]
        omega
      exact ih shorter
    | some winner =>
      have positive := munch_pos found
      have shorter : (text.drop winner.2).length ≤ fuel := by
        rw [List.length_drop]
        omega
      simp only [ih shorter]

private theorem lexemesWithin_enough (fuel : Nat) {text : List α} (enough : text.length ≤ fuel) :
    lexemesWithin rules fuel text = lexemes rules text := by
  induction fuel, enough using Nat.le_induction with
  | base => rfl
  | succ fuel enough ih => rw [lexemesWithin_succ fuel enough, ih]

/-- The first lexeme is the match that wins, and the others are those of the text behind it. -/
theorem lexemes_of_munch {name : β} {length : Nat} {text : List α} (found : munch rules text = some (name, length)) :
    lexemes rules text = (name, text.take length) :: lexemes rules (text.drop length) := by
  cases text with
  | nil =>
    rw [munch_nil] at found
    cases found
  | cons letter text =>
    have positive := munch_pos found
    have shorter : ((letter :: text).drop length).length ≤ text.length := by
      rw [List.length_drop, List.length_cons]
      omega
    rw [lexemes, List.length_cons, lexemesWithin, found]
    simp only [lexemesWithin_enough text.length shorter]

end Lexemes

end LtlFuzz.Logic

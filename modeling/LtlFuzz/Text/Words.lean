import LtlFuzz.Text.Numbers

/-! Reading a line word by word, as a formatted input stream does (blanks separate words
and are never part of one), and searching a line for a word. -/

namespace LtlFuzz.Text

/-- The word that starts here, if there is one, followed by the words after it. -/
def flushWord : List Char × List (List Char) → List (List Char)
  | ([], done) => done
  | (word, done) => word :: done

def scanWords : List Char → List Char × List (List Char)
  | [] => ([], [])
  | c :: rest => if isSpace c then ([], flushWord (scanWords rest)) else (c :: (scanWords rest).1, (scanWords rest).2)

def words (text : List Char) : List (List Char) := flushWord (scanWords text)

private theorem scanWords_append {word : List Char} (solid : ∀ c ∈ word, isSpace c = false) (rest : List Char) :
    scanWords (word ++ rest) = (word ++ (scanWords rest).1, (scanWords rest).2) := by
  induction word with
  | nil => rfl
  | cons c word ih =>
    have inner := ih fun other member => solid other (List.mem_cons_of_mem _ member)
    have visible := solid c List.mem_cons_self
    simp [scanWords, visible, inner]

private theorem scanWords_blank (rest : List Char) : scanWords (' ' :: rest) = ([], words rest) := by
  rw [scanWords, if_pos (by decide)]
  rfl

private theorem flushWord_word {word : List Char} (nonempty : word ≠ []) (done : List (List Char)) :
    flushWord (word, done) = word :: done := by
  cases word with
  | nil => exact absurd rfl nonempty
  | cons c word => rfl

theorem words_append_blank {word : List Char} (nonempty : word ≠ []) (solid : ∀ c ∈ word, isSpace c = false)
    (rest : List Char) : words (word ++ ' ' :: rest) = word :: words rest := by
  rw [words, scanWords_append solid, scanWords_blank, List.append_nil]
  exact flushWord_word nonempty _

theorem words_last {word : List Char} (nonempty : word ≠ []) (solid : ∀ c ∈ word, isSpace c = false) :
    words word = [word] := by
  have scanned := scanWords_append solid []
  rw [List.append_nil, scanWords, List.append_nil] at scanned
  rw [words, scanned]
  exact flushWord_word nonempty _

private theorem scanWords_trailing {c : Char} (blank : isSpace c = true) (text : List Char) :
    scanWords (text ++ [c]) = scanWords text := by
  induction text with
  | nil => simp [scanWords, blank, flushWord]
  | cons d text ih => simp only [List.cons_append, scanWords, ih]

theorem words_trailing {c : Char} (blank : isSpace c = true) (text : List Char) : words (text ++ [c]) = words text := by
  rw [words, scanWords_trailing blank, words]

/-- A word of a line: something is written and none of it is blank. -/
def IsWord (word : List Char) : Prop := word ≠ [] ∧ ∀ c ∈ word, isSpace c = false

private theorem flushWord_isWord {word : List Char} {done : List (List Char)} (solid : ∀ c ∈ word, isSpace c = false)
    (all : ∀ other ∈ done, IsWord other) : ∀ other ∈ flushWord (word, done), IsWord other := by
  cases word with
  | nil => exact all
  | cons c word => exact List.forall_mem_cons.mpr ⟨⟨List.cons_ne_nil _ _, solid⟩, all⟩

/-- Everything read from a line is a word. -/
theorem words_isWord (text : List Char) : ∀ word ∈ words text, IsWord word := by
  have scanned : (∀ c ∈ (scanWords text).1, isSpace c = false) ∧ ∀ word ∈ (scanWords text).2, IsWord word := by
    induction text with
    | nil => simp [scanWords]
    | cons c text ih =>
      rw [scanWords]
      split
      · refine ⟨by simp, ?_⟩
        exact flushWord_isWord ih.1 ih.2
      next visible => exact ⟨List.forall_mem_cons.mpr ⟨by simpa using visible, ih.1⟩, ih.2⟩
  exact flushWord_isWord scanned.1 scanned.2

theorem words_intercalate {line : List (List Char)} (solid : ∀ word ∈ line, IsWord word) :
    words ([' '].intercalate line) = line := by
  induction line with
  | nil => rfl
  | cons word rest ih =>
    obtain ⟨nonempty, visible⟩ := solid word List.mem_cons_self
    have later := ih fun other member => solid other (List.mem_cons_of_mem _ member)
    cases rest with
    | nil => simpa using words_last nonempty visible
    | cons next rest =>
      rw [List.intercalate_cons_cons, List.append_assoc, List.singleton_append,
        words_append_blank nonempty visible, later]

theorem intercalate_append {front back : List (List Char)} (first : front ≠ []) (second : back ≠ []) :
    [' '].intercalate (front ++ back) = [' '].intercalate front ++ ' ' :: [' '].intercalate back := by
  induction front with
  | nil => exact absurd rfl first
  | cons word rest ih =>
    obtain ⟨next, later, rfl⟩ := List.exists_cons_of_ne_nil second
    cases rest with
    | nil => simp
    | cons other rest =>
      have inner := ih (List.cons_ne_nil _ _)
      simp only [List.cons_append, List.intercalate_cons_cons, List.append_assoc] at inner ⊢
      rw [inner]

theorem length_intercalate_le (line : List (List Char)) :
    ([' '].intercalate line).length ≤ (line.map fun word => word.length + 1).sum := by
  induction line with
  | nil => simp
  | cons word rest ih =>
    cases rest with
    | nil => simp
    | cons next rest =>
      simp only [List.intercalate_cons_cons, List.length_append, List.length_singleton, List.map_cons, List.sum_cons] at ih ⊢
      omega

/-- `strcasecmp` and `strncasecmp` find no difference. -/
def equalIgnoringCase (left right : List Char) : Bool := left.map Char.toLower == right.map Char.toLower

def strstr (haystack needle : List Char) : Bool :=
  match haystack with
  | [] => needle.isPrefixOf []
  | c :: rest => needle.isPrefixOf (c :: rest) || strstr rest needle

theorem strstr_append (needle rest : List Char) : strstr (needle ++ rest) needle = true := by
  cases found : needle ++ rest with
  | nil =>
    have empty : needle = [] := (List.append_eq_nil_iff.mp found).1
    subst empty
    rfl
  | cons c tail =>
    have leading : needle.isPrefixOf (c :: tail) = true := by
      rw [← found]
      exact List.isPrefixOf_iff_prefix.mpr (List.prefix_append _ _)
    simp [strstr, leading]

/-- Whatever contains the word has all its letters. -/
theorem mem_of_strstr {haystack needle : List Char} (found : strstr haystack needle = true) {letter : Char}
    (part : letter ∈ needle) : letter ∈ haystack := by
  induction haystack with
  | nil =>
    have leading := List.isPrefixOf_iff_prefix.mp found
    exact leading.subset part
  | cons c rest ih =>
    simp only [strstr, Bool.or_eq_true] at found
    rcases found with leading | later
    · exact (List.isPrefixOf_iff_prefix.mp leading).subset part
    · exact List.mem_cons_of_mem _ (ih later)

end LtlFuzz.Text

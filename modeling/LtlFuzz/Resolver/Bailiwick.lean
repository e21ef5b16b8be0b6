import LtlFuzz.Resolver.DnsWire
import LtlFuzz.Resolver.NameText
import LtlFuzz.Text.Letters

/-! `_is_in_bailiwick` of `predicate_adapter.py` compares names as dotted text. It respects the
borders of labels except where the zone ends a longer label. -/

namespace LtlFuzz.Resolver
open Text (toLower_toNat char_ext)

theorem readable_of_all {text : List Char} (ascii : text.all (fun c => decide (c.toNat < 128)) = true) :
    ∀ c ∈ text, Readable c :=
  fun c member => .inl (of_decide_eq_true (List.all_eq_true.mp ascii c member))

section Splitting

theorem toLower_eq_dot (c : Char) : c.toLower = '.' ↔ c = '.' := by
  constructor
  · intro lowered
    have value : c.toLower.toNat = 46 := congrArg Char.toNat lowered
    rw [toLower_toNat] at value
    split at value
    next upper => omega
    next => exact char_ext value
  · rintro rfl
    rfl

theorem not_mem_of_mem_splitOn {text label : List Char} (member : label ∈ text.splitOn '.') : '.' ∉ label := by
  induction text generalizing label with
  | nil =>
    rw [List.splitOn_nil, List.mem_singleton] at member
    simp [member]
  | cons c text ih =>
    rw [List.splitOn_cons_eq_if_modifyHead] at member
    by_cases dot : c = '.'
    · simp only [dot, beq_self_eq_true, if_true, List.mem_cons] at member
      rcases member with rfl | later
      · simp
      · exact ih later
    · simp only [beq_iff_eq, if_neg dot] at member
      cases split : text.splitOn '.' with
      | nil => simp [split] at member
      | cons first rest =>
        rw [split, List.modifyHead_cons, List.mem_cons] at member
        rcases member with rfl | later
        · have inside : '.' ∉ first := ih (by simp [split])
          simp [inside, Ne.symm dot]
        · exact ih (by simp [split, later])

theorem splitOn_toLower (text : List Char) :
    (text.map Char.toLower).splitOn '.' = (text.splitOn '.').map fun label => label.map Char.toLower := by
  induction text with
  | nil => rfl
  | cons c text ih =>
    rw [List.map_cons, List.splitOn_cons_eq_if_modifyHead, List.splitOn_cons_eq_if_modifyHead, ih]
    by_cases dot : c = '.'
    · simp [dot, (toLower_eq_dot '.').mpr rfl]
    · have apart : c.toLower ≠ '.' := fun lowered => dot ((toLower_eq_dot c).mp lowered)
      simp only [beq_iff_eq, if_neg dot, if_neg apart]
      cases text.splitOn '.' <;> simp

theorem rstripDots_toLower (name : List Char) : rstripDots (name.map Char.toLower) = (rstripDots name).map Char.toLower := by
  have same : ((· == '.') ∘ Char.toLower) = (· == '.') := by
    funext c
    simp [Bool.beq_eq_decide_eq, toLower_eq_dot]
  rw [rstripDots, rstripDots, List.rdropWhile, List.rdropWhile, ← List.map_reverse, List.dropWhile_map, same,
    List.map_reverse]

end Splitting

section Labels

/-- The labels of a name, the root of which has none. -/
def labelsOf (name : List Char) : List (List Char) :=
  if rstripDots name = [] then [] else (rstripDots name).splitOn '.'

/-- The labels up to letter case. -/
def foldedLabels (name : List Char) : List (List Char) := (labelsOf name).map fun label => label.map Char.toLower

/-- The record's labels end with the last two of the query name. -/
def InZone (rrName queryName : List Char) : Prop :=
  (foldedLabels queryName).drop ((foldedLabels queryName).length - 2) <:+ foldedLabels rrName

/-- The record's last label is that of the query name, and the one before only ends with the
query name's. -/
def Misaligned (rrName queryName : List Char) : Prop :=
  ∃ front back label zone last, foldedLabels rrName = front ++ [label, last] ∧
    foldedLabels queryName = back ++ [zone, last] ∧ zone <:+ label ∧ zone ≠ label

theorem foldedLabels_eq (name : List Char) : foldedLabels name =
    if rstripDots (name.map Char.toLower) = [] then [] else (rstripDots (name.map Char.toLower)).splitOn '.' := by
  rw [foldedLabels, labelsOf, rstripDots_toLower, splitOn_toLower]
  by_cases root : rstripDots name = [] <;> simp [root]

theorem joinLabels_foldedLabels (name : List Char) : joinLabels (foldedLabels name) = rstripDots (name.map Char.toLower) := by
  rw [foldedLabels_eq]
  split
  next root => rw [root, joinLabels_nil]
  next => exact List.intercalate_splitOn '.'

theorem dot_not_mem_foldedLabels (name : List Char) {label : List Char} (member : label ∈ foldedLabels name) : '.' ∉ label := by
  rw [foldedLabels_eq] at member
  split at member
  next => cases member
  next => exact not_mem_of_mem_splitOn member

theorem dot_unique {first second one two : List Char} (same : first ++ '.' :: one = second ++ '.' :: two) (freeOne : '.' ∉ one)
    (freeTwo : '.' ∉ two) : first = second ∧ one = two := by
  rcases List.append_eq_append_iff.mp same with ⟨between, rfl, rest⟩ | ⟨between, rfl, rest⟩
  · cases between with
    | nil => simpa using rest
    | cons c between =>
      rw [List.cons_append, List.cons.injEq] at rest
      exact absurd (rest.2 ▸ by simp) freeOne
  · cases between with
    | nil => simpa [eq_comm] using rest
    | cons c between =>
      rw [List.cons_append, List.cons.injEq] at rest
      exact absurd (rest.2 ▸ by simp) freeTwo

theorem joinLabels_concat {front : List (List Char)} (label : List Char) (nonempty : front ≠ []) :
    joinLabels (front ++ [label]) = joinLabels front ++ '.' :: label := by
  induction front with
  | nil => exact absurd rfl nonempty
  | cons first front ih =>
    cases front with
    | nil => simp [joinLabels_cons_cons]
    | cons second front =>
      have later := ih (List.cons_ne_nil _ _)
      rw [List.cons_append] at later
      simp [joinLabels_cons_cons, later]

/-- A text without dots that ends a name ends its last label. -/
theorem suffix_last_label {zone label : List Char} {front : List (List Char)} (free : '.' ∉ zone) :
    zone <:+ joinLabels (front ++ [label]) ↔ zone <:+ label := by
  by_cases single : front = []
  · rw [single, List.nil_append, joinLabels_singleton]
  · rw [joinLabels_concat label single]
    constructor
    · intro ending
      have tail : '.' :: label <:+ joinLabels front ++ '.' :: label := List.suffix_append _ _
      rcases List.suffix_or_suffix_of_suffix ending tail with within | beyond
      · rcases List.suffix_cons_iff.mp within with rfl | inside
        · exact absurd List.mem_cons_self free
        · exact inside
      · exact absurd (beyond.subset List.mem_cons_self) free
    · intro ending
      exact ending.trans ((List.suffix_cons _ _).trans (List.suffix_append _ _))

/-- Where a dotted pair of labels ends a name as text. -/
theorem suffix_joinLabels {zone last : List Char} {labels : List (List Char)} (zoneFree : '.' ∉ zone) (lastFree : '.' ∉ last)
    (free : ∀ label ∈ labels, '.' ∉ label) : zone ++ '.' :: last <:+ joinLabels labels ↔
      ∃ front label, labels = front ++ [label, last] ∧ zone <:+ label := by
  constructor
  · rintro ⟨before, same⟩
    rcases List.eq_nil_or_concat labels with rfl | ⟨labels, final, rfl⟩
    · simp at same
    rw [List.concat_eq_append] at same free
    have finalFree := free final (by simp)
    rcases List.eq_nil_or_concat labels with rfl | ⟨front, label, rfl⟩
    · rw [List.nil_append, joinLabels_singleton] at same
      exact absurd (same ▸ by simp) finalFree
    rw [List.concat_eq_append] at same
    rw [joinLabels_concat final (by simp), ← List.append_assoc] at same
    obtain ⟨ending, rfl⟩ := dot_unique same lastFree finalFree
    refine ⟨front, label, by simp, ?_⟩
    rw [← suffix_last_label zoneFree, ← ending]
    exact List.suffix_append _ _
  · rintro ⟨front, label, rfl, ending⟩
    have pair : front ++ [label, last] = (front ++ [label]) ++ [last] := by simp
    rw [pair, joinLabels_concat last (by simp)]
    have inner : zone <:+ joinLabels (front ++ [label]) := (suffix_last_label zoneFree).mpr ending
    obtain ⟨before, split⟩ := inner
    exact ⟨before, by rw [← split, List.append_assoc]⟩

end Labels

section Bailiwick

variable {lower : List Char → List Char} {rrName queryName : List Char}

/-- What the comparison of text comes to. -/
theorem isInBailiwick_iff (lowers : LowersNames lower) (readableRr : ∀ c ∈ rrName, Readable c)
    (readableQuery : ∀ c ∈ queryName, Readable c) {back : List (List Char)} {zone last : List Char}
    (asked : foldedLabels queryName = back ++ [zone, last]) : isInBailiwick lower rrName queryName = true ↔
      rrName = [] ∨ ∃ front label, foldedLabels rrName = front ++ [label, last] ∧ zone <:+ label := by
  have named : queryName ≠ [] := by
    rintro rfl
    rw [foldedLabels_eq] at asked
    simp [rstripDots] at asked
  have parts : (rstripDots (lower queryName)).splitOn '.' = back ++ [zone, last] := by
    rw [lowers queryName readableQuery, ← asked, foldedLabels_eq, if_neg]
    intro root
    rw [foldedLabels_eq, if_pos root] at asked
    simp at asked
  have ending : joinLabels ((back ++ [zone, last]).drop ((back ++ [zone, last]).length - 2)) = zone ++ '.' :: last := by
    simp [joinLabels_cons_cons]
  have enough : ¬ (back ++ [zone, last]).length < 2 := by simp
  have zoneFree : '.' ∉ zone := dot_not_mem_foldedLabels queryName (by simp [asked])
  have lastFree : '.' ∉ last := dot_not_mem_foldedLabels queryName (by simp [asked])
  by_cases nameless : rrName = []
  · simp [isInBailiwick, nameless]
  · rw [isInBailiwick, if_neg (by simp [nameless, named])]
    simp only [parts, if_neg enough, ending, lowers rrName readableRr, ← joinLabels_foldedLabels]
    rw [← suffix_joinLabels zoneFree lastFree fun label => dot_not_mem_foldedLabels rrName]
    simp only [nameless, false_or, Bool.or_eq_true, List.isSuffixOf_iff_suffix, beq_iff_eq, or_iff_left_iff_imp]
    intro whole
    exact whole ▸ List.suffix_refl _

private theorem exists_last_two {labels : List (List Char)} (long : 2 ≤ labels.length) :
    ∃ back zone last, labels = back ++ [zone, last] := by
  rcases List.eq_nil_or_concat labels with rfl | ⟨labels, last, rfl⟩
  · simp at long
  rcases List.eq_nil_or_concat labels with rfl | ⟨back, zone, rfl⟩
  · simp at long
  · exact ⟨back, zone, last, by simp⟩

/-- The bailiwick check respects the borders of labels for every record but one without a name,
and one whose label before the last only ends with the query name's. -/
theorem isInBailiwick_exact_iff (lower : List Char → List Char) (rrName queryName : List Char) (lowers : LowersNames lower)
    (readableRr : ∀ c ∈ rrName, Readable c) (readableQuery : ∀ c ∈ queryName, Readable c)
    (long : 2 ≤ (labelsOf queryName).length) :
    (isInBailiwick lower rrName queryName = true ↔ InZone rrName queryName) ↔
      rrName ≠ [] ∧ ¬ Misaligned rrName queryName := by
  have pair : 2 ≤ (foldedLabels queryName).length := by simpa [foldedLabels] using long
  obtain ⟨back, zone, last, asked⟩ := exists_last_two pair
  have inZone : InZone rrName queryName ↔ ∃ front, foldedLabels rrName = front ++ [zone, last] := by
    rw [InZone, asked]
    simp [List.IsSuffix, eq_comm]
  have misaligned : Misaligned rrName queryName ↔
      ∃ front label, foldedLabels rrName = front ++ [label, last] ∧ zone <:+ label ∧ zone ≠ label := by
    constructor
    · rintro ⟨front, other, label, ending, final, split, same, shorter, different⟩
      rw [asked] at same
      obtain ⟨_, pair⟩ := List.append_inj' same rfl
      simp only [List.cons.injEq, and_true] at pair
      obtain ⟨rfl, rfl⟩ := pair
      exact ⟨front, label, split, shorter, different⟩
    · rintro ⟨front, label, split, shorter, different⟩
      exact ⟨front, back, label, zone, last, split, asked, shorter, different⟩
  rw [isInBailiwick_iff lowers readableRr readableQuery asked, inZone, misaligned]
  by_cases nameless : rrName = []
  · subst nameless
    have root : foldedLabels [] = [] := rfl
    simp [root]
  · simp only [nameless, false_or, ne_eq, not_false_eq_true, true_and]
    constructor
    · rintro exact ⟨front, label, split, shorter, different⟩
      obtain ⟨other, same⟩ := exact.mp ⟨front, label, split, shorter⟩
      rw [split] at same
      have pair := (List.append_inj' same rfl).2
      simp only [List.cons.injEq, and_true] at pair
      exact different pair.symm
    · intro aligned
      constructor
      · rintro ⟨front, label, split, shorter⟩
        by_cases same : zone = label
        · exact ⟨front, same ▸ split⟩
        · exact absurd ⟨front, label, split, shorter, same⟩ aligned
      · rintro ⟨front, split⟩
        exact ⟨front, zone, split, List.suffix_refl _⟩

def askedName : List Char := "www.Example.com.".toList

def poisonName : List Char := "evilexample.com.".toList

/-- The zone ends a label of another zone. -/
theorem poisonName_accepted :
    isInBailiwick (List.map Char.toLower) poisonName askedName = true ∧ 2 ≤ (labelsOf askedName).length ∧
      ¬ InZone poisonName askedName := by
  refine ⟨by decide, by decide, ?_⟩
  unfold InZone
  decide

theorem siblingName_exact_iff :
    (isInBailiwick (List.map Char.toLower) "mail.example.COM.".toList askedName = true ↔
      InZone "mail.example.COM.".toList askedName) ↔
        "mail.example.COM.".toList ≠ [] ∧ ¬ Misaligned "mail.example.COM.".toList askedName :=
  isInBailiwick_exact_iff (List.map Char.toLower) "mail.example.COM.".toList askedName lowersNames_map
    (readable_of_all rfl) (readable_of_all rfl) (by decide)

end Bailiwick

end LtlFuzz.Resolver

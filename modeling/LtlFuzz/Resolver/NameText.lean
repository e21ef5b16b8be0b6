import LtlFuzz.Resolver.DnsNames

/-! Names as the text they are read as. Letter case is that of ASCII in labels and in text,
but text keeps less apart than labels do. -/

namespace LtlFuzz.Resolver

/-- The characters that names are read as. -/
def Readable (c : Char) : Prop := c.toNat < 128 ∨ c = '\uFFFD'

/-- What `str.lower` does to text of such characters. -/
def LowersNames (lower : List Char → List Char) : Prop :=
  ∀ text, (∀ c ∈ text, Readable c) → lower text = text.map Char.toLower

def lowerByte (byte : UInt8) : UInt8 := if 65 ≤ byte ∧ byte ≤ 90 then byte + 32 else byte

/-- A name up to letter case. -/
def lowerName (labels : List (List UInt8)) : List (List UInt8) := labels.map fun label => label.map lowerByte

/-- The text that the adapter compares. -/
def nameText (labels : List (List UInt8)) : List Char := (fullName (labels.map decodeAscii)).map Char.toLower

theorem lowersNames_map : LowersNames (List.map Char.toLower) := fun _ _ => rfl

section Joining

variable {label next : List Char} {labels : List (List Char)}

@[simp] theorem joinLabels_nil : joinLabels [] = [] := rfl

@[simp] theorem joinLabels_singleton : joinLabels [label] = label := List.intercalate_singleton

theorem joinLabels_cons_cons : joinLabels (label :: next :: labels) = label ++ '.' :: joinLabels (next :: labels) := by
  simp [joinLabels]

theorem mem_joinLabels {c : Char} (member : c ∈ joinLabels labels) : c = '.' ∨ ∃ label ∈ labels, c ∈ label := by
  induction labels with
  | nil => cases member
  | cons label labels ih =>
    cases labels with
    | nil => exact .inr ⟨label, List.mem_cons_self, by simpa using member⟩
    | cons next labels =>
      rw [joinLabels_cons_cons, List.mem_append, List.mem_cons] at member
      rcases member with here | rfl | there
      · exact .inr ⟨label, List.mem_cons_self, here⟩
      · exact .inl rfl
      · rcases ih there with rfl | ⟨other, inside, found⟩
        · exact .inl rfl
        · exact .inr ⟨other, List.mem_cons_of_mem _ inside, found⟩

theorem map_joinLabels {change : Char → Char} (dot : change '.' = '.') :
    (joinLabels labels).map change = joinLabels (labels.map fun label => label.map change) := by
  induction labels with
  | nil => rfl
  | cons label labels ih =>
    cases labels with
    | nil => simp
    | cons next labels => simpa [joinLabels_cons_cons, dot] using ih

theorem mem_fullName {c : Char} (member : c ∈ fullName labels) : c = '.' ∨ ∃ label ∈ labels, c ∈ label := by
  unfold fullName at member
  split at member
  next => exact .inl (List.mem_singleton.mp member)
  next =>
    rcases List.mem_append.mp member with inside | last
    · exact mem_joinLabels inside
    · exact .inl (List.mem_singleton.mp last)

theorem map_fullName {change : Char → Char} (dot : change '.' = '.') :
    (fullName labels).map change = fullName (labels.map fun label => label.map change) := by
  unfold fullName
  by_cases root : labels = []
  · simp [root, dot]
  · simp [root, dot, map_joinLabels dot]

theorem fullName_ne_nil (labels : List (List Char)) : fullName labels ≠ [] := by
  unfold fullName
  split <;> simp

end Joining

theorem readable_decodeAscii {text : List UInt8} {c : Char} (member : c ∈ decodeAscii text) : Readable c := by
  obtain ⟨byte, _, rfl⟩ := List.mem_map.mp member
  split
  next small =>
    have table : ∀ value < 128, (Char.ofNat value).toNat < 128 := by decide
    exact .inl (table _ small)
  next => exact .inr rfl

theorem readable_fullName {labels : List (List UInt8)} {c : Char} (member : c ∈ fullName (labels.map decodeAscii)) :
    Readable c := by
  rcases mem_fullName member with rfl | ⟨label, inside, found⟩
  · exact .inl (by decide)
  · obtain ⟨text, _, rfl⟩ := List.mem_map.mp inside
    exact readable_decodeAscii found

theorem LowersNames.nameText {lower : List Char → List Char} (lowers : LowersNames lower) (labels : List (List UInt8)) :
    lower (fullName (labels.map decodeAscii)) = nameText labels :=
  lowers _ fun _ member => readable_fullName member

private theorem toLower_byte (byte : UInt8) :
    (if byte.toNat < 128 then Char.ofNat byte.toNat else '\uFFFD').toLower =
      if (lowerByte byte).toNat < 128 then Char.ofNat (lowerByte byte).toNat else '\uFFFD' := by
  have table : ∀ value < 256, (if value < 128 then Char.ofNat value else '\uFFFD').toLower =
      if (lowerByte (UInt8.ofNat value)).toNat < 128 then Char.ofNat (lowerByte (UInt8.ofNat value)).toNat
      else '\uFFFD' := by
    decide +kernel
  have here := table byte.toNat byte.toNat_lt
  rwa [UInt8.ofNat_toNat] at here

theorem toLower_decodeAscii (text : List UInt8) :
    (decodeAscii text).map Char.toLower = decodeAscii (text.map lowerByte) := by
  unfold decodeAscii
  rw [List.map_map, List.map_map]
  exact List.map_congr_left fun byte _ => toLower_byte byte

/-- Names that differ in letter case only read the same. -/
theorem nameText_eq (labels : List (List UInt8)) : nameText labels = fullName ((lowerName labels).map decodeAscii) := by
  rw [nameText, map_fullName (by decide), List.map_map, lowerName, List.map_map]
  congr 1
  exact List.map_congr_left fun label _ => toLower_decodeAscii label

theorem nameText_congr {first second : List (List UInt8)} (same : lowerName first = lowerName second) :
    nameText first = nameText second := by
  rw [nameText_eq, nameText_eq, same]

end LtlFuzz.Resolver

import LtlFuzz.Text.Words

/-! Reading a file through a buffer, as a loop over `fgets` does: a line at a time with its
newline, and a line that does not fit in several parts. -/

namespace LtlFuzz.Text

/-- The next characters up to a newline, as many as there is room for, and the rest. -/
def takeLine : Nat → List Char → List Char × List Char
  | _, [] => ([], [])
  | 0, rest => ([], rest)
  | room + 1, c :: rest => if c = '\n' then ([c], rest) else (c :: (takeLine room rest).1, (takeLine room rest).2)

theorem takeLine_split (room : Nat) (text : List Char) : (takeLine room text).1 ++ (takeLine room text).2 = text := by
  fun_induction takeLine with
  | case1 | case2 => rfl
  | case3 => rfl
  | case4 room c rest other ih => rw [List.cons_append, ih]

theorem takeLine_progress {room : Nat} {text : List Char} (nonempty : text ≠ []) :
    (takeLine (room + 1) text).2.length < text.length := by
  obtain ⟨c, rest, rfl⟩ := List.exists_cons_of_ne_nil nonempty
  rw [takeLine]
  split
  · exact Nat.lt_succ_self _
  · have split := congrArg List.length (takeLine_split room rest)
    rw [List.length_append] at split
    simp only [List.length_cons]
    omega

theorem takeLine_line {line : List Char} (plain : '\n' ∉ line) {room : Nat} (short : line.length ≤ room) (rest : List Char) :
    takeLine (room + 1) (line ++ '\n' :: rest) = (line ++ ['\n'], rest) := by
  induction line generalizing room with
  | nil => rfl
  | cons c line ih =>
    obtain ⟨less, rfl⟩ : ∃ less, room = less + 1 := Nat.exists_eq_succ_of_ne_zero (by simp at short; omega)
    have other : c ≠ '\n' := fun same => plain (by simp [same])
    have later := ih (fun member => plain (List.mem_cons_of_mem _ member)) (Nat.succ_le_succ_iff.mp short)
    rw [List.cons_append, takeLine, if_neg other, later]
    rfl

theorem takeLine_unbroken {text : List Char} (plain : '\n' ∉ text) {room : Nat} (short : text.length ≤ room) :
    takeLine room text = (text, []) := by
  induction text generalizing room with
  | nil => cases room <;> rfl
  | cons c text ih =>
    obtain ⟨less, rfl⟩ : ∃ less, room = less + 1 := Nat.exists_eq_succ_of_ne_zero (by simp at short; omega)
    have other : c ≠ '\n' := fun same => plain (by simp [same])
    rw [takeLine, if_neg other, ih (fun member => plain (List.mem_cons_of_mem _ member)) (Nat.succ_le_succ_iff.mp short)]

/-- What `fgets` stores from a file, call after call, in a buffer for `room + 1` characters. -/
def fgetsLines (room : Nat) (text : List Char) : List (List Char) :=
  if text = [] then [] else (takeLine (room + 1) text).1 :: fgetsLines room (takeLine (room + 1) text).2
termination_by text.length
decreasing_by exact takeLine_progress (by assumption)

theorem fgetsLines_lines {lines : List (List Char)} {room : Nat}
    (plain : ∀ line ∈ lines, '\n' ∉ line ∧ line.length ≤ room) :
    fgetsLines room (lines.flatMap (· ++ ['\n'])) = lines.map (· ++ ['\n']) := by
  induction lines with
  | nil =>
    rw [fgetsLines]
    rfl
  | cons line lines ih =>
    obtain ⟨⟨unbroken, short⟩, later⟩ := List.forall_mem_cons.mp plain
    have text : (line :: lines).flatMap (· ++ ['\n']) = line ++ '\n' :: lines.flatMap (· ++ ['\n']) := by simp
    have nonempty : line ++ '\n' :: lines.flatMap (· ++ ['\n']) ≠ [] := by simp
    rw [text, fgetsLines, if_neg nonempty, takeLine_line unbroken short, ih later]
    rfl

/-- Whatever is in the buffer stands somewhere in the file. -/
theorem fgetsLines_infix {room : Nat} {text chunk : List Char} (member : chunk ∈ fgetsLines room text) :
    chunk <:+: text := by
  fun_induction fgetsLines with
  | case1 => simp at member
  | case2 text nonempty ih =>
    have whole := takeLine_split (room + 1) text
    rcases List.mem_cons.mp member with rfl | later
    · exact ⟨[], _, whole⟩
    · obtain ⟨before, after, same⟩ := ih later
      refine ⟨(takeLine (room + 1) text).1 ++ before, after, ?_⟩
      rw [List.append_assoc, List.append_assoc, ← List.append_assoc before, same, whole]

theorem strstr_iff {haystack needle : List Char} : strstr haystack needle = true ↔ needle <:+: haystack := by
  induction haystack with
  | nil => simp [strstr]
  | cons c rest ih => rw [strstr, Bool.or_eq_true, ih, List.isPrefixOf_iff_prefix, List.infix_cons_iff]

end LtlFuzz.Text

import Mathlib.Data.List.Basic

/-! Cuts of a range into pieces. A piece is given by its first and its last position; the pieces of
a tiling follow each other without a gap, and give back what they were cut from. -/

namespace LtlFuzz.Logic

/-- The pieces go from one position up to another, and none is empty. -/
def Tiles : Nat → List (Nat × Nat) → Nat → Prop
  | lo, [], hi => lo = hi
  | lo, piece :: rest, hi => piece.1 = lo ∧ piece.1 ≤ piece.2 ∧ Tiles (piece.2 + 1) rest hi

variable {α : Type*} {lo mid hi : Nat} {pieces : List (Nat × Nat)}

@[simp] theorem tiles_nil : Tiles lo [] hi ↔ lo = hi := Iff.rfl

@[simp] theorem tiles_cons {first last : Nat} :
    Tiles lo ((first, last) :: pieces) hi ↔ first = lo ∧ first ≤ last ∧ Tiles (last + 1) pieces hi := Iff.rfl

theorem Tiles.le (tiles : Tiles lo pieces hi) : lo ≤ hi := by
  induction pieces generalizing lo with
  | nil => exact Nat.le_of_eq tiles
  | cons piece rest ih =>
    obtain ⟨rfl, ordered, tiles⟩ := tiles
    have later := ih tiles
    omega

theorem Tiles.append {more : List (Nat × Nat)} (first : Tiles lo pieces mid) (second : Tiles mid more hi) :
    Tiles lo (pieces ++ more) hi := by
  induction pieces generalizing lo with
  | nil =>
    obtain rfl : lo = mid := first
    exact second
  | cons piece rest ih => exact ⟨first.1, first.2.1, ih first.2.2⟩

theorem Tiles.mem {piece : Nat × Nat} (tiles : Tiles lo pieces hi) (member : piece ∈ pieces) : piece.1 ≤ piece.2 ∧ piece.2 < hi := by
  induction pieces generalizing lo with
  | nil => cases member
  | cons first rest ih =>
    obtain ⟨_, ordered, tiles⟩ := tiles
    rcases List.mem_cons.mp member with rfl | later
    · exact ⟨ordered, tiles.le⟩
    · exact ih tiles later

theorem Tiles.getLast {piece : Nat × Nat} (tiles : Tiles lo pieces hi) (last : pieces.getLast? = some piece) : piece.2 + 1 = hi := by
  obtain ⟨front, rfl⟩ := List.getLast?_eq_some_iff.mp last
  clear last
  induction front generalizing lo with
  | nil => exact tiles.2.2
  | cons first front ih => exact ih tiles.2.2

/-- The items of a piece. -/
def cut (items : List α) (piece : Nat × Nat) : List α := (items.drop piece.1).take (piece.2 + 1 - piece.1)

theorem length_cut (items : List α) (piece : Nat × Nat) :
    (cut items piece).length = min (piece.2 + 1 - piece.1) (items.length - piece.1) := by
  rw [cut, List.length_take, List.length_drop]

theorem Tiles.flatten (items : List α) (tiles : Tiles lo pieces hi) : (pieces.map (cut items)).flatten = (items.take hi).drop lo := by
  induction pieces generalizing lo with
  | nil =>
    obtain rfl : lo = hi := tiles
    simp
  | cons piece rest ih =>
    obtain ⟨rfl, ordered, tiles⟩ := tiles
    have later := tiles.le
    rw [List.map_cons, List.flatten_cons, ih tiles, cut, List.drop_take, List.drop_take]
    obtain ⟨gap, length⟩ : ∃ gap, piece.2 + 1 = piece.1 + gap := ⟨piece.2 + 1 - piece.1, by omega⟩
    rw [length, show piece.1 + gap - piece.1 = gap by omega, ← List.drop_drop, show hi - (piece.1 + gap) = hi - piece.1 - gap by omega,
      ← List.drop_take]
    have whole := List.take_append_drop gap ((items.drop piece.1).take (hi - piece.1))
    rwa [List.take_take, Nat.min_eq_left (by omega)] at whole

end LtlFuzz.Logic

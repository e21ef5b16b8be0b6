import Mathlib.Data.Set.Card

/-! An archive that keeps what is new. Items have features, and features lie in cells: an item
is new to an archive that has not met one of its features, and more so to one that has met no
feature of the same cell. What an archive keeps has all the features it was ever shown. -/

namespace LtlFuzz.Logic
open Set

variable {α β : Type*} {cell : α → β} {met more item : Set α}

open Classical in
/-- 2 with a feature in a cell that is new, 1 with another new feature, 0 without. -/
noncomputable def novelty (cell : α → β) (met item : Set α) : Nat :=
  if ∃ x ∈ item, ∀ y ∈ met, cell y ≠ cell x then 2 else if ∃ x ∈ item, x ∉ met then 1 else 0

theorem novelty_eq_zero_iff : novelty cell met item = 0 ↔ item ⊆ met := by
  unfold novelty
  split
  next new =>
    obtain ⟨x, member, apart⟩ := new
    exact ⟨fun zero => (nomatch zero), fun inside => absurd rfl (apart x (inside member))⟩
  next =>
    split
    next new =>
      obtain ⟨x, member, missing⟩ := new
      exact ⟨fun zero => (nomatch zero), fun inside => absurd (inside member) missing⟩
    next old =>
      refine ⟨fun _ x member => ?_, fun _ => rfl⟩
      by_contra missing
      exact old ⟨x, member, missing⟩

section Archive

variable {ι : Type*} {shows : ι → Set α}

/-- The archive as it goes through items, with those it keeps. -/
noncomputable def kept (cell : α → β) (shows : ι → Set α) : Set α → List ι → List ι
  | _, [] => []
  | met, item :: items =>
    if novelty cell met (shows item) = 0 then kept cell shows met items
    else item :: kept cell shows (met ∪ shows item) items

def features (shows : ι → Set α) (items : List ι) : Set α := {x | ∃ item ∈ items, x ∈ shows item}

@[simp] theorem features_nil : features shows [] = ∅ := by
  simp [features]

@[simp] theorem features_cons (item : ι) (items : List ι) : features shows (item :: items) = shows item ∪ features shows items := by
  ext x
  simp [features]

/-- Nothing is lost with the items that are not kept. -/
theorem features_kept (cell : α → β) (shows : ι → Set α) (met : Set α) (items : List ι) :
    met ∪ features shows (kept cell shows met items) = met ∪ features shows items := by
  induction items generalizing met with
  | nil => rfl
  | cons item items ih =>
    rw [kept]
    split
    next old => rw [ih, features_cons, ← union_assoc, union_eq_self_of_subset_right (novelty_eq_zero_iff.mp old)]
    next => rw [features_cons, features_cons, ← union_assoc, ih, union_assoc]

/-- Every item that is kept has a feature of its own. -/
theorem length_kept (cell : α → β) (met : Set α) (items : List ι) (finite : (features shows items).Finite) :
    (kept cell shows met items).length ≤ (features shows items \ met).ncard := by
  induction items generalizing met with
  | nil => exact Nat.zero_le _
  | cons item items ih =>
    rw [features_cons] at finite ⊢
    have later := finite.subset subset_union_right
    rw [kept]
    split
    next => exact (ih _ later).trans (ncard_le_ncard (sdiff_subset_sdiff_left subset_union_right) finite.sdiff)
    next new =>
      obtain ⟨x, member, missing⟩ := not_subset.mp (mt novelty_eq_zero_iff.mpr new)
      have inside : x ∈ (shows item ∪ features shows items) \ met := ⟨Or.inl member, missing⟩
      have gone : x ∉ features shows items \ (met ∪ shows item) := fun left => left.2 (Or.inr member)
      have fewer : (features shows items \ (met ∪ shows item)).ncard < ((shows item ∪ features shows items) \ met).ncard := by
        apply ncard_lt_ncard _ finite.sdiff
        exact ⟨sdiff_subset_sdiff subset_union_right subset_union_left, fun all => gone (all inside)⟩
      exact (Nat.succ_le_succ (ih _ later)).trans fewer

/-- What an archive that may be told to keep all would keep. -/
noncomputable def sift (all : Bool) (cell : α → β) (shows : ι → Set α) (met : Set α) (items : List ι) : List ι :=
  if all then items else kept cell shows met items

@[simp] theorem sift_nil (all : Bool) : sift all cell shows met [] = [] := by
  cases all <;> rfl

theorem sift_cons_keep {all : Bool} {item : ι} {items : List ι} (keep : all = true ∨ novelty cell met (shows item) ≠ 0) :
    sift all cell shows met (item :: items) = item :: sift all cell shows (met ∪ shows item) items := by
  cases all with
  | true => rfl
  | false =>
    have new := keep.resolve_left (by decide)
    simp [sift, kept, new]

theorem sift_cons_drop {item : ι} {items : List ι} (old : novelty cell met (shows item) = 0) :
    sift false cell shows met (item :: items) = sift false cell shows met items := by
  simp [sift, kept, old]

end Archive

end LtlFuzz.Logic

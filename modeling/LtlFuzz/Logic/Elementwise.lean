import LtlFuzz.Logic.Run
import Mathlib.Data.List.Forall2

/-! Lists that are related element by element. A computation that goes through a list and may fail is
such a relation between what it is given and what it returns. -/

namespace LtlFuzz.Logic

universe u v w t

section Fallible

variable {α : Type v} {β : Type u} {γ : Type u} {ε : Type w}

theorem bind_ok_iff {first : Except ε β} {next : β → Except ε γ} {result : γ} :
    (first >>= next) = .ok result ↔ ∃ value, first = .ok value ∧ next value = .ok result := by
  refine ⟨bind_ok, ?_⟩
  rintro ⟨value, rfl, rest⟩
  exact rest

theorem mapM_ok_iff {f : α → Except ε β} {xs : List α} {ys : List β} :
    xs.mapM f = .ok ys ↔ List.Forall₂ (fun x y => f x = .ok y) xs ys := by
  induction xs generalizing ys with
  | nil =>
    rw [List.mapM_nil, List.forall₂_nil_left_iff]
    exact ⟨fun same => (Except.ok.inj same).symm, fun same => congrArg Except.ok same.symm⟩
  | cons x xs ih =>
    rw [List.mapM_cons, bind_ok_iff, List.forall₂_cons_left_iff]
    simp only [bind_ok_iff, ih]
    constructor
    · rintro ⟨y, one, rest, others, same⟩
      exact ⟨y, rest, one, others, (Except.ok.inj same).symm⟩
    · rintro ⟨y, rest, one, others, rfl⟩
      exact ⟨y, one, rest, others, rfl⟩

end Fallible

section Related

variable {α : Type u} {β : Type v} {γ : Type w} {related : α → β → Prop} {xs : List α} {ys : List β}

theorem related_left (all : List.Forall₂ related xs ys) : ∀ x ∈ xs, ∃ y ∈ ys, related x y := by
  induction all with
  | nil => exact fun _ member => (nomatch member)
  | cons head tail ih =>
    intro x member
    rcases List.mem_cons.mp member with rfl | later
    · exact ⟨_, List.mem_cons_self, head⟩
    · obtain ⟨y, listed, held⟩ := ih x later
      exact ⟨y, List.mem_cons_of_mem _ listed, held⟩

theorem related_at (all : List.Forall₂ related xs ys) {index : Nat} {x : α} {y : β} (left : xs[index]? = some x)
    (right : ys[index]? = some y) : related x y := by
  induction all generalizing index with
  | nil => cases left
  | cons one rest ih =>
    cases index with
    | zero =>
      cases left
      cases right
      exact one
    | succ index => exact ih left right

theorem related_trans {second : β → γ → Prop} {both : α → γ → Prop} (step : ∀ x y z, related x y → second y z → both x z)
    (one : List.Forall₂ related xs ys) : ∀ {zs : List γ}, List.Forall₂ second ys zs → List.Forall₂ both xs zs := by
  induction one with
  | nil =>
    intro zs two
    cases two
    exact .nil
  | cons head tail ih =>
    intro zs two
    cases two with
    | cons next others => exact .cons (step _ _ _ head next) (ih others)

end Related

end LtlFuzz.Logic

import LtlFuzz.PacketGen.Ast
import Mathlib.Data.Nat.Basic

/-! `parallelism.ml`: a list is cut into chunks, one for each domain, and a function is mapped over
each of them. -/

namespace LtlFuzz.PacketGen

section Chunks

variable {α : Type}

/-- The first elements of a list, behind those that were taken before, and the rest. -/
def takeChunk (acc : List α) : Nat → List α → List α × List α
  | 0, lst => (acc.reverse, lst)
  | _ + 1, [] => (acc.reverse, [])
  | i + 1, x :: xs => takeChunk (x :: acc) i xs

def buildChunks (n baseSize remainder i : Nat) (lst : List α) : List (List α) :=
  if i ≥ n ∨ lst.isEmpty then []
  else
    let chunkSize := baseSize + if i < remainder then 1 else 0
    let (chunk, rest) := takeChunk [] chunkSize lst
    chunk :: buildChunks n baseSize remainder (i + 1) rest
termination_by n - i

def splitIntoChunks (n : Nat) (lst : List α) : Except Fault (List (List α)) :=
  if n = 0 then .error .divisionByZero else .ok (buildChunks n (lst.length / n) (lst.length % n) 0 lst)

/-- `recommended` is how many domains the library recommends. -/
def parallelMap {β : Type} (recommended : Nat) (f : α → β) (xs : List α) : Except Fault (List β) := do
  let chunks ← splitIntoChunks (min recommended xs.length) xs
  .ok (chunks.map fun chunk => chunk.map f).flatten

end Chunks

section Splitting

variable {α : Type}

theorem takeChunk_eq (acc : List α) (i : Nat) (lst : List α) : takeChunk acc i lst = (acc.reverse ++ lst.take i, lst.drop i) := by
  induction i generalizing acc lst with
  | zero => simp [takeChunk]
  | succ i ih =>
    cases lst with
    | nil => simp [takeChunk]
    | cons x xs => simp [takeChunk, ih]

/-- What is left is as much as the chunks to come hold together. -/
theorem buildChunks_spec (n baseSize remainder i : Nat) (lst : List α) (few : remainder ≤ n)
    (left : lst.length = (n - i) * baseSize + (remainder - i)) :
    (buildChunks n baseSize remainder i lst).flatten = lst ∧
      ∀ chunk ∈ buildChunks n baseSize remainder i lst, chunk.length = baseSize ∨ chunk.length = baseSize + 1 := by
  rw [buildChunks]
  split
  · rename_i done
    refine ⟨?_, fun chunk member => absurd member List.not_mem_nil⟩
    rcases done with last | empty
    · have nothing : lst.length = 0 := by
        rw [left, Nat.sub_eq_zero_of_le last, Nat.sub_eq_zero_of_le (Nat.le_trans few last), Nat.zero_mul]
      exact (List.eq_nil_of_length_eq_zero nothing).symm
    · exact (List.isEmpty_iff.mp empty).symm
  · rename_i more
    have inside : i < n := by
      by_contra wrong
      exact more (Or.inl (by omega))
    have one : n - i = n - (i + 1) + 1 := by omega
    have enough : baseSize + (if i < remainder then 1 else 0) ≤ lst.length := by
      rw [left, one, Nat.add_mul, Nat.one_mul]
      split <;> omega
    have rest : (lst.drop (baseSize + if i < remainder then 1 else 0)).length =
        (n - (i + 1)) * baseSize + (remainder - (i + 1)) := by
      rw [List.length_drop, left, one, Nat.add_mul, Nat.one_mul]
      split <;> omega
    obtain ⟨flat, sizes⟩ := buildChunks_spec n baseSize remainder (i + 1) _ few rest
    dsimp only
    rw [takeChunk_eq]
    refine ⟨?_, ?_⟩
    · simp only [List.reverse_nil, List.nil_append, List.flatten_cons, flat, List.take_append_drop]
    · intro chunk member
      rcases List.mem_cons.mp member with rfl | later
      · rw [List.reverse_nil, List.nil_append, List.length_take, Nat.min_eq_left enough]
        split
        · exact Or.inr rfl
        · exact Or.inl rfl
      · exact sizes chunk later
termination_by n - i

theorem splitIntoChunks_spec {n : Nat} (some_ : 0 < n) (lst : List α) :
    ∃ chunks, splitIntoChunks n lst = .ok chunks ∧ chunks.flatten = lst ∧
      ∀ first ∈ chunks, ∀ second ∈ chunks, first.length ≤ second.length + 1 := by
  have whole : lst.length = (n - 0) * (lst.length / n) + (lst.length % n - 0) := (Nat.div_add_mod lst.length n).symm
  obtain ⟨flat, sizes⟩ := buildChunks_spec n (lst.length / n) (lst.length % n) 0 lst (Nat.le_of_lt (Nat.mod_lt _ some_)) whole
  refine ⟨_, if_neg (by omega), flat, ?_⟩
  intro first left second right
  have one := sizes first left
  have other := sizes second right
  omega

/-- The chunks are mapped like the whole list, unless there is nothing to map or nobody to do it. -/
theorem parallelMap_eq_map_iff {β : Type} (recommended : Nat) (f : α → β) (xs : List α) :
    (parallelMap recommended f xs = .ok (xs.map f) ↔ 0 < recommended ∧ xs ≠ []) ∧
      ∀ n, 0 < n → ∃ chunks, splitIntoChunks n xs = .ok chunks ∧ chunks.flatten = xs ∧
        ∀ first ∈ chunks, ∀ second ∈ chunks, first.length ≤ second.length + 1 := by
  refine ⟨?_, fun n some_ => splitIntoChunks_spec some_ xs⟩
  by_cases domains : 0 < min recommended xs.length
  · obtain ⟨chunks, split_, flat, _⟩ := splitIntoChunks_spec domains xs
    have mapped : parallelMap recommended f xs = .ok (xs.map f) := by
      rw [parallelMap, split_]
      exact congrArg Except.ok (by rw [← List.map_flatten, flat])
    have both := Nat.lt_min.mp domains
    exact ⟨fun _ => ⟨both.1, List.ne_nil_of_length_pos both.2⟩, fun _ => mapped⟩
  · have failed : parallelMap recommended f xs = .error .divisionByZero := by
      rw [parallelMap, splitIntoChunks, if_pos (by omega)]
      rfl
    rw [failed]
    refine ⟨fun wrong => (nomatch wrong), ?_⟩
    intro both
    exact absurd (Nat.lt_min.mpr ⟨both.1, List.length_pos_iff.mpr both.2⟩) domains

/-- Seven elements for three domains. -/
theorem seven_in_three : ∃ chunks, splitIntoChunks 3 [1, 2, 3, 4, 5, 6, 7] = .ok chunks ∧ chunks.flatten = [1, 2, 3, 4, 5, 6, 7] ∧
    ∀ first ∈ chunks, ∀ second ∈ chunks, first.length ≤ second.length + 1 :=
  (parallelMap_eq_map_iff 3 (fun n : Nat => n) [1, 2, 3, 4, 5, 6, 7]).2 3 (by decide)

theorem empty_list_divides : parallelMap 8 (fun n : Nat => n + 1) [] = .error .divisionByZero := rfl

end Splitting

end LtlFuzz.PacketGen

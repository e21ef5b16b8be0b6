import LtlFuzz.Fuzzer.StateGraph
import Mathlib.Algebra.Order.BigOperators.Group.List
import Mathlib.Algebra.Order.Group.Nat
import Mathlib.Order.Interval.Finset.Nat

/-! Which messages of a seed are fuzzed. The regions of a seed are cut into M1, which brings the server to the target state, M2, which
is fuzzed, and M3; the cut is made differently with snapshots and without. -/

namespace LtlFuzz.Fuzzer
open Logic StateTable

section Draws

variable {scores : List Nat}

theorem sum_take_le (scores : List Nat) (i : Nat) : (scores.take i).sum ≤ scores.sum := by
  have all := List.monotone_sum_take scores (Nat.le_max_left i scores.length)
  simpa only [List.take_of_length_le (Nat.le_max_right i scores.length)] using all

/-- A value is found at a place when it is more than the scores before it, and not more than these with its own. -/
theorem indexSearch_iff (small : scores.sum < 2 ^ 32) {i : Nat} (inside : i < scores.length) (val : Nat) :
    indexSearch (runningSums scores) val = i ↔ (i = 0 ∨ (scores.take i).sum < val) ∧ val ≤ (scores.take (i + 1)).sum := by
  have length := length_runningSums scores
  have sums {j : Nat} (below : j < scores.length) : (runningSums scores)[j]? = some (scores.take (j + 1)).sum := by
    rw [getElem?_runningSums below, wrap, Nat.mod_eq_of_lt (Nat.lt_of_le_of_lt (sum_take_le scores (j + 1)) small)]
  have at_ {j : Nat} (below : j < (runningSums scores).length) : (runningSums scores)[j] = (scores.take (j + 1)).sum := by
    have same := sums (length ▸ below)
    rwa [List.getElem?_eq_getElem below, Option.some.injEq] at same
  rw [indexSearch, List.findIdx_eq (length.symm ▸ inside)]
  simp only [at_, decide_eq_true_eq, decide_eq_false_iff_not, Nat.not_le]
  constructor
  · rintro ⟨upper, earlier⟩
    refine ⟨?_, upper⟩
    cases i with
    | zero => exact Or.inl rfl
    | succ i => exact Or.inr (earlier i (Nat.lt_succ_self i))
  · rintro ⟨lower, upper⟩
    refine ⟨upper, fun j below => ?_⟩
    exact Nat.lt_of_le_of_lt (List.monotone_sum_take scores (show j + 1 ≤ i by omega)) (lower.resolve_left (by omega))

/-- Of the numbers that can be drawn, each candidate has as many as its score; but the first has one more, and the last one less, since a
number is found at the first sum that it is not more than. -/
theorem drawByScore_draws {candidates : List Nat} (once : candidates.Nodup) (length : scores.length = candidates.length)
    (positive : ∀ score ∈ scores, 0 < score) (small : scores.sum < 2 ^ 32) {i : Nat} (inside : i < scores.length) :
    ((Finset.range scores.sum).filter fun draw => (drawByScore candidates scores draw).toOption = candidates[i]?).card +
      (if i + 1 = scores.length then 1 else 0) = scores[i] + if i = 0 then 1 else 0 := by
  have total := total_runningSums scores
  rw [wrap, Nat.mod_eq_of_lt small] at total
  have step := List.sum_take_succ scores i inside
  have last : i + 1 = scores.length → (scores.take (i + 1)).sum = scores.sum := fun last => by
    rw [List.take_of_length_le (Nat.le_of_eq last.symm)]
  have more (before : i + 1 < scores.length) : (scores.take (i + 1)).sum < scores.sum := by
    have next := List.sum_take_succ scores (i + 1) before
    have above := positive _ (List.getElem_mem before)
    have all := sum_take_le scores (i + 1 + 1)
    omega
  have found (draw : Nat) (below : draw < scores.sum) : (drawByScore candidates scores draw).toOption = candidates[i]? ↔
      indexSearch (runningSums scores) draw = i := by
    have there : indexSearch (runningSums scores) draw < candidates.length := by
      rw [← length, ← length_runningSums scores]
      exact indexSearch_lt (by rwa [total])
    simp only [drawByScore, total, if_neg (Nat.ne_of_gt (Nat.zero_lt_of_lt below)), Nat.mod_eq_of_lt below,
      List.getElem?_eq_getElem there, List.getElem?_eq_getElem (length ▸ inside), Except.toOption, Option.some.injEq]
    exact once.getElem_inj_iff
  have interval : (Finset.range scores.sum).filter (fun draw => (drawByScore candidates scores draw).toOption = candidates[i]?) =
      Finset.Ico (if i = 0 then 0 else (scores.take i).sum + 1)
        (if i + 1 = scores.length then scores.sum else (scores.take (i + 1)).sum + 1) := by
    ext draw
    rw [Finset.mem_filter, Finset.mem_range, Finset.mem_Ico]
    constructor
    · rintro ⟨below, drawn⟩
      obtain ⟨lower, upper⟩ := (indexSearch_iff small inside draw).mp ((found draw below).mp drawn)
      split <;> split <;> omega
    · rintro ⟨lower, upper⟩
      have below : draw < scores.sum := by
        split at upper
        · exact upper
        · have strict := more (by omega)
          omega
      refine ⟨below, (found draw below).mpr ((indexSearch_iff small inside draw).mpr ⟨?_, ?_⟩)⟩
      · split at lower <;> omega
      · split at upper
        next end_ => rw [last end_]; omega
        next => omega
  have first : i = 0 → (scores.take i).sum = 0 := by
    rintro rfl
    rfl
  rw [interval, Nat.card_Ico]
  have above := positive _ (List.getElem_mem inside)
  split <;> split
  all_goals first
    | have whole := last ‹_›
      omega
    | omega

/-- Three states with the scores 5, 3 and 2: the last is found by one number only. -/
theorem drawByScore_draws_three :
    ((Finset.range [5, 3, 2].sum).filter fun draw =>
      (drawByScore [0, 220, 331] [5, 3, 2] draw).toOption = [0, 220, 331][2]?).card + 1 = 2 :=
  drawByScore_draws (by decide) rfl (by decide) (by decide) (show 2 < [5, 3, 2].length by decide)

end Draws

section Model

inductive McaAlgo where
  | first
  | last
  | smart
  deriving DecidableEq

/-- `region_score_t`; the score is made of the others each time. -/
structure RegionScore where
  messageDepth : Nat := 0
  pathsDiscovered : Nat := 0
  fuzzs : Nat := 0
  selectedTimes : Nat := 0

/-- The state sequences of all regions of a seed; a region that was not sent has none. -/
def Seed.annotated (seed : Seed) : List (List Nat) := seed.regions ++ List.replicate (seed.regionCount - seed.regions.length) []

def targetRegions (regions : List (List Nat)) (targetStateId : Nat) : List Nat :=
  (List.range regions.length).filter fun i => decide ((regions[i]?.bind List.getLast?) = some targetStateId)

def messageChainAnalysis (score : RegionScore → Nat) (mcaAlgo : McaAlgo) (queueCycle draw : Nat) (regionsScores : List RegionScore)
    (positions : List Nat) : Except Abort Nat :=
  match mcaAlgo with
  | .first => match positions.head? with
    | none => .error .outOfRange
    | some position => .ok position
  | .last => match positions.getLast? with
    | none => .error .outOfRange
    | some position => .ok position
  | .smart =>
    if positions.length = 1 ∨ queueCycle < 6 then
      match positions.getLast? with
      | none => .error .outOfRange
      | some position => .ok position
    else if ∃ position ∈ positions, regionsScores.length ≤ position then .error .outOfRange
    else drawByScore positions (positions.map fun position => score (regionsScores[position]?.getD {})) draw

/-- `M2_region_count`: the regions from the start on that have as many states as the first of them. -/
def m2RegionCount (regions : List (List Nat)) (m2Start : Nat) : Nat :=
  match regions.drop m2Start with
  | [] => 0
  | region :: rest => ((region :: rest).takeWhile fun other => other.length == region.length).length

/-- The selection in `fuzz_one` with snapshots: M2 with the scores of the regions, or none if the entry is skipped. -/
def selectM2Snapshot (score : RegionScore → Nat) (mcaAlgo : McaAlgo) (queueCycle draw : Nat) (regions : List (List Nat))
    (regionsScores : List RegionScore) (targetStateId : Nat) : Except Abort (Option (Nat × Nat) × List RegionScore) :=
  if regions = [] then .error .noRegions
  else if targetStateId = 0 then .ok (some (0, m2RegionCount regions 0), regionsScores)
  else
    let regionsScores := if mcaAlgo = .smart then
        regionsScores.mapIdx fun i entry => if (regions[i]?.getD []) = [] then entry else { entry with messageDepth := i }
      else regionsScores
    let positions := targetRegions regions targetStateId
    if (∀ region ∈ regions, region = []) ∨ positions = [] then .ok (none, regionsScores)
    else do
      let position ← messageChainAnalysis score mcaAlgo queueCycle draw regionsScores positions
      let regionsScores := if mcaAlgo = .smart then
          regionsScores.modify position fun entry => { entry with selectedTimes := entry.selectedTimes + 1 }
        else regionsScores
      let m2Start := position + 1
      return if regions.length ≤ m2Start then (none, regionsScores) else (some (m2Start, m2RegionCount regions m2Start), regionsScores)

def originalStart (targetStateId : Nat) : List (List Nat) → Option Nat
  | [] => some 0
  | region :: rest =>
    match region.getLast? with
    | none => none
    | some reachableStateId => if reachableStateId = targetStateId then some 1 else (originalStart targetStateId rest).map (· + 1)

def selectM2Original (regions : List (List Nat)) (targetStateId : Nat) : Except Abort (Option (Nat × Nat)) :=
  if regions = [] then .error .noRegions
  else if targetStateId = 0 then .ok (some (0, m2RegionCount regions 0))
  else
    match originalStart targetStateId regions with
    | none => .ok none
    | some m2Start => .ok (if regions.length ≤ m2Start then none else some (m2Start, m2RegionCount regions m2Start))

def selectM2Random (totalRegion : Nat) (draws : Nat → Nat) : Except Abort (Nat × Nat) :=
  if totalRegion = 0 then .error .noRegions
  else
    let m2Start := draws 0 % totalRegion
    .ok (m2Start, max 1 (draws 1 % (totalRegion - m2Start)))

end Model

section Selection

variable {regions : List (List Nat)} {targetStateId : Nat}

/-- What M2 is: regions with one number of states, and all of these that follow each other, from the beginning or after a region that
ends in the target state. -/
structure Selected (regions : List (List Nat)) (targetStateId m2Start m2Count : Nat) : Prop where
  some_ : 0 < m2Count
  inside : m2Start + m2Count ≤ regions.length
  same : ∀ i, m2Start ≤ i → i < m2Start + m2Count → regions[i]?.map List.length = regions[m2Start]?.map List.length
  whole : m2Start + m2Count < regions.length → regions[m2Start + m2Count]?.map List.length ≠ regions[m2Start]?.map List.length
  initial : targetStateId = 0 → m2Start = 0
  reached : targetStateId ≠ 0 → ∃ before region, m2Start = before + 1 ∧ regions[before]? = some region ∧
    region.getLast? = some targetStateId

/-- How far a condition holds from the beginning of a list. -/
theorem length_takeWhile_spec {α : Type} (p : α → Bool) (list : List α) :
    (list.takeWhile p).length ≤ list.length ∧ (∀ i x, i < (list.takeWhile p).length → list[i]? = some x → p x = true) ∧
      ∀ x, list[(list.takeWhile p).length]? = some x → p x = false := by
  induction list with
  | nil => simp
  | cons head tail ih =>
    obtain ⟨short, holds, stops⟩ := ih
    by_cases first : p head = true
    · simp only [List.takeWhile_cons, first, if_true, List.length_cons]
      refine ⟨by omega, fun i x before here => ?_, by simpa using stops⟩
      cases i with
      | zero => rwa [← Option.some.inj here]
      | succ i => exact holds i x (by omega) (by simpa using here)
    · simp only [List.takeWhile_cons, first, Bool.false_eq_true, if_false, List.length_nil]
      refine ⟨Nat.zero_le _, nofun, fun x here => ?_⟩
      rw [← Option.some.inj here]
      simpa using first

theorem m2RegionCount_spec {m2Start : Nat} (inside : m2Start < regions.length) :
    0 < m2RegionCount regions m2Start ∧ m2Start + m2RegionCount regions m2Start ≤ regions.length ∧
      (∀ i, m2Start ≤ i → i < m2Start + m2RegionCount regions m2Start → regions[i]?.map List.length = regions[m2Start]?.map List.length) ∧
      (m2Start + m2RegionCount regions m2Start < regions.length →
        regions[m2Start + m2RegionCount regions m2Start]?.map List.length ≠ regions[m2Start]?.map List.length) := by
  have cut := List.drop_eq_getElem_cons inside
  have count : m2RegionCount regions m2Start =
      ((regions.drop m2Start).takeWhile fun other => other.length == regions[m2Start].length).length := by
    rw [m2RegionCount, cut]
  have positive : 0 < m2RegionCount regions m2Start := by
    rw [count, cut, List.takeWhile_cons, if_pos (beq_self_eq_true _)]
    exact Nat.zero_lt_succ _
  obtain ⟨short, holds, stops⟩ := length_takeWhile_spec (fun other => other.length == regions[m2Start].length) (regions.drop m2Start)
  rw [← count] at short holds stops
  rw [List.length_drop] at short
  simp only [List.getElem?_drop] at holds stops
  refine ⟨positive, by omega, fun i after before => ?_, fun end_ same => ?_⟩
  · have equal := holds (i - m2Start) regions[i] (by omega) (by
      rw [Nat.add_sub_cancel' after, List.getElem?_eq_getElem (by omega)])
    rw [List.getElem?_eq_getElem (show i < regions.length by omega), List.getElem?_eq_getElem inside]
    simpa using equal
  · have differs := stops regions[m2Start + m2RegionCount regions m2Start] (List.getElem?_eq_getElem end_)
    rw [List.getElem?_eq_getElem end_, List.getElem?_eq_getElem inside] at same
    simp only [Option.map_some, Option.some.injEq] at same
    simp [same] at differs

theorem mem_targetRegions {i : Nat} :
    i ∈ targetRegions regions targetStateId ↔ ∃ region, regions[i]? = some region ∧ region.getLast? = some targetStateId := by
  simp only [targetRegions, List.mem_filter, List.mem_range, decide_eq_true_eq, Option.bind_eq_some_iff]
  constructor
  · rintro ⟨_, found⟩
    exact found
  · rintro ⟨region, here, ends⟩
    exact ⟨(List.getElem?_eq_some_iff.mp here).1, region, here, ends⟩

theorem Selected.of_start {m2Start : Nat} (inside : m2Start < regions.length) (initial : targetStateId = 0 → m2Start = 0)
    (reached : targetStateId ≠ 0 → ∃ before ∈ targetRegions regions targetStateId, m2Start = before + 1) :
    Selected regions targetStateId m2Start (m2RegionCount regions m2Start) := by
  obtain ⟨some_, within, same, whole⟩ := m2RegionCount_spec inside
  refine ⟨some_, within, same, whole, initial, fun other => ?_⟩
  obtain ⟨before, member, start⟩ := reached other
  obtain ⟨region, here, ends⟩ := mem_targetRegions.mp member
  exact ⟨before, region, start, here, ends⟩

/-- The analysis takes one of the positions, and fails only when the scores come to nothing. -/
theorem messageChainAnalysis_spec (score : RegionScore → Nat) (mcaAlgo : McaAlgo) (queueCycle draw : Nat) {regionsScores : List RegionScore}
    {positions : List Nat} (some_ : positions ≠ []) (scored : ∀ position ∈ positions, position < regionsScores.length) :
    match messageChainAnalysis score mcaAlgo queueCycle draw regionsScores positions with
    | .ok position => position ∈ positions
    | .error abort => abort = .divisionByZero ∧ mcaAlgo = .smart := by
  obtain ⟨last, tail⟩ := Option.ne_none_iff_exists'.mp (mt List.getLast?_eq_none_iff.mp some_)
  obtain ⟨first, head⟩ := Option.ne_none_iff_exists'.mp (mt List.head?_eq_none_iff.mp some_)
  cases mcaAlgo with
  | first =>
    simp only [messageChainAnalysis, head]
    exact List.mem_of_head? head
  | last =>
    simp only [messageChainAnalysis, tail]
    exact List.mem_of_getLast? tail
  | smart =>
    by_cases early : positions.length = 1 ∨ queueCycle < 6
    · simp only [messageChainAnalysis, if_pos early, tail]
      exact List.mem_of_getLast? tail
    · have within : ¬ ∃ position ∈ positions, regionsScores.length ≤ position := by
        rintro ⟨position, member, past⟩
        exact Nat.not_lt.mpr past (scored position member)
      have length : (positions.map fun position => score (regionsScores[position]?.getD {})).length = positions.length := List.length_map _
      have drawn := drawByScore_spec length draw
      simp only [messageChainAnalysis, if_neg early, if_neg within]
      cases result : drawByScore positions (positions.map fun position => score (regionsScores[position]?.getD {})) draw with
      | ok position =>
        rw [result] at drawn
        exact drawn
      | error abort =>
        rw [result] at drawn
        exact ⟨drawn.1, trivial⟩

/-- What the selection with snapshots comes to: an entry is skipped where no region ends in the target state, or where the one that is
taken is the last. -/
theorem selectM2Snapshot_spec (score : RegionScore → Nat) (mcaAlgo : McaAlgo) (queueCycle draw : Nat) (some_ : regions ≠ [])
    {regionsScores : List RegionScore} (scored : regionsScores.length = regions.length) (targetStateId : Nat) :
    match selectM2Snapshot score mcaAlgo queueCycle draw regions regionsScores targetStateId with
    | .ok (some (m2Start, m2Count), after) => Selected regions targetStateId m2Start m2Count ∧ after.length = regions.length
    | .ok (none, after) => targetStateId ≠ 0 ∧ after.length = regions.length ∧
        (targetRegions regions targetStateId = [] ∨ regions.length - 1 ∈ targetRegions regions targetStateId)
    | .error abort => abort = .divisionByZero ∧ mcaAlgo = .smart := by
  unfold selectM2Snapshot
  rw [if_neg some_]
  by_cases zero : targetStateId = 0
  · rw [if_pos zero]
    exact ⟨Selected.of_start (List.length_pos_of_ne_nil some_) (fun _ => rfl) fun other => absurd zero other, scored⟩
  · rw [if_neg zero]
    simp only
    generalize noted : (if mcaAlgo = .smart then
        regionsScores.mapIdx fun i entry => if (regions[i]?.getD []) = [] then entry else { entry with messageDepth := i }
      else regionsScores) = scores
    have length : scores.length = regions.length := by
      rw [← noted, ← scored]
      split
      · exact List.length_mapIdx
      · rfl
    by_cases none_ : (∀ region ∈ regions, region = []) ∨ targetRegions regions targetStateId = []
    · rw [if_pos none_]
      refine ⟨zero, length, Or.inl ?_⟩
      rcases none_ with bare | none_
      · refine List.eq_nil_iff_forall_not_mem.mpr fun i member => ?_
        obtain ⟨region, here, ends⟩ := mem_targetRegions.mp member
        rw [bare region (List.mem_of_getElem? here)] at ends
        cases ends
      · exact none_
    · rw [if_neg none_]
      have analysed := messageChainAnalysis_spec score mcaAlgo queueCycle draw (fun empty => none_ (Or.inr empty))
        (fun position member => length ▸ (List.getElem?_eq_some_iff.mp (mem_targetRegions.mp member).choose_spec.1).1 :
          ∀ position ∈ targetRegions regions targetStateId, position < scores.length)
      cases result : messageChainAnalysis score mcaAlgo queueCycle draw scores (targetRegions regions targetStateId) with
      | error abort =>
        rw [result] at analysed
        exact analysed
      | ok position =>
        rw [result] at analysed
        have member : position ∈ targetRegions regions targetStateId := analysed
        have below : position < regions.length := (List.getElem?_eq_some_iff.mp (mem_targetRegions.mp member).choose_spec.1).1
        have kept : (if mcaAlgo = .smart then scores.modify position fun entry => { entry with selectedTimes := entry.selectedTimes + 1 }
            else scores).length = regions.length := by
          rw [← length]
          split
          · exact List.length_modify ..
          · rfl
        simp only [bind, Except.bind, pure, Except.pure]
        by_cases last : regions.length ≤ position + 1
        · rw [if_pos last]
          refine ⟨zero, kept, Or.inr ?_⟩
          rwa [show regions.length - 1 = position by omega]
        · rw [if_neg last]
          exact ⟨Selected.of_start (by omega) (fun initial => absurd initial zero) fun _ => ⟨position, member, rfl⟩, kept⟩

/-- The loop stops at the first region that has no states or ends in the target state. -/
theorem originalStart_eq (targetStateId : Nat) (regions : List (List Nat)) :
    originalStart targetStateId regions =
      match regions.findIdx? fun region => decide (region = [] ∨ region.getLast? = some targetStateId) with
      | none => some regions.length
      | some i => if regions[i]? = some [] then none else some (i + 1) := by
  induction regions with
  | nil => rfl
  | cons region rest ih =>
    rw [originalStart, List.findIdx?_cons]
    cases last : region.getLast? with
    | none =>
      obtain rfl := List.getLast?_eq_none_iff.mp last
      simp
    | some reachableStateId =>
      have some_ : region ≠ [] := by
        rintro rfl
        cases last
      by_cases reached : reachableStateId = targetStateId
      · simp [reached, some_]
      · simp only [some_, Option.some.injEq, reached, or_self, decide_false, Bool.false_eq_true, if_false, ih]
        cases rest.findIdx? fun region => decide (region = [] ∨ region.getLast? = some targetStateId) with
        | none => rfl
        | some i =>
          simp only [Option.map_some, List.getElem?_cons_succ]
          split <;> rfl

theorem head_targetRegions {position : Nat} (member : position ∈ targetRegions regions targetStateId)
    (first : ∀ earlier < position, earlier ∉ targetRegions regions targetStateId) :
    (targetRegions regions targetStateId).head? = some position := by
  have reached {i : Nat} : i ∈ targetRegions regions targetStateId ↔
      i < regions.length ∧ (regions[i]?.bind List.getLast?) = some targetStateId := by simp [targetRegions]
  obtain ⟨below, ends⟩ := reached.mp member
  rw [targetRegions, List.head?_filter, List.find?_range_eq_some]
  refine ⟨by simpa using ends, List.mem_range.mpr below, fun earlier before => ?_⟩
  have not_ := first earlier before
  rw [reached] at not_
  simpa using fun here => not_ ⟨by omega, here⟩

/-- Without snapshots M2 begins after the first region that ends in the target state, past the last region if there is none, and nowhere
if a region without states comes before. -/
theorem originalStart_spec (targetStateId : Nat) (regions : List (List Nat)) :
    match originalStart targetStateId regions with
    | none => ∃ i, regions[i]? = some [] ∧ ∀ position ∈ targetRegions regions targetStateId, i < position
    | some m2Start => (∀ i, regions[i]? = some [] → ∃ position ∈ targetRegions regions targetStateId, position ≤ i) ∧
        m2Start = ((targetRegions regions targetStateId).head?.map (· + 1)).getD regions.length := by
  rw [originalStart_eq]
  cases found : regions.findIdx? fun region => decide (region = [] ∨ region.getLast? = some targetStateId) with
  | none =>
    rw [List.findIdx?_eq_none_iff] at found
    have none_ : targetRegions regions targetStateId = [] := by
      refine List.eq_nil_iff_forall_not_mem.mpr fun i member => ?_
      obtain ⟨region, here, ends⟩ := mem_targetRegions.mp member
      simpa [ends] using found region (List.mem_of_getElem? here)
    refine ⟨fun i bare => ?_, by simp [none_]⟩
    simpa using found [] (List.mem_of_getElem? bare)
  | some i =>
    obtain ⟨below, stops, before⟩ := List.findIdx?_eq_some_iff_getElem.mp found
    have here : regions[i]? = some regions[i] := List.getElem?_eq_getElem below
    -- No region before the one it stops at ends in the target state.
    have later (earlier : Nat) (first : earlier < i) : regions[earlier]? ≠ some [] ∧ earlier ∉ targetRegions regions targetStateId := by
      have passed := before earlier first
      have there : regions[earlier]? = some regions[earlier] := List.getElem?_eq_getElem (by omega)
      simp only [decide_eq_true_eq, not_or] at passed
      refine ⟨fun bare => passed.1 (Option.some.inj (there.symm.trans bare)), fun member => ?_⟩
      obtain ⟨region, found, ends⟩ := mem_targetRegions.mp member
      rw [there, Option.some.injEq] at found
      exact passed.2 (found ▸ ends)
    by_cases bare : regions[i] = []
    · simp only [here, bare, if_true]
      refine ⟨i, by rw [here, bare], fun position member => ?_⟩
      by_contra not_after
      rcases Nat.lt_or_eq_of_le (Nat.not_lt.mp not_after) with first | rfl
      · exact (later position first).2 member
      · obtain ⟨region, found, ends⟩ := mem_targetRegions.mp member
        rw [here, bare, Option.some.injEq] at found
        rw [← found] at ends
        cases ends
    · have ends : regions[i].getLast? = some targetStateId := by simpa [bare] using stops
      have member : i ∈ targetRegions regions targetStateId := mem_targetRegions.mpr ⟨_, here, ends⟩
      have head := head_targetRegions member fun earlier first => (later earlier first).2
      simp only [here, Option.some.injEq, bare, if_false]
      refine ⟨fun j bare' => ⟨i, member, ?_⟩, by rw [head]; rfl⟩
      by_contra first
      exact (later j (by omega)).1 bare'

/-- With the first position, the selection with snapshots is the one without, but for the entries that the latter skips since a region has
no states before any ends in the target state. -/
theorem selectM2_agree (score : RegionScore → Nat) (queueCycle draw : Nat) (regions : List (List Nat)) (regionsScores : List RegionScore)
    (targetStateId : Nat) :
    ((targetStateId = 0 ∨ ¬ ∃ i, regions[i]? = some [] ∧ ∀ position ∈ targetRegions regions targetStateId, i < position) →
      selectM2Original regions targetStateId =
        (selectM2Snapshot score .first queueCycle draw regions regionsScores targetStateId).map Prod.fst) ∧
    (targetStateId ≠ 0 → (∃ i, regions[i]? = some [] ∧ ∀ position ∈ targetRegions regions targetStateId, i < position) →
      selectM2Original regions targetStateId = .ok none) := by
  by_cases none_ : regions = []
  · simp [selectM2Original, selectM2Snapshot, none_, Except.map]
  by_cases initial : targetStateId = 0
  · simp [selectM2Original, selectM2Snapshot, none_, initial, Except.map]
  have start := originalStart_spec targetStateId regions
  cases result : originalStart targetStateId regions with
  | none =>
    rw [result] at start
    refine ⟨fun either => absurd start (either.resolve_left initial), fun _ _ => ?_⟩
    simp only [selectM2Original, if_neg none_, if_neg initial, result]
  | some m2Start =>
    rw [result] at start
    obtain ⟨bare, begins⟩ := start
    refine ⟨fun _ => ?_, ?_⟩
    · cases head : (targetRegions regions targetStateId).head? with
      | none =>
        have unreached := List.head?_eq_none_iff.mp head
        simp [selectM2Original, selectM2Snapshot, none_, initial, result, begins, unreached, Except.map]
      | some position =>
        have member := List.mem_of_mem_head? (Option.mem_def.mpr head)
        have annotated : ¬ ((∀ region ∈ regions, region = []) ∨ targetRegions regions targetStateId = []) := by
          rintro (all | unreached)
          · obtain ⟨region, here, ends⟩ := mem_targetRegions.mp member
            rw [all region (List.mem_of_getElem? here)] at ends
            cases ends
          · rw [unreached] at member
            cases member
        obtain rfl : m2Start = position + 1 := by rw [begins, head]; rfl
        simp only [selectM2Original, selectM2Snapshot, if_neg none_, if_neg initial, result, if_neg annotated, messageChainAnalysis, head,
          bind, Except.bind, pure, Except.pure, Except.map, reduceCtorEq, if_false]
        split <;> rfl
    · rintro _ ⟨i, bare', after⟩
      obtain ⟨position, member, upTo⟩ := bare i bare'
      exact absurd (after position member) (by omega)

/-- A seed on the list of a state is skipped only when its last region ends in that state. -/
theorem campaign_selects {env : Env} {runs : List DryRun} {events : List Event} {table : StateTable}
    (ran : campaign env runs events = .ok table) {info : StateInfo} (known : table.infos targetStateId = some info) {seed : Nat}
    (listed : seed ∈ info.seeds) {entry : Seed} (here : table.queue[seed]? = some entry)
    (score : RegionScore → Nat) (mcaAlgo : McaAlgo) (queueCycle draw : Nat) {regionsScores : List RegionScore}
    (scored : regionsScores.length = entry.annotated.length) :
    match selectM2Snapshot score mcaAlgo queueCycle draw entry.annotated regionsScores targetStateId with
    | .ok (some (m2Start, m2Count), _) => Selected entry.annotated targetStateId m2Start m2Count
    | .ok (none, _) => ∃ region, entry.annotated.getLast? = some region ∧ region.getLast? = some targetStateId
    | .error abort => abort = .divisionByZero ∧ mcaAlgo = .smart := by
  obtain ⟨_, regions, found, some_, ends⟩ := campaign_kept ran targetStateId seed (by simpa [lists, known] using listed)
  rw [annotations, List.getElem?_map, here, Option.map_some, Option.some.injEq] at found
  subst found
  have spec := selectM2Snapshot_spec score mcaAlgo queueCycle draw
    (show entry.annotated ≠ [] from List.append_ne_nil_of_left_ne_nil some_ _) scored targetStateId
  have reached : targetStateId ≠ 0 → targetRegions entry.annotated targetStateId ≠ [] := by
    intro other
    obtain ⟨region, member, last⟩ := ends.resolve_left other
    obtain ⟨i, below, equal⟩ := List.getElem_of_mem member
    have inside : entry.annotated[i]? = some region := by
      rw [Seed.annotated, List.getElem?_append_left below, List.getElem?_eq_getElem below, equal]
    exact List.ne_nil_of_mem (mem_targetRegions.mpr ⟨region, inside, last⟩)
  cases result : selectM2Snapshot score mcaAlgo queueCycle draw entry.annotated regionsScores targetStateId with
  | error abort =>
    rw [result] at spec
    exact spec
  | ok chosen =>
    rw [result] at spec
    obtain ⟨selection, after⟩ := chosen
    cases selection with
    | some m2 => exact spec.1
    | none =>
      obtain ⟨other, _, none_ | member⟩ := spec
      · exact absurd none_ (reached other)
      · rw [List.getLast?_eq_getElem?]
        exact mem_targetRegions.mp member

theorem selectM2Random_spec {totalRegion : Nat} (some_ : totalRegion ≠ 0) (draws : Nat → Nat) :
    ∃ m2Start m2Count, selectM2Random totalRegion draws = .ok (m2Start, m2Count) ∧ 0 < m2Count ∧ m2Start + m2Count ≤ totalRegion := by
  have first := Nat.mod_lt (draws 0) (Nat.pos_of_ne_zero some_)
  have second := Nat.mod_lt (draws 1) (show 0 < totalRegion - draws 0 % totalRegion by omega)
  refine ⟨_, _, if_neg some_, ?_, ?_⟩ <;> omega

theorem campaign_selects_greeting : ∃ table entry, campaign greetingEnv [greeting] [.saved greeting.response] = .ok table ∧
    table.queue[1]? = some entry ∧
    match selectM2Snapshot (fun _ => 1) .first 0 0 entry.annotated [{}, {}] 220 with
    | .ok (some (m2Start, m2Count), _) => Selected entry.annotated 220 m2Start m2Count
    | .ok (none, _) => ∃ region, entry.annotated.getLast? = some region ∧ region.getLast? = some 220
    | .error abort => abort = .divisionByZero ∧ McaAlgo.first = .smart := by
  have ends : (campaign greetingEnv [greeting] [.saved greeting.response]).toOption.any (fun table =>
      ((table.infos 220).any fun info => info.seeds.contains 1) && (table.queue[1]?.any fun entry => entry.annotated.length == 2)) = true := by
    decide
  obtain ⟨table, ran, held⟩ := checked_ok ends
  obtain ⟨listed, there⟩ := Bool.and_eq_true_iff.mp held
  obtain ⟨info, known, listed⟩ := (Option.any_eq_true _ _).mp listed
  obtain ⟨entry, here, regions⟩ := (Option.any_eq_true _ _).mp there
  have two : entry.annotated.length = 2 := by simpa using regions
  exact ⟨table, entry, ran, here, campaign_selects ran known (by simpa using listed) here
    (fun _ => 1) .first 0 0 two.symm⟩

example : selectM2Snapshot (fun _ => 1) .first 0 0 [[0, 220], [0, 220, 331]] [] 220 = .ok (some (1, 1), []) := rfl

end Selection

section Favoring

/-- When no favored entry is pending, the loop in `choose_seed` passes every favored seed: it takes one that is not favored, or the last of
the list after five passes. -/
theorem campaign_passesFavored {env : Env} (steady : env.extractResponseCodes ∈ steadyExtractors) {runs : List DryRun} {events : List Event}
    {table : StateTable} (ran : campaign env runs events = .ok table) {info : StateInfo}
    (known : table.infos table.targetStateId = some info) (many : 10 < info.seeds.length) {view : QueueView}
    (none_ : view.pendingFavored = false) (draws : Nat → Nat) :
    ∃ seed after, table.chooseSeed .favor view draws = .ok (some seed, after) ∧ seed ∈ info.seeds ∧
      (view.favored seed = false ∧ 10 < table.queue.length ∨ info.seeds.getLast? = some seed) := by
  obtain ⟨sound, _⟩ := campaign_sound (steadyExtractors_gradual steady) ran
  obtain ⟨reached, index⟩ := sound.seeds _ info known
  have member : table.targetStateId ∈ table.stateIds := (sound.known _).mp (by simp [known])
  have inside : info.selectedSeedIndex < info.seeds.length := by
    rcases index with inside | zero
    · exact inside
    · omega
  obtain ⟨seed, next, goes, listed, _, passes⟩ := passSeeds_spec view draws
    (fun seed listed => ⟨(reached seed listed).1, sound.columns ▸ (reached seed listed).1⟩) (sound.getStateIndex_lt member)
    (5 * info.seeds.length + 1) 0 info.selectedSeedIndex 0 inside (by omega) (by omega)
  have some_ : info.seeds ≠ [] := List.ne_nil_of_length_pos (by omega)
  simp only [chooseSeed, known, if_neg some_, pickSeed, if_pos many, goes]
  exact ⟨seed, _, rfl, listed, (passes none_).imp_right And.right⟩

theorem campaign_passesFavored_greeting : ∃ table info, campaign greetingEnv (List.replicate 11 greeting) [] = .ok table ∧
    table.infos table.targetStateId = some info ∧
    ∃ seed after, table.chooseSeed .favor { greetingView with pendingFavored := false } id = .ok (some seed, after) ∧ seed ∈ info.seeds ∧
      (greetingView.favored seed = false ∧ 10 < table.queue.length ∨ info.seeds.getLast? = some seed) := by
  have ends : (campaign greetingEnv (List.replicate 11 greeting) []).toOption.any (fun table =>
      (table.infos table.targetStateId).any fun info => decide (10 < info.seeds.length)) = true := by decide
  obtain ⟨table, ran, held⟩ := checked_ok ends
  obtain ⟨info, known, many⟩ := (Option.any_eq_true _ _).mp held
  exact ⟨table, info, ran, known, campaign_passesFavored (by simp [greetingEnv, steadyExtractors]) ran known (by simpa using many) rfl id⟩

end Favoring

end LtlFuzz.Fuzzer

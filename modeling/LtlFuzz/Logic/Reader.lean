import Mathlib.Data.List.Basic

/-! Readers that go over a memory up to a limit. A turn gives some items and goes on at another state, or
ends the reading; the limit says when there are no more turns. A reader is steady when a larger limit only
makes it read further. -/

namespace LtlFuzz.Logic

variable {σ β : Type*}

/-- What a turn comes to: the items it gives, and the state it goes on at unless the reading ends. -/
structure Turn (σ β : Type*) where
  items : List β
  next : Option σ

/-- The items of all turns; `none` when a turn fails or there are more turns than fuel. -/
def readUpTo (turn : Nat → σ → Option (Turn σ β)) (position : σ → Nat) (limit : Nat) : Nat → σ → Option (List β)
  | 0, _ => none
  | fuel + 1, state =>
    if position state < limit then
      match turn limit state with
      | none => none
      | some ⟨items, none⟩ => some items
      | some ⟨items, some next⟩ => (readUpTo turn position limit fuel next).map (items ++ ·)
    else some []

/-- What some turns give one after the other, and the state after them. -/
def afterTurns (turn : Nat → σ → Option (Turn σ β)) (limit : Nat) : Nat → σ → Option (List β × σ)
  | 0, state => some ([], state)
  | count + 1, state =>
    match turn limit state with
    | some ⟨items, some next⟩ => (afterTurns turn limit count next).map fun rest => (items ++ rest.1, rest.2)
    | _ => none

variable {turn : Nat → σ → Option (Turn σ β)} {position : σ → Nat} {limit larger : Nat}

/-- A turn that comes back to its state is taken again and again. -/
theorem afterTurns_stuck {state : σ} {item : β} (stuck : turn limit state = some ⟨[item], some state⟩) (count : Nat) :
    afterTurns turn limit count state = some (List.replicate count item, state) := by
  induction count with
  | zero => rfl
  | succ count ih => simp [afterTurns, stuck, ih, List.replicate_succ]

theorem readUpTo_done {fuel : Nat} {state : σ} {items : List β} (done : limit ≤ position state)
    (read : readUpTo turn position limit fuel state = some items) : items = [] := by
  cases fuel with
  | zero => cases read
  | succ fuel =>
    rw [readUpTo, if_neg (Nat.not_lt.mpr done)] at read
    exact (Option.some.inj read).symm

/-- Under a larger limit a turn is the same, or it gives at least what is read in all under the smaller one. -/
def Steady (turn : Nat → σ → Option (Turn σ β)) (position : σ → Nat) : Prop :=
  ∀ limit larger state, limit ≤ larger → position state < limit →
    turn limit state = turn larger state ∨
      ∀ fuel items result, readUpTo turn position limit fuel state = some items → turn larger state = some result → items <+: result.items

theorem Steady.grows (steady : Steady turn position) (wider : limit ≤ larger) {fuel fuel' : Nat} {state : σ} {short long : List β}
    (first : readUpTo turn position limit fuel state = some short) (second : readUpTo turn position larger fuel' state = some long) :
    short <+: long := by
  induction fuel generalizing fuel' state short long with
  | zero => cases first
  | succ fuel ih =>
    cases fuel' with
    | zero => cases second
    | succ fuel' =>
      by_cases inside : position state < limit
      · have whole := first
        rw [readUpTo, if_pos inside] at first
        rw [readUpTo, if_pos (Nat.lt_of_lt_of_le inside wider)] at second
        cases result : turn larger state with
        | none => simp [result] at second
        | some other =>
          obtain ⟨items, next⟩ := other
          rcases steady limit larger state wider inside with same | ends
          · rw [same, result] at first
            rw [result] at second
            cases next with
            | none =>
              simp only [Option.some.injEq] at first second
              subst first second
              exact List.prefix_rfl
            | some next =>
              simp only [Option.map_eq_some_iff] at first second
              obtain ⟨rest, read, rfl⟩ := first
              obtain ⟨rest', read', rfl⟩ := second
              exact (List.prefix_append_right_inj items).mpr (ih read read')
          · have before := ends _ _ _ whole result
            rw [result] at second
            cases next with
            | none =>
              simp only [Option.some.injEq] at second
              rwa [← second]
            | some next =>
              simp only [Option.map_eq_some_iff] at second
              obtain ⟨rest, _, rfl⟩ := second
              exact before.trans (List.prefix_append items rest)
      · rw [readUpTo, if_neg inside] at first
        rw [← Option.some.inj first]
        exact List.nil_prefix

/-- A reader whose turns do not look at the limit. -/
theorem Steady.of_constant (same : ∀ limit larger state, turn limit state = turn larger state) : Steady turn position :=
  fun limit larger state _ _ => Or.inl (same limit larger state)

/-- What holds of every item that a turn gives holds of every item that is read. -/
theorem readUpTo_forall {holds : β → Prop} (each : ∀ state result, turn limit state = some result → ∀ item ∈ result.items, holds item)
    {fuel : Nat} {state : σ} {items : List β} (read : readUpTo turn position limit fuel state = some items) : ∀ item ∈ items, holds item := by
  induction fuel generalizing state items with
  | zero => cases read
  | succ fuel ih =>
    rw [readUpTo] at read
    split at read
    · cases result : turn limit state with
      | none => simp [result] at read
      | some other =>
        obtain ⟨given, next⟩ := other
        rw [result] at read
        cases next with
        | none =>
          simp only [Option.some.injEq] at read
          rw [← read]
          exact each state _ result
        | some next =>
          simp only [Option.map_eq_some_iff] at read
          obtain ⟨rest, later, rfl⟩ := read
          intro item member
          rcases List.mem_append.mp member with here | after
          · exact each state _ result item here
          · exact ih later item after
    · simp only [Option.some.injEq] at read
      rw [← read]
      simp

/-- A reader ends when its turns keep an invariant, do not fail under it, and bring some measure down. -/
theorem readUpTo_ends (keeps : σ → Prop) (measure : σ → Nat)
    (each : ∀ state, keeps state → position state < limit →
      ∃ result, turn limit state = some result ∧ ∀ next, result.next = some next → keeps next ∧ measure next < measure state)
    {fuel : Nat} {state : σ} (kept : keeps state) (enough : measure state < fuel) :
    ∃ items, readUpTo turn position limit fuel state = some items := by
  induction fuel generalizing state with
  | zero => omega
  | succ fuel ih =>
    rw [readUpTo]
    split
    next inside =>
      obtain ⟨⟨items, next⟩, result, goes⟩ := each state kept inside
      rw [result]
      cases next with
      | none => exact ⟨items, rfl⟩
      | some next =>
        obtain ⟨kept', less⟩ := goes next rfl
        obtain ⟨rest, read⟩ := ih kept' (by omega)
        exact ⟨items ++ rest, by simp [read]⟩
    next => exact ⟨[], rfl⟩

end LtlFuzz.Logic

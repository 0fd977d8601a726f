import HexAtlas.Grid.Walk
import HexAtlas.Proofs.Grid.Neighbor

namespace HexAtlas.Orientation

variable {o : Orientation} {d : Direction} {h next start : Hex} {n : ℕ} {cells : List Hex} {step : Step}
  {steps : List Step} {runs : List (List Hex)}

/-- One of the six moves on slanted axes leads from the first cell to the second. -/
def Touches (o : Orientation) (h next : Hex) : Prop := ∃ m ∈ moves, o.toAxial next = (o.toAxial h).moved m

theorem touches_of_neighbor? (found : o.neighbor? h d = some next) : o.Touches h next := by
  rw [← ofAxial_toAxial o h, neighbor?_eq, Option.map_eq_some_iff] at found
  obtain ⟨m, first, rfl⟩ := found
  exact ⟨m, List.mem_of_find?_eq_some first, toAxial_ofAxial o _⟩

/-- A run of at most `limit` cells from `h` in a direction. -/
structure IsRun (o : Orientation) (d : Direction) (limit : ℕ) (h : Hex) (cells : List Hex) : Prop where
  beside : (h :: cells).IsChain fun a b => o.neighbor? a d = some b ∧ o.Touches a b
  short : cells.length ≤ limit
  stuck : cells.length < limit → o.neighbor? (cells.getLastD h) d = none

/-- What a step may add to a walk that has come to `h`. -/
def Adds (o : Orientation) (h : Hex) : Step → List Hex → Prop
  | .reach cell, cells => cells = [cell]
  | .toward d distance, cells => o.IsRun d (min distance 999) h cells

/-- One run for each step, which goes on from the last cell of the list so far. -/
structure Joins (o : Orientation) (start : Hex) (steps : List Step) (runs : List (List Hex)) : Prop where
  length : runs.length = steps.length
  adds : ∀ i step cells, steps[i]? = some step → runs[i]? = some cells →
    o.Adds ((start :: (runs.take i).flatten).getLast (List.cons_ne_nil _ _)) step cells

theorem isRun_nil (limit : ℕ) (none : limit = 0 ∨ o.neighbor? h d = none) : o.IsRun d limit h [] := by
  refine ⟨List.isChain_singleton h, Nat.zero_le _, fun more => ?_⟩
  exact none.resolve_left (Nat.ne_of_gt more)

theorem isRun_cons :
    o.IsRun d (n + 1) h (next :: cells) ↔ o.neighbor? h d = some next ∧ o.IsRun d n next cells := by
  constructor
  · rintro ⟨beside, short, stuck⟩
    obtain ⟨⟨found, -⟩, later⟩ := List.isChain_cons_cons.mp beside
    refine ⟨found, later, Nat.le_of_succ_le_succ short, fun more => ?_⟩
    rw [← List.getLastD_cons]
    exact stuck (Nat.succ_lt_succ more)
  · rintro ⟨found, beside, short, stuck⟩
    have first : o.neighbor? h d = some next ∧ o.Touches h next := ⟨found, touches_of_neighbor? found⟩
    refine ⟨List.isChain_cons_cons.mpr ⟨first, beside⟩, Nat.succ_le_succ short, fun more => ?_⟩
    rw [List.getLastD_cons]
    exact stuck (Nat.lt_of_succ_lt_succ more)

/-- A direction, a limit and the cell before it leave one run only. -/
theorem isRun_iff : o.IsRun d n h cells ↔ cells = o.run d n h := by
  induction n generalizing h cells with
  | zero =>
    rw [run]
    constructor
    · exact fun r => List.eq_nil_of_length_eq_zero (Nat.le_zero.mp r.short)
    · rintro rfl
      exact isRun_nil 0 (Or.inl rfl)
  | succ n ih =>
    rw [run]
    cases found : o.neighbor? h d with
    | none =>
      constructor
      · intro r
        cases cells with
        | nil => rfl
        | cons next rest =>
          have first := (isRun_cons.mp r).1
          rw [found] at first
          cases first
      · rintro rfl
        exact isRun_nil _ (Or.inr found)
    | some next =>
      cases cells with
      | nil =>
        refine iff_of_false (fun r => ?_) nofun
        have last : o.neighbor? h d = none := r.stuck n.succ_pos
        rw [found] at last
        cases last
      | cons other rest =>
        rw [isRun_cons, found, Option.some.injEq, ih, List.cons.injEq]
        constructor
        · rintro ⟨rfl, rfl⟩
          exact ⟨rfl, rfl⟩
        · rintro ⟨rfl, rfl⟩
          exact ⟨rfl, rfl⟩

theorem adds_iff : o.Adds h step cells ↔ cells = o.stepCells h step := by
  cases step with
  | reach cell => rfl
  | toward d distance => exact isRun_iff

theorem Adds.length_le (adds : o.Adds h step cells) : cells.length ≤ 999 := by
  cases step with
  | reach cell =>
    rw [adds, List.length_singleton]
    decide
  | toward d distance => exact adds.short.trans (Nat.min_le_right distance 999)

theorem getLast_cons_append (h : Hex) (cells rest : List Hex) :
    (h :: (cells ++ rest)).getLast (List.cons_ne_nil _ _) =
      (cells.getLastD h :: rest).getLast (List.cons_ne_nil _ _) := by
  induction cells generalizing h with
  | nil => rfl
  | cons cell more ih =>
    rw [List.getLastD_cons, ← ih]
    exact List.getLast_cons _

/-- The first run goes on from the start, and the others from its last cell. -/
theorem joins_cons : o.Joins h (step :: steps) (cells :: runs) ↔
    o.Adds h step cells ∧ o.Joins (cells.getLastD h) steps runs := by
  have last (i : ℕ) : (h :: ((cells :: runs).take (i + 1)).flatten).getLast (List.cons_ne_nil _ _) =
      (cells.getLastD h :: (runs.take i).flatten).getLast (List.cons_ne_nil _ _) :=
    getLast_cons_append h cells _
  constructor
  · rintro ⟨length, adds⟩
    refine ⟨adds 0 step cells rfl rfl, Nat.succ.inj length, fun i step cells atStep atRun => ?_⟩
    rw [← last]
    exact adds (i + 1) step cells atStep atRun
  · rintro ⟨first, length, adds⟩
    refine ⟨congrArg Nat.succ length, fun i step cells atStep atRun => ?_⟩
    cases i with
    | zero =>
      cases atStep
      cases atRun
      exact first
    | succ i =>
      rw [last]
      exact adds i step cells atStep atRun

/-- The runs of a walk, one for each step. -/
def runsFrom (o : Orientation) (h : Hex) : List Step → List (List Hex)
  | [] => []
  | step :: rest => o.stepCells h step :: o.runsFrom ((o.stepCells h step).getLastD h) rest

theorem flatten_runsFrom (o : Orientation) (h : Hex) (steps : List Step) :
    (o.runsFrom h steps).flatten = o.walkFrom h steps := by
  induction steps generalizing h with
  | nil => rfl
  | cons step rest ih => rw [runsFrom, walkFrom, List.flatten_cons, ih]

theorem joins_iff : o.Joins h steps runs ↔ runs = o.runsFrom h steps := by
  induction steps generalizing h runs with
  | nil =>
    constructor
    · exact fun joins => List.eq_nil_of_length_eq_zero joins.length
    · rintro rfl
      exact ⟨rfl, nofun⟩
  | cons step rest ih =>
    cases runs with
    | nil => exact iff_of_false (fun joins => nomatch joins.length) nofun
    | cons cells more =>
      rw [joins_cons, adds_iff, ih, runsFrom, List.cons.injEq]
      constructor
      · rintro ⟨rfl, rfl⟩
        exact ⟨rfl, rfl⟩
      · rintro ⟨rfl, rfl⟩
        exact ⟨rfl, rfl⟩

theorem Joins.length_flatten_le (joins : o.Joins h steps runs) : runs.flatten.length ≤ 999 * steps.length := by
  induction steps generalizing h runs with
  | nil =>
    rw [List.eq_nil_of_length_eq_zero joins.length]
    exact Nat.le_refl 0
  | cons step rest ih =>
    obtain ⟨cells, more, rfl⟩ := List.exists_cons_of_length_eq_add_one joins.length
    obtain ⟨first, later⟩ := joins_cons.mp joins
    have bound := first.length_le
    have bounds := ih later
    rw [List.flatten_cons, List.length_append, List.length_cons]
    omega

/-- A walk is its start and the runs of its steps, which leave no choice. -/
theorem exists_runs_walk (o : Orientation) (start : Hex) (steps : List Step) :
    ∃ runs : List (List Hex), o.Joins start steps runs ∧ (∀ other, o.Joins start steps other → other = runs) ∧
      o.walk start steps = start :: runs.flatten ∧ (o.walk start steps).length ≤ 1 + 999 * steps.length := by
  have joins : o.Joins start steps (o.runsFrom start steps) := joins_iff.mpr rfl
  have whole : o.walk start steps = start :: (o.runsFrom start steps).flatten := by rw [walk, flatten_runsFrom]
  refine ⟨o.runsFrom start steps, joins, fun _ => joins_iff.mp, whole, ?_⟩
  have bound := joins.length_flatten_le
  rw [whole, List.length_cons]
  omega

end HexAtlas.Orientation

import SimplexTableau.Proofs.Execution

namespace SimplexTableau

open scoped BigOperators

/-!
# The slack block

In the first tableau the slack columns form an identity under zeros.  What pivots do to the rows
they do to these columns too, so afterwards the slack columns tell which multiples of the
constraints went into each row:

* `Problem.slackEntry` — the cells of the slack columns;
* `Problem.RecordsOperations` — every other cell follows from those of its row and the data of the
  problem;
* `row_at_point` — every point satisfies each row together with its slacks, since pivots keep the
  solutions of the first tableau;
* `recordsOperations_of_reaches` — at the origin and at the unit points this gives the cells.

The last theorem says so of every tableau that pivots reach and of the records of every run.
-/

namespace Problem

/-- The cell of row `i` in the column of slack `m`. -/
def slackEntry (p : Problem Rat) (t : Tableau Rat) (i m : Nat) : Rat :=
  t.entry i (p.numVariables + m)

/-- The slack columns record the row operations that made the tableau.  The objective row is the
    first one plus the constraints weighted by its slack entries; row `i` of the constraints is
    the sum of the constraints weighted by its slack entries. -/
structure RecordsOperations (p : Problem Rat) (t : Tableau Rat) : Prop where
  /-- The objective row in the column of a decision variable. -/
  objective_cell : ∀ j < p.numVariables, t.entry 0 j
    = -p.cost j + ∑ m ∈ Finset.range p.numConstraints, p.slackEntry t 0 m * p.coefficient m j
  /-- The value of the objective. -/
  objective_rhs : t.entry 0 t.rhsColumn
    = ∑ m ∈ Finset.range p.numConstraints, p.slackEntry t 0 m * p.bound m
  /-- A constraint row in the column of a decision variable. -/
  constraint_cell : ∀ i, 0 < i → i ≤ p.numConstraints → ∀ j < p.numVariables, t.entry i j
    = ∑ m ∈ Finset.range p.numConstraints, p.slackEntry t i m * p.coefficient m j
  /-- The right-hand side of a constraint row. -/
  constraint_rhs : ∀ i, 0 < i → i ≤ p.numConstraints → t.entry i t.rhsColumn
    = ∑ m ∈ Finset.range p.numConstraints, p.slackEntry t i m * p.bound m

variable {p : Problem Rat} {t : Tableau Rat} {i j : Nat}

/-! ### The origin and the unit points -/

/-- The point with 1 for variable `j` and 0 for all others. -/
def unitPoint (j k : Nat) : Rat := if k = j then 1 else 0

theorem sum_mul_unitPoint {n : Nat} (hj : j < n) (f : Nat → Rat) :
    ∑ k ∈ Finset.range n, f k * unitPoint j k = f j := by
  rw [← mul_one (f j)]
  exact Tableau.sum_mul_single hj f 1

theorem objectiveAt_unitPoint (hj : j < p.numVariables) :
    p.objectiveAt (unitPoint j) = p.cost j := sum_mul_unitPoint hj p.cost

theorem constraintAt_unitPoint (hj : j < p.numVariables) (m : Nat) :
    p.constraintAt (unitPoint j) m = p.coefficient m j := sum_mul_unitPoint hj (p.coefficient m)

@[simp] theorem objectiveAt_origin (p : Problem Rat) : p.objectiveAt (fun _ => 0) = 0 := by
  simp [objectiveAt]

@[simp] theorem constraintAt_origin (p : Problem Rat) (m : Nat) :
    p.constraintAt (fun _ => 0) m = 0 := by
  simp [constraintAt]

/-! ### Rows at points -/

/-- The row sum at a point with its slacks. -/
theorem rowSum_withSlacks (hcolumns : t.rhsColumn = p.numVariables + p.numConstraints)
    (x : Nat → Rat) (i : Nat) :
    t.rowSum (p.withSlacks x) i
      = ∑ k ∈ Finset.range p.numVariables, t.entry i k * x k
        + ∑ m ∈ Finset.range p.numConstraints,
          p.slackEntry t i m * (p.bound m - p.constraintAt x m) := by
  rw [Tableau.rowSum, hcolumns, Finset.sum_range_add]
  refine congrArg₂ (· + ·) (Finset.sum_congr rfl fun k hk => ?_)
    (Finset.sum_congr rfl fun m _ => ?_)
  · rw [withSlacks_of_lt (Finset.mem_range.mp hk)]
  · rw [withSlacks_slack, slackEntry]

/-- **Every point satisfies every row** of a tableau that pivots reach, with its slacks for the
    slack variables and its objective for `Z`. -/
theorem row_at_point (hp : p.WellShaped) (h : p.firstTableau.Reaches t)
    (hi : i ≤ p.numConstraints) (x : Nat → Rat) :
    (if i = 0 then p.objectiveAt x else 0)
        + (∑ k ∈ Finset.range p.numVariables, t.entry i k * x k
          + ∑ m ∈ Finset.range p.numConstraints,
            p.slackEntry t i m * (p.bound m - p.constraintAt x m))
      = t.entry i t.rhsColumn := by
  have hframe := h.sameFrame (firstTableau_wellShaped hp)
  have hcolumns : t.rhsColumn = p.numVariables + p.numConstraints := by
    rw [hframe.rhsColumn_eq, rhsColumn_firstTableau]
  have hrow : i < t.numRows := by
    rw [hframe.numRows_eq, numRows_firstTableau hp]
    omega
  have hzero : t.residual (p.objectiveAt x) (p.withSlacks x) i = 0 :=
    (h.solves_iff (firstTableau_wellShaped hp)).mpr (solves_withSlacks hp x) i hrow
  rw [Tableau.residual, rowSum_withSlacks hcolumns] at hzero
  exact sub_eq_zero.mp hzero

/-- The right-hand side of a row, from the row at the origin. -/
theorem rhs_eq_sum_slackEntry (hp : p.WellShaped) (h : p.firstTableau.Reaches t)
    (hi : i ≤ p.numConstraints) :
    t.entry i t.rhsColumn
      = ∑ m ∈ Finset.range p.numConstraints, p.slackEntry t i m * p.bound m := by
  rw [← row_at_point hp h hi fun _ => 0]
  simp

/-- The cell of a row under a decision variable, from the row at the unit point. -/
theorem entry_eq_sum_slackEntry (hp : p.WellShaped) (h : p.firstTableau.Reaches t)
    (hi : i ≤ p.numConstraints) (hj : j < p.numVariables) :
    t.entry i j = (if i = 0 then -p.cost j else 0)
      + ∑ m ∈ Finset.range p.numConstraints, p.slackEntry t i m * p.coefficient m j := by
  have hrow := row_at_point hp h hi (unitPoint j)
  simp only [sum_mul_unitPoint hj, objectiveAt_unitPoint hj, constraintAt_unitPoint hj, mul_sub,
    Finset.sum_sub_distrib] at hrow
  rw [rhs_eq_sum_slackEntry hp h hi] at hrow
  by_cases hi0 : i = 0
  · rw [if_pos hi0] at hrow ⊢
    linarith
  · rw [if_neg hi0] at hrow ⊢
    linarith

/-! ### Tableaus that pivots reach -/

/-- **The slack columns record the row operations** of every tableau that pivots reach. -/
theorem recordsOperations_of_reaches (hp : p.WellShaped) (h : p.firstTableau.Reaches t) :
    p.RecordsOperations t where
  objective_cell j hj := by
    rw [entry_eq_sum_slackEntry hp h (Nat.zero_le _) hj, if_pos rfl]
  objective_rhs := rhs_eq_sum_slackEntry hp h (Nat.zero_le _)
  constraint_cell i hi0 hi j hj := by
    rw [entry_eq_sum_slackEntry hp h hi hj, if_neg (Nat.ne_of_gt hi0), zero_add]
  constraint_rhs _ _ hi := rhs_eq_sum_slackEntry hp h hi

/-- **The slack block of an accepted problem.** Its first tableau exists, every tableau that is
    reached from there by pivots on constraint rows and nonzero elements records their row
    operations, and so do the tableaus of all records at every accepted tolerance. -/
theorem slack_block (hp : p.validate = .ok ()) :
    ∃ t, p.tableau = .ok t
      ∧ (∀ u, t.Reaches u → p.RecordsOperations u)
      ∧ ∀ (s : Solver Rat) (tolerance : Rat), 0 ≤ tolerance → ∃ records last,
        ((s.withTolerance tolerance).start t).collect = .ok (records, last)
          ∧ records.head?.map (·.tableau) = some t
          ∧ ∀ record ∈ records, p.RecordsOperations record.tableau := by
  obtain ⟨hshape, -⟩ := validate_rat_iff.mp hp
  refine ⟨p.firstTableau, tableau_eq hp, fun u hu => recordsOperations_of_reaches hshape hu,
    fun s tolerance htol => ?_⟩
  obtain ⟨runs, last, -, hcollect, hchain, hexamined, hlast, -⟩ := solve_ok s hp htol
  refine ⟨runs.map Run.report, last, hcollect, head?_tableau_records hlast hchain, ?_⟩
  rw [List.forall_mem_map]
  exact fun r hr => recordsOperations_of_reaches hshape
    ((hexamined r hr).pivots.reaches (firstTableau_wellShaped hshape))

/-- A problem with two variables under two constraints. -/
def twoByTwo : Problem Rat := ⟨[5, 2], [[2, 1], [10, 12]], [6, 60]⟩

theorem slack_block_twoByTwo :
    twoByTwo.validate = .ok ()
      ∧ ∃ t u, twoByTwo.tableau = .ok t ∧ pivot t 1 0 = .ok (2, u)
        ∧ twoByTwo.RecordsOperations u
        ∧ ∃ records last,
          ((Solver.standard.withTolerance (1 / 1000000000)).start t).collect = .ok (records, last)
            ∧ records.head?.map (·.tableau) = some t
            ∧ ∀ record ∈ records, twoByTwo.RecordsOperations record.tableau := by
  have hp : twoByTwo.validate = .ok () := by decide +kernel
  obtain ⟨t, ht, hreaches, hrun⟩ := slack_block hp
  obtain rfl : t = twoByTwo.firstTableau := Except.ok.inj (ht.symm.trans (tableau_eq hp))
  have hshape : twoByTwo.firstTableau.WellShaped :=
    firstTableau_wellShaped (validate_rat_iff.mp hp).1
  have hpivot : pivot twoByTwo.firstTableau 1 0 = .ok (2, twoByTwo.firstTableau.pivoted 1 0) :=
    hshape.pivot_eq_ok_iff.mpr ⟨⟨by decide, by decide⟩, by decide +kernel, rfl⟩
  exact ⟨hp, _, _, ht, hpivot, hreaches _ (.single ⟨1, 0, 2, by decide, by decide, hpivot⟩),
    hrun _ _ (by decide +kernel)⟩

end Problem

end SimplexTableau

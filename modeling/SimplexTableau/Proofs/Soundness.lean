import SimplexTableau.Proofs.BasicSolution
import SimplexTableau.Proofs.RatioTest
import Mathlib.Algebra.Order.Archimedean.Basic
import Mathlib.Data.Rat.Floor

namespace SimplexTableau

open scoped BigOperators

/-!
# What the status of a solution guarantees

Over fractions and at tolerance 0 the method is exact, whatever the number of allowed pivots; at
other tolerances the value of an optimum is an upper bound up to the tolerance:

* `Tableau.objective_le_of_solves` — no solution of a tableau without negative values exceeds the
  right-hand side of the objective row, if the objective entries are not negative;
* `Tableau.ray` — the solutions along a column that can grow without limit, `solves_ray` and
  `ray_nonneg`;
* `Examined.isMaximum_valueAt` — the basic solution of an optimal tableau is feasible, and no
  feasible point has a greater objective;
* `Examined.exists_objectiveAt_gt` — under an unbounded tableau feasible points have objectives as
  great as one likes;
* `Examined.objectiveAt_le` — no feasible point exceeds an optimal tableau's value by more than
  the tolerance times the sum of its coordinates and slacks.

The last section says the same of the solutions that a problem is given.
-/

namespace Tableau

variable {t : Tableau Rat} {z K τ : Rat} {v : Nat → Rat} {c : Nat}

/-! ### The objective of a solution -/

/-- **The bound of the objective row.** If no objective entry is below `-tolerance`, a solution
    without negative values exceeds the right-hand side by no more than the tolerance times its
    sum. -/
theorem objective_le_of_solves (ht : t.WellShaped) {tolerance : Rat}
    (hentries : ∀ j < t.rhsColumn, -tolerance ≤ t.entry 0 j) (hsolves : t.Solves z v)
    (hnonneg : ∀ j < t.rhsColumn, 0 ≤ v j) :
    z ≤ t.entry 0 t.rhsColumn + tolerance * ∑ j ∈ Finset.range t.rhsColumn, v j := by
  have hrow : z + t.rowSum v 0 - t.entry 0 t.rhsColumn = 0 := by
    rw [← residual_zero]
    exact hsolves 0 ht.numRows_pos
  have hsum : -tolerance * ∑ j ∈ Finset.range t.rhsColumn, v j ≤ t.rowSum v 0 := by
    rw [rowSum, Finset.mul_sum]
    refine Finset.sum_le_sum fun j hj => ?_
    have hj' : j < t.rhsColumn := Finset.mem_range.mp hj
    exact mul_le_mul_of_nonneg_right (hentries j hj') (hnonneg j hj')
  linarith

/-! ### Rays -/

/-- The values when the variable of column `c` is raised to `τ` and the basic variables make up
    for it. -/
def ray (t : Tableau Rat) (c : Nat) (τ : Rat) (k : Nat) : Rat :=
  t.spread 0 (fun r => t.entry r t.rhsColumn - τ * t.entry r c) k + if k = c then τ else 0

/-- **A ray solves the tableau**, and the objective changes at the rate of the objective entry. -/
theorem solves_ray (hb : t.HasBasis) (hc : c < t.rhsColumn) (τ : Rat) :
    t.Solves (t.entry 0 t.rhsColumn - τ * t.entry 0 c) (t.ray c τ) := by
  have hraised : ∀ i, t.rowSum (fun k => if k = c then τ else 0) i = τ * t.entry i c := by
    intro i
    rw [rowSum_single hc, mul_comm]
  have hbasic : ∀ i < t.numRows,
      t.rowSum (t.spread 0 fun r => t.entry r t.rhsColumn - τ * t.entry r c) i
        = if i = 0 then 0 else t.entry i t.rhsColumn
          - t.rowSum (fun k => if k = c then τ else 0) i := by
    intro i hi
    rw [(exactBasis_zero t).rowSum_spread hb le_rfl one_pos hi, hraised]
  have hsolves := solves_add hbasic
  rwa [hraised] at hsolves

/-- A ray along a column without positive entries has no negative values. -/
theorem ray_nonneg (hrhs : t.RhsNonneg) (hτ : 0 ≤ τ)
    (hentries : ∀ i, 0 < i → i < t.numRows → t.entry i c ≤ 0) (k : Nat) : 0 ≤ t.ray c τ k := by
  have hbasic : 0 ≤ t.spread 0 (fun r => t.entry r t.rhsColumn - τ * t.entry r c) k := by
    refine spread_nonneg (fun r hr hrn => ?_) k
    have hproduct : τ * t.entry r c ≤ 0 := mul_nonpos_of_nonneg_of_nonpos hτ (hentries r hr hrn)
    have hvalue := hrhs r hr hrn
    linarith
  have hraised : 0 ≤ if k = c then τ else 0 := by
    by_cases hk : k = c
    · rwa [if_pos hk]
    · rw [if_neg hk]
  exact add_nonneg hbasic hraised

/-- Along a negative objective entry the objective of a ray exceeds every number. -/
theorem exists_ray_objective_gt (hentry : t.entry 0 c < 0) (K : Rat) :
    ∃ τ, 0 ≤ τ ∧ K < t.entry 0 t.rhsColumn - τ * t.entry 0 c := by
  have hpositive : 0 < -t.entry 0 c := neg_pos.mpr hentry
  -- the objective grows by `-t.entry 0 c` with each unit of `τ`
  obtain ⟨n, hn⟩ := exists_nat_gt ((K - t.entry 0 t.rhsColumn) / -t.entry 0 c)
  rw [div_lt_iff₀ hpositive] at hn
  exact ⟨n, Nat.cast_nonneg n, by linarith⟩

end Tableau

namespace Problem

variable {p : Problem Rat} {r : Run Rat}

/-- `x` is feasible with objective `z`, and no feasible point has a greater objective. -/
structure IsMaximum (p : Problem Rat) (x : Nat → Rat) (z : Rat) : Prop where
  /-- The point is feasible. -/
  feasible : p.Feasible x
  /-- `z` is its objective. -/
  objectiveAt_eq : p.objectiveAt x = z
  /-- No feasible point does better. -/
  objectiveAt_le : ∀ y, p.Feasible y → p.objectiveAt y ≤ z

namespace Examined

/-- A solution of an examined tableau without negative values is a feasible point, and `Z` is its
    objective. -/
theorem feasible_of_solves {tolerance : Rat} (h : p.Examined tolerance r) (hp : p.WellShaped)
    {z : Rat} {v : Nat → Rat} (hsolves : r.tableau.Solves z v) (hnonneg : ∀ k, 0 ≤ v k) :
    p.Feasible v ∧ p.objectiveAt v = z := by
  have hfirst := (h.solves_iff hp).mp hsolves
  exact ⟨Problem.feasible_of_solves hp hfirst fun j _ => hnonneg j,
    ((firstTableau_solves_iff hp).mp hfirst).1⟩

/-- No feasible point exceeds the value of an optimal tableau by more than the tolerance times the
    sum of its coordinates and slacks. -/
theorem objectiveAt_le {tolerance : Rat} (h : p.Examined tolerance r) (hp : p.WellShaped)
    (hoptimal : r.phase = .optimal) {y : Nat → Rat} (hy : p.Feasible y) :
    p.objectiveAt y ≤ r.tableau.entry 0 r.tableau.rhsColumn
      + tolerance * ∑ j ∈ Finset.range r.tableau.rhsColumn, p.withSlacks y j := by
  have hentries := h.justifies (h.coherent.select_of_optimal hoptimal)
  refine Tableau.objective_le_of_solves h.wellShaped hentries
    ((h.solves_iff hp).mpr (solves_withSlacks hp y)) fun j hj => hy.withSlacks_nonneg ?_
  rwa [← h.pivots.rhsColumn_eq]

/-- At tolerance 0, the basic solution of an optimal tableau is a maximum. -/
theorem isMaximum_valueAt (h : p.Examined 0 r) (hp : p.WellShaped) (hrhs : r.tableau.RhsNonneg)
    (hoptimal : r.phase = .optimal) :
    p.IsMaximum (r.tableau.valueAt 0) (r.tableau.entry 0 r.tableau.rhsColumn) := by
  have hsolves : r.tableau.Solves (r.tableau.entry 0 r.tableau.rhsColumn)
      (r.tableau.valueAt 0) :=
    (Tableau.exactBasis_zero _).solves_valueAt (h.hasBasis hp) le_rfl one_pos
  obtain ⟨hfeasible, hobjective⟩ :=
    h.feasible_of_solves hp hsolves (Tableau.spread_nonneg hrhs)
  refine ⟨hfeasible, hobjective, fun y hy => ?_⟩
  have hle := h.objectiveAt_le hp hoptimal hy
  rwa [zero_mul, add_zero] at hle

/-- At tolerance 0, the rays of an unbounded tableau are feasible points of every objective. -/
theorem exists_objectiveAt_gt (h : p.Examined 0 r) (hp : p.WellShaped)
    (hrhs : r.tableau.RhsNonneg) {name : String} (hunbounded : r.phase = .unbounded name)
    (K : Rat) : ∃ x, p.Feasible x ∧ K < p.objectiveAt x := by
  obtain ⟨c, hselect, -⟩ := h.coherent.select_of_unbounded hunbounded
  obtain ⟨henters, hentries⟩ := h.justifies hselect
  have hnegative : r.tableau.entry 0 c < 0 := by
    have hlt := henters.entry_lt
    rwa [neg_zero] at hlt
  obtain ⟨τ, hτ, hgt⟩ := Tableau.exists_ray_objective_gt hnegative K
  obtain ⟨hfeasible, hobjective⟩ := h.feasible_of_solves hp
    (Tableau.solves_ray (h.hasBasis hp) henters.column_lt τ)
    (Tableau.ray_nonneg hrhs hτ hentries)
  exact ⟨r.tableau.ray c τ, hfeasible, by rw [hobjective]; exact hgt⟩

end Examined

/-! ### The guarantees -/

/-- **Optimality.** At tolerance 0, an optimum lists the coordinates of a feasible point with the
    reported objective, and no feasible point has a greater one. -/
theorem solve_optimal_sound (s : Solver Rat) (hp : p.validate = .ok ()) :
    ∃ solution, (s.withTolerance 0).solve p = .ok solution
      ∧ (solution.status = .optimal → ∃ values z x,
        solution.values = some values ∧ solution.z = some z
          ∧ (∀ j < p.numVariables, values.get? (Column.structural (j + 1)).name = some (x j))
          ∧ p.IsMaximum x z) := by
  obtain ⟨hshape, -⟩ := validate_rat_iff.mp hp
  obtain ⟨runs, last, trace, -, hchain, hexamined, hlast, hsolve⟩ := solve_ok s hp le_rfl
  have hexam := hexamined last hlast
  have hrhs := rhsNonneg_of_tolerance_zero hp (s.tolerance_withTolerance le_rfl) hchain last hlast
  refine ⟨_, hsolve, fun hstatus => ?_⟩
  have hphase := Run.status_outcome_eq_optimal_iff.mp hstatus
  rw [Run.outcome_of_optimal hphase, hexam.tolerance_eq]
  refine ⟨_, _, last.tableau.valueAt 0, rfl, rfl, ?_,
    hexam.isMaximum_valueAt hshape hrhs hphase⟩
  intro j hj
  exact hexam.get?_structural hj

/-- A problem with two products and two resources. -/
def twoProducts : Problem Rat := ⟨[3, 2], [[2, 1], [1, 3]], [18, 24]⟩

theorem solve_optimal_sound_twoProducts :
    twoProducts.validate = .ok ()
      ∧ ∃ solution, (Solver.standard.withTolerance 0).solve twoProducts = .ok solution
        ∧ solution.status = .optimal
        ∧ ∃ values z x, solution.values = some values ∧ solution.z = some z
          ∧ (∀ j < twoProducts.numVariables,
            values.get? (Column.structural (j + 1)).name = some (x j))
          ∧ twoProducts.IsMaximum x z := by
  have hp : twoProducts.validate = .ok () := by decide +kernel
  have hstatus : ((Solver.standard.withTolerance 0).solve twoProducts).toOption.map (·.status)
      = some .optimal := by decide +kernel
  obtain ⟨solution, hsolve, hsound⟩ := solve_optimal_sound Solver.standard hp
  rw [hsolve] at hstatus
  have hoptimal : solution.status = .optimal := Option.some.inj hstatus
  exact ⟨hp, solution, hsolve, hoptimal, hsound hoptimal⟩

/-- **Unboundedness.** At tolerance 0, an outcome without bound means that for every number some
    feasible point has a greater objective. -/
theorem solve_unbounded_sound (s : Solver Rat) (hp : p.validate = .ok ()) :
    ∃ solution, (s.withTolerance 0).solve p = .ok solution
      ∧ (solution.status = .unbounded → ∀ K, ∃ x, p.Feasible x ∧ K < p.objectiveAt x) := by
  obtain ⟨hshape, -⟩ := validate_rat_iff.mp hp
  obtain ⟨runs, last, trace, -, hchain, hexamined, hlast, hsolve⟩ := solve_ok s hp le_rfl
  have hrhs := rhsNonneg_of_tolerance_zero hp (s.tolerance_withTolerance le_rfl) hchain last hlast
  refine ⟨_, hsolve, fun hstatus K => ?_⟩
  obtain ⟨c, hphase⟩ := Run.status_outcome_eq_unbounded_iff.mp hstatus
  exact (hexamined last hlast).exists_objectiveAt_gt hshape hrhs hphase K

/-- A problem without a greatest objective, which shows only after a pivot that leaves the
    objective at 0. -/
def risingPair : Problem Rat := ⟨[1, 0], [[1, -1]], [0]⟩

theorem solve_unbounded_sound_risingPair :
    risingPair.validate = .ok ()
      ∧ ∃ solution, (Solver.standard.withTolerance 0).solve risingPair = .ok solution
        ∧ solution.status = .unbounded
        ∧ ∀ K, ∃ x, risingPair.Feasible x ∧ K < risingPair.objectiveAt x := by
  have hp : risingPair.validate = .ok () := by decide +kernel
  have hstatus : ((Solver.standard.withTolerance 0).solve risingPair).toOption.map (·.status)
      = some .unbounded := by decide +kernel
  obtain ⟨solution, hsolve, hsound⟩ := solve_unbounded_sound Solver.standard hp
  rw [hsolve] at hstatus
  have hunbounded : solution.status = .unbounded := Option.some.inj hstatus
  exact ⟨hp, solution, hsolve, hunbounded, hsound hunbounded⟩

/-- **The value of an optimum is an upper bound.** At every accepted tolerance, no feasible point
    exceeds the value of an optimum by more than the tolerance times the sum of its coordinates
    and slacks. -/
theorem solve_optimal_upper_bound (s : Solver Rat) {tolerance : Rat} (htol : 0 ≤ tolerance)
    (hp : p.validate = .ok ()) :
    ∃ solution, (s.withTolerance tolerance).solve p = .ok solution
      ∧ (solution.status = .optimal → ∃ z, solution.z = some z
        ∧ ∀ y, p.Feasible y → p.objectiveAt y
          ≤ z + tolerance * (∑ j ∈ Finset.range p.numVariables, y j
            + ∑ i ∈ Finset.range p.numConstraints, (p.bound i - p.constraintAt y i))) := by
  obtain ⟨hshape, -⟩ := validate_rat_iff.mp hp
  obtain ⟨runs, last, trace, -, -, hexamined, hlast, hsolve⟩ := solve_ok s hp htol
  have hexam := hexamined last hlast
  refine ⟨_, hsolve, fun hstatus => ?_⟩
  have hphase := Run.status_outcome_eq_optimal_iff.mp hstatus
  rw [Run.outcome_of_optimal hphase]
  refine ⟨_, rfl, fun y hy => ?_⟩
  have hsum := p.sum_withSlacks y
  rw [← hexam.rhsColumn_eq] at hsum
  rw [← hsum]
  exact hexam.objectiveAt_le hshape hphase hy

/-- The objective `x1 + 2⁻³¹ x2` under `x1 ≤ 1` and `x2 ≤ 2³¹`: at the usual tolerance `x2` stays
    at 0, which costs half of the maximum. -/
def smallGain : Problem Rat :=
  ⟨[1, 1 / 2147483648], [[1, 0], [0, 1]], [1, 2147483648]⟩

theorem solve_optimal_upper_bound_smallGain :
    (0 : Rat) ≤ 1 / 1000000000 ∧ smallGain.validate = .ok ()
      ∧ ∃ solution, (Solver.standard.withTolerance (1 / 1000000000)).solve smallGain = .ok solution
        ∧ solution.status = .optimal ∧ solution.z = some 1
        ∧ ∀ y, smallGain.Feasible y → smallGain.objectiveAt y
          ≤ 1 + 1 / 1000000000 * (∑ j ∈ Finset.range smallGain.numVariables, y j
            + ∑ i ∈ Finset.range smallGain.numConstraints,
              (smallGain.bound i - smallGain.constraintAt y i)) := by
  have htol : (0 : Rat) ≤ 1 / 1000000000 := by decide +kernel
  have hp : smallGain.validate = .ok () := by decide +kernel
  have hrun : ((Solver.standard.withTolerance (1 / 1000000000)).solve smallGain).toOption.map
      (fun solution => (solution.status, solution.z)) = some (.optimal, some 1) := by
    decide +kernel
  obtain ⟨solution, hsolve, hbound⟩ := solve_optimal_upper_bound Solver.standard htol hp
  rw [hsolve] at hrun
  obtain ⟨hstatus, hz⟩ := Prod.mk.inj (Option.some.inj hrun)
  obtain ⟨z, hz', hle⟩ := hbound hstatus
  obtain rfl : z = 1 := Option.some.inj (hz'.symm.trans hz)
  exact ⟨htol, hp, solution, hsolve, hstatus, hz, hle⟩

end Problem

end SimplexTableau

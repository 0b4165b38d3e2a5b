import SimplexTableau.Proofs.BasicSolution
import SimplexTableau.Proofs.Execution

namespace SimplexTableau

open scoped BigOperators

/-!
# The point that a record reports

A classification takes near-unit columns for basic columns, so the point it reports need not
satisfy the equations of the problem.  This file says when it does, and by how much it can fail:

* `Problem.Balanced` — values that satisfy every constraint with its slack, and whose objective is
  a given number;
* `Classification.Lists` — the values that a classification lists for the variables of a problem;
* `Examined.abs_objectiveAt_sub_le`, `Examined.abs_constraintAt_sub_le` — below a tolerance of 1
  the listed values miss the objective and the constraints by a multiple of the tolerance;
* `Problem.PointWithin` — what is known of the point of a record.  The last theorem says that it
  holds of every record of an accepted problem, at every accepted tolerance.
-/

/-- The values satisfy every constraint of the problem with its slack, and their objective is
    `z`. -/
structure Problem.Balanced (p : Problem Rat) (v : Nat → Rat) (z : Rat) : Prop where
  /-- `z` is the objective. -/
  objectiveAt_eq : p.objectiveAt v = z
  /-- Left side and slack add up to the bound. -/
  constraintAt_add_slack : ∀ i < p.numConstraints,
    p.constraintAt v i + v (p.numVariables + i) = p.bound i

/-- The classification lists the value of each variable of the problem under its name: first the
    decision variables, then the slacks. -/
structure Classification.Lists (c : Classification Rat) (p : Problem Rat) (v : Nat → Rat) :
    Prop where
  /-- The values of the decision variables. -/
  structural : ∀ j < p.numVariables, c.value? (Column.structural (j + 1)).name = some (v j)
  /-- The values of the slacks. -/
  slack : ∀ i < p.numConstraints,
    c.value? (Column.slack (i + 1)).name = some (v (p.numVariables + i))

namespace Problem

variable {p : Problem Rat} {tolerance : Rat} {r : Run Rat} {z : Rat} {v : Nat → Rat}

/-- Balanced values are the solutions of the first tableau. -/
theorem balanced_iff (hp : p.WellShaped) : p.Balanced v z ↔ p.firstTableau.Solves z v := by
  rw [firstTableau_solves_iff hp]
  constructor
  · intro h
    exact ⟨h.objectiveAt_eq, h.constraintAt_add_slack⟩
  · rintro ⟨hobjective, hconstraints⟩
    exact ⟨hobjective, hconstraints⟩

namespace Examined

/-- **Balance in the examined tableau.** Pivots keep the solutions, so values are balanced exactly
    if they solve the examined tableau. -/
theorem balanced_iff_solves (h : p.Examined tolerance r) (hp : p.WellShaped) :
    p.Balanced v z ↔ r.tableau.Solves z v := by
  rw [balanced_iff hp, h.solves_iff hp]

/-- The classification of an examination lists the basic solution. -/
theorem lists_valueAt (h : p.Examined tolerance r) :
    r.report.classification.Lists p (r.tableau.valueAt tolerance) :=
  ⟨fun _ hj => h.value?_structural hj, fun _ hi => h.value?_slack hi⟩

end Examined

/-- How far the equations of an examined tableau are missed in each row, at most. -/
def slip (p : Problem Rat) (tolerance : Rat) (v : Nat → Rat) : Rat :=
  tolerance * ∑ k ∈ Finset.range (p.numVariables + p.numConstraints), |v k|

/-- What is known of the point that a record reports, at a given tolerance. -/
structure PointWithin (p : Problem Rat) (tolerance : Rat) (record : Record Rat)
    (v : Nat → Rat) : Prop where
  /-- The classification lists the point. -/
  lists : record.classification.Lists p v
  /-- It satisfies the equations of the problem exactly if it solves the tableau of the record. -/
  balanced_iff : p.Balanced v record.z ↔ record.tableau.Solves record.z v
  /-- They are satisfied if the basic columns are unit columns. -/
  balanced_of_exact : tolerance < 1 → record.tableau.ExactBasis tolerance →
    p.Balanced v record.z
  /-- They are satisfied at tolerance 0. -/
  balanced_of_zero : tolerance = 0 → p.Balanced v record.z
  /-- The objective value of the record is nearly that of the point. -/
  abs_objectiveAt_sub_le : tolerance < 1 → |record.z - p.objectiveAt v|
    ≤ p.slip tolerance v * (1 + ∑ j ∈ Finset.range p.numVariables, |p.cost j|)
  /-- The point nearly satisfies each constraint with its slack. -/
  abs_constraintAt_sub_le : tolerance < 1 → ∀ i < p.numConstraints,
    |p.constraintAt v i + v (p.numVariables + i) - p.bound i|
      ≤ p.slip tolerance v * (1 + ∑ j ∈ Finset.range p.numVariables, |p.coefficient i j|)

namespace Examined

/-- Below a tolerance of 1, the basic solution misses no equation of the examined tableau by more
    than the slip. -/
theorem abs_residual_valueAt_le_slip (h : p.Examined tolerance r) (hp : p.WellShaped)
    (htol : 0 ≤ tolerance) (h1 : tolerance < 1) {i : Nat} (hi : i < r.tableau.numRows) :
    |r.tableau.residual r.report.z (r.tableau.valueAt tolerance) i|
      ≤ p.slip tolerance (r.tableau.valueAt tolerance) := by
  rw [slip, ← h.rhsColumn_eq]
  exact Tableau.abs_residual_valueAt_le (h.hasBasis hp) htol h1 hi

/-- **The objective of the basic solution** is near to the reported value. -/
theorem abs_objectiveAt_sub_le (h : p.Examined tolerance r) (hp : p.WellShaped)
    (htol : 0 ≤ tolerance) (h1 : tolerance < 1) :
    |r.report.z - p.objectiveAt (r.tableau.valueAt tolerance)|
      ≤ p.slip tolerance (r.tableau.valueAt tolerance)
        * (1 + ∑ j ∈ Finset.range p.numVariables, |p.cost j|) := by
  have hrow : 0 < p.firstTableau.numRows := (firstTableau_wellShaped hp).numRows_pos
  have hle := h.pivots.abs_residual_le (firstTableau_wellShaped hp) (h.hasBasis hp)
    (fun i hi => h.abs_residual_valueAt_le_slip hp htol h1 hi) hrow
  have hcells : ∑ k ∈ Finset.range p.firstTableau.rhsColumn, |p.firstTableau.entry 0 k|
      = ∑ j ∈ Finset.range p.numVariables, |p.cost j| := by
    rw [p.sum_firstTableau_zero (f := fun e _ => |e|) fun _ => abs_zero]
    exact Finset.sum_congr rfl fun j _ => abs_neg _
  rwa [residual_firstTableau_zero, if_pos rfl, hcells] at hle

/-- **The constraints at the basic solution** are nearly satisfied with the reported slacks. -/
theorem abs_constraintAt_sub_le (h : p.Examined tolerance r) (hp : p.WellShaped)
    (htol : 0 ≤ tolerance) (h1 : tolerance < 1) {i : Nat} (hi : i < p.numConstraints) :
    |p.constraintAt (r.tableau.valueAt tolerance) i
        + r.tableau.valueAt tolerance (p.numVariables + i) - p.bound i|
      ≤ p.slip tolerance (r.tableau.valueAt tolerance)
        * (1 + ∑ j ∈ Finset.range p.numVariables, |p.coefficient i j|) := by
  have hrow : i + 1 < p.firstTableau.numRows := by
    rw [numRows_firstTableau hp]
    omega
  have hle := h.pivots.abs_residual_le (firstTableau_wellShaped hp) (h.hasBasis hp)
    (fun i hi => h.abs_residual_valueAt_le_slip hp htol h1 hi) hrow
  have hcells : ∑ k ∈ Finset.range p.firstTableau.rhsColumn, |p.firstTableau.entry (i + 1) k|
      = ∑ j ∈ Finset.range p.numVariables, |p.coefficient i j| + |1| :=
    sum_firstTableau_succ hp hi (f := fun e _ => |e|) fun _ => abs_zero
  rwa [residual_firstTableau_succ hp hi, if_neg (Nat.succ_ne_zero i), hcells, zero_add, abs_one,
    add_comm _ (1 : Rat)] at hle

/-- The point of every examination is within the tolerance. -/
theorem pointWithin (h : p.Examined tolerance r) (hp : p.WellShaped) (htol : 0 ≤ tolerance) :
    p.PointWithin tolerance r.report (r.tableau.valueAt tolerance) where
  lists := h.lists_valueAt
  balanced_iff := h.balanced_iff_solves hp
  balanced_of_exact h1 hexact :=
    (h.balanced_iff_solves hp).mpr (hexact.solves_valueAt (h.hasBasis hp) htol h1)
  balanced_of_zero hzero := by
    rw [hzero]
    exact (h.balanced_iff_solves hp).mpr
      ((Tableau.exactBasis_zero _).solves_valueAt (h.hasBasis hp) le_rfl one_pos)
  abs_objectiveAt_sub_le h1 := h.abs_objectiveAt_sub_le hp htol h1
  abs_constraintAt_sub_le h1 _ hi := h.abs_constraintAt_sub_le hp htol h1 hi

end Examined

/-- **The reported point.** At every accepted tolerance, the records begin with the first tableau,
    the point of each is within the tolerance, and an optimum reports the objective value and the
    decision variables of one of them. -/
theorem recorded_point (s : Solver Rat) {tolerance : Rat} (htol : 0 ≤ tolerance)
    (hp : p.validate = .ok ()) :
    ∃ t records last solution, p.tableau = .ok t
      ∧ ((s.withTolerance tolerance).start t).collect = .ok (records, last)
      ∧ (s.withTolerance tolerance).solve p = .ok solution
      ∧ records.head?.map (·.tableau) = some t
      ∧ (∀ record ∈ records, ∃ v, p.PointWithin tolerance record v)
      ∧ (solution.status = .optimal → ∃ record ∈ records, ∃ values,
        solution.z = some record.z ∧ solution.values = some values
          ∧ ∀ j < p.numVariables, values.get? (Column.structural (j + 1)).name
            = record.classification.value? (Column.structural (j + 1)).name) := by
  obtain ⟨hshape, -⟩ := validate_rat_iff.mp hp
  obtain ⟨runs, last, trace, hcollect, hchain, hexamined, hlast, hsolve⟩ := solve_ok s hp htol
  refine ⟨p.firstTableau, runs.map Run.report, last, _, tableau_eq hp, hcollect, hsolve,
    head?_tableau_records hlast hchain, ?_, ?_⟩
  · rw [List.forall_mem_map]
    exact fun r hr => ⟨_, (hexamined r hr).pointWithin hshape htol⟩
  · intro hstatus
    have hphase := Run.status_outcome_eq_optimal_iff.mp hstatus
    have hexam := hexamined last hlast
    rw [Run.outcome_of_optimal hphase, hexam.tolerance_eq]
    refine ⟨last.report, List.mem_map_of_mem hlast, _, rfl, rfl, ?_⟩
    intro j hj
    rw [hexam.value?_structural hj]
    exact hexam.get?_structural hj

/-- The objective `2⁻³¹ x1` under `x1 ≤ 2³¹`: at the usual tolerance the column of `x1` is taken
    for a unit column. -/
def nearUnitColumn : Problem Rat := ⟨[1 / 2147483648], [[1]], [2147483648]⟩

theorem recorded_point_nearUnitColumn :
    (0 : Rat) ≤ 1 / 1000000000 ∧ nearUnitColumn.validate = .ok ()
      ∧ ∃ t records last solution, nearUnitColumn.tableau = .ok t
        ∧ ((Solver.standard.withTolerance (1 / 1000000000)).start t).collect
          = .ok (records, last)
        ∧ (Solver.standard.withTolerance (1 / 1000000000)).solve nearUnitColumn = .ok solution
        ∧ records.head?.map (·.tableau) = some t
        ∧ (∀ record ∈ records, ∃ v,
          nearUnitColumn.PointWithin (1 / 1000000000) record v)
        ∧ (solution.status = .optimal → ∃ record ∈ records, ∃ values,
          solution.z = some record.z ∧ solution.values = some values
            ∧ ∀ j < nearUnitColumn.numVariables,
              values.get? (Column.structural (j + 1)).name
                = record.classification.value? (Column.structural (j + 1)).name) :=
  ⟨by decide +kernel, by decide +kernel,
    recorded_point Solver.standard (by decide +kernel) (by decide +kernel)⟩

/-- At the usual tolerance the optimum is reported as 0, but the objective is 1 at the reported
    point. -/
theorem nearUnitColumn_point_off :
    nearUnitColumn.validate = .ok ()
      ∧ ∃ solution values z x, Solver.standard.solve nearUnitColumn = .ok solution
        ∧ solution.status = .optimal ∧ solution.values = some values ∧ solution.z = some z
        ∧ values.get? (Column.structural 1).name = some (x 0)
        ∧ nearUnitColumn.objectiveAt x ≠ z := by
  have hp : nearUnitColumn.validate = .ok () := by decide +kernel
  have hcheck : ((Solver.standard.solve nearUnitColumn).toOption.map fun solution =>
      (solution.status, solution.z, solution.values.bind (·.get? (Column.structural 1).name)))
      = some (.optimal, some 0, some 2147483648) := by decide +kernel
  cases hsolve : Solver.standard.solve nearUnitColumn with
  | error e => rw [hsolve] at hcheck; exact absurd hcheck nofun
  | ok solution =>
    rw [hsolve] at hcheck
    obtain ⟨hstatus, hrest⟩ := Prod.mk.inj (Option.some.inj hcheck)
    obtain ⟨hz, hvalues⟩ := Prod.mk.inj hrest
    obtain ⟨values, hsome, hvalue⟩ := Option.bind_eq_some_iff.mp hvalues
    have hobjective : nearUnitColumn.objectiveAt (fun _ => 2147483648) ≠ 0 := by decide +kernel
    exact ⟨hp, solution, values, 0, fun _ => 2147483648, rfl, hstatus, hsome, hz, hvalue,
      hobjective⟩

end Problem

end SimplexTableau

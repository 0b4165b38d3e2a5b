import SimplexTableau.Proofs.LinearProgram
import SimplexTableau.Proofs.Names
import SimplexTableau.Proofs.Runs

namespace SimplexTableau

/-!
# The run of an accepted problem

Over fractions and at any accepted tolerance, the run of an accepted problem succeeds, and every
tableau that it examines comes from the first one by pivots:

* `Problem.Examined` — what is known of an examination in the run of a problem;
* `Problem.solve_ok` — the run of an accepted problem: a chain of such examinations, with the
  solution read off the last of them;
* `Examined.justifies` — the verdict on an examined tableau is justified by its entries;
* `Examined.solves_iff` — the equations of an examined tableau are those of the problem;
* `Examined.value?_structural`, `Examined.value?_slack` — the basic solution by name.
-/

/-! ### Solvers with a tolerance -/

/-- A tolerance that is not negative is accepted. -/
theorem Solver.withTolerance_of_nonneg (s : Solver Rat) {tolerance : Rat}
    (h : 0 ≤ tolerance) : s.withTolerance tolerance = { s with tolerance } := by
  have hcond : Cell.isFinite tolerance = true ∧ 0 ≤ tolerance := ⟨rfl, h⟩
  rw [Solver.withTolerance, if_pos hcond]

theorem Solver.tolerance_withTolerance (s : Solver Rat) {tolerance : Rat} (h : 0 ≤ tolerance) :
    (s.withTolerance tolerance).tolerance = tolerance := by
  rw [s.withTolerance_of_nonneg h]

/-! ### Examined tableaus -/

/-- At a tolerance that is not negative, every step pivots on a nonzero element of a constraint
    row. -/
theorem Run.Follows.pivots {t : Tableau Rat} {r next : Run Rat} (h : r.Follows next)
    (hr : r.Coherent) (htol : 0 ≤ r.solver.tolerance) (ht : t.Pivots r.tableau) :
    t.Pivots next.tableau := by
  cases h.moves with
  | start _ htableau _ => rwa [htableau]
  | pivot c i hphase htableau _ =>
    rw [htableau]
    exact ht.pivoted_of_select hr.wellShaped htol (hr.select_of_pivoting hphase).1

/-- At a tolerance that is not negative, every examination of the run of a tableau comes from it by
    such pivots. -/
theorem Run.pivots_of_chain {s : Solver Rat} {t : Tableau Rat} (ht : t.WellShaped)
    (htol : 0 ≤ s.tolerance) {runs : List (Run Rat)}
    (hchain : (s.start t :: runs).IsChain Run.Follows) : ∀ r ∈ runs, t.Pivots r.tableau := by
  have hall : ∀ r ∈ runs, r.Coherent ∧ r.solver = s ∧ t.Pivots r.tableau := by
    refine Run.Follows.chain_induction (fun a b ha hab => ?_) hchain
      ⟨Run.coherent_start s ht, rfl, .refl⟩
    obtain ⟨hcoherent, hsolver, hpivots⟩ := ha
    refine ⟨hab.coherent, hab.solver_eq.trans hsolver, hab.pivots hcoherent ?_ hpivots⟩
    rw [hsolver]
    exact htol
  exact fun r hr => (hall r hr).2.2

namespace Problem

variable {p : Problem Rat} {tolerance : Rat} {r : Run Rat}

/-- What is known of an examination in the run of a problem at a tolerance. -/
structure Examined (p : Problem Rat) (tolerance : Rat) (r : Run Rat) : Prop where
  /-- The phase is the verdict on the tableau. -/
  coherent : r.Coherent
  /-- The verdict is that of the tolerance. -/
  tolerance_eq : r.solver.tolerance = tolerance
  /-- The tableau comes from the first one by pivots. -/
  pivots : p.firstTableau.Pivots r.tableau

/-- The run of a problem, before its first tableau is examined. -/
def firstRun (p : Problem Rat) (s : Solver Rat) : Run Rat := s.start p.firstTableau

/-- The records of a run that has examined something begin with that of the first tableau. -/
theorem head?_tableau_records {s : Solver Rat} {runs : List (Run Rat)} (hr : r ∈ runs)
    (hchain : (p.firstRun s :: runs).IsChain Run.Follows) :
    (runs.map Run.report).head?.map (·.tableau) = some p.firstTableau :=
  Run.head?_tableau_report hr hchain

/-- Every run of a chain that starts at the first tableau is an examination of the problem. -/
theorem examined_of_chain (hp : p.WellShaped) {s : Solver Rat} (hs : s.tolerance = tolerance)
    (htol : 0 ≤ tolerance) {runs : List (Run Rat)}
    (hchain : (p.firstRun s :: runs).IsChain Run.Follows) :
    ∀ r ∈ runs, p.Examined tolerance r := by
  intro r hr
  obtain ⟨hcoherent, -, hsolver⟩ := Run.Follows.chain_coherent hchain r hr
  refine ⟨hcoherent, ?_, Run.pivots_of_chain (firstTableau_wellShaped hp) ?_ hchain r hr⟩
  · rw [hsolver]
    exact hs
  · rw [hs]
    exact htol

/-- The solution of an accepted problem is that of its first tableau. -/
theorem solve_eq_of_solveTableau {s : Solver Rat} (hp : p.validate = .ok ())
    {solution : Solution Rat} (h : s.solveTableau p.firstTableau = .ok solution) :
    s.solve p = .ok solution := by
  rw [s.solve_of_tableau (tableau_eq hp), h]
  rfl

/-- **The run of an accepted problem** succeeds and comes to its end: its records are those of a
    chain of examinations, and its solution is read off the last of them. -/
theorem solve_ok (s : Solver Rat) (hp : p.validate = .ok ()) (htol : 0 ≤ tolerance) :
    ∃ runs last trace,
      (p.firstRun (s.withTolerance tolerance)).collect = .ok (runs.map Run.report, last)
        ∧ (p.firstRun (s.withTolerance tolerance) :: runs).IsChain Run.Follows
        ∧ (∀ r ∈ runs, p.Examined tolerance r)
        ∧ last ∈ runs
        ∧ (s.withTolerance tolerance).solve p = .ok (last.outcome trace) := by
  obtain ⟨hshape, -⟩ := validate_rat_iff.mp hp
  obtain ⟨runs, last, trace, hcollect, hchain, hlast, -, hsolve⟩ :=
    Run.start_ok (s.withTolerance tolerance) (firstTableau_wellShaped hshape)
  exact ⟨runs, last, trace, hcollect, hchain,
    examined_of_chain hshape (s.tolerance_withTolerance htol) htol hchain, hlast,
    solve_eq_of_solveTableau hp hsolve⟩

namespace Examined

theorem wellShaped (h : p.Examined tolerance r) : r.tableau.WellShaped := h.coherent.wellShaped

/-- The verdict on an examined tableau is justified by its entries. -/
theorem justifies (h : p.Examined tolerance r) {verdict : Selection}
    (hselect : select r.solver.tolerance r.tableau = .ok verdict) :
    r.tableau.Justifies tolerance verdict := by
  rw [h.tolerance_eq] at hselect
  exact h.wellShaped.select_justified hselect

theorem numRows_eq (h : p.Examined tolerance r) (hp : p.WellShaped) :
    r.tableau.numRows = p.numConstraints + 1 := by
  rw [h.pivots.numRows_eq, numRows_firstTableau hp]

theorem rhsColumn_eq (h : p.Examined tolerance r) :
    r.tableau.rhsColumn = p.numVariables + p.numConstraints := by
  rw [h.pivots.rhsColumn_eq, rhsColumn_firstTableau]

theorem hasBasis (h : p.Examined tolerance r) (hp : p.WellShaped) : r.tableau.HasBasis :=
  h.pivots.hasBasis (firstTableau_wellShaped hp) (firstTableau_hasBasis hp)

/-- **The equations of an examined tableau** are those of the problem. -/
theorem solves_iff (h : p.Examined tolerance r) (hp : p.WellShaped) {z : Rat} {v : Nat → Rat} :
    r.tableau.Solves z v ↔ p.firstTableau.Solves z v :=
  h.pivots.solves_iff (firstTableau_wellShaped hp)

/-! ### Values by name -/

theorem columns_eq (h : p.Examined tolerance r) :
    r.tableau.columns = (Column.table p.numVariables p.numConstraints).toArray :=
  h.pivots.columns_eq

theorem namesDistinct (h : p.Examined tolerance r) : r.tableau.NamesDistinct := by
  rw [Tableau.NamesDistinct, h.columns_eq]
  exact Column.nodup_names_table _ _

theorem columnAt_structural (h : p.Examined tolerance r) {j : Nat} (hj : j < p.numVariables) :
    r.tableau.columnAt j = Column.structural (j + 1) := by
  rw [Tableau.columnAt, h.columns_eq]
  simp [Column.table, List.getElem?_append, hj]

theorem columnAt_slack (h : p.Examined tolerance r) {i : Nat} (hi : i < p.numConstraints) :
    r.tableau.columnAt (p.numVariables + i) = Column.slack (i + 1) := by
  rw [Tableau.columnAt, h.columns_eq]
  simp [Column.table, hi]

/-- The classification lists the value of each decision variable under its name. -/
theorem value?_structural (h : p.Examined tolerance r) {j : Nat} (hj : j < p.numVariables) :
    r.report.classification.value? (Column.structural (j + 1)).name
      = some (r.tableau.valueAt tolerance j) := by
  have hcolumn : j < r.tableau.rhsColumn := by
    rw [h.rhsColumn_eq]
    omega
  rw [← h.columnAt_structural hj, ← h.tolerance_eq]
  exact Tableau.value?_reading h.namesDistinct hcolumn

/-- The classification lists the value of each slack under its name. -/
theorem value?_slack (h : p.Examined tolerance r) {i : Nat} (hi : i < p.numConstraints) :
    r.report.classification.value? (Column.slack (i + 1)).name
      = some (r.tableau.valueAt tolerance (p.numVariables + i)) := by
  have hcolumn : p.numVariables + i < r.tableau.rhsColumn := by
    rw [h.rhsColumn_eq]
    omega
  rw [← h.columnAt_slack hi, ← h.tolerance_eq]
  exact Tableau.value?_reading h.namesDistinct hcolumn

/-- The values of an optimum are those of the basic solution. -/
theorem get?_structural (h : p.Examined tolerance r) {j : Nat} (hj : j < p.numVariables) :
    (Assignment.ofList (r.tableau.reading tolerance).structural).get?
        (Column.structural (j + 1)).name
      = some (r.tableau.valueAt tolerance j) := by
  have hcolumn : j < r.tableau.rhsColumn := by
    rw [h.rhsColumn_eq]
    omega
  rw [← h.columnAt_structural hj]
  refine Tableau.get?_structural_reading h.namesDistinct hcolumn ?_
  rw [h.columnAt_structural hj, Column.kind_structural]

end Examined

end Problem

end SimplexTableau

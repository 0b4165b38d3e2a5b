import SimplexTableau.Proofs.Equations
import SimplexTableau.Proofs.Validation
import Mathlib.Data.List.GetD

namespace SimplexTableau

open scoped BigOperators

/-!
# Problems as linear programs

What a problem asks for, over fractions: the points that satisfy its constraints and the value
of its objective at them.

* `Problem.objectiveAt`, `Problem.constraintAt` — the objective and the left side of a constraint
  at a point;
* `Problem.Feasible` — a point without negative coordinates that satisfies every constraint;
* `Problem.firstTableau` — the tableau that solving starts from, with its entries;
  `tableau_eq`: every accepted problem has it;
* `firstTableau_solves_iff` — its equations say that `Z` is the objective and that each constraint
  holds with its slack;
* `Problem.withSlacks` — a point with its slacks: feasible points are the solutions of the first
  tableau without negative values (`solves_withSlacks`, `feasible_of_solves`).

A point is a function on the indices of the decision variables; only those below the number of
variables are read.
-/

namespace Problem

/-! ### The linear program -/

/-- The objective coefficient of variable `j`. -/
def cost (p : Problem Rat) (j : Nat) : Rat := p.objective.getD j 0

/-- The coefficient of variable `j` in constraint `i`. -/
def coefficient (p : Problem Rat) (i j : Nat) : Rat := (p.constraints.getD i []).getD j 0

/-- The bound of constraint `i`. -/
def bound (p : Problem Rat) (i : Nat) : Rat := p.rhs.getD i 0

/-- The value of the objective at a point. -/
def objectiveAt (p : Problem Rat) (x : Nat → Rat) : Rat :=
  ∑ j ∈ Finset.range p.numVariables, p.cost j * x j

/-- The left side of constraint `i` at a point. -/
def constraintAt (p : Problem Rat) (x : Nat → Rat) (i : Nat) : Rat :=
  ∑ j ∈ Finset.range p.numVariables, p.coefficient i j * x j

/-- The points among which the maximum is sought. -/
structure Feasible (p : Problem Rat) (x : Nat → Rat) : Prop where
  /-- No variable is negative. -/
  nonneg : ∀ j < p.numVariables, 0 ≤ x j
  /-- No constraint is exceeded. -/
  constraintAt_le : ∀ i < p.numConstraints, p.constraintAt x i ≤ p.bound i

/-! ### Validation over fractions -/

/-- Over fractions every entry is finite, so a problem is accepted exactly when its lists fit
    together and no bound is negative. -/
theorem validate_rat_iff {p : Problem Rat} :
    p.validate = .ok () ↔ p.WellShaped ∧ ∀ i < p.numConstraints, 0 ≤ p.bound i := by
  rw [validate_eq_ok_iff]
  refine and_congr_right fun hp => ?_
  have hlen : p.rhs.length = p.constraints.length := hp.length_rhs
  rw [Tableau.checkEntries_eq_ok_iff]
  constructor
  · intro h i hi
    have hi' : i < p.constraints.length := hi
    -- constraint `i` is checked as row `i + 1`, behind the objective row
    have hmem : ((p.constraints[i], p.rhs[i]), i + 1)
        ∈ ((p.objective :: p.constraints).zip (0 :: p.rhs)).zipIdx := by
      rw [List.mk_mem_zipIdx_iff_getElem?]
      simp [hi', hlen]
    have hrow := (Tableau.checkRow_eq_ok_iff.mp (h _ hmem)).2.2
    have hnn : 0 ≤ p.rhs[i] := not_lt.mp fun hneg => hrow ⟨Nat.succ_pos i, hneg⟩
    simpa [bound, hlen, hi'] using hnn
  · rintro h ⟨⟨row, b⟩, i⟩ hmem
    rw [List.mk_mem_zipIdx_iff_getElem?, List.getElem?_zip_eq_some] at hmem
    refine Tableau.checkRow_eq_ok_iff.mpr ⟨fun _ _ => rfl, rfl, fun ⟨hi, hneg⟩ => ?_⟩
    -- only a negative bound can fail, and the objective row is exempt from that
    obtain ⟨k, rfl⟩ := Nat.exists_eq_succ_of_ne_zero (Nat.pos_iff_ne_zero.mp hi)
    obtain ⟨hk, rfl⟩ := List.getElem?_eq_some_iff.mp (by simpa using hmem.2 : p.rhs[k]? = some b)
    have hnn := h k (by rw [← hp.length_rhs]; exact hk)
    rw [bound, List.getD_eq_getElem _ _ hk] at hnn
    exact absurd hneg (not_lt.mpr hnn)

/-! ### The first tableau -/

/-- The tableau that solving starts from. -/
def firstTableau (p : Problem Rat) : Tableau Rat where
  rows := ((Tableau.initialRows (p.objective.map (-·)) p.constraints 0 p.rhs).map
    List.toArray).toArray
  columns := (Column.table p.numVariables p.numConstraints).toArray
  numStructural := p.numVariables
  numSlack := p.numConstraints

theorem firstTableau_eq_unchecked (p : Problem Rat) :
    p.firstTableau = .unchecked (p.objective.map (-·)) p.constraints 0 p.rhs := by
  simp [firstTableau, Tableau.unchecked, numVariables, numConstraints]

/-- **Every accepted problem has its first tableau.** The second round of checks, on the negated
    objective, refuses nothing that validation accepts. -/
theorem tableau_eq {p : Problem Rat} (hp : p.validate = .ok ()) :
    p.tableau = .ok p.firstTableau := by
  rw [firstTableau_eq_unchecked]
  exact tableau_eq_unchecked (fun _ => rfl) hp

variable {p : Problem Rat}

@[simp] theorem rhsColumn_firstTableau (p : Problem Rat) :
    p.firstTableau.rhsColumn = p.numVariables + p.numConstraints := by
  simp [firstTableau, Tableau.rhsColumn]

theorem numRows_firstTableau (hp : p.WellShaped) :
    p.firstTableau.numRows = p.numConstraints + 1 := by
  have hlen : p.rhs.length = p.constraints.length := hp.length_rhs
  simp [firstTableau, Tableau.numRows, Tableau.initialRows, numConstraints, hlen]

/-- The objective row holds the negated coefficients, 0 under the slacks and 0 for `Z`. -/
theorem row_firstTableau_zero (p : Problem Rat) :
    p.firstTableau.rows.getD 0 #[]
      = (p.objective.map (-·) ++ List.replicate p.numConstraints 0 ++ [0]).toArray := by
  simp [firstTableau, Tableau.initialRows, numConstraints]

/-- The row of a constraint holds its coefficients, the slack cells and its bound. -/
theorem row_firstTableau_succ (hp : p.WellShaped) {i : Nat} (hi : i < p.numConstraints) :
    p.firstTableau.rows.getD (i + 1) #[]
      = (p.constraints.getD i [] ++ Tableau.slackCells p.numConstraints i
          ++ [p.bound i]).toArray := by
  have hi' : i < p.constraints.length := hi
  have hlen : p.rhs.length = p.constraints.length := hp.length_rhs
  simp [firstTableau, Tableau.initialRows, numConstraints, bound, hi', hlen]

theorem length_getD_constraints (hp : p.WellShaped) {i : Nat} (hi : i < p.numConstraints) :
    (p.constraints.getD i []).length = p.numVariables := by
  rw [List.getD_eq_getElem _ _ hi]
  exact hp.length_constraint _ (List.getElem_mem hi)

theorem firstTableau_wellShaped (hp : p.WellShaped) : p.firstTableau.WellShaped := by
  rw [firstTableau_eq_unchecked]
  exact Tableau.wellShaped_unchecked (by simpa [numVariables] using hp.length_constraint) 0 p.rhs

/-! ### Its entries -/

theorem entry_firstTableau_objective {j : Nat} (hj : j < p.numVariables) :
    p.firstTableau.entry 0 j = -p.cost j := by
  have hj' : j < p.objective.length := hj
  rw [Tableau.entry, row_firstTableau_zero]
  simp [cost, hj', List.getElem?_append]

theorem entry_firstTableau_objective_of_le {j : Nat} (hj : p.numVariables ≤ j) :
    p.firstTableau.entry 0 j = 0 := by
  have hj' : p.objective.length ≤ j := hj
  rw [Tableau.entry, row_firstTableau_zero, List.append_assoc, ← List.replicate_succ']
  simp only [List.getElem?_toArray, Array.getD_eq_getD_getElem?]
  rw [List.getElem?_append_right (by simpa using hj'), List.getElem?_getD_replicate_default_eq]

theorem entry_firstTableau_constraint (hp : p.WellShaped) {i j : Nat}
    (hi : i < p.numConstraints) (hj : j < p.numVariables) :
    p.firstTableau.entry (i + 1) j = p.coefficient i j := by
  have hlen := length_getD_constraints hp hi
  rw [Tableau.entry, row_firstTableau_succ hp hi, coefficient]
  simp only [List.getElem?_toArray, Array.getD_eq_getD_getElem?,
    List.getD_eq_getElem?_getD] at hlen ⊢
  rw [List.append_assoc, List.getElem?_append_left (by omega)]

theorem entry_firstTableau_slack (hp : p.WellShaped) {i k : Nat}
    (hi : i < p.numConstraints) (hk : k < p.numConstraints) :
    p.firstTableau.entry (i + 1) (p.numVariables + k) = if k = i then 1 else 0 := by
  have hlen := length_getD_constraints hp hi
  rw [Tableau.entry, row_firstTableau_succ hp hi, List.append_assoc]
  simp only [List.getElem?_toArray, Array.getD_eq_getD_getElem?]
  rw [List.getElem?_append_right (by omega), hlen, Nat.add_sub_cancel_left,
    List.getElem?_append_left (by simpa [Tableau.slackCells] using hk)]
  simp [Tableau.slackCells, hk]

theorem entry_firstTableau_rhs (hp : p.WellShaped) {i : Nat} (hi : i < p.numConstraints) :
    p.firstTableau.entry (i + 1) (p.numVariables + p.numConstraints) = p.bound i := by
  have hlen : (p.constraints.getD i [] ++ Tableau.slackCells p.numConstraints i).length
      = p.numVariables + p.numConstraints := by
    rw [List.length_append, length_getD_constraints hp hi]
    simp [Tableau.slackCells]
  rw [Tableau.entry, row_firstTableau_succ hp hi]
  simp only [List.getElem?_toArray, Array.getD_eq_getD_getElem?]
  rw [List.getElem?_append_right (le_of_eq hlen), hlen, Nat.sub_self]
  rfl

/-! ### Its equations -/

/-- The columns of the slacks form a basis. -/
theorem firstTableau_hasBasis (hp : p.WellShaped) : p.firstTableau.HasBasis := by
  intro r hr hrn
  obtain ⟨i, rfl⟩ := Nat.exists_eq_succ_of_ne_zero (Nat.pos_iff_ne_zero.mp hr)
  rw [numRows_firstTableau hp] at hrn
  have hi : i < p.numConstraints := by omega
  -- the slack of constraint `i` has its 1 in row `i + 1`
  refine ⟨p.numVariables + i, by rw [rhsColumn_firstTableau]; omega, fun k hk => ?_⟩
  rw [numRows_firstTableau hp] at hk
  cases k with
  | zero =>
    rw [entry_firstTableau_objective_of_le (Nat.le_add_right _ _), if_neg (by omega)]
  | succ k =>
    rw [entry_firstTableau_slack hp (by omega) hi]
    by_cases hik : i = k
    · rw [if_pos hik, if_pos (by omega)]
    · rw [if_neg hik, if_neg (by omega)]

/-- A sum over the objective row that ignores cells with 0 runs over the decision variables. -/
theorem sum_firstTableau_zero (p : Problem Rat) {f : Rat → Nat → Rat} (hf : ∀ k, f 0 k = 0) :
    ∑ k ∈ Finset.range p.firstTableau.rhsColumn, f (p.firstTableau.entry 0 k) k
      = ∑ j ∈ Finset.range p.numVariables, f (-p.cost j) j := by
  have hdecision : ∀ j ∈ Finset.range p.numVariables,
      f (p.firstTableau.entry 0 j) j = f (-p.cost j) j := fun j hj => by
    rw [entry_firstTableau_objective (Finset.mem_range.mp hj)]
  have hslack : ∀ k ∈ Finset.range p.numConstraints,
      f (p.firstTableau.entry 0 (p.numVariables + k)) (p.numVariables + k) = 0 := fun k _ => by
    rw [entry_firstTableau_objective_of_le (Nat.le_add_right _ _), hf]
  rw [rhsColumn_firstTableau, Finset.sum_range_add, Finset.sum_congr rfl hdecision,
    Finset.sum_congr rfl hslack, Finset.sum_const_zero, add_zero]

/-- A sum over the row of a constraint that ignores cells with 0 runs over the decision variables
    and the slack of the constraint. -/
theorem sum_firstTableau_succ (hp : p.WellShaped) {i : Nat} (hi : i < p.numConstraints)
    {f : Rat → Nat → Rat} (hf : ∀ k, f 0 k = 0) :
    ∑ k ∈ Finset.range p.firstTableau.rhsColumn, f (p.firstTableau.entry (i + 1) k) k
      = ∑ j ∈ Finset.range p.numVariables, f (p.coefficient i j) j
        + f 1 (p.numVariables + i) := by
  have hdecision : ∀ j ∈ Finset.range p.numVariables,
      f (p.firstTableau.entry (i + 1) j) j = f (p.coefficient i j) j := fun j hj => by
    rw [entry_firstTableau_constraint hp hi (Finset.mem_range.mp hj)]
  have hslack : ∀ k ∈ Finset.range p.numConstraints,
      f (p.firstTableau.entry (i + 1) (p.numVariables + k)) (p.numVariables + k)
        = if k = i then f 1 (p.numVariables + i) else 0 := fun k hk => by
    rw [entry_firstTableau_slack hp hi (Finset.mem_range.mp hk)]
    by_cases hki : k = i
    · rw [if_pos hki, if_pos hki, hki]
    · rw [if_neg hki, if_neg hki, hf]
  rw [rhsColumn_firstTableau, Finset.sum_range_add, Finset.sum_congr rfl hdecision,
    Finset.sum_congr rfl hslack, Finset.sum_ite_eq', if_pos (Finset.mem_range.mpr hi)]

/-- The residual of the objective row compares `Z` with the objective. -/
theorem residual_firstTableau_zero (z : Rat) (v : Nat → Rat) :
    p.firstTableau.residual z v 0 = z - p.objectiveAt v := by
  have hsum : p.firstTableau.rowSum v 0
      = ∑ j ∈ Finset.range p.numVariables, -p.cost j * v j :=
    p.sum_firstTableau_zero (f := fun e k => e * v k) fun k => zero_mul (v k)
  simp only [neg_mul, Finset.sum_neg_distrib] at hsum
  rw [Tableau.residual_zero, hsum, rhsColumn_firstTableau,
    entry_firstTableau_objective_of_le (Nat.le_add_right _ _), objectiveAt]
  ring

/-- The residual of a constraint compares its left side and its slack with the bound. -/
theorem residual_firstTableau_succ (hp : p.WellShaped) {i : Nat} (hi : i < p.numConstraints)
    (z : Rat) (v : Nat → Rat) :
    p.firstTableau.residual z v (i + 1)
      = p.constraintAt v i + v (p.numVariables + i) - p.bound i := by
  have hsum : p.firstTableau.rowSum v (i + 1)
      = ∑ j ∈ Finset.range p.numVariables, p.coefficient i j * v j
        + 1 * v (p.numVariables + i) :=
    sum_firstTableau_succ hp hi (f := fun e k => e * v k) fun k => zero_mul (v k)
  rw [Tableau.residual_of_pos _ _ _ (Nat.succ_pos i), hsum, rhsColumn_firstTableau,
    entry_firstTableau_rhs hp hi, one_mul, constraintAt]

/-- **The equations of the first tableau.** `Z` is the objective, and every constraint holds with
    equality once its slack is added. -/
theorem firstTableau_solves_iff (hp : p.WellShaped) {z : Rat} {v : Nat → Rat} :
    p.firstTableau.Solves z v
      ↔ p.objectiveAt v = z
        ∧ ∀ i < p.numConstraints, p.constraintAt v i + v (p.numVariables + i) = p.bound i := by
  constructor
  · intro h
    constructor
    · have hrow := h 0 (by rw [numRows_firstTableau hp]; omega)
      rw [residual_firstTableau_zero] at hrow
      linarith
    · intro i hi
      have hrow := h (i + 1) (by rw [numRows_firstTableau hp]; omega)
      rw [residual_firstTableau_succ hp hi] at hrow
      linarith
  · rintro ⟨hz, hrows⟩ k hk
    rw [numRows_firstTableau hp] at hk
    cases k with
    | zero => rw [residual_firstTableau_zero, hz, sub_self]
    | succ i => rw [residual_firstTableau_succ hp (by omega), hrows i (by omega), sub_self]

/-! ### Points and their slacks -/

/-- A point followed by its slacks, as values of the columns. -/
def withSlacks (p : Problem Rat) (x : Nat → Rat) (j : Nat) : Rat :=
  if j < p.numVariables then x j
  else p.bound (j - p.numVariables) - p.constraintAt x (j - p.numVariables)

theorem withSlacks_of_lt {x : Nat → Rat} {j : Nat} (hj : j < p.numVariables) :
    p.withSlacks x j = x j := by
  rw [withSlacks, if_pos hj]

theorem withSlacks_slack (x : Nat → Rat) (i : Nat) :
    p.withSlacks x (p.numVariables + i) = p.bound i - p.constraintAt x i := by
  rw [withSlacks, if_neg (by omega), Nat.add_sub_cancel_left]

@[simp] theorem objectiveAt_withSlacks (x : Nat → Rat) :
    p.objectiveAt (p.withSlacks x) = p.objectiveAt x :=
  Finset.sum_congr rfl fun j hj => by rw [withSlacks_of_lt (Finset.mem_range.mp hj)]

@[simp] theorem constraintAt_withSlacks (x : Nat → Rat) (i : Nat) :
    p.constraintAt (p.withSlacks x) i = p.constraintAt x i :=
  Finset.sum_congr rfl fun j hj => by rw [withSlacks_of_lt (Finset.mem_range.mp hj)]

/-- The values of a point with its slacks add up to its coordinates and its slacks. -/
theorem sum_withSlacks (p : Problem Rat) (x : Nat → Rat) :
    ∑ j ∈ Finset.range (p.numVariables + p.numConstraints), p.withSlacks x j
      = ∑ j ∈ Finset.range p.numVariables, x j
        + ∑ i ∈ Finset.range p.numConstraints, (p.bound i - p.constraintAt x i) := by
  rw [Finset.sum_range_add]
  refine congrArg₂ (· + ·) (Finset.sum_congr rfl fun j hj => ?_)
    (Finset.sum_congr rfl fun i _ => withSlacks_slack x i)
  exact withSlacks_of_lt (Finset.mem_range.mp hj)

/-- Every point solves the first tableau together with its slacks and its objective. -/
theorem solves_withSlacks (hp : p.WellShaped) (x : Nat → Rat) :
    p.firstTableau.Solves (p.objectiveAt x) (p.withSlacks x) := by
  refine (firstTableau_solves_iff hp).mpr ⟨objectiveAt_withSlacks x, fun i _ => ?_⟩
  rw [constraintAt_withSlacks, withSlacks_slack]
  ring

/-- The slacks of a feasible point are not negative. -/
theorem Feasible.withSlacks_nonneg {x : Nat → Rat} (hx : p.Feasible x) {j : Nat}
    (hj : j < p.firstTableau.rhsColumn) : 0 ≤ p.withSlacks x j := by
  rw [rhsColumn_firstTableau] at hj
  by_cases hjn : j < p.numVariables
  · rw [withSlacks_of_lt hjn]
    exact hx.nonneg j hjn
  · rw [withSlacks, if_neg hjn]
    have hle := hx.constraintAt_le (j - p.numVariables) (by omega)
    linarith

/-- A solution of the first tableau without negative values is a feasible point. -/
theorem feasible_of_solves (hp : p.WellShaped) {z : Rat} {v : Nat → Rat}
    (hsolves : p.firstTableau.Solves z v)
    (hnonneg : ∀ j < p.firstTableau.rhsColumn, 0 ≤ v j) : p.Feasible v := by
  obtain ⟨-, hrows⟩ := (firstTableau_solves_iff hp).mp hsolves
  rw [rhsColumn_firstTableau] at hnonneg
  refine ⟨fun j hj => hnonneg j (by omega), fun i hi => ?_⟩
  have hslack := hnonneg (p.numVariables + i) (by omega)
  have hrow := hrows i hi
  linarith

end Problem

end SimplexTableau

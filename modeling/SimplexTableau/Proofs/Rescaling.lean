import SimplexTableau.Proofs.BasicSolution
import SimplexTableau.Proofs.Choices
import SimplexTableau.Proofs.Course
import SimplexTableau.Proofs.Execution

namespace SimplexTableau

/-!
# A change of units

The gains of a problem may be counted in other units, and so may the amounts: its objective
coefficients are multiplied by one positive factor and its bounds by another one.  Over fractions
this multiplies the objective row of every tableau by the first factor and the right-hand sides by
the second.  Both rules compare entries of the objective row with each other and ratios with each
other, so they choose the same pivots; only the comparison of objective entries with the tolerance
needs a tolerance that respects the units.

* `Rescaling` — the two factors; `Rescaling.Respects`: the tolerance is 0, or the gains stay;
* `entry_rescaled`, `pivoted_rescaled` — the entries in other units, before and after a pivot;
* `justifies_rescaled_iff`, `select_rescaled` — the verdict is the same;
* `reading_rescaled` — the same variables are basic, with their values in other units;
* `Follows.rescaled`, `Course.rescaled` — one step, and a whole run, in other units;
* `Problem.change_of_units` — the run of a problem in other units, with its records and solution.
-/

/-- New units: factors for the objective coefficients and for the bounds. -/
structure Rescaling where
  /-- What the objective coefficients are multiplied by. -/
  gains : Rat
  /-- What the bounds are multiplied by. -/
  amounts : Rat
  /-- The first factor is positive. -/
  gains_pos : 0 < gains
  /-- The second factor is positive. -/
  amounts_pos : 0 < amounts

/-- The tolerance is 0, or the objective coefficients keep their units. -/
def Rescaling.Respects (u : Rescaling) (tolerance : Rat) : Prop := tolerance = 0 ∨ u.gains = 1

/-- A positive factor moves no objective coefficient across a tolerance that it respects. -/
theorem Rescaling.Respects.lt_neg_iff {u : Rescaling} {tolerance : Rat}
    (hu : u.Respects tolerance) (v : Rat) : u.gains * v < -tolerance ↔ v < -tolerance := by
  rcases hu with rfl | hgains
  · have hsign := mul_lt_mul_iff_right₀ u.gains_pos (b := v) (c := 0)
    rwa [mul_zero, ← neg_zero] at hsign
  · rw [hgains, one_mul]

theorem Rescaling.Respects.isBlank_iff {u : Rescaling} {tolerance : Rat}
    (hu : u.Respects tolerance) (v : Rat) :
    IsBlank tolerance (u.gains * v) ↔ IsBlank tolerance v := by
  rcases hu with rfl | hgains
  · have hzero : ∀ w : Rat, IsBlank 0 w ↔ w = 0 := by
      intro w
      rw [SimplexTableau.isBlank_iff, abs_nonpos_iff]
      exact and_iff_right_of_imp (by rintro rfl; norm_num)
    rw [hzero, hzero, mul_eq_zero, or_iff_right u.gains_pos.ne']
  · rw [hgains, one_mul]

/-- The lowest index of a minimum does not depend on a positive factor of the values. -/
theorem lowestMin_mul_iff {s : Set Nat} {f g : Nat → Rat} {a : Rat} (ha : 0 < a)
    (hg : ∀ i ∈ s, g i = a * f i) {i : Nat} : LowestMin s g i ↔ LowestMin s f i := by
  rw [lowestMin_iff, lowestMin_iff]
  refine and_congr_right fun hi => and_congr ?_ ?_
  · refine forall₂_congr fun j hj => ?_
    rw [hg i hi, hg j hj, mul_le_mul_iff_right₀ ha]
  · refine forall₃_congr fun j hj _ => ?_
    rw [hg i hi, hg j hj, mul_lt_mul_iff_right₀ ha]

/-- The problem in other units. -/
def Problem.rescaled (u : Rescaling) (p : Problem Rat) : Problem Rat where
  objective := p.objective.map (u.gains * ·)
  constraints := p.constraints
  rhs := p.rhs.map (u.amounts * ·)

namespace Tableau

variable {u : Rescaling} {t : Tableau Rat} {tolerance : Rat} {c i j k r : Nat}

/-! ### Tableaus in other units -/

/-- The factor of row `i`: only the objective row changes. -/
def rowFactor (u : Rescaling) (i : Nat) : Rat := if i = 0 then u.gains else 1

/-- The factor of column `j`: only the right-hand sides change. -/
def columnFactor (u : Rescaling) (t : Tableau Rat) (j : Nat) : Rat :=
  if j = t.rhsColumn then u.amounts else 1

/-- The tableau in other units. -/
def rescaled (u : Rescaling) (t : Tableau Rat) : Tableau Rat :=
  { t with rows := t.rows.mapIdx fun i row =>
      row.mapIdx fun j v => rowFactor u i * columnFactor u t j * v }

@[simp] theorem rowFactor_zero (u : Rescaling) : rowFactor u 0 = u.gains := rfl

@[simp] theorem rowFactor_of_pos (u : Rescaling) (hi : 0 < i) : rowFactor u i = 1 :=
  if_neg (Nat.ne_of_gt hi)

@[simp] theorem columnFactor_rhsColumn (u : Rescaling) (t : Tableau Rat) :
    columnFactor u t t.rhsColumn = u.amounts := if_pos rfl

@[simp] theorem columnFactor_of_lt (u : Rescaling) (hj : j < t.rhsColumn) :
    columnFactor u t j = 1 := if_neg (Nat.ne_of_lt hj)

@[simp] theorem columns_rescaled (u : Rescaling) (t : Tableau Rat) :
    (t.rescaled u).columns = t.columns := rfl

@[simp] theorem rhsColumn_rescaled (u : Rescaling) (t : Tableau Rat) :
    (t.rescaled u).rhsColumn = t.rhsColumn := rfl

@[simp] theorem numRows_rescaled (u : Rescaling) (t : Tableau Rat) :
    (t.rescaled u).numRows = t.numRows := Array.size_mapIdx

theorem sameFrame_rescaled (u : Rescaling) (t : Tableau Rat) : t.SameFrame (t.rescaled u) :=
  ⟨numRows_rescaled u t, rfl, rfl, rfl⟩

theorem WellShaped.rescaled (ht : t.WellShaped) (u : Rescaling) : (t.rescaled u).WellShaped where
  rows_pos := by
    rw [Tableau.rescaled, Array.size_mapIdx]
    exact ht.rows_pos
  size_row := by
    intro row hrow
    obtain ⟨i, hi, rfl⟩ := Array.getElem_of_mem hrow
    have hi' : i < t.rows.size := by simpa [Tableau.rescaled] using hi
    have hsize : t.rows[i].size = t.columns.size + 1 := ht.size_getElem hi'
    simpa [Tableau.rescaled] using hsize

/-- **Every entry** is multiplied by the factors of its row and its column. -/
theorem entry_rescaled (u : Rescaling) (t : Tableau Rat) (i j : Nat) :
    (t.rescaled u).entry i j = rowFactor u i * columnFactor u t j * t.entry i j := by
  by_cases hi : i < t.rows.size
  · by_cases hj : j < t.rows[i].size
    · simp [entry, rescaled, hi, hj]
    · simp [entry, rescaled, hi, hj]
  · simp [entry, rescaled, hi]

/-- The cells of variables in constraint rows stay. -/
theorem entry_rescaled_of_pos (u : Rescaling) (hi : 0 < i) (hj : j < t.rhsColumn) :
    (t.rescaled u).entry i j = t.entry i j := by
  rw [entry_rescaled, rowFactor_of_pos u hi, columnFactor_of_lt u hj, one_mul, one_mul]

theorem entry_rescaled_objective (u : Rescaling) (hj : j < t.rhsColumn) :
    (t.rescaled u).entry 0 j = u.gains * t.entry 0 j := by
  rw [entry_rescaled, rowFactor_zero, columnFactor_of_lt u hj, mul_one]

theorem entry_rescaled_rhs (u : Rescaling) (hi : 0 < i) :
    (t.rescaled u).entry i t.rhsColumn = u.amounts * t.entry i t.rhsColumn := by
  rw [entry_rescaled, rowFactor_of_pos u hi, columnFactor_rhsColumn, one_mul]

theorem entry_rescaled_value (u : Rescaling) (t : Tableau Rat) :
    (t.rescaled u).entry 0 t.rhsColumn = u.gains * u.amounts * t.entry 0 t.rhsColumn := by
  rw [entry_rescaled, rowFactor_zero, columnFactor_rhsColumn]

/-- **Pivots** on the column of a variable and a constraint row do not depend on the units. -/
theorem WellShaped.pivoted_rescaled (ht : t.WellShaped) (u : Rescaling) (hr : 0 < r)
    (hrn : r < t.numRows) (hc : c < t.rhsColumn) :
    (t.rescaled u).pivoted r c = (t.pivoted r c).rescaled u := by
  have hrescaled := ht.rescaled u
  have hrn' : r < (t.rescaled u).numRows := by rwa [numRows_rescaled]
  have hc' : c < (t.rescaled u).numColumns := lt_numColumns hc
  have hafter := ((SameFrame.refl t).pivoted r c).trans (sameFrame_rescaled u (t.pivoted r c))
  have hframe := hafter.symm.trans ((sameFrame_rescaled u t).pivoted r c)
  refine hframe.eq_of_entry_eq ((ht.pivoted hrn c).rescaled u) (hrescaled.pivoted hrn' c) ?_
  intro i hi j hj
  rw [numRows_rescaled, numRows_pivoted] at hi
  have hj : j < t.numColumns := hj
  have hi' : i < (t.rescaled u).numRows := by rwa [numRows_rescaled]
  rw [entry_pivoted hrescaled hrn' hc' hi' hj, entry_rescaled u (t.pivoted r c),
    entry_pivoted ht hrn (lt_numColumns hc) hi hj]
  simp only [entry_rescaled, rowFactor_of_pos u hr, columnFactor_of_lt u hc]
  have hcolumn : columnFactor u (t.pivoted r c) j = columnFactor u t j := rfl
  rw [hcolumn]
  -- the factors of the pivot row and the pivot column are 1
  split
  case isTrue h =>
    rw [h, rowFactor_of_pos u hr]
    ring
  case isFalse => ring

/-! ### Verdicts in other units -/

theorem improvable_rescaled_iff (hu : u.Respects tolerance) :
    (t.rescaled u).Improvable tolerance ↔ t.Improvable tolerance := by
  refine exists_congr fun j => and_congr_right fun hj => ?_
  have hj : j < t.rhsColumn := hj
  rw [entry_rescaled_objective u hj, hu.lt_neg_iff]

theorem enters_rescaled_iff (hu : u.Respects tolerance) :
    (t.rescaled u).Enters tolerance c ↔ t.Enters tolerance c := by
  rw [enters_iff, enters_iff, improvable_rescaled_iff hu, rhsColumn_rescaled]
  exact and_congr_right' (lowestMin_mul_iff u.gains_pos fun j hj => entry_rescaled_objective u hj)

theorem eligibleRows_rescaled (u : Rescaling) (hc : c < t.rhsColumn) :
    (t.rescaled u).eligibleRows tolerance c = t.eligibleRows tolerance c := by
  ext i
  simp only [eligibleRows, Set.mem_ofPred_eq, numRows_rescaled]
  exact and_congr_right fun hi => by rw [entry_rescaled_of_pos u hi.1 hc]

theorem leaves_rescaled_iff (u : Rescaling) (hc : c < t.rhsColumn) :
    (t.rescaled u).Leaves tolerance c r ↔ t.Leaves tolerance c r := by
  rw [leaves_iff, leaves_iff, eligibleRows_rescaled u hc]
  refine lowestMin_mul_iff u.amounts_pos fun i hi => ?_
  rw [ratio, ratio, rhsColumn_rescaled, entry_rescaled_rhs u hi.1.1,
    entry_rescaled_of_pos u hi.1.1 hc, mul_div_assoc]

/-- **Verdicts** are justified in all units or in none. -/
theorem justifies_rescaled_iff (hu : u.Respects tolerance) {verdict : Selection} :
    (t.rescaled u).Justifies tolerance verdict ↔ t.Justifies tolerance verdict := by
  cases verdict with
  | optimal => rw [justifies_optimal_iff, justifies_optimal_iff, improvable_rescaled_iff hu]
  | pivot c r =>
    refine (and_congr_left' (enters_rescaled_iff hu)).trans (and_congr_right fun henters => ?_)
    exact leaves_rescaled_iff u henters.column_lt
  | unbounded c =>
    rw [justifies_unbounded_iff, justifies_unbounded_iff, enters_rescaled_iff hu]
    refine and_congr_right fun henters => ?_
    rw [eligibleRows_rescaled u henters.column_lt]

theorem WellShaped.select_rescaled (ht : t.WellShaped) (hu : u.Respects tolerance) :
    select tolerance (t.rescaled u) = select tolerance t := by
  obtain ⟨verdict, hselect, -⟩ := select_ok ht tolerance
  rw [hselect, (ht.rescaled u).select_eq_ok_iff, justifies_rescaled_iff hu]
  exact ht.select_justified hselect

/-! ### Basic solutions in other units -/

/-- A column is a unit column of a constraint row in all units or in none. -/
theorem unitRowAt_rescaled_iff (hu : u.Respects tolerance) (hk : k < t.rhsColumn) (hr : 0 < r) :
    (t.rescaled u).unitRowAt tolerance k = some r ↔ t.unitRowAt tolerance k = some r := by
  rw [unitRowAt_eq_some_iff, unitRowAt_eq_some_iff, numRows_rescaled, entry_rescaled_of_pos u hr hk]
  refine and_congr_right fun _ => and_congr_right fun _ => forall₃_congr fun i _ _ => ?_
  rcases Nat.eq_zero_or_pos i with rfl | hi
  · rw [entry_rescaled_objective u hk, hu.isBlank_iff]
  · rw [entry_rescaled_of_pos u hi hk]

theorem hostAt_rescaled (hu : u.Respects tolerance) (t : Tableau Rat) (k : Nat) :
    (t.rescaled u).hostAt tolerance k = t.hostAt tolerance k := by
  ext r
  rw [hostAt_eq_some_iff, hostAt_eq_some_iff, rhsColumn_rescaled]
  refine and_congr_right fun hk => ?_
  constructor
  · rintro ⟨hunit, hr, hfirst⟩
    exact ⟨(unitRowAt_rescaled_iff hu hk hr).mp hunit, hr,
      fun k' hk' h => hfirst k' hk' ((unitRowAt_rescaled_iff hu (hk'.trans hk) hr).mpr h)⟩
  · rintro ⟨hunit, hr, hfirst⟩
    exact ⟨(unitRowAt_rescaled_iff hu hk hr).mpr hunit, hr,
      fun k' hk' h => hfirst k' hk' ((unitRowAt_rescaled_iff hu (hk'.trans hk) hr).mp h)⟩

theorem valueAt_rescaled (hu : u.Respects tolerance) (t : Tableau Rat) (k : Nat) :
    (t.rescaled u).valueAt tolerance k = u.amounts * t.valueAt tolerance k := by
  have hhost := hostAt_rescaled hu t k
  cases h : t.hostAt tolerance k with
  | none =>
    rw [h] at hhost
    rw [valueAt_of_hostAt_none hhost, valueAt_of_hostAt_none h, mul_zero]
  | some r =>
    rw [h] at hhost
    rw [valueAt_of_hostAt hhost, valueAt_of_hostAt h, rhsColumn_rescaled,
      entry_rescaled_rhs u (hostAt_pos h)]

end Tableau

/-! ### Records and solutions in other units -/

/-- The variable with its value in other units. -/
def VariableValue.rescaled (u : Rescaling) (v : VariableValue Rat) : VariableValue Rat :=
  { v with value := u.amounts * v.value }

/-- The classification in other units. -/
def Classification.rescaled (u : Rescaling) (c : Classification Rat) : Classification Rat :=
  ⟨c.basic.map (VariableValue.rescaled u), c.nonBasic.map (VariableValue.rescaled u)⟩

/-- The record in other units: the same verdict on the tableau in these units. -/
def Record.rescaled (u : Rescaling) (record : Record Rat) : Record Rat :=
  { record with
    tableau := record.tableau.rescaled u
    classification := record.classification.rescaled u
    z := u.gains * u.amounts * record.z }

namespace Assignment

variable {K : Type} {f : K → K}

theorem insertEntry_map (name : String) (value : K) (entries : List (String × K)) :
    insertEntry name (f value) (entries.map fun e => (e.1, f e.2))
      = (insertEntry name value entries).map fun e => (e.1, f e.2) := by
  induction entries with
  | nil => rfl
  | cons head rest ih =>
    rw [List.map_cons, insertEntry, insertEntry]
    split
    · rfl
    · split
      · rfl
      · rw [List.map_cons, ih]

/-- The assignment with a function applied to every value. -/
def mapValues (f : K → K) (a : Assignment K) : Assignment K where
  entries := a.entries.map fun e => (e.1, f e.2)
  increasing := by
    rw [Increasing, List.pairwise_map]
    exact a.increasing

theorem ofList_map (l : List (String × K)) :
    ofList (l.map fun e => (e.1, f e.2)) = (ofList l).mapValues f := by
  induction l using List.reverseRecOn with
  | nil => rfl
  | append_singleton l last ih =>
    rw [List.map_append, List.map_singleton, ofList_append_singleton, ofList_append_singleton, ih]
    exact Assignment.ext (insertEntry_map last.1 last.2 (ofList l).entries)

end Assignment

/-- The solution in other units. -/
def Solution.rescaled (u : Rescaling) (solution : Solution Rat) : Solution Rat :=
  { solution with
    z := solution.z.map (u.gains * u.amounts * ·)
    values := solution.values.map (Assignment.mapValues (u.amounts * ·))
    trace := solution.trace.map (Record.rescaled u) }

theorem Tableau.reading_rescaled {u : Rescaling} {tolerance : Rat} (hu : u.Respects tolerance)
    (t : Tableau Rat) :
    (t.rescaled u).reading tolerance = (t.reading tolerance).rescaled u := by
  have hvariable : (t.rescaled u).variableAt tolerance
      = fun k => (t.variableAt tolerance k).rescaled u := by
    funext k
    rw [variableAt, hostAt_rescaled hu, valueAt_rescaled hu]
    rfl
  simp only [reading, Classification.rescaled, hvariable, rhsColumn_rescaled, List.filter_map,
    List.map_map, Function.comp_def]
  rfl

theorem Classification.structural_rescaled (u : Rescaling) (c : Classification Rat) :
    (c.rescaled u).structural = c.structural.map fun e => (e.1, u.amounts * e.2) := by
  simp only [structural, all, rescaled, ← List.map_append, List.filter_map, List.map_map,
    Function.comp_def]
  rfl

theorem Classification.hostedBy_rescaled (u : Rescaling) (c : Classification Rat) (row : Nat) :
    (c.rescaled u).hostedBy row = (c.hostedBy row).map (VariableValue.rescaled u) := by
  simp only [hostedBy, rescaled, List.find?_map, Function.comp_def]
  rfl

namespace Run

variable {u : Rescaling} {r next : Run Rat} {runs : List (Run Rat)}

/-! ### Runs in other units -/

/-- The run in other units. -/
def rescaled (u : Rescaling) (r : Run Rat) : Run Rat := { r with tableau := r.tableau.rescaled u }

theorem Coherent.rescaled (hr : r.Coherent) (hu : u.Respects r.solver.tolerance) :
    (r.rescaled u).Coherent := by
  refine ⟨hr.wellShaped.rescaled u, ?_⟩
  have hfits := hr.phaseFits
  unfold PhaseFits at hfits ⊢
  simp only [Run.rescaled, hr.wellShaped.select_rescaled hu]
  exact hfits

/-- **One step** in other units. -/
theorem Follows.rescaled (h : r.Follows next) (hr : r.Coherent)
    (hu : u.Respects r.solver.tolerance) : (r.rescaled u).Follows (next.rescaled u) := by
  have hnext : u.Respects next.solver.tolerance := by rwa [h.solver_eq]
  refine ⟨h.solver_eq, h.coherent.rescaled hnext, h.examined, ?_⟩
  cases h.moves with
  | start hphase htableau hpivots =>
    exact .start hphase (congrArg (Tableau.rescaled u) htableau) hpivots
  | pivot c i hphase htableau hpivots =>
    obtain ⟨hc, hi, hin⟩ := hr.pivot_inside hphase
    refine .pivot c i hphase ?_ hpivots
    exact (congrArg (Tableau.rescaled u) htableau).trans
      (hr.wellShaped.pivoted_rescaled u hi hin hc).symm

/-- **A course** in other units makes the same pivots. -/
theorem Course.rescaled (h : r.Course runs) (hr : r.Coherent)
    (hu : u.Respects r.solver.tolerance) :
    (r.rescaled u).Course (runs.map (Run.rescaled u)) := by
  induction runs generalizing r with
  | nil => exact .nil h.ended
  | cons next rest ih =>
    have hnext : u.Respects next.solver.tolerance := by rwa [h.head.solver_eq]
    exact (ih h.tail h.head.coherent hnext).cons (h.head.rescaled hr hu)

/-- The column that a record names does not depend on the units. -/
theorem Coherent.namedColumn_rescaled (hr : r.Coherent) (hu : u.Respects r.solver.tolerance) :
    (r.rescaled u).namedColumn = r.namedColumn := by
  cases hphase : r.phase with
  | unbounded name =>
    -- the column is chosen once more, and in both units as the verdict has chosen it
    have hphase' : (r.rescaled u).phase = .unbounded name := hphase
    obtain ⟨c, -, hnamed, -, hselect⟩ := hr.exists_namedColumn hphase
    obtain ⟨c', -, hnamed', -, hselect'⟩ := (hr.rescaled hu).exists_namedColumn hphase'
    have hsame := (hr.wellShaped.select_rescaled hu).symm.trans hselect'
    rw [hselect] at hsame
    rw [hnamed, hnamed', Selection.unbounded.inj (Except.ok.inj hsame)]
  | fresh => simp only [namedColumn, Run.rescaled, hphase]
  | pivoting c i => simp only [namedColumn, Run.rescaled, hphase]
  | optimal => simp only [namedColumn, Run.rescaled, hphase]
  | limitReached => simp only [namedColumn, Run.rescaled, hphase]

/-- **The record** of an examination in other units. -/
theorem Coherent.report_rescaled (hr : r.Coherent) (hu : u.Respects r.solver.tolerance) :
    (r.rescaled u).report = r.report.rescaled u := by
  have hreading := Tableau.reading_rescaled hu r.tableau
  have hleaving : (r.rescaled u).report.leaving = r.report.leaving := by
    show (r.phase.row?.bind ((r.tableau.rescaled u).reading r.solver.tolerance).hostedBy).map _
      = (r.phase.row?.bind (r.tableau.reading r.solver.tolerance).hostedBy).map _
    rw [hreading]
    cases r.phase.row? with
    | none => rfl
    | some i =>
      rw [Option.bind_some, Option.bind_some, Classification.hostedBy_rescaled, Option.map_map]
      rfl
  have helement : (r.rescaled u).report.pivotElement = r.report.pivotElement := by
    cases hphase : r.phase with
    | pivoting c i =>
      obtain ⟨hc, hi, -⟩ := hr.pivot_inside hphase
      simp only [report, Run.rescaled, hphase, Tableau.entry_rescaled_of_pos u hi hc]
    | fresh => simp only [report, Run.rescaled, hphase]
    | optimal => simp only [report, Run.rescaled, hphase]
    | unbounded name => simp only [report, Run.rescaled, hphase]
    | limitReached => simp only [report, Run.rescaled, hphase]
  -- the other choices are those of the phase, which stays
  unfold report Record.rescaled
  congr 1
  · exact hr.namedColumn_rescaled hu
  · exact congrArg _ (hr.namedColumn_rescaled hu)
  · exact Tableau.entry_rescaled_value u r.tableau

theorem Course.map_report_rescaled (h : r.Course runs) (hu : u.Respects r.solver.tolerance) :
    (runs.map (Run.rescaled u)).map report = (runs.map report).map (Record.rescaled u) := by
  rw [List.map_map, List.map_map]
  refine List.map_congr_left fun a ha => ?_
  obtain ⟨hcoherent, -, hsolver⟩ := h.coherent a ha
  exact hcoherent.report_rescaled (by rwa [hsolver])

theorem Course.keeps_rescaled (h : r.Course runs) (hu : u.Respects r.solver.tolerance) :
    (r.rescaled u).keeps (runs.map (Run.rescaled u))
      = (r.keeps runs).map (Record.rescaled u) := by
  show (if r.solver.trace then (runs.map (Run.rescaled u)).map report else [])
    = (if r.solver.trace then runs.map report else []).map (Record.rescaled u)
  rw [h.map_report_rescaled hu]
  split <;> rfl

/-- **The solution** that a run has come to in other units. -/
theorem outcome_rescaled (hu : u.Respects r.solver.tolerance) (trace : List (Record Rat)) :
    (r.rescaled u).outcome (trace.map (Record.rescaled u)) = (r.outcome trace).rescaled u := by
  cases hphase : r.phase with
  | optimal =>
    have hz := Tableau.entry_rescaled_value u r.tableau
    have hvalues := Assignment.ofList_map (f := (u.amounts * ·))
      (r.tableau.reading r.solver.tolerance).structural
    have hphase' : (r.rescaled u).phase = .optimal := hphase
    rw [outcome_of_optimal hphase, outcome_of_optimal hphase']
    simp only [Solution.optimal, Solution.rescaled, rescaled, Tableau.reading_rescaled hu,
      Classification.structural_rescaled, hvalues, Tableau.rhsColumn_rescaled, hz, Option.map_some]
  | unbounded name =>
    simp only [outcome, rescaled, hphase]
    rfl
  | fresh =>
    simp only [outcome, rescaled, hphase]
    rfl
  | pivoting c i =>
    simp only [outcome, rescaled, hphase]
    rfl
  | limitReached =>
    simp only [outcome, rescaled, hphase]
    rfl

end Run

/-! ### Problems in other units -/

namespace Problem

variable {u : Rescaling} {p : Problem Rat}

@[simp] theorem numVariables_rescaled (u : Rescaling) (p : Problem Rat) :
    (p.rescaled u).numVariables = p.numVariables := List.length_map _

@[simp] theorem numConstraints_rescaled (u : Rescaling) (p : Problem Rat) :
    (p.rescaled u).numConstraints = p.numConstraints := rfl

theorem cost_rescaled (u : Rescaling) (p : Problem Rat) (j : Nat) :
    (p.rescaled u).cost j = u.gains * p.cost j := by
  simpa [cost, rescaled] using List.getD_map (l := p.objective) (d := 0) (n := j) (u.gains * ·)

theorem bound_rescaled (u : Rescaling) (p : Problem Rat) (i : Nat) :
    (p.rescaled u).bound i = u.amounts * p.bound i := by
  simpa [bound, rescaled] using List.getD_map (l := p.rhs) (d := 0) (n := i) (u.amounts * ·)

theorem WellShaped.rescaled (hp : p.WellShaped) (u : Rescaling) : (p.rescaled u).WellShaped where
  numVariables_ne_zero := by
    rw [numVariables_rescaled]
    exact hp.numVariables_ne_zero
  length_constraint := by
    rw [numVariables_rescaled]
    exact hp.length_constraint
  length_rhs := by
    rw [Problem.rescaled, List.length_map]
    exact hp.length_rhs

/-- A valid problem is valid in all units. -/
theorem validate_rescaled (u : Rescaling) (hp : p.validate = .ok ()) :
    (p.rescaled u).validate = .ok () := by
  obtain ⟨hshape, hbounds⟩ := validate_rat_iff.mp hp
  refine validate_rat_iff.mpr ⟨hshape.rescaled u, fun i hi => ?_⟩
  rw [bound_rescaled]
  exact mul_nonneg u.amounts_pos.le (hbounds i hi)

/-- The costs take the factor of the gains, and the other cells of the objective row are 0. -/
theorem entry_firstTableau_rescaled_objective (u : Rescaling) (p : Problem Rat) (j : Nat) :
    (p.rescaled u).firstTableau.entry 0 j = (p.firstTableau.rescaled u).entry 0 j := by
  by_cases hvariable : j < p.numVariables
  · have hcolumn : j < p.firstTableau.rhsColumn := by
      rw [rhsColumn_firstTableau]
      omega
    rw [entry_firstTableau_objective (by rwa [numVariables_rescaled]), cost_rescaled,
      Tableau.entry_rescaled_objective u hcolumn, entry_firstTableau_objective hvariable, mul_neg]
  · have hle : p.numVariables ≤ j := Nat.not_lt.mp hvariable
    rw [entry_firstTableau_objective_of_le (by rwa [numVariables_rescaled]),
      Tableau.entry_rescaled, entry_firstTableau_objective_of_le hle, mul_zero]

/-- Neither the coefficients nor the cells of the slacks change. -/
theorem entry_firstTableau_rescaled_constraint (u : Rescaling) (hp : p.WellShaped) {i j : Nat}
    (hi : i < p.numConstraints) (hj : j < p.firstTableau.rhsColumn) :
    (p.rescaled u).firstTableau.entry (i + 1) j = p.firstTableau.entry (i + 1) j := by
  have hp' := hp.rescaled u
  by_cases hvariable : j < p.numVariables
  · rw [entry_firstTableau_constraint hp' hi (by rwa [numVariables_rescaled]),
      entry_firstTableau_constraint hp hi hvariable]
    rfl
  · obtain ⟨k, rfl⟩ := Nat.exists_eq_add_of_le (Nat.not_lt.mp hvariable)
    rw [rhsColumn_firstTableau] at hj
    have hk : k < p.numConstraints := by omega
    have hslack := entry_firstTableau_slack hp' hi hk
    rw [numVariables_rescaled] at hslack
    rw [hslack, entry_firstTableau_slack hp hi hk]

theorem entry_firstTableau_rescaled_rhs (u : Rescaling) (hp : p.WellShaped) {i : Nat}
    (hi : i < p.numConstraints) :
    (p.rescaled u).firstTableau.entry (i + 1) p.firstTableau.rhsColumn
      = u.amounts * p.firstTableau.entry (i + 1) p.firstTableau.rhsColumn := by
  have hbound := entry_firstTableau_rhs (hp.rescaled u) hi
  rw [numVariables_rescaled, numConstraints_rescaled] at hbound
  rw [rhsColumn_firstTableau, hbound, bound_rescaled, entry_firstTableau_rhs hp hi]

/-- **The first tableau** in other units. -/
theorem firstTableau_rescaled (u : Rescaling) (hp : p.WellShaped) :
    (p.rescaled u).firstTableau = p.firstTableau.rescaled u := by
  have hp' := hp.rescaled u
  have hframe : (p.firstTableau.rescaled u).SameFrame (p.rescaled u).firstTableau := by
    refine ⟨?_, ?_, numVariables_rescaled u p, rfl⟩
    · rw [numRows_firstTableau hp', Tableau.numRows_rescaled, numRows_firstTableau hp,
        numConstraints_rescaled]
    · simp [firstTableau, Tableau.rescaled]
  refine hframe.eq_of_entry_eq ((firstTableau_wellShaped hp).rescaled u)
    (firstTableau_wellShaped hp') fun i hi j hj => ?_
  rw [Tableau.numRows_rescaled, numRows_firstTableau hp] at hi
  have hj : j < p.firstTableau.rhsColumn + 1 := hj
  -- row 0 is the objective, and the last column of the others holds the bounds
  cases i with
  | zero => exact entry_firstTableau_rescaled_objective u p j
  | succ i =>
    have hi : i < p.numConstraints := Nat.lt_of_succ_lt_succ hi
    rcases Nat.lt_or_eq_of_le (Nat.le_of_lt_succ hj) with hlt | rfl
    · rw [entry_firstTableau_rescaled_constraint u hp hi hlt,
        Tableau.entry_rescaled_of_pos u (Nat.succ_pos i) hlt]
    · rw [entry_firstTableau_rescaled_rhs u hp hi, Tableau.entry_rescaled_rhs u (Nat.succ_pos i)]

/-- **A change of units.**  Multiply the objective coefficients of a valid problem by one positive
    factor and its bounds by another one.  If the tolerance is 0, or if it is not negative and the
    objective coefficients stay as they are, the problem is valid as before, and its run makes the
    same pivots and ends in the same way: its records and its solution are those of the run before,
    with every value multiplied by the factor of the bounds and the objective by both. -/
theorem change_of_units (u : Rescaling) (s : Solver Rat) (hp : p.validate = .ok ())
    {tolerance : Rat} (htol : 0 ≤ tolerance) (hu : u.Respects tolerance) :
    ∃ t records last solution, p.tableau = .ok t
      ∧ ((s.withTolerance tolerance).start t).collect = .ok (records, last)
      ∧ (s.withTolerance tolerance).solve p = .ok solution
      ∧ (p.rescaled u).tableau = .ok (t.rescaled u)
      ∧ ((s.withTolerance tolerance).start (t.rescaled u)).collect
        = .ok (records.map (Record.rescaled u), last.rescaled u)
      ∧ (s.withTolerance tolerance).solve (p.rescaled u) = .ok (solution.rescaled u) := by
  obtain ⟨hshape, -⟩ := validate_rat_iff.mp hp
  have ht := firstTableau_wellShaped hshape
  have htableau := tableau_eq (validate_rescaled u hp)
  rw [firstTableau_rescaled u hshape] at htableau
  rw [← s.tolerance_withTolerance htol] at hu
  set solver := s.withTolerance tolerance
  have hstart := Run.coherent_start solver ht
  obtain ⟨runs, h, hcollect, hfinish⟩ := hstart.exists_course
  obtain ⟨runs', h', hcollect', hfinish'⟩ := (hstart.rescaled hu).exists_course
  obtain rfl := h'.unique (h.rescaled hstart hu)
  have hlast : (runs.getLastD (solver.start p.firstTableau)).solver = solver :=
    (h.coherent _ h.last_mem).2.2
  rw [List.getLastD_map, h.map_report_rescaled hu] at hcollect'
  rw [List.getLastD_map, h.keeps_rescaled hu, Run.outcome_rescaled (by rwa [hlast])]
    at hfinish'
  refine ⟨p.firstTableau, _, _, _, tableau_eq hp, hcollect, solve_eq_of_solveTableau hp hfinish,
    htableau, hcollect', ?_⟩
  refine solve_eq_of_solveTableau (validate_rescaled u hp) ?_
  rw [firstTableau_rescaled u hshape]
  exact hfinish'

/-- Two columns tie to enter, and then two rows to leave. -/
def tiedLimits : Problem Rat := ⟨[3, 3, 1], [[1, 1, 0], [2, 0, 1], [0, 1, 3]], [4, 8, 6]⟩

/-- Gains in units of a third, amounts in units of two. -/
def smallGains : Rescaling := ⟨3, 1 / 2, by norm_num, by norm_num⟩

/-- Amounts in units of a fifth. -/
def smallAmounts : Rescaling := ⟨1, 5, by norm_num, by norm_num⟩

/-- At tolerance 0 both units may change, at another one those of the amounts. -/
theorem change_of_units_tiedLimits :
    tiedLimits.validate = .ok () ∧ smallGains.Respects 0 ∧ smallAmounts.Respects (1 / 100)
      ∧ (∃ solution, (Solver.standard.withTolerance 0).solve tiedLimits = .ok solution
        ∧ (Solver.standard.withTolerance 0).solve (tiedLimits.rescaled smallGains)
          = .ok (solution.rescaled smallGains)
        ∧ solution.status = .optimal ∧ solution.iterations = 3 ∧ solution.z = some (96 / 7)
        ∧ (solution.rescaled smallGains).z = some (144 / 7))
      ∧ ∃ solution, (Solver.standard.withTolerance (1 / 100)).solve tiedLimits = .ok solution
        ∧ (Solver.standard.withTolerance (1 / 100)).solve (tiedLimits.rescaled smallAmounts)
          = .ok (solution.rescaled smallAmounts) := by
  have hvalid : tiedLimits.validate = .ok () := by decide +kernel
  have hgains : smallGains.Respects 0 := .inl rfl
  have hamounts : smallAmounts.Respects (1 / 100) := .inr rfl
  have hrun : ((Solver.standard.withTolerance 0).solve tiedLimits).toOption.map (fun solution =>
      (solution.status, solution.iterations, solution.z)) = some (.optimal, 3, some (96 / 7)) := by
    decide +kernel
  obtain ⟨t, records, last, solution, -, -, hsolve, -, -, hsolve'⟩ :=
    change_of_units smallGains Solver.standard hvalid le_rfl hgains
  obtain ⟨t', records', last', coarse, -, -, hcoarse, -, -, hcoarse'⟩ :=
    change_of_units smallAmounts Solver.standard hvalid (by norm_num) hamounts
  rw [hsolve] at hrun
  obtain ⟨hstatus, hrest⟩ := Prod.mk.inj (Option.some.inj hrun)
  obtain ⟨hiterations, hz⟩ := Prod.mk.inj hrest
  refine ⟨hvalid, hgains, hamounts, ⟨solution, hsolve, hsolve', hstatus, hiterations, hz, ?_⟩,
    coarse, hcoarse, hcoarse'⟩
  rw [Solution.rescaled, hz]
  norm_num [smallGains]

end Problem

end SimplexTableau

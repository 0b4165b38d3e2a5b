import SimplexTableau.Proofs.Answers
import SimplexTableau.Proofs.Codecs

namespace SimplexTableau

/-!
# Overflow

Validation admits finite numbers only, but a pivot may leave them: a product beyond all doubles is
an infinity, and the difference of two infinities is no number.  The rules do not ask for finite
cells, so a run goes on with such a tableau and may well come to an optimum.

* `Tableau.Finite` — every cell is a finite number; `Problem.finite_tableau`: so it is before the
  first pivot;
* `Run.Overflows` — a pivot that leads from finite cells to others; `Course.exists_overflows`:
  cells that are not finite come from such a pivot;
* `Solution.Finite` — the optimum has finite numbers; `finite_outcome_iff`: it does so exactly if
  the right-hand sides are finite that it is read from;
* `Solution.WritesNumbers` — the text of the solution has them as numbers, and not as `null`;
* `Solver.finite_optimum_iff` — which solutions of a valid problem have a finite optimum.
-/

/-! ### Finite cells -/

/-- Every cell is a finite number. -/
def Tableau.Finite (t : Tableau Float) : Prop := ∀ row ∈ t.rows, ∀ x ∈ row, x.isFinite = true

namespace Tableau

theorem Finite.entry {t : Tableau Float} (h : t.Finite) {i j : Nat} (hi : i < t.rows.size)
    (hj : j < t.rows[i].size) : (t.entry i j).isFinite = true := by
  rw [t.entry_eq_getElem hi hj]
  exact h _ (Array.getElem_mem hi) _ (Array.getElem_mem hj)

/-- The slack cells are 0 and 1. -/
theorem isFinite_of_mem_slackCells {m i : Nat} {x : Float} (h : x ∈ slackCells m i) :
    x.isFinite = true := by
  obtain ⟨k, -, rfl⟩ := List.mem_map.mp h
  split
  · decide
  · decide

/-- Entries that pass the checks make a tableau with finite cells. -/
theorem finite_unchecked {objective : List Float} {constraints : List (List Float)} {value : Float}
    {bounds : List Float} (h : checkEntries objective constraints value bounds = .ok ()) :
    (unchecked objective constraints value bounds).Finite := by
  have hchecked := checkEntries_eq_ok_iff.mp h
  intro row hrow
  obtain ⟨cells, hcells, rfl⟩ := List.mem_map.mp (List.mem_toArray.mp hrow)
  intro x hx
  have hx : x ∈ cells := List.mem_toArray.mp hx
  rcases List.mem_cons.mp hcells with rfl | hcells
  -- the objective row
  · obtain ⟨hfinite, hvalue, -⟩ :=
      checkRow_eq_ok_iff.mp (hchecked ((objective, value), 0) (by simp))
    simp only [List.mem_append, List.mem_replicate, List.mem_singleton] at hx
    rcases hx with (hx | ⟨-, rfl⟩) | rfl
    · exact hfinite x hx
    · decide
    · exact hvalue
  -- a constraint row, whose checks are one place further down
  · obtain ⟨⟨⟨coefficients, bound⟩, i⟩, hmem, rfl⟩ := List.mem_map.mp hcells
    have hmem' : ((coefficients, bound), i + 1)
        ∈ ((objective :: constraints).zip (value :: bounds)).zipIdx := by
      rw [List.mk_mem_zipIdx_iff_getElem?] at hmem ⊢
      simpa using hmem
    obtain ⟨hfinite, hbound, -⟩ := checkRow_eq_ok_iff.mp (hchecked _ hmem')
    simp only [List.mem_append, List.mem_singleton] at hx
    rcases hx with (hx | hx) | rfl
    · exact hfinite x hx
    · exact isFinite_of_mem_slackCells hx
    · exact hbound

end Tableau

/-- **Before the first pivot** every cell is finite. -/
theorem Problem.finite_tableau {p : Problem Float} {t : Tableau Float} (h : p.tableau = .ok t) :
    t.Finite := by
  cases hvalid : p.validate with
  | error fault =>
    rw [tableau_of_validate_error hvalid] at h
    exact absurd h nofun
  | ok u =>
    rw [tableau, hvalid, ok_bind] at h
    obtain ⟨-, hentries, rfl⟩ := Tableau.initial_eq_ok_iff.mp h
    exact Tableau.finite_unchecked hentries

/-! ### Pivots that overflow -/

namespace Run

/-- A pivot leads from a tableau with finite cells to one that has others. -/
structure Overflows (a b : Run Float) : Prop where
  /-- The pivot that was chosen is made. -/
  pivot : ∃ c i, a.phase = .pivoting c i ∧ b.tableau = a.tableau.pivoted i c
  /-- Before the pivot all cells are finite. -/
  before : a.tableau.Finite
  /-- After the pivot some are not. -/
  after : ¬ b.tableau.Finite

variable {r : Run Float} {runs : List (Run Float)}

/-- Only a pivot makes cells that are not finite. -/
theorem Follows.overflows {next : Run Float} (h : r.Follows next) (hr : r.tableau.Finite)
    (hnext : ¬ next.tableau.Finite) : r.Overflows next := by
  cases h.moves with
  | start _ htableau _ =>
    rw [htableau] at hnext
    exact absurd hr hnext
  | pivot c i hphase htableau _ => exact ⟨⟨c, i, hphase, htableau⟩, hr, hnext⟩

/-- **Cells that are not finite** come from a pivot that overflows. -/
theorem Course.exists_overflows (hcourse : r.Course runs) (hr : r.tableau.Finite) {a : Run Float}
    (ha : a ∈ runs) (hfinite : ¬ a.tableau.Finite) :
    ∃ b ∈ r :: runs, ∃ c ∈ runs, b.Overflows c := by
  -- the induction follows the course to the first tableau whose cells are not finite
  induction runs generalizing r with
  | nil => exact absurd ha List.not_mem_nil
  | cons next rest ih =>
    by_cases hnext : next.tableau.Finite
    · have hrest : a ∈ rest := by
        rcases List.mem_cons.mp ha with rfl | hrest
        · exact absurd hnext hfinite
        · exact hrest
      obtain ⟨b, hb, c, hc, hover⟩ := ih hcourse.tail hnext hrest
      exact ⟨b, List.mem_cons_of_mem r hb, c, List.mem_cons_of_mem next hc, hover⟩
    · exact ⟨r, List.mem_cons_self, next, List.mem_cons_self,
        hcourse.head.overflows hr hnext⟩

end Run

/-! ### Finite optima -/

/-- The optimum, if there is one, has finite numbers. -/
structure Solution.Finite (solution : Solution Float) : Prop where
  /-- The value of the objective is finite. -/
  z : ∀ z, solution.z = some z → z.isFinite = true
  /-- The values of the variables are finite. -/
  values : ∀ values, solution.values = some values → ∀ e ∈ values.entries, e.2.isFinite = true

/-- The text of the solution has a number, and not `null`, as the optimal value and for each
    variable. -/
def Solution.WritesNumbers (layout : Json.Layout) (solution : Solution Float) : Prop :=
  (∃ z, solution.z = some z ∧ Json.Codec.float.encode layout z ≠ "null")
    ∧ ∃ values, solution.values = some values
      ∧ ∀ e ∈ values.entries, Json.Codec.float.encode layout e.2 ≠ "null"

/-- Numbers are written exactly if they are there and finite. -/
theorem Solution.writesNumbers_iff {layout : Json.Layout} {solution : Solution Float} :
    solution.WritesNumbers layout
      ↔ solution.z.isSome = true ∧ solution.values.isSome = true ∧ solution.Finite := by
  have hnumber : ∀ x : Float,
      Json.Codec.float.encode layout x ≠ "null" ↔ x.isFinite = true := by
    intro x
    rw [Ne, Json.Codec.encode_float_eq_null_iff, Bool.not_eq_false]
  constructor
  · rintro ⟨⟨z, hz, hztext⟩, values, hvalues, htexts⟩
    refine ⟨by rw [hz]; rfl, by rw [hvalues]; rfl, fun z' hz' => ?_,
      fun values' hvalues' e he => ?_⟩
    · rw [hz] at hz'
      obtain rfl := Option.some.inj hz'
      exact (hnumber z).mp hztext
    · rw [hvalues] at hvalues'
      obtain rfl := Option.some.inj hvalues'
      exact (hnumber e.2).mp (htexts e he)
  · rintro ⟨hz, hvalues, hfinite⟩
    obtain ⟨z, hz⟩ := Option.isSome_iff_exists.mp hz
    obtain ⟨values, hvalues⟩ := Option.isSome_iff_exists.mp hvalues
    exact ⟨⟨z, hz, (hnumber z).mpr (hfinite.z z hz)⟩, values, hvalues,
      fun e he => (hnumber e.2).mpr (hfinite.values values hvalues e he)⟩

theorem Solution.finite_optimal_iff {z : Float} {values : Assignment Float} {iterations : Nat}
    {trace : List (Record Float)} : (Solution.optimal z values iterations trace).Finite
      ↔ z.isFinite = true ∧ ∀ e ∈ values.entries, e.2.isFinite = true := by
  constructor
  · intro h
    exact ⟨h.z z rfl, h.values values rfl⟩
  · rintro ⟨hz, hvalues⟩
    constructor
    · intro z' hz'
      obtain rfl := Option.some.inj hz'
      exact hz
    · intro values' hvalues'
      obtain rfl := Option.some.inj hvalues'
      exact hvalues

namespace Run

variable {r : Run Float} {n m : Nat}

/-- The right-hand sides that an optimum is read from are finite. -/
structure ReadsFinite (r : Run Float) (n : Nat) : Prop where
  /-- So is that of the objective row. -/
  z : (r.tableau.entry 0 r.tableau.rhsColumn).isFinite = true
  /-- So are those of the rows that host decision variables. -/
  hosted : ∀ j < n, ∀ i, r.tableau.hostAt r.solver.tolerance j = some i →
    (r.tableau.entry i r.tableau.rhsColumn).isFinite = true

/-- A variable has a finite value unless its host has no finite right-hand side. -/
theorem ReadsFinite.valueAt (h : r.ReadsFinite n) {j : Nat} (hj : j < n) :
    (r.tableau.valueAt r.solver.tolerance j).isFinite = true := by
  cases hhost : r.tableau.hostAt r.solver.tolerance j with
  | none =>
    rw [Tableau.valueAt_of_hostAt_none hhost]
    decide
  | some i =>
    rw [Tableau.valueAt_of_hostAt hhost]
    exact h.hosted j hj i hhost

/-- **An optimum is finite** exactly if the right-hand sides it is read from are. -/
theorem finite_outcome_iff (h : r.tableau.Measures n m) (hphase : r.phase = .optimal)
    (trace : List (Record Float)) : (r.outcome trace).Finite ↔ r.ReadsFinite n := by
  have hperm := (Assignment.perm_entries_ofList
    (h.nodup_names_structural r.solver.tolerance)).trans (h.perm_structural r.solver.tolerance)
  rw [outcome_of_optimal hphase, Solution.finite_optimal_iff]
  constructor
  · rintro ⟨hz, hvalues⟩
    refine ⟨hz, fun j hj i hi => ?_⟩
    rw [← Tableau.valueAt_of_hostAt hi]
    have hmem : ((Column.structural (j + 1)).name, r.tableau.valueAt r.solver.tolerance j)
        ∈ listing n (r.tableau.valueAt r.solver.tolerance) :=
      List.mem_map_of_mem (List.mem_range.mpr hj)
    have hfinite := hvalues _ (hperm.mem_iff.mpr hmem)
    exact hfinite
  · intro hreads
    refine ⟨hreads.z, fun e he => ?_⟩
    obtain ⟨j, hj, rfl⟩ := List.mem_map.mp (hperm.mem_iff.mp he)
    exact hreads.valueAt (List.mem_range.mp hj)

/-- An optimum is there exactly under the status of one. -/
theorem isSome_outcome_iff (r : Run Float) (trace : List (Record Float)) :
    ((r.outcome trace).z.isSome = true ↔ (r.outcome trace).status = .optimal)
      ∧ ((r.outcome trace).values.isSome = true ↔ (r.outcome trace).status = .optimal) := by
  cases hphase : r.phase <;>
    simp [outcome, hphase, Solution.optimal, Solution.unbounded, Solution.iterationLimit]

/-- Finite cells make a finite optimum. -/
theorem ReadsFinite.of_finite (h : r.tableau.Finite) (hr : r.tableau.WellShaped) (n : Nat) :
    r.ReadsFinite n := by
  have hrhs : ∀ i < r.tableau.numRows,
      (r.tableau.entry i r.tableau.rhsColumn).isFinite = true := by
    intro i hi
    refine h.entry hi ?_
    rw [hr.size_getElem hi]
    exact r.tableau.rhsColumn_lt_numColumns
  refine ⟨hrhs 0 hr.numRows_pos, fun j _ i hhost => ?_⟩
  obtain ⟨-, hunit, -, -⟩ := Tableau.hostAt_eq_some_iff.mp hhost
  obtain ⟨hi, -, -⟩ := Tableau.unitRowAt_eq_some_iff.mp hunit
  exact hrhs i hi

/-- A tableau with finite cells gives no solution with other numbers. -/
theorem finite_outcome (h : r.tableau.Measures n m) (hcells : r.tableau.Finite)
    (trace : List (Record Float)) : (r.outcome trace).Finite := by
  by_cases hphase : r.phase = .optimal
  · exact (finite_outcome_iff h hphase trace).mpr (.of_finite hcells h.wellShaped n)
  -- without an optimum there are no numbers
  · have hz : (r.outcome trace).z = none := by
      cases h : r.phase <;> simp_all [outcome, Solution.unbounded, Solution.iterationLimit]
    have hvalues : (r.outcome trace).values = none := by
      cases h : r.phase <;> simp_all [outcome, Solution.unbounded, Solution.iterationLimit]
    constructor
    · intro z h
      rw [hz] at h
      exact absurd h (Option.some_ne_none z).symm
    · intro values h
      rw [hvalues] at h
      exact absurd h (Option.some_ne_none values).symm

end Run

/-- **Which optima are finite.** A valid problem is solved, and its solution has numbers exactly if
    it is optimal.  They are finite exactly if the right-hand sides are that they are read from in
    the last tableau, and only then does its text show them; if they are not finite, a pivot of the
    run has led from finite cells to others. -/
theorem Solver.finite_optimum_iff (s : Solver Float) {p : Problem Float}
    (hp : p.validate = .ok ()) :
    ∃ t runs last solution, p.tableau = .ok t ∧ (s.start t).future = .ok runs
      ∧ runs.getLast? = some last ∧ s.solve p = .ok solution
      ∧ (solution.z.isSome = true ↔ solution.status = .optimal)
      ∧ (solution.values.isSome = true ↔ solution.status = .optimal)
      ∧ (solution.status = .optimal → (solution.Finite ↔ last.ReadsFinite p.numVariables))
      ∧ (∀ layout, solution.WritesNumbers layout ↔ solution.status = .optimal ∧ solution.Finite)
      ∧ (¬ solution.Finite → ∃ a ∈ runs, ∃ b ∈ runs, a.Overflows b) := by
  have htableau := Problem.tableau_eq_unchecked (fun x => isFinite_neg x) hp
  set t := Tableau.unchecked (p.objective.map (-·)) p.constraints 0 p.rhs
  have hbuilt : t.BuiltFor p.numVariables p.numConstraints := .inr ⟨p, htableau, rfl, rfl⟩
  have hmeasures := hbuilt.measures
  have hstart := Run.coherent_start s hmeasures.wellShaped
  obtain ⟨runs, hcourse, -, hfinish⟩ := hstart.exists_course
  set last := runs.getLastD (s.start t)
  have hmem : last ∈ runs := hcourse.last_mem
  have hlast : runs.getLast? = some last := by
    rw [List.getLast?_eq_getElem?]
    exact hcourse.getElem?_last
  have hinside := hcourse.inRange hstart hmeasures last hmem
  have hsolve : s.solve p = .ok (last.outcome ((s.start t).keeps runs)) := by
    rw [s.solve_of_tableau htableau, Solver.solveTableau, hfinish]
    rfl
  obtain ⟨hz, hvalues⟩ := Run.isSome_outcome_iff last ((s.start t).keeps runs)
  refine ⟨t, runs, last, _, htableau, hcourse.future_eq hstart, hlast, hsolve, hz, hvalues,
    ?_, fun layout => ?_, ?_⟩
  · intro hstatus
    have hphase := Run.status_outcome_eq_optimal_iff.mp hstatus
    exact Run.finite_outcome_iff hinside.tableau hphase _
  · rw [Solution.writesNumbers_iff, hz, hvalues, ← and_assoc, and_self]
  · intro hfinite
    have hcells : ¬ last.tableau.Finite :=
      fun hcells => hfinite (Run.finite_outcome hinside.tableau hcells _)
    obtain ⟨a, ha, b, hb, hover⟩ :=
      hcourse.exists_overflows (Problem.finite_tableau htableau) hmem hcells
    rcases List.mem_cons.mp ha with rfl | ha
    · -- the first examination makes no pivot
      obtain ⟨c, i, hphase, -⟩ := hover.pivot
      exact Phase.noConfusion hphase
    · exact ⟨a, ha, b, hb, hover⟩

/-- The solution of `overflowingPivot` is an optimum, but its value is no number. -/
theorem exists_solution_overflowingPivot : overflowingPivot.validate = .ok ()
    ∧ ∃ solution z, Solver.standard.solve overflowingPivot = .ok solution
      ∧ solution.status = .optimal ∧ solution.z = some z ∧ z.isFinite = false := by
  have hrun : (Solver.standard.solve overflowingPivot).toOption.map
      (fun solution => (solution.status, solution.z.map Float.isFinite))
      = some (.optimal, some false) := by decide +kernel
  cases hsolve : Solver.standard.solve overflowingPivot with
  | error failure =>
    rw [hsolve] at hrun
    exact absurd hrun nofun
  | ok solution =>
    rw [hsolve] at hrun
    obtain ⟨hstatus, hz⟩ := Prod.mk.inj (Option.some.inj hrun)
    obtain ⟨z, hz, hfinite⟩ := Option.map_eq_some_iff.mp hz
    exact ⟨by decide +kernel, solution, z, rfl, hstatus, hz, hfinite⟩

theorem finite_optimum_iff_overflowingPivot :
    overflowingPivot.validate = .ok ()
      ∧ ∃ t runs last solution, overflowingPivot.tableau = .ok t
        ∧ (Solver.standard.start t).future = .ok runs ∧ runs.getLast? = some last
        ∧ Solver.standard.solve overflowingPivot = .ok solution
        ∧ solution.status = .optimal ∧ ¬ last.ReadsFinite 2
        ∧ (∀ layout, ¬ solution.WritesNumbers layout)
        ∧ ∃ a ∈ runs, ∃ b ∈ runs, a.Overflows b := by
  obtain ⟨hvalid, found, z, hfound, hstatus, hz, hnumber⟩ := exists_solution_overflowingPivot
  obtain ⟨t, runs, last, solution, htableau, hfuture, hlast, hsolve, -, -, hfinite, hwrites,
    hover⟩ := Solver.finite_optimum_iff Solver.standard hvalid
  rw [hsolve] at hfound
  obtain rfl := Except.ok.inj hfound
  have hvariables : overflowingPivot.numVariables = 2 := rfl
  rw [hvariables] at hfinite
  have hnot : ¬ solution.Finite := by
    intro hfinite
    rw [hfinite.z z hz] at hnumber
    exact Bool.false_ne_true hnumber.symm
  have hreads : ¬ last.ReadsFinite 2 := fun hreads => hnot ((hfinite hstatus).mpr hreads)
  have htext : ∀ layout, ¬ solution.WritesNumbers layout :=
    fun layout hnumbers => hnot ((hwrites layout).mp hnumbers).2
  exact ⟨hvalid, t, runs, last, solution, htableau, hfuture, hlast, hsolve, hstatus, hreads, htext,
    hover hnot⟩

/-- **An optimum that is no number.** The problem is valid and has the maximum 1e200, but the
    optimum that is found has no number for it, and its text has `null`. -/
theorem overflowingPivot_optimum_not_finite :
    overflowingPivot.validate = .ok ()
      ∧ ∃ solution z, Solver.standard.solve overflowingPivot = .ok solution
        ∧ solution.status = .optimal ∧ solution.z = some z ∧ z.isFinite = false
        ∧ Json.Codec.float.encode Json.compact z = "null" := by
  obtain ⟨hvalid, solution, z, hsolve, hstatus, hz, hnumber⟩ := exists_solution_overflowingPivot
  exact ⟨hvalid, solution, z, hsolve, hstatus, hz, hnumber,
    Json.Codec.encode_float_eq_null_iff.mpr hnumber⟩

end SimplexTableau

import SimplexTableau.Proofs.Execution
import Mathlib.Algebra.Order.Field.Basic

namespace SimplexTableau

/-!
# What the ratio test guarantees

The ratio test keeps the right-hand sides of the constraint rows from becoming negative, but it
looks only at entries above the tolerance, while a pivot changes every row with a nonzero entry:

* `Tableau.RhsNonneg` — no constraint row has a negative right-hand side;
* `Tableau.PassedOver` — a row that the ratio test leaves out although its ratio is smaller;
* `rhs_pivoted_neg_iff` — the rows that a pivot makes negative are those that are passed over;
* `rhsNonneg_take_iff` — along a run, the right-hand sides stay as they should exactly until a
  row is passed over;
* `rhsNonneg_of_tolerance_zero` — at tolerance 0 no row is ever passed over.

The last section says both of the records of an accepted problem.
-/

namespace Tableau

variable {t : Tableau Rat} {tolerance : Rat} {c r i : Nat}

/-- No constraint row has a negative right-hand side. -/
def RhsNonneg (t : Tableau Rat) : Prop :=
  ∀ i, 0 < i → i < t.numRows → 0 ≤ t.entry i t.rhsColumn

/-- The ratio test for column `c` has chosen row `r`, and row `i` has a smaller ratio that did not
    take part: its entry is positive, but not above the tolerance. -/
structure PassedOver (t : Tableau Rat) (tolerance : Rat) (c r i : Nat) : Prop where
  /-- It is not the objective row. -/
  row_pos : 0 < i
  /-- It is a row of the table. -/
  row_lt : i < t.numRows
  /-- Its entry is positive. -/
  entry_pos : 0 < t.entry i c
  /-- Its entry is not above the tolerance. -/
  entry_le : t.entry i c ≤ tolerance
  /-- Its ratio is smaller. -/
  ratio_lt : t.ratio c i < t.ratio c r

/-! ### The effect of one pivot -/

/-- The right-hand side of the pivot row becomes its ratio. -/
theorem rhs_pivoted_self (ht : t.WellShaped) (hr : r < t.numRows) (hc : c < t.rhsColumn) :
    (t.pivoted r c).entry r t.rhsColumn = t.ratio c r := by
  rw [entry_pivoted_self ht hr (lt_numColumns hc) t.rhsColumn_lt_numColumns, ratio]

/-- The right-hand sides of the other rows lose their entry's multiple of the ratio. -/
theorem rhs_pivoted_of_ne (ht : t.WellShaped) (hr : r < t.numRows) (hc : c < t.rhsColumn)
    (hi : i < t.numRows) (hir : i ≠ r) :
    (t.pivoted r c).entry i t.rhsColumn
      = t.entry i t.rhsColumn - t.entry i c * t.ratio c r := by
  rw [entry_pivoted_of_ne ht hr (lt_numColumns hc) hi t.rhsColumn_lt_numColumns hir, ratio]

/-- The ratio of the chosen row is not negative. -/
theorem Leaves.ratio_nonneg (h : t.Leaves tolerance c r) (htol : 0 ≤ tolerance)
    (hrhs : t.RhsNonneg) : 0 ≤ t.ratio c r :=
  div_nonneg (hrhs r h.row_pos h.row_lt) (h.entry_pos htol).le

/-- **The rows that a pivot makes negative** are exactly those that the ratio test passes
    over. -/
theorem rhs_pivoted_neg_iff (ht : t.WellShaped) (htol : 0 ≤ tolerance) (hc : c < t.rhsColumn)
    (hleaves : t.Leaves tolerance c r) (hrhs : t.RhsNonneg) (hi0 : 0 < i) (hi : i < t.numRows) :
    (t.pivoted r c).entry i t.rhsColumn < 0 ↔ t.PassedOver tolerance c r i := by
  have hratio : 0 ≤ t.ratio c r := hleaves.ratio_nonneg htol hrhs
  by_cases hir : i = r
  · -- the pivot row keeps its sign and is not passed over
    subst hir
    rw [rhs_pivoted_self ht hi hc]
    constructor
    · intro hneg
      exact absurd hneg (not_lt.mpr hratio)
    · intro hpassed
      exact absurd hpassed.ratio_lt (lt_irrefl _)
  rw [rhs_pivoted_of_ne ht hleaves.row_lt hc hi hir]
  rcases le_or_gt (t.entry i c) 0 with hentry | hentry
  · -- an entry that is not positive lets the right-hand side grow
    have hnonneg : 0 ≤ t.entry i t.rhsColumn := hrhs i hi0 hi
    have hproduct : t.entry i c * t.ratio c r ≤ 0 := mul_nonpos_of_nonpos_of_nonneg hentry hratio
    constructor
    · intro hneg
      linarith
    · intro hpassed
      exact absurd hpassed.entry_pos (not_lt.mpr hentry)
  · -- a positive entry: the sign is that of the difference of the two ratios
    have hratio_i : t.ratio c i = t.entry i t.rhsColumn / t.entry i c := rfl
    have hsign : t.entry i t.rhsColumn - t.entry i c * t.ratio c r < 0
        ↔ t.ratio c i < t.ratio c r := by
      rw [sub_neg, hratio_i, div_lt_iff₀ hentry, mul_comm]
    rw [hsign]
    constructor
    · intro hlt
      -- a row that takes part has no smaller ratio than the chosen one
      have hsmall : t.entry i c ≤ tolerance := not_lt.mp fun hbig =>
        absurd hlt (not_lt.mpr (hleaves.ratio_le i hi0 hi hbig))
      exact ⟨hi0, hi, hentry, hsmall, hlt⟩
    · intro hpassed
      exact hpassed.ratio_lt

/-- A pivot keeps the right-hand sides from becoming negative if no row is passed over, and only
    then. -/
theorem rhsNonneg_pivoted_iff (ht : t.WellShaped) (htol : 0 ≤ tolerance) (hc : c < t.rhsColumn)
    (hleaves : t.Leaves tolerance c r) (hrhs : t.RhsNonneg) :
    (t.pivoted r c).RhsNonneg ↔ ∀ i, ¬ t.PassedOver tolerance c r i := by
  constructor
  · intro h i hpassed
    have hneg := (rhs_pivoted_neg_iff ht htol hc hleaves hrhs hpassed.row_pos
      hpassed.row_lt).mpr hpassed
    have hrow : i < (t.pivoted r c).numRows := by
      rw [numRows_pivoted]
      exact hpassed.row_lt
    exact absurd hneg (not_lt.mpr (h i hpassed.row_pos hrow))
  · intro h i hi0 hi
    rw [numRows_pivoted] at hi
    rw [rhsColumn_pivoted]
    exact not_lt.mp fun hneg =>
      h i ((rhs_pivoted_neg_iff ht htol hc hleaves hrhs hi0 hi).mp hneg)

/-- At tolerance 0 no row is passed over. -/
theorem not_passedOver_zero : ¬ t.PassedOver 0 c r i := by
  intro h
  exact absurd h.entry_pos (not_lt.mpr h.entry_le)

end Tableau

/-! ### Runs -/

/-- The pivot of the record passes over a row. -/
def Record.PassesOver (record : Record Rat) (tolerance : Rat) : Prop :=
  ∃ column row i, record.enteringColumn = some column ∧ record.leavingRow = some row
    ∧ record.tableau.PassedOver tolerance column row i

namespace Run

variable {r next : Run Rat}

theorem passesOver_report_iff {c i : Nat} {tolerance : Rat} (hphase : r.phase = .pivoting c i) :
    r.report.PassesOver tolerance ↔ ∃ k, r.tableau.PassedOver tolerance c i k := by
  have hcolumn : r.report.enteringColumn = some c := namedColumn_of_pivoting hphase
  have hrow : r.report.leavingRow = some i := by rw [report, hphase]; rfl
  constructor
  · rintro ⟨c', i', k, hc', hi', hpassed⟩
    rw [hcolumn] at hc'
    rw [hrow] at hi'
    obtain rfl := Option.some.inj hc'
    obtain rfl := Option.some.inj hi'
    exact ⟨k, hpassed⟩
  · rintro ⟨k, hpassed⟩
    exact ⟨c, i, k, hcolumn, hrow, hpassed⟩

/-- From one examination to the next, the right-hand sides stay as they should if and only if no
    row is passed over. -/
theorem Follows.rhsNonneg_iff (h : r.Follows next) (hr : r.Coherent) (hphase : r.phase ≠ .fresh)
    (htol : 0 ≤ r.solver.tolerance) (hrhs : r.tableau.RhsNonneg) :
    next.tableau.RhsNonneg ↔ ¬ r.report.PassesOver r.solver.tolerance := by
  cases h.moves with
  | start hfresh _ _ => exact absurd hfresh hphase
  | pivot c i hpivot htableau _ =>
    obtain ⟨-, hleaves⟩ := hr.wellShaped.select_justified (hr.select_of_pivoting hpivot).1
    rw [htableau, passesOver_report_iff hpivot, not_exists]
    exact Tableau.rhsNonneg_pivoted_iff hr.wellShaped htol (hr.pivot_inside hpivot).1 hleaves hrhs

/-- **Right-hand sides along a run.** Up to any examination they are not negative if and only if
    no pivot before it passes over a row. -/
theorem Follows.rhsNonneg_take_iff {runs : List (Run Rat)} (hchain : (r :: runs).IsChain Follows)
    (hr : r.Coherent) (hphase : r.phase ≠ .fresh) (htol : 0 ≤ r.solver.tolerance)
    (hrhs : r.tableau.RhsNonneg) (n : Nat) (hn : n ≤ runs.length) :
    (∀ a ∈ (r :: runs).take (n + 1), a.tableau.RhsNonneg)
      ↔ ∀ a ∈ (r :: runs).take n, ¬ a.report.PassesOver r.solver.tolerance := by
  induction runs generalizing r n with
  | nil =>
    obtain rfl : n = 0 := Nat.le_zero.mp hn
    simpa using hrhs
  | cons next rest ih =>
    cases n with
    | zero => simpa using hrhs
    | succ n =>
      obtain ⟨hfollows, hrest⟩ := List.isChain_cons_cons.mp hchain
      have hstep := hfollows.rhsNonneg_iff hr hphase htol hrhs
      have hfirst : ∀ n, (r :: next :: rest).take (n + 1) = r :: (next :: rest).take n :=
        fun _ => rfl
      rw [hfirst, hfirst, List.forall_mem_cons, List.forall_mem_cons]
      by_cases hpassed : r.report.PassesOver r.solver.tolerance
      · -- the next right-hand sides are already wrong
        constructor
        · intro h
          exact absurd hpassed (hstep.mp (h.2 next List.mem_cons_self))
        · intro h
          exact absurd hpassed h.1
      · have hsolver := hfollows.solver_eq
        have hlater := ih hrest hfollows.coherent hfollows.examined (by rw [hsolver]; exact htol)
          (hstep.mpr hpassed) n (Nat.le_of_succ_le_succ hn)
        rw [hsolver] at hlater
        rw [hlater]
        constructor
        · intro h
          exact ⟨hpassed, h.2⟩
        · intro h
          exact ⟨hrhs, h.2⟩

end Run

namespace Problem

variable {p : Problem Rat} {s : Solver Rat} {tolerance : Rat}

/-- The bounds of an accepted problem are not negative. -/
theorem firstTableau_rhsNonneg (hp : p.validate = .ok ()) : p.firstTableau.RhsNonneg := by
  obtain ⟨hshape, hbounds⟩ := validate_rat_iff.mp hp
  intro i hi0 hi
  obtain ⟨k, rfl⟩ := Nat.exists_eq_succ_of_ne_zero (Nat.pos_iff_ne_zero.mp hi0)
  rw [numRows_firstTableau hshape] at hi
  have hk : k < p.numConstraints := by omega
  rw [rhsColumn_firstTableau, entry_firstTableau_rhs hshape hk]
  exact hbounds k hk

/-- The right-hand sides of the examinations of an accepted problem. -/
theorem rhsNonneg_take_iff (hp : p.validate = .ok ()) (hs : s.tolerance = tolerance)
    (htol : 0 ≤ tolerance) {runs : List (Run Rat)}
    (hchain : (p.firstRun s :: runs).IsChain Run.Follows) {n : Nat} (hn : n < runs.length) :
    (∀ a ∈ runs.take (n + 1), a.tableau.RhsNonneg)
      ↔ ∀ a ∈ runs.take n, ¬ a.report.PassesOver tolerance := by
  cases runs with
  | nil => simp at hn
  | cons first rest =>
    obtain ⟨hfollows, hrest⟩ := List.isChain_cons_cons.mp hchain
    have hfirst : first.solver.tolerance = tolerance := by
      rw [hfollows.solver_eq]
      exact hs
    have hrhs : first.tableau.RhsNonneg := by
      rw [hfollows.tableau_of_start]
      exact firstTableau_rhsNonneg hp
    have hiff := Run.Follows.rhsNonneg_take_iff hrest hfollows.coherent hfollows.examined
      (by rw [hfirst]; exact htol) hrhs n (Nat.le_of_lt_succ hn)
    rwa [hfirst] at hiff

/-- At tolerance 0 the right-hand sides of all examinations are not negative. -/
theorem rhsNonneg_of_tolerance_zero (hp : p.validate = .ok ()) (hs : s.tolerance = 0)
    {runs : List (Run Rat)} (hchain : (p.firstRun s :: runs).IsChain Run.Follows) :
    ∀ a ∈ runs, a.tableau.RhsNonneg := by
  intro a ha
  obtain ⟨n, hn, rfl⟩ := List.getElem_of_mem ha
  refine (rhsNonneg_take_iff hp hs le_rfl hchain hn).mpr ?_ _
    (List.mem_take_iff_getElem.mpr ⟨n, by omega, rfl⟩)
  rintro b - ⟨c, i, k, -, -, hpassed⟩
  exact Tableau.not_passedOver_zero hpassed

/-! ### The records of an accepted problem -/

/-- **Feasibility of the examined tableaus.** At every accepted tolerance, the records begin with
    the first tableau, and the right-hand sides up to any record are not negative if and only if
    no pivot before it passes over a row; at tolerance 0 they never are. -/
theorem rhsNonneg_until_passed_over (s : Solver Rat) {tolerance : Rat} (htol : 0 ≤ tolerance)
    (hp : p.validate = .ok ()) :
    ∃ t records last, p.tableau = .ok t
      ∧ ((s.withTolerance tolerance).start t).collect = .ok (records, last)
      ∧ records.head?.map (·.tableau) = some t
      ∧ (∀ n < records.length, (∀ record ∈ records.take (n + 1), record.tableau.RhsNonneg)
        ↔ ∀ record ∈ records.take n, ¬ record.PassesOver tolerance)
      ∧ (tolerance = 0 → ∀ record ∈ records, record.tableau.RhsNonneg) := by
  have hs := s.tolerance_withTolerance htol
  obtain ⟨runs, last, trace, hcollect, hchain, -, hlast, -⟩ := solve_ok s hp htol
  refine ⟨p.firstTableau, runs.map Run.report, last, tableau_eq hp, hcollect,
    head?_tableau_records hlast hchain, ?_, ?_⟩
  · intro n hn
    rw [List.length_map] at hn
    rw [← List.map_take, ← List.map_take, List.forall_mem_map, List.forall_mem_map]
    exact rhsNonneg_take_iff hp hs htol hchain hn
  · intro hzero
    rw [List.forall_mem_map]
    exact rhsNonneg_of_tolerance_zero hp (hs.trans hzero) hchain

/-- A constraint `2⁻³¹ x1 ≤ 0` next to `x1 ≤ 2³¹`: its coefficient is below the usual
    tolerance. -/
def tinyCoefficient : Problem Rat :=
  ⟨[1], [[1 / 2147483648], [1]], [0, 2147483648]⟩

theorem rhsNonneg_until_passed_over_tinyCoefficient :
    (0 : Rat) ≤ 1 / 1000000000 ∧ tinyCoefficient.validate = .ok ()
      ∧ ∃ t records last, tinyCoefficient.tableau = .ok t
        ∧ ((Solver.standard.withTolerance (1 / 1000000000)).start t).collect
          = .ok (records, last)
        ∧ records.head?.map (·.tableau) = some t
        ∧ (∀ n < records.length, (∀ record ∈ records.take (n + 1), record.tableau.RhsNonneg)
          ↔ ∀ record ∈ records.take n, ¬ record.PassesOver (1 / 1000000000))
        ∧ ((1 / 1000000000 : Rat) = 0 → ∀ record ∈ records, record.tableau.RhsNonneg) :=
  ⟨by decide +kernel, by decide +kernel,
    rhsNonneg_until_passed_over Solver.standard (by decide +kernel) (by decide +kernel)⟩

/-- At the usual tolerance, the first pivot passes over the row with the tiny coefficient, and its
    right-hand side becomes negative. -/
theorem tinyCoefficient_rhs_negative :
    tinyCoefficient.validate = .ok ()
      ∧ ∃ t records last, tinyCoefficient.tableau = .ok t
        ∧ (Solver.standard.start t).collect = .ok (records, last)
        ∧ ∃ record ∈ records, ¬ record.tableau.RhsNonneg := by
  have hp : tinyCoefficient.validate = .ok () := by decide +kernel
  have hnegative : ((tinyCoefficient.firstRun Solver.standard).collect.toOption.map fun result =>
      result.1.any fun record => 1 < record.tableau.numRows
        ∧ record.tableau.entry 1 record.tableau.rhsColumn < 0) = some true := by
    decide +kernel
  cases hcollect : (tinyCoefficient.firstRun Solver.standard).collect with
  | error e =>
    rw [hcollect] at hnegative
    exact absurd hnegative nofun
  | ok result =>
    rw [hcollect] at hnegative
    obtain ⟨record, hrecord, hrow⟩ := List.any_eq_true.mp (Option.some.inj hnegative)
    obtain ⟨hlt, hneg⟩ := of_decide_eq_true hrow
    exact ⟨hp, _, _, _, tableau_eq hp, hcollect, record, hrecord,
      fun h => absurd hneg (not_lt.mpr (h 1 one_pos hlt))⟩

end Problem

end SimplexTableau

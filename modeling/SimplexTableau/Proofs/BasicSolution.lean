import SimplexTableau.Proofs.Equations
import SimplexTableau.Proofs.Reading
import Mathlib.Algebra.Order.BigOperators.Group.Finset
import Mathlib.Algebra.Order.Ring.Abs

namespace SimplexTableau

open scoped BigOperators

/-!
# The basic solution and the equations

The classification takes columns for unit columns that are so within the tolerance only.  This
file compares the values it reads off with the equations of the tableau, over fractions:

* `Tableau.spread` — values that give each basic variable a number of its host;
  `rowSum_spread_of_host`: their row sum is that number, up to the deviations of the basic
  columns from unit columns;
* `Tableau.exists_hostAt` — below a tolerance of 1 every constraint row of a tableau with a basis
  has a host;
* `abs_residual_valueAt_le` — the basic solution then misses each equation by no more than the
  tolerance times the sum of its values;
* `Tableau.ExactBasis`, `solves_valueAt` — it solves the tableau if the basic columns are unit
  columns, which at tolerance 0 they always are.
-/

/-! ### The tests of a cell over fractions -/

theorem Cell.abs_eq_abs (x : Rat) : Cell.abs x = |x| := by
  rw [Cell.abs_rat]
  by_cases hx : 0 ≤ x
  · rw [if_pos hx, abs_of_nonneg hx]
  · rw [if_neg hx, abs_of_neg (not_le.mp hx)]

theorem isOne_iff {tolerance v : Rat} : isOne tolerance v = true ↔ |v - 1| ≤ tolerance := by
  rw [isOne, decide_eq_true_iff, Cell.abs_eq_abs]

theorem isBlank_iff {tolerance v : Rat} :
    IsBlank tolerance v ↔ tolerance < |v - 1| ∧ |v| ≤ tolerance := by
  rw [IsBlank, isOne, isNonzero, decide_eq_false_iff_not, decide_eq_false_iff_not,
    Cell.abs_eq_abs, Cell.abs_eq_abs, not_le, not_lt]

namespace Tableau

variable {t : Tableau Rat} {tolerance : Rat} {i k r : Nat} {u : Nat → Rat}

/-! ### Hosts within a tolerance -/

/-- A unit column is taken for one at every tolerance below 1. -/
theorem IsUnitColumn.unitRowAt_eq (h : t.IsUnitColumn r k) (hr : r < t.numRows)
    (h0 : 0 ≤ tolerance) (h1 : tolerance < 1) : t.unitRowAt tolerance k = some r := by
  refine unitRowAt_eq_some_iff.mpr ⟨hr, isOne_iff.mpr ?_, fun i hi hir => isBlank_iff.mpr ?_⟩
  · rw [h.entry_self hr]
    simpa using h0
  · rw [h.entry_of_ne hi hir]
    simpa using ⟨h1, h0⟩

/-- The first of the columns that look like unit columns of a row is hosted by it. -/
theorem exists_hostAt_of_unitRowAt (hk : k < t.rhsColumn) (hr : 0 < r)
    (h : t.unitRowAt tolerance k = some r) : ∃ k', t.hostAt tolerance k' = some r := by
  classical
  have hex : ∃ k, t.unitRowAt tolerance k = some r := ⟨k, h⟩
  have hle : Nat.find hex ≤ k := Nat.find_min' hex h
  exact ⟨Nat.find hex, hostAt_eq_some_iff.mpr
    ⟨by omega, Nat.find_spec hex, hr, fun k' hk' => Nat.find_min hex hk'⟩⟩

/-- **Every constraint row has a host** below a tolerance of 1. -/
theorem exists_hostAt (hb : t.HasBasis) (h0 : 0 ≤ tolerance) (h1 : tolerance < 1) (hr : 0 < r)
    (hrn : r < t.numRows) : ∃ k, t.hostAt tolerance k = some r := by
  obtain ⟨k, hk, hunit⟩ := hb r hr hrn
  exact exists_hostAt_of_unitRowAt hk hr (hunit.unitRowAt_eq hrn h0 h1)

theorem hostAt_pos (h : t.hostAt tolerance k = some r) : 0 < r :=
  (hostAt_eq_some_iff.mp h).2.2.1

theorem hostAt_lt_numRows (h : t.hostAt tolerance k = some r) : r < t.numRows :=
  (unitRowAt_eq_some_iff.mp (hostAt_eq_some_iff.mp h).2.1).1

/-! ### Deviations -/

/-- What separates the cell of row `i` in column `k` from that of a unit column of its host. -/
def deviation (t : Tableau Rat) (tolerance : Rat) (i k : Nat) : Rat :=
  t.entry i k - if t.hostAt tolerance k = some i then 1 else 0

/-- The cells of a basic column deviate by no more than the tolerance. -/
theorem abs_deviation_le (h : t.hostAt tolerance k = some r) (hi : i < t.numRows) :
    |t.deviation tolerance i k| ≤ tolerance := by
  obtain ⟨-, hone, hblank⟩ := unitRowAt_eq_some_iff.mp (hostAt_eq_some_iff.mp h).2.1
  rw [deviation, h]
  by_cases hri : r = i
  · rw [if_pos (congrArg some hri), ← hri]
    exact isOne_iff.mp hone
  · rw [if_neg fun hr => hri (Option.some.inj hr), sub_zero]
    exact (isBlank_iff.mp (hblank i hi (Ne.symm hri))).2

/-- Every basic column is a unit column of its host, not only within the tolerance. -/
def ExactBasis (t : Tableau Rat) (tolerance : Rat) : Prop :=
  ∀ k r, t.hostAt tolerance k = some r → t.IsUnitColumn r k

/-- At tolerance 0 the basic columns are unit columns. -/
theorem exactBasis_zero (t : Tableau Rat) : t.ExactBasis 0 := by
  intro k r h i hi
  -- what does not exceed 0 in magnitude is 0
  have hdeviation : t.deviation 0 i k = 0 :=
    abs_eq_zero.mp (le_antisymm (abs_deviation_le h hi) (abs_nonneg _))
  rw [deviation, h, sub_eq_zero] at hdeviation
  rw [hdeviation]
  exact if_congr (by rw [Option.some.injEq, eq_comm]) rfl rfl

theorem ExactBasis.deviation_eq_zero (hexact : t.ExactBasis tolerance)
    (h : t.hostAt tolerance k = some r) (hi : i < t.numRows) : t.deviation tolerance i k = 0 := by
  rw [deviation, h, hexact k r h i hi, sub_eq_zero]
  exact if_congr (by rw [Option.some.injEq, eq_comm]) rfl rfl

/-! ### Row sums of basic solutions -/

/-- The values that give each basic variable the number of its host, and 0 to all others. -/
def spread (t : Tableau Rat) (tolerance : Rat) (u : Nat → Rat) (k : Nat) : Rat :=
  match t.hostAt tolerance k with
  | some r => u r
  | none => 0

/-- The basic solution gives each basic variable the right-hand side of its host. -/
theorem valueAt_eq_spread (t : Tableau Rat) (tolerance : Rat) :
    t.valueAt tolerance = t.spread tolerance fun r => t.entry r t.rhsColumn := rfl

theorem spread_of_hostAt (h : t.hostAt tolerance k = some r) :
    t.spread tolerance u k = u r := by
  rw [spread, h]

theorem spread_of_hostAt_none (h : t.hostAt tolerance k = none) :
    t.spread tolerance u k = 0 := by
  rw [spread, h]

/-- Numbers that are not negative are spread to values that are not negative. -/
theorem spread_nonneg (hu : ∀ r, 0 < r → r < t.numRows → 0 ≤ u r) (k : Nat) :
    0 ≤ t.spread tolerance u k := by
  cases h : t.hostAt tolerance k with
  | none => rw [spread_of_hostAt_none h]
  | some r =>
    rw [spread_of_hostAt h]
    exact hu r (hostAt_pos h) (hostAt_lt_numRows h)

/-- Splits the row sum into the values of the row's own variables and the deviations. -/
theorem rowSum_spread (t : Tableau Rat) (tolerance : Rat) (u : Nat → Rat) (i : Nat) :
    t.rowSum (t.spread tolerance u) i
      = (∑ k ∈ Finset.range t.rhsColumn,
          (if t.hostAt tolerance k = some i then t.spread tolerance u k else 0))
        + ∑ k ∈ Finset.range t.rhsColumn,
          t.deviation tolerance i k * t.spread tolerance u k := by
  rw [rowSum, ← Finset.sum_add_distrib]
  refine Finset.sum_congr rfl fun k _ => ?_
  rw [deviation]
  by_cases h : t.hostAt tolerance k = some i
  · rw [if_pos h, if_pos h]
    ring
  · rw [if_neg h, if_neg h]
    ring

/-- **The row sum of a hosted row** is its number, up to the deviations. -/
theorem rowSum_spread_of_host (h : ∃ k, t.hostAt tolerance k = some i) :
    t.rowSum (t.spread tolerance u) i
      = u i + ∑ k ∈ Finset.range t.rhsColumn,
          t.deviation tolerance i k * t.spread tolerance u k := by
  obtain ⟨k, hk⟩ := h
  have hmem : k ∈ Finset.range t.rhsColumn :=
    Finset.mem_range.mpr (hostAt_eq_some_iff.mp hk).1
  -- the row hosts no other variable
  have hother : ∀ k' ∈ Finset.range t.rhsColumn, k' ≠ k →
      (if t.hostAt tolerance k' = some i then t.spread tolerance u k' else 0) = 0 :=
    fun k' _ hne => if_neg fun hk' => hne (eq_of_hostAt_eq hk' hk)
  rw [rowSum_spread, Finset.sum_eq_single_of_mem k hmem hother, if_pos hk, spread_of_hostAt hk]

/-- **The row sum of the objective row**, which hosts no variable, is left to the deviations. -/
theorem rowSum_spread_zero (t : Tableau Rat) (tolerance : Rat) (u : Nat → Rat) :
    t.rowSum (t.spread tolerance u) 0
      = ∑ k ∈ Finset.range t.rhsColumn,
          t.deviation tolerance 0 k * t.spread tolerance u k := by
  have hnone : ∀ k ∈ Finset.range t.rhsColumn,
      (if t.hostAt tolerance k = some 0 then t.spread tolerance u k else 0) = 0 :=
    fun k _ => if_neg fun hk => absurd (hostAt_pos hk) (lt_irrefl 0)
  rw [rowSum_spread, Finset.sum_eq_zero hnone, zero_add]

/-- Without deviations the row sum of a constraint row is its number, and that of the objective
    row is 0. -/
theorem ExactBasis.rowSum_spread (hexact : t.ExactBasis tolerance) (hb : t.HasBasis)
    (h0 : 0 ≤ tolerance) (h1 : tolerance < 1) (hi : i < t.numRows) :
    t.rowSum (t.spread tolerance u) i = if i = 0 then 0 else u i := by
  have hnone : ∀ k ∈ Finset.range t.rhsColumn,
      t.deviation tolerance i k * t.spread tolerance u k = 0 := by
    intro k _
    cases h : t.hostAt tolerance k with
    | none => rw [spread_of_hostAt_none h, mul_zero]
    | some r => rw [hexact.deviation_eq_zero h hi, zero_mul]
  by_cases hi0 : i = 0
  · subst hi0
    rw [rowSum_spread_zero, Finset.sum_eq_zero hnone, if_pos rfl]
  · rw [rowSum_spread_of_host (exists_hostAt hb h0 h1 (Nat.pos_of_ne_zero hi0) hi),
      Finset.sum_eq_zero hnone, add_zero, if_neg hi0]

/-! ### The basic solution in the equations -/

/-- What the basic solution misses in a row are the deviations, weighted by the values. -/
theorem residual_valueAt (h : i = 0 ∨ ∃ k, t.hostAt tolerance k = some i) :
    t.residual (t.entry 0 t.rhsColumn) (t.valueAt tolerance) i
      = ∑ k ∈ Finset.range t.rhsColumn,
          t.deviation tolerance i k * t.valueAt tolerance k := by
  rw [valueAt_eq_spread]
  by_cases hi0 : i = 0
  · subst hi0
    rw [residual_zero, rowSum_spread_zero]
    ring
  · rw [residual_of_pos _ _ _ (Nat.pos_of_ne_zero hi0),
      rowSum_spread_of_host (h.resolve_left hi0)]
    ring

/-- **How far the basic solution is off.** Below a tolerance of 1, it misses each equation by no
    more than the tolerance times the sum of its values. -/
theorem abs_residual_valueAt_le (hb : t.HasBasis) (h0 : 0 ≤ tolerance) (h1 : tolerance < 1)
    (hi : i < t.numRows) :
    |t.residual (t.entry 0 t.rhsColumn) (t.valueAt tolerance) i|
      ≤ tolerance * ∑ k ∈ Finset.range t.rhsColumn, |t.valueAt tolerance k| := by
  have hrow : i = 0 ∨ ∃ k, t.hostAt tolerance k = some i :=
    i.eq_zero_or_pos.imp_right fun hpos => exists_hostAt hb h0 h1 hpos hi
  have hterm : ∀ k, |t.deviation tolerance i k * t.valueAt tolerance k|
      ≤ tolerance * |t.valueAt tolerance k| := by
    intro k
    rw [abs_mul]
    cases h : t.hostAt tolerance k with
    | none => rw [valueAt_of_hostAt_none h, abs_zero, mul_zero, mul_zero]
    | some r => exact mul_le_mul_of_nonneg_right (abs_deviation_le h hi) (abs_nonneg _)
  rw [residual_valueAt hrow, Finset.mul_sum]
  calc |∑ k ∈ Finset.range t.rhsColumn, t.deviation tolerance i k * t.valueAt tolerance k|
      ≤ ∑ k ∈ Finset.range t.rhsColumn, |t.deviation tolerance i k * t.valueAt tolerance k| :=
        Finset.abs_sum_le_sum_abs _ _
    _ ≤ ∑ k ∈ Finset.range t.rhsColumn, tolerance * |t.valueAt tolerance k| :=
        Finset.sum_le_sum fun k _ => hterm k

/-- **When the basic solution solves the tableau.** If the basic columns are unit columns, it
    does, with the right-hand side of the objective row for `Z`. -/
theorem ExactBasis.solves_valueAt (hexact : t.ExactBasis tolerance) (hb : t.HasBasis)
    (h0 : 0 ≤ tolerance) (h1 : tolerance < 1) :
    t.Solves (t.entry 0 t.rhsColumn) (t.valueAt tolerance) := by
  intro i hi
  rw [residual, valueAt_eq_spread, hexact.rowSum_spread hb h0 h1 hi]
  by_cases hi0 : i = 0
  · rw [if_pos hi0, if_pos hi0, hi0]
    ring
  · rw [if_neg hi0, if_neg hi0]
    ring

/-! ### From an examined tableau back to the first -/

theorem abs_spread_le {ε : Rat} (hε : 0 ≤ ε) (hu : ∀ r < t.numRows, |u r| ≤ ε) (k : Nat) :
    |t.spread tolerance u k| ≤ ε := by
  cases h : t.hostAt tolerance k with
  | none =>
    rw [spread_of_hostAt_none h, abs_zero]
    exact hε
  | some r =>
    rw [spread_of_hostAt h]
    exact hu r (hostAt_lt_numRows h)

/-- **Errors before the pivots.** If values miss no equation of a tableau with a basis by more
    than `ε`, then before the pivots that led there they miss an equation by no more than `ε`
    times the cells of its row, `Z` included. -/
theorem Pivots.abs_residual_le {w : Tableau Rat} (h : t.Pivots w) (ht : t.WellShaped)
    (hb : w.HasBasis) {ε z : Rat} {v : Nat → Rat}
    (herror : ∀ i < w.numRows, |w.residual z v i| ≤ ε) (hi : i < t.numRows) :
    |t.residual z v i|
      ≤ ε * ((if i = 0 then 1 else 0) + ∑ k ∈ Finset.range t.rhsColumn, |t.entry i k|) := by
  have hrow : 0 < w.numRows := (h.wellShaped ht).numRows_pos
  have hε : 0 ≤ ε := (abs_nonneg _).trans (herror 0 hrow)
  -- taking each error from the basic variable of its row solves the equations
  let correction : Nat → Rat := w.spread 0 (w.residual z v)
  have hsolves : w.Solves (z - w.residual z v 0) (fun k => v k - correction k) := by
    intro i hi
    rw [residual_sub, (exactBasis_zero w).rowSum_spread hb le_rfl one_pos hi]
    by_cases hi0 : i = 0
    · rw [if_pos hi0, if_pos hi0, hi0, add_zero, sub_self]
    · rw [if_neg hi0, if_neg hi0, zero_add, sub_self]
  -- so the errors of the first tableau are those of the correction
  have hfirst : t.residual z v i
      = (if i = 0 then w.residual z v 0 else 0) + t.rowSum correction i := by
    have hzero := (h.solves_iff ht).mp hsolves i hi
    rw [residual_sub] at hzero
    exact sub_eq_zero.mp hzero
  have hobjective : |if i = 0 then w.residual z v 0 else 0| ≤ ε * if i = 0 then 1 else 0 := by
    by_cases hi0 : i = 0
    · rw [if_pos hi0, if_pos hi0, mul_one]
      exact herror 0 hrow
    · rw [if_neg hi0, if_neg hi0, abs_zero, mul_zero]
  have hcells : |t.rowSum correction i|
      ≤ ε * ∑ k ∈ Finset.range t.rhsColumn, |t.entry i k| := by
    rw [rowSum, Finset.mul_sum]
    refine (Finset.abs_sum_le_sum_abs _ _).trans (Finset.sum_le_sum fun k _ => ?_)
    rw [abs_mul, mul_comm]
    exact mul_le_mul_of_nonneg_right (abs_spread_le hε herror k) (abs_nonneg _)
  rw [hfirst, mul_add]
  exact (abs_add_le _ _).trans (add_le_add hobjective hcells)

end Tableau

end SimplexTableau

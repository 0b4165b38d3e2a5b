import SimplexTableau.Proofs.Elimination
import Mathlib.Algebra.BigOperators.Field
import Mathlib.Algebra.BigOperators.Group.Finset.Sigma
import Mathlib.Tactic.Linarith

namespace SimplexTableau

open scoped BigOperators

/-!
# The equations of a tableau

A tableau stands for a system of equations, one per row, in the objective value `Z` and the
values of its variables.  `Z` occurs with coefficient 1 in the objective row and nowhere else.

* `rowSum` — the cells of a row weighted by the values of the variables;
* `residual` — the left side of a row's equation minus its right side;
* `Solves` — every residual is 0; `solves_add`: values with others that make up for them;
* `residual_pivoted` — a pivot takes multiples of the pivot row's residual from the others, so
  `Reaches.solves_iff`: pivots neither lose nor gain a solution.
-/

namespace Tableau

/-- The cells of row `i` weighted by the values of the variables. -/
def rowSum (t : Tableau Rat) (v : Nat → Rat) (i : Nat) : Rat :=
  ∑ j ∈ Finset.range t.rhsColumn, t.entry i j * v j

/-- The left side of row `i` minus its right side, at objective value `z` and values `v`. -/
def residual (t : Tableau Rat) (z : Rat) (v : Nat → Rat) (i : Nat) : Rat :=
  (if i = 0 then z else 0) + t.rowSum v i - t.entry i t.rhsColumn

/-- The objective value `z` and the values `v` satisfy the equation of every row. -/
def Solves (t : Tableau Rat) (z : Rat) (v : Nat → Rat) : Prop :=
  ∀ i < t.numRows, t.residual z v i = 0

variable {t : Tableau Rat} {i j k : Nat} {z : Rat} {v : Nat → Rat}

theorem residual_zero (t : Tableau Rat) (z : Rat) (v : Nat → Rat) :
    t.residual z v 0 = z + t.rowSum v 0 - t.entry 0 t.rhsColumn := by
  rw [residual, if_pos rfl]

theorem residual_of_pos (t : Tableau Rat) (z : Rat) (v : Nat → Rat) (hi : 0 < i) :
    t.residual z v i = t.rowSum v i - t.entry i t.rhsColumn := by
  rw [residual, if_neg (by omega), zero_add]

theorem rowSum_sub (t : Tableau Rat) (v w : Nat → Rat) (i : Nat) :
    t.rowSum (fun k => v k - w k) i = t.rowSum v i - t.rowSum w i := by
  rw [rowSum, rowSum, rowSum, ← Finset.sum_sub_distrib]
  exact Finset.sum_congr rfl fun k _ => mul_sub _ _ _

theorem rowSum_add (t : Tableau Rat) (v w : Nat → Rat) (i : Nat) :
    t.rowSum (fun k => v k + w k) i = t.rowSum v i + t.rowSum w i := by
  rw [rowSum, rowSum, rowSum, ← Finset.sum_add_distrib]
  exact Finset.sum_congr rfl fun k _ => mul_add _ _ _

theorem rowSum_sum (t : Tableau Rat) (s : Finset Nat) (v : Nat → Nat → Rat) (i : Nat) :
    t.rowSum (fun k => ∑ r ∈ s, v r k) i = ∑ r ∈ s, t.rowSum (v r) i := by
  simp only [rowSum, Finset.mul_sum]
  exact Finset.sum_comm

/-- A single value counts with its own weight. -/
theorem sum_mul_single {n c : Nat} (hc : c < n) (f : Nat → Rat) (τ : Rat) :
    ∑ k ∈ Finset.range n, f k * (if k = c then τ else 0) = f c * τ := by
  have hother : ∀ k ∈ Finset.range n, k ≠ c → f k * (if k = c then τ else 0) = 0 := by
    intro k _ hk
    rw [if_neg hk, mul_zero]
  rw [Finset.sum_eq_single_of_mem c (Finset.mem_range.mpr hc) hother, if_pos rfl]

theorem rowSum_single {c : Nat} (hc : c < t.rhsColumn) (τ : Rat) (i : Nat) :
    t.rowSum (fun k => if k = c then τ else 0) i = t.entry i c * τ :=
  sum_mul_single hc (t.entry i) τ

/-- A change of the objective value and of the values changes a residual linearly. -/
theorem residual_sub (t : Tableau Rat) (z y : Rat) (v w : Nat → Rat) (i : Nat) :
    t.residual (z - y) (fun k => v k - w k) i
      = t.residual z v i - ((if i = 0 then y else 0) + t.rowSum w i) := by
  rw [residual, residual, rowSum_sub]
  by_cases hi : i = 0
  · rw [if_pos hi, if_pos hi, if_pos hi]
    ring
  · rw [if_neg hi, if_neg hi, if_neg hi]
    ring

/-- **Completed values.** If the values `b` make up for what the values `x` leave of each
    constraint row and do not count in the objective row, then both together solve the tableau. -/
theorem solves_add {x b : Nat → Rat}
    (hb : ∀ i < t.numRows,
      t.rowSum b i = if i = 0 then 0 else t.entry i t.rhsColumn - t.rowSum x i) :
    t.Solves (t.entry 0 t.rhsColumn - t.rowSum x 0) (fun k => b k + x k) := by
  intro i hi
  rw [residual, rowSum_add, hb i hi]
  by_cases hi0 : i = 0
  · rw [if_pos hi0, if_pos hi0, hi0]
    ring
  · rw [if_neg hi0, if_neg hi0]
    ring

/-! ### The effect of a pivot -/

/-- The row sum of the pivot row is divided by the element. -/
theorem rowSum_pivoted_self (ht : t.WellShaped) (hi : i < t.numRows) (hj : j < t.numColumns) :
    (t.pivoted i j).rowSum v i = t.rowSum v i / t.entry i j := by
  rw [rowSum, rowSum, Finset.sum_div, rhsColumn_pivoted]
  refine Finset.sum_congr rfl fun l hl => ?_
  rw [entry_pivoted_self ht hi hj (lt_numColumns (Finset.mem_range.mp hl))]
  ring

/-- The row sum of another row loses its entry's multiple of the divided pivot row. -/
theorem rowSum_pivoted_of_ne (ht : t.WellShaped) (hi : i < t.numRows) (hj : j < t.numColumns)
    (hk : k < t.numRows) (hki : k ≠ i) :
    (t.pivoted i j).rowSum v k
      = t.rowSum v k - t.entry k j * (t.rowSum v i / t.entry i j) := by
  rw [rowSum, rowSum, rowSum, Finset.sum_div, Finset.mul_sum, ← Finset.sum_sub_distrib,
    rhsColumn_pivoted]
  refine Finset.sum_congr rfl fun l hl => ?_
  rw [entry_pivoted_of_ne ht hi hj hk (lt_numColumns (Finset.mem_range.mp hl)) hki]
  ring

/-- **Residuals after a pivot.** The pivot row is a constraint row, so `Z` does not occur in it
    and the residuals change as the rows do. -/
theorem residual_pivoted (ht : t.WellShaped) (hi0 : 0 < i) (hi : i < t.numRows)
    (hj : j < t.numColumns) (hk : k < t.numRows) :
    (t.pivoted i j).residual z v k
      = if k = i then t.residual z v i / t.entry i j
        else t.residual z v k - t.entry k j * (t.residual z v i / t.entry i j) := by
  have hb := t.rhsColumn_lt_numColumns
  rw [residual_of_pos t z v hi0]
  by_cases hki : k = i
  · -- both sides of the pivot row are divided by the element
    subst hki
    rw [if_pos rfl, residual_of_pos _ _ _ hi0, rowSum_pivoted_self ht hi hj, rhsColumn_pivoted,
      entry_pivoted_self ht hi hj hb]
    ring
  · -- both sides of another row lose the same multiple of the divided row
    rw [if_neg hki, residual, residual, rowSum_pivoted_of_ne ht hi hj hk hki, rhsColumn_pivoted,
      entry_pivoted_of_ne ht hi hj hk hb hki]
    ring

/-- A pivot on a constraint row and a nonzero element neither loses nor gains a solution. -/
theorem solves_pivoted_iff (ht : t.WellShaped) (hi0 : 0 < i) (hi : i < t.numRows)
    (hj : j < t.numColumns) (he : t.entry i j ≠ 0) :
    (t.pivoted i j).Solves z v ↔ t.Solves z v := by
  constructor
  · intro h
    -- the pivot row's equation holds before it is divided, so nothing was taken from the others
    have hpivot : t.residual z v i = 0 := by
      have hrow := h i (by rw [numRows_pivoted]; exact hi)
      rw [residual_pivoted ht hi0 hi hj hi, if_pos rfl] at hrow
      exact (div_eq_zero_iff.mp hrow).resolve_right he
    intro k hk
    have hrow := h k (by rw [numRows_pivoted]; exact hk)
    rw [residual_pivoted ht hi0 hi hj hk, hpivot, zero_div, mul_zero, sub_zero] at hrow
    by_cases hki : k = i
    · rw [hki, hpivot]
    · rwa [if_neg hki] at hrow
  · intro h k hk
    rw [numRows_pivoted] at hk
    rw [residual_pivoted ht hi0 hi hj hk, h i hi, h k hk]
    simp

/-- **Pivots preserve the solutions.** -/
theorem Reaches.solves_iff {u : Tableau Rat} (h : t.Reaches u) (ht : t.WellShaped) :
    u.Solves z v ↔ t.Solves z v := by
  induction h with
  | refl => rfl
  | tail before hstep ih =>
    have hbefore := wellShaped before ht
    obtain ⟨i, j, ⟨hi0, hi, hj⟩, he, rfl⟩ := hbefore.pivotStep_iff.mp hstep
    rw [solves_pivoted_iff hbefore hi0 hi hj he, ih]

theorem Pivots.solves_iff {u : Tableau Rat} (h : t.Pivots u) (ht : t.WellShaped) :
    u.Solves z v ↔ t.Solves z v :=
  (h.reaches ht).solves_iff ht

end Tableau

end SimplexTableau

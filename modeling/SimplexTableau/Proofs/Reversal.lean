import SimplexTableau.Proofs.Elimination
import Mathlib.Tactic.FieldSimp

namespace SimplexTableau

/-!
# Undoing a pivot

A pivot loses nothing.  Where its row had a unit column before, the opposite pivot, in the same row
and on that column, takes every entry back to what it was:

* `entry_pivoted_opposite` — the element of the opposite pivot is the reciprocal of the first one;
* `pivoted_opposite_eq` — after both pivots the tableau is the one before, objective row and
  right-hand sides included;
* `Pivots.symm` — in a tableau with a basis every row has such a column, so any number of pivots
  can be undone, the last one first.
-/

namespace Tableau

variable {t u : Tableau Rat} {r j k i l : Nat}

/-! ### The opposite pivot -/

/-- The entry of the opposite pivot is the reciprocal of the element. -/
theorem entry_pivoted_opposite (ht : t.WellShaped) (hr : r < t.numRows) (hj : j < t.numColumns)
    (hk : k < t.numColumns) (hunit : t.IsUnitColumn r k) :
    (t.pivoted r j).entry r k = 1 / t.entry r j := by
  rw [entry_pivoted_self ht hr hj hk, hunit.entry_self hr]

/-- The other entries of its column are those of the first column, by the element and negated. -/
theorem entry_pivoted_opposite_of_ne (ht : t.WellShaped) (hr : r < t.numRows)
    (hj : j < t.numColumns) (hk : k < t.numColumns) (hunit : t.IsUnitColumn r k)
    (hi : i < t.numRows) (hir : i ≠ r) :
    (t.pivoted r j).entry i k = -(t.entry i j / t.entry r j) := by
  rw [entry_pivoted_of_ne ht hr hj hi hk hir, hunit.entry_of_ne hi hir, hunit.entry_self hr,
    zero_sub, mul_one_div]

/-- **Every entry is restored** by the opposite pivot. -/
theorem entry_pivoted_pivoted (ht : t.WellShaped) (hr : r < t.numRows) (hj : j < t.numColumns)
    (hk : k < t.numColumns) (he : t.entry r j ≠ 0) (hunit : t.IsUnitColumn r k)
    (hi : i < t.numRows) (hl : l < t.numColumns) :
    ((t.pivoted r j).pivoted r k).entry i l = t.entry i l := by
  have hu : (t.pivoted r j).WellShaped := ht.pivoted hr j
  have hr' : r < (t.pivoted r j).numRows := by rwa [numRows_pivoted]
  have hi' : i < (t.pivoted r j).numRows := by rwa [numRows_pivoted]
  have hopposite := entry_pivoted_opposite ht hr hj hk hunit
  -- the row of both pivots is divided by the element and by its reciprocal
  have hrow : (t.pivoted r j).entry r l / (t.pivoted r j).entry r k = t.entry r l := by
    rw [hopposite, entry_pivoted_self ht hr hj hl]
    field_simp
  by_cases hir : i = r
  · rw [hir, entry_pivoted_self hu hr' hk hl, hrow]
  · -- what another row has lost it gets back
    rw [entry_pivoted_of_ne hu hr' hk hi' hl hir, hrow,
      entry_pivoted_opposite_of_ne ht hr hj hk hunit hi hir,
      entry_pivoted_of_ne ht hr hj hi hl hir]
    ring

/-- **The opposite pivot** restores the tableau. -/
theorem pivoted_opposite_eq (ht : t.WellShaped) (hr : r < t.numRows) (hj : j < t.numColumns)
    (hk : k < t.numColumns) (he : t.entry r j ≠ 0) (hunit : t.IsUnitColumn r k) :
    (t.pivoted r j).pivoted r k = t := by
  have hr' : r < (t.pivoted r j).numRows := by rwa [numRows_pivoted]
  have hframe : t.SameFrame ((t.pivoted r j).pivoted r k) :=
    ((SameFrame.refl t).pivoted r j).pivoted r k
  exact hframe.eq_of_entry_eq ht ((ht.pivoted hr j).pivoted hr' k) fun i hi l hl =>
    entry_pivoted_pivoted ht hr hj hk he hunit hi hl

/-! ### Sequences of pivots -/

namespace Pivots

theorem trans {v : Tableau Rat} (h : t.Pivots u) (h' : u.Pivots v) : t.Pivots v := by
  induction h' with
  | refl => exact h
  | tail _ hi0 hi hj he ih => exact .tail ih hi0 hi hj he

/-- **Pivots can be undone.** From a tableau with a basis they lead nowhere that pivots do not lead
    back from. -/
theorem symm (h : t.Pivots u) (ht : t.WellShaped) (hb : t.HasBasis) : u.Pivots t := by
  induction h with
  | refl => exact .refl
  | @tail u i j before hi0 hi hj he ih =>
    have hu : u.WellShaped := before.wellShaped ht
    obtain ⟨k, hk, hunit⟩ := before.hasBasis ht hb i hi0 hi
    -- the last pivot is undone first
    have hback : (u.pivoted i j).Pivots u := by
      have hopposite : (u.pivoted i j).entry i k ≠ 0 := by
        rw [entry_pivoted_opposite hu hi (lt_numColumns hj) (lt_numColumns hk) hunit]
        exact one_div_ne_zero he
      have hstep : (u.pivoted i j).Pivots ((u.pivoted i j).pivoted i k) :=
        .tail .refl hi0 (by rwa [numRows_pivoted]) hk hopposite
      rwa [pivoted_opposite_eq hu hi (lt_numColumns hj) (lt_numColumns hk) he hunit] at hstep
    exact hback.trans ih

end Pivots

/-! ### Checked pivots -/

/-- **A pivot and its opposite.** In a well-shaped tableau with a unit column in row `r`, the pivot
    on a nonzero element of that row makes its column a unit column and leaves the unit columns of
    the other rows as they are.  The pivot on the former unit column then gives the tableau back,
    and its element is the reciprocal of the first one. -/
theorem WellShaped.pivot_opposite (ht : t.WellShaped) (hr : r < t.numRows)
    (hj : j < t.numColumns) (hk : k < t.numColumns) (he : t.entry r j ≠ 0)
    (hunit : t.IsUnitColumn r k) :
    ∃ u, pivot t r j = .ok (t.entry r j, u)
      ∧ u.IsUnitColumn r j
      ∧ (∀ q l, q ≠ r → l < t.numColumns → t.IsUnitColumn q l →
        ∀ i < t.numRows, u.entry i l = t.entry i l)
      ∧ pivot u r k = .ok (1 / t.entry r j, t) := by
  have hr' : r < (t.pivoted r j).numRows := by rwa [numRows_pivoted]
  refine ⟨t.pivoted r j, ht.pivot_eq hr hj, isUnitColumn_pivoted ht hr hj he, ?_, ?_⟩
  · intro q l hqr hl hother i hi
    exact entry_pivoted_of_eq_zero ht hr hj hi hl (hother.entry_of_ne hr hqr.symm)
  · exact (ht.pivoted hr j).pivot_eq_ok_iff.mpr ⟨⟨hr', hk⟩,
      entry_pivoted_opposite ht hr hj hk hunit, pivoted_opposite_eq ht hr hj hk he hunit⟩

/-- A tableau in the middle of a run, with a negative entry in its last row. -/
def underWay : Tableau Rat where
  rows := #[#[-3, -2, 0, 0, 4], #[2, 1, 1, 0, 18], #[-2, 3, 0, 1, 24]]
  columns := #[.structural 1, .structural 2, .slack 1, .slack 2]
  numStructural := 2
  numSlack := 2

theorem pivot_opposite_underWay :
    underWay.WellShaped ∧ underWay.entry 2 0 ≠ 0 ∧ underWay.IsUnitColumn 2 3
      ∧ underWay.IsUnitColumn 1 2
      ∧ ∃ u, pivot underWay 2 0 = .ok (-2, u) ∧ u.IsUnitColumn 2 0
        ∧ (∀ i < 3, u.entry i 2 = underWay.entry i 2)
        ∧ pivot u 2 3 = .ok (-1 / 2, underWay) := by
  have ht : underWay.WellShaped := ⟨by decide, by decide⟩
  have helement : underWay.entry 2 0 = -2 := by decide +kernel
  have he : underWay.entry 2 0 ≠ 0 := by decide +kernel
  have hunit : underWay.IsUnitColumn 2 3 := by decide +kernel
  have hother : underWay.IsUnitColumn 1 2 := by decide +kernel
  obtain ⟨u, hpivot, hcolumn, hkept, hopposite⟩ :=
    ht.pivot_opposite (by decide : 2 < underWay.numRows) (by decide : 0 < underWay.numColumns)
      (by decide : 3 < underWay.numColumns) he hunit
  have hreciprocal : (1 : Rat) / -2 = -1 / 2 := by decide +kernel
  rw [helement] at hpivot hopposite
  rw [hreciprocal] at hopposite
  exact ⟨ht, he, hunit, hother, u, hpivot, hcolumn,
    hkept 1 2 (by decide) (by decide) hother, hopposite⟩

end Tableau

end SimplexTableau

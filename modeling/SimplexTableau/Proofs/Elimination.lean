import SimplexTableau.Proofs.Access
import Mathlib.Algebra.Order.Ring.Rat
import Mathlib.Logic.Relation
import Mathlib.Tactic.Ring

namespace SimplexTableau

/-!
# What a pivot does to the entries

Over fractions a pivot is an exact row operation.

* `entry_pivoted` — every entry of the table after a pivot;
* `IsUnitColumn` — a column with 1 in one row and 0 in all others, the objective row included;
  `isUnitColumn_pivoted` makes one, and `IsUnitColumn.pivoted` keeps those of the other rows;
* `HasBasis` — every constraint row has a unit column;
* `Reaches` — tableaus that come from one another by checked pivots on constraint rows and nonzero
  elements of any column.  Such pivots keep the shape (`Reaches.wellShaped`) and change cells only
  (`Reaches.sameFrame`);
* `Pivots` — those among them that make columns of variables unit columns.  They keep the basis
  (`Pivots.hasBasis`).
-/

namespace Tableau

variable {t : Tableau Rat} {i j k l : Nat}

/-! ### Entries after a pivot -/

/-- Clearing a row's entry subtracts that multiple of the unit row, whether or not the row is
    left alone for having 0 there. -/
theorem getD_eliminate {unit row : Array Rat} (hj : j < row.size) (hl : l < row.size)
    (hu : unit.size = row.size) :
    (eliminate j unit row).getD l 0 = row.getD l 0 - row.getD j 0 * unit.getD l 0 := by
  have hget : row[j]? = some (row.getD j 0) := by simp [hj]
  by_cases h : row.getD j 0 = 0
  · -- the row is left alone, and what would be subtracted is 0
    have hskip : eliminate j unit row = row := by
      rw [eliminate, hget]
      simp [h]
    rw [hskip, h, zero_mul, sub_zero]
  · have hstep : eliminate j unit row = addMultiple (-row.getD j 0) unit row := by
      rw [eliminate, hget]
      simp only [beq_iff_eq, neg_eq_zero, h, if_false]
    have hlu : l < unit.size := by omega
    rw [hstep]
    simp only [addMultiple, Array.getD_eq_getD_getElem?, Array.getElem?_mapIdx, hl, hlu,
      Array.getElem?_eq_getElem, Option.map_some, Option.getD_some]
    ring

/-- **Entries after a pivot.** The pivot row is divided by the element, and every other row loses
    its entry's multiple of the divided row. -/
theorem entry_pivoted (ht : t.WellShaped) (hi : i < t.numRows) (hj : j < t.numColumns)
    (hk : k < t.numRows) (hl : l < t.numColumns) :
    (t.pivoted i j).entry k l
      = if k = i then t.entry i l / t.entry i j
        else t.entry k l - t.entry k j * (t.entry i l / t.entry i j) := by
  have hi' : i < t.rows.size := hi
  have hk' : k < t.rows.size := hk
  have hsi : t.rows[i].size = t.numColumns := ht.size_getElem hi'
  have hsk : t.rows[k].size = t.numColumns := ht.size_getElem hk'
  have hunit : (t.rows[i].map (· / t.entry i j)).getD l 0 = t.entry i l / t.entry i j := by
    simp [entry, hi', hsi, hl]
  have hrow : (t.pivoted i j).rows.getD k #[]
      = if k = i then t.rows[i].map (· / t.entry i j)
        else eliminate j (t.rows[i].map (· / t.entry i j)) t.rows[k] := by
    simp [pivoted, pivotRows, hi', hk']
  rw [entry, hrow]
  by_cases hki : k = i
  · rw [if_pos hki, if_pos hki, hunit]
  · rw [if_neg hki, if_neg hki, getD_eliminate (by omega) (by omega) (by simp [hsi, hsk]), hunit]
    simp [entry, hk']

/-- The pivot row after a pivot. -/
theorem entry_pivoted_self (ht : t.WellShaped) (hi : i < t.numRows) (hj : j < t.numColumns)
    (hl : l < t.numColumns) : (t.pivoted i j).entry i l = t.entry i l / t.entry i j := by
  rw [entry_pivoted ht hi hj hi hl, if_pos rfl]

/-- The other rows after a pivot. -/
theorem entry_pivoted_of_ne (ht : t.WellShaped) (hi : i < t.numRows) (hj : j < t.numColumns)
    (hk : k < t.numRows) (hl : l < t.numColumns) (hki : k ≠ i) :
    (t.pivoted i j).entry k l = t.entry k l - t.entry k j * (t.entry i l / t.entry i j) := by
  rw [entry_pivoted ht hi hj hk hl, if_neg hki]

/-- A column with 0 in the pivot row is unchanged. -/
theorem entry_pivoted_of_eq_zero (ht : t.WellShaped) (hi : i < t.numRows) (hj : j < t.numColumns)
    (hk : k < t.numRows) (hl : l < t.numColumns) (h0 : t.entry i l = 0) :
    (t.pivoted i j).entry k l = t.entry k l := by
  rw [entry_pivoted ht hi hj hk hl, h0]
  by_cases hki : k = i
  · rw [if_pos hki, hki, h0, zero_div]
  · rw [if_neg hki, zero_div, mul_zero, sub_zero]

/-! ### Unit columns -/

/-- Column `k` has 1 in row `r` and 0 in every other row, the objective row included. -/
def IsUnitColumn (t : Tableau Rat) (r k : Nat) : Prop :=
  ∀ i < t.numRows, t.entry i k = if i = r then 1 else 0

instance (t : Tableau Rat) (r k : Nat) : Decidable (t.IsUnitColumn r k) :=
  inferInstanceAs (Decidable (∀ i < t.numRows, t.entry i k = if i = r then 1 else 0))

theorem IsUnitColumn.entry_self {r : Nat} (h : t.IsUnitColumn r k) (hr : r < t.numRows) :
    t.entry r k = 1 := by
  rw [h r hr, if_pos rfl]

theorem IsUnitColumn.entry_of_ne {r : Nat} (h : t.IsUnitColumn r k) (hi : i < t.numRows)
    (hir : i ≠ r) : t.entry i k = 0 := by
  rw [h i hi, if_neg hir]

/-- A pivot on a nonzero element makes its column a unit column of its row. -/
theorem isUnitColumn_pivoted (ht : t.WellShaped) (hi : i < t.numRows) (hj : j < t.numColumns)
    (he : t.entry i j ≠ 0) : (t.pivoted i j).IsUnitColumn i j := by
  intro k hk
  rw [numRows_pivoted] at hk
  rw [entry_pivoted ht hi hj hk hj, div_self he, mul_one, sub_self]

/-- The unit columns of the other rows have 0 in the pivot row, so a pivot keeps them. -/
theorem IsUnitColumn.pivoted {r : Nat} (h : t.IsUnitColumn r k) (ht : t.WellShaped)
    (hi : i < t.numRows) (hj : j < t.numColumns) (hk : k < t.numColumns) (hri : r ≠ i) :
    (t.pivoted i j).IsUnitColumn r k := by
  intro l hl
  rw [numRows_pivoted] at hl
  rw [entry_pivoted_of_eq_zero ht hi hj hl hk (h.entry_of_ne hi hri.symm), h l hl]

/-- Every constraint row has a unit column among the variables. -/
def HasBasis (t : Tableau Rat) : Prop :=
  ∀ r, 0 < r → r < t.numRows → ∃ k < t.rhsColumn, t.IsUnitColumn r k

/-- A pivot replaces the unit column of its row by its column and keeps those of the others. -/
theorem HasBasis.pivoted (h : t.HasBasis) (ht : t.WellShaped) (hi : i < t.numRows)
    (hj : j < t.rhsColumn) (he : t.entry i j ≠ 0) : (t.pivoted i j).HasBasis := by
  intro r hr hrn
  rw [numRows_pivoted] at hrn
  by_cases hri : r = i
  · -- the pivot column takes the place of the column that the row had
    subst hri
    exact ⟨j, hj, isUnitColumn_pivoted ht hi (lt_numColumns hj) he⟩
  · obtain ⟨k, hk, hunit⟩ := h r hr hrn
    exact ⟨k, hk, hunit.pivoted ht hi (lt_numColumns hj) (lt_numColumns hk) hri⟩

/-! ### Sequences of pivots -/

/-- A pivot on a constraint row and a nonzero element leads from `t` to `u`. -/
def PivotStep (t u : Tableau Rat) : Prop :=
  ∃ i j element, 0 < i ∧ element ≠ 0 ∧ pivot t i j = .ok (element, u)

/-- Finitely many pivots on constraint rows and nonzero elements lead from one tableau to the
    other. -/
def Reaches : Tableau Rat → Tableau Rat → Prop := Relation.ReflTransGen PivotStep

/-- On a well-shaped tableau such a pivot is inside the table, and it gives the pivoted table. -/
theorem WellShaped.pivotStep_iff {u : Tableau Rat} (ht : t.WellShaped) :
    t.PivotStep u ↔ ∃ i j, (0 < i ∧ i < t.numRows ∧ j < t.numColumns) ∧ t.entry i j ≠ 0
      ∧ t.pivoted i j = u := by
  constructor
  · rintro ⟨i, j, element, hi0, he, hpivot⟩
    obtain ⟨⟨hi, hj⟩, rfl, hu⟩ := ht.pivot_eq_ok_iff.mp hpivot
    exact ⟨i, j, ⟨hi0, hi, hj⟩, he, hu⟩
  · rintro ⟨i, j, ⟨hi0, hi, hj⟩, he, rfl⟩
    exact ⟨i, j, t.entry i j, hi0, he, ht.pivot_eq hi hj⟩

namespace Reaches

variable {u : Tableau Rat}

theorem wellShaped (h : t.Reaches u) (ht : t.WellShaped) : u.WellShaped := by
  induction h with
  | refl => exact ht
  | tail _ hstep ih =>
    obtain ⟨i, j, ⟨-, hi, -⟩, -, rfl⟩ := ih.pivotStep_iff.mp hstep
    exact ih.pivoted hi j

theorem sameFrame (h : t.Reaches u) (ht : t.WellShaped) : t.SameFrame u := by
  induction h with
  | refl => exact .refl t
  | tail before hstep ih =>
    obtain ⟨i, j, -, -, rfl⟩ := (wellShaped before ht).pivotStep_iff.mp hstep
    exact ih.pivoted i j

end Reaches

/-- The second tableau comes from `t` by pivots on constraint rows, columns of variables and
    nonzero elements. -/
inductive Pivots (t : Tableau Rat) : Tableau Rat → Prop
  /-- No pivot at all. -/
  | refl : Pivots t t
  /-- One more pivot, in row `i` and column `j`. -/
  | tail {u : Tableau Rat} {i j : Nat} (before : Pivots t u) (row_pos : 0 < i)
      (row_lt : i < u.numRows) (column_lt : j < u.rhsColumn) (nonzero : u.entry i j ≠ 0) :
      Pivots t (u.pivoted i j)

namespace Pivots

variable {u : Tableau Rat}

/-- The checked pivots reach what such pivots give. -/
theorem reaches (h : t.Pivots u) (ht : t.WellShaped) : t.Reaches u := by
  induction h with
  | refl => exact .refl
  | tail _ hi0 hi hj he ih =>
    exact ih.tail ((ih.wellShaped ht).pivotStep_iff.mpr
      ⟨_, _, ⟨hi0, hi, lt_numColumns hj⟩, he, rfl⟩)

theorem wellShaped (h : t.Pivots u) (ht : t.WellShaped) : u.WellShaped :=
  (h.reaches ht).wellShaped ht

theorem numRows_eq (h : t.Pivots u) : u.numRows = t.numRows := by
  induction h with
  | refl => rfl
  | tail _ _ _ _ _ ih => rw [numRows_pivoted, ih]

theorem columns_eq (h : t.Pivots u) : u.columns = t.columns := by
  induction h with
  | refl => rfl
  | tail _ _ _ _ _ ih => rw [columns_pivoted, ih]

theorem rhsColumn_eq (h : t.Pivots u) : u.rhsColumn = t.rhsColumn := by
  rw [rhsColumn, rhsColumn, h.columns_eq]

theorem hasBasis (h : t.Pivots u) (ht : t.WellShaped) (hb : t.HasBasis) : u.HasBasis := by
  induction h with
  | refl => exact hb
  | tail before _ hi hj he ih => exact ih.pivoted (before.wellShaped ht) hi hj he

end Pivots

end Tableau

end SimplexTableau

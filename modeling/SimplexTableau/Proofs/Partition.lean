import SimplexTableau.Proofs.Hosts
import SimplexTableau.Proofs.Quotients

namespace SimplexTableau

open Float.Model (Format UnpackedFloat)
open Float.Model.UnpackedFloat

/-!
# How a classification sorts the columns

Every column goes into one of the two groups of a classification.  The test of a unit column
compares magnitudes with the tolerance, and among doubles the two comparisons it uses exclude each
other only if neither side is what an undefined operation gives:

* `Decimal.not_lt_iff_le` — two doubles that are numbers or infinities can be compared;
* `Tableau.LooksUnit` — one entry of a column is 1 within the tolerance and the others are 0 within
  it; `unitRowAt_iff_looksUnit`: the scan of the column finds that row;
* `Classification.Sorts` — the two groups list each column once, in column order, and a column is
  basic if it is the first one that looks like a unit column of its row; `sorts_reading`: the
  classification of a tableau does so, whatever the arithmetic;
* `classify_partition` — both, for tableaus of doubles.
-/

/-! ### Doubles that can be compared -/

namespace Decimal

/-- Packing makes no number undefined, and nothing undefined a number. -/
theorem isNaN_unpack_pack {u : UnpackedFloat} (hu : FitsWord u) :
    (unpack Format.binary64 (pack Format.binary64 u)).isNaN = u.isNaN := by
  cases u with
  | infinity sign => cases sign <;> rfl
  | notANumber => rfl
  | zero sign => cases sign <;> rfl
  | finite sign mantissa exponent pos =>
    have hfinite := isFinite_unpack_pack hu
    generalize unpack Format.binary64 (pack Format.binary64 (.finite sign mantissa exponent pos))
      = packed at hfinite
    cases packed with
    | notANumber => exact absurd hfinite nofun
    | infinity sign => rfl
    | zero sign => rfl
    | finite sign mantissa exponent pos => rfl

/-- **The magnitude** of a double is undefined only if the double is. -/
theorem isNaN_abs (x : Float) : x.abs.isNaN = x.isNaN := by
  have hfits : ∀ u : UnpackedFloat, FitsWord u → FitsWord u.abs := by
    intro u hu
    cases u <;> exact hu
  have habs : ∀ u : UnpackedFloat, u.abs.isNaN = u.isNaN := by
    intro u
    cases u <;> rfl
  calc x.abs.isNaN
      = (unpack Format.binary64 (pack Format.binary64 x.toModel.unpack.abs)).isNaN := rfl
    _ = x.toModel.unpack.abs.isNaN := isNaN_unpack_pack (hfits _ (fitsWord_unpack _))
    _ = x.isNaN := habs _

/-- What is compared the other way round gives the opposite order. -/
theorem compare_swap (u v : UnpackedFloat) :
    v.compare u = (u.compare v).map Ordering.swap := by
  cases u with
  | notANumber => cases v <;> rfl
  | infinity s =>
    cases v with
    | infinity s' => cases s <;> cases s' <;> rfl
    | notANumber => rfl
    | zero s' => cases s <;> rfl
    | finite s' m' e' hm' => cases s <;> rfl
  | zero s =>
    cases v with
    | infinity s' => cases s' <;> rfl
    | notANumber => rfl
    | zero s' => rfl
    | finite s' m' e' hm' => cases s' <;> rfl
  | finite s m e hm =>
    cases v with
    | infinity s' => cases s' <;> rfl
    | notANumber => rfl
    | zero s' => cases s <;> rfl
    | finite s' m' e' hm' =>
      -- exponents decide before mantissas, whichever comes first
      have hexponent : compare e' e = (compare e e').swap := Std.OrientedCmp.eq_swap
      have hmantissa : compare m' m = (compare m m').swap := Std.OrientedCmp.eq_swap
      cases s <;> cases s' <;>
        simp [UnpackedFloat.compare, hexponent, hmantissa, Ordering.swap_then]

/-- Numbers and infinities have an order. -/
theorem isSome_compare {u v : UnpackedFloat} (hu : u.isNaN = false) (hv : v.isNaN = false) :
    (u.compare v).isSome = true := by
  unfold UnpackedFloat.compare
  split
  · exact absurd hu nofun
  · exact absurd hv nofun
  all_goals rfl

/-- **Comparing doubles.** Unless one of the two is undefined, one is at most the other or above
    it. -/
theorem not_lt_iff_le {x y : Float} (hx : x.isNaN = false) (hy : y.isNaN = false) :
    ¬ y < x ↔ x ≤ y := by
  obtain ⟨order, hcompare⟩ := Option.isSome_iff_exists.mp (isSome_compare hx hy)
  rw [lt_iff_compare, le_iff_compare, compare_swap, hcompare]
  cases order <;> simp

theorem isNaN_of_nonneg {x : Float} (h : 0 ≤ x) : x.isNaN = false := by
  show x.toModel.unpack.isNaN = false
  rw [nonneg_iff, pos_iff] at h
  rcases h with ⟨sign, h⟩ | h | ⟨m, e, hm, h⟩
  · rw [h]; rfl
  · rw [h]; rfl
  · rw [h]; rfl

end Decimal

/-! ### Columns that look like unit columns -/

namespace Tableau

section Cells

variable {K : Type} [Cell K] {t : Tableau K} {tolerance : K} {j r : Nat}

/-- Of the entries of column `j` that of row `r`, and no other, is 1 within the tolerance, and the
    others are 0 within the tolerance. -/
structure LooksUnit (t : Tableau K) (tolerance : K) (r j : Nat) : Prop where
  /-- It is a row of the table. -/
  row_lt : r < t.numRows
  /-- It is the only row whose entry is near 1. -/
  near_one_iff : ∀ i < t.numRows, Cell.abs (t.entry i j - 1) ≤ tolerance ↔ i = r
  /-- The entries of the others are near 0. -/
  near_zero : ∀ i < t.numRows, i ≠ r → Cell.abs (t.entry i j) ≤ tolerance

/-- **Unit columns.**  Where every magnitude of the column is at most the tolerance or above it,
    the scan finds the row of which it looks like a unit column. -/
theorem unitRowAt_iff_looksUnit
    (hcompare : ∀ i < t.numRows,
      ¬ tolerance < Cell.abs (t.entry i j) ↔ Cell.abs (t.entry i j) ≤ tolerance) :
    t.unitRowAt tolerance j = some r ↔ t.LooksUnit tolerance r j := by
  have hone : ∀ i, isOne tolerance (t.entry i j) = true
      ↔ Cell.abs (t.entry i j - 1) ≤ tolerance := fun i => decide_eq_true_iff
  have hblank : ∀ i < t.numRows, IsBlank tolerance (t.entry i j)
      ↔ ¬ Cell.abs (t.entry i j - 1) ≤ tolerance ∧ Cell.abs (t.entry i j) ≤ tolerance := by
    intro i hi
    rw [IsBlank, ← hcompare i hi]
    exact and_congr decide_eq_false_iff_not decide_eq_false_iff_not
  rw [unitRowAt_eq_some_iff]
  constructor
  · rintro ⟨hr, hself, hothers⟩
    refine ⟨hr, fun i hi => ⟨fun hnear => ?_, ?_⟩, fun i hi hir => ?_⟩
    · by_contra hir
      exact ((hblank i hi).mp (hothers i hi hir)).1 hnear
    · rintro rfl
      exact (hone i).mp hself
    · exact ((hblank i hi).mp (hothers i hi hir)).2
  · rintro ⟨hr, hnear, hzero⟩
    refine ⟨hr, (hone r).mpr ((hnear r hr).mpr rfl), fun i hi hir => ?_⟩
    exact (hblank i hi).mpr ⟨mt (hnear i hi).mp hir, hzero i hi hir⟩

end Cells

end Tableau

/-! ### Two groups of columns -/

/-- `c` lists the columns `basic` of `t` in one group and the columns `nonBasic` in the other, the
    variable of column `j` as `listed j`. -/
structure Classification.Sorts {K : Type} [Cell K] (c : Classification K) (t : Tableau K)
    (tolerance : K) (basic nonBasic : List Nat) (listed : Nat → VariableValue K) : Prop where
  /-- The first group is that of `basic`. -/
  basic_eq : c.basic = basic.map listed
  /-- The second group is that of `nonBasic`. -/
  nonBasic_eq : c.nonBasic = nonBasic.map listed
  /-- Every column is in one of the groups, once. -/
  perm : (basic ++ nonBasic).Perm (List.range t.rhsColumn)
  /-- The first group is in column order. -/
  sorted_basic : basic.Pairwise (· < ·)
  /-- The second group is in column order. -/
  sorted_nonBasic : nonBasic.Pairwise (· < ·)
  /-- A column is listed under its name and kind. -/
  column_eq : ∀ j < t.rhsColumn, ∃ column, t.column j = .ok column
    ∧ (listed j).name = column.name ∧ (listed j).kind = column.kind
  /-- A column is basic with a constraint row if it has the 1 of its unit column there and no
      column before it has. -/
  basic_iff : ∀ j < t.rhsColumn, ∀ r, j ∈ basic ∧ (listed j).row = some r
    ↔ 1 ≤ r ∧ unitRow tolerance t j = .ok (some r)
      ∧ ∀ k < j, unitRow tolerance t k ≠ .ok (some r)
  /-- A basic column has a row, whose right-hand side is its value. -/
  value_basic : ∀ j ∈ basic, ∃ r, (listed j).row = some r ∧ t.rhs r = .ok (listed j).value
  /-- A column that is not basic has no row, and its value is 0. -/
  value_nonBasic : ∀ j ∈ nonBasic, (listed j).row = none ∧ (listed j).value = 0
  /-- No two columns of the first group share a row. -/
  nodup_rows : (c.basic.map (·.row)).Nodup

namespace Tableau

section Cells

variable {K : Type} [Cell K] {t : Tableau K}

/-- The columns that rows host. -/
def basicColumns (t : Tableau K) (tolerance : K) : List Nat :=
  (List.range t.rhsColumn).filter fun j => (t.hostAt tolerance j).isSome

/-- The columns without a host. -/
def nonBasicColumns (t : Tableau K) (tolerance : K) : List Nat :=
  (List.range t.rhsColumn).filter fun j => !(t.hostAt tolerance j).isSome

/-- The rows of the basic variables are distinct. -/
theorem nodup_rows_reading (t : Tableau K) (tolerance : K) :
    ((t.reading tolerance).basic.map (·.row)).Nodup := by
  rw [rows_basic_reading]
  refine List.Nodup.map (Option.some_injective Nat) ?_
  exact List.nodup_range.filterMap fun j k r hj hk => eq_of_hostAt_eq hj hk

/-- **The classification sorts the columns**, whatever the arithmetic. -/
theorem WellShaped.sorts_reading (ht : t.WellShaped) (tolerance : K) :
    (t.reading tolerance).Sorts t tolerance (t.basicColumns tolerance)
      (t.nonBasicColumns tolerance) (t.variableAt tolerance) where
  basic_eq := List.filter_map
  nonBasic_eq := by
    have hnone : ∀ host : Option Nat, host.isNone = !host.isSome := by
      intro host
      cases host <;> rfl
    simp only [reading, nonBasicColumns, List.filter_map, Function.comp_def, hnone, variableAt]
  perm := List.filter_append_perm _ _
  sorted_basic := List.pairwise_lt_range.filter _
  sorted_nonBasic := List.pairwise_lt_range.filter _
  column_eq := fun j hj => ⟨t.columnAt j, t.column_eq hj, rfl, rfl⟩
  basic_iff := by
    intro j hj r
    have hunit : ∀ k ≤ j, unitRow tolerance t k = .ok (some r)
        ↔ t.unitRowAt tolerance k = some r := by
      intro k hk
      rw [ht.unitRow_eq tolerance (lt_numColumns (Nat.lt_of_le_of_lt hk hj)), Except.ok.injEq]
    have hhost : (t.variableAt tolerance j).row = some r ↔ t.hostAt tolerance j = some r := Iff.rfl
    rw [hhost, hunit j (Nat.le_refl j), hostAt_eq_some_iff]
    constructor
    · rintro ⟨-, -, hrow, hr, hfirst⟩
      exact ⟨hr, hrow, fun k hk => mt (hunit k hk.le).mp (hfirst k hk)⟩
    · rintro ⟨hr, hrow, hfirst⟩
      have hhosted : t.hostAt tolerance j = some r := hostAt_eq_some_iff.mpr
        ⟨hj, hrow, hr, fun k hk => mt (hunit k hk.le).mpr (hfirst k hk)⟩
      refine ⟨List.mem_filter.mpr ⟨List.mem_range.mpr hj, ?_⟩, hostAt_eq_some_iff.mp hhosted⟩
      rw [hhosted]
      rfl
  value_basic := by
    intro j hj
    obtain ⟨r, hr⟩ := Option.isSome_iff_exists.mp (List.mem_filter.mp hj).2
    have hlt : r < t.numRows :=
      (unitRowAt_eq_some_iff.mp (hostAt_eq_some_iff.mp hr).2.1).1
    exact ⟨r, hr, (ht.rhs_eq hlt).trans (congrArg Except.ok (valueAt_of_hostAt hr).symm)⟩
  value_nonBasic := by
    intro j hj
    have hnone : t.hostAt tolerance j = none := by simpa using (List.mem_filter.mp hj).2
    exact ⟨hnone, valueAt_of_hostAt_none hnone⟩
  nodup_rows := t.nodup_rows_reading tolerance

end Cells

/-! ### Tableaus of doubles -/

variable {t : Tableau Float} {tolerance : Float}

/-- No cell is what an undefined operation gives. -/
def Defined (t : Tableau Float) : Prop := ∀ row ∈ t.rows, ∀ v ∈ row, v.isNaN = false

theorem Defined.entry (h : t.Defined) (ht : t.WellShaped) {i j : Nat} (hi : i < t.numRows)
    (hj : j < t.numColumns) : (t.entry i j).isNaN = false := by
  have hi' : i < t.rows.size := hi
  have hj' : j < t.rows[i].size := by
    rw [ht.size_getElem hi']
    exact hj
  rw [entry_eq_getElem hi' hj']
  exact h _ (Array.getElem_mem hi') _ (Array.getElem_mem hj')

/-- **How the columns are sorted.**  In a tableau of doubles without undefined cells, and at a
    tolerance that is not negative, the scan of a column finds the row of which it looks like a unit
    column, the objective row included.  The classification lists every column in one of its
    groups: the first one that looks like a unit column of a constraint row is basic with the
    right-hand side of that row, all others are 0. -/
theorem WellShaped.classify_partition (ht : t.WellShaped) (hdefined : t.Defined)
    (htol : 0 ≤ tolerance) :
    (∀ j < t.numColumns, ∃ row?, unitRow tolerance t j = .ok row?
        ∧ ∀ r, row? = some r ↔ t.LooksUnit tolerance r j)
      ∧ ∃ c basic nonBasic listed, classify tolerance t = .ok c
        ∧ c.Sorts t tolerance basic nonBasic listed := by
  constructor
  · intro j hj
    refine ⟨_, ht.unitRow_eq tolerance hj, fun r => unitRowAt_iff_looksUnit fun i hi => ?_⟩
    refine Decimal.not_lt_iff_le ?_ (Decimal.isNaN_of_nonneg htol)
    exact (Decimal.isNaN_abs _).trans (hdefined.entry ht hi hj)
  · exact ⟨_, _, _, _, ht.classify_eq tolerance, ht.sorts_reading tolerance⟩

/-- At a tolerance of one half, the entry one half counts as 1 and as 0: the fourth column looks
    like no unit column, though its last entry is 1.  The first two columns look like one of the
    same row, and the third like one of the objective row. -/
def coarse : Tableau Float where
  rows := #[#[0, 0, 1, 0, 0.25, 0, 7], #[1, 1, 0, 0.5, -0.5, 1 / 0, 3],
    #[0, 0, 0, 1, 0.75, 0, 5]]
  columns := #[.structural 1, .structural 2, .structural 3, .structural 4, .slack 1, .slack 2]
  numStructural := 4
  numSlack := 2

theorem classify_partition_coarse :
    coarse.WellShaped ∧ coarse.Defined ∧ (0 : Float) ≤ 0.5
      ∧ coarse.LooksUnit 0.5 0 2 ∧ (∀ r, ¬coarse.LooksUnit 0.5 r 3) ∧ coarse.LooksUnit 0.5 2 4
      ∧ ∃ c basic nonBasic listed, classify 0.5 coarse = .ok c
        ∧ c.Sorts coarse 0.5 basic nonBasic listed
        ∧ c.basic.map (·.name) = ["x1", "xf1"]
        ∧ c.nonBasic.map (·.name) = ["x2", "x3", "x4", "xf2"] := by
  have ht : coarse.WellShaped := ⟨by decide, by decide⟩
  have hdefined : coarse.Defined := by
    unfold Defined
    decide +kernel
  have htol : (0 : Float) ≤ 0.5 := by decide +kernel
  have hthird : unitRow 0.5 coarse 2 = .ok (some 0) := by decide +kernel
  have hfourth : unitRow 0.5 coarse 3 = .ok none := by decide +kernel
  have hfifth : unitRow 0.5 coarse 4 = .ok (some 2) := by decide +kernel
  have hnames : (classify 0.5 coarse).toOption.map
      (fun c => (c.basic.map (·.name), c.nonBasic.map (·.name)))
        = some (["x1", "xf1"], ["x2", "x3", "x4", "xf2"]) := by decide +kernel
  obtain ⟨hunit, c, basic, nonBasic, listed, hclassify, hsorts⟩ :=
    ht.classify_partition hdefined htol
  -- what the scan of a column finds says what the column looks like
  have hlooks : ∀ j < coarse.numColumns, ∀ row?, unitRow 0.5 coarse j = .ok row? →
      ∀ r, row? = some r ↔ coarse.LooksUnit 0.5 r j := by
    intro j hj row? hrow
    obtain ⟨found, hfound, hiff⟩ := hunit j hj
    obtain rfl := Except.ok.inj (hrow.symm.trans hfound)
    exact hiff
  rw [hclassify] at hnames
  obtain ⟨hbasic, hnonBasic⟩ := Prod.mk.inj (Option.some.inj hnames)
  refine ⟨ht, hdefined, htol, (hlooks 2 (by decide) _ hthird 0).mp rfl, fun r hr => ?_,
    (hlooks 4 (by decide) _ hfifth 2).mp rfl, c, basic, nonBasic, listed, hclassify, hsorts,
    hbasic, hnonBasic⟩
  exact absurd ((hlooks 3 (by decide) _ hfourth r).mpr hr) nofun

end Tableau

end SimplexTableau

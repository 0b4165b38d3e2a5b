import SimplexTableau.Proofs.Verdict
import Mathlib.Order.Bounds.Basic
import Mathlib.Order.Filter.Extr

namespace SimplexTableau

/-!
# Which pivot is chosen

`Tableau.Justifies` says what a verdict tells of the entries.  Over fractions no two verdicts tell
the same of one tableau, so the entries determine the verdict:

* `LowestMin` — the lowest index at which a function has its minimum over a set;
* `enters_iff`, `leaves_iff` — the entering column and the leaving row as such indices, of the
  objective entries over all columns and of the ratios over the rows that take part;
* `Justifies.unique`, `select_eq_ok_iff` — a verdict is given exactly if it is justified;
* `select_exact` — the three verdicts by the entries alone.
-/

/-! ### The lowest index of a minimum -/

/-- `i` is the lowest index at which `f` has its minimum over `s`. -/
def LowestMin (s : Set Nat) (f : Nat → Rat) (i : Nat) : Prop :=
  IsLeast {k ∈ s | IsMinOn f s k} i

namespace LowestMin

variable {s : Set Nat} {f : Nat → Rat} {i j : Nat}

theorem unique (hi : LowestMin s f i) (hj : LowestMin s f j) : i = j :=
  IsLeast.unique hi hj

theorem mem (h : LowestMin s f i) : i ∈ s := h.1.1

theorem le (h : LowestMin s f i) (hj : j ∈ s) : f i ≤ f j :=
  isMinOn_iff.mp h.1.2 j hj

/-- Below the lowest index the values are greater. -/
theorem lt (h : LowestMin s f i) (hj : j ∈ s) (hji : j < i) : f i < f j := by
  refine lt_of_not_ge fun hle => ?_
  -- otherwise the minimum would also be attained there
  have hmin : IsMinOn f s j := isMinOn_iff.mpr fun k hk => hle.trans (h.le hk)
  have hij : i ≤ j := h.2 ⟨hj, hmin⟩
  omega

end LowestMin

/-- The lowest index of a minimum, by comparisons: no value is less, and every value before it is
    greater. -/
theorem lowestMin_iff {s : Set Nat} {f : Nat → Rat} {i : Nat} :
    LowestMin s f i ↔ i ∈ s ∧ (∀ j ∈ s, f i ≤ f j) ∧ ∀ j ∈ s, j < i → f i < f j := by
  constructor
  · intro h
    exact ⟨h.mem, fun j hj => h.le hj, fun j hj hji => h.lt hj hji⟩
  · rintro ⟨hi, hle, hlt⟩
    refine ⟨⟨hi, isMinOn_iff.mpr hle⟩, ?_⟩
    rintro j ⟨hj, hmin⟩
    by_contra hji
    exact absurd (isMinOn_iff.mp hmin i hi) (not_le.mpr (hlt j hj (not_le.mp hji)))

namespace Tableau

/-! ### Columns and rows that can be chosen -/

/-- Some variable can enter: its objective entry is below `-tolerance`. -/
def Improvable (t : Tableau Rat) (tolerance : Rat) : Prop :=
  ∃ j < t.rhsColumn, t.entry 0 j < -tolerance

/-- The rows that take part in the ratio test for column `c`: the constraint rows whose entry
    exceeds the tolerance. -/
def eligibleRows {K : Type} [Cell K] (t : Tableau K) (tolerance : K) (c : Nat) : Set Nat :=
  {i | (0 < i ∧ i < t.numRows) ∧ tolerance < t.entry i c}

variable {t : Tableau Rat} {tolerance : Rat} {c r : Nat} {verdict : Selection}

theorem eligibleRows_eq_empty_iff :
    t.eligibleRows tolerance c = ∅ ↔ ∀ i, 0 < i → i < t.numRows → t.entry i c ≤ tolerance := by
  simp only [Set.eq_empty_iff_forall_notMem, eligibleRows, Set.mem_ofPred_eq, not_and, not_lt,
    and_imp]

theorem not_improvable_iff :
    ¬t.Improvable tolerance ↔ ∀ j < t.rhsColumn, -tolerance ≤ t.entry 0 j := by
  simp only [Improvable, not_exists, not_and, not_lt]

/-- The column that enters is the lowest index of the least objective entry. -/
theorem enters_iff :
    t.Enters tolerance c
      ↔ t.Improvable tolerance ∧ LowestMin (Set.Iio t.rhsColumn) (t.entry 0) c := by
  constructor
  · intro h
    refine ⟨⟨c, h.column_lt, h.entry_lt⟩, lowestMin_iff.mpr ⟨h.column_lt, h.entry_le, ?_⟩⟩
    exact fun j _ hj => h.first j hj
  · rintro ⟨⟨j, hj, hentry⟩, hc⟩
    exact {
      column_lt := hc.mem
      entry_lt := lt_of_le_of_lt (hc.le hj) hentry
      entry_le := fun k hk => hc.le hk
      first := fun k hk => hc.lt (lt_trans hk hc.mem) hk }

/-- The row that leaves is the lowest index of the least ratio among the rows that take part. -/
theorem leaves_iff :
    t.Leaves tolerance c r ↔ LowestMin (t.eligibleRows tolerance c) (t.ratio c) r := by
  constructor
  · intro h
    refine lowestMin_iff.mpr ⟨⟨⟨h.row_pos, h.row_lt⟩, h.lt_entry⟩, ?_, ?_⟩
    · exact fun i hi => h.ratio_le i hi.1.1 hi.1.2 hi.2
    · exact fun i hi hir => h.first i hi.1.1 hir hi.2
  · intro h
    obtain ⟨⟨hr, hrn⟩, hentry⟩ := h.mem
    exact {
      row_pos := hr
      row_lt := hrn
      lt_entry := hentry
      ratio_le := fun i hi hin hi' => h.le ⟨⟨hi, hin⟩, hi'⟩
      first := fun i hi hir hi' => h.lt ⟨⟨hi, lt_trans hir hrn⟩, hi'⟩ hir }

theorem Enters.improvable (h : t.Enters tolerance c) : t.Improvable tolerance :=
  (enters_iff.mp h).1

theorem Enters.unique {c' : Nat} (h : t.Enters tolerance c) (h' : t.Enters tolerance c') :
    c = c' :=
  (enters_iff.mp h).2.unique (enters_iff.mp h').2

theorem Leaves.mem_eligibleRows (h : t.Leaves tolerance c r) : r ∈ t.eligibleRows tolerance c :=
  (leaves_iff.mp h).mem

theorem Leaves.unique {r' : Nat} (h : t.Leaves tolerance c r) (h' : t.Leaves tolerance c r') :
    r = r' :=
  (leaves_iff.mp h).unique (leaves_iff.mp h')

/-! ### The verdict is determined -/

theorem justifies_optimal_iff :
    t.Justifies tolerance .optimal ↔ ¬t.Improvable tolerance :=
  not_improvable_iff.symm

theorem justifies_unbounded_iff :
    t.Justifies tolerance (.unbounded c)
      ↔ t.Enters tolerance c ∧ t.eligibleRows tolerance c = ∅ :=
  and_congr_right' eligibleRows_eq_empty_iff.symm

/-- **No two verdicts are justified** by the same entries. -/
theorem Justifies.unique {v w : Selection} (hv : t.Justifies tolerance v)
    (hw : t.Justifies tolerance w) : v = w := by
  cases v with
  | optimal =>
    have hnot := justifies_optimal_iff.mp hv
    cases w with
    | optimal => rfl
    | pivot c r => exact absurd hw.1.improvable hnot
    | unbounded c => exact absurd hw.1.improvable hnot
  | pivot c r =>
    obtain ⟨henters, hleaves⟩ := hv
    cases w with
    | optimal => exact absurd henters.improvable (justifies_optimal_iff.mp hw)
    | pivot c' r' =>
      obtain rfl := henters.unique hw.1
      rw [hleaves.unique hw.2]
    | unbounded c' =>
      obtain ⟨henters', hempty⟩ := justifies_unbounded_iff.mp hw
      obtain rfl := henters.unique henters'
      exact absurd hleaves.mem_eligibleRows (hempty ▸ Set.notMem_empty r)
  | unbounded c =>
    obtain ⟨henters, hempty⟩ := justifies_unbounded_iff.mp hv
    cases w with
    | optimal => exact absurd henters.improvable (justifies_optimal_iff.mp hw)
    | pivot c' r' =>
      obtain rfl := henters.unique hw.1
      exact absurd hw.2.mem_eligibleRows (hempty ▸ Set.notMem_empty r')
    | unbounded c' => rw [henters.unique hw.1]

/-- A verdict is given exactly if the entries justify it. -/
theorem WellShaped.select_eq_ok_iff (ht : t.WellShaped) :
    select tolerance t = .ok verdict ↔ t.Justifies tolerance verdict := by
  refine ⟨ht.select_justified, fun h => ?_⟩
  obtain ⟨given, hgiven, -⟩ := select_ok ht tolerance
  rw [hgiven, (ht.select_justified hgiven).unique h]

/-- **The choice is exact.**  There always is a verdict.  It is "optimal" exactly if no objective
    entry of a variable is below `-tolerance`.  Otherwise its column is the lowest index of the
    least objective entry; it is "unbounded" exactly if no constraint row has an entry above the
    tolerance there, and else a pivot in the row that is the lowest index of the least ratio among
    those that have one. -/
theorem WellShaped.select_exact (ht : t.WellShaped) (tolerance : Rat) :
    ∃ verdict, select tolerance t = .ok verdict
      ∧ (verdict = .optimal ↔ ¬t.Improvable tolerance)
      ∧ (∀ c, verdict = .unbounded c
          ↔ t.Improvable tolerance ∧ LowestMin (Set.Iio t.rhsColumn) (t.entry 0) c
            ∧ t.eligibleRows tolerance c = ∅)
      ∧ ∀ c r, verdict = .pivot c r
          ↔ t.Improvable tolerance ∧ LowestMin (Set.Iio t.rhsColumn) (t.entry 0) c
            ∧ LowestMin (t.eligibleRows tolerance c) (t.ratio c) r := by
  obtain ⟨verdict, hselect, -⟩ := select_ok ht tolerance
  have hverdict : ∀ w, verdict = w ↔ t.Justifies tolerance w := by
    intro w
    rw [← ht.select_eq_ok_iff, hselect, Except.ok.injEq]
  refine ⟨verdict, hselect, ?_, fun c => ?_, fun c r => ?_⟩
  · rw [hverdict, justifies_optimal_iff]
  · rw [hverdict, justifies_unbounded_iff, enters_iff, and_assoc]
  · rw [hverdict, ← and_assoc, ← enters_iff, ← leaves_iff]
    rfl

/-- Two objective entries and three ratios are least, and the row with the least ratio of all does
    not take part. -/
def tied : Tableau Rat where
  rows := #[#[1, -3, -3, 0], #[1, 1, 0, 8], #[0, 2, 1, 6], #[0, 1 / 1000, 0, 0], #[2, 1, 5, 3],
    #[1, 4, 1, 12]]
  columns := #[.structural 1, .structural 2, .slack 1]
  numStructural := 2
  numSlack := 1

theorem select_exact_tied :
    tied.WellShaped ∧ tied.Improvable (1 / 1000)
      ∧ LowestMin (Set.Iio tied.rhsColumn) (tied.entry 0) 1
      ∧ LowestMin (tied.eligibleRows (1 / 1000) 1) (tied.ratio 1) 2
      ∧ select (1 / 1000) tied = .ok (.pivot 1 2) := by
  have ht : tied.WellShaped := ⟨by decide, by decide⟩
  have himprovable : tied.Improvable (1 / 1000) := ⟨1, by decide, by decide +kernel⟩
  have hcolumn : LowestMin (Set.Iio tied.rhsColumn) (tied.entry 0) 1 := by
    have hle : ∀ j < 3, tied.entry 0 1 ≤ tied.entry 0 j := by decide +kernel
    have hlt : ∀ j < 1, tied.entry 0 1 < tied.entry 0 j := by decide +kernel
    exact lowestMin_iff.mpr ⟨(by decide : 1 < tied.rhsColumn), hle, fun j _ hj => hlt j hj⟩
  have hrow : LowestMin (tied.eligibleRows (1 / 1000) 1) (tied.ratio 1) 2 := by
    have hmem : 1 / 1000 < tied.entry 2 1 := by decide +kernel
    have hle : ∀ i < 6, 1 / 1000 < tied.entry i 1 → tied.ratio 1 2 ≤ tied.ratio 1 i := by
      decide +kernel
    have hlt : ∀ i < 2, 0 < i → tied.ratio 1 2 < tied.ratio 1 i := by decide +kernel
    exact lowestMin_iff.mpr ⟨⟨⟨by decide, by decide⟩, hmem⟩, fun i hi => hle i hi.1.2 hi.2,
      fun i hi hir => hlt i hir hi.1.1⟩
  obtain ⟨verdict, hselect, -, -, hpivot⟩ := ht.select_exact (1 / 1000)
  rw [(hpivot 1 2).mpr ⟨himprovable, hcolumn, hrow⟩] at hselect
  exact ⟨ht, himprovable, hcolumn, hrow, hselect⟩

end Tableau

end SimplexTableau

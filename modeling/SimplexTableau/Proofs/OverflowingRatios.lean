import SimplexTableau.Proofs.Choices
import SimplexTableau.Proofs.Overflow
import SimplexTableau.Proofs.Quotients

namespace SimplexTableau

/-!
# Ratios that overflow

The ratio test takes only what is below the top of the arithmetic.  Among fractions nothing is at
the top, but a quotient of finite doubles may be, and then its row is passed by although it takes
part:

* `leavingRow_eq_none_iff` — no row leaves exactly if no ratio of an eligible row is below the top;
* `Tableau.RatioOverflows` — the exact ratio of a row is too great for a double;
* `unbounded_iff_ratios_overflow` — a column of finite doubles is said to be without limit exactly
  if all its ratios overflow, and not only if it has none.
-/

namespace Tableau

/-! ### No row leaves -/

/-- No row leaves exactly if no eligible row has a ratio below the top of the arithmetic. -/
theorem WellShaped.leavingRow_eq_none_iff {K : Type} [Cell K] {t : Tableau K} (ht : t.WellShaped)
    {tolerance : K} {c : Nat} (hc : c < t.numColumns) :
    leavingRow tolerance t c = .ok none
      ↔ ∀ i ∈ t.eligibleRows tolerance c,
        (Least.below Cell.top?).admits (t.entry i t.rhsColumn / t.entry i c) = false := by
  rw [ht.leavingRow_eq tolerance hc, Except.ok.injEq, Least.index?_scan_eq_none_iff]
  constructor
  · intro h i hi
    exact h (_, i) (mem_ratios.mpr ⟨hi.1, hi.2, rfl⟩)
  · rintro h ⟨v, i⟩ hmem
    obtain ⟨hi, hentry, rfl⟩ := mem_ratios.mp hmem
    exact h i ⟨hi, hentry⟩

/-! ### Finite doubles -/

variable {t : Tableau Float} {tolerance : Float} {c i : Nat}

/-- The exact ratio of row `i` for column `c` is too great for a double. -/
def RatioOverflows (t : Tableau Float) (c i : Nat) : Prop :=
  Decimal.overflowBound
    ≤ Decimal.value (t.entry i t.rhsColumn) / Decimal.value (t.entry i c)

theorem Finite.entry_of_wellShaped (hfinite : t.Finite) (ht : t.WellShaped) (hi : i < t.numRows)
    (hc : c < t.numColumns) : (t.entry i c).isFinite = true := by
  refine hfinite.entry hi ?_
  rwa [ht.size_getElem hi]

/-- The ratio of an eligible row is below infinity unless it overflows. -/
theorem Finite.ratio_lt_infinity_iff (hfinite : t.Finite) (ht : t.WellShaped)
    (htol : 0 ≤ tolerance) (hc : c < t.numColumns) (hi : i ∈ t.eligibleRows tolerance c) :
    t.entry i t.rhsColumn / t.entry i c < 1 / 0 ↔ ¬t.RatioOverflows c i := by
  obtain ⟨⟨-, hrow⟩, hentry⟩ := hi
  rw [RatioOverflows, not_le]
  exact Decimal.div_lt_infinity_iff (hfinite.entry_of_wellShaped ht hrow t.rhsColumn_lt_numColumns)
    (hfinite.entry_of_wellShaped ht hrow hc) (Decimal.pos_of_lt htol hentry)

/-- No row leaves exactly if the ratios of all eligible rows overflow. -/
theorem Finite.leavingRow_eq_none_iff (hfinite : t.Finite) (ht : t.WellShaped)
    (htol : 0 ≤ tolerance) (hc : c < t.numColumns) :
    leavingRow tolerance t c = .ok none
      ↔ ∀ i ∈ t.eligibleRows tolerance c, t.RatioOverflows c i := by
  rw [ht.leavingRow_eq_none_iff hc]
  refine forall₂_congr fun i hi => ?_
  show decide (t.entry i t.rhsColumn / t.entry i c < 1 / 0) = false ↔ _
  rw [decide_eq_false_iff_not, hfinite.ratio_lt_infinity_iff ht htol hc hi, not_not]

/-- **Columns without limit.**  In a tableau of finite doubles no row leaves for a column exactly if
    the ratios of all its eligible rows overflow, and a column that enters is said to be without
    limit exactly then.  So "no row leaves" says as much as "no row is eligible" except for a column
    with eligible rows whose ratios all overflow. -/
theorem WellShaped.unbounded_iff_ratios_overflow (ht : t.WellShaped) (hfinite : t.Finite)
    (htol : 0 ≤ tolerance) :
    (∀ c < t.numColumns,
        (leavingRow tolerance t c = .ok none
          ↔ ∀ i ∈ t.eligibleRows tolerance c, t.RatioOverflows c i)
        ∧ ((leavingRow tolerance t c = .ok none ↔ t.eligibleRows tolerance c = ∅)
          ↔ t.eligibleRows tolerance c = ∅
            ∨ ∃ i ∈ t.eligibleRows tolerance c, ¬t.RatioOverflows c i))
      ∧ ∀ c, select tolerance t = .ok (.unbounded c)
        ↔ enteringColumn tolerance t = .ok (some c)
          ∧ ∀ i ∈ t.eligibleRows tolerance c, t.RatioOverflows c i := by
  refine ⟨fun c hc => ⟨hfinite.leavingRow_eq_none_iff ht htol hc, ?_⟩, fun c => ?_⟩
  · rw [hfinite.leavingRow_eq_none_iff ht htol hc]
    constructor
    · intro hiff
      by_contra hnone
      obtain ⟨heligible, hoverflow⟩ := not_or.mp hnone
      refine heligible (hiff.mp fun i hi => ?_)
      by_contra hi'
      exact hoverflow ⟨i, hi, hi'⟩
    · rintro (hempty | ⟨i, hi, hfits⟩)
      · refine iff_of_true (fun i hi => ?_) hempty
        exact absurd (hempty ▸ hi) (Set.notMem_empty i)
      · refine iff_of_false (fun h => hfits (h i hi)) fun hempty => ?_
        exact absurd (hempty ▸ hi) (Set.notMem_empty i)
  · rw [select_eq_unbounded_iff]
    refine and_congr_right fun hcolumn => ?_
    exact hfinite.leavingRow_eq_none_iff ht htol (lt_numColumns (ht.enteringColumn_lt hcolumn))

/-- Every ratio of the first column overflows; of the two of the second column one does not. -/
def steep : Tableau Float where
  rows := #[#[-2, -1, 0, 0, 0], #[1e-8, 1e-8, 1, 0, 1e308], #[1e-9, 1, 0, 1, 7]]
  columns := #[.structural 1, .structural 2, .slack 1, .slack 2]
  numStructural := 2
  numSlack := 2

theorem steep_finite : steep.Finite := by
  unfold Finite
  decide +kernel

theorem unbounded_iff_ratios_overflow_steep :
    steep.WellShaped ∧ steep.Finite ∧ (0 : Float) ≤ 1e-9
      ∧ (∀ i ∈ steep.eligibleRows 1e-9 0, steep.RatioOverflows 0 i)
      ∧ (∃ i ∈ steep.eligibleRows 1e-9 1, ¬steep.RatioOverflows 1 i)
      ∧ select 1e-9 steep = .ok (.unbounded 0) := by
  have ht : steep.WellShaped := ⟨by decide, by decide⟩
  have htol : (0 : Float) ≤ 1e-9 := by decide +kernel
  have hfirst : leavingRow 1e-9 steep 0 = .ok none := by decide +kernel
  have hsecond : leavingRow 1e-9 steep 1 ≠ .ok none := by decide +kernel
  have henters : enteringColumn 1e-9 steep = .ok (some 0) := by decide +kernel
  obtain ⟨hleaving, hunbounded⟩ := ht.unbounded_iff_ratios_overflow steep_finite htol
  have hoverflow := (hleaving 0 (by decide)).1.mp hfirst
  have hfits := mt (hleaving 1 (by decide)).1.mpr hsecond
  push Not at hfits
  exact ⟨ht, steep_finite, htol, hoverflow, hfits, (hunbounded 0).mpr ⟨henters, hoverflow⟩⟩

/-- A ratio that overflows hides its row: the entry exceeds the tolerance, yet no row leaves, and
    the column is said to be without limit. -/
theorem steep_unbounded_with_eligible_row :
    steep.WellShaped ∧ steep.Finite ∧ 1 ∈ steep.eligibleRows 1e-9 0
      ∧ leavingRow 1e-9 steep 0 = .ok none ∧ select 1e-9 steep = .ok (.unbounded 0) := by
  have ht : steep.WellShaped := ⟨by decide, by decide⟩
  have hentry : (1e-9 : Float) < steep.entry 1 0 := by decide +kernel
  have hleaving : leavingRow 1e-9 steep 0 = .ok none := by decide +kernel
  have hselect : select 1e-9 steep = .ok (.unbounded 0) := by decide +kernel
  exact ⟨ht, steep_finite, ⟨⟨by decide, by decide⟩, hentry⟩, hleaving, hselect⟩

end Tableau

end SimplexTableau

import SimplexTableau.Proofs.Elimination
import SimplexTableau.Selection
import Mathlib.Data.List.Induction
import Mathlib.Tactic.Linarith

namespace SimplexTableau

/-!
# What a verdict says

The two rules of a pivot are scans for a least value.  On a tableau with room both scans
succeed, and over fractions they are characterized by order alone:

* `Least.scan` — the running minimum over a list of candidates; `index?_scan_eq_none_iff`: it is
  found if any candidate is below the bound, and by `scan_spec` it is the first of the least ones;
* `enteringColumn_eq`, `leavingRow_eq` — the two rules as scans of the table's entries, whatever
  the arithmetic; `select_ok`: the verdict exists and lies inside the table;
* `Tableau.Enters`, `Tableau.Leaves` — the least objective entry and the least ratio, each the
  first of its kind;
* `select_justified` — the verdict of a well-shaped tableau over fractions is justified by its
  entries.
-/

/-! ### Running minima -/

namespace Least

variable {K : Type} [Cell K]

/-- The running minimum over candidates, each a value with its index. -/
def scan (bound? : Option K) (l : List (K × Nat)) : Least K :=
  l.foldl (fun best e => best.offer e.1 e.2) (below bound?)

@[simp] theorem scan_nil (bound? : Option K) : scan bound? [] = below bound? := rfl

@[simp] theorem scan_append_singleton (bound? : Option K) (l : List (K × Nat)) (e : K × Nat) :
    scan bound? (l ++ [e]) = (scan bound? l).offer e.1 e.2 := by
  simp [scan]

/-- What a scan finds is a candidate. -/
theorem exists_mem_of_index {bound? : Option K} {l : List (K × Nat)} {i : Nat}
    (h : (scan bound? l).index? = some i) : ∃ v, (v, i) ∈ l := by
  induction l using List.reverseRecOn with
  | nil => simp [below] at h
  | append_singleton l e ih =>
    rw [scan_append_singleton, offer] at h
    split at h
    · exact ⟨e.1, by simp [← Option.some.inj h]⟩
    · obtain ⟨v, hv⟩ := ih h
      exact ⟨v, List.mem_append_left _ hv⟩

/-- A scan stays as it was until a candidate is below its bound. -/
theorem scan_cases (bound? : Option K) (l : List (K × Nat)) :
    (scan bound? l = below bound? ∧ ∀ e ∈ l, (below bound?).admits e.1 = false)
      ∨ (∃ i, (scan bound? l).index? = some i) ∧ ∃ e ∈ l, (below bound?).admits e.1 = true := by
  induction l using List.reverseRecOn with
  | nil => exact .inl ⟨rfl, by simp⟩
  | append_singleton l e ih =>
    rw [scan_append_singleton, offer]
    rcases ih with ⟨hscan, hnone⟩ | ⟨⟨i, hindex⟩, a, ha, hadmit⟩
    · rw [hscan]
      cases hadmit : (below bound?).admits e.1 with
      | true => exact .inr ⟨⟨e.2, rfl⟩, e, by simp, hadmit⟩
      | false =>
        exact .inl ⟨rfl, List.forall_mem_append.mpr ⟨hnone, List.forall_mem_singleton.mpr hadmit⟩⟩
    · refine .inr ⟨?_, a, List.mem_append_left _ ha, hadmit⟩
      split
      · exact ⟨e.2, rfl⟩
      · exact ⟨i, hindex⟩

/-- A scan finds nothing exactly if no candidate is below its bound. -/
theorem index?_scan_eq_none_iff {bound? : Option K} {l : List (K × Nat)} :
    (scan bound? l).index? = none ↔ ∀ e ∈ l, (below bound?).admits e.1 = false := by
  rcases scan_cases bound? l with ⟨hscan, hnone⟩ | ⟨⟨i, hindex⟩, e, he, hadmit⟩
  · exact iff_of_true (by rw [hscan]; rfl) hnone
  · refine iff_of_false (by simp [hindex]) fun hnone => ?_
    simp [hnone e he] at hadmit

/-- A candidate below the bound makes a scan find something. -/
theorem exists_index_of_mem {bound? : Option K} {l : List (K × Nat)} {e : K × Nat} (he : e ∈ l)
    (hbelow : (below bound?).admits e.1 = true) : ∃ i, (scan bound? l).index? = some i := by
  rw [← Option.ne_none_iff_exists', Ne, index?_scan_eq_none_iff]
  intro hnone
  simp [hnone e he] at hbelow

/-- `v` at index `i` is the least candidate, it is below the bound, and no candidate with a lower
    index attains it. -/
structure Attains (bound? : Option Rat) (l : List (Rat × Nat)) (v : Rat) (i : Nat) : Prop where
  /-- It is a candidate. -/
  mem : (v, i) ∈ l
  /-- It is below the bound, if there is one. -/
  lt_bound : ∀ b, bound? = some b → v < b
  /-- No candidate is less. -/
  le : ∀ e ∈ l, v ≤ e.1
  /-- Every candidate with a lower index is greater. -/
  lt : ∀ e ∈ l, e.2 < i → v < e.1

/-- A last candidate that is less than all before it is the least. -/
theorem attains_last {bound? : Option Rat} {l : List (Rat × Nat)} {e : Rat × Nat}
    (hbound : ∀ b, bound? = some b → e.1 < b) (hlt : ∀ a ∈ l, e.1 < a.1) :
    Attains bound? (l ++ [e]) e.1 e.2 where
  mem := List.mem_append_right _ (List.mem_singleton_self e)
  lt_bound := hbound
  le := List.forall_mem_append.mpr
    ⟨fun a ha => (hlt a ha).le, List.forall_mem_singleton.mpr le_rfl⟩
  lt := List.forall_mem_append.mpr
    ⟨fun a ha _ => hlt a ha, List.forall_mem_singleton.mpr fun h => absurd h (lt_irrefl _)⟩

/-- A last candidate that is not less leaves the first of the least ones as it is. -/
theorem Attains.append_singleton {bound? : Option Rat} {l : List (Rat × Nat)} {v : Rat} {i : Nat}
    {e : Rat × Nat} (h : Attains bound? l v i) (hi : i < e.2) (hv : v ≤ e.1) :
    Attains bound? (l ++ [e]) v i where
  mem := List.mem_append_left _ h.mem
  lt_bound := h.lt_bound
  le := List.forall_mem_append.mpr ⟨h.le, List.forall_mem_singleton.mpr hv⟩
  lt := List.forall_mem_append.mpr
    ⟨h.lt, List.forall_mem_singleton.mpr fun he => absurd he (by omega)⟩

/-- **Running minima.** A scan of candidates in the order of their indices keeps its bound if all
    of them reach it; otherwise it ends at the first of the least ones. -/
theorem scan_spec (bound? : Option Rat) {l : List (Rat × Nat)}
    (hl : l.Pairwise fun a b => a.2 < b.2) :
    (scan bound? l = below bound? ∧ ∀ e ∈ l, ∃ b, bound? = some b ∧ b ≤ e.1)
      ∨ ∃ v i, scan bound? l = ⟨some v, some i⟩ ∧ Attains bound? l v i := by
  induction l using List.reverseRecOn with
  | nil => exact .inl ⟨rfl, by simp⟩
  | append_singleton l e ih =>
    obtain ⟨hl, -, hlast⟩ := List.pairwise_append.mp hl
    rw [scan_append_singleton]
    rcases ih hl with ⟨hscan, hreach⟩ | ⟨v, i, hscan, hleast⟩
    · -- nothing was below the bound so far
      rw [hscan, offer]
      by_cases hadmit : (below bound?).admits e.1 = true
      · have hbound : ∀ b, bound? = some b → e.1 < b := by
          intro b hb
          simpa [below, admits, hb] using hadmit
        refine .inr ⟨e.1, e.2, by rw [if_pos hadmit], attains_last hbound fun a ha => ?_⟩
        obtain ⟨b, hb, hba⟩ := hreach a ha
        exact lt_of_lt_of_le (hbound b hb) hba
      · refine .inl ⟨by rw [if_neg hadmit],
          List.forall_mem_append.mpr ⟨hreach, List.forall_mem_singleton.mpr ?_⟩⟩
        cases hb : bound? with
        | none => simp [below, admits, hb] at hadmit
        | some b => exact ⟨b, rfl, not_lt.mp (by simpa [below, admits, hb] using hadmit)⟩
    · -- `v` is the least so far, and only a smaller value replaces it
      rw [hscan, offer]
      by_cases hadmit : e.1 < v
      · refine .inr ⟨e.1, e.2, by rw [if_pos (by simpa [admits] using hadmit)],
          attains_last (fun b hb => lt_trans hadmit (hleast.lt_bound b hb)) fun a ha => ?_⟩
        exact lt_of_lt_of_le hadmit (hleast.le a ha)
      · have hlater : i < e.2 := hlast _ hleast.mem e (List.mem_singleton_self e)
        exact .inr ⟨v, i, by rw [if_neg (by simpa [admits] using hadmit)],
          hleast.append_singleton hlater (not_lt.mp hadmit)⟩

end Least

/-! ### The two rules as scans -/

namespace Tableau

section Scans

variable {K : Type} [Cell K] {t : Tableau K}

/-- The candidates of the entering rule: the objective entries with their columns. -/
def objectiveEntries (t : Tableau K) : List (K × Nat) :=
  (List.range t.rhsColumn).map fun j => (t.entry 0 j, j)

/-- The candidates of the leaving rule: the ratios of the constraint rows whose entry exceeds the
    tolerance. -/
def ratios (t : Tableau K) (tolerance : K) (column : Nat) : List (K × Nat) :=
  ((List.range' 1 (t.numRows - 1)).filter fun i => tolerance < t.entry i column).map
    fun i => (t.entry i t.rhsColumn / t.entry i column, i)

theorem mem_objectiveEntries {v : K} {j : Nat} :
    (v, j) ∈ t.objectiveEntries ↔ j < t.rhsColumn ∧ v = t.entry 0 j := by
  simp only [objectiveEntries, List.mem_map, List.mem_range, Prod.mk.injEq]
  constructor
  · rintro ⟨k, hk, hv, rfl⟩
    exact ⟨hk, hv.symm⟩
  · rintro ⟨hj, hv⟩
    exact ⟨j, hj, hv.symm, rfl⟩

theorem mem_ratios {tolerance v : K} {column i : Nat} :
    (v, i) ∈ t.ratios tolerance column
      ↔ (0 < i ∧ i < t.numRows) ∧ tolerance < t.entry i column
        ∧ v = t.entry i t.rhsColumn / t.entry i column := by
  simp only [ratios, List.mem_map, List.mem_filter, List.mem_range'_1, decide_eq_true_eq,
    Prod.mk.injEq]
  constructor
  · rintro ⟨k, ⟨hk, hentry⟩, hv, rfl⟩
    exact ⟨by omega, hentry, hv.symm⟩
  · rintro ⟨hi, hentry, hv⟩
    exact ⟨i, ⟨by omega, hentry⟩, hv.symm, rfl⟩

theorem pairwise_objectiveEntries (t : Tableau K) :
    t.objectiveEntries.Pairwise fun a b => a.2 < b.2 :=
  List.pairwise_map.mpr List.pairwise_lt_range

theorem pairwise_ratios (t : Tableau K) (tolerance : K) (column : Nat) :
    (t.ratios tolerance column).Pairwise fun a b => a.2 < b.2 :=
  List.pairwise_map.mpr (List.Pairwise.filter _ List.pairwise_lt_range')

theorem Roomy.enteringColumn_eq (ht : t.Roomy) (tolerance : K) :
    enteringColumn tolerance t
      = .ok (Least.scan (some (-tolerance)) t.objectiveEntries).index? := by
  have hzip : ((List.range t.rhsColumn).map (t.entry 0)).zipIdx = t.objectiveEntries := by
    refine List.ext_getElem (by simp [objectiveEntries]) fun j _ _ => ?_
    simp [objectiveEntries]
  rw [enteringColumn, ht.objectiveCells_eq, ok_bind, hzip]
  rfl

theorem WellShaped.enteringColumn_eq (ht : t.WellShaped) (tolerance : K) :
    enteringColumn tolerance t
      = .ok (Least.scan (some (-tolerance)) t.objectiveEntries).index? :=
  ht.roomy.enteringColumn_eq tolerance

/-- The leaving rule looks at the cells of the column and the right-hand sides, no others. -/
theorem leavingRow_eq_of_cells (tolerance : K) {column : Nat}
    (hcells : ∀ i, 0 < i → i < t.numRows → t.cell i column = .ok (t.entry i column)
      ∧ t.rhs i = .ok (t.entry i t.rhsColumn)) :
    leavingRow tolerance t column
      = .ok (Least.scan Cell.top? (t.ratios tolerance column)).index? := by
  -- each step offers the ratio of a row, if the row takes part
  have hstep : ∀ best : Least K, ∀ i ∈ List.range' 1 (t.numRows - 1),
      offerRatio tolerance t column best i
        = .ok (if tolerance < t.entry i column
            then best.offer (t.entry i t.rhsColumn / t.entry i column) i else best) := by
    intro best i hi
    have hrange := List.mem_range'_1.mp hi
    obtain ⟨hcell, hrhs⟩ := hcells i (by omega) (by omega)
    rw [offerRatio, hcell, ok_bind]
    by_cases hentry : tolerance < t.entry i column
    · rw [if_pos hentry, if_pos hentry, hrhs, ok_bind, pure_eq_ok]
    · rw [if_neg hentry, if_neg hentry, pure_eq_ok]
  rw [leavingRow, foldlM_eq_ok hstep, ok_bind, Least.scan, ratios, List.foldl_map,
    List.foldl_filter]
  simp

theorem WellShaped.leavingRow_eq (ht : t.WellShaped) (tolerance : K) {column : Nat}
    (hc : column < t.numColumns) :
    leavingRow tolerance t column
      = .ok (Least.scan Cell.top? (t.ratios tolerance column)).index? :=
  leavingRow_eq_of_cells tolerance fun _ _ hi => ⟨ht.cell_eq hi hc, ht.rhs_eq hi⟩

theorem Roomy.leavingRow_eq (ht : t.Roomy) (tolerance : K) {column : Nat}
    (hc : column < t.rhsColumn) :
    leavingRow tolerance t column
      = .ok (Least.scan Cell.top? (t.ratios tolerance column)).index? := by
  have hvariable : 0 < t.rhsColumn := Nat.zero_lt_of_lt hc
  exact leavingRow_eq_of_cells tolerance fun i _ hi =>
    ⟨ht.cell_eq hi hc.le (.inr hvariable), ht.rhs_eq hi (.inr hvariable)⟩

/-- A chosen column belongs to a variable. -/
theorem Roomy.enteringColumn_lt (ht : t.Roomy) {tolerance : K} {c : Nat}
    (h : enteringColumn tolerance t = .ok (some c)) : c < t.rhsColumn := by
  rw [ht.enteringColumn_eq] at h
  obtain ⟨v, hv⟩ := Least.exists_mem_of_index (Except.ok.inj h)
  exact (mem_objectiveEntries.mp hv).1

theorem WellShaped.enteringColumn_lt (ht : t.WellShaped) {tolerance : K} {c : Nat}
    (h : enteringColumn tolerance t = .ok (some c)) : c < t.rhsColumn :=
  ht.roomy.enteringColumn_lt h

/-- The row that the scan of the ratios finds is a constraint row with an entry above the
    tolerance. -/
theorem mem_of_scan_ratios {tolerance : K} {c r : Nat}
    (h : (Least.scan Cell.top? (t.ratios tolerance c)).index? = some r) :
    (0 < r ∧ r < t.numRows) ∧ tolerance < t.entry r c := by
  obtain ⟨v, hv⟩ := Least.exists_mem_of_index h
  have hmem := mem_ratios.mp hv
  exact ⟨hmem.1, hmem.2.1⟩

/-- A chosen row is a constraint row with an entry above the tolerance. -/
theorem WellShaped.leavingRow_mem (ht : t.WellShaped) {tolerance : K} {c r : Nat}
    (hc : c < t.numColumns) (h : leavingRow tolerance t c = .ok (some r)) :
    (0 < r ∧ r < t.numRows) ∧ tolerance < t.entry r c := by
  rw [ht.leavingRow_eq tolerance hc] at h
  exact mem_of_scan_ratios (Except.ok.inj h)

end Scans

end Tableau

/-! ### The verdict of the two rules -/

section Verdicts

variable {K : Type} [Cell K] {t : Tableau K} {tolerance : K} {c r : Nat}

theorem select_of_no_column (h : enteringColumn tolerance t = .ok none) :
    select tolerance t = .ok .optimal := by
  rw [select, h, ok_bind, pure_eq_ok]

theorem select_of_row (hcolumn : enteringColumn tolerance t = .ok (some c))
    (hrow : leavingRow tolerance t c = .ok (some r)) :
    select tolerance t = .ok (.pivot c r) := by
  simp only [select, hcolumn, ok_bind, hrow, pure_eq_ok]

theorem select_of_no_row (hcolumn : enteringColumn tolerance t = .ok (some c))
    (hrow : leavingRow tolerance t c = .ok none) : select tolerance t = .ok (.unbounded c) := by
  simp only [select, hcolumn, ok_bind, hrow, pure_eq_ok]

/-- A column is said to be without limit exactly if it enters and no row leaves. -/
theorem select_eq_unbounded_iff :
    select tolerance t = .ok (.unbounded c)
      ↔ enteringColumn tolerance t = .ok (some c) ∧ leavingRow tolerance t c = .ok none := by
  refine ⟨fun h => ?_, fun ⟨hcolumn, hrow⟩ => select_of_no_row hcolumn hrow⟩
  obtain ⟨column?, hcolumn, hverdict⟩ := bind_eq_ok_iff.mp h
  cases column? with
  | none => exact absurd (Except.ok.inj hverdict) nofun
  | some d =>
    obtain ⟨row?, hrow, hverdict⟩ := bind_eq_ok_iff.mp hverdict
    cases row? with
    | some r => exact absurd (Except.ok.inj hverdict) nofun
    | none =>
      obtain rfl := Selection.unbounded.inj (Except.ok.inj hverdict)
      exact ⟨hcolumn, hrow⟩

end Verdicts

/-! ### The verdict inside the table -/

/-- The column and the row of a verdict lie inside the table, below the objective row and left of
    the right-hand side. -/
def Selection.Inside {K : Type} (t : Tableau K) : Selection → Prop
  | .optimal => True
  | .pivot column row => column < t.rhsColumn ∧ 0 < row ∧ row < t.numRows
  | .unbounded column => column < t.rhsColumn

/-- **Every tableau with room has a verdict**, and what the verdict names is there. -/
theorem Tableau.Roomy.select_ok {K : Type} [Cell K] {t : Tableau K} (ht : t.Roomy)
    (tolerance : K) : ∃ verdict, select tolerance t = .ok verdict ∧ verdict.Inside t := by
  cases hcolumn : enteringColumn tolerance t with
  | error e => simp [ht.enteringColumn_eq] at hcolumn
  | ok column? =>
    cases column? with
    | none => exact ⟨.optimal, select_of_no_column hcolumn, trivial⟩
    | some c =>
      have hc := ht.enteringColumn_lt hcolumn
      have hrow := ht.leavingRow_eq tolerance hc
      cases hscan : (Least.scan Cell.top? (t.ratios tolerance c)).index? with
      | none =>
        rw [hscan] at hrow
        exact ⟨.unbounded c, select_of_no_row hcolumn hrow, hc⟩
      | some r =>
        rw [hscan] at hrow
        exact ⟨.pivot c r, select_of_row hcolumn hrow, hc, (Tableau.mem_of_scan_ratios hscan).1⟩

/-- A well-shaped tableau has a verdict. -/
theorem select_ok {K : Type} [Cell K] {t : Tableau K} (ht : t.WellShaped) (tolerance : K) :
    ∃ verdict, select tolerance t = .ok verdict ∧ verdict.Inside t :=
  ht.roomy.select_ok tolerance

/-! ### The verdict over fractions -/

namespace Tableau

variable {t : Tableau Rat} {tolerance : Rat} {c r : Nat}

/-- The ratio of row `i` for column `c`: its right-hand side by its entry. -/
def ratio (t : Tableau Rat) (c i : Nat) : Rat := t.entry i t.rhsColumn / t.entry i c

/-- Column `c` enters: its objective entry is below `-tolerance` and is the first least one. -/
structure Enters (t : Tableau Rat) (tolerance : Rat) (c : Nat) : Prop where
  /-- It belongs to a variable. -/
  column_lt : c < t.rhsColumn
  /-- Its objective entry is negative enough. -/
  entry_lt : t.entry 0 c < -tolerance
  /-- No objective entry is less. -/
  entry_le : ∀ j < t.rhsColumn, t.entry 0 c ≤ t.entry 0 j
  /-- The columns before it have greater objective entries. -/
  first : ∀ j < c, t.entry 0 c < t.entry 0 j

/-- Row `r` leaves for column `c`: its entry exceeds the tolerance, and its ratio is the first
    least one among the rows whose entry does. -/
structure Leaves (t : Tableau Rat) (tolerance : Rat) (c r : Nat) : Prop where
  /-- It is not the objective row. -/
  row_pos : 0 < r
  /-- It is a row of the table. -/
  row_lt : r < t.numRows
  /-- Its entry takes part. -/
  lt_entry : tolerance < t.entry r c
  /-- No row that takes part has a smaller ratio. -/
  ratio_le : ∀ i, 0 < i → i < t.numRows → tolerance < t.entry i c → t.ratio c r ≤ t.ratio c i
  /-- The rows before it have greater ratios. -/
  first : ∀ i, 0 < i → i < r → tolerance < t.entry i c → t.ratio c r < t.ratio c i

/-- At a tolerance that is not negative, the pivot element is positive. -/
theorem Leaves.entry_pos (h : t.Leaves tolerance c r) (htol : 0 ≤ tolerance) :
    0 < t.entry r c :=
  lt_of_le_of_lt htol h.lt_entry

/-- What a verdict claims of the entries. -/
def Justifies (t : Tableau Rat) (tolerance : Rat) : Selection → Prop
  | .optimal => ∀ j < t.rhsColumn, -tolerance ≤ t.entry 0 j
  | .pivot c r => t.Enters tolerance c ∧ t.Leaves tolerance c r
  | .unbounded c =>
    t.Enters tolerance c ∧ ∀ i, 0 < i → i < t.numRows → t.entry i c ≤ tolerance

/-- The entering rule: the first least objective entry, or none below `-tolerance`. -/
theorem WellShaped.enteringColumn_spec (ht : t.WellShaped) (tolerance : Rat) :
    (enteringColumn tolerance t = .ok none ∧ ∀ j < t.rhsColumn, -tolerance ≤ t.entry 0 j)
      ∨ ∃ c, enteringColumn tolerance t = .ok (some c) ∧ t.Enters tolerance c := by
  have hmem : ∀ j < t.rhsColumn, (t.entry 0 j, j) ∈ t.objectiveEntries :=
    fun j hj => mem_objectiveEntries.mpr ⟨hj, rfl⟩
  rw [ht.enteringColumn_eq]
  rcases Least.scan_spec (some (-tolerance)) t.pairwise_objectiveEntries with
    ⟨hscan, hreach⟩ | ⟨v, c, hscan, hleast⟩
  · refine .inl ⟨by rw [hscan]; rfl, fun j hj => ?_⟩
    obtain ⟨b, hb, hle⟩ := hreach _ (hmem j hj)
    rwa [Option.some.inj hb]
  · obtain ⟨hc, rfl⟩ := mem_objectiveEntries.mp hleast.mem
    exact .inr ⟨c, by rw [hscan],
      { column_lt := hc
        entry_lt := hleast.lt_bound (-tolerance) rfl
        entry_le := fun j hj => hleast.le (t.entry 0 j, j) (hmem j hj)
        first := fun j hj => hleast.lt (t.entry 0 j, j) (hmem j (lt_trans hj hc)) hj }⟩

/-- The leaving rule: the first least ratio among the rows that take part, or no such row. -/
theorem WellShaped.leavingRow_spec (ht : t.WellShaped) (tolerance : Rat) (hc : c < t.numColumns) :
    (leavingRow tolerance t c = .ok none
        ∧ ∀ i, 0 < i → i < t.numRows → t.entry i c ≤ tolerance)
      ∨ ∃ r, leavingRow tolerance t c = .ok (some r) ∧ t.Leaves tolerance c r := by
  have hmem : ∀ i, 0 < i → i < t.numRows → tolerance < t.entry i c →
      (t.ratio c i, i) ∈ t.ratios tolerance c :=
    fun i hi hin hentry => mem_ratios.mpr ⟨⟨hi, hin⟩, hentry, rfl⟩
  rw [ht.leavingRow_eq tolerance hc]
  rcases Least.scan_spec Cell.top? (t.pairwise_ratios tolerance c) with
    ⟨hscan, hreach⟩ | ⟨v, r, hscan, hleast⟩
  · refine .inl ⟨by rw [hscan]; rfl, fun i hi hin => not_lt.mp fun hentry => ?_⟩
    -- fractions have no top, so every candidate would have been admitted
    obtain ⟨b, hb, -⟩ := hreach _ (hmem i hi hin hentry)
    simp at hb
  · obtain ⟨⟨hr, hrn⟩, hentry, hv⟩ := mem_ratios.mp hleast.mem
    have hv : v = t.ratio c r := hv
    subst hv
    exact .inr ⟨r, by rw [hscan],
      { row_pos := hr
        row_lt := hrn
        lt_entry := hentry
        ratio_le := fun i hi hin hi' => hleast.le (t.ratio c i, i) (hmem i hi hin hi')
        first := fun i hi hir hi' =>
          hleast.lt (t.ratio c i, i) (hmem i hi (lt_trans hir hrn) hi') hir }⟩

/-- **Verdicts are justified.** Over fractions, what the verdict claims of the entries holds. -/
theorem WellShaped.select_justified (ht : t.WellShaped) {verdict : Selection}
    (h : select tolerance t = .ok verdict) : t.Justifies tolerance verdict := by
  rcases ht.enteringColumn_spec tolerance with ⟨hcolumn, hoptimal⟩ | ⟨c, hcolumn, henters⟩
  · rw [select_of_no_column hcolumn] at h
    rw [← Except.ok.inj h]
    exact hoptimal
  · rcases ht.leavingRow_spec tolerance (lt_numColumns henters.column_lt) with
      ⟨hrow, hnone⟩ | ⟨r, hrow, hleaves⟩
    · rw [select_of_no_row hcolumn hrow] at h
      rw [← Except.ok.inj h]
      exact ⟨henters, hnone⟩
    · rw [select_of_row hcolumn hrow] at h
      rw [← Except.ok.inj h]
      exact ⟨henters, hleaves⟩

/-- At a tolerance that is not negative, a pivot that the verdict asks for is on a constraint row
    and a nonzero element. -/
theorem Pivots.pivoted_of_select {u : Tableau Rat} (h : t.Pivots u) (hu : u.WellShaped)
    (htol : 0 ≤ tolerance) (hselect : select tolerance u = .ok (.pivot c r)) :
    t.Pivots (u.pivoted r c) := by
  obtain ⟨henters, hleaves⟩ := hu.select_justified hselect
  exact .tail h hleaves.row_pos hleaves.row_lt henters.column_lt
    (ne_of_gt (hleaves.entry_pos htol))

end Tableau

end SimplexTableau

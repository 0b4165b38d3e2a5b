import SimplexTableau.Proofs.BasicSolution
import SimplexTableau.Proofs.Execution

namespace SimplexTableau

/-!
# The rows and their basic variables

The classification looks for unit columns and knows nothing of the pivots that made them.  Below a
tolerance of 1 it finds one for each constraint row all the same: the row has a unit column from
the pivots, and of all columns that look like one the first is taken.

* `Classification.FillsRows` — the rows from 1 on host one basic variable each;
  `FillsRows.hostedBy_eq`: then a row finds its own;
* `Tableau.hosts_perm` — the hosts of a tableau with a basis are its constraint rows, each once;
* `fillsRows_reading` — so its classification fills them;
* `Run.NamesHost` — a record names the variable that its pivot takes from its row.

The last theorem says both of the records of an accepted problem.
-/

/-! ### Classifications -/

namespace Classification

variable {K : Type} {c : Classification K} {m : Nat}

/-- Each of the rows from 1 to `m` hosts one basic variable, and there are no others. -/
def FillsRows (c : Classification K) (m : Nat) : Prop :=
  (c.basic.map (·.row)).Perm ((List.range' 1 m).map some)

theorem FillsRows.length_basic (h : c.FillsRows m) : c.basic.length = m := by
  have hlength := h.length_eq
  rwa [List.length_map, List.length_map, List.length_range'] at hlength

theorem FillsRows.nodup_rows (h : c.FillsRows m) : (c.basic.map (·.row)).Nodup :=
  h.nodup_iff.mpr (List.Nodup.map (Option.some_injective Nat) List.nodup_range')

theorem FillsRows.exists_host (h : c.FillsRows m) {i : Nat} (hi : 0 < i) (him : i ≤ m) :
    ∃ v ∈ c.basic, v.row = some i := by
  have hmem : some i ∈ c.basic.map (·.row) :=
    h.mem_iff.mpr (List.mem_map_of_mem (List.mem_range'_1.mpr ⟨hi, by omega⟩))
  exact List.mem_map.mp hmem

/-- A row finds the variable that it hosts. -/
theorem FillsRows.hostedBy_eq (h : c.FillsRows m) {v : VariableValue K} {i : Nat}
    (hv : v ∈ c.basic) (hrow : v.row = some i) : c.hostedBy i = some v := by
  cases hfind : c.hostedBy i with
  | none =>
    have hnone := List.find?_eq_none.mp hfind v hv
    simp [hrow] at hnone
  | some w =>
    have hw : w.row = some i := by simpa using List.find?_some hfind
    have heq : w = v := List.inj_on_of_nodup_map h.nodup_rows (List.mem_of_find?_eq_some hfind) hv
      (hw.trans hrow.symm)
    rw [heq]

end Classification

/-! ### Tableaus -/

namespace Tableau

/-- The basic variables are listed with the hosts of the columns. -/
theorem rows_basic_reading {K : Type} [Cell K] (t : Tableau K) (tolerance : K) :
    (t.reading tolerance).basic.map (·.row)
      = ((List.range t.rhsColumn).filterMap (t.hostAt tolerance)).map some := by
  have hrows : ((List.range t.rhsColumn).map (t.variableAt tolerance)).map (·.row)
      = (List.range t.rhsColumn).map (t.hostAt tolerance) := List.map_map
  rw [List.map_filterMap_some_eq_filter_map_isSome, ← hrows, List.filter_map]
  rfl

variable {t : Tableau Rat} {tolerance : Rat}

/-- **The hosts of a tableau with a basis** are its constraint rows, each once. -/
theorem hosts_perm (hb : t.HasBasis) (h0 : 0 ≤ tolerance) (h1 : tolerance < 1) :
    ((List.range t.rhsColumn).filterMap (t.hostAt tolerance)).Perm
      (List.range' 1 (t.numRows - 1)) := by
  have hnodup : ((List.range t.rhsColumn).filterMap (t.hostAt tolerance)).Nodup :=
    List.nodup_range.filterMap fun k k' r hk hk' => eq_of_hostAt_eq hk hk'
  refine (List.perm_ext_iff_of_nodup hnodup List.nodup_range').mpr fun r => ?_
  rw [List.mem_filterMap, List.mem_range'_1]
  constructor
  · rintro ⟨k, -, hk⟩
    have hpos := hostAt_pos hk
    have hlt := hostAt_lt_numRows hk
    omega
  · intro hr
    obtain ⟨k, hk⟩ := exists_hostAt hb h0 h1 (by omega : 0 < r) (by omega)
    exact ⟨k, List.mem_range.mpr (hostAt_eq_some_iff.mp hk).1, hk⟩

/-- The classification of a tableau with a basis fills its constraint rows. -/
theorem fillsRows_reading (hb : t.HasBasis) (h0 : 0 ≤ tolerance) (h1 : tolerance < 1) :
    (t.reading tolerance).FillsRows (t.numRows - 1) := by
  rw [Classification.FillsRows, rows_basic_reading]
  exact (hosts_perm hb h0 h1).map some

end Tableau

/-! ### Records -/

/-- The record names the variable that its pivot takes from the basis: the only basic variable
    that is hosted by the row of the pivot. -/
structure Record.NamesHost {K : Type} (record : Record K) (row : Nat) (v : VariableValue K) :
    Prop where
  /-- The row is that of the pivot. -/
  leavingRow_eq : record.leavingRow = some row
  /-- The variable is basic. -/
  mem_basic : v ∈ record.classification.basic
  /-- The row hosts it. -/
  row_eq : v.row = some row
  /-- The row hosts no other. -/
  unique : ∀ w ∈ record.classification.basic, w.row = some row → w = v
  /-- The record names it. -/
  leaving_eq : record.leaving = some v.name

namespace Problem

variable {p : Problem Rat} {tolerance : Rat} {r : Run Rat}

/-- The classification of a record is read off the examined tableau. -/
theorem Examined.classification_eq (h : p.Examined tolerance r) :
    r.report.classification = r.tableau.reading tolerance := by
  rw [← h.tolerance_eq]
  rfl

theorem Examined.fillsRows (h : p.Examined tolerance r) (hp : p.WellShaped) (h0 : 0 ≤ tolerance)
    (h1 : tolerance < 1) : r.report.classification.FillsRows p.numConstraints := by
  have hfills := Tableau.fillsRows_reading (h.hasBasis hp) h0 h1
  rw [h.numRows_eq hp, Nat.add_sub_cancel] at hfills
  rw [h.classification_eq]
  exact hfills

/-- A record with a pivot names the variable that leaves. -/
theorem Examined.namesHost (h : p.Examined tolerance r) (hp : p.WellShaped) (h0 : 0 ≤ tolerance)
    (h1 : tolerance < 1) (hstate : r.state = .pivoting) : ∃ row v, r.report.NamesHost row v := by
  obtain ⟨c, i, hphase⟩ := Run.exists_phase_of_pivoting hstate
  have hfills := h.fillsRows hp h0 h1
  have hrow : r.report.leavingRow = some i := by
    rw [Run.report, hphase]
    rfl
  obtain ⟨-, hi0, hi⟩ := h.coherent.pivot_inside hphase
  rw [h.numRows_eq hp] at hi
  obtain ⟨v, hv, hvrow⟩ := hfills.exists_host hi0 (Nat.le_of_lt_succ hi)
  refine ⟨i, v, hrow, hv, hvrow, fun w hw hwrow => ?_, ?_⟩
  · exact List.inj_on_of_nodup_map hfills.nodup_rows hw hv (hwrow.trans hvrow.symm)
  · have hleaving : r.report.leaving
        = (r.report.leavingRow.bind r.report.classification.hostedBy).map (·.name) := rfl
    rw [hleaving, hrow, Option.bind_some, hfills.hostedBy_eq hv hvrow]
    rfl

/-- **One basic variable per constraint.** At every accepted tolerance below 1, the classification
    of every record has as many basic variables as there are constraints, one for each constraint
    row, and a record with a pivot names the one that leaves. -/
theorem one_basic_per_constraint (s : Solver Rat) (h0 : 0 ≤ tolerance) (h1 : tolerance < 1)
    (hp : p.validate = .ok ()) :
    ∃ t records last, p.tableau = .ok t
      ∧ ((s.withTolerance tolerance).start t).collect = .ok (records, last)
      ∧ records.head?.map (·.tableau) = some t
      ∧ ∀ record ∈ records,
        record.classification.basic.length = p.numConstraints
          ∧ record.classification.FillsRows p.numConstraints
          ∧ (record.state = .pivoting → ∃ row v, record.NamesHost row v) := by
  obtain ⟨hshape, -⟩ := validate_rat_iff.mp hp
  obtain ⟨runs, last, -, hcollect, hchain, hexamined, hlast, -⟩ := solve_ok s hp h0
  refine ⟨p.firstTableau, runs.map Run.report, last, tableau_eq hp, hcollect,
    head?_tableau_records hlast hchain, ?_⟩
  rw [List.forall_mem_map]
  intro r hr
  have hfills := (hexamined r hr).fillsRows hshape h0 h1
  exact ⟨hfills.length_basic, hfills, (hexamined r hr).namesHost hshape h0 h1⟩

/-- Two variables with the same column under a constraint that has it as well as its slack. -/
def twinColumns : Problem Rat := ⟨[1, 1], [[1, 1], [2, 2]], [4, 9]⟩

theorem one_basic_per_constraint_twinColumns :
    (0 : Rat) ≤ 1 / 2 ∧ (1 / 2 : Rat) < 1 ∧ twinColumns.validate = .ok ()
      ∧ ∃ t records last, twinColumns.tableau = .ok t
        ∧ ((Solver.standard.withTolerance (1 / 2)).start t).collect = .ok (records, last)
        ∧ records.map (·.state) = [.pivoting, .optimal]
        ∧ records.head?.map (·.tableau) = some t
        ∧ ∀ record ∈ records,
          record.classification.basic.length = 2
            ∧ record.classification.FillsRows 2
            ∧ (record.state = .pivoting → ∃ row v, record.NamesHost row v) := by
  have hp : twinColumns.validate = .ok () := by decide +kernel
  have hstates : ((twinColumns.firstRun (Solver.standard.withTolerance (1 / 2))).collect.toOption.map
      fun result => result.1.map (·.state)) = some [.pivoting, .optimal] := by decide +kernel
  have h0 : (0 : Rat) ≤ 1 / 2 := by decide +kernel
  have h1 : (1 / 2 : Rat) < 1 := by decide +kernel
  obtain ⟨t, records, last, ht, hcollect, hfirst, hrecords⟩ :=
    one_basic_per_constraint Solver.standard h0 h1 hp
  obtain rfl : t = twinColumns.firstTableau := Except.ok.inj (ht.symm.trans (tableau_eq hp))
  have hcollect' : (twinColumns.firstRun (Solver.standard.withTolerance (1 / 2))).collect
      = .ok (records, last) := hcollect
  rw [hcollect'] at hstates
  exact ⟨h0, h1, hp, _, records, last, ht, hcollect, Option.some.inj hstates, hfirst, hrecords⟩

end Problem

end SimplexTableau

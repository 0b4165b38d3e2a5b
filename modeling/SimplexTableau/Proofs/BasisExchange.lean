import SimplexTableau.Proofs.Course
import SimplexTableau.Proofs.Hosts

namespace SimplexTableau

/-!
# How a pivot exchanges the basis

The classification is made anew from every tableau, and of several unit columns of a row it takes
the first.  At tolerance 0 it still changes by nothing but the exchange that the pivot means:

* `Tableau.isUnitColumn_pivoted_iff_of_ne` — a pivot makes and destroys unit columns of its own
  row only;
* `Tableau.entry_zero_of_isUnitColumn_pivoted` — those that it makes had the objective entry of
  the entering column, so none of them stands before it;
* `hostAt_pivoted_iff` — hence the row of the pivot hosts the entering column, and every other row
  the column that it had;
* `Classification.Hosts` — a row hosts the variable with a name;
* `Record.Exchanges` — the basic variables of a record are those of the one before, with one
  exchanged.

The last theorem says so of the records of an accepted problem.
-/

namespace Tableau

variable {t : Tableau Rat} {c r i k : Nat}

/-! ### Unit columns at tolerance 0 -/

/-- At tolerance 0 nothing but a unit column is taken for one. -/
theorem unitRowAt_zero_iff : t.unitRowAt 0 k = some i ↔ i < t.numRows ∧ t.IsUnitColumn i k := by
  constructor
  · intro h
    obtain ⟨hi, hone, hblank⟩ := unitRowAt_eq_some_iff.mp h
    refine ⟨hi, fun l hl => ?_⟩
    by_cases hli : l = i
    · rw [if_pos hli, hli]
      exact sub_eq_zero.mp (abs_nonpos_iff.mp (isOne_iff.mp hone))
    · rw [if_neg hli]
      exact abs_nonpos_iff.mp (isBlank_iff.mp (hblank l hl hli)).2
  · rintro ⟨hi, hunit⟩
    exact hunit.unitRowAt_eq hi le_rfl one_pos

/-- At tolerance 0 a constraint row hosts the first of its unit columns. -/
theorem hostAt_zero_iff :
    t.hostAt 0 k = some i
      ↔ k < t.rhsColumn ∧ (0 < i ∧ i < t.numRows) ∧ t.IsUnitColumn i k
        ∧ ∀ k' < k, ¬ t.IsUnitColumn i k' := by
  rw [hostAt_eq_some_iff]
  simp only [ne_eq, unitRowAt_zero_iff, not_and]
  constructor
  · rintro ⟨hk, ⟨hi, hunit⟩, hi0, hfirst⟩
    exact ⟨hk, ⟨hi0, hi⟩, hunit, fun k' hk' => hfirst k' hk' hi⟩
  · rintro ⟨hk, ⟨hi0, hi⟩, hunit, hfirst⟩
    exact ⟨hk, ⟨hi, hunit⟩, hi0, fun k' hk' _ => hfirst k' hk'⟩

/-! ### Unit columns and pivots -/

/-- **The other rows** keep their unit columns and get no new ones: a unit column of such a row
    has 0 in the row of the pivot, before as after. -/
theorem isUnitColumn_pivoted_iff_of_ne (ht : t.WellShaped) (hr : r < t.numRows)
    (hc : c < t.numColumns) (he : t.entry r c ≠ 0) (hk : k < t.numColumns) (hir : i ≠ r) :
    (t.pivoted r c).IsUnitColumn i k ↔ t.IsUnitColumn i k := by
  constructor
  · intro h
    have hzero : t.entry r k = 0 := by
      have hquotient := h.entry_of_ne (by rwa [numRows_pivoted]) hir.symm
      rw [entry_pivoted_self ht hr hc hk] at hquotient
      exact (div_eq_zero_iff.mp hquotient).resolve_right he
    intro l hl
    rw [← entry_pivoted_of_eq_zero ht hr hc hl hk hzero]
    exact h l (by rwa [numRows_pivoted])
  · intro h
    exact h.pivoted ht hr hc hk hir

/-- A column that a pivot makes a unit column of its row had the objective entry of the pivot
    column. -/
theorem entry_zero_of_isUnitColumn_pivoted (ht : t.WellShaped) (hr0 : 0 < r) (hr : r < t.numRows)
    (hc : c < t.numColumns) (hk : k < t.numColumns) (h : (t.pivoted r c).IsUnitColumn r k) :
    t.entry 0 k = t.entry 0 c := by
  have hrow : t.entry r k / t.entry r c = 1 := by
    rw [← entry_pivoted_self ht hr hc hk]
    exact h.entry_self (by rwa [numRows_pivoted])
  have hobjective := h.entry_of_ne (by rw [numRows_pivoted]; exact ht.numRows_pos)
    (Nat.ne_of_lt hr0)
  rw [entry_pivoted_of_ne ht hr hc ht.numRows_pos hk (Nat.ne_of_lt hr0), hrow, mul_one]
    at hobjective
  exact sub_eq_zero.mp hobjective

/-! ### Hosts and pivots -/

/-- The variable that enters has no host: its objective entry is negative, and that of a unit
    column of a constraint row is 0. -/
theorem Enters.hostAt_eq_none (h : t.Enters 0 c) (ht : t.WellShaped) : t.hostAt 0 c = none := by
  rw [Option.eq_none_iff_forall_ne_some]
  intro i hi
  obtain ⟨-, ⟨hi0, -⟩, hunit, -⟩ := hostAt_zero_iff.mp hi
  have hzero := hunit.entry_of_ne ht.numRows_pos (Nat.ne_of_lt hi0)
  have hneg := h.entry_lt
  rw [hzero, neg_zero] at hneg
  exact lt_irrefl 0 hneg

/-- **The row of the pivot** hosts the column that enters, whatever other columns become unit
    columns with it. -/
theorem hostAt_pivoted_self_iff (ht : t.WellShaped) (henters : t.Enters 0 c)
    (hleaves : t.Leaves 0 c r) : (t.pivoted r c).hostAt 0 k = some r ↔ k = c := by
  have hc := lt_numColumns henters.column_lt
  have hunit : (t.pivoted r c).IsUnitColumn r c :=
    isUnitColumn_pivoted ht hleaves.row_lt hc (ne_of_gt (hleaves.entry_pos le_rfl))
  -- a column before it has a greater objective entry, so it does not become a twin
  have hfirst : ∀ k' < c, ¬ (t.pivoted r c).IsUnitColumn r k' := by
    intro k' hk' htwin
    have hk := lt_numColumns (hk'.trans henters.column_lt)
    have heq := entry_zero_of_isUnitColumn_pivoted ht hleaves.row_pos hleaves.row_lt hc hk htwin
    exact absurd heq (henters.first k' hk').ne'
  have hhost : (t.pivoted r c).hostAt 0 c = some r :=
    hostAt_zero_iff.mpr ⟨by rw [rhsColumn_pivoted]; exact henters.column_lt,
      ⟨hleaves.row_pos, by rw [numRows_pivoted]; exact hleaves.row_lt⟩, hunit, hfirst⟩
  constructor
  · intro hk
    exact eq_of_hostAt_eq hk hhost
  · rintro rfl
    exact hhost

/-- The other rows host the columns that they hosted before. -/
theorem hostAt_pivoted_iff_of_ne (ht : t.WellShaped) (henters : t.Enters 0 c)
    (hleaves : t.Leaves 0 c r) (hir : i ≠ r) :
    (t.pivoted r c).hostAt 0 k = some i ↔ t.hostAt 0 k = some i := by
  have hunit : ∀ l < t.rhsColumn, ((t.pivoted r c).IsUnitColumn i l ↔ t.IsUnitColumn i l) :=
    fun l hl => isUnitColumn_pivoted_iff_of_ne ht hleaves.row_lt (lt_numColumns henters.column_lt)
      (ne_of_gt (hleaves.entry_pos le_rfl)) (lt_numColumns hl) hir
  rw [hostAt_zero_iff, hostAt_zero_iff, rhsColumn_pivoted, numRows_pivoted]
  refine and_congr_right fun hk => and_congr_right fun _ => and_congr (hunit k hk) ?_
  exact forall₂_congr fun k' hk' => not_congr (hunit k' (hk'.trans hk))

/-- **Hosts after a pivot.** The row of the pivot gets the column that enters, and every other row
    keeps its own. -/
theorem hostAt_pivoted_iff (ht : t.WellShaped) (henters : t.Enters 0 c)
    (hleaves : t.Leaves 0 c r) :
    (t.pivoted r c).hostAt 0 k = some i ↔ if i = r then k = c else t.hostAt 0 k = some i := by
  by_cases hir : i = r
  · rw [if_pos hir, hir]
    exact hostAt_pivoted_self_iff ht henters hleaves
  · rw [if_neg hir]
    exact hostAt_pivoted_iff_of_ne ht henters hleaves hir

/-- The column that the row of the pivot hosted before has no host any more. -/
theorem hostAt_pivoted_eq_none (ht : t.WellShaped) (henters : t.Enters 0 c)
    (hleaves : t.Leaves 0 c r) (h : t.hostAt 0 k = some r) :
    (t.pivoted r c).hostAt 0 k = none := by
  rw [Option.eq_none_iff_forall_ne_some]
  intro i hi
  rw [hostAt_pivoted_iff ht henters hleaves] at hi
  by_cases hir : i = r
  · -- it would be the column that enters, which had no host
    rw [if_pos hir] at hi
    rw [hi, henters.hostAt_eq_none ht] at h
    exact absurd h nofun
  · -- it would have had another host
    rw [if_neg hir] at hi
    exact hir (Option.some.inj (hi.symm.trans h))

end Tableau

/-! ### Hosts by name -/

namespace Classification

variable {K : Type}

/-- The row hosts a basic variable with the name. -/
def Hosts (c : Classification K) (row : Nat) (name : String) : Prop :=
  ∃ v ∈ c.basic, v.row = some row ∧ v.name = name

/-- The name is that of a non-basic variable, and of no basic one. -/
structure IsNonBasic (c : Classification K) (name : String) : Prop where
  /-- A non-basic variable has the name. -/
  listed : ∃ v ∈ c.nonBasic, v.name = name
  /-- No basic variable has it. -/
  isBasic_eq : c.isBasic name = false

end Classification

namespace Tableau

/-- Among distinct names, a name belongs to one column. -/
theorem NamesDistinct.column_inj {K : Type} {t : Tableau K} {j k : Nat} (h : t.NamesDistinct)
    (hj : j < t.rhsColumn) (hk : k < t.rhsColumn)
    (heq : (t.columnAt j).name = (t.columnAt k).name) : j = k := by
  have hj' : j < t.columns.size := hj
  have hk' : k < t.columns.size := hk
  have hget : (t.columns.toList.map (·.name))[j]? = (t.columns.toList.map (·.name))[k]? := by
    simpa [columnAt, hj', hk'] using heq
  exact (List.getElem?_inj (by simpa using hj') h).mp hget

variable {K : Type} [Cell K] {t : Tableau K} {tolerance : K} {k i : Nat} {name : String}

/-- A row hosts the variables whose columns it hosts. -/
theorem hosts_reading_iff : (t.reading tolerance).Hosts i name
    ↔ ∃ k, t.hostAt tolerance k = some i ∧ (t.columnAt k).name = name := by
  constructor
  · rintro ⟨v, hv, hrow, hname⟩
    obtain ⟨k, -, rfl⟩ := List.mem_map.mp (List.mem_filter.mp hv).1
    exact ⟨k, hrow, hname⟩
  · rintro ⟨k, hhost, hname⟩
    have hk : k < t.rhsColumn := (hostAt_eq_some_iff.mp hhost).1
    have hsome : (t.variableAt tolerance k).row.isSome = true := by
      rw [variableAt, hhost]
      rfl
    exact ⟨t.variableAt tolerance k,
      List.mem_filter.mpr ⟨List.mem_map_of_mem (List.mem_range.mpr hk), hsome⟩, hhost, hname⟩

/-- Among distinct names, the variable of a column without a host is non-basic. -/
theorem isNonBasic_reading (h : t.NamesDistinct) (hk : k < t.rhsColumn)
    (hhost : t.hostAt tolerance k = none) :
    (t.reading tolerance).IsNonBasic (t.columnAt k).name where
  listed := by
    have hnone : (t.variableAt tolerance k).row.isNone = true := by
      rw [variableAt, hhost]
      rfl
    exact ⟨t.variableAt tolerance k,
      List.mem_filter.mpr ⟨List.mem_map_of_mem (List.mem_range.mpr hk), hnone⟩, rfl⟩
  isBasic_eq := by
    rw [Classification.isBasic, List.any_eq_false]
    intro v hv hname
    obtain ⟨hmem, hsome⟩ := List.mem_filter.mp hv
    obtain ⟨j, hj, rfl⟩ := List.mem_map.mp hmem
    -- a basic variable of the name would be that of the same column
    have hjk : j = k := h.column_inj (List.mem_range.mp hj) hk (beq_iff_eq.mp hname)
    rw [variableAt, hjk, hhost] at hsome
    exact absurd hsome Bool.false_ne_true

end Tableau

/-! ### Records -/

/-- From record `a` to record `b`, `entering` takes the place of `leaving` in the row of the pivot
    that `a` names, and every other row hosts the variable that it hosted before. -/
structure Record.Exchanges {K : Type} (a b : Record K) (row : Nat) (entering leaving : String) :
    Prop where
  /-- The pivot is in the row. -/
  leavingRow_eq : a.leavingRow = some row
  /-- The first record names the variable that enters. -/
  entering_eq : a.entering = some entering
  /-- The first record names the variable that leaves. -/
  leaving_eq : a.leaving = some leaving
  /-- The variable that enters is non-basic before. -/
  entering_nonBasic : a.classification.IsNonBasic entering
  /-- The variable that leaves is hosted by the row before. -/
  hosts_leaving : a.classification.Hosts row leaving
  /-- The variable that leaves is non-basic after. -/
  leaving_nonBasic : b.classification.IsNonBasic leaving
  /-- The hosts after are those before, with the one of the row replaced. -/
  hosts_iff : ∀ i name, b.classification.Hosts i name
    ↔ if i = row then name = entering else a.classification.Hosts i name

namespace Problem

variable {p : Problem Rat} {r next : Run Rat}

/-- **One pivot** of an accepted problem exchanges one basic variable. -/
theorem Examined.exchanges (h : p.Examined 0 r) (hnext : p.Examined 0 next)
    (hfollows : r.Follows next) (hphase : r.phase ≠ .fresh) (hp : p.WellShaped) :
    ∃ row entering leaving, r.report.Exchanges next.report row entering leaving := by
  obtain ⟨c, i, hpivot, htableau, -⟩ := hfollows.pivot_of_examined hphase
  obtain ⟨henters, hleaves⟩ := h.justifies (h.coherent.select_of_pivoting hpivot).1
  obtain ⟨row, v, hv⟩ := h.namesHost hp le_rfl one_pos (by rw [Run.state, hpivot]; rfl)
  have hrow : r.report.leavingRow = some i := by
    rw [Run.report, hpivot]
    rfl
  obtain rfl : row = i := Option.some.inj (hv.leavingRow_eq.symm.trans hrow)
  have hnames := h.namesDistinct
  have hclassification := h.classification_eq
  have hclassification' := hnext.classification_eq
  rw [htableau] at hclassification'
  -- the variable that leaves is that of the column that its row hosts
  have hhosts : r.report.classification.Hosts row v.name := ⟨v, hv.mem_basic, hv.row_eq, rfl⟩
  obtain ⟨l, hl, hlname⟩ := Tableau.hosts_reading_iff.mp (hclassification ▸ hhosts)
  have hnames' : (r.tableau.pivoted row c).NamesDistinct := hnames
  refine ⟨row, (r.tableau.columnAt c).name, v.name, hrow, ?_, hv.leaving_eq, ?_, hhosts, ?_, ?_⟩
  · exact Run.entering_report_of_pivoting hpivot
  · rw [hclassification]
    exact Tableau.isNonBasic_reading hnames henters.column_lt (henters.hostAt_eq_none h.wellShaped)
  · rw [hclassification', ← hlname]
    exact Tableau.isNonBasic_reading hnames' (Tableau.hostAt_eq_some_iff.mp hl).1
      (Tableau.hostAt_pivoted_eq_none h.wellShaped henters hleaves hl)
  · intro j name
    have hhost : ∀ k, (r.tableau.pivoted row c).hostAt 0 k = some j
        ↔ if j = row then k = c else r.tableau.hostAt 0 k = some j :=
      fun k => Tableau.hostAt_pivoted_iff h.wellShaped henters hleaves
    rw [hclassification, hclassification', Tableau.hosts_reading_iff, Tableau.hosts_reading_iff]
    simp only [hhost]
    by_cases hj : j = row
    · simp only [if_pos hj, exists_eq_left]
      exact eq_comm
    · simp only [if_neg hj]
      rfl

/-- **Basis exchange.** At tolerance 0, each constraint row hosts one basic variable in every
    record of an accepted problem.  From one record to the next, the variable that enters takes
    the place of the one that leaves in the row of the pivot, and every other row keeps its
    own. -/
theorem basis_exchange (s : Solver Rat) (hp : p.validate = .ok ()) :
    ∃ t records last, p.tableau = .ok t
      ∧ ((s.withTolerance 0).start t).collect = .ok (records, last)
      ∧ records.head?.map (·.tableau) = some t
      ∧ (∀ record ∈ records, record.classification.FillsRows p.numConstraints)
      ∧ records.IsChain fun a b => ∃ row entering leaving, a.Exchanges b row entering leaving := by
  obtain ⟨hshape, -⟩ := validate_rat_iff.mp hp
  obtain ⟨runs, last, -, hcollect, hchain, hexamined, hlast, -⟩ := solve_ok s hp le_rfl
  refine ⟨p.firstTableau, runs.map Run.report, last, tableau_eq hp, hcollect,
    head?_tableau_records hlast hchain, ?_, ?_⟩
  · rw [List.forall_mem_map]
    intro r hr
    exact (hexamined r hr).fillsRows hshape le_rfl one_pos
  · rw [List.isChain_map]
    refine List.IsChain.imp_of_mem_imp (fun a b ha hb hab => ?_) hchain.tail
    obtain ⟨-, hphase, -⟩ := Run.Follows.chain_coherent hchain a ha
    exact (hexamined a ha).exchanges (hexamined b hb) hab hphase hshape

/-- The second of the twin columns becomes a unit column of the same row as the first. -/
theorem basis_exchange_twinColumns :
    twinColumns.validate = .ok ()
      ∧ ∃ t records last, twinColumns.tableau = .ok t
        ∧ ((Solver.standard.withTolerance 0).start t).collect = .ok (records, last)
        ∧ records.map (fun record => (record.entering, record.leaving))
          = [(some "x1", some "xf1"), (none, none)]
        ∧ records.head?.map (·.tableau) = some t
        ∧ (∀ record ∈ records, record.classification.FillsRows 2)
        ∧ records.IsChain fun a b =>
          ∃ row entering leaving, a.Exchanges b row entering leaving := by
  have hp : twinColumns.validate = .ok () := by decide +kernel
  have hnames : ((twinColumns.firstRun (Solver.standard.withTolerance 0)).collect.toOption.map
      fun result => result.1.map fun record => (record.entering, record.leaving))
        = some [(some "x1", some "xf1"), (none, none)] := by decide +kernel
  obtain ⟨t, records, last, ht, hcollect, hfirst, hfills, hchain⟩ :=
    basis_exchange Solver.standard hp
  obtain rfl : t = twinColumns.firstTableau := Except.ok.inj (ht.symm.trans (tableau_eq hp))
  have hcollect' : (twinColumns.firstRun (Solver.standard.withTolerance 0)).collect
      = .ok (records, last) := hcollect
  rw [hcollect'] at hnames
  exact ⟨hp, _, records, last, ht, hcollect, Option.some.inj hnames, hfirst, hfills, hchain⟩

end Problem

end SimplexTableau

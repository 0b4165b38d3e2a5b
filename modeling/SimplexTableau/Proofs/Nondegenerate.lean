import SimplexTableau.Proofs.Course
import SimplexTableau.Proofs.Hosts
import SimplexTableau.Proofs.RatioTest

namespace SimplexTableau

open scoped BigOperators

/-!
# Runs without degenerate pivots

If every pivot has a row with a positive right-hand side, then the objective grows with every
pivot.  Its value depends on the set of basic variables alone, so no set comes twice, and there
are only as many sets as ways to choose one variable for each constraint:

* `Record.Nondegenerate` — the row of the pivot has a positive right-hand side;
* `Run.Follows.z_eq` — what a pivot adds to the objective; `z_lt`: it grows if the pivot is not
  degenerate;
* `Classification.basis` — the set of basic variables;
* `Tableau.ExactBasis.value_eq_of_solves` — a solution that is 0 outside the basis has the
  objective value of the tableau, so `Examined.z_eq_of_basis_eq`;
* `Examined.basis_mem_powersetCard` — every basis takes as many of the variables as there are
  constraints.

The last theorem counts the pivots: at tolerance 0 a run without degenerate ones comes to an end
of its own.
-/

/-- The pivot that the record names, if any, is in a row with a positive right-hand side. -/
def Record.Nondegenerate (record : Record Rat) : Prop :=
  record.state = .pivoting → ∀ row, record.leavingRow = some row →
    0 < record.tableau.entry row record.tableau.rhsColumn

/-- The set of basic variables, each by its name. -/
def Classification.basis {K : Type} (c : Classification K) : Finset String :=
  (c.basic.map (·.name)).toFinset

/-! ### The objective along a run -/

namespace Run

variable {r next : Run Rat} {c i : Nat}

/-- A pivot adds the ratio of its row, at the rate of the objective entry of its column. -/
theorem Follows.z_eq (h : r.Follows next) (hr : r.Coherent) (hphase : r.phase = .pivoting c i) :
    next.report.z = r.report.z - r.tableau.entry 0 c * r.tableau.ratio c i := by
  obtain ⟨hc, hi0, hi⟩ := hr.pivot_inside hphase
  obtain ⟨c', i', hpivot, htableau, -⟩ := h.pivot_of_examined (by rw [hphase]; exact nofun)
  obtain ⟨rfl, rfl⟩ := Phase.pivoting.inj (hphase.symm.trans hpivot)
  show next.tableau.entry 0 next.tableau.rhsColumn = _
  rw [htableau, Tableau.rhsColumn_pivoted]
  exact Tableau.rhs_pivoted_of_ne hr.wellShaped hi hc hr.wellShaped.numRows_pos (Nat.ne_of_lt hi0)

/-- **The objective grows** with a pivot that is not degenerate. -/
theorem Follows.z_lt (h : r.Follows next) (hr : r.Coherent) (htol : 0 ≤ r.solver.tolerance)
    (hphase : r.phase = .pivoting c i)
    (hrhs : 0 < r.tableau.entry i r.tableau.rhsColumn) : r.report.z < next.report.z := by
  obtain ⟨henters, hleaves⟩ := hr.wellShaped.select_justified (hr.select_of_pivoting hphase).1
  have hratio : 0 < r.tableau.ratio c i := div_pos hrhs (hleaves.entry_pos htol)
  have hentry : r.tableau.entry 0 c < 0 := by
    have hlt := henters.entry_lt
    linarith
  have hgain := mul_neg_of_neg_of_pos hentry hratio
  rw [h.z_eq hr hphase]
  linarith

/-- Along a course without degenerate pivots the objective grows from each examination to the
    later ones. -/
theorem Course.pairwise_z_lt {runs : List (Run Rat)} (h : r.Course runs)
    (htol : 0 ≤ r.solver.tolerance) (hnondegenerate : ∀ a ∈ runs, a.report.Nondegenerate) :
    runs.Pairwise fun a b => a.report.z < b.report.z := by
  have hchain : (runs.map (·.report.z)).IsChain (· < ·) := by
    rw [List.isChain_map]
    refine List.IsChain.imp_of_mem_imp (fun a b ha _ hab => ?_) h.chain.tail
    obtain ⟨hcoherent, hexamined, hsolver⟩ := h.coherent a ha
    obtain ⟨c, i, hphase, -, -⟩ := hab.pivot_of_examined hexamined
    have hstate : a.report.state = .pivoting := congrArg Phase.state hphase
    have hrow : a.report.leavingRow = some i := congrArg Phase.row? hphase
    exact hab.z_lt hcoherent (by rw [hsolver]; exact htol) hphase
      (hnondegenerate a ha hstate i hrow)
  exact List.pairwise_map.mp (List.isChain_iff_pairwise.mp hchain)

end Run

/-! ### The basis decides the objective -/

namespace Tableau

/-- In a tableau whose basic columns are unit columns, a solution that is 0 outside the basis has
    the right-hand side of the objective row for its objective. -/
theorem ExactBasis.value_eq_of_solves {t : Tableau Rat} {tolerance z : Rat} {v : Nat → Rat}
    (hexact : t.ExactBasis tolerance) (ht : t.WellShaped) (hsolves : t.Solves z v)
    (hv : ∀ k < t.rhsColumn, t.hostAt tolerance k = none → v k = 0) :
    z = t.entry 0 t.rhsColumn := by
  have hsum : t.rowSum v 0 = 0 := by
    refine Finset.sum_eq_zero fun k hk => ?_
    -- a basic column has 0 in the objective row
    cases hhost : t.hostAt tolerance k with
    | none => rw [hv k (Finset.mem_range.mp hk) hhost, mul_zero]
    | some r =>
      have hne : 0 ≠ r := Nat.ne_of_lt (hostAt_pos hhost)
      rw [(hexact k r hhost).entry_of_ne ht.numRows_pos hne, zero_mul]
  have hrow := hsolves 0 ht.numRows_pos
  rw [residual_zero, hsum] at hrow
  linarith

variable {K : Type} [Cell K] {t : Tableau K} {tolerance : K} {k : Nat}

/-- The basis holds the variables that have a host. -/
theorem mem_basis_reading (h : t.NamesDistinct) (hk : k < t.rhsColumn) :
    (t.columnAt k).name ∈ (t.reading tolerance).basis
      ↔ (t.hostAt tolerance k).isSome = true := by
  rw [Classification.basis, List.mem_toFinset, List.mem_map]
  constructor
  · rintro ⟨v, hv, hname⟩
    -- the listed variable of that name is the one of the column
    have hvar : v = t.variableAt tolerance k :=
      List.inj_on_of_nodup_map (nodup_names_reading h tolerance) (List.mem_append_left _ hv)
        (mem_all_reading hk) hname
    rw [hvar] at hv
    exact (List.mem_filter.mp hv).2
  · intro hhost
    exact ⟨t.variableAt tolerance k,
      List.mem_filter.mpr ⟨List.mem_map_of_mem (List.mem_range.mpr hk), hhost⟩, rfl⟩

/-- Among distinct names, a basis has as many variables as are listed. -/
theorem card_basis_reading (h : t.NamesDistinct) (tolerance : K) :
    (t.reading tolerance).basis.card = (t.reading tolerance).basic.length := by
  have hnodup : ((t.reading tolerance).basic.map (·.name)).Nodup :=
    (nodup_names_reading h tolerance).sublist ((List.sublist_append_left _ _).map _)
  rw [Classification.basis, List.toFinset_card_of_nodup hnodup, List.length_map]

/-- A basis is made of variables of the tableau. -/
theorem basis_reading_subset (t : Tableau K) (tolerance : K) :
    (t.reading tolerance).basis ⊆ (t.columns.toList.map (·.name)).toFinset := by
  intro name hname
  rw [Classification.basis, List.mem_toFinset, List.mem_map] at hname
  obtain ⟨v, hv, rfl⟩ := hname
  obtain ⟨k, hk, rfl⟩ := List.mem_map.mp (List.mem_filter.mp hv).1
  have hk' : k < t.columns.size := List.mem_range.mp hk
  rw [List.mem_toFinset, List.mem_map]
  exact ⟨t.columnAt k, by simp [columnAt, hk'], rfl⟩

end Tableau

namespace Problem

variable {p : Problem Rat} {tolerance : Rat} {a b r : Run Rat}

namespace Examined

/-- **The basis decides the objective.** Two examined tableaus with the same basic variables have
    the same objective value: the basic solution of the one solves the other and is 0 outside its
    basis. -/
theorem z_eq_of_basis_eq (ha : p.Examined 0 a) (hb : p.Examined 0 b) (hp : p.WellShaped)
    (hbasis : a.report.classification.basis = b.report.classification.basis) :
    a.report.z = b.report.z := by
  have hsolves : a.tableau.Solves (a.tableau.entry 0 a.tableau.rhsColumn)
      (a.tableau.valueAt 0) :=
    (Tableau.exactBasis_zero _).solves_valueAt (ha.hasBasis hp) le_rfl one_pos
  refine (Tableau.exactBasis_zero b.tableau).value_eq_of_solves hb.wellShaped
    ((hb.solves_iff hp).mpr ((ha.solves_iff hp).mp hsolves)) fun k hk hhost => ?_
  have hcolumns : a.tableau.columns = b.tableau.columns := ha.columns_eq.trans hb.columns_eq.symm
  have hk' : k < a.tableau.rhsColumn := by
    rw [Tableau.rhsColumn, hcolumns]
    exact hk
  have hname : a.tableau.columnAt k = b.tableau.columnAt k := by
    rw [Tableau.columnAt, Tableau.columnAt, hcolumns]
  have hmem : (b.tableau.columnAt k).name ∈ a.report.classification.basis
      ↔ (a.tableau.hostAt 0 k).isSome = true := by
    rw [← hname, ha.classification_eq]
    exact Tableau.mem_basis_reading ha.namesDistinct hk'
  rw [hbasis, hb.classification_eq, Tableau.mem_basis_reading hb.namesDistinct hk, hhost] at hmem
  have hnone : a.tableau.hostAt 0 k = none := by
    rw [← Option.not_isSome_iff_eq_none, ← hmem]
    exact Bool.false_ne_true
  exact Tableau.valueAt_of_hostAt_none hnone

/-- The basis takes as many of the variables as there are constraints. -/
theorem basis_mem_powersetCard (h : p.Examined tolerance r) (hp : p.WellShaped)
    (h0 : 0 ≤ tolerance) (h1 : tolerance < 1) :
    r.report.classification.basis
      ∈ (((Column.table p.numVariables p.numConstraints).map (·.name)).toFinset).powersetCard
          p.numConstraints := by
  have hlength := (h.fillsRows hp h0 h1).length_basic
  rw [h.classification_eq] at hlength ⊢
  rw [Finset.mem_powersetCard]
  constructor
  · have hsubset := Tableau.basis_reading_subset r.tableau tolerance
    rwa [h.columns_eq, List.toList_toArray] at hsubset
  · rw [Tableau.card_basis_reading h.namesDistinct, hlength]

end Examined

/-- **Counting bases.** Examinations with different bases are no more than there are ways to
    choose one variable for each constraint. -/
theorem length_le_choose (hp : p.WellShaped) (h0 : 0 ≤ tolerance) (h1 : tolerance < 1)
    {runs : List (Run Rat)} (hexamined : ∀ r ∈ runs, p.Examined tolerance r)
    (hbases : runs.Pairwise fun a b =>
      a.report.classification.basis ≠ b.report.classification.basis) :
    runs.length ≤ (p.numVariables + p.numConstraints).choose p.numConstraints := by
  have hnodup : (runs.map (·.report.classification.basis)).Nodup := List.pairwise_map.mpr hbases
  have hcard : (((Column.table p.numVariables p.numConstraints).map (·.name)).toFinset).card
      = p.numVariables + p.numConstraints := by
    rw [List.toFinset_card_of_nodup (Column.nodup_names_table _ _), List.length_map,
      Column.length_table]
  rw [← hcard, ← Finset.card_powersetCard, ← List.length_map (·.report.classification.basis),
    ← List.toFinset_card_of_nodup hnodup]
  refine Finset.card_le_card fun basis hbasis => ?_
  obtain ⟨r, hr, rfl⟩ := List.mem_map.mp (List.mem_toFinset.mp hbasis)
  exact (hexamined r hr).basis_mem_powersetCard hp h0 h1

/-- **No basis comes twice** along a course without degenerate pivots. -/
theorem pairwise_basis_ne (hp : p.WellShaped) {s : Solver Rat} (hs : s.tolerance = 0)
    {runs : List (Run Rat)} (hcourse : (p.firstRun s).Course runs)
    (hnondegenerate : ∀ r ∈ runs, r.report.Nondegenerate) :
    runs.Pairwise fun a b =>
      a.report.classification.basis ≠ b.report.classification.basis := by
  have hexamined := examined_of_chain hp hs le_rfl hcourse.chain
  have hgrows := hcourse.pairwise_z_lt (le_of_eq hs.symm) hnondegenerate
  refine hgrows.imp_of_mem fun ha hb hlt hbasis => ?_
  exact ne_of_lt hlt ((hexamined _ ha).z_eq_of_basis_eq (hexamined _ hb) hp hbasis)

/-- **A run without degenerate pivots comes to an end of its own.** At tolerance 0, if every pivot
    in the run of an accepted problem has a row with a positive right-hand side, then no two records
    have the same basic variables; so a run that is allowed as many pivots as there are ways to
    choose one variable for each constraint finds an optimum or no bound. -/
theorem solve_ends_of_nondegenerate (s : Solver Rat) (hp : p.validate = .ok ()) :
    ∃ t records last solution, p.tableau = .ok t
      ∧ ((s.withTolerance 0).start t).collect = .ok (records, last)
      ∧ (s.withTolerance 0).solve p = .ok solution
      ∧ ((∀ record ∈ records, record.Nondegenerate) →
        (records.Pairwise fun a b => a.classification.basis ≠ b.classification.basis)
          ∧ ((p.numVariables + p.numConstraints).choose p.numConstraints ≤ s.maxIterations →
            solution.status = .optimal ∨ solution.status = .unbounded)) := by
  obtain ⟨hshape, -⟩ := validate_rat_iff.mp hp
  have htol : (s.withTolerance 0).tolerance = 0 := s.tolerance_withTolerance le_rfl
  have hstart : (p.firstRun (s.withTolerance 0)).Coherent :=
    Run.coherent_start _ (firstTableau_wellShaped hshape)
  obtain ⟨runs, hcourse, hcollect, hfinish⟩ := hstart.exists_course
  refine ⟨p.firstTableau, _, _, _, tableau_eq hp, hcollect, solve_eq_of_solveTableau hp hfinish,
    fun hnondegenerate => ?_⟩
  rw [List.forall_mem_map] at hnondegenerate
  have hbases := pairwise_basis_ne hshape htol hcourse hnondegenerate
  refine ⟨List.pairwise_map.mpr hbases, fun hallowed => ?_⟩
  -- the last examination was made before the last allowed pivot
  have hlast := hcourse.last_mem
  have hexamined := examined_of_chain hshape htol le_rfl hcourse.chain
  have hcount : runs.length ≤ s.maxIterations :=
    (length_le_choose hshape le_rfl one_pos hexamined hbases).trans hallowed
  rw [hcourse.length_eq] at hcount
  obtain ⟨hcoherent, -, hsolver⟩ := hcourse.coherent _ hlast
  refine hcoherent.status_of_pivots_lt hcourse.ended ?_ _
  have hlimit : (p.firstRun (s.withTolerance 0)).solver.maxIterations = s.maxIterations := by
    rw [s.withTolerance_of_nonneg le_rfl]
    rfl
  rw [hsolver, hlimit]
  exact Nat.lt_of_succ_le hcount

/-- Two products that share two resources; every pivot has a row with something left. -/
def sharedResources : Problem Rat := ⟨[4, 3], [[2, 1], [1, 2]], [8, 7]⟩

theorem solve_ends_of_nondegenerate_sharedResources :
    sharedResources.validate = .ok ()
      ∧ ∃ t records last solution, sharedResources.tableau = .ok t
        ∧ (((Solver.standard.withMaxIterations 6).withTolerance 0).start t).collect
          = .ok (records, last)
        ∧ ((Solver.standard.withMaxIterations 6).withTolerance 0).solve sharedResources
          = .ok solution
        ∧ records.map (·.state) = [.pivoting, .pivoting, .optimal]
        ∧ (∀ record ∈ records, record.Nondegenerate)
        ∧ (records.Pairwise fun a b => a.classification.basis ≠ b.classification.basis)
        ∧ (2 + 2).choose 2 ≤ 6
        ∧ (solution.status = .optimal ∨ solution.status = .unbounded) := by
  have hp : sharedResources.validate = .ok () := by decide +kernel
  have hrun : ((sharedResources.firstRun
      ((Solver.standard.withMaxIterations 6).withTolerance 0)).collect.toOption.map fun result =>
        (result.1.map (·.state), result.1.all fun record => record.leavingRow.all fun row =>
          0 < record.tableau.entry row record.tableau.rhsColumn))
      = some ([.pivoting, .pivoting, .optimal], true) := by decide +kernel
  obtain ⟨t, records, last, solution, ht, hcollect, hsolve, hends⟩ :=
    solve_ends_of_nondegenerate (Solver.standard.withMaxIterations 6) hp
  obtain rfl : t = sharedResources.firstTableau := Except.ok.inj (ht.symm.trans (tableau_eq hp))
  have hcollect' : (sharedResources.firstRun
      ((Solver.standard.withMaxIterations 6).withTolerance 0)).collect = .ok (records, last) :=
    hcollect
  rw [hcollect'] at hrun
  obtain ⟨hstates, hrows⟩ := Prod.mk.inj (Option.some.inj hrun)
  have hnondegenerate : ∀ record ∈ records, record.Nondegenerate := by
    intro record hrecord _ row hrow
    have hall := List.all_eq_true.mp hrows record hrecord
    rw [hrow] at hall
    exact of_decide_eq_true hall
  obtain ⟨hbases, hstatus⟩ := hends hnondegenerate
  exact ⟨hp, _, records, last, solution, ht, hcollect, hsolve, hstates, hnondegenerate, hbases,
    by decide, hstatus (by decide)⟩

end Problem

end SimplexTableau

import SimplexTableau.Proofs.Nondegenerate

namespace SimplexTableau

/-!
# The objective along a run

While no right-hand side is negative, a pivot cannot lower the objective, and what it adds depends
on the right-hand side of its row alone:

* `Run.Follows.z_eq_iff` — a pivot adds nothing exactly if it is degenerate;
* `Record.Climbs` — what this means for two records that follow one another;
* `Record.Ascend` — what it means for all of them: from one record to any later one the objective
  does not fall, and it stands still only if every pivot between them is degenerate.

At tolerance 0 no right-hand side ever becomes negative, so the last theorem says so of every run of
an accepted problem.
-/

/-! ### Records -/

namespace Record

/-- The pivot that the record names is in a row with right-hand side 0. -/
def Degenerate (record : Record Rat) : Prop :=
  ∃ row, record.leavingRow = some row ∧ record.tableau.rhs row = .ok 0

/-- From record `a` to record `b` the objective does not fall, and it stands still exactly if the
    row of the pivot that `a` names has right-hand side 0. -/
structure Climbs (a b : Record Rat) (row : Nat) (bound : Rat) : Prop where
  /-- The pivot is in the row. -/
  leavingRow_eq : a.leavingRow = some row
  /-- The row has the right-hand side. -/
  rhs_eq : a.tableau.rhs row = .ok bound
  /-- The objective does not fall. -/
  z_le : a.z ≤ b.z
  /-- It stands still if and only if the pivot is degenerate. -/
  z_eq_iff : a.z = b.z ↔ bound = 0

theorem Climbs.degenerate_iff {a b : Record Rat} {row : Nat} {bound : Rat}
    (h : a.Climbs b row bound) : a.Degenerate ↔ bound = 0 := by
  constructor
  · rintro ⟨row', hrow, hrhs⟩
    obtain rfl := Option.some.inj (h.leavingRow_eq.symm.trans hrow)
    exact Except.ok.inj (h.rhs_eq.symm.trans hrhs)
  · rintro rfl
    exact ⟨row, h.leavingRow_eq, h.rhs_eq⟩

/-- From any record to a later one the objective does not fall, and both have the same value exactly
    if every pivot from the one up to the other is degenerate. -/
def Ascend (records : List (Record Rat)) : Prop :=
  ∀ (i j : Nat) (a b : Record Rat), i ≤ j → records[i]? = some a → records[j]? = some b →
    a.z ≤ b.z
      ∧ (a.z = b.z ↔ ∀ (k : Nat) (c : Record Rat), i ≤ k → k < j → records[k]? = some c →
        c.Degenerate)

/-- **Ascent.** Records that climb from each to the next ascend all along. -/
theorem ascend_of_climbs {records : List (Record Rat)}
    (hchain : records.IsChain fun a b => ∃ row bound, a.Climbs b row bound) : Ascend records := by
  intro i j a b hij ha hb
  -- the induction moves the later record; the record before it is between the two
  induction j, hij using Nat.le_induction generalizing b with
  | base =>
    obtain rfl := Option.some.inj (ha.symm.trans hb)
    exact ⟨le_rfl, iff_of_true rfl fun k c hik hki => absurd hik (Nat.not_le.mpr hki)⟩
  | succ j hij ih =>
    obtain ⟨hj, rfl⟩ := List.getElem?_eq_some_iff.mp hb
    have hbefore : records[j]? = some records[j] := List.getElem?_eq_getElem (by omega)
    obtain ⟨row, bound, hclimbs⟩ := List.isChain_iff_getElem.mp hchain j hj
    obtain ⟨hle, hstill⟩ := ih _ hbefore
    refine ⟨hle.trans hclimbs.z_le, ?_⟩
    -- nothing is gained altogether if nothing is gained on either way
    have hsqueeze :
        a.z = records[j + 1].z ↔ a.z = records[j].z ∧ records[j].z = records[j + 1].z := by
      constructor
      · intro h
        have hback : records[j].z ≤ a.z := by
          rw [h]
          exact hclimbs.z_le
        have heq : a.z = records[j].z := le_antisymm hle hback
        exact ⟨heq, heq.symm.trans h⟩
      · rintro ⟨h, h'⟩
        exact h.trans h'
    rw [hsqueeze, hstill, hclimbs.z_eq_iff, ← hclimbs.degenerate_iff]
    constructor
    · rintro ⟨hearlier, hlast⟩ k c hik hkj hc
      rcases Nat.lt_succ_iff_lt_or_eq.mp hkj with hlt | rfl
      · exact hearlier k c hik hlt hc
      · obtain rfl := Option.some.inj (hbefore.symm.trans hc)
        exact hlast
    · intro hall
      exact ⟨fun k c hik hkj hc => hall k c hik (Nat.lt_succ_of_lt hkj) hc,
        hall j _ hij (Nat.lt_succ_self j) hbefore⟩

end Record

/-! ### Runs -/

namespace Run

variable {r next : Run Rat} {c i : Nat}

/-- **What a pivot adds** to the objective is nothing exactly if the right-hand side of its row
    is 0. -/
theorem Follows.z_eq_iff (h : r.Follows next) (hr : r.Coherent) (htol : 0 ≤ r.solver.tolerance)
    (hphase : r.phase = .pivoting c i) (hrhs : 0 ≤ r.tableau.entry i r.tableau.rhsColumn) :
    r.report.z = next.report.z ↔ r.tableau.entry i r.tableau.rhsColumn = 0 := by
  constructor
  · intro hz
    by_contra hne
    exact absurd hz (ne_of_lt (h.z_lt hr htol hphase (lt_of_le_of_ne hrhs (Ne.symm hne))))
  · intro hzero
    rw [h.z_eq hr hphase, Tableau.ratio, hzero, zero_div, mul_zero, sub_zero]

/-- From one examination to the next the objective climbs, if no right-hand side is negative. -/
theorem Follows.climbs (h : r.Follows next) (hr : r.Coherent) (hexamined : r.phase ≠ .fresh)
    (htol : 0 ≤ r.solver.tolerance) (hrhs : r.tableau.RhsNonneg) :
    ∃ row bound, r.report.Climbs next.report row bound := by
  obtain ⟨c, i, hphase, -, -⟩ := h.pivot_of_examined hexamined
  obtain ⟨-, hi0, hi⟩ := hr.pivot_inside hphase
  have hrow : r.report.leavingRow = some i := congrArg Phase.row? hphase
  have hstill := h.z_eq_iff hr htol hphase (hrhs i hi0 hi)
  refine ⟨i, _, hrow, hr.wellShaped.rhs_eq hi, ?_, hstill⟩
  rcases (hrhs i hi0 hi).eq_or_lt with hzero | hpos
  · exact (hstill.mpr hzero.symm).le
  · exact (h.z_lt hr htol hphase hpos).le

end Run

namespace Problem

variable {p : Problem Rat}

/-- **The objective never falls.** At tolerance 0, from each record in the run of an accepted
    problem to the next, the objective is not less, and it is the same exactly if the row of the
    pivot has right-hand side 0.  So from any record to a later one it is not less, and it is the
    same exactly if all pivots between them are degenerate. -/
theorem objective_climbs (s : Solver Rat) (hp : p.validate = .ok ()) :
    ∃ t records last, p.tableau = .ok t
      ∧ ((s.withTolerance 0).start t).collect = .ok (records, last)
      ∧ records.head?.map (·.tableau) = some t
      ∧ (records.IsChain fun a b => ∃ row bound, a.Climbs b row bound)
      ∧ Record.Ascend records := by
  have hs := s.tolerance_withTolerance (le_refl (0 : Rat))
  obtain ⟨runs, last, -, hcollect, hchain, -, hlast, -⟩ := solve_ok s hp le_rfl
  have hrhs := rhsNonneg_of_tolerance_zero hp hs hchain
  have hclimbs : (runs.map Run.report).IsChain fun a b => ∃ row bound, a.Climbs b row bound := by
    rw [List.isChain_map]
    refine List.IsChain.imp_of_mem_imp (fun a b ha _ hab => ?_) hchain.tail
    obtain ⟨hcoherent, hexamined, hsolver⟩ := Run.Follows.chain_coherent hchain a ha
    have htol : 0 ≤ a.solver.tolerance := by
      rw [hsolver]
      exact hs.ge
    exact hab.climbs hcoherent hexamined htol (hrhs a ha)
  exact ⟨p.firstTableau, runs.map Run.report, last, tableau_eq hp, hcollect,
    head?_tableau_records hlast hchain, hclimbs, Record.ascend_of_climbs hclimbs⟩

/-- The first pivot finds nothing left in its row, the second one does. -/
def lateStart : Problem Rat := ⟨[2, 1], [[1, -1], [0, 1]], [0, 3]⟩

theorem objective_climbs_lateStart :
    lateStart.validate = .ok ()
      ∧ ∃ t records last, lateStart.tableau = .ok t
        ∧ ((Solver.standard.withTolerance 0).start t).collect = .ok (records, last)
        ∧ records.map (fun record => (record.z, record.leavingRow))
          = [(0, some 1), (0, some 2), (9, none)]
        ∧ records.head?.map (·.tableau) = some t
        ∧ (records.IsChain fun a b => ∃ row bound, a.Climbs b row bound)
        ∧ Record.Ascend records := by
  have hp : lateStart.validate = .ok () := by decide +kernel
  have hrun : ((lateStart.firstRun (Solver.standard.withTolerance 0)).collect.toOption.map
      fun result => result.1.map fun record => (record.z, record.leavingRow))
        = some [(0, some 1), (0, some 2), (9, none)] := by decide +kernel
  obtain ⟨t, records, last, ht, hcollect, hfirst, hclimbs, hascends⟩ :=
    objective_climbs Solver.standard hp
  obtain rfl : t = lateStart.firstTableau := Except.ok.inj (ht.symm.trans (tableau_eq hp))
  have hcollect' : (lateStart.firstRun (Solver.standard.withTolerance 0)).collect
      = .ok (records, last) := hcollect
  rw [hcollect'] at hrun
  exact ⟨hp, _, records, last, ht, hcollect, Option.some.inj hrun, hfirst, hclimbs, hascends⟩

end Problem

end SimplexTableau

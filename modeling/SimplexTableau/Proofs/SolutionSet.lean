import SimplexTableau.Proofs.Execution

namespace SimplexTableau

/-!
# The solution set along a run

Pivots on constraint rows and nonzero elements neither lose nor gain a solution of the equations.
The runs of a tableau make no other pivots, whatever the tableau and the tolerance:

* `Record.LeadsTo` — the pivot that a record names leads to the tableau of another record;
* `Run.Follows.leadsTo` — of two successive examinations, the first leads to the second;
* `Run.leadsTo_of_chain` — so does each record of a run to the next one.

The last theorem puts both together.
-/

/-- The pivot that record `a` names, in `row` and `column` on `element`, leads to the tableau of
    record `b`.  It is on a constraint row and a nonzero element. -/
structure Record.LeadsTo (a b : Record Rat) (row column : Nat) (element : Rat) : Prop where
  /-- The row is not that of the objective. -/
  row_pos : 0 < row
  /-- The element can be divided out. -/
  element_ne_zero : element ≠ 0
  /-- The record names the column. -/
  enteringColumn_eq : a.enteringColumn = some column
  /-- The record names the row. -/
  leavingRow_eq : a.leavingRow = some row
  /-- The record names the element. -/
  pivotElement_eq : a.pivotElement = some element
  /-- The pivot gives the tableau of the other record. -/
  pivot_eq : pivot a.tableau row column = .ok (element, b.tableau)

namespace Run

variable {r next : Run Rat}

/-- **One step.** After an examination that was not the last, the run makes the pivot that the
    record names.  Its element exceeds the tolerance, so it is not 0. -/
theorem Follows.leadsTo (h : r.Follows next) (hr : r.Coherent) (hphase : r.phase ≠ .fresh)
    (htol : 0 ≤ r.solver.tolerance) :
    ∃ row column element, r.report.LeadsTo next.report row column element := by
  cases h.moves with
  | start hfresh _ _ => exact absurd hfresh hphase
  | pivot c i hpivot htableau _ =>
    obtain ⟨hc, hi0, hi⟩ := hr.pivot_inside hpivot
    obtain ⟨-, hleaves⟩ := hr.wellShaped.select_justified (hr.select_of_pivoting hpivot).1
    refine ⟨i, c, r.tableau.entry i c, hi0, ne_of_gt (hleaves.entry_pos htol), ?_, ?_, ?_, ?_⟩
    · exact namedColumn_of_pivoting hpivot
    · rw [report, hpivot]
      rfl
    · rw [report, hpivot]
    · show pivot r.tableau i c = .ok (r.tableau.entry i c, next.tableau)
      rw [htableau]
      exact hr.wellShaped.pivot_eq hi (Tableau.lt_numColumns hc)

/-- Each record of a run leads to the next one. -/
theorem leadsTo_of_chain {s : Solver Rat} {t : Tableau Rat} (htol : 0 ≤ s.tolerance)
    {runs : List (Run Rat)} (hchain : (s.start t :: runs).IsChain Follows) :
    (runs.map report).IsChain fun a b => ∃ row column element, a.LeadsTo b row column element := by
  have hcoherent := Follows.chain_coherent hchain
  rw [List.isChain_map]
  refine List.IsChain.imp_of_mem_imp (fun a b ha _ hab => ?_) hchain.tail
  obtain ⟨ha, hexamined, hsolver⟩ := hcoherent a ha
  refine hab.leadsTo ha hexamined ?_
  rw [hsolver]
  exact htol

end Run

namespace Tableau

variable {t : Tableau Rat}

/-- **The solution set is preserved.** A tableau that is reached by pivots on constraint rows and
    nonzero elements has the solutions of the tableau they start from.  At every accepted
    tolerance the run of a tableau begins with the tableau itself, comes to its end and makes only
    such pivots. -/
theorem WellShaped.solutions_preserved (ht : t.WellShaped) :
    (∀ u, t.Reaches u → ∀ z v, u.Solves z v ↔ t.Solves z v)
      ∧ ∀ (s : Solver Rat) (tolerance : Rat), 0 ≤ tolerance → ∃ records last,
        ((s.withTolerance tolerance).start t).collect = .ok (records, last)
          ∧ last.state.isTerminal = true
          ∧ records.head?.map (·.tableau) = some t
          ∧ (records.IsChain fun a b => ∃ row column element, a.LeadsTo b row column element)
          ∧ ∀ record ∈ records, t.Reaches record.tableau := by
  refine ⟨fun u hu z v => hu.solves_iff ht, fun s tolerance htol => ?_⟩
  have hs : 0 ≤ (s.withTolerance tolerance).tolerance := by
    rw [s.tolerance_withTolerance htol]
    exact htol
  obtain ⟨runs, last, -, hcollect, hchain, hlast, hend, -⟩ :=
    Run.start_ok (s.withTolerance tolerance) ht
  refine ⟨runs.map Run.report, last, hcollect, hend, Run.head?_tableau_report hlast hchain,
    Run.leadsTo_of_chain hs hchain, ?_⟩
  rw [List.forall_mem_map]
  exact fun r hr => (Run.pivots_of_chain ht hs hchain r hr).reaches ht

/-- A tableau without slack variables, with a value in the objective row and a negative right-hand
    side. -/
def withoutSlacks : Tableau Rat where
  rows := #[#[-2, 1, 5], #[1, -1, -3], #[4, 2, 0]]
  columns := #[Column.structural 1, Column.structural 2]
  numStructural := 2
  numSlack := 0

theorem solutions_preserved_withoutSlacks :
    withoutSlacks.WellShaped
      ∧ (∃ u w, pivot withoutSlacks 1 0 = .ok (1, u) ∧ pivot u 2 1 = .ok (6, w)
        ∧ ∀ z v, w.Solves z v ↔ withoutSlacks.Solves z v)
      ∧ ∃ records last,
        ((Solver.standard.withTolerance (1 / 1000000000)).start withoutSlacks).collect
            = .ok (records, last)
          ∧ last.state.isTerminal = true
          ∧ records.head?.map (·.tableau) = some withoutSlacks
          ∧ (records.IsChain fun a b => ∃ row column element, a.LeadsTo b row column element)
          ∧ ∀ record ∈ records, withoutSlacks.Reaches record.tableau := by
  have ht : withoutSlacks.WellShaped := ⟨by decide, by decide⟩
  obtain ⟨hsolves, hrun⟩ := ht.solutions_preserved
  have hu : pivot withoutSlacks 1 0 = .ok (1, withoutSlacks.pivoted 1 0) :=
    ht.pivot_eq_ok_iff.mpr ⟨⟨by decide, by decide⟩, by decide +kernel, rfl⟩
  have hw : pivot (withoutSlacks.pivoted 1 0) 2 1
      = .ok (6, (withoutSlacks.pivoted 1 0).pivoted 2 1) :=
    (ht.pivoted (by decide) 0).pivot_eq_ok_iff.mpr
      ⟨⟨by decide, by decide⟩, by decide +kernel, rfl⟩
  have hreaches : withoutSlacks.Reaches ((withoutSlacks.pivoted 1 0).pivoted 2 1) :=
    .tail (.single ⟨1, 0, 1, by decide, by decide, hu⟩) ⟨2, 1, 6, by decide, by decide, hw⟩
  exact ⟨ht, ⟨_, _, hu, hw, hsolves _ hreaches⟩, hrun _ _ (by decide +kernel)⟩

end Tableau

end SimplexTableau

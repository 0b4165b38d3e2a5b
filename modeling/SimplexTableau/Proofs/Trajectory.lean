import SimplexTableau.Proofs.Runs
import Mathlib.Logic.Function.Iterate

namespace SimplexTableau

/-!
# The tableaus that a run visits

A verdict depends on the tableau and the tolerance alone, so it decides the next tableau, and the
number of allowed pivots decides only where the run stops:

* `Tableau.AsksPivot` — the verdict on a tableau is a pivot;
* `Tableau.successor` — the tableau after the pivot that the verdict asks for;
* `Run.OnTrajectory` — after `n` pivots a run stands at the `n`-th successor, and every tableau
  before it has asked for a pivot; `OnTrajectory.follows`: every step keeps this;
* `Solver.solveTableau_limit_iff` — a run is cut off exactly if all the tableaus that it may
  examine ask for a pivot.

Nothing here depends on the arithmetic of the cells.
-/

variable {K : Type} [Cell K]

namespace Tableau

/-- The verdict on the tableau is a pivot. -/
def AsksPivot (tolerance : K) (t : Tableau K) : Prop :=
  ∃ column row, select tolerance t = .ok (.pivot column row)

/-- The tableau after the pivot that the verdict asks for; the tableau itself if it asks for
    none. -/
def successor (tolerance : K) (t : Tableau K) : Tableau K :=
  match select tolerance t with
  | .ok (.pivot column row) => t.pivoted row column
  | _ => t

theorem successor_of_select {tolerance : K} {t : Tableau K} {column row : Nat}
    (h : select tolerance t = .ok (.pivot column row)) :
    successor tolerance t = t.pivoted row column := by
  rw [successor, h]

theorem successor_of_not_asksPivot {tolerance : K} {t : Tableau K} (h : ¬ AsksPivot tolerance t) :
    successor tolerance t = t := by
  unfold successor
  split
  · rename_i column row hselect
    exact absurd ⟨column, row, hselect⟩ h
  · rfl

end Tableau

open Tableau

namespace Run

/-- Where the run of solver `s` from tableau `t` stands after its pivots. -/
structure OnTrajectory (s : Solver K) (t : Tableau K) (r : Run K) : Prop where
  /-- The phase is the verdict on the tableau. -/
  coherent : r.Coherent
  /-- The limits are those of the solver. -/
  solver_eq : r.solver = s
  /-- No more pivots were made than are allowed. -/
  pivots_le : r.pivots ≤ s.maxIterations
  /-- The tableau is the successor of `t` after the pivots made. -/
  tableau_eq : r.tableau = (successor s.tolerance)^[r.pivots] t
  /-- Every tableau before it has asked for a pivot. -/
  asksPivot : ∀ n < r.pivots, AsksPivot s.tolerance ((successor s.tolerance)^[n] t)

variable {s : Solver K} {t : Tableau K} {r next : Run K}

theorem onTrajectory_start (s : Solver K) (ht : t.WellShaped) : OnTrajectory s t (s.start t) where
  coherent := coherent_start s ht
  solver_eq := rfl
  pivots_le := Nat.zero_le _
  tableau_eq := rfl
  asksPivot _ hn := absurd hn (Nat.not_lt_zero _)

/-- **One step** goes on to the next tableau of the trajectory. -/
theorem OnTrajectory.follows (h : OnTrajectory s t r) (hnext : r.Follows next) :
    OnTrajectory s t next := by
  have hsolver : next.solver = s := hnext.solver_eq.trans h.solver_eq
  cases hnext.moves with
  | start _ htableau hpivots =>
    -- an examination alone changes neither the tableau nor the number of pivots
    refine ⟨hnext.coherent, hsolver, ?_, ?_, ?_⟩
    · rw [hpivots]
      exact h.pivots_le
    · rw [htableau, hpivots]
      exact h.tableau_eq
    · rw [hpivots]
      exact h.asksPivot
  | pivot c i hphase htableau hpivots =>
    obtain ⟨hselect, hallowed⟩ := h.coherent.select_of_pivoting hphase
    rw [h.solver_eq] at hselect hallowed
    refine ⟨hnext.coherent, hsolver, ?_, ?_, fun n hn => ?_⟩
    · rw [hpivots]
      exact hallowed
    · rw [htableau, hpivots, Function.iterate_succ_apply', ← h.tableau_eq,
        successor_of_select hselect]
    · rw [hpivots] at hn
      rcases Nat.lt_succ_iff_lt_or_eq.mp hn with hlt | rfl
      · exact h.asksPivot n hlt
      · rw [← h.tableau_eq]
        exact ⟨c, i, hselect⟩

/-- **When a run is cut off.** A run that has ended was cut off exactly if all the tableaus that
    it was allowed to examine ask for a pivot. -/
theorem OnTrajectory.limit_iff (h : OnTrajectory s t r) (hend : r.state.isTerminal = true)
    (trace : List (Record K)) :
    (r.outcome trace).status = .iterationLimit
      ↔ ∀ n ≤ s.maxIterations, AsksPivot s.tolerance ((successor s.tolerance)^[n] t) := by
  rw [status_outcome_eq_iterationLimit_iff hend]
  constructor
  · intro hphase n hn
    obtain ⟨⟨c, i, hselect⟩, hlimit⟩ := h.coherent.select_of_limitReached hphase
    rw [h.solver_eq] at hselect hlimit
    rcases Nat.lt_or_eq_of_le (hn.trans hlimit) with hlt | rfl
    · exact h.asksPivot n hlt
    · rw [← h.tableau_eq]
      exact ⟨c, i, hselect⟩
  · intro hall
    -- the tableau at the end asks for a pivot, so the verdict was not final
    obtain ⟨c, i, hselect⟩ := hall r.pivots h.pivots_le
    rw [← h.tableau_eq, ← h.solver_eq] at hselect
    cases hphase : r.phase with
    | limitReached => rfl
    | optimal => simp [h.coherent.select_of_optimal hphase] at hselect
    | unbounded name =>
      obtain ⟨column, hunbounded, -⟩ := h.coherent.select_of_unbounded hphase
      simp [hunbounded] at hselect
    | fresh => simp [state, hphase, Phase.state, State.isTerminal] at hend
    | pivoting column row => simp [state, hphase, Phase.state, State.isTerminal] at hend

end Run

/-- **The cap.** The run of a well-shaped tableau has a solution, and it is cut off exactly if the
    tableau and its successors, one more than pivots are allowed, all ask for a pivot. -/
theorem Solver.solveTableau_limit_iff (s : Solver K) {t : Tableau K} (ht : t.WellShaped) :
    ∃ solution, s.solveTableau t = .ok solution
      ∧ (solution.status = .iterationLimit
        ↔ ∀ n ≤ s.maxIterations, AsksPivot s.tolerance ((successor s.tolerance)^[n] t)) := by
  obtain ⟨runs, last, trace, -, hchain, hlast, hend, hsolve⟩ := Run.start_ok s ht
  have hon : ∀ r ∈ runs, Run.OnTrajectory s t r :=
    Run.Follows.chain_induction (fun _ _ ha hab => ha.follows hab) hchain
      (Run.onTrajectory_start s ht)
  exact ⟨_, hsolve, (hon last hlast).limit_iff hend trace⟩

end SimplexTableau

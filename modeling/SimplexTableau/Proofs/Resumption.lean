import SimplexTableau.Proofs.Course

namespace SimplexTableau

/-!
# Cutting a run and resuming it

At a cut a pivot may have been chosen, but not yet made: the tableau is still the one of the last
record.  A fresh run from it examines it once more, makes the same choice and goes on as the run
that was cut would have, with its pivots counted from the cut:

* `Run.since` — a run with its pivots counted since an earlier examination;
  `Course.since`: what is left of a course is a course of its own, unless the limit ends it;
* `Course.restart` — from the tableau of an examination, the course begins with that examination;
* `Course.cut` — after any number of requests, a run stands at the tableau of the last record it
  gave, or at the first one;
* `Solution.Continues` — the solution of a run that goes on where another one was cut.

The last theorem says so of every cut in the run of a well-shaped tableau.  Nothing here depends
on the arithmetic of the cells.
-/

variable {K : Type} [Cell K]

/-- The record with its pivots counted since a start that was `n` pivots earlier. -/
def Record.later (n : Nat) (record : Record K) : Record K := { record with step := record.step + n }

/-- What a resumed run comes to: the answer of the full one, with the pivots before the cut taken
    off. -/
structure Solution.Continues (full resumed : Solution K) (before : Nat) : Prop where
  /-- It ends as the full run does. -/
  status_eq : resumed.status = full.status
  /-- The objective is the same. -/
  z_eq : resumed.z = full.z
  /-- The decision variables have the same values. -/
  values_eq : resumed.values = full.values
  /-- The error is the same. -/
  failure_eq : resumed.failure = full.failure
  /-- The pivots before the cut are not made again. -/
  iterations_add : resumed.iterations + before = full.iterations

namespace Run

variable {r next : Run K} {runs : List (Run K)} {i : Nat}

/-! ### Counting from a cut -/

/-- The run with its pivots counted since it had made `i` of them. -/
def since (i : Nat) (r : Run K) : Run K := { r with pivots := r.pivots - i }

/-- A pivot that was allowed is allowed if fewer were made before it. -/
theorem Coherent.since (hr : r.Coherent) (hlimit : r.phase ≠ .limitReached) (i : Nat) :
    (r.since i).Coherent := by
  refine hr.of_phase_eq rfl rfl rfl (fun c k hphase => ?_) fun hphase => absurd hphase hlimit
  exact Nat.lt_of_le_of_lt (Nat.sub_le _ _) (hr.select_of_pivoting hphase).2

theorem Follows.since (h : r.Follows next) (hphase : r.phase ≠ .fresh)
    (hlimit : next.phase ≠ .limitReached) (hi : i ≤ r.pivots) :
    (r.since i).Follows (next.since i) := by
  obtain ⟨c, k, hpivot, htableau, hpivots⟩ := h.pivot_of_examined hphase
  refine ⟨h.solver_eq, h.coherent.since hlimit i, h.examined, .pivot c k hpivot htableau ?_⟩
  show next.pivots - i = r.pivots - i + 1
  omega

/-- From the tableau of an examination, a fresh run examines it first. -/
theorem Coherent.follows_since (hr : r.Coherent) (hphase : r.phase ≠ .fresh)
    (hlimit : r.phase ≠ .limitReached) (hi : r.pivots = i) :
    (r.solver.start r.tableau).Follows (r.since i) := by
  refine ⟨rfl, hr.since hlimit i, hphase, .start rfl rfl ?_⟩
  show r.pivots - i = 0
  omega

namespace Course

/-- Only the last examination of a course can reach the limit. -/
theorem phase_ne_limitReached (h : r.Course runs)
    (hlast : (runs.getLastD r).phase ≠ .limitReached) : r.phase ≠ .limitReached := by
  cases runs with
  | nil => exact hlast
  | cons next rest =>
    intro hphase
    have hended := isTerminal_iff.mpr (.inr (.inr hphase))
    rw [h.head.not_isTerminal] at hended
    exact absurd hended Bool.false_ne_true

/-- **What is left of a course** is a course with the pivots counted since an earlier examination,
    unless the limit ends it. -/
theorem since (h : r.Course runs) (hphase : r.phase ≠ .fresh)
    (hlast : (runs.getLastD r).phase ≠ .limitReached) (hi : i ≤ r.pivots) :
    (r.since i).Course (runs.map (Run.since i)) := by
  induction runs generalizing r with
  | nil => exact .nil h.ended
  | cons next rest ih =>
    rw [List.getLastD_cons] at hlast
    obtain ⟨c, k, -, -, hpivots⟩ := h.head.pivot_of_examined hphase
    exact (ih h.tail h.head.examined hlast (by omega)).cons
      (h.head.since hphase (h.tail.phase_ne_limitReached hlast) hi)

/-- After an examination comes the rest of the course, with the same end. -/
theorem drop (h : r.Course runs) {j : Nat} (hj : runs[j]? = some next) :
    next.Course (runs.drop (j + 1)) ∧ (runs.drop (j + 1)).getLastD next = runs.getLastD r := by
  induction runs generalizing r j with
  | nil => exact absurd hj nofun
  | cons first rest ih =>
    rw [List.drop_succ_cons, List.getLastD_cons]
    cases j with
    | zero =>
      obtain rfl := Option.some.inj hj
      exact ⟨h.tail, rfl⟩
    | succ j => exact ih h.tail hj

variable {s : Solver K} {t : Tableau K}

/-- **Starting again.** From the tableau of an examination, the course is that examination and all
    that follow it, unless the limit ends it.  It comes to the same end. -/
theorem restart (h : (s.start t).Course runs)
    (hlast : (runs.getLastD (s.start t)).phase ≠ .limitReached) {j : Nat}
    (hj : runs[j]? = some r) :
    (s.start r.tableau).Course ((runs.drop j).map (Run.since j))
      ∧ ((runs.drop j).map (Run.since j)).getLastD (s.start r.tableau)
        = (runs.getLastD (s.start t)).since j := by
  obtain ⟨hcoherent, hexamined, hsolver⟩ := h.coherent r (List.mem_of_getElem? hj)
  have hsolver : r.solver = s := hsolver
  have hpivots := h.pivots_of_getElem? hj
  obtain ⟨hrest, hend⟩ := h.drop hj
  obtain ⟨hlt, hr⟩ := List.getElem?_eq_some_iff.mp hj
  have hsplit : runs.drop j = r :: runs.drop (j + 1) := by
    rw [List.drop_eq_getElem_cons hlt, hr]
  rw [← hend] at hlast ⊢
  rw [hsplit, List.map_cons, ← hsolver]
  constructor
  · exact (hrest.since hexamined hlast hpivots.ge).cons
      (hcoherent.follows_since hexamined (hrest.phase_ne_limitReached hlast) hpivots)
  · rw [List.getLastD_cons, List.getLastD_map]

/-- **Where a cut is.** After `n` requests the run stands at the tableau of the last record that
    it gave, before the pivot that this names; without a request, at that of the first one. -/
theorem cut (h : (s.start t).Course runs) (n : Nat) :
    ∃ j r, j = min n runs.length - 1 ∧ runs[j]? = some r
      ∧ ((runs.take n).getLastD (s.start t)).tableau = r.tableau
      ∧ ((runs.take n).getLastD (s.start t)).pivots = j
      ∧ (((runs.take n).getLastD (s.start t)).state.isTerminal = true →
        runs.length ≤ j + 1) := by
  cases n with
  | zero =>
    cases runs with
    | nil => exact absurd rfl h.ne_nil
    | cons first rest =>
      rw [Nat.zero_min]
      exact ⟨0, first, rfl, rfl, h.head.tableau_of_start.symm, rfl, fun hend => absurd hend nofun⟩
  | succ n =>
    have hpos : 0 < runs.length := List.length_pos_iff.mpr h.ne_nil
    have hlt : min (n + 1) runs.length - 1 < runs.length := by omega
    have hget := List.getElem?_eq_getElem hlt
    have hlast : (runs.take (n + 1)).getLast? = runs[min (n + 1) runs.length - 1]? := by
      rw [List.getLast?_eq_getElem?, List.length_take, List.getElem?_take_of_lt (by omega)]
    rw [List.getLastD_eq_getLast?, hlast, hget]
    refine ⟨_, _, rfl, hget, rfl, h.pivots_of_getElem? hget, fun hend => ?_⟩
    exact List.drop_eq_nil_iff.mp ((h.drop hget).1.eq_nil_of_isTerminal hend)

end Course

/-! ### Records and solutions -/

theorem report_since (hi : i ≤ r.pivots) : (r.since i).report.later i = r.report := by
  show { r.report with step := r.pivots - i + i } = r.report
  rw [Nat.sub_add_cancel hi]
  rfl

@[simp] theorem iterations_outcome (r : Run K) (trace : List (Record K)) :
    (r.outcome trace).iterations = r.pivots := by
  cases hphase : r.phase <;> simp only [outcome, hphase] <;> rfl

@[simp] theorem trace_outcome (r : Run K) (trace : List (Record K)) :
    (r.outcome trace).trace = trace := by
  cases hphase : r.phase <;> simp only [outcome, hphase] <;> rfl

theorem continues_since (hi : i ≤ r.pivots) (trace trace' : List (Record K)) :
    (r.outcome trace).Continues ((r.since i).outcome trace') i := by
  have hcount : r.pivots - i + i = r.pivots := Nat.sub_add_cancel hi
  cases hphase : r.phase <;> simp only [outcome, since, hphase]
  all_goals exact ⟨rfl, rfl, rfl, rfl, hcount⟩

variable {s : Solver K} {t : Tableau K}

/-- The records of a resumed run, counted on from the cut, are those of what was left. -/
theorem Course.map_later_report (h : (s.start t).Course runs) (j : Nat) :
    (((runs.drop j).map (Run.since j)).map report).map (Record.later j)
      = (runs.map report).drop j := by
  rw [List.map_map, List.map_map, ← List.map_drop]
  refine List.map_congr_left fun a ha => report_since ?_
  obtain ⟨m, hm⟩ := List.getElem?_of_mem ha
  rw [List.getElem?_drop] at hm
  rw [h.pivots_of_getElem? hm]
  exact Nat.le_add_right j m

end Run

/-- **Cut and resume.** Let a run that ends with an optimum or without bound be cut after any number
    of requests for its records.  A fresh run from the tableau at the cut continues it: it gives the
    same answer after the pivots that were left.  Its records, counted on from the cut, are those of
    the full run from the last one that was given, or from the first one if none was.  After the end
    of the run there is no pivot left. -/
theorem Solver.resume_after_cut (s : Solver K) {t : Tableau K} (ht : t.WellShaped) (n : Nat) :
    ∃ full pulled cut, s.solveTableau t = .ok full ∧ (s.start t).pulls n = .ok (pulled, cut)
      ∧ (full.status = .optimal ∨ full.status = .unbounded →
        ∃ resumed, s.solveTableau cut.tableau = .ok resumed
          ∧ full.Continues resumed cut.pivots
          ∧ (s.trace = true → pulled = (List.range n).map (full.trace[·]?)
            ∧ resumed.trace.map (Record.later cut.pivots)
              = full.trace.drop (min n full.trace.length - 1))
          ∧ (cut.state.isTerminal = true → resumed.iterations = 0)) := by
  have hstart := Run.coherent_start s ht
  obtain ⟨runs, h, -, hfull⟩ := hstart.exists_course
  obtain ⟨j, r, hj, hr, htableau, hpivots, hended⟩ := h.cut n
  refine ⟨_, _, _, hfull, h.pulls_eq hstart n, fun hstatus => ?_⟩
  have hlast : (runs.getLastD (s.start t)).phase ≠ .limitReached := by
    intro hphase
    rw [Run.status_outcome_eq_optimal_iff, Run.status_outcome_eq_unbounded_iff, hphase] at hstatus
    simp at hstatus
  obtain ⟨hcourse, hend⟩ := h.restart hlast hr
  have hcoherent := (h.coherent r (List.mem_of_getElem? hr)).1
  have hresumed := hcourse.finish_eq (Run.coherent_start s hcoherent.wellShaped)
  rw [hend] at hresumed
  obtain ⟨hlt, -⟩ := List.getElem?_eq_some_iff.mp hr
  have hlength := h.length_eq
  rw [htableau, hpivots]
  refine ⟨_, hresumed, Run.continues_since (by omega) _ _, fun htrace => ?_, fun hcut => ?_⟩
  · have hkept : (s.start t).keeps runs = runs.map Run.report := if_pos htrace
    have hkept' : (s.start r.tableau).keeps ((runs.drop j).map (Run.since j))
        = ((runs.drop j).map (Run.since j)).map Run.report := if_pos htrace
    rw [Run.trace_outcome, Run.trace_outcome, hkept, hkept', List.length_map, ← hj]
    exact ⟨rfl, h.map_later_report j⟩
  · have hall := hended hcut
    rw [Run.iterations_outcome]
    show (runs.getLastD (s.start t)).pivots - j = 0
    omega

/-- A tableau of doubles that takes two pivots to its optimum. -/
def twoPivots : Tableau Float where
  rows := #[#[-20, -30, -10, 0, 0, 0, 0], #[1, 1, 1, 1, 0, 0, 400], #[2, 1, -1, 0, 1, 0, 200],
    #[3, 2, -1, 0, 0, 1, 300]]
  columns := (Column.table 3 3).toArray
  numStructural := 3
  numSlack := 3

/-- At the cut the second pivot is chosen, but not made; the resumed run makes it. -/
theorem resume_after_cut_twoPivots :
    twoPivots.WellShaped
      ∧ ∃ full pulled cut resumed, Solver.standard.solveTableau twoPivots = .ok full
        ∧ (Solver.standard.start twoPivots).pulls 2 = .ok (pulled, cut)
        ∧ full.status = .optimal ∧ full.iterations = 2 ∧ cut.pivots = 1
        ∧ Solver.standard.solveTableau cut.tableau = .ok resumed
        ∧ full.Continues resumed cut.pivots
        ∧ resumed.trace.map (Record.later cut.pivots)
          = full.trace.drop (min 2 full.trace.length - 1) := by
  have ht : twoPivots.WellShaped := ⟨by decide, by decide⟩
  have hrun : ((Solver.standard.solveTableau twoPivots).toOption.map fun full =>
      (full.status, full.iterations)) = some (.optimal, 2) := by decide +kernel
  have hcutoff : (((Solver.standard.start twoPivots).pulls 2).toOption.map fun result =>
      result.2.pivots) = some 1 := by decide +kernel
  obtain ⟨full, pulled, cut, hfull, hpulled, hresume⟩ := Solver.standard.resume_after_cut ht 2
  rw [hfull] at hrun
  rw [hpulled] at hcutoff
  obtain ⟨hstatus, hiterations⟩ := Prod.mk.inj (Option.some.inj hrun)
  obtain ⟨resumed, hresumed, hcontinues, htrace, -⟩ := hresume (.inl hstatus)
  exact ⟨ht, full, pulled, cut, resumed, hfull, hpulled, hstatus, hiterations,
    Option.some.inj hcutoff, hresumed, hcontinues, (htrace rfl).2⟩

end SimplexTableau

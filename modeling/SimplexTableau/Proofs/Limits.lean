import SimplexTableau.Proofs.Resumption

namespace SimplexTableau

/-!
# Runs under other limits

The limits of a solver decide how far a run goes and what is kept of it, but not which tableaus it
visits: that is up to the tolerance.

* `Solver.Within` — a solver of the same tolerance that allows no more pivots;
* `Run.under` — an examination as that solver makes it: the verdict is the same, and a pivot that
  is no longer allowed cuts the run off;
* `Course.under` — under such a solver the course of a tableau is the same, up to the cut;
* `Course.rest` — after some requests for records, the rest of the course is left.

Two laws follow for the solution of a well-shaped tableau: it does not depend on whether records
are kept or were taken before, and with fewer pivots allowed it is the same or cut off.  Nothing
here depends on the arithmetic of the cells.
-/

variable {K : Type}

/-- Solver `s` gives the verdicts of solver `full` and allows no more pivots. -/
structure Solver.Within (s full : Solver K) : Prop where
  /-- The verdicts are the same. -/
  tolerance_eq : s.tolerance = full.tolerance
  /-- No more pivots are allowed. -/
  maxIterations_le : s.maxIterations ≤ full.maxIterations

/-- The phase where no more pivots are allowed. -/
def Phase.cutOff : Phase → Phase
  | .pivoting _ _ => .limitReached
  | .fresh => .fresh
  | .optimal => .optimal
  | .unbounded name => .unbounded name
  | .limitReached => .limitReached

/-- The solution with other records; the answer is the same. -/
def Solution.withRecords (records : List (Record K)) (solution : Solution K) : Solution K :=
  { solution with trace := records }

/-- A run that ended by its verdict, after `n` pivots at most. -/
def Solution.EndsWithin (n : Nat) (solution : Solution K) : Prop :=
  (solution.status = .optimal ∨ solution.status = .unbounded) ∧ solution.iterations ≤ n

namespace Run

variable {r next : Run K} {runs : List (Run K)} {s : Solver K}

/-! ### Examinations under other limits -/

/-- The examination as solver `s` makes it. -/
def under (s : Solver K) (r : Run K) : Run K :=
  { r with
    solver := s
    phase := if r.pivots < s.maxIterations then r.phase else r.phase.cutOff }

@[simp] theorem solver_under (s : Solver K) (r : Run K) : (r.under s).solver = s := rfl

@[simp] theorem tableau_under (s : Solver K) (r : Run K) : (r.under s).tableau = r.tableau := rfl

@[simp] theorem pivots_under (s : Solver K) (r : Run K) : (r.under s).pivots = r.pivots := rfl

/-- Unless the pivot is no longer allowed, the phase stays. -/
theorem phase_under_eq (h : ∀ c i, r.phase = .pivoting c i → r.pivots < s.maxIterations) :
    (r.under s).phase = r.phase := by
  show (if r.pivots < s.maxIterations then r.phase else r.phase.cutOff) = r.phase
  split
  · rfl
  · rename_i hspent
    cases hphase : r.phase with
    | pivoting c i => exact absurd (h c i hphase) hspent
    | fresh => rfl
    | optimal => rfl
    | unbounded name => rfl
    | limitReached => rfl

/-- Without pivots left, the phase is cut off. -/
theorem phase_under_of_le (h : s.maxIterations ≤ r.pivots) :
    (r.under s).phase = r.phase.cutOff :=
  if_neg (Nat.not_lt.mpr h)

theorem phase_under_of_ne_pivoting (h : ∀ c i, r.phase ≠ .pivoting c i) :
    (r.under s).phase = r.phase :=
  phase_under_eq fun c i hphase => absurd hphase (h c i)

/-- Before the first examination there is nothing to cut off. -/
theorem start_under (full s : Solver K) (t : Tableau K) :
    (full.start t).under s = s.start t := by
  have hphase : ((full.start t).under s).phase = .fresh := phase_under_of_ne_pivoting nofun
  show (⟨s, t, 0, ((full.start t).under s).phase⟩ : Run K) = _
  rw [hphase]
  rfl

/-- Whether something was examined does not depend on the limits. -/
theorem examined_under (h : r.phase ≠ .fresh) : (r.under s).phase ≠ .fresh := by
  show (if r.pivots < s.maxIterations then r.phase else r.phase.cutOff) ≠ .fresh
  split
  · exact h
  · cases hphase : r.phase with
    | fresh => exact absurd hphase h
    | pivoting c i => exact nofun
    | optimal => exact nofun
    | unbounded name => exact nofun
    | limitReached => exact nofun

/-- A phase that is final or cut off ends the run. -/
theorem isTerminal_under_of_le (hexamined : r.phase ≠ .fresh) (h : s.maxIterations ≤ r.pivots) :
    (r.under s).state.isTerminal = true := by
  rw [state, phase_under_of_le h]
  cases hphase : r.phase with
  | fresh => exact absurd hphase hexamined
  | pivoting c i => rfl
  | optimal => rfl
  | unbounded name => rfl
  | limitReached => rfl

/-- A run that has ended has no pivot to cut off. -/
theorem phase_under_of_isTerminal (h : r.state.isTerminal = true) :
    (r.under s).phase = r.phase := by
  refine phase_under_of_ne_pivoting fun c i hphase => ?_
  rw [state, hphase] at h
  exact absurd h Bool.false_ne_true

theorem isTerminal_under (h : r.state.isTerminal = true) :
    (r.under s).state.isTerminal = true := by
  rw [state, phase_under_of_isTerminal h]
  exact h

theorem getLastD_map_under (runs : List (Run K)) (full s : Solver K) (t : Tableau K) :
    (runs.map (under s)).getLastD (s.start t) = (runs.getLastD (full.start t)).under s := by
  rw [← start_under full s t, List.getLastD_map]

variable [Cell K]

/-- A verdict stays; the pivot that it asks for is cut off where it is no longer allowed. -/
theorem Coherent.under (hr : r.Coherent) (hs : s.Within r.solver) : (r.under s).Coherent := by
  by_cases hcut : (∃ c i, r.phase = .pivoting c i) ∧ s.maxIterations ≤ r.pivots
  · obtain ⟨⟨c, i, hphase⟩, hspent⟩ := hcut
    have hselect := (hr.select_of_pivoting hphase).1
    rw [← hs.tolerance_eq] at hselect
    refine ⟨hr.wellShaped, ?_⟩
    rw [PhaseFits, phase_under_of_le hspent, hphase]
    exact ⟨⟨c, i, hselect⟩, hspent⟩
  · have hallowed : ∀ c i, r.phase = .pivoting c i → r.pivots < s.maxIterations :=
      fun c i hphase => Nat.not_le.mp fun hspent => hcut ⟨⟨c, i, hphase⟩, hspent⟩
    exact hr.of_phase_eq hs.tolerance_eq rfl (phase_under_eq hallowed) hallowed fun hphase =>
      hs.maxIterations_le.trans (hr.select_of_limitReached hphase).2

/-- **One step** under other limits, as long as its pivot is allowed. -/
theorem Follows.under (h : r.Follows next) (hs : s.Within r.solver)
    (hallowed : r.phase ≠ .fresh → r.pivots < s.maxIterations) :
    (r.under s).Follows (next.under s) := by
  have hphase : (r.under s).phase = r.phase :=
    phase_under_eq fun c i hpivot => hallowed (by rw [hpivot]; exact nofun)
  have hcoherent : (next.under s).Coherent := by
    rw [← h.solver_eq] at hs
    exact h.coherent.under hs
  refine ⟨rfl, hcoherent, examined_under h.examined, ?_⟩
  cases h.moves with
  | start hfresh htableau hpivots => exact .start (hphase.trans hfresh) htableau hpivots
  | pivot c i hpivot htableau hpivots => exact .pivot c i (hphase.trans hpivot) htableau hpivots

namespace Course

/-- **The rest of a course** under other limits: the examinations up to the cut. -/
theorem under (h : r.Course runs) (hs : s.Within r.solver) (hexamined : r.phase ≠ .fresh) :
    (r.under s).Course ((runs.take (s.maxIterations - r.pivots)).map (Run.under s)) := by
  -- the induction follows the course; with each step one pivot less is left
  induction runs generalizing r with
  | nil =>
    rw [List.take_nil]
    exact .nil (isTerminal_under h.ended)
  | cons next rest ih =>
    obtain ⟨c, i, hpivot, -, hpivots⟩ := h.head.pivot_of_examined hexamined
    by_cases hallowed : r.pivots < s.maxIterations
    · obtain ⟨left, hleft⟩ := Nat.exists_eq_add_of_lt hallowed
      have hnext : s.Within next.solver := by rwa [h.head.solver_eq]
      have hrest := ih h.tail hnext h.head.examined
      have hcount : s.maxIterations - next.pivots = left := by omega
      have hcount' : s.maxIterations - r.pivots = left + 1 := by omega
      rw [hcount] at hrest
      rw [hcount', List.take_succ_cons, List.map_cons]
      exact hrest.cons (h.head.under hs fun _ => hallowed)
    · have hspent := Nat.not_lt.mp hallowed
      rw [Nat.sub_eq_zero_of_le hspent, List.take_zero]
      exact .nil (isTerminal_under_of_le hexamined hspent)

variable {full : Solver K} {t : Tableau K}

/-- **The course under other limits** is the same, up to the cut. -/
theorem start_under (h : (full.start t).Course runs) (hs : s.Within full) :
    (s.start t).Course ((runs.take (s.maxIterations + 1)).map (Run.under s)) := by
  cases runs with
  | nil => exact absurd rfl h.ne_nil
  | cons first rest =>
    have hsolver : first.solver = full := h.head.solver_eq
    have hrest := h.tail.under (s := s) (by rwa [hsolver]) h.head.examined
    rw [h.head.pivots_of_start, Nat.sub_zero] at hrest
    rw [← Run.start_under full s t, List.take_succ_cons, List.map_cons]
    exact hrest.cons (h.head.under hs fun hfresh => absurd rfl hfresh)

/-- **After some requests** for records, the rest of the course is left, with the same end. -/
theorem rest (h : r.Course runs) (hr : r.Coherent) (n : Nat) :
    ((runs.take n).getLastD r).Coherent
      ∧ ((runs.take n).getLastD r).Course (runs.drop n)
      ∧ (runs.drop n).getLastD ((runs.take n).getLastD r) = runs.getLastD r
      ∧ ((runs.take n).getLastD r).solver = r.solver := by
  induction n generalizing r runs with
  | zero => exact ⟨hr, h, rfl, rfl⟩
  | succ n ih =>
    cases runs with
    | nil => exact ⟨hr, h, rfl, rfl⟩
    | cons next rest =>
      rw [List.take_succ_cons, List.drop_succ_cons, List.getLastD_cons, List.getLastD_cons,
        ← h.head.solver_eq]
      exact ih h.tail h.head.coherent

end Course

/-! ### Records and solutions under other limits -/

/-- The records of a solution are no part of its answer. -/
theorem outcome_eq_withRecords (r : Run K) (trace : List (Record K)) :
    r.outcome trace = (r.outcome []).withRecords trace := by
  cases hphase : r.phase <;> simp only [outcome, hphase] <;> rfl

/-- An optimum is the basic solution of the last record. -/
theorem outcome_of_status_optimal {trace : List (Record K)}
    (h : (r.outcome trace).status = .optimal) :
    (r.outcome trace).z = some r.report.z
      ∧ (r.outcome trace).values = some (.ofList r.report.classification.structural) := by
  rw [outcome_of_optimal (status_outcome_eq_optimal_iff.mp h)]
  exact ⟨rfl, rfl⟩

theorem report_under (hphase : (r.under s).phase = r.phase) (hs : s.Within r.solver) :
    (r.under s).report = r.report := by
  simp only [report, namedColumn, state, hphase, solver_under, tableau_under, pivots_under,
    hs.tolerance_eq]

/-- A run that has ended has the same solution under other limits, unless it was cut off. -/
theorem outcome_under (hend : r.state.isTerminal = true) (hs : s.Within r.solver)
    (hlimit : r.phase = .limitReached → s.maxIterations = r.solver.maxIterations)
    (trace : List (Record K)) : (r.under s).outcome trace = r.outcome trace := by
  have hstays := phase_under_of_isTerminal (s := s) hend
  obtain hphase | ⟨c, hphase⟩ | hphase := isTerminal_iff.mp hend
  · rw [hphase] at hstays
    simp only [outcome, hstays, hphase, solver_under, tableau_under, pivots_under,
      hs.tolerance_eq]
  · rw [hphase] at hstays
    simp only [outcome, hstays, hphase, pivots_under]
  · rw [hphase] at hstays
    simp only [outcome, hstays, hphase, solver_under, pivots_under, hlimit hphase]

namespace Course

variable {full : Solver K} {t : Tableau K}

/-- What a run has left after some requests decides the records of its solution. -/
theorem finish_rest (h : r.Course runs) (hr : r.Coherent) (n : Nat) :
    ((runs.take n).getLastD r).finish
      = .ok ((runs.getLastD r).outcome (r.keeps (runs.drop n))) := by
  obtain ⟨hcoherent, hcourse, hend, hsolver⟩ := h.rest hr n
  rw [hcourse.finish_eq hcoherent, hend, keeps, keeps, hsolver]

/-- **With pivots to spare** the course stays as it is. -/
theorem under_of_length_le (h : (full.start t).Course runs) (hs : s.Within full)
    (hlength : runs.length ≤ s.maxIterations + 1)
    (hpivots : ∀ a ∈ runs, ∀ c i, a.phase = .pivoting c i → a.pivots < s.maxIterations) :
    (s.start t).Course (runs.map (Run.under s))
      ∧ (runs.map (Run.under s)).map report = runs.map report := by
  have hcourse := h.start_under hs
  rw [List.take_of_length_le hlength] at hcourse
  refine ⟨hcourse, ?_⟩
  rw [List.map_map]
  refine List.map_congr_left fun a ha => report_under (phase_under_eq (hpivots a ha)) ?_
  have hsolver : a.solver = full := (h.coherent a ha).2.2
  rwa [hsolver]

/-- **Keeping records** changes neither the records nor the end of a course. -/
theorem withTrace (h : (full.start t).Course runs) (keep : Bool) :
    ∃ runs', ((full.withTrace keep).start t).Course runs'
      ∧ runs'.map report = runs.map report
      ∧ ∀ trace, (runs'.getLastD ((full.withTrace keep).start t)).outcome trace
        = (runs.getLastD (full.start t)).outcome trace := by
  have hs : (full.withTrace keep).Within full := ⟨rfl, Nat.le_refl _⟩
  obtain ⟨hcourse, hrecords⟩ := h.under_of_length_le hs h.length_le fun a ha c i hphase => by
    -- the pivot was allowed, and as many are allowed now
    obtain ⟨hcoherent, -, hsolver⟩ := h.coherent a ha
    have hsolver : a.solver = full := hsolver
    have hallowed := (hcoherent.select_of_pivoting hphase).2
    rwa [hsolver] at hallowed
  refine ⟨_, hcourse, hrecords, fun trace => ?_⟩
  have hsolver : (runs.getLastD (full.start t)).solver = full := (h.coherent _ h.last_mem).2.2
  rw [getLastD_map_under runs full]
  exact outcome_under h.ended (by rwa [hsolver]) (fun _ => by rw [hsolver]; rfl) trace

/-- An examination that has chosen a pivot is not the last one. -/
theorem pivots_lt_of_pivoting (h : (full.start t).Course runs) {a : Run K} (ha : a ∈ runs)
    {c i : Nat} (hphase : a.phase = .pivoting c i) :
    a.pivots < (runs.getLastD (full.start t)).pivots := by
  obtain ⟨k, hk⟩ := List.getElem?_of_mem ha
  obtain ⟨hlt, -⟩ := List.getElem?_eq_some_iff.mp hk
  have hlength := h.length_eq
  have hpivots := h.pivots_of_getElem? hk
  have hne : k ≠ runs.length - 1 := by
    rintro rfl
    -- the last examination has ended the run
    have hlast : a = runs.getLastD (full.start t) :=
      Option.some.inj (hk.symm.trans h.getElem?_last)
    have hended := h.ended
    rw [← hlast, state, hphase] at hended
    exact absurd hended Bool.false_ne_true
  omega

/-- **An early end** by the verdict stays as it is under a lower cap. -/
theorem under_of_endsWithin (h : (full.start t).Course runs) (hs : s.Within full)
    {trace : List (Record K)}
    (hends : ((runs.getLastD (full.start t)).outcome trace).EndsWithin s.maxIterations) :
    (s.start t).Course (runs.map (Run.under s))
      ∧ (runs.map (Run.under s)).map report = runs.map report
      ∧ ∀ trace, ((runs.map (Run.under s)).getLastD (s.start t)).outcome trace
        = (runs.getLastD (full.start t)).outcome trace := by
  obtain ⟨hstatus, hpivots⟩ := hends
  rw [status_outcome_eq_optimal_iff, status_outcome_eq_unbounded_iff] at hstatus
  rw [iterations_outcome] at hpivots
  have hlength : runs.length ≤ s.maxIterations + 1 := by
    rw [h.length_eq]
    exact Nat.succ_le_succ hpivots
  obtain ⟨hcourse, hrecords⟩ := h.under_of_length_le hs hlength fun a ha c i hphase =>
    Nat.lt_of_lt_of_le (h.pivots_lt_of_pivoting ha hphase) hpivots
  have hsolver : (runs.getLastD (full.start t)).solver = full := (h.coherent _ h.last_mem).2.2
  refine ⟨hcourse, hrecords, fun trace => ?_⟩
  rw [getLastD_map_under runs full]
  refine outcome_under h.ended (by rwa [hsolver]) (fun hphase => ?_) trace
  rw [hphase] at hstatus
  simp at hstatus

/-- A run that does not end by its verdict within the pivots of a lower cap has an examination
    after as many pivots, and there it goes on or is cut off. -/
theorem exists_cut (h : (full.start t).Course runs) (hcaps : s.maxIterations ≤ full.maxIterations)
    {trace : List (Record K)}
    (hgoes : ¬ ((runs.getLastD (full.start t)).outcome trace).EndsWithin s.maxIterations) :
    ∃ a, runs[s.maxIterations]? = some a ∧ a.phase.cutOff = .limitReached := by
  rw [Solution.EndsWithin, status_outcome_eq_optimal_iff, status_outcome_eq_unbounded_iff,
    iterations_outcome] at hgoes
  have hlength := h.length_eq
  obtain ⟨hcoherent, -, hsolver⟩ := h.coherent _ h.last_mem
  have hend := isTerminal_iff.mp h.ended
  have hlong : s.maxIterations ≤ (runs.getLastD (full.start t)).pivots := by
    by_contra hshort
    obtain hphase | hphase | hphase := hend
    · exact hgoes ⟨.inl hphase, by omega⟩
    · exact hgoes ⟨.inr hphase, by omega⟩
    · have hspent := (hcoherent.select_of_limitReached hphase).2
      rw [hsolver] at hspent
      exact hshort (hcaps.trans hspent)
  have hlt : s.maxIterations < runs.length := by omega
  refine ⟨_, List.getElem?_eq_getElem hlt, ?_⟩
  by_cases hlast : s.maxIterations + 1 < runs.length
  · obtain ⟨c, i, hphase, -, -⟩ := h.pivot_getElem hlast
    rw [hphase]
    rfl
  · -- the run was cut off at its last examination
    have hlast : s.maxIterations = runs.length - 1 := by omega
    have hget : runs[s.maxIterations] = runs.getLastD (full.start t) := by
      refine Option.some.inj ?_
      rw [← List.getElem?_eq_getElem hlt, hlast, h.getElem?_last]
    rw [hget]
    obtain hphase | hphase | hphase := hend
    · exact absurd ⟨.inl hphase, by omega⟩ hgoes
    · exact absurd ⟨.inr hphase, by omega⟩ hgoes
    · rw [hphase]
      rfl

/-- **Where the cap cuts.** If the run goes on after as many pivots as are allowed now, or was cut
    off there before, then the course under the cap has the examinations up to there, and the cut
    at its end. -/
theorem under_of_cut (h : (full.start t).Course runs) (hs : s.Within full) {a : Run K}
    (ha : runs[s.maxIterations]? = some a) (hcut : a.phase.cutOff = .limitReached) :
    (s.start t).Course ((runs.take s.maxIterations).map (Run.under s) ++ [a.under s])
      ∧ (a.under s).phase = .limitReached ∧ a.pivots = s.maxIterations
      ∧ ((runs.take s.maxIterations).map (Run.under s)).map report
        = (runs.map report).take s.maxIterations
      ∧ ∀ b ∈ runs.take s.maxIterations, b.state = .pivoting := by
  obtain ⟨hlt, -⟩ := List.getElem?_eq_some_iff.mp ha
  have hpivots := h.pivots_of_getElem? ha
  have hbefore : ∀ b ∈ runs.take s.maxIterations,
      b.solver = full ∧ b.pivots < s.maxIterations ∧ b.state = .pivoting := by
    intro b hb
    obtain ⟨k, hk⟩ := List.getElem?_of_mem hb
    rw [List.getElem?_take] at hk
    split at hk
    case isFalse => exact absurd hk nofun
    case isTrue hkl =>
      obtain ⟨hk', rfl⟩ := List.getElem?_eq_some_iff.mp hk
      obtain ⟨c, i, hphase, -, -⟩ := h.pivot_getElem (k := k) (by omega)
      refine ⟨(h.coherent _ (List.getElem_mem hk')).2.2, ?_, ?_⟩
      · rw [h.pivots_of_getElem? hk]
        exact hkl
      · rw [state, hphase]
        rfl
  have hcourse := h.start_under hs
  rw [List.take_add_one, ha, Option.toList_some, List.map_append, List.map_singleton] at hcourse
  refine ⟨hcourse, ?_, hpivots, ?_, fun b hb => (hbefore b hb).2.2⟩
  · rw [phase_under_of_le hpivots.ge, hcut]
  · rw [List.map_map, ← List.map_take]
    refine List.map_congr_left fun b hb => ?_
    obtain ⟨hsolver, hallowed, -⟩ := hbefore b hb
    exact report_under (phase_under_eq fun _ _ _ => hallowed) (by rwa [hsolver])

end Course

end Run

/-! ### Two laws of solutions -/

variable [Cell K]

/-- **Records do not matter to the answer.** From a well-shaped tableau a run has one list of
    records and one answer.  After any number of requests for records, finishing the run gives that
    answer, with the records that were left or with none, as the solver has it.  At an optimum the
    answer is the basic solution of the last record. -/
theorem Solver.finish_from_any_point (s : Solver K) {t : Tableau K} (ht : t.WellShaped) :
    ∃ (records : List (Record K)) (solution : Solution K), ∀ (keep : Bool) (n : Nat),
      ∃ last pulled cut, ((s.withTrace keep).start t).collect = .ok (records, last)
        ∧ ((s.withTrace keep).start t).finish
          = .ok (solution.withRecords (if keep then records else []))
        ∧ ((s.withTrace keep).start t).pulls n = .ok (pulled, cut)
        ∧ pulled = (List.range n).map (records[·]?)
        ∧ cut.finish = .ok (solution.withRecords (if keep then records.drop n else []))
        ∧ (solution.status = .optimal → ∀ record, (records.drop n).getLast? = some record →
          solution.z = some record.z
            ∧ solution.values = some (.ofList record.classification.structural)) := by
  obtain ⟨runs, h, -, -⟩ := (Run.coherent_start s ht).exists_course
  refine ⟨runs.map Run.report, (runs.getLastD (s.start t)).outcome [], fun keep n => ?_⟩
  have hstart := Run.coherent_start (s.withTrace keep) ht
  obtain ⟨runs', h', hrecords, houtcome⟩ := h.withTrace keep
  -- whatever was taken before, the rest comes to the same end
  have hrest : ∀ n, ((runs'.take n).getLastD ((s.withTrace keep).start t)).finish
      = .ok (((runs.getLastD (s.start t)).outcome []).withRecords
        (if keep then (runs.map Run.report).drop n else [])) := by
    intro n
    rw [h'.finish_rest hstart n, houtcome, Run.outcome_eq_withRecords, Run.keeps, List.map_drop,
      hrecords]
    rfl
  obtain ⟨runs'', h'', hcollect, -⟩ := hstart.exists_course
  obtain rfl := h'.unique h''
  have hpulls := h'.pulls_eq hstart n
  rw [hrecords] at hcollect hpulls
  refine ⟨_, _, _, hcollect, hrest 0, hpulls, rfl, hrest n, fun hstatus record hlast => ?_⟩
  have hreport : record = (runs.getLastD (s.start t)).report := by
    rw [List.getLast?_drop, h.getLast?_map_report] at hlast
    split at hlast
    · cases hlast
    · exact (Option.some.inj hlast).symm
  rw [hreport]
  exact Run.outcome_of_status_optimal hstatus

/-- After one record a pivot is chosen, but not made; the run still comes to its optimum. -/
theorem finish_from_any_point_twoPivots :
    twoPivots.WellShaped
      ∧ ∃ (records : List (Record Float)) (solution : Solution Float),
        solution.status = .optimal ∧ records.length = 3
          ∧ ∀ keep : Bool, ∃ pulled cut,
            ((Solver.standard.withTrace keep).start twoPivots).pulls 1 = .ok (pulled, cut)
              ∧ cut.finish = .ok (solution.withRecords (if keep then records.drop 1 else [])) := by
  have ht : twoPivots.WellShaped := ⟨by decide, by decide⟩
  have hrun : (((Solver.standard.withTrace true).start twoPivots).finish.toOption.map
      fun full => (full.status, full.trace.length)) = some (.optimal, 3) := by decide +kernel
  obtain ⟨records, solution, h⟩ := Solver.standard.finish_from_any_point ht
  obtain ⟨-, -, -, -, hfull, -⟩ := h true 0
  rw [hfull] at hrun
  obtain ⟨hstatus, hlength⟩ := Prod.mk.inj (Option.some.inj hrun)
  refine ⟨ht, records, solution, hstatus, hlength, fun keep => ?_⟩
  obtain ⟨-, pulled, cut, -, -, hpulled, -, hfinish, -⟩ := h keep 1
  exact ⟨pulled, cut, hpulled, hfinish⟩

/-- **A lower cap.** Of two runs of a well-shaped tableau let one be allowed fewer pivots.  If the
    other ends by its verdict within these, the two have one solution and one list of records.
    Otherwise the first is cut off after all its pivots, and until then its records are the first
    ones of the other. -/
theorem Solver.solution_under_lower_cap (s : Solver K) {t : Tableau K} (ht : t.WellShaped)
    {low high : Nat} (hcaps : low ≤ high) :
    ∃ short long shortRecords longRecords,
      (s.withMaxIterations low).solveTableau t = .ok short
        ∧ (s.withMaxIterations high).solveTableau t = .ok long
        ∧ (∃ last, ((s.withMaxIterations low).start t).collect = .ok (shortRecords, last))
        ∧ (∃ last, ((s.withMaxIterations high).start t).collect = .ok (longRecords, last))
        ∧ (long.EndsWithin low → short = long ∧ shortRecords = longRecords)
        ∧ (¬ long.EndsWithin low →
          short = .iterationLimit low low (if s.trace then shortRecords else [])
            ∧ low < longRecords.length
            ∧ shortRecords.filter (·.state = .pivoting) = longRecords.take low) := by
  have hs : (s.withMaxIterations low).Within (s.withMaxIterations high) := ⟨rfl, hcaps⟩
  obtain ⟨runs, h, hcollect, hfinish⟩ :=
    (Run.coherent_start (s.withMaxIterations high) ht).exists_course
  obtain ⟨runs', h', hcollect', hfinish'⟩ :=
    (Run.coherent_start (s.withMaxIterations low) ht).exists_course
  refine ⟨_, _, _, _, hfinish', hfinish, ⟨_, hcollect'⟩, ⟨_, hcollect⟩, fun hends => ?_,
    fun hgoes => ?_⟩
  · obtain ⟨hcourse, hrecords, houtcome⟩ := h.under_of_endsWithin hs hends
    obtain rfl := h'.unique hcourse
    rw [houtcome, Run.keeps, Run.keeps, hrecords]
    exact ⟨rfl, rfl⟩
  · obtain ⟨a, ha, hcut⟩ := h.exists_cut (s := s.withMaxIterations low) hcaps hgoes
    obtain ⟨hcourse, hphase, hpivots, hrecords, hbefore⟩ := h.under_of_cut hs ha hcut
    obtain rfl := h'.unique hcourse
    obtain ⟨hlt, -⟩ := List.getElem?_eq_some_iff.mp ha
    refine ⟨?_, by rwa [List.length_map], ?_⟩
    · rw [List.getLastD_concat, Run.outcome, hphase, Run.keeps]
      show Solution.iterationLimit low a.pivots _ = _
      rw [hpivots]
      rfl
    · have hkept : ((runs.map Run.report).take low).filter (·.state = .pivoting)
          = (runs.map Run.report).take low := by
        refine List.filter_eq_self.mpr fun record hrecord => decide_eq_true ?_
        rw [← List.map_take] at hrecord
        obtain ⟨b, hb, rfl⟩ := List.mem_map.mp hrecord
        exact hbefore b hb
      have hstate : (a.under (s.withMaxIterations low)).report.state = .iterationLimitExceeded :=
        congrArg Phase.state hphase
      rw [List.map_append, hrecords, List.filter_append, List.map_singleton,
        List.filter_singleton, hstate]
      exact (List.append_nil _).trans hkept

/-- The second pivot is no longer allowed; the first one is that of the longer run. -/
theorem solution_under_lower_cap_twoPivots :
    twoPivots.WellShaped
      ∧ ∃ short long shortRecords longRecords,
        (Solver.standard.withMaxIterations 1).solveTableau twoPivots = .ok short
          ∧ (Solver.standard.withMaxIterations 2).solveTableau twoPivots = .ok long
          ∧ long.status = .optimal ∧ long.iterations = 2
          ∧ (∃ last, ((Solver.standard.withMaxIterations 2).start twoPivots).collect
            = .ok (longRecords, last))
          ∧ short = .iterationLimit 1 1 shortRecords
          ∧ shortRecords.filter (·.state = .pivoting) = longRecords.take 1 := by
  have ht : twoPivots.WellShaped := ⟨by decide, by decide⟩
  have hrun : (((Solver.standard.withMaxIterations 2).solveTableau twoPivots).toOption.map
      fun long => (long.status, long.iterations)) = some (.optimal, 2) := by decide +kernel
  obtain ⟨short, long, shortRecords, longRecords, hshort, hlong, -, hrecords, -, hcut⟩ :=
    Solver.standard.solution_under_lower_cap ht (Nat.le_succ 1)
  rw [hlong] at hrun
  obtain ⟨hstatus, hiterations⟩ := Prod.mk.inj (Option.some.inj hrun)
  obtain ⟨hsolution, -, hpivoting⟩ := hcut fun hends => by
    have hle := hends.2
    rw [hiterations] at hle
    exact absurd hle (by decide)
  exact ⟨ht, short, long, shortRecords, longRecords, hshort, hlong, hstatus, hiterations, hrecords,
    hsolution, hpivoting⟩

end SimplexTableau

import SimplexTableau.Proofs.Limits
import SimplexTableau.Proofs.Validation
import SimplexTableau.Text.Report

namespace SimplexTableau

/-!
# Events, records and solutions

A run announces each examination as it makes it, on the way to its end with records and on the way
without.  A record is made afterwards: it reads its verdict off the phase, but chooses the column
of an unbounded run once more.  The solution names that column as the run has kept it.  The three
agree:

* `Announcement` — what someone who watches receives of an event;
* `Record.events`, `Record.announcements` — what should be announced with a record, and what should
  be received of it; `Coherent.announced_eq`: an examination announces what its record says;
* `Course.watch_eq` — the events of a run are those of its records in turn;
* `Course.levels_eq` — how detailed they are: a tableau and a pivot again and again, then the last
  tableau and the end;
* `Solution.announcement?` — the last event, read off the solution;
* `Narrates` — the events of a run tell its records and its solution.

The last theorem says so of every problem.  Nothing here depends on the arithmetic of the cells.
-/

variable {K : Type}

/-! ### What is received -/

/-- What someone who watches receives of an event. -/
structure Announcement (K : Type) where
  /-- How much detail it belongs to. -/
  level : Level
  /-- What it says. -/
  message : String
  /-- The values that it names. -/
  fields : List (String × FieldValue K)

/-- The event as it is received. -/
def Event.announcement [Cell K] [Tabulated K] (event : Event K) : Announcement K :=
  ⟨event.level, event.message, event.fields⟩

/-! ### What a record says -/

/-- The event that tells the verdict of a record.  Records of runs have one, others may not. -/
def Record.verdict? (record : Record K) : Option (Event K) :=
  match record.state, record.entering, record.leavingRow with
  | .pivoting, some column, some row => some (.selected record.step column row record.z)
  | .optimal, _, _ => some (.optimal record.step record.z)
  | .unbounded, some column, _ => some (.unbounded record.step column)
  | .iterationLimitExceeded, _, _ => some (.limitReached record.step)
  | _, _, _ => none

/-- What is announced with a record: its tableau, then its verdict. -/
def Record.events (record : Record K) : List (Event K) :=
  .examined record.step record.tableau :: record.verdict?.toList

/-- What should be received of the verdict of a record. -/
def Record.verdictAnnouncement? (record : Record K) : Option (Announcement K) :=
  match record.state, record.entering, record.leavingRow with
  | .pivoting, some column, some row => some ⟨.debug, "selected pivot",
    [("step", .count record.step), ("column", .name column), ("row", .count row),
      ("z", .amount record.z)]⟩
  | .optimal, _, _ =>
    some ⟨.info, "optimal", [("iterations", .count record.step), ("z", .amount record.z)]⟩
  | .unbounded, some column, _ =>
    some ⟨.info, "unbounded", [("iterations", .count record.step), ("column", .name column)]⟩
  | .iterationLimitExceeded, _, _ =>
    some ⟨.info, "iteration limit exceeded", [("limit", .count record.step)]⟩
  | _, _, _ => none

/-- What should be received of a record: its tableau as a table, then its verdict. -/
def Record.announcements [Cell K] [Tabulated K] (record : Record K) : List (Announcement K) :=
  ⟨.trace, "tableau\n" ++ record.tableau.text, [("step", .count record.step)]⟩
    :: record.verdictAnnouncement?.toList

/-- What is received of a record is what should be. -/
theorem Record.map_announcement_events [Cell K] [Tabulated K] (record : Record K) :
    record.events.map Event.announcement = record.announcements := by
  have hverdict : record.verdict?.map Event.announcement = record.verdictAnnouncement? := by
    rw [verdict?, verdictAnnouncement?]
    split <;> rfl
  rw [events, announcements, ← hverdict, List.map_cons, Option.toList_map]
  rfl

/-- The event that tells the end of a run, read off its solution. -/
def Solution.announcement? (solution : Solution K) : Option (Event K) :=
  match solution.failure, solution.z with
  | some (.unbounded column), _ => some (.unbounded solution.iterations column)
  | some (.iterationLimitExceeded limit), _ => some (.limitReached limit)
  | none, some z => some (.optimal solution.iterations z)
  | _, _ => none

/-- The events of a run from tableau `t` tell its records and its solution. -/
structure Narrates [Cell K] (t : Tableau K) (records : List (Record K)) (solution : Solution K)
    (events : List (Event K)) : Prop where
  /-- The tableau was built, and what followed is what the records say in turn. -/
  events_eq : events = .built t.numStructural t.numConstraints :: records.flatMap Record.events
  /-- So is what is received, in words and values, however numbers are shown in tables. -/
  received : ∀ [Tabulated K], events.map Event.announcement
    = ⟨.debug, "built initial tableau",
        [("vars", .count t.numStructural), ("constraints", .count t.numConstraints)]⟩
      :: records.flatMap Record.announcements
  /-- Every record tells its verdict. -/
  isSome_verdict : ∀ record ∈ records, record.verdict?.isSome
  /-- One event is of the first level, the last: it tells the last record and the solution. -/
  last : ∃ before event, events = before ++ [event]
    ∧ event.level = .info ∧ (∀ earlier ∈ before, earlier.level ≠ .info)
    ∧ records.getLast?.bind Record.verdict? = some event
    ∧ solution.announcement? = some event
  /-- The tableau is shown once before the first pivot and once after each. -/
  count_trace : (events.map Event.level).count .trace = solution.iterations + 1
  /-- The first tableau is built, and each pivot is told. -/
  count_debug : (events.map Event.level).count .debug = solution.iterations + 1
  /-- The variable that can grow without limit has one name in all three. -/
  unbounded : solution.status = .unbounded → ∃ column,
    events.getLast? = some (.unbounded solution.iterations column)
      ∧ records.getLast?.bind (·.entering) = some column
      ∧ solution.failure = some (.unbounded column)

namespace Run

variable [Cell K] {r next : Run K} {runs : List (Run K)} {s : Solver K} {t : Tableau K}

/-! ### Examinations -/

/-- What the record of an examination says, by the phase.  Of an unbounded run it says the name that
    the run has kept, though the record has chosen the column once more. -/
theorem Coherent.verdict?_report (hr : r.Coherent) : r.report.verdict? =
    match r.phase with
    | .fresh => none
    | .pivoting c i => some (.selected r.pivots (r.tableau.columnAt c).name i
        (r.tableau.entry 0 r.tableau.rhsColumn))
    | .optimal => some (.optimal r.pivots (r.tableau.entry 0 r.tableau.rhsColumn))
    | .unbounded name => some (.unbounded r.pivots name)
    | .limitReached => some (.limitReached r.pivots) := by
  cases hphase : r.phase with
  | unbounded name =>
    obtain ⟨c, -, hnamed, hname, -⟩ := hr.exists_namedColumn hphase
    simp [Record.verdict?, report, state, hphase, Phase.state, hnamed, hname]
  | pivoting c i =>
    simp [Record.verdict?, report, state, hphase, Phase.state, namedColumn_of_pivoting hphase,
      Phase.row?]
  | fresh => simp [Record.verdict?, report, state, hphase, Phase.state]
  | optimal => simp [Record.verdict?, report, state, hphase, Phase.state]
  | limitReached => simp [Record.verdict?, report, state, hphase, Phase.state]

/-- **An examination** announces what its record says.  A run that was cut off names its limit, and
    that is the number of its pivots. -/
theorem Coherent.announced_eq (hr : r.Coherent) (hexamined : r.phase ≠ .fresh)
    (hcut : r.phase = .limitReached → r.pivots = r.solver.maxIterations) :
    r.announced = r.report.events := by
  rw [Record.events, hr.verdict?_report, announced]
  cases hphase : r.phase with
  | fresh => exact absurd hphase hexamined
  | limitReached =>
    rw [← hcut hphase]
    rfl
  | pivoting c i => rfl
  | optimal => rfl
  | unbounded name => rfl

/-- **At the end** the solution says what the last record says. -/
theorem Coherent.announcement?_outcome (hr : r.Coherent) (hend : r.state.isTerminal = true)
    (hcut : r.phase = .limitReached → r.pivots = r.solver.maxIterations)
    (trace : List (Record K)) :
    (r.outcome trace).announcement? = r.report.verdict? := by
  rw [hr.verdict?_report]
  obtain hphase | ⟨name, hphase⟩ | hphase := isTerminal_iff.mp hend
  · simp only [outcome, hphase]
    rfl
  · simp only [outcome, hphase]
    rfl
  · simp only [outcome, hphase, hcut hphase]
    rfl

theorem Coherent.levels_of_pivoting (hr : r.Coherent) {c i : Nat}
    (hphase : r.phase = .pivoting c i) :
    r.report.events.map Event.level = [.trace, .debug] := by
  rw [Record.events, hr.verdict?_report, hphase]
  rfl

/-- The verdict that ends a run is of the first level. -/
theorem Coherent.level_of_isTerminal (hr : r.Coherent) (hend : r.state.isTerminal = true) :
    ∃ event, r.report.verdict? = some event ∧ event.level = .info := by
  rw [hr.verdict?_report]
  obtain hphase | ⟨name, hphase⟩ | hphase := isTerminal_iff.mp hend
  · rw [hphase]
    exact ⟨_, rfl, rfl⟩
  · rw [hphase]
    exact ⟨_, rfl, rfl⟩
  · rw [hphase]
    exact ⟨_, rfl, rfl⟩

theorem Coherent.isSome_verdict_report (hr : r.Coherent) (hexamined : r.phase ≠ .fresh) :
    r.report.verdict?.isSome := by
  rw [hr.verdict?_report]
  cases hphase : r.phase with
  | fresh => exact absurd hphase hexamined
  | pivoting c i => rfl
  | optimal => rfl
  | unbounded name => rfl
  | limitReached => rfl

/-! ### Courses -/

namespace Course

/-- Every examination of the run of a tableau announces what its record says. -/
theorem flatMap_announced (h : (s.start t).Course runs) :
    runs.flatMap announced = (runs.map report).flatMap Record.events := by
  rw [List.flatMap_map]
  refine List.flatMap_congr fun a ha => ?_
  obtain ⟨hcoherent, hexamined, -⟩ := h.coherent a ha
  exact hcoherent.announced_eq hexamined (h.pivots_of_limitReached ha)

/-- **The solution of a problem and its events**: what is announced on the way is what the records
    say in turn, whether records are kept or not. -/
theorem watch_eq (h : (s.start t).Course runs) {p : Problem K} (hp : p.tableau = .ok t) :
    s.watch p = .told ((runs.getLastD (s.start t)).outcome ((s.start t).keeps runs))
      (.built t.numStructural t.numConstraints :: (runs.map report).flatMap Record.events) := by
  obtain ⟨runs', -, hchain, hend, hwatch⟩ :=
    (coherent_start s (Problem.wellShaped_of_tableau hp)).watch_ok
  obtain rfl := h.unique ⟨hchain, hend⟩
  rw [s.watch_of_tableau hp, Solver.solveTableau, finish, hwatch, h.flatMap_announced]
  rfl

theorem solve_eq (h : (s.start t).Course runs) {p : Problem K} (hp : p.tableau = .ok t) :
    s.solve p = .ok ((runs.getLastD (s.start t)).outcome ((s.start t).keeps runs)) := by
  rw [Solver.solve, h.watch_eq hp]
  rfl

theorem events_eq (h : (s.start t).Course runs) {p : Problem K} (hp : p.tableau = .ok t) :
    s.events p = .ok (.built t.numStructural t.numConstraints
      :: (runs.map report).flatMap Record.events) := by
  rw [Solver.events, h.watch_eq hp, Watched.seen_told]

/-- **How detailed** the events of a run are: a tableau and a pivot again and again, then the last
    tableau and the end, as the last record says it. -/
theorem levels_eq (h : r.Course (next :: runs)) :
    ∃ before event,
      ((next :: runs).map report).flatMap Record.events = before ++ [event]
        ∧ before.map Event.level
          = (List.replicate runs.length [Level.trace, Level.debug]).flatten ++ [.trace]
        ∧ event.level = .info
        ∧ (runs.getLastD next).report.verdict? = some event := by
  -- the induction follows the course; all but its last examination choose a pivot
  induction runs generalizing r next with
  | nil =>
    have hended : next.state.isTerminal = true := h.ended
    obtain ⟨event, hevent, hlevel⟩ := h.head.coherent.level_of_isTerminal hended
    refine ⟨[.examined next.pivots next.tableau], event, ?_, rfl, hlevel, hevent⟩
    rw [List.map_singleton, List.flatMap_singleton, Record.events, hevent]
    rfl
  | cons after rest ih =>
    obtain ⟨c, i, hpivot, -, -⟩ := h.tail.head.pivot_of_examined h.head.examined
    obtain ⟨before, event, hevents, hlevels, hinfo, hlast⟩ := ih h.tail
    refine ⟨next.report.events ++ before, event, ?_, ?_, hinfo, ?_⟩
    · rw [List.map_cons, List.flatMap_cons, hevents, List.append_assoc]
    · rw [List.map_append, h.head.coherent.levels_of_pivoting hpivot, hlevels]
      rfl
    · rwa [List.getLastD_cons]

/-- The events of the run of a tableau: after the tableau is built, two for each pivot, and two at
    the end. -/
theorem last_event (h : (s.start t).Course runs) :
    ∃ before event,
      .built t.numStructural t.numConstraints :: (runs.map report).flatMap Record.events
          = before ++ [event]
        ∧ before.map Event.level = .debug
          :: (List.replicate (runs.getLastD (s.start t)).pivots [Level.trace, Level.debug]).flatten
          ++ [.trace]
        ∧ event.level = .info
        ∧ (runs.getLastD (s.start t)).report.verdict? = some event := by
  cases runs with
  | nil => exact absurd rfl h.ne_nil
  | cons first rest =>
    obtain ⟨before, event, hevents, hlevels, hinfo, hsaid⟩ := h.levels_eq
    have hpivots : ((first :: rest).getLastD (s.start t)).pivots = rest.length :=
      (Nat.succ.inj h.length_eq).symm
    refine ⟨.built t.numStructural t.numConstraints :: before, event, ?_, ?_, hinfo, ?_⟩
    · rw [hevents, List.cons_append]
    · rw [List.map_cons, hlevels, hpivots]
      rfl
    · rwa [List.getLastD_cons]

/-- **Three names.** A run without bound names one column: in its last event, in its last record,
    which has chosen the column once more, and in its solution. -/
theorem unbounded_column (h : (s.start t).Course runs) {trace : List (Record K)}
    (hstatus : ((runs.getLastD (s.start t)).outcome trace).status = .unbounded) :
    ∃ column,
      (runs.getLastD (s.start t)).report.verdict?
          = some (.unbounded (runs.getLastD (s.start t)).pivots column)
        ∧ (runs.map report).getLast?.bind (·.entering) = some column
        ∧ ((runs.getLastD (s.start t)).outcome trace).failure = some (.unbounded column) := by
  obtain ⟨name, hphase⟩ := status_outcome_eq_unbounded_iff.mp hstatus
  have hlast : (runs.getLastD (s.start t)).Coherent := (h.coherent _ h.last_mem).1
  obtain ⟨c, -, hnamed, hname, -⟩ := hlast.exists_namedColumn hphase
  refine ⟨name, ?_, ?_, ?_⟩
  · rw [hlast.verdict?_report, hphase]
  · rw [h.getLast?_map_report, Option.bind_some, report, hnamed, Option.map_some, hname]
  · rw [outcome, hphase]
    rfl

/-- **The events of a run** tell its records and its solution. -/
theorem narrates (h : (s.start t).Course runs) (trace : List (Record K)) :
    Narrates t (runs.map report) ((runs.getLastD (s.start t)).outcome trace)
      (.built t.numStructural t.numConstraints :: (runs.map report).flatMap Record.events) := by
  obtain ⟨before, event, hevents, hlevels, hinfo, hsaid⟩ := h.last_event
  have hcut := h.pivots_of_limitReached h.last_mem
  have hlast : (runs.getLastD (s.start t)).Coherent := (h.coherent _ h.last_mem).1
  refine ⟨rfl, ?_, ?_, ⟨before, event, hevents, hinfo, ?_, ?_, ?_⟩, ?_, ?_,
    fun hstatus => ?_⟩
  · intro tabulated
    rw [List.map_cons, List.map_flatMap]
    simp only [Record.map_announcement_events]
    rfl
  · intro record hrecord
    obtain ⟨a, ha, rfl⟩ := List.mem_map.mp hrecord
    obtain ⟨hcoherent, hexamined, -⟩ := h.coherent a ha
    exact hcoherent.isSome_verdict_report hexamined
  · intro earlier hearlier hlevel
    have hmem : Level.info ∈ before.map Event.level := hlevel ▸ List.mem_map_of_mem hearlier
    simp [hlevels] at hmem
  · rw [h.getLast?_map_report]
    exact hsaid
  · exact (hlast.announcement?_outcome h.ended hcut trace).trans hsaid
  · rw [hevents, List.map_append, hlevels, List.map_singleton, hinfo, iterations_outcome]
    simp [List.count_flatten]
  · rw [hevents, List.map_append, hlevels, List.map_singleton, hinfo, iterations_outcome]
    simp [List.count_flatten]
  · obtain ⟨column, hverdict, hentering, hfailure⟩ := h.unbounded_column hstatus
    refine ⟨column, ?_, hentering, hfailure⟩
    rw [hevents, List.getLast?_concat, iterations_outcome, ← hverdict, hsaid]

end Course

end Run

/-! ### Problems -/

variable [Cell K]

/-- **Events, records and solution tell one story.** A problem that is refused has no events.  Any
    other one has a run with one list of records and one solution, and the events tell both, whether
    records are kept or not. -/
theorem Solver.events_tell_records (s : Solver K) (p : Problem K) :
    (∀ fault, p.validate = .error fault ∨ p.tableau = .error fault →
      s.solve p = .error (.refused fault) ∧ s.events p = .ok [])
    ∧ ∀ t, p.tableau = .ok t → ∃ records solution events,
        (∃ last, (s.start t).collect = .ok (records, last))
          ∧ s.solve p = .ok solution
          ∧ (s.trace = true → solution.trace = records)
          ∧ s.events p = .ok events
          ∧ (∀ keep, (s.withTrace keep).events p = .ok events)
          ∧ Narrates t records solution events := by
  refine ⟨fun fault hfault => ?_, fun t hp => ?_⟩
  · have htableau : p.tableau = .error fault := hfault.elim Problem.tableau_of_validate_error id
    rw [events, s.watch_of_refused htableau]
    exact ⟨s.solve_of_refused htableau, rfl⟩
  · obtain ⟨runs, h, hcollect, -⟩ :=
      (Run.coherent_start s (Problem.wellShaped_of_tableau hp)).exists_course
    refine ⟨_, _, _, ⟨_, hcollect⟩, h.solve_eq hp, fun htrace => ?_, h.events_eq hp, fun keep => ?_,
      h.narrates _⟩
    · rw [Run.trace_outcome, Run.keeps]
      exact if_pos htrace
    · obtain ⟨runs', h', hrecords, -⟩ := h.withTrace keep
      rw [h'.events_eq hp, hrecords]

/-- Only the first of two variables has a bound, so the second can grow once the first has. -/
def halfBounded : Problem Float where
  objective := [2, 1]
  constraints := [[1, 0]]
  rhs := [1]

theorem events_tell_records_halfBounded :
    (halfBounded.addConstraint [0, 1] (-1)).validate = .error (.negativeRhs 2)
      ∧ Solver.standard.events (halfBounded.addConstraint [0, 1] (-1)) = .ok []
      ∧ ∃ t records solution events,
        halfBounded.tableau = .ok t
          ∧ (∃ last, (Solver.standard.start t).collect = .ok (records, last))
          ∧ Solver.standard.solve halfBounded = .ok solution
          ∧ solution.failure = some (.unbounded "x2")
          ∧ Solver.standard.events halfBounded = .ok events
          ∧ events.map Event.level = [.debug, .trace, .debug, .trace, .info]
          ∧ Narrates t records solution events := by
  have hvalidate : (halfBounded.addConstraint [0, 1] (-1)).validate = .error (.negativeRhs 2) := by
    decide +kernel
  have hsome : halfBounded.tableau.toOption.isSome = true := by decide +kernel
  have hfailure : (Solver.standard.solve halfBounded).toOption.map (·.failure)
      = some (some (.unbounded "x2")) := by decide +kernel
  have hlevels : (Solver.standard.events halfBounded).toOption.map (·.map Event.level)
      = some [.debug, .trace, .debug, .trace, .info] := by decide +kernel
  obtain ⟨hrefuses, -⟩ :=
    Solver.standard.events_tell_records (halfBounded.addConstraint [0, 1] (-1))
  obtain ⟨-, hrefused⟩ := hrefuses _ (.inl hvalidate)
  cases hp : halfBounded.tableau with
  | error fault =>
    rw [hp] at hsome
    exact absurd hsome Bool.false_ne_true
  | ok t =>
    obtain ⟨-, htells⟩ := Solver.standard.events_tell_records halfBounded
    obtain ⟨records, solution, events, hcollect, hsolve, -, hevents, -, hnarrates⟩ := htells t hp
    rw [hsolve] at hfailure
    rw [hevents] at hlevels
    exact ⟨hvalidate, hrefused, t, records, solution, events, rfl, hcollect, hsolve,
      Option.some.inj hfailure, hevents, Option.some.inj hlevels, hnarrates⟩

end SimplexTableau

import SimplexTableau.Proofs.Runs

namespace SimplexTableau

/-!
# The course of a run

A verdict leaves no choice: it decides the next examination, so every run has one course.  Its
records can be had all at once or one at a time:

* `Run.Follows.unique` — the next examination is decided by the one before;
* `Run.Course` — the examinations from a run to its end; `Course.unique`: there is only one;
* `Run.pull`, `Run.pulls` — asking for one record, and for several in turn; `Course.pulls_eq`:
  that gives the records of the course, and nothing once they are used up;
* `Record.PivotsTo` — a record names the pivot that leads to the next one;
* `Record.Concludes` — a record says why the run ends with it;
* `Chronicle` — what the records of a run are, from the first to the last.

The last theorem says so of every run of a well-shaped tableau.  Nothing here depends on the
arithmetic of the cells.
-/

variable {K : Type} [Cell K]

/-- The phase that a verdict on a tableau leads to; a pivot comes next only if it is allowed. -/
def Selection.phase (t : Tableau K) (allowed : Bool) : Selection → Phase
  | .optimal => .optimal
  | .unbounded column => .unbounded (t.columnAt column).name
  | .pivot column row => if allowed then .pivoting column row else .limitReached

namespace Run

variable {r a b next : Run K} {runs : List (Run K)}

/-! ### Verdicts decide -/

/-- After an examination the phase is that of the verdict. -/
theorem Coherent.phase_eq (hr : r.Coherent) (hphase : r.phase ≠ .fresh) {verdict : Selection}
    (hselect : select r.solver.tolerance r.tableau = .ok verdict) :
    r.phase = verdict.phase r.tableau (r.pivots < r.solver.maxIterations) := by
  cases h : r.phase with
  | fresh => exact absurd h hphase
  | pivoting c i =>
    obtain ⟨hpivot, hallowed⟩ := hr.select_of_pivoting h
    obtain rfl := Except.ok.inj (hselect.symm.trans hpivot)
    simp [Selection.phase, hallowed]
  | optimal =>
    obtain rfl := Except.ok.inj (hselect.symm.trans (hr.select_of_optimal h))
    rfl
  | unbounded name =>
    obtain ⟨c, hunbounded, hname⟩ := hr.select_of_unbounded h
    obtain rfl := Except.ok.inj (hselect.symm.trans hunbounded)
    rw [Selection.phase, hname]
  | limitReached =>
    obtain ⟨⟨c, i, hpivot⟩, hlimit⟩ := hr.select_of_limitReached h
    obtain rfl := Except.ok.inj (hselect.symm.trans hpivot)
    simp [Selection.phase, Nat.not_lt.mpr hlimit]

/-- Only a run that has not ended is followed by an examination. -/
theorem Follows.not_isTerminal (h : r.Follows next) : r.state.isTerminal = false := by
  cases h.moves with
  | start hphase _ _ => rw [state, hphase]; rfl
  | pivot c i hphase _ _ => rw [state, hphase]; rfl

/-- After an examination, the next one is that of the tableau after the chosen pivot. -/
theorem Follows.pivot_of_examined (h : r.Follows next) (hphase : r.phase ≠ .fresh) :
    ∃ c i, r.phase = .pivoting c i ∧ next.tableau = r.tableau.pivoted i c
      ∧ next.pivots = r.pivots + 1 := by
  cases h.moves with
  | start hfresh _ _ => exact absurd hfresh hphase
  | pivot c i hpivot htableau hpivots => exact ⟨c, i, hpivot, htableau, hpivots⟩

/-- The first tableau is examined before any pivot. -/
theorem Follows.pivots_of_start {s : Solver K} {t : Tableau K} (h : (s.start t).Follows next) :
    next.pivots = 0 := by
  cases h.moves with
  | start _ _ hpivots => exact hpivots
  | pivot _ _ hpivot _ _ => exact absurd hpivot nofun

/-- What is examined next is decided. -/
theorem Follows.tableau_pivots_unique (ha : r.Follows a) (hb : r.Follows b) :
    a.tableau = b.tableau ∧ a.pivots = b.pivots := by
  by_cases hphase : r.phase = .fresh
  · cases ha.moves with
    | pivot c i hpivot _ _ => exact absurd (hphase.symm.trans hpivot) nofun
    | start _ ht hn =>
      cases hb.moves with
      | pivot c i hpivot _ _ => exact absurd (hphase.symm.trans hpivot) nofun
      | start _ ht' hn' => exact ⟨ht.trans ht'.symm, hn.trans hn'.symm⟩
  · obtain ⟨c, i, hpivot, ht, hn⟩ := ha.pivot_of_examined hphase
    obtain ⟨c', i', hpivot', ht', hn'⟩ := hb.pivot_of_examined hphase
    obtain ⟨rfl, rfl⟩ := Phase.pivoting.inj (hpivot.symm.trans hpivot')
    exact ⟨ht.trans ht'.symm, hn.trans hn'.symm⟩

/-- **The next examination is decided** by the one before. -/
theorem Follows.unique (ha : r.Follows a) (hb : r.Follows b) : a = b := by
  obtain ⟨htableau, hpivots⟩ := ha.tableau_pivots_unique hb
  have hsolver : a.solver = b.solver := ha.solver_eq.trans hb.solver_eq.symm
  obtain ⟨verdict, hselect, -⟩ := select_ok ha.coherent.wellShaped a.solver.tolerance
  have hphase := ha.coherent.phase_eq ha.examined hselect
  rw [htableau, hsolver] at hselect
  have hphase' := hb.coherent.phase_eq hb.examined hselect
  rw [← htableau, ← hpivots, ← hsolver, ← hphase] at hphase'
  obtain ⟨asolver, atableau, apivots, aphase⟩ := a
  obtain ⟨bsolver, btableau, bpivots, bphase⟩ := b
  simp only at htableau hpivots hsolver hphase'
  rw [htableau, hpivots, hsolver, hphase']

/-- A step of a coherent run is the one it takes. -/
theorem Follows.advance_eq (h : r.Follows next) (hr : r.Coherent) :
    r.advance = .told (some next) next.announced := by
  rcases hr.advance_ok with ⟨-, hterminal⟩ | ⟨next', hnext, hfollows⟩
  · rw [h.not_isTerminal] at hterminal
    exact absurd hterminal Bool.false_ne_true
  · rw [hnext, hfollows.unique h]

/-- A run that has ended takes no step. -/
theorem advance_of_isTerminal (h : r.state.isTerminal = true) : r.advance = .told none [] := by
  obtain hphase | ⟨name, hphase⟩ | hphase := isTerminal_iff.mp h
  · rw [advance, hphase]
    rfl
  · rw [advance, hphase]
    rfl
  · rw [advance, hphase]
    rfl

/-! ### Courses -/

/-- The examinations that a run has still before it, up to its end. -/
structure Course (r : Run K) (runs : List (Run K)) : Prop where
  /-- Each examination follows the one before. -/
  chain : (r :: runs).IsChain Follows
  /-- After the last one the run has ended. -/
  ended : (runs.getLastD r).state.isTerminal = true

namespace Course

theorem head (h : r.Course (next :: runs)) : r.Follows next :=
  (List.isChain_cons_cons.mp h.chain).1

theorem tail (h : r.Course (next :: runs)) : next.Course runs := by
  refine ⟨(List.isChain_cons_cons.mp h.chain).2, ?_⟩
  rw [← List.getLastD_cons]
  exact h.ended

theorem nil (h : r.state.isTerminal = true) : r.Course [] := ⟨List.isChain_singleton _, h⟩

theorem cons (hfollows : r.Follows next) (h : next.Course runs) : r.Course (next :: runs) := by
  refine ⟨List.isChain_cons_cons.mpr ⟨hfollows, h.chain⟩, ?_⟩
  rw [List.getLastD_cons]
  exact h.ended

/-- A run that has ended has nothing before it. -/
theorem eq_nil_of_isTerminal (h : r.Course runs) (hr : r.state.isTerminal = true) :
    runs = [] := by
  cases runs with
  | nil => rfl
  | cons next rest =>
    rw [h.head.not_isTerminal] at hr
    exact absurd hr Bool.false_ne_true

/-- **A run has one course.** -/
theorem unique {runs' : List (Run K)} (h : r.Course runs) (h' : r.Course runs') :
    runs = runs' := by
  induction runs generalizing r runs' with
  | nil => exact (h'.eq_nil_of_isTerminal h.ended).symm
  | cons next rest ih =>
    cases runs' with
    | nil =>
      have hended := h'.ended
      rw [List.getLastD_nil, h.head.not_isTerminal] at hended
      exact absurd hended Bool.false_ne_true
    | cons next' rest' =>
      obtain rfl := h.head.unique h'.head
      rw [ih h.tail h'.tail]

/-- Every examination of a course is coherent, has a verdict and keeps to the same limits. -/
theorem coherent (h : r.Course runs) :
    ∀ a ∈ runs, a.Coherent ∧ a.phase ≠ .fresh ∧ a.solver = r.solver :=
  Follows.chain_coherent h.chain

end Course

/-- **Every coherent run has its course**, and comes to the records and the solution of it. -/
theorem Coherent.exists_course (hr : r.Coherent) :
    ∃ runs, r.Course runs ∧ r.collect = .ok (runs.map report, runs.getLastD r)
      ∧ r.finish = .ok ((runs.getLastD r).outcome (r.keeps runs)) := by
  obtain ⟨runs, hcollect, hchain, hend, hfinish⟩ := hr.collect_ok
  exact ⟨runs, ⟨hchain, hend⟩, hcollect, hfinish⟩

theorem Course.future_eq (h : r.Course runs) (hr : r.Coherent) : r.future = .ok runs := by
  obtain ⟨runs', hfuture, -, hchain, hend⟩ := hr.futureFor_ok r.budget
  rw [h.unique ⟨hchain, hend r.remaining_le_budget⟩, future, hfuture]
  rfl

theorem Course.finish_eq (h : r.Course runs) (hr : r.Coherent) :
    r.finish = .ok ((runs.getLastD r).outcome (r.keeps runs)) := by
  obtain ⟨runs', hcourse, -, hfinish⟩ := hr.exists_course
  rw [h.unique hcourse, hfinish]

/-! ### One record at a time -/

/-- Asks a run for its next record: the record, if there is one more, and the run as it stands
    after that. -/
def pull (r : Run K) : Except ShapeError (Option (Record K) × Run K) := do
  match ← r.next with
  | none => return (none, r)
  | some (record, r) => return (some record, r)

/-- Asks a run for its next records, as often as the first argument says. -/
def pulls : Nat → Run K → Except ShapeError (List (Option (Record K)) × Run K)
  | 0, r => .ok ([], r)
  | n + 1, r => do
    let (record?, r) ← r.pull
    let (rest, last) ← pulls n r
    return (record? :: rest, last)

theorem pull_of_isTerminal (h : r.state.isTerminal = true) : r.pull = .ok (none, r) := by
  rw [pull, Run.next, advance_of_isTerminal h]
  rfl

theorem Follows.pull_eq (h : r.Follows next) (hr : r.Coherent) :
    r.pull = .ok (some next.report, next) := by
  have hnext : r.next = .ok (some (next.report, next)) := by
    rw [Run.next, h.advance_eq hr, Watched.result_told, ok_bind]
    show (next.record >>= _) = _
    rw [h.coherent.record_eq]
    rfl
  rw [pull, hnext]
  rfl

/-- **One record at a time.** Asking a run for records gives those of its course in turn, and
    nothing once they are used up. -/
theorem Course.pulls_eq (h : r.Course runs) (hr : r.Coherent) (n : Nat) :
    r.pulls n = .ok ((List.range n).map ((runs.map report)[·]?), (runs.take n).getLastD r) := by
  -- the induction follows the requests; the run that they are made to moves on until it has ended
  induction n generalizing r runs with
  | zero => rfl
  | succ n ih =>
    rw [List.range_succ_eq_map, List.map_cons, List.map_map]
    cases runs with
    | nil =>
      have hended : r.state.isTerminal = true := h.ended
      rw [pulls, pull_of_isTerminal hended, ok_bind]
      show (pulls n r >>= _) = _
      rw [ih h hr, List.take_nil, List.take_nil]
      rfl
    | cons next rest =>
      rw [pulls, h.head.pull_eq hr, ok_bind]
      show (pulls n next >>= _) = _
      rw [ih h.tail h.head.coherent, List.take_succ_cons, List.getLastD_cons]
      rfl

/-! ### Numbers -/

namespace Course

variable {s : Solver K} {t : Tableau K}

theorem follows_getElem (h : r.Course runs) {k : Nat} (hk : k + 1 < runs.length) :
    runs[k].Follows runs[k + 1] :=
  h.chain.tail.getElem k hk

/-- An examination that another one follows has chosen a pivot. -/
theorem pivot_getElem (h : r.Course runs) {k : Nat} (hk : k + 1 < runs.length) :
    ∃ c i, runs[k].phase = .pivoting c i
      ∧ runs[k + 1].tableau = runs[k].tableau.pivoted i c
      ∧ runs[k + 1].pivots = runs[k].pivots + 1 :=
  (h.follows_getElem hk).pivot_of_examined (h.coherent _ (List.getElem_mem _)).2.1

/-- The run of a tableau examines something. -/
theorem ne_nil (h : (s.start t).Course runs) : runs ≠ [] := by
  rintro rfl
  exact absurd h.ended Bool.false_ne_true

/-- The last examination is the end of the run. -/
theorem getElem?_last (h : (s.start t).Course runs) :
    runs[runs.length - 1]? = some (runs.getLastD (s.start t)) := by
  rw [← List.getLast?_eq_getElem?, List.getLastD_eq_getLast?,
    List.getLast?_eq_some_getLast h.ne_nil]
  rfl

theorem last_mem (h : (s.start t).Course runs) : runs.getLastD (s.start t) ∈ runs :=
  List.mem_of_getElem? h.getElem?_last

theorem getLast?_map_report (h : (s.start t).Course runs) :
    (runs.map report).getLast? = some (runs.getLastD (s.start t)).report := by
  rw [List.getLast?_map, List.getLast?_eq_getElem?, h.getElem?_last]
  rfl

/-- Examinations are numbered by the pivots before them. -/
theorem pivots_of_getElem? (h : (s.start t).Course runs) {k : Nat} (ha : runs[k]? = some a) :
    a.pivots = k := by
  induction k generalizing a with
  | zero =>
    cases runs with
    | nil => exact absurd ha nofun
    | cons first rest =>
      obtain rfl := Option.some.inj ha
      exact h.head.pivots_of_start
  | succ k ih =>
    obtain ⟨hk, rfl⟩ := List.getElem?_eq_some_iff.mp ha
    obtain ⟨c, i, -, -, hpivots⟩ := h.pivot_getElem hk
    rw [hpivots, ih (List.getElem?_eq_getElem (Nat.lt_of_succ_lt hk))]

/-- There is one examination more than there are pivots. -/
theorem length_eq (h : (s.start t).Course runs) :
    runs.length = (runs.getLastD (s.start t)).pivots + 1 := by
  have hpos : 0 < runs.length := List.length_pos_iff.mpr h.ne_nil
  rw [h.pivots_of_getElem? h.getElem?_last, Nat.sub_add_cancel hpos]

/-- No more pivots are made than are allowed. -/
theorem length_le (h : (s.start t).Course runs) : runs.length ≤ s.maxIterations + 1 := by
  by_contra hlong
  -- the last pivot was allowed
  have hk : s.maxIterations + 1 < runs.length := by omega
  have hk' : s.maxIterations < runs.length := Nat.lt_of_succ_lt hk
  obtain ⟨c, i, hphase, -, -⟩ := h.pivot_getElem hk
  obtain ⟨hcoherent, -, hsolver⟩ := h.coherent _ (List.getElem_mem hk')
  have hallowed := (hcoherent.select_of_pivoting hphase).2
  rw [h.pivots_of_getElem? (List.getElem?_eq_getElem hk'), hsolver] at hallowed
  exact absurd hallowed (Nat.lt_irrefl _)

theorem pivots_le (h : (s.start t).Course runs) (ha : a ∈ runs) : a.pivots ≤ s.maxIterations := by
  obtain ⟨k, hk⟩ := List.getElem?_of_mem ha
  obtain ⟨hlt, -⟩ := List.getElem?_eq_some_iff.mp hk
  have hpivots := h.pivots_of_getElem? hk
  have hlength := h.length_le
  omega

/-- A run is cut off after as many pivots as are allowed. -/
theorem pivots_of_limitReached (h : (s.start t).Course runs) (ha : a ∈ runs)
    (hphase : a.phase = .limitReached) : a.pivots = a.solver.maxIterations := by
  obtain ⟨hcoherent, -, hsolver⟩ := h.coherent a ha
  have hspent := (hcoherent.select_of_limitReached hphase).2
  rw [hsolver] at hspent ⊢
  exact Nat.le_antisymm (h.pivots_le ha) hspent

end Course

end Run

/-! ### The records of a run -/

/-- The verdict on the tableau of record `a` is a pivot in `row` and `column` on `element`.  The
    record names it, and it gives the tableau of record `b`. -/
structure Record.PivotsTo (tolerance : K) (a b : Record K) (column row : Nat) (element : K) :
    Prop where
  /-- A pivot is to come. -/
  state_eq : a.state = .pivoting
  /-- It is the one that the verdict asks for. -/
  select_eq : select tolerance a.tableau = .ok (.pivot column row)
  /-- The record names the column. -/
  enteringColumn_eq : a.enteringColumn = some column
  /-- The record names the row. -/
  leavingRow_eq : a.leavingRow = some row
  /-- The element stands there. -/
  cell_eq : a.tableau.cell row column = .ok element
  /-- The record names the element. -/
  pivotElement_eq : a.pivotElement = some element
  /-- The pivot gives the tableau of the other record. -/
  pivot_eq : pivot a.tableau row column = .ok (element, b.tableau)

/-- The run of solver `s` ends with the record: its state is the verdict on the tableau, and a
    pivot that the verdict asks for is no longer allowed. -/
structure Record.Concludes (s : Solver K) (record : Record K) : Prop where
  /-- The state is final. -/
  terminal : record.state.isTerminal = true
  /-- It says that no variable can enter exactly if the verdict does. -/
  optimal_iff : record.state = .optimal ↔ select s.tolerance record.tableau = .ok .optimal
  /-- It says that there is no bound exactly if the verdict does. -/
  unbounded_iff : record.state = .unbounded
    ↔ ∃ column, select s.tolerance record.tableau = .ok (.unbounded column)
  /-- It says that the run was cut off exactly if the verdict asks for a pivot. -/
  limit_iff : record.state = .iterationLimitExceeded
    ↔ ∃ column row, select s.tolerance record.tableau = .ok (.pivot column row)
  /-- If it was cut off, then all allowed pivots were made. -/
  step_of_limit : record.state = .iterationLimitExceeded → record.step = s.maxIterations

/-- What the records of the run of solver `s` from tableau `t` are. -/
structure Chronicle (s : Solver K) (t : Tableau K) (records : List (Record K)) : Prop where
  /-- The first record is that of the tableau itself. -/
  first : records.head?.map (·.tableau) = some t
  /-- The records are numbered in turn. -/
  step_eq : ∀ (k : Nat) (record : Record K), records[k]? = some record → record.step = k
  /-- There is one for each pivot that is allowed and one more, at most. -/
  length_le : records.length ≤ s.maxIterations + 1
  /-- Each record but the last names the pivot that leads to the next one. -/
  pivots : records.IsChain fun a b =>
    ∃ column row element, a.PivotsTo s.tolerance b column row element
  /-- The last record says why the run ends. -/
  last : ∃ record, records.getLast? = some record ∧ record.Concludes s

namespace Run

variable {r next : Run K} {runs : List (Run K)} {s : Solver K} {t : Tableau K}

/-- **One step.** After an examination that was not the last, the run makes the pivot that the
    record names. -/
theorem Follows.pivotsTo (h : r.Follows next) (hr : r.Coherent) (hphase : r.phase ≠ .fresh) :
    ∃ column row element,
      r.report.PivotsTo r.solver.tolerance next.report column row element := by
  obtain ⟨c, i, hpivot, htableau, -⟩ := h.pivot_of_examined hphase
  obtain ⟨hc, -, hi⟩ := hr.pivot_inside hpivot
  have hc' := Tableau.lt_numColumns hc
  refine ⟨c, i, r.tableau.entry i c, ?_, (hr.select_of_pivoting hpivot).1, ?_, ?_,
    hr.wellShaped.cell_eq hi hc', ?_, ?_⟩
  · show r.phase.state = _
    rw [hpivot]
    rfl
  · exact namedColumn_of_pivoting hpivot
  · rw [report, hpivot]
    rfl
  · rw [report, hpivot]
  · show pivot r.tableau i c = .ok (r.tableau.entry i c, next.tableau)
    rw [htableau]
    exact hr.wellShaped.pivot_eq hi hc'

/-- The state at the end of a run is the verdict on its tableau. -/
theorem Coherent.concludes (hr : r.Coherent) (hend : r.state.isTerminal = true)
    (hpivots : r.pivots ≤ r.solver.maxIterations) : r.report.Concludes r.solver := by
  obtain ⟨verdict, hselect, -⟩ := select_ok hr.wellShaped r.solver.tolerance
  have hselect' : select r.solver.tolerance r.report.tableau = .ok verdict := hselect
  have hfresh : r.phase ≠ .fresh := fun hphase => by simp [isTerminal_iff, hphase] at hend
  have hphase := hr.phase_eq hfresh hselect
  cases verdict with
  | optimal =>
    have hstate : r.report.state = .optimal := congrArg Phase.state hphase
    exact ⟨hend, by simp [hstate, hselect'], by simp [hstate, hselect'],
      by simp [hstate, hselect'], by simp [hstate]⟩
  | unbounded c =>
    have hstate : r.report.state = .unbounded := congrArg Phase.state hphase
    exact ⟨hend, by simp [hstate, hselect'], by simp [hstate, hselect'],
      by simp [hstate, hselect'], by simp [hstate]⟩
  | pivot c i =>
    -- the run has ended, so the pivot was not allowed
    have hspent : ¬ r.pivots < r.solver.maxIterations := fun hallowed => by
      simp [isTerminal_iff, hphase, Selection.phase, hallowed] at hend
    have hlimit : r.phase = .limitReached := by simpa [Selection.phase, hspent] using hphase
    have hstate : r.report.state = .iterationLimitExceeded := congrArg Phase.state hlimit
    exact ⟨hend, by simp [hstate, hselect'], by simp [hstate, hselect'],
      by simp [hstate, hselect'], fun _ => Nat.le_antisymm hpivots (Nat.not_lt.mp hspent)⟩

/-- **The records of a course** are a chronicle. -/
theorem Course.chronicle (h : (s.start t).Course runs) : Chronicle s t (runs.map report) where
  first := head?_tableau_report h.last_mem h.chain
  step_eq := by
    intro k record hrecord
    rw [List.getElem?_map, Option.map_eq_some_iff] at hrecord
    obtain ⟨r, hr, rfl⟩ := hrecord
    exact h.pivots_of_getElem? hr
  length_le := by
    rw [List.length_map]
    exact h.length_le
  pivots := by
    rw [List.isChain_map]
    refine List.IsChain.imp_of_mem_imp (fun a b ha _ hab => ?_) h.chain.tail
    obtain ⟨hcoherent, hexamined, hsolver⟩ := h.coherent a ha
    have hstep := hab.pivotsTo hcoherent hexamined
    rwa [hsolver] at hstep
  last := by
    obtain ⟨hcoherent, -, hsolver⟩ := h.coherent _ h.last_mem
    have hconcludes := hcoherent.concludes h.ended (by rw [hsolver]; exact h.pivots_le h.last_mem)
    rw [hsolver] at hconcludes
    exact ⟨_, h.getLast?_map_report, hconcludes⟩

end Run

/-- **The run of a tableau.** From a well-shaped tableau a run has finitely many records, and they
    are a chronicle.  Collected at once they are the same as asked for one at a time, and after the
    last one there is nothing more, however often one asks. -/
theorem Solver.run_chronicle (s : Solver K) {t : Tableau K} (ht : t.WellShaped) :
    ∃ records, Chronicle s t records
      ∧ (∃ last, (s.start t).collect = .ok (records, last))
      ∧ ∀ n, ∃ r, (s.start t).pulls n = .ok ((List.range n).map (records[·]?), r) := by
  have hstart := Run.coherent_start s ht
  obtain ⟨runs, hcourse, hcollect, -⟩ := hstart.exists_course
  exact ⟨runs.map Run.report, hcourse.chronicle, ⟨_, hcollect⟩,
    fun n => ⟨_, hcourse.pulls_eq hstart n⟩⟩

/-- A tableau of doubles none of whose fractions is exact. -/
def roundedCells : Tableau Float where
  rows := #[#[-0.3, -0.1, 0, 0], #[0.1, 0.3, 1, 0.7]]
  columns := #[Column.structural 1, Column.structural 2, Column.slack 1]
  numStructural := 2
  numSlack := 1

theorem run_chronicle_roundedCells :
    roundedCells.WellShaped
      ∧ ∃ records, Chronicle Solver.standard roundedCells records
        ∧ records.map (·.state) = [.pivoting, .optimal]
        ∧ (∃ last, (Solver.standard.start roundedCells).collect = .ok (records, last))
        ∧ ∀ n, ∃ r, (Solver.standard.start roundedCells).pulls n
          = .ok ((List.range n).map (records[·]?), r) := by
  have ht : roundedCells.WellShaped := ⟨by decide, by decide⟩
  have hstates : ((Solver.standard.start roundedCells).collect.toOption.map fun result =>
      result.1.map (·.state)) = some [.pivoting, .optimal] := by decide +kernel
  obtain ⟨records, hchronicle, ⟨last, hcollect⟩, hpulls⟩ := Solver.standard.run_chronicle ht
  rw [hcollect] at hstates
  exact ⟨ht, records, hchronicle, Option.some.inj hstates, ⟨last, hcollect⟩, hpulls⟩

end SimplexTableau

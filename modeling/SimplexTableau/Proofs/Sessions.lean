import SimplexTableau.Proofs.Doubles
import SimplexTableau.Proofs.Resumption
import SimplexTableau.Proofs.Validation

namespace SimplexTableau

/-!
# Sessions

A tableau that was built from lists of numbers can be run step by step, taken to its end, taken
out of the run as it stands, and run again under other limits, in any order.  Whatever the
arithmetic makes of the cells, it keeps its measures, and nothing that is asked of it is missing:

* `Tableau.Measures` — the rows, columns and names of a tableau for `n` variables and `m`
  constraints; `measures_of_initial`: initial tableaus have them;
* `Tableau.Answers` — every rule gives an answer that lies inside the table;
  `Measures.answers`: the measures are all it takes;
* `Run.InRange` — what a run has chosen and what it records lies inside the table;
  `Course.inRange`: so it does after every examination to come;
* `Request`, `Run.serve` — what can be asked of a run, and asking for several things in turn;
* `Run.respond_ok`, `Run.serve_ok` — one request, and every sequence of them, is answered.

The last theorem says so of every session that starts from an initial tableau.
-/

variable {K : Type}

/-! ### Measures -/

/-- The tableau has the rows, columns and names that belong to `n` variables and `m`
    constraints. -/
structure Tableau.Measures (t : Tableau K) (n m : Nat) : Prop where
  /-- There is the objective row and one row per constraint. -/
  numRows_eq : t.numRows = m + 1
  /-- Every row has a cell for each variable, each slack and the right-hand side. -/
  size_row : ∀ row ∈ t.rows, row.size = n + m + 1
  /-- The column table is the one of the problem. -/
  columns_eq : t.columns = (Column.table n m).toArray
  /-- The decision variables are counted. -/
  numStructural_eq : t.numStructural = n
  /-- The slacks are counted. -/
  numSlack_eq : t.numSlack = m

/-- The verdict names a column of a variable and a constraint row. -/
def Selection.Within (n m : Nat) : Selection → Prop
  | .optimal => True
  | .pivot column row => column < n + m ∧ 0 < row ∧ row ≤ m
  | .unbounded column => column < n + m

/-- The basic variables are hosted by constraint rows. -/
def Classification.Within (c : Classification K) (m : Nat) : Prop :=
  ∀ v ∈ c.basic, ∃ i, v.row = some i ∧ 0 < i ∧ i ≤ m

/-- What the record names lies inside a tableau for `n` variables and `m` constraints. -/
structure Record.Within (record : Record K) (n m : Nat) : Prop where
  /-- So is the tableau measured. -/
  tableau : record.tableau.Measures n m
  /-- The column belongs to a variable. -/
  column_lt : ∀ c, record.enteringColumn = some c → c < n + m
  /-- The row is that of a constraint. -/
  row_le : ∀ i, record.leavingRow = some i → 0 < i ∧ i ≤ m
  /-- The basic variables are hosted by constraint rows. -/
  classification : record.classification.Within m

namespace Tableau

variable {t u : Tableau K} {n m : Nat}

theorem Measures.rhsColumn_eq (h : t.Measures n m) : t.rhsColumn = n + m := by
  unfold rhsColumn
  rw [h.columns_eq]
  simp

theorem Measures.numColumns_eq (h : t.Measures n m) : t.numColumns = n + m + 1 := by
  show t.rhsColumn + 1 = _
  rw [h.rhsColumn_eq]

theorem Measures.wellShaped (h : t.Measures n m) : t.WellShaped where
  rows_pos := by
    show 0 < t.numRows
    rw [h.numRows_eq]
    omega
  size_row := by
    intro row hrow
    show row.size = t.numColumns
    rw [h.size_row row hrow, h.numColumns_eq]

/-- The measures are those of the frame. -/
theorem Measures.of_sameFrame (h : t.Measures n m) (hframe : t.SameFrame u)
    (hu : u.WellShaped) : u.Measures n m where
  numRows_eq := hframe.numRows_eq.trans h.numRows_eq
  size_row := by
    intro row hrow
    rw [hu.size_row row hrow]
    show u.numColumns = _
    rw [hframe.numColumns_eq, h.numColumns_eq]
  columns_eq := hframe.columns_eq.trans h.columns_eq
  numStructural_eq := hframe.numStructural_eq.trans h.numStructural_eq
  numSlack_eq := hframe.numSlack_eq.trans h.numSlack_eq

/-! ### Answers -/

variable [Cell K]

/-- Every rule gives an answer, at every tolerance, and the answer lies inside a table for `n`
    variables and `m` constraints. -/
structure Answers (t : Tableau K) (n m : Nat) : Prop where
  /-- The entering column is that of a variable. -/
  enteringColumn : ∀ tolerance, ∃ column?, SimplexTableau.enteringColumn tolerance t = .ok column?
    ∧ ∀ c ∈ column?, c < n + m
  /-- The leaving row is that of a constraint. -/
  leavingRow : ∀ tolerance, ∀ c < n + m, ∃ row?,
    SimplexTableau.leavingRow tolerance t c = .ok row? ∧ ∀ i ∈ row?, 0 < i ∧ i ≤ m
  /-- So are column and row of the verdict. -/
  select : ∀ tolerance, ∃ verdict, SimplexTableau.select tolerance t = .ok verdict
    ∧ verdict.Within n m
  /-- A pivot on any cell of a variable gives a tableau of the same measures. -/
  pivot : ∀ i ≤ m, ∀ c < n + m, ∃ element u, SimplexTableau.pivot t i c = .ok (element, u)
    ∧ u.Measures n m
  /-- The row of a unit column is a row of the table. -/
  unitRow : ∀ tolerance, ∀ c < n + m, ∃ row?, SimplexTableau.unitRow tolerance t c = .ok row?
    ∧ ∀ i ∈ row?, i ≤ m
  /-- The basic variables are hosted by constraint rows. -/
  classify : ∀ tolerance, ∃ classification,
    SimplexTableau.classify tolerance t = .ok classification ∧ classification.Within m
  /-- The objective has a value. -/
  objectiveValue : ∃ z, t.objectiveValue = .ok z

theorem Measures.pivoted (h : t.Measures n m) {i : Nat} (hi : i ≤ m) (c : Nat) :
    (t.pivoted i c).Measures n m := by
  have hi' : i < t.numRows := by rw [h.numRows_eq]; omega
  exact h.of_sameFrame ((SameFrame.refl t).pivoted i c) (h.wellShaped.pivoted hi' c)

omit [Cell K] in
/-- The verdict on a tableau with its measures lies within them. -/
theorem Measures.within_of_inside (h : t.Measures n m) {verdict : Selection}
    (hinside : verdict.Inside t) : verdict.Within n m := by
  cases verdict with
  | optimal => trivial
  | unbounded c =>
    have hc : c < t.rhsColumn := hinside
    rwa [h.rhsColumn_eq] at hc
  | pivot c i =>
    obtain ⟨hc, hpos, hi⟩ := hinside
    rw [h.rhsColumn_eq] at hc
    rw [h.numRows_eq] at hi
    exact ⟨hc, hpos, by omega⟩

/-- The classification of a tableau with its measures lies within them. -/
theorem Measures.within_reading (h : t.Measures n m) (tolerance : K) :
    (t.reading tolerance).Within m := by
  intro v hv
  obtain ⟨hmem, hbasic⟩ := List.mem_filter.mp hv
  obtain ⟨k, -, rfl⟩ := List.mem_map.mp hmem
  obtain ⟨i, hi⟩ := Option.isSome_iff_exists.mp hbasic
  obtain ⟨-, hunit, hpos, -⟩ := hostAt_eq_some_iff.mp hi
  obtain ⟨hlt, -, -⟩ := unitRowAt_eq_some_iff.mp hunit
  rw [h.numRows_eq] at hlt
  exact ⟨i, hi, hpos, by omega⟩

/-- **The measures are all it takes**: nothing that a rule looks at is missing. -/
theorem Measures.answers (h : t.Measures n m) : t.Answers n m := by
  have ht := h.wellShaped
  have hcolumn : ∀ c < n + m, c < t.numColumns := by
    intro c hc
    rw [h.numColumns_eq]
    omega
  refine ⟨fun tolerance => ?_, fun tolerance c hc => ?_, fun tolerance => ?_, fun i hi c hc => ?_,
    fun tolerance c hc => ?_, fun tolerance => ?_, _, ht.objectiveValue_eq⟩
  · refine ⟨_, ht.enteringColumn_eq tolerance, fun c hc => ?_⟩
    have hlt := ht.enteringColumn_lt (hc ▸ ht.enteringColumn_eq tolerance)
    rwa [h.rhsColumn_eq] at hlt
  · refine ⟨_, ht.leavingRow_eq tolerance (hcolumn c hc), fun i hi => ?_⟩
    obtain ⟨⟨hpos, hlt⟩, -⟩ :=
      ht.leavingRow_mem (hcolumn c hc) (hi ▸ ht.leavingRow_eq tolerance (hcolumn c hc))
    rw [h.numRows_eq] at hlt
    exact ⟨hpos, by omega⟩
  · obtain ⟨verdict, hselect, hinside⟩ := select_ok ht tolerance
    exact ⟨verdict, hselect, h.within_of_inside hinside⟩
  · have hi' : i < t.numRows := by rw [h.numRows_eq]; omega
    exact ⟨_, _, ht.pivot_eq hi' (hcolumn c hc), h.pivoted hi c⟩
  · refine ⟨_, ht.unitRow_eq tolerance (hcolumn c hc), fun i hi => ?_⟩
    obtain ⟨hlt, -, -⟩ := unitRowAt_eq_some_iff.mp hi
    rw [h.numRows_eq] at hlt
    omega
  · exact ⟨_, ht.classify_eq tolerance, h.within_reading tolerance⟩

/-! ### Initial tableaus -/

/-- The tableau was built from `n` objective coefficients and `m` constraints, given as lists or
    as a problem. -/
def BuiltFor (t : Tableau K) (n m : Nat) : Prop :=
  (∃ objective constraints rhs, initial objective constraints rhs = .ok t
      ∧ objective.length = n ∧ constraints.length = m)
    ∨ ∃ p : Problem K, p.tableau = .ok t ∧ p.numVariables = n ∧ p.numConstraints = m

/-- What is built from lists has the measures of the lists. -/
theorem measures_of_initial {objective : List K} {constraints : List (List K)} {rhs : List K}
    (h : initial objective constraints rhs = .ok t) :
    t.Measures objective.length constraints.length := by
  have ht := wellShaped_of_initial h
  cases rhs with
  | nil =>
    -- without a right-hand side for the objective row the lists do not fit together
    have hshape : checkShape objective.length constraints (constraints.length + 1) 0
        ≠ .ok () := fun hshape => absurd (checkShape_eq_ok_iff.mp hshape).2.2 nofun
    cases hcheck : checkShape objective.length constraints (constraints.length + 1) 0 with
    | error e => simp [initial, hcheck] at h
    | ok u => exact absurd hcheck hshape
  | cons value bounds =>
    obtain ⟨hshape, -, rfl⟩ := initial_eq_ok_iff.mp h
    obtain ⟨-, hlength, hbounds⟩ := checkShape_eq_ok_iff.mp hshape
    refine ⟨?_, fun row hrow => ?_, rfl, rfl, rfl⟩
    · have hzip : bounds.length = constraints.length := by omega
      simp [unchecked, numRows, initialRows, hzip]
    · rw [ht.size_row row hrow]
      simp [unchecked]

/-- **Initial tableaus** have the measures of what they are built from. -/
theorem BuiltFor.measures (h : t.BuiltFor n m) : t.Measures n m := by
  obtain ⟨objective, constraints, rhs, hinitial, rfl, rfl⟩ | ⟨p, hp, rfl, rfl⟩ := h
  · exact measures_of_initial hinitial
  · cases hvalid : p.validate with
    | error fault =>
      rw [Problem.tableau_of_validate_error hvalid] at hp
      exact absurd hp nofun
    | ok u =>
      rw [Problem.tableau, hvalid, ok_bind] at hp
      have hmeasures := measures_of_initial hp
      rwa [List.length_map] at hmeasures

end Tableau

/-! ### Runs -/

namespace Run

variable [Cell K] {r next : Run K} {n m : Nat}

/-- What the run has chosen, what it records and what it answers lies inside a table for `n`
    variables and `m` constraints. -/
structure InRange (r : Run K) (n m : Nat) : Prop where
  /-- The tableau has its measures. -/
  tableau : r.tableau.Measures n m
  /-- Every rule gives an answer inside the table. -/
  answers : r.tableau.Answers n m
  /-- The chosen column is that of a variable. -/
  column_lt : ∀ c i, r.phase = .pivoting c i → c < n + m
  /-- So is the column without limit; chosen once more it is still the one of that name. -/
  unbounded_lt : ∀ name, r.phase = .unbounded name → ∃ c < n + m,
    r.recordedColumn = .ok (some c) ∧ ∃ column, r.tableau.column c = .ok column ∧ column.name = name
  /-- The chosen row is that of a constraint. -/
  row_le : ∀ i, r.phase.row? = some i → 0 < i ∧ i ≤ m
  /-- There is a record, and what it names is there. -/
  record : ∃ record, r.record = .ok record ∧ record.Within n m
  /-- There is a solution to be read off. -/
  answer : ∀ trace, ∃ solution, r.answer trace = .ok solution

/-- A coherent run of a tableau with its measures stays inside the table. -/
theorem Coherent.inRange (hr : r.Coherent) (h : r.tableau.Measures n m) : r.InRange n m := by
  have hcolumn : ∀ c, r.namedColumn = some c → c < n + m := by
    intro c hc
    rw [← h.rhsColumn_eq]
    exact hr.namedColumn_lt hc
  have hrow : ∀ i, r.phase.row? = some i → 0 < i ∧ i ≤ m := by
    intro i hi
    cases hphase : r.phase with
    | pivoting c i' =>
      rw [hphase] at hi
      obtain rfl : i' = i := Option.some.inj hi
      obtain ⟨-, hpos, hlt⟩ := hr.pivot_inside hphase
      rw [h.numRows_eq] at hlt
      exact ⟨hpos, by omega⟩
    | fresh => simp [hphase, Phase.row?] at hi
    | optimal => simp [hphase, Phase.row?] at hi
    | unbounded name => simp [hphase, Phase.row?] at hi
    | limitReached => simp [hphase, Phase.row?] at hi
  refine ⟨h, h.answers, fun c i hphase => hcolumn c (namedColumn_of_pivoting hphase),
    fun name hphase => ?_, hrow, ⟨_, hr.record_eq, h, hcolumn, hrow, h.within_reading _⟩,
    fun trace => ⟨_, hr.answer_eq trace⟩⟩
  obtain ⟨c, hc, hnamed, hname, -⟩ := hr.exists_namedColumn hphase
  exact ⟨c, hcolumn c hnamed, by rw [hr.recordedColumn_eq, hnamed], _, r.tableau.column_eq hc,
    hname⟩

/-- **One step** keeps the measures of the tableau. -/
theorem Follows.measures (hfollows : r.Follows next) (hr : r.Coherent)
    (h : r.tableau.Measures n m) : next.tableau.Measures n m := by
  cases hfollows.moves with
  | start _ htableau _ => rwa [htableau]
  | pivot c i hphase htableau _ =>
    rw [htableau]
    obtain ⟨-, -, hi⟩ := hr.pivot_inside hphase
    rw [h.numRows_eq] at hi
    exact h.pivoted (by omega) c

/-- **Every examination to come** stays inside the table. -/
theorem Course.inRange {runs : List (Run K)} (hcourse : r.Course runs) (hr : r.Coherent)
    (h : r.tableau.Measures n m) : ∀ a ∈ runs, a.InRange n m := by
  have hall : ∀ a ∈ runs, a.Coherent ∧ a.tableau.Measures n m := by
    refine Follows.chain_induction (fun a b ha hab => ?_) hcourse.chain ⟨hr, h⟩
    exact ⟨hab.coherent, hab.measures ha.1 ha.2⟩
  intro a ha
  obtain ⟨hcoherent, hmeasures⟩ := hall a ha
  exact hcoherent.inRange hmeasures

end Run

/-! ### Requests -/

/-- What can be asked of a run. -/
inductive Request (K : Type)
  /-- The next record. -/
  | next
  /-- The solution at the end of the run; the run itself stays where it is. -/
  | finish
  /-- The tableau as it stands, with which a new run starts under the limits of `s`. -/
  | restart (s : Solver K)
  /-- The solution of the tableau as it stands under the limits of `s`. -/
  | solve (s : Solver K)

/-- What a run gives back. -/
inductive Reply (K : Type)
  /-- A record, as long as there are any. -/
  | record (record? : Option (Record K))
  /-- A tableau. -/
  | tableau (t : Tableau K)
  /-- A solution. -/
  | solution (solution : Solution K)

/-- The tableaus and records that are given back lie within the measures. -/
def Reply.Within (n m : Nat) : Reply K → Prop
  | .record record? => ∀ record ∈ record?, record.Within n m
  | .tableau t => t.Measures n m
  | .solution answer => ∀ record ∈ answer.trace, record.Within n m

namespace Run

variable [Cell K] {r : Run K} {n m : Nat}

/-- One request: the reply, and the run as it stands after that. -/
def respond (r : Run K) : Request K → Except ShapeError (Reply K × Run K)
  | .next => do
    let (record?, r) ← r.pull
    return (.record record?, r)
  | .finish => do return (.solution (← r.finish), r)
  | .restart s => .ok (.tableau r.tableau, s.start r.tableau)
  | .solve s => do return (.solution (← s.solveTableau r.tableau), r)

/-- Several requests in turn. -/
def serve : List (Request K) → Run K → Except ShapeError (List (Reply K) × Run K)
  | [], r => .ok ([], r)
  | request :: rest, r => do
    let (reply, r) ← r.respond request
    let (replies, last) ← serve rest r
    return (reply :: replies, last)

/-- The records of a solution are those of examinations to come, so they lie inside the table. -/
theorem finish_ok (hr : r.Coherent) (h : r.tableau.Measures n m) :
    ∃ solution, r.finish = .ok solution ∧ (Reply.solution solution).Within n m := by
  obtain ⟨runs, hcourse, -, hfinish⟩ := hr.exists_course
  refine ⟨_, hfinish, fun record hrecord => ?_⟩
  have hmem : record ∈ runs.map report := by
    rw [trace_outcome, keeps] at hrecord
    split at hrecord
    · exact hrecord
    · exact absurd hrecord List.not_mem_nil
  obtain ⟨a, ha, rfl⟩ := List.mem_map.mp hmem
  obtain ⟨record, hok, hwithin⟩ := (hcourse.inRange hr h a ha).record
  obtain rfl := Except.ok.inj (((hcourse.coherent a ha).1.record_eq).symm.trans hok)
  exact hwithin

/-- **One request** is answered: the reply lies inside the table, and the run goes on with a
    tableau of the same measures. -/
theorem respond_ok (hr : r.Coherent) (h : r.tableau.Measures n m) (request : Request K) :
    ∃ reply r', r.respond request = .ok (reply, r') ∧ reply.Within n m
      ∧ r'.Coherent ∧ r'.tableau.Measures n m := by
  cases request with
  | next =>
    obtain ⟨runs, hcourse, -⟩ := hr.exists_course
    cases runs with
    | nil =>
      refine ⟨.record none, r, ?_, nofun, hr, h⟩
      have hended : r.state.isTerminal = true := hcourse.ended
      rw [respond, pull_of_isTerminal hended]
      rfl
    | cons a rest =>
      have hinside := hcourse.inRange hr h a List.mem_cons_self
      refine ⟨.record (some a.report), a, ?_, ?_, hcourse.head.coherent, hinside.tableau⟩
      · rw [respond, hcourse.head.pull_eq hr]
        rfl
      · obtain ⟨record, hok, hwithin⟩ := hinside.record
        obtain rfl := Except.ok.inj (hcourse.head.coherent.record_eq.symm.trans hok)
        intro record hrecord
        obtain rfl := Option.some.inj hrecord
        exact hwithin
  | finish =>
    obtain ⟨solution, hfinish, hwithin⟩ := finish_ok hr h
    refine ⟨.solution solution, r, ?_, hwithin, hr, h⟩
    rw [respond, hfinish]
    rfl
  | restart s => exact ⟨_, _, rfl, h, coherent_start s hr.wellShaped, h⟩
  | solve s =>
    obtain ⟨solution, hfinish, hwithin⟩ := finish_ok (coherent_start s hr.wellShaped) h
    refine ⟨.solution solution, r, ?_, hwithin, hr, h⟩
    rw [respond, Solver.solveTableau, hfinish]
    rfl

/-- **Every sequence of requests** is answered inside the table. -/
theorem serve_ok (hr : r.Coherent) (h : r.tableau.Measures n m) (requests : List (Request K)) :
    ∃ replies last, r.serve requests = .ok (replies, last)
      ∧ (∀ reply ∈ replies, reply.Within n m) ∧ last.Coherent ∧ last.tableau.Measures n m := by
  -- the induction follows the requests; coherence and measures carry from one to the next
  induction requests generalizing r with
  | nil => exact ⟨[], r, rfl, nofun, hr, h⟩
  | cons request rest ih =>
    obtain ⟨reply, r', hrespond, hreply, hr', h'⟩ := respond_ok hr h request
    obtain ⟨replies, last, hserve, hreplies, hlast, hmeasures⟩ := ih hr' h'
    refine ⟨reply :: replies, last, ?_, List.forall_mem_cons.mpr ⟨hreply, hreplies⟩, hlast,
      hmeasures⟩
    rw [serve, hrespond, ok_bind]
    show (serve rest r' >>= _) = _
    rw [hserve]
    rfl

end Run

/-- **Sessions stay inside the table.** Whatever is asked, in whatever order and under whatever
    limits, of the run of a tableau built for `n` variables and `m` constraints, and whatever the
    arithmetic makes of the cells: every request is answered, every tableau and record that is
    given back lies within the measures, and so does the run at the end of the session with all
    its examinations to come. -/
theorem Solver.session_inside [Cell K] (s : Solver K) {t : Tableau K} {n m : Nat}
    (ht : t.BuiltFor n m) (requests : List (Request K)) :
    ∃ replies last runs, (s.start t).serve requests = .ok (replies, last)
      ∧ (∀ reply ∈ replies, reply.Within n m)
      ∧ last.InRange n m
      ∧ last.future = .ok runs
      ∧ ∀ a ∈ runs, a.InRange n m := by
  have hmeasures := ht.measures
  obtain ⟨replies, last, hserve, hreplies, hlast, hlastMeasures⟩ :=
    Run.serve_ok (Run.coherent_start s hmeasures.wellShaped) hmeasures requests
  obtain ⟨runs, hcourse, -⟩ := hlast.exists_course
  exact ⟨replies, last, runs, hserve, hreplies, hlast.inRange hlastMeasures,
    hcourse.future_eq hlast, hcourse.inRange hlast hlastMeasures⟩

/-- A problem over doubles whose optimum is 1e200, with a pivot that overflows on the way. -/
def overflowingPivot : Problem Float := ⟨[1e200, 0], [[1, -1e200], [0, 1]], [1, 0]⟩

/-- The second pivot makes the objective value of `overflowingPivot` no number. -/
theorem session_inside_overflowingPivot :
    ∃ t, overflowingPivot.tableau = .ok t
      ∧ ∃ replies last runs,
        (Solver.standard.start t).serve
            [.next, .next, .next, .restart Solver.standard, .finish, .next,
              .solve (Solver.standard.withMaxIterations 0)] = .ok (replies, last)
        ∧ (last.tableau.entry 0 4).isNaN = true
        ∧ (∀ reply ∈ replies, reply.Within 2 2)
        ∧ last.InRange 2 2
        ∧ last.future = .ok runs
        ∧ ∀ a ∈ runs, a.InRange 2 2 := by
  obtain ⟨t, htableau, hnan⟩ : ∃ t, overflowingPivot.tableau = .ok t
      ∧ (((Solver.standard.start t).serve
            [.next, .next, .next, .restart Solver.standard, .finish, .next,
              .solve (Solver.standard.withMaxIterations 0)]).toOption.map
          fun result => (result.2.tableau.entry 0 4).isNaN) = some true := by
    refine ⟨.unchecked (overflowingPivot.objective.map (-·)) overflowingPivot.constraints 0
      overflowingPivot.rhs, ?_, by decide +kernel⟩
    exact Problem.tableau_eq_unchecked (fun x => isFinite_neg x) (by decide +kernel)
  obtain ⟨replies, last, runs, hserve, hreplies, hlast, hfuture, hruns⟩ :=
    Solver.standard.session_inside (.inr ⟨overflowingPivot, htableau, rfl, rfl⟩)
      [.next, .next, .next, .restart Solver.standard, .finish, .next,
        .solve (Solver.standard.withMaxIterations 0)]
  rw [hserve] at hnan
  exact ⟨t, htableau, replies, last, runs, hserve, Option.some.inj hnan, hreplies, hlast, hfuture,
    hruns⟩

end SimplexTableau

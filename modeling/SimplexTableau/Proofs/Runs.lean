import SimplexTableau.Proofs.Reading
import SimplexTableau.Proofs.Verdict
import SimplexTableau.Run
import Mathlib.Data.List.Chain

namespace SimplexTableau

/-!
# Runs of well-shaped tableaus

On a well-shaped tableau nothing that a run asks for is missing, so every run succeeds.  This file
says what it consists of, whatever the arithmetic:

* `Run.Coherent` — the tableau is well-shaped, and the phase is the verdict on it;
* `Run.announced` — what is announced of an examination, once it has a verdict;
* `Run.Follows` — one examination after another: the solver stays, and the tableau is the one
  before, pivoted where the phase says; `Follows.remaining_lt`: each takes the run nearer to its
  end;
* `Coherent.futureFor_ok` — the examinations still to come are a chain of such steps, announced one
  after the other, and `Follows.chain_induction` carries an invariant along it;
* `Coherent.exists_namedColumn` — the column that a record chooses once more is that of the verdict;
* `Run.report`, `Run.outcome` — the record and the solution of a coherent run;
* `Run.start_ok` — the records of the run of a tableau, and the solution read off its last
  examination.
-/

/-! ### Announcements whose values are there -/

namespace Watched

variable {K ε α β : Type}

/-- A result with announcements none of whose values is missing. -/
def told (a : α) (events : List (Event K)) : Watched K ε α := ⟨.ok a, events.map .ok⟩

@[simp] theorem result_told (a : α) (events : List (Event K)) :
    (told a events : Watched K ε α).result = .ok a := rfl

/-- Who watches sees the announcements. -/
@[simp] theorem seen_told (a : α) (events : List (Event K)) :
    (told a events : Watched K ε α).seen = .ok events := by
  show (events.map Except.ok).mapM id = .ok events
  induction events with
  | nil => rfl
  | cons e rest ih => rw [List.map_cons, List.mapM_cons, ih]; rfl

theorem told_bind (a : α) (events : List (Event K)) {f : α → Watched K ε β} {b : β}
    {more : List (Event K)} (h : f a = told b more) :
    (told a events >>= f) = told b (events ++ more) := by
  show (⟨(f a).result, events.map .ok ++ (f a).events⟩ : Watched K ε β) = _
  rw [h, told, told, List.map_append]

/-- What announces nothing leaves the announcements as they are. -/
theorem told_bind_silent (a : α) (events : List (Event K)) {f : α → Watched K ε β} {b : β}
    (h : f a = told b []) : (told a events >>= f) = told b events := by
  rw [told_bind a events h, List.append_nil]

end Watched

namespace Run

variable {K : Type} {r next : Run K}

/-! ### How long a run can go on -/

/-- The most examinations that a run has still before it. -/
def remaining (r : Run K) : Nat :=
  match r.phase with
  | .fresh => r.solver.maxIterations - r.pivots + 1
  | .pivoting _ _ => r.solver.maxIterations - r.pivots
  | .optimal | .unbounded _ | .limitReached => 0

/-- Once something was examined, no more examinations remain than pivots are allowed. -/
theorem remaining_le_of_ne_fresh (hphase : r.phase ≠ .fresh) :
    r.remaining ≤ r.solver.maxIterations - r.pivots := by
  unfold remaining
  split
  · rename_i hfresh
    exact absurd hfresh hphase
  · exact Nat.le_refl _
  · exact Nat.zero_le _
  · exact Nat.zero_le _
  · exact Nat.zero_le _

/-- The fuel of a run is enough for what remains of it. -/
theorem remaining_le_budget (r : Run K) : r.remaining ≤ r.budget := by
  unfold budget
  by_cases hphase : r.phase = .fresh
  · rw [remaining, hphase]
  · exact Nat.le_succ_of_le (remaining_le_of_ne_fresh hphase)

/-- Only a run with a chosen pivot is shown as pivoting. -/
theorem exists_phase_of_pivoting (h : r.state = .pivoting) : ∃ c i, r.phase = .pivoting c i := by
  rw [state] at h
  cases hphase : r.phase with
  | pivoting c i => exact ⟨c, i, rfl⟩
  | fresh => rw [hphase] at h; exact absurd h nofun
  | optimal => rw [hphase] at h; exact absurd h nofun
  | unbounded name => rw [hphase] at h; exact absurd h nofun
  | limitReached => rw [hphase] at h; exact absurd h nofun

/-- A run has ended with an optimum, without bound or at the limit. -/
theorem isTerminal_iff : r.state.isTerminal = true
    ↔ r.phase = .optimal ∨ (∃ name, r.phase = .unbounded name) ∨ r.phase = .limitReached := by
  rw [state]
  cases r.phase <;> simp [Phase.state, State.isTerminal]

variable [Cell K]

/-! ### Coherent runs -/

/-- The phase agrees with the verdict on the tableau and with the pivots that are allowed. -/
def PhaseFits (r : Run K) : Prop :=
  match r.phase with
  | .fresh => True
  | .pivoting column row =>
    select r.solver.tolerance r.tableau = .ok (.pivot column row)
      ∧ r.pivots < r.solver.maxIterations
  | .optimal => select r.solver.tolerance r.tableau = .ok .optimal
  | .unbounded name =>
    ∃ column, select r.solver.tolerance r.tableau = .ok (.unbounded column)
      ∧ (r.tableau.columnAt column).name = name
  | .limitReached =>
    (∃ column row, select r.solver.tolerance r.tableau = .ok (.pivot column row))
      ∧ r.solver.maxIterations ≤ r.pivots

/-- The tableau is well-shaped, and the phase is what examining it has given. -/
structure Coherent (r : Run K) : Prop where
  /-- The tableau has its parts. -/
  wellShaped : r.tableau.WellShaped
  /-- The phase is the verdict. -/
  phaseFits : r.PhaseFits

theorem coherent_start (s : Solver K) {t : Tableau K} (ht : t.WellShaped) :
    (s.start t).Coherent := ⟨ht, trivial⟩

theorem Coherent.select_of_pivoting (hr : r.Coherent) {c i : Nat}
    (hphase : r.phase = .pivoting c i) :
    select r.solver.tolerance r.tableau = .ok (.pivot c i)
      ∧ r.pivots < r.solver.maxIterations := by
  simpa only [PhaseFits, hphase] using hr.phaseFits

theorem Coherent.select_of_optimal (hr : r.Coherent) (hphase : r.phase = .optimal) :
    select r.solver.tolerance r.tableau = .ok .optimal := by
  simpa only [PhaseFits, hphase] using hr.phaseFits

theorem Coherent.select_of_unbounded (hr : r.Coherent) {name : String}
    (hphase : r.phase = .unbounded name) :
    ∃ c, select r.solver.tolerance r.tableau = .ok (.unbounded c)
      ∧ (r.tableau.columnAt c).name = name := by
  simpa only [PhaseFits, hphase] using hr.phaseFits

theorem Coherent.select_of_limitReached (hr : r.Coherent) (hphase : r.phase = .limitReached) :
    (∃ c i, select r.solver.tolerance r.tableau = .ok (.pivot c i))
      ∧ r.solver.maxIterations ≤ r.pivots := by
  simpa only [PhaseFits, hphase] using hr.phaseFits

/-- Other counts and limits leave a run coherent, if they allow its pivot or are as spent as it
    says. -/
theorem Coherent.of_phase_eq {a : Run K} (hr : r.Coherent)
    (htolerance : a.solver.tolerance = r.solver.tolerance) (htableau : a.tableau = r.tableau)
    (hphase : a.phase = r.phase)
    (hallowed : ∀ c i, r.phase = .pivoting c i → a.pivots < a.solver.maxIterations)
    (hspent : r.phase = .limitReached → a.solver.maxIterations ≤ a.pivots) : a.Coherent := by
  refine ⟨htableau ▸ hr.wellShaped, ?_⟩
  rw [PhaseFits, hphase, htolerance, htableau]
  cases h : r.phase with
  | fresh => trivial
  | pivoting c i => exact ⟨(hr.select_of_pivoting h).1, hallowed c i h⟩
  | optimal => exact hr.select_of_optimal h
  | unbounded name => exact hr.select_of_unbounded h
  | limitReached => exact ⟨(hr.select_of_limitReached h).1, hspent h⟩

/-- If no examinations remain, the run has ended. -/
theorem Coherent.isTerminal_of_remaining (hr : r.Coherent) (h : r.remaining = 0) :
    r.state.isTerminal = true := by
  cases hphase : r.phase with
  | fresh =>
    rw [remaining, hphase] at h
    exact absurd h (Nat.succ_ne_zero _)
  | pivoting c i =>
    have hallowed := (hr.select_of_pivoting hphase).2
    rw [remaining, hphase] at h
    exact absurd h (Nat.sub_ne_zero_of_lt hallowed)
  | optimal => rw [state, hphase]; rfl
  | unbounded name => rw [state, hphase]; rfl
  | limitReached => rw [state, hphase]; rfl

/-- A verdict on a well-shaped tableau lies inside the table. -/
theorem inside_of_select {t : Tableau K} (ht : t.WellShaped) {tolerance : K}
    {verdict : Selection} (h : select tolerance t = .ok verdict) : verdict.Inside t := by
  obtain ⟨verdict', h', hinside⟩ := select_ok ht tolerance
  rw [h'] at h
  rwa [← Except.ok.inj h]

/-- The next pivot of a coherent run is on a cell of a constraint row and a variable. -/
theorem Coherent.pivot_inside (hr : r.Coherent) {c i : Nat}
    (hphase : r.phase = .pivoting c i) :
    c < r.tableau.rhsColumn ∧ 0 < i ∧ i < r.tableau.numRows :=
  inside_of_select hr.wellShaped (hr.select_of_pivoting hphase).1

/-! ### Steps -/

/-- How the tableau and the number of pivots change from one examination to the next. -/
inductive Moves (r next : Run K) : Prop
  /-- The first tableau is examined as it is. -/
  | start (phase : r.phase = .fresh) (tableau : next.tableau = r.tableau)
      (pivots : next.pivots = r.pivots)
  /-- The chosen pivot is made. -/
  | pivot (column row : Nat) (phase : r.phase = .pivoting column row)
      (tableau : next.tableau = r.tableau.pivoted row column)
      (pivots : next.pivots = r.pivots + 1)

/-- `next` is the run after one more examination. -/
structure Follows (r next : Run K) : Prop where
  /-- The limits stay. -/
  solver_eq : next.solver = r.solver
  /-- The phase is the verdict on the new tableau. -/
  coherent : next.Coherent
  /-- Something was examined. -/
  examined : next.phase ≠ .fresh
  /-- The tableau is the one before, pivoted as its verdict says. -/
  moves : Moves r next

/-- What is announced of an examination that has come to its verdict. -/
def announced (r : Run K) : List (Event K) :=
  match r.phase with
  | .fresh => []
  | .pivoting column row =>
    [.examined r.pivots r.tableau, .selected r.pivots (r.tableau.columnAt column).name row
      (r.tableau.entry 0 r.tableau.rhsColumn)]
  | .optimal =>
    [.examined r.pivots r.tableau, .optimal r.pivots (r.tableau.entry 0 r.tableau.rhsColumn)]
  | .unbounded name => [.examined r.pivots r.tableau, .unbounded r.pivots name]
  | .limitReached => [.examined r.pivots r.tableau, .limitReached r.solver.maxIterations]

/-- On a well-shaped tableau an examination succeeds and announces tableau and verdict; only the
    phase changes. -/
theorem examine_ok (ht : r.tableau.WellShaped) :
    ∃ phase, r.examine = .told { r with phase } (announced { r with phase })
      ∧ phase ≠ .fresh ∧ Coherent { r with phase } := by
  obtain ⟨verdict, hselect, hinside⟩ := select_ok ht r.solver.tolerance
  have hz := ht.objectiveValue_eq
  rw [examine, hselect, Watched.tell_bind, Watched.liftM_ok_bind]
  cases verdict with
  | optimal =>
    refine ⟨.optimal, ?_, nofun, ht, hselect⟩
    simp only [hz]
    rfl
  | unbounded column =>
    refine ⟨.unbounded (r.tableau.columnAt column).name, ?_, nofun, ht, column, hselect, rfl⟩
    simp only [r.tableau.column_eq hinside, Watched.liftM_ok_bind]
    rfl
  | pivot column row =>
    by_cases hlimit : r.pivots < r.solver.maxIterations
    · refine ⟨.pivoting column row, ?_, nofun, ht, hselect, hlimit⟩
      simp only [hlimit, if_true, hz, r.tableau.column_eq hinside.1]
      rfl
    · refine ⟨.limitReached, ?_, nofun, ht, ⟨column, row, hselect⟩, Nat.not_lt.mp hlimit⟩
      simp only [hlimit, if_false]
      rfl

/-- **One step.** A coherent run has ended and has nothing to tell, or it goes on with a run that
    follows it and announces its examination. -/
theorem Coherent.advance_ok (hr : r.Coherent) :
    (r.advance = .told none [] ∧ r.state.isTerminal = true)
      ∨ ∃ next, r.advance = .told (some next) next.announced ∧ r.Follows next := by
  cases hphase : r.phase with
  | fresh =>
    obtain ⟨phase, hexamine, hne, hcoherent⟩ := examine_ok hr.wellShaped
    refine .inr ⟨{ r with phase }, ?_, rfl, hcoherent, hne, .start hphase rfl rfl⟩
    rw [advance, hphase]
    show (r.examine >>= _) = _
    rw [hexamine]
    exact Watched.told_bind_silent _ _ rfl
  | pivoting c i =>
    obtain ⟨hc, -, hi⟩ := hr.pivot_inside hphase
    let moved : Run K := { r with tableau := r.tableau.pivoted i c, pivots := r.pivots + 1 }
    have hmoved : moved.tableau.WellShaped := hr.wellShaped.pivoted hi c
    obtain ⟨phase, hexamine, hne, hcoherent⟩ := examine_ok hmoved
    refine .inr ⟨{ moved with phase }, ?_, rfl, hcoherent, hne, .pivot c i hphase rfl rfl⟩
    rw [advance, hphase]
    simp only [hr.wellShaped.pivot_eq hi (Tableau.lt_numColumns hc), Watched.liftM_ok_bind]
    show (moved.examine >>= _) = _
    rw [hexamine]
    exact Watched.told_bind_silent _ _ rfl
  | optimal => exact .inl ⟨by rw [advance, hphase]; rfl, by rw [state, hphase]; rfl⟩
  | unbounded name => exact .inl ⟨by rw [advance, hphase]; rfl, by rw [state, hphase]; rfl⟩
  | limitReached => exact .inl ⟨by rw [advance, hphase]; rfl, by rw [state, hphase]; rfl⟩

/-! ### Chains of steps -/

/-- Each step leaves fewer examinations to come. -/
theorem Follows.remaining_lt (h : r.Follows next) (hr : r.Coherent) :
    next.remaining < r.remaining := by
  have hnext := remaining_le_of_ne_fresh h.examined
  rw [h.solver_eq] at hnext
  cases h.moves with
  | start hphase _ hpivots =>
    have hr' : r.remaining = r.solver.maxIterations - r.pivots + 1 := by rw [remaining, hphase]
    omega
  | pivot c i hphase _ hpivots =>
    -- the pivot was allowed, so the difference to the limit was not yet 0
    have hallowed := (hr.select_of_pivoting hphase).2
    have hr' : r.remaining = r.solver.maxIterations - r.pivots := by rw [remaining, hphase]
    omega

/-- **The examinations still to come** are a chain of steps, and settling ends at the last of
    them; each is announced in its turn.  With enough fuel that is the end of the run. -/
theorem Coherent.futureFor_ok (hr : r.Coherent) (fuel : Nat) :
    ∃ runs, futureFor fuel r = .told runs (runs.flatMap announced)
      ∧ settleFor fuel r = .told (runs.getLastD r) (runs.flatMap announced)
      ∧ (r :: runs).IsChain Follows
      ∧ (r.remaining ≤ fuel → (runs.getLastD r).state.isTerminal = true) := by
  -- the induction follows the fuel; the run that it speaks of moves on with each step
  induction fuel generalizing r with
  | zero =>
    exact ⟨[], rfl, rfl, List.isChain_singleton r,
      fun hfuel => hr.isTerminal_of_remaining (Nat.le_zero.mp hfuel)⟩
  | succ fuel ih =>
    rcases hr.advance_ok with ⟨hstop, hterminal⟩ | ⟨next, hnext, hfollows⟩
    · refine ⟨[], ?_, ?_, List.isChain_singleton r, fun _ => hterminal⟩
      · rw [futureFor, hstop]
        rfl
      · rw [settleFor, hstop]
        rfl
    · obtain ⟨runs, hfuture, hsettle, hchain, hend⟩ := ih hfollows.coherent
      refine ⟨next :: runs, ?_, ?_, List.isChain_cons_cons.mpr ⟨hfollows, hchain⟩, fun hfuel => ?_⟩
      · rw [futureFor, hnext, List.flatMap_cons]
        refine Watched.told_bind _ _ ?_
        show (futureFor fuel next >>= _) = _
        rw [hfuture]
        exact Watched.told_bind_silent _ _ rfl
      · rw [settleFor, hnext, List.getLastD_cons, List.flatMap_cons]
        exact Watched.told_bind _ _ hsettle
      · rw [List.getLastD_cons]
        have hless := hfollows.remaining_lt hr
        exact hend (by omega)

/-- **Invariants along a run.** What every step preserves holds of all examinations still to
    come. -/
theorem Follows.chain_induction {P : Run K → Prop}
    (hstep : ∀ a b, P a → a.Follows b → P b) {runs : List (Run K)}
    (hchain : (r :: runs).IsChain Follows) (hr : P r) : ∀ a ∈ runs, P a := by
  induction runs generalizing r with
  | nil => simp
  | cons next rest ih =>
    obtain ⟨hfollows, hrest⟩ := List.isChain_cons_cons.mp hchain
    have hnext : P next := hstep r next hr hfollows
    exact List.forall_mem_cons.mpr ⟨hnext, ih hrest hnext⟩

/-- Every examination to come is coherent, has a verdict and keeps to the same limits. -/
theorem Follows.chain_coherent {runs : List (Run K)} (hchain : (r :: runs).IsChain Follows) :
    ∀ a ∈ runs, a.Coherent ∧ a.phase ≠ .fresh ∧ a.solver = r.solver := by
  cases runs with
  | nil => simp
  | cons next rest =>
    obtain ⟨hfollows, hrest⟩ := List.isChain_cons_cons.mp hchain
    have hnext : next.Coherent ∧ next.phase ≠ .fresh ∧ next.solver = r.solver :=
      ⟨hfollows.coherent, hfollows.examined, hfollows.solver_eq⟩
    refine List.forall_mem_cons.mpr ⟨hnext, chain_induction (fun a b ha hab => ?_) hrest hnext⟩
    exact ⟨hab.coherent, hab.examined, hab.solver_eq.trans ha.2.2⟩

/-- The first tableau is examined first, as it is. -/
theorem Follows.tableau_of_start {s : Solver K} {t : Tableau K} (h : (s.start t).Follows r) :
    r.tableau = t := by
  cases h.moves with
  | start _ htableau _ => exact htableau
  | pivot _ _ hpivot _ _ => exact absurd hpivot nofun

/-! ### Records -/

/-- The column that a record names, if the tableau is well-shaped. -/
def namedColumn (r : Run K) : Option Nat :=
  match r.phase with
  | .pivoting column _ => some column
  | .unbounded _ => (Least.scan (some (-r.solver.tolerance)) r.tableau.objectiveEntries).index?
  | .fresh | .optimal | .limitReached => none

theorem namedColumn_of_pivoting {c i : Nat} (hphase : r.phase = .pivoting c i) :
    r.namedColumn = some c := by
  rw [namedColumn, hphase]

/-- The column that a record chooses once more. -/
theorem Coherent.recordedColumn_eq (hr : r.Coherent) :
    r.recordedColumn = .ok r.namedColumn := by
  rw [recordedColumn, namedColumn]
  cases r.phase with
  | unbounded name => exact hr.wellShaped.enteringColumn_eq _
  | fresh | pivoting c i | optimal | limitReached => rfl

/-- **Chosen twice, chosen alike.** The column that the record of an unbounded run chooses once more
    is the one of the verdict, whose name the run has kept. -/
theorem Coherent.exists_namedColumn (hr : r.Coherent) {name : String}
    (hphase : r.phase = .unbounded name) :
    ∃ c < r.tableau.rhsColumn, r.namedColumn = some c ∧ (r.tableau.columnAt c).name = name
      ∧ select r.solver.tolerance r.tableau = .ok (.unbounded c) := by
  obtain ⟨c, hselect, hname⟩ := hr.select_of_unbounded hphase
  have hcolumn := (select_eq_unbounded_iff.mp hselect).1
  have hnamed := hr.recordedColumn_eq
  rw [recordedColumn, hphase] at hnamed
  have hsame : r.namedColumn = some c := Except.ok.inj (hnamed.symm.trans hcolumn)
  exact ⟨c, hr.wellShaped.enteringColumn_lt hcolumn, hsame, hname, hselect⟩

theorem Coherent.namedColumn_lt (hr : r.Coherent) {c : Nat} (hcolumn : r.namedColumn = some c) :
    c < r.tableau.rhsColumn := by
  cases hphase : r.phase with
  | pivoting column row =>
    rw [namedColumn_of_pivoting hphase] at hcolumn
    exact Option.some.inj hcolumn ▸ (hr.pivot_inside hphase).1
  | unbounded name =>
    obtain ⟨d, hd, hnamed, -⟩ := hr.exists_namedColumn hphase
    rw [hnamed] at hcolumn
    exact Option.some.inj hcolumn ▸ hd
  | fresh => simp [namedColumn, hphase] at hcolumn
  | optimal => simp [namedColumn, hphase] at hcolumn
  | limitReached => simp [namedColumn, hphase] at hcolumn

/-- The record of a run whose tableau is well-shaped. -/
def report (r : Run K) : Record K where
  step := r.pivots
  state := r.state
  tableau := r.tableau
  enteringColumn := r.namedColumn
  entering := r.namedColumn.map fun j => (r.tableau.columnAt j).name
  leavingRow := r.phase.row?
  leaving := (r.phase.row?.bind (r.tableau.reading r.solver.tolerance).hostedBy).map (·.name)
  pivotElement :=
    match r.phase with
    | .pivoting column row => some (r.tableau.entry row column)
    | _ => none
  classification := r.tableau.reading r.solver.tolerance
  z := r.tableau.entry 0 r.tableau.rhsColumn

theorem entering_report_of_pivoting {c i : Nat} (hphase : r.phase = .pivoting c i) :
    r.report.entering = some (r.tableau.columnAt c).name := by
  show r.namedColumn.map _ = _
  rw [namedColumn_of_pivoting hphase]
  rfl

/-- **Every coherent run has its record.** -/
theorem Coherent.record_eq (hr : r.Coherent) : r.record = .ok r.report := by
  have hentering : (r.namedColumn.mapM fun j => do return (← r.tableau.column j).name)
      = (.ok (r.namedColumn.map fun j => (r.tableau.columnAt j).name)
          : Except ShapeError (Option String)) := by
    cases hcolumn : r.namedColumn with
    | none => rfl
    | some c =>
      show (r.tableau.column c >>= _) >>= _ = _
      rw [r.tableau.column_eq (hr.namedColumn_lt hcolumn)]
      rfl
  rw [record, hr.wellShaped.classify_eq, ok_bind, hr.recordedColumn_eq, ok_bind, hentering,
    ok_bind, hr.wellShaped.objectiveValue_eq]
  cases hphase : r.phase with
  | pivoting c i =>
    obtain ⟨hc, -, hi⟩ := hr.pivot_inside hphase
    simp [report, hphase, hr.wellShaped.cell_eq hi (Tableau.lt_numColumns hc)]
  | fresh => simp [report, hphase]
  | optimal => simp [report, hphase]
  | unbounded name => simp [report, hphase]
  | limitReached => simp [report, hphase]

/-- The records of a run that has examined something begin with that of the first tableau. -/
theorem head?_tableau_report {s : Solver K} {t : Tableau K} {runs : List (Run K)} (hr : r ∈ runs)
    (hchain : (s.start t :: runs).IsChain Follows) :
    (runs.map report).head?.map (·.tableau) = some t := by
  cases runs with
  | nil => simp at hr
  | cons first rest =>
    obtain ⟨hfollows, -⟩ := List.isChain_cons_cons.mp hchain
    show some first.tableau = some t
    rw [hfollows.tableau_of_start]

/-! ### Solutions -/

/-- The solution of a run whose tableau is well-shaped, with the given records. -/
def outcome (r : Run K) (trace : List (Record K)) : Solution K :=
  match r.phase with
  | .optimal =>
    .optimal (r.tableau.entry 0 r.tableau.rhsColumn)
      (.ofList (r.tableau.reading r.solver.tolerance).structural) r.pivots trace
  | .unbounded name => .unbounded name r.pivots trace
  | .fresh | .pivoting _ _ | .limitReached =>
    .iterationLimit r.solver.maxIterations r.pivots trace

theorem outcome_of_optimal (hphase : r.phase = .optimal) (trace : List (Record K)) :
    r.outcome trace = .optimal (r.tableau.entry 0 r.tableau.rhsColumn)
      (.ofList (r.tableau.reading r.solver.tolerance).structural) r.pivots trace := by
  rw [outcome, hphase]

theorem Coherent.answer_eq (hr : r.Coherent) (trace : List (Record K)) :
    r.answer trace = .ok (r.outcome trace) := by
  cases hphase : r.phase with
  | optimal =>
    simp only [answer, outcome, hphase, hr.wellShaped.classify_eq,
      hr.wellShaped.objectiveValue_eq, ok_bind, pure_eq_ok]
  | unbounded name => simp only [answer, outcome, hphase]
  | fresh => simp only [answer, outcome, hphase]
  | pivoting c i => simp only [answer, outcome, hphase]
  | limitReached => simp only [answer, outcome, hphase]

theorem status_outcome_eq_optimal_iff {trace : List (Record K)} :
    (r.outcome trace).status = .optimal ↔ r.phase = .optimal := by
  cases hphase : r.phase <;>
    simp [outcome, hphase, Solution.optimal, Solution.unbounded, Solution.iterationLimit]

theorem status_outcome_eq_unbounded_iff {trace : List (Record K)} :
    (r.outcome trace).status = .unbounded ↔ ∃ name, r.phase = .unbounded name := by
  cases hphase : r.phase <;>
    simp [outcome, hphase, Solution.optimal, Solution.unbounded, Solution.iterationLimit]

/-- A run that has ended was cut off exactly if its last pivot was not allowed. -/
theorem status_outcome_eq_iterationLimit_iff {trace : List (Record K)}
    (hend : r.state.isTerminal = true) :
    (r.outcome trace).status = .iterationLimit ↔ r.phase = .limitReached := by
  rw [state] at hend
  cases hphase : r.phase <;>
    simp_all [outcome, Phase.state, State.isTerminal, Solution.optimal, Solution.unbounded,
      Solution.iterationLimit]

/-- A run that ends with pivots left was not cut off. -/
theorem Coherent.status_of_pivots_lt (hr : r.Coherent) (hend : r.state.isTerminal = true)
    (hlt : r.pivots < r.solver.maxIterations) (trace : List (Record K)) :
    (r.outcome trace).status = .optimal ∨ (r.outcome trace).status = .unbounded := by
  obtain hphase | hphase | hphase := isTerminal_iff.mp hend
  · exact .inl (status_outcome_eq_optimal_iff.mpr hphase)
  · exact .inr (status_outcome_eq_unbounded_iff.mpr hphase)
  · exact absurd hlt (Nat.not_lt.mpr (hr.select_of_limitReached hphase).2)

/-- The records that the solution of a run holds of the given examinations. -/
def keeps (r : Run K) (runs : List (Run K)) : List (Record K) :=
  if r.solver.trace then runs.map report else []

/-- **Every coherent run comes to its end**, with the records of a chain of examinations and the
    solution of the last of them.  Whether records are asked for or not, each examination is
    announced. -/
theorem Coherent.watch_ok (hr : r.Coherent) :
    ∃ runs, r.collect = .ok (runs.map report, runs.getLastD r)
      ∧ (r :: runs).IsChain Follows
      ∧ (runs.getLastD r).state.isTerminal = true
      ∧ r.watch = .told ((runs.getLastD r).outcome (r.keeps runs)) (runs.flatMap announced) := by
  obtain ⟨runs, hfuture, hsettle, hchain, hend⟩ := hr.futureFor_ok r.budget
  have hcoherent := Follows.chain_coherent hchain
  have hrecords : runs.mapM record = .ok (runs.map report) :=
    mapM_eq_ok fun a ha => (hcoherent a ha).1.record_eq
  have hwatch : r.watchRecords = .told (runs.map report, runs.getLastD r)
      (runs.flatMap announced) := by
    rw [watchRecords, hfuture]
    exact Watched.told_bind_silent _ _ (by rw [hrecords]; rfl)
  have hall : ∀ a ∈ r :: runs, a.Coherent :=
    List.forall_mem_cons.mpr ⟨hr, fun a ha => (hcoherent a ha).1⟩
  have hanswer := (hall _ (List.getLastD_mem_cons (l := runs) (a := r))).answer_eq
  refine ⟨runs, by rw [collect, hwatch]; rfl, hchain, hend r.remaining_le_budget, ?_⟩
  rw [keeps, watch]
  by_cases htrace : r.solver.trace = true
  · rw [if_pos htrace, if_pos htrace, hwatch]
    exact Watched.told_bind_silent _ _ (by simp only [hanswer]; rfl)
  · rw [if_neg htrace, if_neg htrace, hsettle]
    exact Watched.told_bind_silent _ _ (by rw [hanswer]; rfl)

/-- The same when nobody watches. -/
theorem Coherent.collect_ok (hr : r.Coherent) :
    ∃ runs, r.collect = .ok (runs.map report, runs.getLastD r)
      ∧ (r :: runs).IsChain Follows
      ∧ (runs.getLastD r).state.isTerminal = true
      ∧ r.finish = .ok ((runs.getLastD r).outcome (r.keeps runs)) := by
  obtain ⟨runs, hcollect, hchain, hend, hwatch⟩ := hr.watch_ok
  exact ⟨runs, hcollect, hchain, hend, by rw [finish, hwatch]; rfl⟩

/-- **The run of a well-shaped tableau** succeeds: its records are those of a chain of
    examinations, and its solution is read off the last of them. -/
theorem start_ok (s : Solver K) {t : Tableau K} (ht : t.WellShaped) :
    ∃ runs last trace, (s.start t).collect = .ok (runs.map report, last)
      ∧ (s.start t :: runs).IsChain Follows
      ∧ last ∈ runs
      ∧ last.state.isTerminal = true
      ∧ s.solveTableau t = .ok (last.outcome trace) := by
  obtain ⟨runs, hcollect, hchain, hend, hfinish⟩ := (coherent_start s ht).collect_ok
  refine ⟨runs, runs.getLastD (s.start t), _, hcollect, hchain, ?_, hend, hfinish⟩
  rcases List.mem_cons.mp (List.getLastD_mem_cons (l := runs) (a := s.start t)) with heq | hmem
  · -- the run has not ended before its first examination
    rw [heq] at hend
    exact absurd hend Bool.false_ne_true
  · exact hmem

end Run

end SimplexTableau

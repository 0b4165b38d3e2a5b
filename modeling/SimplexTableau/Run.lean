import SimplexTableau.Event
import SimplexTableau.Pivot
import SimplexTableau.Problem
import SimplexTableau.Selection
import SimplexTableau.Solution

namespace SimplexTableau

/-!
# Runs of the simplex method

A run examines a tableau, pivots as the verdict says and examines the next one, until the
verdict is final or no more pivots are allowed.  Every tableau and every verdict is announced.

* `Solver` — the limits a run keeps to;
* `Run` — a run between two examinations; `Run.advance` takes it to the next one;
* `Run.future` — all examinations still to come; `Run.collect`: their records;
* `Run.watch` — the end of a run with the events on the way to it, and `Run.finish`: its solution;
* `Solver.watch` — how a problem is solved, with all events; `Solver.solve`, `Solver.events`: the
  solution and the events of it.

The number of allowed pivots bounds every run, so each of these is total.
-/

/-! ### Solvers -/

/-- The limits that a run keeps to. -/
structure Solver (K : Type) where
  /-- The number of pivots allowed. -/
  maxIterations : Nat
  /-- How far from 0 a cell has to be to count. -/
  tolerance : K
  /-- Whether a solution holds the records of its steps. -/
  trace : Bool

namespace Solver

variable {K : Type} [Cell K]

/-- 500 pivots, a tolerance of 10⁻⁹, and records of the steps. -/
def standard : Solver K := ⟨500, 1e-9, true⟩

/-- The solver that allows `n` pivots. -/
def withMaxIterations (s : Solver K) (n : Nat) : Solver K := { s with maxIterations := n }

/-- The solver with the given tolerance, if that is a number and not below zero; otherwise the
    tolerance stays. -/
def withTolerance (s : Solver K) (tolerance : K) : Solver K :=
  if Cell.isFinite tolerance ∧ 0 ≤ tolerance then { s with tolerance } else s

/-- The solver that does or does not hold the records of the steps. -/
def withTrace (s : Solver K) (trace : Bool) : Solver K := { s with trace }

end Solver

/-! ### Runs -/

/-- Where a run stands between two examinations, with what the last verdict has chosen. -/
inductive Phase
  /-- Nothing was examined yet. -/
  | fresh
  /-- The pivot to make next. -/
  | pivoting (column row : Nat)
  /-- No variable can enter with a gain. -/
  | optimal
  /-- The variable of that name can grow without limit. -/
  | unbounded (name : String)
  /-- A pivot was chosen, but no more are allowed. -/
  | limitReached
deriving DecidableEq

namespace Phase

/-- The state shown for a phase. -/
def state : Phase → State
  | fresh => .initial
  | pivoting _ _ => .pivoting
  | optimal => .optimal
  | unbounded _ => .unbounded
  | limitReached => .iterationLimitExceeded

/-- The row that the last verdict has chosen. -/
def row? : Phase → Option Nat
  | pivoting _ row => some row
  | fresh | optimal | unbounded _ | limitReached => none

end Phase

/-- A run between two examinations. -/
structure Run (K : Type) where
  /-- The limits it keeps to. -/
  solver : Solver K
  /-- The current tableau. -/
  tableau : Tableau K
  /-- The number of pivots made. -/
  pivots : Nat
  /-- What comes next. -/
  phase : Phase

/-- The run that starts from a tableau. -/
def Solver.start {K : Type} (s : Solver K) (t : Tableau K) : Run K := ⟨s, t, 0, .fresh⟩

namespace Run

variable {K : Type} [Cell K]

/-- Where the run stands. -/
def state (r : Run K) : State := r.phase.state

/-- Announces the current tableau, examines it and announces the verdict.  A pivot is chosen only
    while one is allowed. -/
def examine (r : Run K) : Watched K ShapeError (Run K) := do
  .tell (.ok (.examined r.pivots r.tableau))
  match ← select r.solver.tolerance r.tableau with
  | .optimal =>
    .tell (do return .optimal r.pivots (← r.tableau.objectiveValue))
    return { r with phase := .optimal }
  | .unbounded column =>
    let name := (← r.tableau.column column).name
    .tell (.ok (.unbounded r.pivots name))
    return { r with phase := .unbounded name }
  | .pivot column row =>
    if r.pivots < r.solver.maxIterations then
      .tell (do
        return .selected r.pivots (← r.tableau.column column).name row
          (← r.tableau.objectiveValue))
      return { r with phase := .pivoting column row }
    else
      .tell (.ok (.limitReached r.solver.maxIterations))
      return { r with phase := .limitReached }

/-- Makes the pivot that was chosen, if any, and examines the tableau; nothing if the run has
    ended. -/
def advance (r : Run K) : Watched K ShapeError (Option (Run K)) :=
  match r.phase with
  | .fresh => do return some (← r.examine)
  | .pivoting column row => do
    -- the pivot counts before the new tableau is examined
    let (_, tableau) ← pivot r.tableau row column
    return some (← { r with tableau, pivots := r.pivots + 1 }.examine)
  | .optimal | .unbounded _ | .limitReached => return none

/-- The most examinations that can still come. -/
def budget (r : Run K) : Nat := r.solver.maxIterations - r.pivots + 1

/-- The next examinations, at most as many as the first argument says. -/
def futureFor : Nat → Run K → Watched K ShapeError (List (Run K))
  | 0, _ => return []
  | fuel + 1, r => do
    match ← r.advance with
    | none => return []
    | some next => return next :: (← futureFor fuel next)

/-- The run after each examination still to come. -/
def future (r : Run K) : Except ShapeError (List (Run K)) := (futureFor r.budget r).result

/-- The run after its next examinations, at most as many as the first argument says. -/
def settleFor : Nat → Run K → Watched K ShapeError (Run K)
  | 0, r => return r
  | fuel + 1, r => do
    match ← r.advance with
    | none => return r
    | some next => settleFor fuel next

/-! ### Records -/

/-- The column that a record names: that of the pivot, or the one that can grow without limit.  The
    run knows that one by its name alone, so the column is chosen once more. -/
def recordedColumn (r : Run K) : Except ShapeError (Option Nat) :=
  match r.phase with
  | .pivoting column _ => .ok (some column)
  | .unbounded _ => enteringColumn r.solver.tolerance r.tableau
  | .fresh | .optimal | .limitReached => .ok none

/-- The record of the last examination. -/
def record (r : Run K) : Except ShapeError (Record K) := do
  let classification ← classify r.solver.tolerance r.tableau
  let column? ← r.recordedColumn
  let entering ← column?.mapM fun j => do return (← r.tableau.column j).name
  let pivotElement ←
    match r.phase with
    | .pivoting column row => do pure (some (← r.tableau.cell row column))
    | _ => pure none
  let z ← r.tableau.objectiveValue
  return {
    step := r.pivots
    state := r.state
    tableau := r.tableau
    enteringColumn := column?
    entering
    leavingRow := r.phase.row?
    leaving := (r.phase.row?.bind classification.hostedBy).map (·.name)
    pivotElement
    classification
    z }

/-- The next examination: its record and the run after it. -/
def next (r : Run K) : Except ShapeError (Option (Record K × Run K)) := do
  match ← r.advance.result with
  | none => return none
  | some r => return some (← r.record, r)

/-- The records of all examinations still to come, and the run at its end. -/
def watchRecords (r : Run K) : Watched K ShapeError (List (Record K) × Run K) := do
  let runs ← futureFor r.budget r
  return (← Watched.silent (runs.mapM record), runs.getLastD r)

/-- The same when nobody watches. -/
def collect (r : Run K) : Except ShapeError (List (Record K) × Run K) := r.watchRecords.result

/-! ### Solutions -/

/-- The solution that a run has come to, with the given records. -/
def answer (r : Run K) (trace : List (Record K)) : Except ShapeError (Solution K) :=
  match r.phase with
  | .optimal => do
    let classification ← classify r.solver.tolerance r.tableau
    let z ← r.tableau.objectiveValue
    return .optimal z (.ofList classification.structural) r.pivots trace
  | .unbounded name => .ok (.unbounded name r.pivots trace)
  | .fresh | .pivoting _ _ | .limitReached =>
    .ok (.iterationLimit r.solver.maxIterations r.pivots trace)

/-- Takes the run to its end.  The solution holds the records of the examinations made here, if
    the solver asks for records; otherwise none are made. -/
def watch (r : Run K) : Watched K ShapeError (Solution K) := do
  if r.solver.trace then
    let (records, last) ← r.watchRecords
    last.answer records
  else
    (← settleFor r.budget r).answer []

/-- The solution at the end of the run. -/
def finish (r : Run K) : Except ShapeError (Solution K) := r.watch.result

end Run

namespace Solver

variable {K : Type} [Cell K]

/-- The solution of a tableau. -/
def solveTableau (s : Solver K) (t : Tableau K) : Except ShapeError (Solution K) :=
  (s.start t).finish

/-- Solves a problem, if it is valid. -/
def watch (s : Solver K) (p : Problem K) : Watched K Failure (Solution K) := do
  let t ← p.tableau.mapError Failure.refused
  .tell (.ok (.built t.numStructural t.numConstraints))
  (s.start t).watch.mapError .misshapen

/-- The solution of a problem, if the problem is valid. -/
def solve (s : Solver K) (p : Problem K) : Except Failure (Solution K) := (s.watch p).result

/-- All events of solving a problem. -/
def events (s : Solver K) (p : Problem K) : Except ShapeError (List (Event K)) := (s.watch p).seen

/-- A problem without tableau is refused before anything is announced. -/
theorem watch_of_refused (s : Solver K) {p : Problem K} {fault : InputError}
    (hp : p.tableau = .error fault) : s.watch p = ⟨.error (.refused fault), []⟩ := by
  rw [watch, hp]
  rfl

/-- A problem with a tableau is solved by the run of it. -/
theorem watch_of_tableau (s : Solver K) {p : Problem K} {t : Tableau K} (hp : p.tableau = .ok t) :
    s.watch p = ⟨(s.solveTableau t).mapError .misshapen,
      .ok (.built t.numStructural t.numConstraints) :: (s.start t).watch.events⟩ := by
  rw [watch, hp]
  rfl

theorem solve_of_refused (s : Solver K) {p : Problem K} {fault : InputError}
    (hp : p.tableau = .error fault) : s.solve p = .error (.refused fault) := by
  rw [solve, s.watch_of_refused hp]

theorem solve_of_tableau (s : Solver K) {p : Problem K} {t : Tableau K} (hp : p.tableau = .ok t) :
    s.solve p = (s.solveTableau t).mapError .misshapen := by
  rw [solve, s.watch_of_tableau hp]

end Solver

end SimplexTableau

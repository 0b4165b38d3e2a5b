import SimplexTableau.Cell
import SimplexTableau.Column
import SimplexTableau.Error

namespace SimplexTableau

/-!
# Tableaus

A tableau holds one row of cells for the objective and one for each constraint.  Row 0 is the
objective row; in every row the cells of the variables come first, in the order of the column
table, and the right-hand side comes last.  The column of the objective value itself, 1 in the
objective row and 0 below, never changes and is not stored.

* `Tableau` — the rows with their column table, of whatever shape they are;
* `Tableau.cell`, `Tableau.rhs`, … — access to the parts, refused where a part is missing;
* `Tableau.initial` — the tableau of an objective row, constraints and bounds, checked first;
* `Tableau.WellShaped` — the objective row is there, and every row is one cell longer than the
  column table.  Initial tableaus have this shape.
-/

/-- Rows of cells under a column table.  The parts need not fit together: a tableau read from a
    text is taken as it stands. -/
structure Tableau (K : Type) where
  /-- The objective row, then one row per constraint. -/
  rows : Array (Array K)
  /-- The variables, in the order of their cells. -/
  columns : Array Column
  /-- How many decision variables there are. -/
  numStructural : Nat
  /-- How many slack variables there are. -/
  numSlack : Nat
deriving BEq, Inhabited

namespace Tableau

variable {K : Type}

/-- The number of rows, the objective row included. -/
def numRows (t : Tableau K) : Nat := t.rows.size

/-- The number of constraint rows. -/
def numConstraints (t : Tableau K) : Nat := t.rows.size - 1

/-- The column of the right-hand side, which follows those of the variables. -/
def rhsColumn (t : Tableau K) : Nat := t.columns.size

/-- The number of stored columns, the right-hand side included. -/
def numColumns (t : Tableau K) : Nat := t.columns.size + 1

/-! ### Access to the parts -/

/-- The cell of a row in a column. -/
def cellIn (row : Array K) (i j : Nat) : Except ShapeError K :=
  match row[j]? with
  | some v => .ok v
  | none => .error (.noCell i j)

/-- The cells of a row. -/
def row (t : Tableau K) (i : Nat) : Except ShapeError (Array K) :=
  match t.rows[i]? with
  | some r => .ok r
  | none => .error (.noRow i)

/-- One cell. -/
def cell (t : Tableau K) (i j : Nat) : Except ShapeError K := do
  cellIn (← t.row i) i j

/-- The right-hand side of a row. -/
def rhs (t : Tableau K) (i : Nat) : Except ShapeError K :=
  t.cell i t.rhsColumn

/-- The variable of a column. -/
def column (t : Tableau K) (j : Nat) : Except ShapeError Column :=
  match t.columns[j]? with
  | some c => .ok c
  | none => .error (.noColumn j)

/-- The cells of the objective row that belong to variables. -/
def objectiveCells (t : Tableau K) : Except ShapeError (List K) := do
  let objective ← t.row 0
  if t.rhsColumn ≤ objective.size then
    return objective.toList.take t.rhsColumn
  else
    throw (.noCell 0 objective.size)

/-- The value of the objective at the current basic solution, read from the right-hand side of
    the objective row. -/
def objectiveValue (t : Tableau K) : Except ShapeError K := t.rhs 0

/-! ### Shape -/

/-- The objective row is there, and every row has a cell for each variable and one more for the
    right-hand side. -/
structure WellShaped (t : Tableau K) : Prop where
  /-- There is an objective row. -/
  rows_pos : 0 < t.rows.size
  /-- Every row fits the column table. -/
  size_row : ∀ r ∈ t.rows, r.size = t.columns.size + 1

/-! ### The initial tableau -/

variable [Cell K]

/-- Each constraint has as many coefficients as there are variables. -/
def checkLengths (n : Nat) (constraints : List (List K)) : Except InputError Unit :=
  (constraints.zipIdx 1).forM fun (row, i) =>
    if row.length = n then .ok () else .error (.constraintLength i n row.length)

/-- There is a variable, each constraint has a coefficient for every variable, and there are as
    many bounds as are expected; the first of these that fails is reported. -/
def checkShape (n : Nat) (constraints : List (List K)) (expected found : Nat) :
    Except InputError Unit := do
  if n = 0 then throw .noVariables
  checkLengths n constraints
  if found ≠ expected then throw (.rhsLength expected found)

/-- The coefficients and the bound of row `i` are numbers, and the bound is not below zero.  The
    objective row, row 0, may have any number for its right-hand side. -/
def checkRow (rhsColumn i : Nat) (row : List K) (bound : K) : Except InputError Unit := do
  if let some j := row.findIdx? (!Cell.isFinite ·) then throw (.nonFinite i j)
  if !Cell.isFinite bound then throw (.nonFinite i rhsColumn)
  if 0 < i ∧ bound < 0 then throw (.negativeRhs i)

/-- Every row passes `checkRow`, from the objective row down.  The shapes must already match. -/
def checkEntries (objective : List K) (constraints : List (List K)) (value : K)
    (bounds : List K) : Except InputError Unit :=
  (((objective :: constraints).zip (value :: bounds)).zipIdx).forM fun ((row, bound), i) =>
    checkRow (objective.length + constraints.length) i row bound

/-- The cells of the slack variables in the `i`-th of `m` constraint rows: its own slack has 1. -/
def slackCells (m i : Nat) : List K :=
  (List.range m).map fun k => if k = i then 1 else 0

/-- The rows of an initial tableau: the objective row, then the constraints with their slacks. -/
def initialRows (objective : List K) (constraints : List (List K)) (value : K)
    (bounds : List K) : List (List K) :=
  let m := constraints.length
  (objective ++ List.replicate m 0 ++ [value]) ::
    ((constraints.zip bounds).zipIdx).map fun ((row, bound), i) => row ++ slackCells m i ++ [bound]

/-- The tableau of an objective row, constraints and right-hand sides.  The objective row is
    taken as given, so the coefficients of a maximum are already negated; the right-hand sides
    are that of the objective row and then the bounds of the constraints. -/
def initial (objective : List K) (constraints : List (List K)) (rhs : List K) :
    Except InputError (Tableau K) := do
  let n := objective.length
  let m := constraints.length
  checkShape n constraints (m + 1) rhs.length
  let value := rhs.headD 0
  let bounds := rhs.tail
  checkEntries objective constraints value bounds
  return {
    rows := ((initialRows objective constraints value bounds).map List.toArray).toArray
    columns := (Column.table n m).toArray
    numStructural := n
    numSlack := m }

end Tableau

end SimplexTableau

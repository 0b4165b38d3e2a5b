import SimplexTableau.Tableau

namespace SimplexTableau

/-!
# Basic and non-basic variables

The basic solution is read off the cells: a variable whose column is a unit column takes the
right-hand side of the row that has its 1, every other variable is 0.  The objective row takes
part in the test of a unit column but hosts no variable, and of several unit columns of one row
the first one is basic.

* `unitRow` — the row with the 1 of a unit column, within a tolerance;
* `hosts` — which columns get the rows of their unit columns;
* `classify` — the two groups, each in column order.
-/

variable {K : Type}

/-- The value of one variable in a basic solution. -/
structure VariableValue (K : Type) where
  /-- The name of the variable. -/
  name : String
  /-- Decision variable or slack. -/
  kind : ColumnKind
  /-- The value. -/
  value : K
  /-- The row that hosts the variable, if it is basic. -/
  row : Option Nat
deriving BEq, Inhabited

/-- The variables of a tableau by group, in column order. -/
structure Classification (K : Type) where
  /-- The variables that are hosted by a row. -/
  basic : List (VariableValue K)
  /-- The variables that are 0. -/
  nonBasic : List (VariableValue K)
deriving BEq, Inhabited

namespace Classification

/-- Both groups, the basic variables first. -/
def all (c : Classification K) : List (VariableValue K) := c.basic ++ c.nonBasic

/-- Names and values of the decision variables, the basic ones first. -/
def structural (c : Classification K) : List (String × K) :=
  (c.all.filter (·.kind = .structural)).map fun v => (v.name, v.value)

/-- Whether a basic variable has the name. -/
def isBasic (c : Classification K) (name : String) : Bool :=
  c.basic.any (·.name == name)

/-- The basic variable that a row hosts. -/
def hostedBy (c : Classification K) (row : Nat) : Option (VariableValue K) :=
  c.basic.find? (·.row == some row)

end Classification

variable [Cell K]

/-- Whether a cell is within the tolerance of 1. -/
def isOne (tolerance value : K) : Bool := Cell.abs (value - 1) ≤ tolerance

/-- Whether a cell is farther than the tolerance from 0. -/
def isNonzero (tolerance value : K) : Bool := tolerance < Cell.abs value

/-- The scan for the single 1 of a column through `rows`, which start at row `i`; `found` is the
    row with the 1 seen so far.  A second 1, or a cell that is neither 1 nor 0, ends the scan. -/
def unitRowFrom (tolerance : K) (column i : Nat) (found : Option Nat) :
    List (Array K) → Except ShapeError (Option Nat)
  | [] => .ok found
  | row :: rest => do
    let value ← Tableau.cellIn row i column
    if isOne tolerance value then
      if found.isSome then .ok none else unitRowFrom tolerance column (i + 1) (some i) rest
    else if isNonzero tolerance value then .ok none
    else unitRowFrom tolerance column (i + 1) found rest

/-- The row that has the single 1 of a unit column, the objective row included; none if the
    column is no unit column. -/
def unitRow (tolerance : K) (t : Tableau K) (column : Nat) : Except ShapeError (Option Nat) :=
  unitRowFrom tolerance column 0 none t.rows.toList

/-- The hosts of a list of columns, given the rows of their unit columns: a column gets its row
    unless that is the objective row or an earlier column has it. -/
def hosts (taken : List Nat) : List (Option Nat) → List (Option Nat)
  | [] => []
  | some r :: rest =>
    if 0 < r ∧ r ∉ taken then some r :: hosts (r :: taken) rest else none :: hosts taken rest
  | none :: rest => none :: hosts taken rest

/-- The value of a variable: the right-hand side of its host, or 0 without one. -/
def valueOf (t : Tableau K) (column : Column) (host : Option Nat) :
    Except ShapeError (VariableValue K) :=
  match host with
  | some r => do return ⟨column.name, column.kind, ← t.rhs r, some r⟩
  | none => .ok ⟨column.name, column.kind, 0, none⟩

/-- The basic and the non-basic variables of a tableau. -/
def classify (tolerance : K) (t : Tableau K) : Except ShapeError (Classification K) := do
  let units ← (List.range t.rhsColumn).mapM (unitRow tolerance t)
  let values ← (t.columns.toList.zip (hosts [] units)).mapM fun (column, host) =>
    valueOf t column host
  return ⟨values.filter (·.row.isSome), values.filter (·.row.isNone)⟩

end SimplexTableau

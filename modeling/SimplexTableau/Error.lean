namespace SimplexTableau

/-!
# What can go wrong

Each kind of fault is a list of causes:

* `InputError` — a problem is refused before it is solved;
* `SolveError` — why solving gave no optimum;
* `ShapeError` — a cell, row or column was asked for that a tableau does not have;
* `Failure` — why there is no solution at all.

The texts shown to the user are fixed here, in the functions `message`.
-/

/-- Why a problem is refused.  Rows count from the objective row, which is row 0. -/
inductive InputError
  /-- A constraint has more or fewer coefficients than there are variables. -/
  | constraintLength (row expected found : Nat)
  /-- There are more or fewer bounds than constraints. -/
  | rhsLength (expected found : Nat)
  /-- The bound of a constraint is below zero, so the slack basis would not be feasible. -/
  | negativeRhs (row : Nat)
  /-- There is nothing to decide. -/
  | noVariables
  /-- A coefficient or bound is not a number. -/
  | nonFinite (row col : Nat)
deriving DecidableEq

/-- The text shown for a refused problem. -/
def InputError.message : InputError → String
  | .constraintLength row expected found =>
    s!"Constraint {row} has {found} coefficients, expected {expected}"
  | .rhsLength expected found => s!"Right-hand side has {found} entries, expected {expected}"
  | .negativeRhs row => s!"Constraint {row} has a negative right-hand side"
  | .noVariables => "Problem has no decision variables"
  | .nonFinite row col => s!"Non-finite coefficient at row {row}, column {col}"

/-- Why solving gave no optimum. -/
inductive SolveError
  /-- The problem was refused. -/
  | invalidInput (source : InputError)
  /-- The objective grows without limit along the named column. -/
  | unbounded (column : String)
  /-- The allowed number of pivots was not enough. -/
  | iterationLimitExceeded (limit : Nat)
deriving DecidableEq

/-- The text shown when solving gave no optimum. -/
def SolveError.message : SolveError → String
  | .invalidInput source => "Invalid input: " ++ source.message
  | .unbounded column => s!"Problem is unbounded: column {column} has no positive entry"
  | .iterationLimitExceeded limit =>
    s!"Iteration limit of {limit} exceeded before reaching optimality"

/-- A part of a tableau was asked for that is not there.  Tableaus built from problems have
    every part they are asked for; a tableau read from a text may have any shape. -/
inductive ShapeError
  /-- There is no such row. -/
  | noRow (row : Nat)
  /-- The row has no cell in that column. -/
  | noCell (row column : Nat)
  /-- No variable has that column. -/
  | noColumn (column : Nat)
deriving DecidableEq

/-- The text shown for a missing part. -/
def ShapeError.message : ShapeError → String
  | .noRow row => s!"Tableau has no row {row}"
  | .noCell row column => s!"Row {row} has no cell in column {column}"
  | .noColumn column => s!"Tableau has no column {column}"

/-- Why there is no solution at all, not even one without optimum. -/
inductive Failure
  /-- The problem was refused. -/
  | refused (source : InputError)
  /-- A tableau lacked a part. -/
  | misshapen (source : ShapeError)
deriving DecidableEq

end SimplexTableau

import SimplexTableau.Classification

namespace SimplexTableau

/-!
# The record of a step

Every tableau that a run examines leaves a record: the tableau, its basic solution and the
verdict on it.

* `State` — where a run stands; three of the states are final;
* `Record` — what is known after one tableau was examined.
-/

/-- Where a run stands. -/
inductive State
  /-- Nothing was examined yet. -/
  | initial
  /-- A tableau is being examined. -/
  | checking
  /-- A pivot was chosen. -/
  | pivoting
  /-- No variable can enter with a gain. -/
  | optimal
  /-- The objective grows without limit. -/
  | unbounded
  /-- A pivot was chosen, but no more are allowed. -/
  | iterationLimitExceeded
deriving DecidableEq, Inhabited

/-- A run in a final state examines no further tableau. -/
def State.isTerminal : State → Bool
  | .optimal | .unbounded | .iterationLimitExceeded => true
  | .initial | .checking | .pivoting => false

/-- What is known after a tableau was examined. -/
structure Record (K : Type) where
  /-- The number of pivots before this tableau. -/
  step : Nat
  /-- The state after the tableau was examined. -/
  state : State
  /-- The tableau. -/
  tableau : Tableau K
  /-- The column of the variable that enters, or of the one that can grow without limit. -/
  enteringColumn : Option Nat
  /-- The name of that variable. -/
  entering : Option String
  /-- The row of the pivot. -/
  leavingRow : Option Nat
  /-- The name of the basic variable of that row. -/
  leaving : Option String
  /-- The cell where column and row of the pivot meet. -/
  pivotElement : Option K
  /-- The basic solution. -/
  classification : Classification K
  /-- The value of the objective. -/
  z : K
deriving BEq, Inhabited

end SimplexTableau

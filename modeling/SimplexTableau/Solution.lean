import SimplexTableau.Assignment
import SimplexTableau.Record

namespace SimplexTableau

/-!
# Solutions

A solution is the outcome of a run: a status, the optimum if there is one, the number of pivots
and the records of the steps.  An outcome without optimum carries the error it stands for.

* `Solution.optimal`, `Solution.unbounded`, `Solution.iterationLimit` — the three outcomes;
* `Solution.toResult` — the solution, or the error it carries;
* `Solution.summaryWith` — the final answer as text, shorter names first.
-/

/-- How a run ended. -/
inductive Status
  /-- An optimum was found. -/
  | optimal
  /-- The objective grows without limit. -/
  | unbounded
  /-- The allowed number of pivots was not enough. -/
  | iterationLimit
deriving DecidableEq, Inhabited

/-- The outcome of a run. -/
structure Solution (K : Type) where
  /-- How the run ended. -/
  status : Status
  /-- The optimal value of the objective. -/
  z : Option K
  /-- The values of the decision variables at the optimum. -/
  values : Option (Assignment K)
  /-- The number of pivots. -/
  iterations : Nat
  /-- The records of the steps. -/
  trace : List (Record K)
  /-- The error that an outcome without optimum stands for. -/
  failure : Option SolveError
deriving Inhabited

namespace Solution

variable {K : Type}

/-- The outcome with an optimum. -/
def optimal (z : K) (values : Assignment K) (iterations : Nat) (trace : List (Record K)) :
    Solution K :=
  ⟨.optimal, some z, some values, iterations, trace, none⟩

/-- The outcome without bound, along the named column. -/
def unbounded (column : String) (iterations : Nat) (trace : List (Record K)) : Solution K :=
  ⟨.unbounded, none, none, iterations, trace, some (.unbounded column)⟩

/-- The outcome of a run that was cut off after `limit` pivots. -/
def iterationLimit (limit iterations : Nat) (trace : List (Record K)) : Solution K :=
  ⟨.iterationLimit, none, none, iterations, trace, some (.iterationLimitExceeded limit)⟩

/-- Whether the outcome is an optimum. -/
def isOptimal (s : Solution K) : Bool := s.status = .optimal

/-- The solution, or the error it carries. -/
def toResult (s : Solution K) : Except SolveError (Solution K) :=
  match s.failure with
  | some error => .error error
  | none => .ok s

/-- The entries of an assignment with shorter names first, so that `x2` comes before `x10`.
    Names of one length stay in their order. -/
def byLength (values : Assignment K) : List (String × K) :=
  values.entries.mergeSort fun a b => a.1.utf8ByteSize ≤ b.1.utf8ByteSize

/-- The final answer: the optimum and the values of the variables, each number written by
    `write`, or the text of the error. -/
def summaryWith (write : K → String) (s : Solution K) : String :=
  match s.z, s.values, s.failure with
  | some z, some values, _ =>
    "Z MAX = " ++ write z ++ "\n" ++
      String.intercalate ", "
        ((byLength values).map fun (name, value) => name ++ " = " ++ write value)
  | _, _, some error => error.message
  | _, _, none => ""

end Solution

end SimplexTableau

import SimplexTableau.Tableau

namespace SimplexTableau

/-!
# Problems

A problem asks for the largest value of a linear objective over non-negative variables under
constraints of the form "at most".

* `Problem.validate` — shapes match, all numbers are finite and no bound is below zero;
* `Problem.tableau` — the tableau that solving starts from, refused as `validate` refuses.
-/

/-- A maximum over `≤` constraints with non-negative variables. -/
structure Problem (K : Type) where
  /-- The coefficients of the objective, as the model states them. -/
  objective : List K
  /-- The coefficients of each constraint. -/
  constraints : List (List K)
  /-- The bound of each constraint. -/
  rhs : List K
deriving BEq, Inhabited

namespace Problem

variable {K : Type}

/-- The problem with one more constraint. -/
def addConstraint (p : Problem K) (coefficients : List K) (bound : K) : Problem K :=
  { p with constraints := p.constraints ++ [coefficients], rhs := p.rhs ++ [bound] }

/-- The number of decision variables. -/
def numVariables (p : Problem K) : Nat := p.objective.length

/-- The number of constraints. -/
def numConstraints (p : Problem K) : Nat := p.constraints.length

@[simp] theorem numVariables_addConstraint (p : Problem K) (cs : List K) (b : K) :
    (p.addConstraint cs b).numVariables = p.numVariables := rfl

@[simp] theorem numConstraints_addConstraint (p : Problem K) (cs : List K) (b : K) :
    (p.addConstraint cs b).numConstraints = p.numConstraints + 1 := by
  simp [addConstraint, numConstraints]

variable [Cell K]

/-- Shapes first, then the entries row by row; the first fault is reported. -/
def validate (p : Problem K) : Except InputError Unit := do
  Tableau.checkShape p.numVariables p.constraints p.numConstraints p.rhs.length
  Tableau.checkEntries p.objective p.constraints 0 p.rhs

/-- The tableau of a valid problem: the objective is negated, and its value starts at 0. -/
def tableau (p : Problem K) : Except InputError (Tableau K) := do
  p.validate
  Tableau.initial (p.objective.map (-·)) p.constraints (0 :: p.rhs)

end Problem

end SimplexTableau

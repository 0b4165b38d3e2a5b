namespace SimplexTableau

/-!
# The columns of a tableau

Each variable has a column: the decision variables come first, then one slack variable for
each constraint.  A column knows which of the two it belongs to, its place among its kind and
its name:

* `Column.structural` — the decision variables `x1`, `x2`, …;
* `Column.slack` — the slack variables `xf1`, `xf2`, ….
-/

/-- Whether a column belongs to a decision variable or to the slack of a constraint. -/
inductive ColumnKind
  | structural
  | slack
deriving DecidableEq, Inhabited

/-- The variable that a tableau column stands for. -/
structure Column where
  /-- Decision variable or slack. -/
  kind : ColumnKind
  /-- Its place among the columns of its kind, counted from 1. -/
  index : Nat
  /-- The name shown for it. -/
  name : String
deriving DecidableEq, Inhabited

namespace Column

/-- The column of the decision variable with the given place. -/
def structural (index : Nat) : Column := ⟨.structural, index, "x" ++ toString index⟩

/-- The column of the slack variable of the constraint with the given place. -/
def slack (index : Nat) : Column := ⟨.slack, index, "xf" ++ toString index⟩

@[simp] theorem kind_structural (i : Nat) : (structural i).kind = .structural := rfl

@[simp] theorem kind_slack (i : Nat) : (slack i).kind = .slack := rfl

/-- The columns of a problem with `n` decision variables and `m` constraints. -/
def table (n m : Nat) : List Column :=
  (List.range n).map (fun i => structural (i + 1)) ++ (List.range m).map (fun i => slack (i + 1))

@[simp] theorem length_table (n m : Nat) : (table n m).length = n + m := by
  simp [table]

end Column

end SimplexTableau

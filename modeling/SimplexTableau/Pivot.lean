import SimplexTableau.Tableau

namespace SimplexTableau

/-!
# Pivoting

A pivot makes one column a unit column with its 1 in a chosen row: that row is divided by the
element in the column, and a multiple of it is subtracted from every other row.

* `addMultiple` — one row plus a multiple of another;
* `eliminate` — a row with its entry in the column cleared; a row that has 0 there is left alone;
* `pivot` — the whole step, objective row and right-hand sides included.
-/

variable {K : Type} [Cell K]

/-- `row + factor * source`, cell by cell.  Cells without a counterpart in `source` stay. -/
def addMultiple (factor : K) (source row : Array K) : Array K :=
  row.mapIdx fun j value =>
    match source[j]? with
    | some p => value + factor * p
    | none => value

@[simp] theorem size_addMultiple (factor : K) (source row : Array K) :
    (addMultiple factor source row).size = row.size := by
  simp [addMultiple]

/-- `row` with its entry in `column` cleared by the row that has 1 there. -/
def eliminate (column : Nat) (unit row : Array K) : Array K :=
  match row[column]? with
  | some entry => if -entry == 0 then row else addMultiple (-entry) unit row
  | none => row

@[simp] theorem size_eliminate (column : Nat) (unit row : Array K) :
    (eliminate column unit row).size = row.size := by
  unfold eliminate
  split
  · split <;> simp
  · rfl

/-- The rows after the pivot on `element`, which stands in row `i` and column `j`. -/
def pivotRows (rows : Array (Array K)) (i j : Nat) (element : K) : Array (Array K) :=
  let unit := (rows[i]?.getD #[]).map (· / element)
  rows.mapIdx fun k row => if k = i then unit else eliminate j unit row

@[simp] theorem size_pivotRows (rows : Array (Array K)) (i j : Nat) (element : K) :
    (pivotRows rows i j element).size = rows.size := by
  simp [pivotRows]

/-- Makes column `j` a unit column with its 1 in row `i`; gives the element that was divided out
    and the new tableau.  Every row has to have a cell in the column. -/
def pivot (t : Tableau K) (i j : Nat) : Except ShapeError (K × Tableau K) := do
  let element ← t.cell i j
  match t.rows.findIdx? (·.size ≤ j) with
  | some short => throw (.noCell short j)
  | none => return (element, { t with rows := pivotRows t.rows i j element })

end SimplexTableau

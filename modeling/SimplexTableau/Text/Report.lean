import SimplexTableau.Decimal.Fixed
import SimplexTableau.Decimal.Style
import SimplexTableau.Event
import SimplexTableau.Solution
import SimplexTableau.Word

namespace SimplexTableau

/-!
# Tableaus and steps as text

What a user reads: a tableau as a table with two places after the point, a step with its tableau
and the decision taken on it, and the log of all steps.

* `Tabulated` — how a number is shown in a table;
* `Tableau.text` — a header of names and one line per row, in columns of eight characters;
* `Record.text` — one step;
* `Trace.text` — the steps one after another;
* `Event.message`, `Event.fields` — what is said of an event, and the values that it names.
-/

/-- A text set to the right of a field of the given width, counted in characters. -/
def padLeft (width : Nat) (text : String) : String :=
  String.ofList (List.replicate (width - text.length) ' ') ++ text

/-- A text and the end of its line. -/
def line (text : String) : String := text ++ "\n"

/-- Texts in columns of eight characters. -/
def cellsLine (texts : List String) : String :=
  line (String.intercalate " " (texts.map (padLeft 8)))

/-- The numbers that are shown in tables. -/
class Tabulated (K : Type) where
  /-- A number in a table. -/
  cellText : K → String

/-- A double is shown with two places after the point. -/
instance Tabulated.float : Tabulated Float := ⟨Decimal.fixed 2⟩

/-- The tableau as a table.  The column `Z` of the objective value is shown although it is not
    stored, and `b` stands over the right-hand sides. -/
def Tableau.text {K : Type} [Cell K] [Tabulated K] (t : Tableau K) : String :=
  let header := "Z" :: t.columns.toList.map (·.name) ++ ["b"]
  let rows := t.rows.toList.zipIdx.map fun (row, i) =>
    (if i = 0 then 1 else 0) :: row.toList
  cellsLine header ++ String.join (rows.map fun row => cellsLine (row.map Tabulated.cellText))

/-- One line for each variable and its value. -/
def VariableValue.lines (values : List (VariableValue Float)) : String :=
  String.join (values.map fun v => line s!"  {v.name} = {Decimal.display v.value}")

/-- The number shown for the step after `step` pivots, counted from 1 in words of 64 bits. -/
def stepNumber (step : Nat) : Nat := (step + 1) % wordLimit

/-- The line that ends a step with a final verdict. -/
def Record.verdictLine (r : Record Float) : String :=
  match r.state with
  | .optimal => line "Optimal solution found"
  | .unbounded =>
    let column := r.entering.getD "?"
    line s!"Problem is unbounded: column {column} has no positive entry"
  | .iterationLimitExceeded => line "Iteration limit reached"
  | .initial | .checking | .pivoting => ""

/-- One step: the tableau, the choice of the pivot, the basic solution and the verdict. -/
def Record.text (r : Record Float) : String :=
  let kind := if r.step = 0 then "initial" else "iteration"
  let entering :=
    match r.entering with
    | some name => line s!"Entering column: {name}"
    | none => ""
  let leaving :=
    match r.leavingRow, r.leaving with
    | some row, some name => line s!"Leaving row: {row} ({name})"
    | _, _ => ""
  let element :=
    match r.pivotElement with
    | some value => line ("Pivot element: " ++ Decimal.display value)
    | none => ""
  line s!"Step {stepNumber r.step} ({kind})" ++ line "" ++ r.tableau.text ++ line "" ++
    entering ++ leaving ++ element ++
    line "Basic variables:" ++ VariableValue.lines r.classification.basic ++
    line "Non-basic variables:" ++ VariableValue.lines r.classification.nonBasic ++
    line ("Z = " ++ Decimal.display r.z) ++
    line (if r.state = .optimal then "Optimal? true" else "Optimal? false") ++
    r.verdictLine ++
    line "-------------------------------"

/-- The log of the steps. -/
def Trace.text (records : List (Record Float)) : String :=
  String.join (records.map Record.text)

/-- The final answer with numbers in full. -/
def Solution.summary (s : Solution Float) : String := s.summaryWith Decimal.display

/-! ### Events -/

/-- The value of a field of an event. -/
inductive FieldValue (K : Type := Float)
  | count (n : Nat)
  | name (text : String)
  | amount (x : K)

namespace Event

variable {K : Type}

/-- What an event says. -/
def message [Cell K] [Tabulated K] : Event K → String
  | .built _ _ => "built initial tableau"
  | .examined _ t => "tableau\n" ++ t.text
  | .selected _ _ _ _ => "selected pivot"
  | .optimal _ _ => "optimal"
  | .unbounded _ _ => "unbounded"
  | .limitReached _ => "iteration limit exceeded"

/-- The named values that an event carries. -/
def fields : Event K → List (String × FieldValue K)
  | .built numVariables numConstraints =>
    [("vars", .count numVariables), ("constraints", .count numConstraints)]
  | .examined step _ => [("step", .count step)]
  | .selected step column row z =>
    [("step", .count step), ("column", .name column), ("row", .count row), ("z", .amount z)]
  | .optimal iterations z => [("iterations", .count iterations), ("z", .amount z)]
  | .unbounded iterations column => [("iterations", .count iterations), ("column", .name column)]
  | .limitReached limit => [("limit", .count limit)]

end Event

end SimplexTableau

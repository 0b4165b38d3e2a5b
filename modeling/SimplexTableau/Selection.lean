import SimplexTableau.Tableau

namespace SimplexTableau

/-!
# The choice of a pivot

The entering column is the one with the most negative objective entry; the leaving row is the
one with the least ratio of right-hand side to entry, among the constraint rows whose entry in
that column exceeds the tolerance.  Both are least values of a scan in which a later candidate
has to be strictly smaller, so ties go to the lowest index.

* `Least` — the running minimum of a scan, with the index that attains it;
* `enteringColumn`, `leavingRow` — the two rules;
* `select` — the verdict on a tableau: optimal, a pivot, or a column without limit.
-/

variable {K : Type} [Cell K]

/-! ### Running minima -/

/-- The least value seen by a scan and the index it was first seen at. -/
structure Least (K : Type) where
  /-- What a candidate has to stay below; nothing at all if there is no bound. -/
  bound? : Option K
  /-- Where the least value was seen; no index while none was below the starting bound. -/
  index? : Option Nat

namespace Least

/-- The start of a scan for values below `bound?`. -/
def below (bound? : Option K) : Least K := ⟨bound?, none⟩

/-- Whether a value is strictly less than all that came before. -/
def admits (best : Least K) (value : K) : Bool :=
  match best.bound? with
  | some bound => value < bound
  | none => true

/-- The minimum after one more candidate. -/
def offer (best : Least K) (value : K) (index : Nat) : Least K :=
  if best.admits value then ⟨some value, some index⟩ else best

end Least

/-! ### The two rules -/

/-- The column with the most negative objective entry below `-tolerance`, the lowest index on
    ties; none if no entry is that low. -/
def enteringColumn (tolerance : K) (t : Tableau K) : Except ShapeError (Option Nat) := do
  let objective ← t.objectiveCells
  let start : Least K := Least.below (some (-tolerance))
  return (objective.zipIdx.foldl (fun best (value, j) => best.offer value j) start).index?

/-- No variable can enter with a gain. -/
def isOptimal (tolerance : K) (t : Tableau K) : Except ShapeError Bool := do
  return (← enteringColumn tolerance t).isNone

/-- One step of the ratio test: row `i` is a candidate if its entry exceeds the tolerance. -/
def offerRatio (tolerance : K) (t : Tableau K) (column : Nat) (best : Least K) (i : Nat) :
    Except ShapeError (Least K) := do
  let entry ← t.cell i column
  if tolerance < entry then
    return best.offer ((← t.rhs i) / entry) i
  else
    return best

/-- The constraint row with the least ratio of right-hand side to entry, the lowest index on
    ties.  Only entries above the tolerance take part, and only ratios below the top of the
    arithmetic: a quotient that overflows is never the least. -/
def leavingRow (tolerance : K) (t : Tableau K) (column : Nat) :
    Except ShapeError (Option Nat) := do
  let start : Least K := Least.below Cell.top?
  let best ← (List.range' 1 (t.numRows - 1)).foldlM (offerRatio tolerance t column) start
  return best.index?

/-! ### The verdict -/

/-- What is to be done with a tableau. -/
inductive Selection
  /-- No variable can enter with a gain. -/
  | optimal
  /-- The variable of `column` enters, that of `row` leaves. -/
  | pivot (column row : Nat)
  /-- The variable of `column` can grow without limit. -/
  | unbounded (column : Nat)
deriving DecidableEq

/-- The verdict on a tableau. -/
def select (tolerance : K) (t : Tableau K) : Except ShapeError Selection := do
  match ← enteringColumn tolerance t with
  | none => return .optimal
  | some column =>
    match ← leavingRow tolerance t column with
    | some row => return .pivot column row
    | none => return .unbounded column

end SimplexTableau

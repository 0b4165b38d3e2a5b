namespace SimplexTableau

/-!
# The arithmetic of the cells

A tableau is a table of numbers, and the simplex method asks little of them: the four
operations, two comparisons and a few tests.  `Cell K` collects what is asked, so that one
engine runs on every kind of number that offers it:

* `Cell Float` — binary64 doubles, rounded after every operation;
* `Cell Rat` — exact fractions, the arithmetic in which the method is a theorem.

The two differ in what lies above every number: doubles have an infinity, fractions have
nothing (`top?`).
-/

/-- What the simplex method asks of the numbers in a tableau. -/
class Cell (K : Type) extends Zero K, One K, Neg K, Add K, Sub K, Mul K, Div K, LT K, LE K,
    BEq K, OfScientific K where
  /-- The magnitude of a number. -/
  abs : K → K
  /-- Whether a value is a number at all, neither an infinity nor the result of an undefined
      operation. -/
  isFinite : K → Bool
  /-- The value above all others, where the arithmetic has one. -/
  top? : Option K
  /-- The strict order is decidable. -/
  decidableLT : DecidableLT K
  /-- The order is decidable. -/
  decidableLE : DecidableLE K

namespace Cell

attribute [reducible, instance] decidableLT decidableLE

/-- Doubles: each operation rounds to nearest, and overflow gives an infinity. -/
instance : Cell Float where
  abs := Float.abs
  isFinite := Float.isFinite
  top? := some (1 / 0)
  decidableLT := inferInstance
  decidableLE := inferInstance

/-- Fractions: every operation is exact, and every value is finite. -/
instance : Cell Rat where
  zero := 0
  one := 1
  abs x := if 0 ≤ x then x else -x
  isFinite _ := true
  top? := none
  decidableLT := inferInstance
  decidableLE := inferInstance

@[simp] theorem isFinite_rat (x : Rat) : isFinite x = true := rfl

@[simp] theorem top?_rat : (top? : Option Rat) = none := rfl

theorem abs_rat (x : Rat) : abs x = if 0 ≤ x then x else -x := rfl

end Cell

end SimplexTableau

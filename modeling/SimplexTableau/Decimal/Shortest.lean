import SimplexTableau.Decimal.Binary64

namespace SimplexTableau.Decimal

/-!
# The shortest digits of a double

A decimal stands for a double if the double is the nearest one to it.  These decimals fill an
interval around the double, which reaches halfway to both neighbours and includes its ends
exactly when the mantissa is even.  Among them the ones with the fewest digits are wanted, and
of those the nearest.

Decimals with few digits lie on a coarse grid of multiples of a power of ten.  `shortest` goes
through the grids from coarse to fine: the first one with a point in the interval has the fewest
digits, and only the two grid points around the double can be the nearest.  The search ends at
the latest on the grid that has the double itself.

* `Digits` — a natural number times a power of ten;
* `gridPoint?` — the nearest point of one grid in the interval;
* `shortest` — the shortest digits of a positive double.
-/

/-- The decimal `coefficient * 10 ^ exponent`. -/
structure Digits where
  /-- The digits, as a number. -/
  coefficient : Nat
  /-- The power of ten they are multiples of. -/
  exponent : Int
deriving DecidableEq, Inhabited

/-- Which of two decimals to take when both are equally near. -/
inductive Tie
  /-- The greater one. -/
  | up
  /-- The one with an even last digit. -/
  | even
deriving DecidableEq

/-- Whether `lower + 1` is taken, given the distances to `lower` below and to `lower + 1` above. -/
def takesUpper (tie : Tie) (lower distanceBelow distanceAbove : Nat) : Bool :=
  if distanceBelow = distanceAbove then
    match tie with
    | .up => true
    | .even => lower % 2 = 1
  else
    distanceAbove < distanceBelow

/-- The nearest multiple of `10 ^ grid` to `mantissa * 2 ^ exponent` among those that stand for
    it, given as a multiple.  All lengths are multiples of one unit, small enough that a quarter
    of the gap between doubles and one step of the grid are whole numbers. -/
def gridPoint? (tie : Tie) (mantissa : Nat) (exponent grid : Int) : Option Nat :=
  let quarter := Nat.pow 2 (exponent - 2).toNat * Nat.pow 10 (-grid).toNat
  let step := Nat.pow 2 (2 - exponent).toNat * Nat.pow 10 grid.toNat
  let value := 4 * mantissa * quarter
  -- half of the gap on either side, where the lower gap may be half of the upper one
  let low := value - (if narrowBelow mantissa exponent then 1 else 2) * quarter
  let high := value + 2 * quarter
  let inside (point : Nat) : Bool :=
    if mantissa % 2 = 0 then low ≤ point ∧ point ≤ high else low < point ∧ point < high
  let lower := value / step
  match inside (lower * step), inside ((lower + 1) * step) with
  | true, true =>
    let upper := takesUpper tie lower (value - lower * step) ((lower + 1) * step - value)
    some (if upper then lower + 1 else lower)
  | true, false => some lower
  | false, true => some (lower + 1)
  | false, false => none

/-- The first hit on the grids from `10 ^ grid` downwards, on at most as many as the last
    argument says. -/
def firstHit (tie : Tie) (mantissa : Nat) (exponent grid : Int) : Nat → Option Digits
  | 0 => none
  | fuel + 1 =>
    match gridPoint? tie mantissa exponent grid with
    | some c => some ⟨c, grid⟩
    | none => firstHit tie mantissa exponent (grid - 1) fuel

/-- The digits of the number itself. -/
def exact (mantissa : Nat) (exponent : Int) : Digits :=
  if 0 ≤ exponent then ⟨mantissa * Nat.pow 2 exponent.toNat, 0⟩
  else ⟨mantissa * Nat.pow 5 (-exponent).toNat, exponent⟩

/-- A power of ten above `mantissa * 2 ^ exponent`, given by its exponent.  The number of bits
    times the logarithm of 2, rounded up with one to spare. -/
def gridAbove (mantissa : Nat) (exponent : Int) : Int :=
  (Nat.log2 mantissa + 1 + exponent) * 30103 / 100000 + 2

/-- The shortest digits that stand for the positive double `mantissa * 2 ^ exponent`, the nearest
    to it among those of that length. -/
def shortest (tie : Tie) (mantissa : Nat) (exponent : Int) : Digits :=
  let grid := gridAbove mantissa exponent
  let finest := min exponent 0
  (firstHit tie mantissa exponent grid ((grid - finest).toNat + 1)).getD (exact mantissa exponent)

end SimplexTableau.Decimal

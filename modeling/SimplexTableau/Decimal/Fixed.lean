import SimplexTableau.Decimal.Binary64

namespace SimplexTableau.Decimal

/-!
# Doubles with a fixed number of places

The cells of a table show a fixed number of places after the point.  The exact value of the
double is rounded to them, and a value halfway between two decimals goes to the one with an even
last digit.  The sign stays, also when everything else is rounded away.

* `roundDiv` — a quotient rounded to the nearest natural number;
* `fixed` — a double with a given number of places.
-/

/-- The natural number nearest to `num / den`, the even one on a tie. -/
def roundDiv (num den : Nat) : Nat :=
  let q := num / den
  let r := num % den
  if 2 * r < den ∨ (2 * r = den ∧ q % 2 = 0) then q else q + 1

/-- `mantissa * 2 ^ exponent` in units of `10 ^ -places`, rounded. -/
def scaled (places mantissa : Nat) (exponent : Int) : Nat :=
  roundDiv (mantissa * Nat.pow 2 exponent.toNat * Nat.pow 10 places) (Nat.pow 2 (-exponent).toNat)

/-- A double with a given number of places after the point. -/
def fixed (places : Nat) (x : Float) : String :=
  match decode x with
  | .nan => "NaN"
  | .infinite negative => if negative then "-inf" else "inf"
  | .finite negative mantissa exponent =>
    let n := scaled places mantissa exponent
    let whole := Nat.toDigits 10 (n / Nat.pow 10 places)
    let fraction := Nat.toDigits 10 (n % Nat.pow 10 places)
    let padded := List.replicate (places - fraction.length) '0' ++ fraction
    let text := whole ++ '.' :: padded
    String.ofList (if negative then '-' :: text else text)

end SimplexTableau.Decimal

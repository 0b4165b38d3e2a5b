import SimplexTableau.Decimal.Shortest

namespace SimplexTableau.Decimal

/-!
# Doubles as text

Two texts of a double are in use.  Both show the shortest digits; they differ in where an
exponent is written and in whether a whole number shows its point.

* `Style` — the decisions that make up such a text, and `Style.write`, the text itself;
* `Style.plain` — every number in full: `15`, `-0`, `0.000000001`;
* `Style.data` — as in data files: `15.0`, `0.00001`, `1e-6`, `1e+16`;
* `display` — a double in the plain style, with words for what is no number.
-/

/-- How a finite double is written. -/
structure Style where
  /-- Which of two equally near decimals is shown. -/
  tie : Tie
  /-- The places of the leading digit for which a number is written without an exponent. -/
  positional : Int → Bool
  /-- What follows the digits of a whole number. -/
  wholeEnd : List Char

namespace Style

/-- Every number in full, and whole numbers without a point. -/
def plain : Style := ⟨.up, fun _ => true, []⟩

/-- Numbers from `1e-5` up to `1e16` in full, all others with an exponent; whole numbers in full
    show one place after the point. -/
def data : Style := ⟨.even, fun place => -5 ≤ place ∧ place < 16, ['.', '0']⟩

end Style

/-- The digits with their point where the exponent puts it. -/
def inFull (wholeEnd : List Char) (digits : List Char) (exponent : Int) : List Char :=
  if 0 ≤ exponent then
    digits ++ List.replicate exponent.toNat '0' ++ wholeEnd
  else
    let places := (-exponent).toNat
    if places < digits.length then
      digits.take (digits.length - places) ++ '.' :: digits.drop (digits.length - places)
    else
      '0' :: '.' :: List.replicate (places - digits.length) '0' ++ digits

/-- One digit before the point and the place of that digit as an exponent with its sign. -/
def withExponent (digits : List Char) (place : Int) : List Char :=
  let fraction :=
    match digits.drop 1 with
    | [] => []
    | rest => '.' :: rest
  digits.take 1 ++ fraction ++ 'e' :: (if place < 0 then '-' else '+') ::
    Nat.toDigits 10 place.natAbs

/-- A decimal in a style. -/
def Style.writeDigits (style : Style) (d : Digits) : List Char :=
  let digits := Nat.toDigits 10 d.coefficient
  let place := d.exponent + digits.length - 1
  if style.positional place then inFull style.wholeEnd digits d.exponent
  else withExponent digits place

/-- A finite double in a style: the sign, also that of a zero, and the shortest digits. -/
def Style.write (style : Style) (negative : Bool) (mantissa : Nat) (exponent : Int) : String :=
  let digits := if mantissa = 0 then ⟨0, 0⟩ else shortest style.tie mantissa exponent
  let text := style.writeDigits digits
  String.ofList (if negative then '-' :: text else text)

/-- A double as it is shown to the user. -/
def display (x : Float) : String :=
  match decode x with
  | .nan => "NaN"
  | .infinite negative => if negative then "-inf" else "inf"
  | .finite negative mantissa exponent => Style.plain.write negative mantissa exponent

/-- A double as it is written in a data file; none for what is no number. -/
def dataText? (x : Float) : Option String :=
  match decode x with
  | .finite negative mantissa exponent => some (Style.data.write negative mantissa exponent)
  | .nan | .infinite _ => none

end SimplexTableau.Decimal

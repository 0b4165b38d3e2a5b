import SimplexTableau.Decimal.Literal
import SimplexTableau.Json.Fault
import SimplexTableau.Word

namespace SimplexTableau.Json

/-!
# Numbers in a JSON text

A number is digits without a leading zero, with an optional sign, fraction and exponent.  One
without fraction and exponent is kept as an integer if it fits into a word of 64 bits; all
others, and a negative zero, are doubles.

Which double a decimal stands for is up to a `NumberReader`: readers of JSON round differently, and
one that is made for speed need not find the nearest double.  Nothing else of the format depends on
it, so everything here takes any reader, and `NumberReader.nearest` is the one taken by default.

* `Numeral` and `scanNumber` — the parts of a number and where it ends;
* `NumberReader` — which double a number is;
* `readNumber` — a number with its value.
-/

/-- The parts of a written number. -/
structure Numeral where
  /-- Whether a minus sign stands in front. -/
  negative : Bool
  /-- The digits before the point. -/
  whole : List Char
  /-- The digits after the point, if there is one. -/
  fraction? : Option (List Char)
  /-- The exponent, if there is one. -/
  exponent? : Option Int

/-- At least one digit has to follow; `atEnd` is the fault of a text that ends here. -/
def scanDigits (atEnd : Fault) (text : List Char) : Except Fault (List Char × List Char) :=
  match Decimal.spanDigits text with
  | ([], []) => .error atEnd
  | ([], _ :: _) => .error .invalidNumber
  | found => .ok found

/-- The digits before the point, which start with 0 only if that is all. -/
def scanWhole (atEnd : Fault) (text : List Char) : Except Fault (List Char × List Char) := do
  let (digits, rest) ← scanDigits atEnd text
  match digits with
  | '0' :: _ :: _ => throw .invalidNumber
  | _ => return (digits, rest)

/-- The fraction, if a point follows. -/
def scanFraction (atEnd : Fault) :
    List Char → Except Fault (Option (List Char) × List Char)
  | '.' :: rest => do
    let (digits, rest) ← scanDigits atEnd rest
    return (some digits, rest)
  | text => .ok (none, text)

/-- The exponent, if its mark follows. -/
def scanExponent (atEnd : Fault) : List Char → Except Fault (Option Int × List Char)
  | mark :: rest =>
    if mark = 'e' ∨ mark = 'E' then do
      let (negative, rest) := Decimal.spanSign rest
      let (digits, rest) ← scanDigits atEnd rest
      let value : Int := Decimal.digitsValue digits
      return (some (if negative then -value else value), rest)
    else .ok (none, mark :: rest)
  | [] => .ok (none, [])

/-- A number that starts here, and what follows it. -/
def scanNumber (atEnd : Fault) (text : List Char) : Except Fault (Numeral × List Char) := do
  let (negative, rest) :=
    match text with
    | '-' :: rest => (true, rest)
    | text => (false, text)
  let (whole, rest) ← scanWhole atEnd rest
  let (fraction?, rest) ← scanFraction atEnd rest
  let (exponent?, rest) ← scanExponent atEnd rest
  return (⟨negative, whole, fraction?, exponent?⟩, rest)

/-- The value of a number. -/
inductive Number
  /-- An integer from 0 to `2 ^ 64 - 1`. -/
  | natural (n : Nat)
  /-- The negative of an integer from 1 to `2 ^ 63`. -/
  | negative (n : Nat)
  /-- Any other number. -/
  | real (x : Float)

namespace Number

/-- How a number is named in a message. -/
def found : Number → Found
  | natural n => .natural n
  | negative n => .negative n
  | real x => .real x

/-- The double nearest to a number. -/
def toFloat : Number → Float
  | natural n => Decimal.nearest n 0
  | negative n => -Decimal.nearest n 0
  | real x => x

end Number

/-- How decimals are read as doubles. -/
class NumberReader where
  /-- The double of a number, unless the number is beyond all doubles. -/
  toFloat? : Numeral → Option Float

/-- The reader that takes the nearest double. -/
instance NumberReader.nearest : NumberReader where
  toFloat? n :=
    let fraction := n.fraction?.getD []
    let magnitude := Decimal.nearest (Decimal.digitsValue (n.whole ++ fraction))
      (n.exponent?.getD 0 - fraction.length)
    if magnitude.isFinite then some (if n.negative then -magnitude else magnitude) else none

namespace Numeral

variable [NumberReader]

/-- The double that the reader takes for the number. -/
def toReal (n : Numeral) : Except Fault Number :=
  match NumberReader.toFloat? n with
  | some x => .ok (.real x)
  | none => .error .numberOutOfRange

/-- The value: an integer where it is written as one and fits, else a double. -/
def value (n : Numeral) : Except Fault Number :=
  let whole := Decimal.digitsValue n.whole
  let isWhole := n.fraction?.isNone && n.exponent?.isNone
  if isWhole ∧ !n.negative ∧ whole < wordLimit then .ok (.natural whole)
  else if isWhole ∧ n.negative ∧ 0 < whole ∧ 2 * whole ≤ wordLimit then .ok (.negative whole)
  else n.toReal

end Numeral

/-- A number with its value, and what follows it. -/
def readNumber [NumberReader] (text : List Char) : Except Fault (Number × List Char) := do
  let (numeral, rest) ← scanNumber .endInValue text
  return (← numeral.value, rest)

end SimplexTableau.Json

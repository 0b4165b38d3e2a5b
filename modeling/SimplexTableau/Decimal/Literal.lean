namespace SimplexTableau.Decimal

/-!
# Reading doubles

* `nearest` — the double nearest to a decimal, of any size;
* `ofText` — the double that a literal stands for: an optional sign, then `inf`, `infinity` or
  `nan` in any case, or digits with an optional point and an optional exponent.  At least one
  digit has to stand before the exponent, on either side of the point.
-/

/-- The double nearest to `coefficient * 10 ^ exponent`; infinity if that is beyond all doubles.
    Decimals far beyond the range are decided by the place of their leading digit. -/
def nearest (coefficient : Nat) (exponent : Int) : Float :=
  -- the power of ten is computed only where it can matter
  let place := (Nat.toDigits 10 coefficient).length + exponent
  if coefficient = 0 ∨ place < -330 then 0
  else if 310 < place then 1 / 0
  else Float.ofScientific coefficient (exponent < 0) exponent.natAbs

/-- The number that a list of digits stands for. -/
def digitsValue (digits : List Char) : Nat :=
  digits.foldl (fun n c => n * 10 + (c.toNat - '0'.toNat)) 0

/-- The digits at the front of a text, and what follows them. -/
def spanDigits (text : List Char) : List Char × List Char := text.span Char.isDigit

/-- An optional sign at the front of a text, and what follows it. -/
def spanSign : List Char → Bool × List Char
  | '-' :: rest => (true, rest)
  | '+' :: rest => (false, rest)
  | text => (false, text)

/-- Why a text is no literal. -/
inductive LiteralError
  /-- There is no text. -/
  | empty
  /-- The text is not of the form of a literal. -/
  | invalid
deriving DecidableEq

/-- The text shown for what is no literal. -/
def LiteralError.message : LiteralError → String
  | .empty => "cannot parse float from empty string"
  | .invalid => "invalid float literal"

/-- The exponent at the end of a literal; 0 if there is none. -/
def exponentOf? : List Char → Option Int
  | [] => some 0
  | mark :: rest =>
    let (negative, rest) := spanSign rest
    let (digits, rest) := spanDigits rest
    if (mark = 'e' ∨ mark = 'E') ∧ digits ≠ [] ∧ rest = [] then
      let value : Int := digitsValue digits
      some (if negative then -value else value)
    else
      none

/-- The double of a literal made of digits, without a sign. -/
def ofDigits? (text : List Char) : Option Float :=
  let (whole, rest) := spanDigits text
  let (fraction, rest) :=
    match rest with
    | '.' :: rest => spanDigits rest
    | rest => ([], rest)
  if whole = [] ∧ fraction = [] then none
  else (exponentOf? rest).map fun exponent =>
    nearest (digitsValue (whole ++ fraction)) (exponent - fraction.length)

/-- The value of a literal made of letters, without a sign. -/
def ofWord? (text : List Char) : Option Float :=
  let word := text.map Char.toLower
  if word = "inf".toList ∨ word = "infinity".toList then some (1 / 0)
  else if word = "nan".toList then some (0 / 0)
  else none

/-- The double that a literal stands for. -/
def ofText (text : List Char) : Except LiteralError Float :=
  if text = [] then .error .empty
  else
    let (negative, rest) := spanSign text
    match ofWord? rest <|> ofDigits? rest with
    | some x => .ok (if negative then -x else x)
    | none => .error .invalid

end SimplexTableau.Decimal

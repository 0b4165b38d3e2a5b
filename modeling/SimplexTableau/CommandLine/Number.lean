import SimplexTableau.Cell
import SimplexTableau.Decimal.Literal
import SimplexTableau.Text.Blank
import SimplexTableau.Word

namespace SimplexTableau.CommandLine

/-!
# Numbers on the command line

* `pieces` — the pieces of a text between commas;
* `readRow` — a list of numbers with commas between them and white space around them;
* `readTolerance` — a finite number that is not below zero, without white space;
* `readCount` — a natural number that fits into a word of 64 bits.

Each refuses a text with the reason that is shown for it.
-/

/-! ### Lists of numbers -/

/-- The pieces of a text between commas, one more than there are commas. -/
def pieces : List Char → List (List Char)
  | [] => [[]]
  | c :: rest =>
    if c = ',' then [] :: pieces rest
    else (c :: (pieces rest).headD []) :: (pieces rest).tail

/-- The reason for refusing a number. -/
def numberReason (text : List Char) (error : Decimal.LiteralError) : String :=
  "invalid number '" ++ String.ofList text ++ "': " ++ error.message

/-- The number that a piece stands for. -/
def readPiece (piece : List Char) : Except String Float :=
  let text := Text.trim piece
  match Decimal.ofText text with
  | .ok x => .ok x
  | .error error => .error (numberReason text error)

/-- The numbers of a list; the first piece that is no number is named. -/
def readRow (text : String) : Except String (List Float) :=
  (pieces text.toList).mapM readPiece

/-! ### Single numbers -/

/-- A tolerance. -/
def readTolerance (text : String) : Except String Float :=
  match Decimal.ofText text.toList with
  | .error error => .error (numberReason text.toList error)
  | .ok x =>
    if x.isFinite ∧ 0 ≤ x then .ok x
    else .error ("tolerance must be a finite non-negative number, got " ++ text)

/-- The value of the digits that follow `n`.  What is no digit is refused where it stands, and so
    is the digit with which the number gets too large. -/
def readDigits (n : Nat) : List Char → Except String Nat
  | [] => .ok n
  | c :: rest =>
    if !c.isDigit then .error "invalid digit found in string"
    else
      let next := n * 10 + (c.toNat - '0'.toNat)
      if wordLimit ≤ next then .error "number too large to fit in target type"
      else readDigits next rest

/-- A natural number, with an optional plus sign. -/
def readCount (text : String) : Except String Nat :=
  match text.toList with
  | [] => .error "cannot parse integer from empty string"
  | ['+'] => .error "invalid digit found in string"
  | '+' :: digits => readDigits 0 digits
  | digits => readDigits 0 digits

end SimplexTableau.CommandLine

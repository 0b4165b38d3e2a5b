import SimplexTableau.Json.Basic

namespace SimplexTableau.Json

/-!
# Faults of a JSON text

A text is read from front to back, and the first fault met is reported.  Faults are of three
kinds: the text is no JSON, the text ends too early, or it is JSON but not of the form that is
wanted.

* `Found` — what stands where something else was wanted;
* `Fault` — the faults, with `Fault.kind` and `Fault.message`;
* `Locator` — what is told of the place of a fault.

A message has no line and no column.  Where a reader tells them, they follow the message and depend
on the text alone, so they are a parameter, `Locator.place`, and by default nothing is told.  In a
message that quotes a string, `isHidden` goes by ranges of characters and not by the tables of
Unicode: a rare character may be shown by its number where the tables would have it shown as itself,
or the other way round.
-/

/-- What stands where something else was wanted. -/
inductive Found
  /-- A number without point and exponent. -/
  | natural (n : Nat)
  /-- The negative of such a number. -/
  | negative (n : Nat)
  /-- Any other number. -/
  | real (x : Float)
  | boolean (b : Bool)
  | string (text : List Char)
  | null
  | list
  | object

/-- The characters shown by their number when a string is quoted in a message: control and
    format characters, blanks other than the space, marks that combine with the character before
    them, and what is not assigned for interchange. -/
def isHidden (c : Char) : Bool :=
  let n := c.toNat
  n < 0x20 ∨ (0x7F ≤ n ∧ n ≤ 0xA0) ∨ n = 0xAD ∨ (0x300 ≤ n ∧ n ≤ 0x36F) ∨
    (0x483 ≤ n ∧ n ≤ 0x489) ∨ (0x591 ≤ n ∧ n ≤ 0x5BD) ∨ (0x600 ≤ n ∧ n ≤ 0x605) ∨
    n = 0x61C ∨ n = 0x1680 ∨ n = 0x180E ∨ (0x1AB0 ≤ n ∧ n ≤ 0x1ACE) ∨
    (0x1DC0 ≤ n ∧ n ≤ 0x1DFF) ∨ (0x2000 ≤ n ∧ n ≤ 0x200F) ∨ (0x2028 ≤ n ∧ n ≤ 0x202F) ∨
    (0x205F ≤ n ∧ n ≤ 0x206F) ∨ (0x20D0 ≤ n ∧ n ≤ 0x20F0) ∨ n = 0x3000 ∨
    (0xE000 ≤ n ∧ n ≤ 0xF8FF) ∨ (0xFE00 ≤ n ∧ n ≤ 0xFE0F) ∨ (0xFE20 ≤ n ∧ n ≤ 0xFE2F) ∨
    n = 0xFEFF ∨ (0xFFF0 ≤ n ∧ n ≤ 0xFFFB) ∨ (0xFFFE ≤ n ∧ n ≤ 0xFFFF) ∨ 0xE0000 ≤ n

/-- A character of a string that is quoted in a message. -/
def showChar (c : Char) : List Char :=
  if c = '"' then ['\\', '"']
  else if c = '\\' then ['\\', '\\']
  else if c = '\n' then ['\\', 'n']
  else if c = '\r' then ['\\', 'r']
  else if c = '\t' then ['\\', 't']
  else if c.toNat = 0 then ['\\', '0']
  else if isHidden c then ['\\', 'u', '\x7b'] ++ Nat.toDigits 16 c.toNat ++ ['\x7d']
  else [c]

/-- A name between the quotes used in messages. -/
def ticked (name : String) : String := "`" ++ name ++ "`"

/-- How a message names what was found. -/
def Found.describe : Found → String
  | .natural n => "integer " ++ ticked (toString n)
  | .negative n => "integer " ++ ticked ("-" ++ toString n)
  | .real x => "floating point " ++ ticked (String.ofList (realText x))
  | .boolean b => "boolean " ++ ticked (if b then "true" else "false")
  | .string text => "string \"" ++ String.ofList (text.flatMap showChar) ++ "\""
  | .null => "null"
  | .list => "sequence"
  | .object => "map"

/-- What is wrong with a text. -/
inductive Fault
  /-- No value starts here. -/
  | expectedValue
  /-- One of the words `true`, `false` and `null` is misspelt. -/
  | expectedWord
  | expectedColon
  | expectedCommaInList
  | expectedCommaInObject
  | trailingComma
  /-- Something follows where the text, or a list of fixed length, should end. -/
  | trailingText
  | keyNotString
  | invalidNumber
  /-- The number is beyond the largest double. -/
  | numberOutOfRange
  | invalidEscape
  | controlCharacter
  /-- The second half of a surrogate pair without the first, or the first with a wrong second. -/
  | loneSurrogate
  /-- The first half of a surrogate pair that no escape follows. -/
  | missingSurrogate
  | endInValue
  | endInList
  | endInObject
  | endInString
  /-- A value of another type than wanted. -/
  | wrongType (found : Found) (wanted : String)
  /-- A value of the right type that is not allowed. -/
  | wrongValue (found : Found) (wanted : String)
  /-- A list with too few items. -/
  | wrongLength (found : Nat) (wanted : String)
  | missingField (name : String)
  | duplicateField (name : String)
  | unknownVariant (name : String) (known : List String)

/-- The kinds of faults. -/
inductive FaultKind
  /-- The text is no JSON. -/
  | malformed
  /-- The text ends too early. -/
  | ended
  /-- The text is JSON of another form than wanted. -/
  | unsuitable
deriving DecidableEq

namespace Fault

/-- The kind of a fault. -/
def kind : Fault → FaultKind
  | endInValue | endInList | endInObject | endInString => .ended
  | wrongType _ _ | wrongValue _ _ | wrongLength _ _ | missingField _ | duplicateField _
  | unknownVariant _ _ => .unsuitable
  | _ => .malformed

/-- The alternatives of a choice, as a message lists them. -/
def listVariants : List String → String
  | [] => "there are no variants"
  | [one] => "expected " ++ ticked one
  | [one, two] => "expected " ++ ticked one ++ " or " ++ ticked two
  | more => "expected one of " ++ String.intercalate ", " (more.map ticked)

/-- The text shown for a fault. -/
def message : Fault → String
  | expectedValue => "expected value"
  | expectedWord => "expected ident"
  | expectedColon => "expected `:`"
  | expectedCommaInList => "expected `,` or `]`"
  | expectedCommaInObject => "expected `,` or `\x7d`"
  | trailingComma => "trailing comma"
  | trailingText => "trailing characters"
  | keyNotString => "key must be a string"
  | invalidNumber => "invalid number"
  | numberOutOfRange => "number out of range"
  | invalidEscape => "invalid escape"
  | controlCharacter => "control character (\\u0000-\\u001F) found while parsing a string"
  | loneSurrogate => "lone leading surrogate in hex escape"
  | missingSurrogate => "unexpected end of hex escape"
  | endInValue => "EOF while parsing a value"
  | endInList => "EOF while parsing a list"
  | endInObject => "EOF while parsing an object"
  | endInString => "EOF while parsing a string"
  | wrongType found wanted => "invalid type: " ++ found.describe ++ ", expected " ++ wanted
  | wrongValue found wanted => "invalid value: " ++ found.describe ++ ", expected " ++ wanted
  | wrongLength found wanted => "invalid length " ++ toString found ++ ", expected " ++ wanted
  | missingField name => "missing field " ++ ticked name
  | duplicateField name => "duplicate field " ++ ticked name
  | unknownVariant name known => "unknown variant " ++ ticked name ++ ", " ++ listVariants known

end Fault

/-- What a reader tells of the place of the fault of a text, after the message. -/
class Locator where
  /-- The place of the fault of a text. -/
  place : String → String

/-- By default nothing is told of the place of a fault. -/
instance Locator.silent : Locator := ⟨fun _ => ""⟩

end SimplexTableau.Json

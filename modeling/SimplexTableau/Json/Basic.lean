import SimplexTableau.Decimal.Style

namespace SimplexTableau

/-!
# JSON values and their text

The values that are written, and the two layouts they are written in: on one line without any
blank, or with one item per line and two spaces for each level.

* `Json` — the values;
* `quote` — a string with its quotes and escapes;
* `Json.render` — the text of a value in a layout.
-/

/-- A value to be written. -/
inductive Json
  | null
  | natural (n : Nat)
  | real (x : Float)
  | string (text : String)
  | list (items : List Json)
  | object (members : List (String × Json))

namespace Json

/-! ### Strings -/

/-- The digit of a number below 16. -/
def hexDigit (n : Nat) : Char := Nat.digitChar n

/-- A character inside a string.  Quotes, backslashes and control characters are escaped, all
    others stand for themselves. -/
def escape (c : Char) : List Char :=
  if c = '"' then ['\\', '"']
  else if c = '\\' then ['\\', '\\']
  else if c = '\n' then ['\\', 'n']
  else if c = '\r' then ['\\', 'r']
  else if c = '\t' then ['\\', 't']
  else if c = Char.ofNat 8 then ['\\', 'b']
  else if c = Char.ofNat 12 then ['\\', 'f']
  else if c.toNat < 32 then
    ['\\', 'u', '0', '0', hexDigit (c.toNat / 16), hexDigit (c.toNat % 16)]
  else [c]

/-- A string between quotes. -/
def quote (text : List Char) : List Char := '"' :: text.flatMap escape ++ ['"']

/-! ### Layouts -/

/-- How the parts of a value are set apart. -/
structure Layout where
  /-- What stands before an item at the given depth. -/
  lineBreak : Nat → List Char
  /-- What stands between a key and its value. -/
  colon : List Char

/-- Everything on one line. -/
def compact : Layout := ⟨fun _ => [], [':']⟩

/-- One item per line. -/
def pretty : Layout := ⟨fun depth => '\n' :: List.replicate (2 * depth) ' ', [':', ' ']⟩

/-- The text of a number that is finite, and `null` for what is no number. -/
def realText (x : Float) : List Char := ((Decimal.dataText? x).getD "null").toList

mutual

/-- The text of a value, at some depth of a layout. -/
def renderAt (layout : Layout) (depth : Nat) : Json → List Char
  | null => "null".toList
  | natural n => Nat.toDigits 10 n
  | real x => realText x
  | string text => quote text.toList
  | list [] => ['[', ']']
  | list (first :: rest) =>
    '[' :: layout.lineBreak (depth + 1) ++ renderAt layout (depth + 1) first ++
      renderItems layout depth rest
  | object [] => ['\x7b', '\x7d']
  | object ((key, value) :: rest) =>
    '\x7b' :: layout.lineBreak (depth + 1) ++ quote key.toList ++ layout.colon ++
      renderAt layout (depth + 1) value ++ renderMembers layout depth rest

/-- The further items of a list, with its end. -/
def renderItems (layout : Layout) (depth : Nat) : List Json → List Char
  | [] => layout.lineBreak depth ++ [']']
  | item :: rest =>
    ',' :: layout.lineBreak (depth + 1) ++ renderAt layout (depth + 1) item ++
      renderItems layout depth rest

/-- The further members of an object, with its end. -/
def renderMembers (layout : Layout) (depth : Nat) : List (String × Json) → List Char
  | [] => layout.lineBreak depth ++ ['\x7d']
  | (key, value) :: rest =>
    ',' :: layout.lineBreak (depth + 1) ++ quote key.toList ++ layout.colon ++
      renderAt layout (depth + 1) value ++ renderMembers layout depth rest

end

/-- The text of a value. -/
def render (layout : Layout) (value : Json) : String :=
  String.ofList (renderAt layout 0 value)

end Json

end SimplexTableau

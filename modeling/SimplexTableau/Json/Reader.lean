import SimplexTableau.Json.Number
import SimplexTableau.Json.Text

namespace SimplexTableau.Json

/-!
# Reading JSON from front to back

A reader takes what it wants from the front of a text and gives back the rest.  Here are the
steps that all readers share: blanks, words, the items of a list and the keys of an object.

* `Reader` — what reads a value of some type;
* `nextItem`, `closeList` — where the next item of a list starts, and where a list ends;
* `nextKey`, `readColon` — the next key of an object, and the colon after it;
* `unwanted` — the fault of a value that is not of the wanted type.
-/

/-- Takes a value from the front of a text, and gives back the rest. -/
abbrev Reader (α : Type) := List Char → Except Fault (α × List Char)

/-- The four blanks of JSON. -/
def isBlank (c : Char) : Bool := c = ' ' ∨ c = '\t' ∨ c = '\n' ∨ c = '\r'

/-- The text without its leading blanks. -/
def skipBlanks (text : List Char) : List Char := text.dropWhile isBlank

/-- The rest of a word whose first letter was seen. -/
def readWord : List Char → List Char → Except Fault (List Char)
  | [], text => .ok text
  | _ :: _, [] => .error .endInValue
  | c :: word, d :: text => if c = d then readWord word text else .error .expectedWord

/-- Whether a number starts with the character. -/
def startsNumber (c : Char) : Bool := c = '-' ∨ c.isDigit

/-! ### Lists -/

/-- What comes next in a list: its end, with the text after it, or an item. -/
inductive ListStep
  | done (rest : List Char)
  | item (text : List Char)

/-- The item after a comma. -/
def itemAfterComma (text : List Char) : Except Fault ListStep :=
  match skipBlanks text with
  | ']' :: _ => .error .trailingComma
  | [] => .error .endInValue
  | text => .ok (.item text)

/-- What comes next in a list.  Every item but the first follows a comma. -/
def nextItem (isFirst : Bool) (text : List Char) : Except Fault ListStep :=
  match skipBlanks text with
  | ']' :: rest => .ok (.done rest)
  | [] => .error .endInList
  | c :: rest =>
    if isFirst then .ok (.item (c :: rest))
    else if c = ',' then itemAfterComma rest
    else .error .expectedCommaInList

/-- The end of a list that has all its items. -/
def closeList (text : List Char) : Except Fault (List Char) :=
  match skipBlanks text with
  | ']' :: rest => .ok rest
  | [] => .error .endInList
  | ',' :: rest =>
    match skipBlanks rest with
    | ']' :: _ => .error .trailingComma
    | _ => .error .trailingText
  | _ => .error .trailingText

/-! ### Objects -/

/-- What comes next in an object: its end, with the text after it, or a key. -/
inductive ObjectStep
  | done (rest : List Char)
  | key (name : String) (rest : List Char)

/-- The key that starts here. -/
def keyHere : List Char → Except Fault ObjectStep
  | '"' :: rest => do
    let (name, rest) ← readQuoted rest
    return .key (String.ofList name) rest
  | _ => .error .keyNotString

/-- The key after a comma. -/
def keyAfterComma (text : List Char) : Except Fault ObjectStep :=
  match skipBlanks text with
  | '\x7d' :: _ => .error .trailingComma
  | [] => .error .endInValue
  | text => keyHere text

/-- What comes next in an object.  Every key but the first follows a comma. -/
def nextKey (isFirst : Bool) (text : List Char) : Except Fault ObjectStep :=
  match skipBlanks text with
  | '\x7d' :: rest => .ok (.done rest)
  | [] => .error .endInObject
  | c :: rest =>
    if isFirst then keyHere (c :: rest)
    else if c = ',' then keyAfterComma rest
    else .error .expectedCommaInObject

/-- The text after the colon that has to follow a key. -/
def readColon (text : List Char) : Except Fault (List Char) :=
  match skipBlanks text with
  | ':' :: rest => .ok rest
  | [] => .error .endInObject
  | _ => .error .expectedColon

/-! ### Unwanted values -/

/-- What kind of value starts here.  A list or an object is not looked into, all else is read to
    its end. -/
def findValue [NumberReader] : List Char → Except Fault Found
  | 'n' :: rest => do
    let _ ← readWord "ull".toList rest
    return .null
  | 't' :: rest => do
    let _ ← readWord "rue".toList rest
    return .boolean true
  | 'f' :: rest => do
    let _ ← readWord "alse".toList rest
    return .boolean false
  | '"' :: rest => do
    let (text, _) ← readQuoted rest
    return .string text
  | '[' :: _ => .ok .list
  | '\x7b' :: _ => .ok .object
  | [] => .error .endInValue
  | c :: rest =>
    if startsNumber c then do
      let (number, _) ← readNumber (c :: rest)
      return number.found
    else
      .error .expectedValue

/-- The fault of the value that starts here, where one of another type is wanted. -/
def unwanted [NumberReader] (wanted : String) (text : List Char) : Fault :=
  match findValue text with
  | .ok found => .wrongType found wanted
  | .error fault => fault

end SimplexTableau.Json

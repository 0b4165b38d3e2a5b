import SimplexTableau.Json.Reader

namespace SimplexTableau.Json

/-!
# Skipping a value

The value of an unknown key is passed over.  Only its form is checked, to any depth: the lists
and objects that are open are kept on a stack.

* `Frame` — a list or an object that is open;
* `skipValue` — what follows a value.
-/

/-- A list or an object that is open. -/
inductive Frame
  | list
  | object
deriving DecidableEq

namespace Frame

/-- The character that ends it. -/
def closer : Frame → Char
  | list => ']'
  | object => '\x7d'

/-- The fault of a text that ends inside. -/
def ended : Frame → Fault
  | list => .endInList
  | object => .endInObject

/-- The fault of an item that no comma separates from the one before. -/
def missingComma : Frame → Fault
  | list => .expectedCommaInList
  | object => .expectedCommaInObject

/-- Passes over what stands before the value of an item: nothing in a list, the key and its colon
    in an object. -/
def skipKey : Frame → List Char → Except Fault (List Char)
  | list, text => .ok text
  | object, text =>
    match skipBlanks text with
    | '"' :: rest => do readColon (← skipQuoted rest)
    | [] => .error .endInObject
    | _ => .error .keyNotString

end Frame

/-- A value that is not made of others. -/
def skipAtom : List Char → Except Fault (List Char)
  | 'n' :: rest => readWord "ull".toList rest
  | 't' :: rest => readWord "rue".toList rest
  | 'f' :: rest => readWord "alse".toList rest
  | '"' :: rest => skipQuoted rest
  | [] => .error .endInValue
  | c :: rest =>
    if startsNumber c then do
      let (_, rest) ← scanNumber .invalidNumber (c :: rest)
      return rest
    else
      .error .expectedValue

/-- Where the skipping stands. -/
inductive Place
  /-- A value follows. -/
  | value
  /-- A list or object was opened. -/
  | opened
  /-- A value has ended. -/
  | after

/-- Skips to the end of the outermost open frame, in at most as many steps as the first argument
    says. -/
def skipFor : Nat → Place → List Frame → List Char → Except Fault (List Char)
  | 0, _, _, _ => .error .endInValue
  | fuel + 1, .value, frames, text =>
    match skipBlanks text with
    | '[' :: rest => skipFor fuel .opened (.list :: frames) rest
    | '\x7b' :: rest => skipFor fuel .opened (.object :: frames) rest
    | text => do skipFor fuel .after frames (← skipAtom text)
  | _ + 1, _, [], text => .ok text
  | fuel + 1, .opened, frame :: outer, text =>
    match skipBlanks text with
    | [] => .error frame.ended
    | c :: rest =>
      if c = frame.closer then skipFor fuel .after outer rest
      else do skipFor fuel .value (frame :: outer) (← frame.skipKey (c :: rest))
  | fuel + 1, .after, frame :: outer, text =>
    match skipBlanks text with
    | [] => .error frame.ended
    | c :: rest =>
      if c = frame.closer then skipFor fuel .after outer rest
      else if c = ',' then do skipFor fuel .value (frame :: outer) (← frame.skipKey rest)
      else .error frame.missingComma

/-- What follows a value.  Each step but the last two takes a character or follows one that
    does. -/
def skipValue (text : List Char) : Except Fault (List Char) :=
  skipFor (2 * text.length + 2) .value [] text

end SimplexTableau.Json

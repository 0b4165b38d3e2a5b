import SimplexTableau.Json.Fault

namespace SimplexTableau.Json

/-!
# Strings in a JSON text

* `readQuoted` — the characters of a string up to its closing quote;
* `skipQuoted` — the end of a string, for strings whose characters do not matter.  Escapes still
  have to be well formed, but a surrogate needs no partner.
-/

/-- The value of a hexadecimal digit. -/
def hexValue? (c : Char) : Option Nat :=
  if '0' ≤ c ∧ c ≤ '9' then some (c.toNat - '0'.toNat)
  else if 'a' ≤ c ∧ c ≤ 'f' then some (c.toNat - 'a'.toNat + 10)
  else if 'A' ≤ c ∧ c ≤ 'F' then some (c.toNat - 'A'.toNat + 10)
  else none

/-- The value of four hexadecimal digits. -/
def hexWord? (a b c d : Char) : Option Nat := do
  return ((← hexValue? a) * 16 + (← hexValue? b)) * 256 + ((← hexValue? c) * 16 + (← hexValue? d))

/-- The fault of a text that should start with four hexadecimal digits and does not: it ends too
    early if there are fewer than four bytes left. -/
def hexFault (text : List Char) : Fault :=
  if (String.ofList text).utf8ByteSize < 4 then .endInString else .invalidEscape

/-- The character of an escape with one letter. -/
def letterEscape? (c : Char) : Option Char :=
  if c = '"' ∨ c = '\\' ∨ c = '/' then some c
  else if c = 'b' then some (Char.ofNat 8)
  else if c = 'f' then some (Char.ofNat 12)
  else if c = 'n' then some '\n'
  else if c = 'r' then some '\r'
  else if c = 't' then some '\t'
  else none

/-- The first half of a surrogate pair. -/
def isLeading (n : Nat) : Bool := 0xD800 ≤ n ∧ n < 0xDC00

/-- The second half of a surrogate pair. -/
def isTrailing (n : Nat) : Bool := 0xDC00 ≤ n ∧ n < 0xE000

/-- The character of a surrogate pair. -/
def pairChar (leading trailing : Nat) : Char :=
  Char.ofNat (0x10000 + (leading - 0xD800) * 0x400 + (trailing - 0xDC00))

/-- The second half of a surrogate pair, which has to follow as an escape of its own. -/
def readTrailing : List Char → Except Fault (Nat × List Char)
  | '\\' :: 'u' :: a :: b :: c :: d :: rest =>
    match hexWord? a b c d with
    | some n => if isTrailing n then .ok (n, rest) else .error .loneSurrogate
    | none => .error (hexFault (a :: b :: c :: d :: rest))
  | '\\' :: 'u' :: rest => .error (hexFault rest)
  | [] | ['\\'] => .error .endInString
  | _ => .error .missingSurrogate

/-- The character of an escape; the text starts after its backslash. -/
def readEscape : List Char → Except Fault (Char × List Char)
  | 'u' :: a :: b :: c :: d :: rest =>
    match hexWord? a b c d with
    | none => .error (hexFault (a :: b :: c :: d :: rest))
    | some n =>
      if isTrailing n then .error .loneSurrogate
      else if isLeading n then do
        let (trailing, rest) ← readTrailing rest
        return (pairChar n trailing, rest)
      else .ok (Char.ofNat n, rest)
  | 'u' :: rest => .error (hexFault rest)
  | c :: rest =>
    match letterEscape? c with
    | some c => .ok (c, rest)
    | none => .error .invalidEscape
  | [] => .error .endInString

/-- The characters up to the closing quote, of which there are at most as many as the first
    argument says; `seen` holds those already read, the last one first. -/
def readQuotedFor : Nat → List Char → List Char → Except Fault (List Char × List Char)
  | 0, _, _ | _ + 1, _, [] => .error .endInString
  | fuel + 1, seen, c :: rest =>
    if c = '"' then .ok (seen.reverse, rest)
    else if c = '\\' then do
      let (c, rest) ← readEscape rest
      readQuotedFor fuel (c :: seen) rest
    else if c.toNat < 32 then .error .controlCharacter
    else readQuotedFor fuel (c :: seen) rest

/-- The characters of a string whose opening quote was read, and what follows its closing one. -/
def readQuoted (text : List Char) : Except Fault (List Char × List Char) :=
  readQuotedFor (text.length + 1) [] text

/-- What follows an escape; the text starts after its backslash. -/
def skipEscape : List Char → Except Fault (List Char)
  | 'u' :: a :: b :: c :: d :: rest =>
    if (hexWord? a b c d).isSome then .ok rest
    else .error (hexFault (a :: b :: c :: d :: rest))
  | 'u' :: rest => .error (hexFault rest)
  | c :: rest => if (letterEscape? c).isSome then .ok rest else .error .invalidEscape
  | [] => .error .endInString

/-- What follows the closing quote, which comes within as many steps as the first argument
    says. -/
def skipQuotedFor : Nat → List Char → Except Fault (List Char)
  | 0, _ | _ + 1, [] => .error .endInString
  | fuel + 1, c :: rest =>
    if c = '"' then .ok rest
    else if c = '\\' then do skipQuotedFor fuel (← skipEscape rest)
    else if c.toNat < 32 then .error .controlCharacter
    else skipQuotedFor fuel rest

/-- What follows a string whose opening quote was read. -/
def skipQuoted (text : List Char) : Except Fault (List Char) :=
  skipQuotedFor (text.length + 1) text

end SimplexTableau.Json

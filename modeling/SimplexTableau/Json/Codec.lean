import SimplexTableau.Assignment
import SimplexTableau.Json.Skip

namespace SimplexTableau.Json

/-!
# Codecs

A codec writes the values of a type as JSON and reads them back.  Codecs of structures are put
together from those of their fields, in one description that serves both directions: a structure
is written as an object, and read from an object in any order of its keys or from a list of its
fields in their order.

* `Codec.float`, `Codec.natural`, `Codec.string`, `Codec.list`, `Codec.option`,
  `Codec.assignment` — the codecs of plain types;
* `Codec.choice` — the codec of an enumeration;
* `Schema`, `Schema.codec` — a structure with its named fields, and its codec;
* `Codec.decode`, `Codec.encode` — from and to a whole text.
-/

/-- Writes the values of a type and reads them back. -/
structure Codec (α : Type) where
  /-- The JSON value of a value. -/
  write : α → Json
  /-- Takes a value from the front of a text. -/
  read : Reader α

namespace Codec

variable {α β : Type}

/-- The value of a whole text, in which only blanks may follow it. -/
def decode (codec : Codec α) (text : String) : Except Fault α := do
  let (value, rest) ← codec.read text.toList
  match skipBlanks rest with
  | [] => return value
  | _ => throw .trailingText

/-- The text of a value in a layout. -/
def encode (codec : Codec α) (layout : Layout) (value : α) : String :=
  (codec.write value).render layout

/-! ### Plain values -/

/-- Takes a number, if one starts here; `wanted` names what is wanted in a message. -/
def readNumberAs [NumberReader] (wanted : String) (use : Number → Except Fault α) : Reader α :=
  fun text =>
    match skipBlanks text with
    | c :: rest =>
      if startsNumber c then do
        let (number, rest) ← readNumber (c :: rest)
        return (← use number, rest)
      else
        .error (unwanted wanted (c :: rest))
    | [] => .error .endInValue

/-- Doubles; what is no number is written as `null`, and is not read back. -/
def float [NumberReader] : Codec Float where
  write := .real
  read := readNumberAs "f64" fun number => .ok number.toFloat

/-- Natural numbers below `2 ^ 64`. -/
def natural [NumberReader] : Codec Nat where
  write := .natural
  read := readNumberAs "usize" fun
    | .natural n => .ok n
    | .negative n => .error (.wrongValue (.negative n) "usize")
    | .real x => .error (.wrongType (.real x) "usize")

/-- Takes a string. -/
def readString [NumberReader] : Reader String := fun text =>
  match skipBlanks text with
  | '"' :: rest => do
    let (chars, rest) ← readQuoted rest
    return (String.ofList chars, rest)
  | text => .error (unwanted "a string" text)

/-- Strings. -/
def string [NumberReader] : Codec String where
  write := .string
  read := readString

/-- Takes `null`, or a value. -/
def readOption (read : Reader α) : Reader (Option α) := fun text =>
  match skipBlanks text with
  | 'n' :: rest => do return (none, ← readWord "ull".toList rest)
  | text => do
    let (value, rest) ← read text
    return (some value, rest)

/-- A value or `null`. -/
def option (codec : Codec α) : Codec (Option α) where
  write
    | some value => codec.write value
    | none => .null
  read := readOption codec.read

/-! ### Lists and maps -/

/-- Takes the items of a list, of which there are fewer than the first argument says. -/
def readItems (read : Reader α) : Nat → (isFirst : Bool) → Reader (List α)
  | 0, _, _ => .error .endInList
  | fuel + 1, isFirst, text => do
    match ← nextItem isFirst text with
    | .done rest => return ([], rest)
    | .item text =>
      let (item, rest) ← read text
      let (items, rest) ← readItems read fuel false rest
      return (item :: items, rest)

/-- Takes a list. -/
def readList [NumberReader] (read : Reader α) : Reader (List α) := fun text =>
  match skipBlanks text with
  | '[' :: rest => readItems read (rest.length + 1) true rest
  | text => .error (unwanted "a sequence" text)

/-- Lists. -/
def list [NumberReader] (codec : Codec α) : Codec (List α) where
  write items := .list (items.map codec.write)
  read := readList codec.read

/-- The values of a type that corresponds to another one. -/
def via (codec : Codec α) (into : α → β) (back : β → α) : Codec β where
  write value := codec.write (back value)
  read text := do
    let (value, rest) ← codec.read text
    return (into value, rest)

/-- Arrays, written as lists. -/
def array [NumberReader] (codec : Codec α) : Codec (Array α) :=
  codec.list.via List.toArray Array.toList

/-- Takes the entries of an object, of which there are fewer than the first argument says. -/
def readEntries (read : Reader α) : Nat → (isFirst : Bool) → Assignment α → Reader (Assignment α)
  | 0, _, _, _ => .error .endInObject
  | fuel + 1, isFirst, entries, text => do
    match ← nextKey isFirst text with
    | .done rest => return (entries, rest)
    | .key name rest =>
      let (value, rest) ← read (← readColon rest)
      readEntries read fuel false (entries.insert name value) rest

/-- Takes an object whose keys are names of any kind; the last value of a name counts. -/
def readAssignment [NumberReader] (read : Reader α) : Reader (Assignment α) := fun text =>
  match skipBlanks text with
  | '\x7b' :: rest => readEntries read (rest.length + 1) true .empty rest
  | text => .error (unwanted "a map" text)

/-- Values by name, written in the order of the names. -/
def assignment [NumberReader] (codec : Codec α) : Codec (Assignment α) where
  write a := .object (a.entries.map fun (name, value) => (name, codec.write value))
  read := readAssignment codec.read

/-! ### Enumerations -/

/-- Takes the text of a name of an enumeration. -/
def readVariant [NumberReader] : Reader String := fun text =>
  match skipBlanks text with
  | '"' :: rest => do
    let (chars, rest) ← readQuoted rest
    return (String.ofList chars, rest)
  | text => .error (unwanted "variant identifier" text)

/-- Takes `null`. -/
def readNull [NumberReader] (text : List Char) : Except Fault (List Char) :=
  match skipBlanks text with
  | 'n' :: rest => readWord "ull".toList rest
  | text => .error (unwanted "unit" text)

/-- The value with a name. -/
def variantOf (name : α → String) (all : List α) (text : String) : Except Fault α :=
  match all.find? (name · == text) with
  | some value => .ok value
  | none => .error (.unknownVariant text (all.map name))

/-- Takes a name, which may also stand as the only key of an object, with the value `null`. -/
def readChoice [NumberReader] (name : α → String) (all : List α) : Reader α := fun text =>
  match skipBlanks text with
  | '"' :: rest => do
    let (text, rest) ← readVariant ('"' :: rest)
    return (← variantOf name all text, rest)
  | '\x7b' :: rest => do
    let (text, rest) ← readVariant rest
    -- an unknown name is reported before a missing colon
    let value ← variantOf name all text
    let rest ← readNull (← readColon rest)
    match skipBlanks rest with
    | '\x7d' :: rest => return (value, rest)
    | [] => throw .endInObject
    | _ => throw .expectedValue
  | [] => .error .endInValue
  | _ => .error .expectedValue

/-- The values of an enumeration, written by their names. -/
def choice [NumberReader] (name : α → String) (all : List α) : Codec α where
  write value := .string (name value)
  read := readChoice name all

end Codec

/-! ### Structures -/

/-- One field of a structure: how it is written, and how it is read into the structure. -/
structure Member (ρ : Type) where
  /-- The key. -/
  name : String
  /-- Whether an object without the key is refused. -/
  required : Bool
  /-- The JSON value of the field. -/
  write : ρ → Json
  /-- Takes a value for the field. -/
  read : Reader (ρ → ρ)

namespace Member

variable {ρ α : Type}

/-- A field that has to be there. -/
def field (name : String) (codec : Codec α) (get : ρ → α) (set : α → ρ → ρ) : Member ρ where
  name
  required := true
  write r := codec.write (get r)
  read text := do
    let (value, rest) ← codec.read text
    return (set value, rest)

/-- A field that may be missing. -/
def optional (name : String) (codec : Codec α) (get : ρ → Option α) (set : Option α → ρ → ρ) :
    Member ρ :=
  { field name codec.option get set with required := false }

end Member

/-- The description of a structure. -/
structure Schema (ρ : Type) where
  /-- The name of the structure in messages. -/
  name : String
  /-- What the fields are read into. -/
  blank : ρ
  /-- The fields in their order. -/
  members : List (Member ρ)

namespace Schema

variable {ρ : Type}

/-- The structure in a message. -/
def wanted (s : Schema ρ) : String := "struct " ++ s.name

/-- The structure with the number of its fields in a message. -/
def wantedList (s : Schema ρ) : String :=
  s.wanted ++ " with " ++ toString s.members.length ++ " elements"

/-- The first required field that was not seen. -/
def missing? (s : Schema ρ) (seen : List String) : Option String :=
  (s.members.find? fun m => m.required && !seen.contains m.name).map (·.name)

/-- Takes the members of an object, of which there are fewer than the first argument says.
    Unknown keys are passed over with their values. -/
def readMembers (s : Schema ρ) : Nat → (isFirst : Bool) → List String → ρ → Reader ρ
  | 0, _, _, _, _ => .error .endInObject
  | fuel + 1, isFirst, seen, value, text => do
    match ← nextKey isFirst text with
    | .done rest =>
      match s.missing? seen with
      | some name => throw (.missingField name)
      | none => return (value, rest)
    | .key name rest =>
      match s.members.find? (·.name == name) with
      | some m =>
        -- a repeated key is refused before its value is looked at
        if seen.contains name then throw (.duplicateField name)
        let (set, rest) ← m.read (← readColon rest)
        readMembers s fuel false (name :: seen) (set value) rest
      | none =>
        readMembers s fuel false seen value (← skipValue (← readColon rest))

/-- Takes the fields from a list in their order; `count` of them were taken before. -/
def readFields (s : Schema ρ) (count : Nat) (value : ρ) : List (Member ρ) → Reader ρ
  | [], text => do return (value, ← closeList text)
  | m :: rest, text => do
    match ← nextItem (count == 0) text with
    | .done _ => throw (.wrongLength count s.wantedList)
    | .item text =>
      let (set, text) ← m.read text
      readFields s (count + 1) (set value) rest text

/-- Takes a structure from an object or from a list. -/
def read [NumberReader] (s : Schema ρ) : Reader ρ := fun text =>
  match skipBlanks text with
  | '[' :: rest => s.readFields 0 s.blank s.members rest
  | '\x7b' :: rest => s.readMembers (rest.length + 1) true [] s.blank rest
  | text => .error (unwanted s.wanted text)

/-- The structure as an object with its fields in their order. -/
def write (s : Schema ρ) (value : ρ) : Json :=
  .object (s.members.map fun m => (m.name, m.write value))

/-- The codec of a structure. -/
def codec [NumberReader] (s : Schema ρ) : Codec ρ := ⟨s.write, s.read⟩

end Schema

end SimplexTableau.Json

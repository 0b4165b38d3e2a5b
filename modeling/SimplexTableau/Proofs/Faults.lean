import SimplexTableau.Proofs.Doubles
import SimplexTableau.Proofs.Runs
import SimplexTableau.Proofs.Validation

namespace SimplexTableau

/-!
# The faults of a problem

A problem may have many faults, and one of them is reported.  What a fault is does not depend on
the order of the checks:

* `Problem.HasFault` — the faults of a problem; those of its entries are `Tableau.RowFault`;
* `InputError.place` — where a fault stands: the shapes come before the entries, and the entries
  are read row by row;
* `InputError.IsFirst` — one of several faults that all others come after; there is at most one;
* `Tableau.isFirst_of_checkRow` — the fault that a row is refused for is its first one;
* `Problem.validate_eq_error_iff` — the fault that a problem is refused for is its first one;
* `Problem.Valid` — what a problem without faults is.

The last theorem is about problems over doubles: what is accepted, which fault is reported, and
that building the tableau and solving refuse nothing else.
-/

variable {K : Type}

/-! ### Places -/

/-- Where a fault stands.  Shapes come first: the variables, the constraints in turn, the number of
    bounds.  Then the entries come row by row, in each row first what is no number, in the order of
    the columns, then a bound below zero. -/
def InputError.place : InputError → List Nat
  | .noVariables => [0]
  | .constraintLength row _ _ => [1, row]
  | .rhsLength _ _ => [2]
  | .nonFinite row col => [3, row, 0, col]
  | .negativeRhs row => [3, row, 1]

namespace InputError

/-- One fault stands before another. -/
def Before (fault other : InputError) : Prop := List.Lex (· < ·) fault.place other.place

/-- The fault is one of the given ones, and all others come later. -/
structure IsFirst (faults : InputError → Prop) (fault : InputError) : Prop where
  /-- It is one of them. -/
  mem : faults fault
  /-- All others come later. -/
  before : ∀ other, faults other → other = fault ∨ fault.Before other

/-- At most one fault comes first. -/
theorem IsFirst.unique {faults : InputError → Prop} {fault other : InputError}
    (h : IsFirst faults fault) (h' : IsFirst faults other) : fault = other := by
  obtain heq | hbefore := h.before other h'.mem
  · exact heq.symm
  · obtain heq | hbefore' := h'.before fault h.mem
    · exact heq
    · exact absurd hbefore' (asymm (r := List.Lex (· < ·)) hbefore)

end InputError

/-! ### Faults -/

section Faults

variable [Cell K]

/-- The faults among the entries of a row. -/
inductive Tableau.RowFault (rhsColumn i : Nat) (row : List K) (bound : K) : InputError → Prop
  /-- A coefficient is no number. -/
  | coefficient {j : Nat} {v : K} (hv : row[j]? = some v) (h : Cell.isFinite v = false) :
    RowFault rhsColumn i row bound (.nonFinite i j)
  /-- The bound is no number. -/
  | bound (h : Cell.isFinite bound = false) :
    RowFault rhsColumn i row bound (.nonFinite i rhsColumn)
  /-- The bound of a constraint is below zero. -/
  | negative (hi : 0 < i) (h : bound < 0) : RowFault rhsColumn i row bound (.negativeRhs i)

/-- The faults of a problem. -/
inductive Problem.HasFault (p : Problem K) : InputError → Prop
  /-- There is nothing to decide. -/
  | noVariables (h : p.numVariables = 0) : p.HasFault .noVariables
  /-- A constraint has more or fewer coefficients than there are variables. -/
  | constraintLength {i : Nat} {row : List K} (hrow : p.constraints[i]? = some row)
    (h : row.length ≠ p.numVariables) :
    p.HasFault (.constraintLength (i + 1) p.numVariables row.length)
  /-- There are more or fewer bounds than constraints. -/
  | rhsLength (h : p.rhs.length ≠ p.numConstraints) :
    p.HasFault (.rhsLength p.numConstraints p.rhs.length)
  /-- A row has a fault among its entries; the objective has 0 in the place of a bound. -/
  | entry {i : Nat} {row : List K} {bound : K} {fault : InputError}
    (hrow : (p.objective :: p.constraints)[i]? = some row) (hbound : (0 :: p.rhs)[i]? = some bound)
    (h : Tableau.RowFault (p.numVariables + p.numConstraints) i row bound fault) :
    p.HasFault fault

/-- What a problem has to be to be accepted. -/
structure Problem.Valid (p : Problem K) : Prop extends p.WellShaped where
  /-- The coefficients are numbers. -/
  finite_coefficients : ∀ row ∈ p.objective :: p.constraints, ∀ v ∈ row, Cell.isFinite v = true
  /-- The bounds are numbers. -/
  finite_rhs : ∀ b ∈ p.rhs, Cell.isFinite b = true
  /-- No bound is below zero. -/
  rhs_nonneg : ∀ b ∈ p.rhs, ¬ b < 0

/-! ### The first fault of a row -/

namespace Tableau

variable {rhsColumn i : Nat} {row : List K} {bound : K} {fault other : InputError}

/-- A fault of row `i` stands in that row. -/
theorem RowFault.place_eq (h : RowFault rhsColumn i row bound fault) :
    ∃ rest, fault.place = 3 :: i :: rest := by
  cases h with
  | coefficient hv h => exact ⟨_, rfl⟩
  | bound h => exact ⟨_, rfl⟩
  | negative hi h => exact ⟨_, rfl⟩

/-- The shapes come before the entries. -/
theorem RowFault.before_of_shape (h : RowFault rhsColumn i row bound other) {stage : Nat}
    {rest : List Nat} (hplace : fault.place = stage :: rest) (hstage : stage < 3) :
    fault.Before other := by
  obtain ⟨rest', hplace'⟩ := h.place_eq
  rw [InputError.Before, hplace, hplace']
  exact .rel hstage

/-- Upper rows come before lower ones. -/
theorem RowFault.before_of_row_lt {k : Nat} {row' : List K} {bound' : K}
    (h : RowFault rhsColumn i row bound fault) (h' : RowFault rhsColumn k row' bound' other)
    (hrow : i < k) : fault.Before other := by
  obtain ⟨rest, hplace⟩ := h.place_eq
  obtain ⟨rest', hplace'⟩ := h'.place_eq
  rw [InputError.Before, hplace, hplace']
  exact .cons (.rel hrow)

/-- A row that passes has no fault. -/
theorem not_rowFault_of_checkRow (h : checkRow rhsColumn i row bound = .ok ()) :
    ¬ RowFault rhsColumn i row bound fault := by
  obtain ⟨hrow, hbound, hneg⟩ := checkRow_eq_ok_iff.mp h
  intro hfault
  cases hfault with
  | coefficient hv hbad =>
    exact Bool.false_ne_true (hbad.symm.trans (hrow _ (List.mem_of_getElem? hv)))
  | bound hbad => exact Bool.false_ne_true (hbad.symm.trans hbound)
  | negative hi hlt => exact hneg ⟨hi, hlt⟩

/-- The first coefficient that is no number is the first fault of its row. -/
theorem isFirst_coefficient (hlength : row.length ≤ rhsColumn) {j : Nat}
    (hfind : row.findIdx? (!Cell.isFinite ·) = some j) :
    InputError.IsFirst (RowFault rhsColumn i row bound) (.nonFinite i j) := by
  obtain ⟨hj, hbad, hbefore⟩ := List.findIdx?_eq_some_iff_getElem.mp hfind
  refine ⟨.coefficient (List.getElem?_eq_getElem hj) (by simpa using hbad), fun other hother => ?_⟩
  cases hother with
  | @coefficient k v hv hbad' =>
    obtain ⟨hk, rfl⟩ := List.getElem?_eq_some_iff.mp hv
    obtain hlt | rfl | hlt := Nat.lt_trichotomy k j
    · exact absurd (by simp [hbad']) (hbefore k hlt)
    · exact .inl rfl
    · exact .inr (.cons (.cons (.cons (.rel hlt))))
  | bound _ => exact .inr (.cons (.cons (.cons (.rel (hj.trans_le hlength)))))
  | negative _ _ => exact .inr (.cons (.cons (.rel Nat.zero_lt_one)))

/-- Behind coefficients that are numbers, a bound that is none is the first fault. -/
theorem isFirst_bound (hrow : ∀ v ∈ row, Cell.isFinite v = true)
    (hbound : Cell.isFinite bound = false) :
    InputError.IsFirst (RowFault rhsColumn i row bound) (.nonFinite i rhsColumn) := by
  refine ⟨.bound hbound, fun other hother => ?_⟩
  cases hother with
  | coefficient hv hbad =>
    exact absurd (hbad.symm.trans (hrow _ (List.mem_of_getElem? hv))) Bool.false_ne_true
  | bound _ => exact .inl rfl
  | negative _ _ => exact .inr (.cons (.cons (.rel Nat.zero_lt_one)))

/-- Where all entries are numbers, a bound below zero is the first fault. -/
theorem isFirst_negative (hrow : ∀ v ∈ row, Cell.isFinite v = true)
    (hbound : Cell.isFinite bound = true) (hi : 0 < i) (hneg : bound < 0) :
    InputError.IsFirst (RowFault rhsColumn i row bound) (.negativeRhs i) := by
  refine ⟨.negative hi hneg, fun other hother => ?_⟩
  cases hother with
  | coefficient hv hbad =>
    exact absurd (hbad.symm.trans (hrow _ (List.mem_of_getElem? hv))) Bool.false_ne_true
  | bound hbad => exact absurd (hbad.symm.trans hbound) Bool.false_ne_true
  | negative _ _ => exact .inl rfl

/-- **A row is refused** for the first of its faults. -/
theorem isFirst_of_checkRow (hlength : row.length ≤ rhsColumn)
    (h : checkRow rhsColumn i row bound = .error fault) :
    InputError.IsFirst (RowFault rhsColumn i row bound) fault := by
  rw [checkRow] at h
  cases hfind : row.findIdx? (!Cell.isFinite ·) with
  | some j =>
    rw [hfind] at h
    obtain rfl : InputError.nonFinite i j = fault := Except.error.inj h
    exact isFirst_coefficient hlength hfind
  | none =>
    have hrow : ∀ v ∈ row, Cell.isFinite v = true := by
      simpa using List.findIdx?_eq_none_iff.mp hfind
    rw [hfind] at h
    cases hbound : Cell.isFinite bound with
    | false =>
      obtain rfl : InputError.nonFinite i rhsColumn = fault := by simpa [hbound] using h
      exact isFirst_bound hrow hbound
    | true =>
      by_cases hneg : 0 < i ∧ bound < 0
      · obtain rfl : InputError.negativeRhs i = fault := by simpa [hbound, hneg] using h
        exact isFirst_negative hrow hbound hneg.1 hneg.2
      · simp [hbound, hneg] at h

end Tableau

/-! ### The first fault of a problem -/

namespace Problem

variable {p : Problem K} {fault other : InputError}

/-- A problem that is accepted has no fault. -/
theorem not_hasFault_of_validate (h : p.validate = .ok ()) : ¬ p.HasFault fault := by
  obtain ⟨hshape, hentries⟩ := validate_eq_ok_iff.mp h
  intro hfault
  cases hfault with
  | noVariables hzero => exact hshape.numVariables_ne_zero hzero
  | constraintLength hrow hlength =>
    exact hlength (hshape.length_constraint _ (List.mem_of_getElem? hrow))
  | rhsLength hlength => exact hlength hshape.length_rhs
  | @entry i row bound fault hrow hbound hfault =>
    have hmem : ((row, bound), i) ∈ ((p.objective :: p.constraints).zip (0 :: p.rhs)).zipIdx :=
      List.mk_mem_zipIdx_iff_getElem?.mpr (List.getElem?_zip_eq_some.mpr ⟨hrow, hbound⟩)
    have hcheck := Tableau.checkEntries_eq_ok_iff.mp hentries _ hmem
    exact Tableau.not_rowFault_of_checkRow hcheck hfault

theorem isFirst_noVariables (h : p.numVariables = 0) :
    InputError.IsFirst p.HasFault .noVariables := by
  refine ⟨.noVariables h, fun other hother => ?_⟩
  cases hother with
  | noVariables _ => exact .inl rfl
  | constraintLength _ _ => exact .inr (.rel Nat.zero_lt_one)
  | rhsLength _ => exact .inr (.rel Nat.zero_lt_two)
  | entry _ _ hfault => exact .inr (hfault.before_of_shape rfl (by decide))

theorem isFirst_constraintLength (hvariables : p.numVariables ≠ 0) {i : Nat} {row : List K}
    (hrow : p.constraints[i]? = some row) (hlength : row.length ≠ p.numVariables)
    (hbefore : ∀ k < i, ∀ row, p.constraints[k]? = some row → row.length = p.numVariables) :
    InputError.IsFirst p.HasFault (.constraintLength (i + 1) p.numVariables row.length) := by
  refine ⟨.constraintLength hrow hlength, fun other hother => ?_⟩
  cases hother with
  | noVariables hzero => exact absurd hzero hvariables
  | @constraintLength k row' hrow' hlength' =>
    obtain hlt | rfl | hlt := Nat.lt_trichotomy k i
    · exact absurd (hbefore k hlt row' hrow') hlength'
    · obtain rfl := Option.some.inj (hrow.symm.trans hrow')
      exact .inl rfl
    · exact .inr (.cons (.rel (Nat.succ_lt_succ hlt)))
  | rhsLength _ => exact .inr (.rel Nat.one_lt_two)
  | entry _ _ hfault => exact .inr (hfault.before_of_shape rfl (by decide))

theorem isFirst_rhsLength (hvariables : p.numVariables ≠ 0)
    (hconstraints : ∀ row ∈ p.constraints, row.length = p.numVariables)
    (hlength : p.rhs.length ≠ p.numConstraints) :
    InputError.IsFirst p.HasFault (.rhsLength p.numConstraints p.rhs.length) := by
  refine ⟨.rhsLength hlength, fun other hother => ?_⟩
  cases hother with
  | noVariables hzero => exact absurd hzero hvariables
  | constraintLength hrow hlength' =>
    exact absurd (hconstraints _ (List.mem_of_getElem? hrow)) hlength'
  | rhsLength _ => exact .inl rfl
  | entry _ _ hfault => exact .inr (hfault.before_of_shape rfl (by decide))

/-- If the shapes match, the faults are those of the entries. -/
theorem WellShaped.rowFault (hp : p.WellShaped) (h : p.HasFault fault) :
    ∃ (i : Nat) (row : List K) (bound : K), (p.objective :: p.constraints)[i]? = some row
      ∧ (0 :: p.rhs)[i]? = some bound
      ∧ Tableau.RowFault (p.numVariables + p.numConstraints) i row bound fault := by
  cases h with
  | noVariables hzero => exact absurd hzero hp.numVariables_ne_zero
  | constraintLength hrow hlength =>
    exact absurd (hp.length_constraint _ (List.mem_of_getElem? hrow)) hlength
  | rhsLength hlength => exact absurd hp.length_rhs hlength
  | entry hrow hbound hfault => exact ⟨_, _, _, hrow, hbound, hfault⟩

/-- If the shapes match, the fault that the entries are refused for comes first. -/
theorem isFirst_of_checkEntries (hp : p.WellShaped)
    (h : Tableau.checkEntries p.objective p.constraints 0 p.rhs = .error fault) :
    InputError.IsFirst p.HasFault fault := by
  obtain ⟨i, row, bound, hrow, hbound, hcheck, hbefore⟩ :=
    Tableau.exists_of_checkEntries_eq_error h
  have hlength : row.length ≤ p.numVariables + p.numConstraints := by
    refine Nat.le_add_right_of_le (Nat.le_of_eq ?_)
    obtain rfl | hmem := List.mem_cons.mp (List.mem_of_getElem? hrow)
    · rfl
    · exact hp.length_constraint row hmem
  have hfirst := Tableau.isFirst_of_checkRow hlength hcheck
  refine ⟨.entry hrow hbound hfirst.mem, fun other hother => ?_⟩
  obtain ⟨k, row', bound', hrow', hbound', hother⟩ := hp.rowFault hother
  obtain hlt | rfl | hlt := Nat.lt_trichotomy k i
  · have hcheck' := hbefore k hlt row' bound' hrow' hbound'
    exact absurd hother (Tableau.not_rowFault_of_checkRow hcheck')
  · -- it stands in the same row
    obtain rfl := Option.some.inj (hrow.symm.trans hrow')
    obtain rfl := Option.some.inj (hbound.symm.trans hbound')
    exact hfirst.before other hother
  · exact .inr (hfirst.mem.before_of_row_lt hother hlt)

/-- **The fault that is reported** comes first. -/
theorem isFirst_of_validate (h : p.validate = .error fault) :
    InputError.IsFirst p.HasFault fault := by
  rw [validate, Tableau.checkShape] at h
  by_cases hvariables : p.numVariables = 0
  · obtain rfl : InputError.noVariables = fault := by simpa [hvariables] using h
    exact isFirst_noVariables hvariables
  · cases hlengths : Tableau.checkLengths p.numVariables p.constraints with
    | error fault' =>
      obtain ⟨i, row, hrow, hlength, rfl, hbefore⟩ :=
        Tableau.exists_of_checkLengths_eq_error hlengths
      obtain rfl : _ = fault := by simpa [hvariables, hlengths] using h
      exact isFirst_constraintLength hvariables hrow hlength hbefore
    | ok u =>
      have hconstraints := Tableau.checkLengths_eq_ok_iff.mp hlengths
      by_cases hrhs : p.rhs.length = p.numConstraints
      · refine isFirst_of_checkEntries ⟨hvariables, hconstraints, hrhs⟩ ?_
        simpa [hvariables, hlengths, hrhs] using h
      · obtain rfl : _ = fault := by simpa [hvariables, hlengths, hrhs] using h
        exact isFirst_rhsLength hvariables hconstraints hrhs

/-! ### Problems without faults -/

/-- If the shapes match, each row has something in the place of its bound. -/
theorem WellShaped.exists_bound (hp : p.WellShaped) {i : Nat} {row : List K}
    (hrow : (p.objective :: p.constraints)[i]? = some row) :
    ∃ bound, (0 :: p.rhs)[i]? = some bound := by
  obtain ⟨hi, -⟩ := List.getElem?_eq_some_iff.mp hrow
  have hlength : p.rhs.length = p.constraints.length := hp.length_rhs
  exact ⟨_, List.getElem?_eq_getElem (by simpa [hlength] using hi)⟩

omit [Cell K] in
/-- If the shapes match, each bound is that of a row. -/
theorem WellShaped.exists_row (hp : p.WellShaped) {i : Nat} {bound : K}
    (hbound : p.rhs[i]? = some bound) :
    ∃ row, (p.objective :: p.constraints)[i + 1]? = some row := by
  obtain ⟨hi, -⟩ := List.getElem?_eq_some_iff.mp hbound
  have hlength : p.rhs.length = p.constraints.length := hp.length_rhs
  exact ⟨_, List.getElem?_eq_getElem (by simpa [hlength] using hi)⟩

/-- Where 0 is a number, a problem that is valid has no fault. -/
theorem Valid.not_hasFault (hzero : Cell.isFinite (0 : K) = true) (h : p.Valid) :
    ¬ p.HasFault fault := by
  intro hfault
  obtain ⟨i, row, bound, hrow, hbound, hfault⟩ := h.toWellShaped.rowFault hfault
  cases hfault with
  | coefficient hv hbad =>
    have hfinite :=
      h.finite_coefficients row (List.mem_of_getElem? hrow) _ (List.mem_of_getElem? hv)
    exact Bool.false_ne_true (hbad.symm.trans hfinite)
  | bound hbad =>
    have hfinite : Cell.isFinite bound = true := by
      obtain rfl | hmem := List.mem_cons.mp (List.mem_of_getElem? hbound)
      · exact hzero
      · exact h.finite_rhs bound hmem
    exact Bool.false_ne_true (hbad.symm.trans hfinite)
  | negative hi hneg =>
    obtain ⟨k, rfl⟩ := Nat.exists_eq_succ_of_ne_zero (Nat.pos_iff_ne_zero.mp hi)
    exact h.rhs_nonneg bound (List.mem_of_getElem? hbound) hneg

/-- **Validation is exact**, where 0 is a number. -/
theorem validate_eq_ok_iff_valid (hzero : Cell.isFinite (0 : K) = true) :
    p.validate = .ok () ↔ p.Valid := by
  constructor
  · intro h
    have hp := (validate_eq_ok_iff.mp h).1
    have hnone : ∀ fault, ¬ p.HasFault fault := fun fault => not_hasFault_of_validate h
    refine ⟨hp, fun row hmem v hv => ?_, fun b hb => ?_, fun b hb hneg => ?_⟩
    · obtain ⟨i, hi⟩ := List.getElem?_of_mem hmem
      obtain ⟨j, hj⟩ := List.getElem?_of_mem hv
      obtain ⟨bound, hbound⟩ := hp.exists_bound hi
      by_contra hbad
      exact hnone _ (.entry hi hbound (.coefficient hj (Bool.eq_false_iff.mpr hbad)))
    · obtain ⟨i, hi⟩ := List.getElem?_of_mem hb
      obtain ⟨row, hrow⟩ := hp.exists_row hi
      by_contra hbad
      exact hnone _ (.entry hrow hi (.bound (Bool.eq_false_iff.mpr hbad)))
    · obtain ⟨i, hi⟩ := List.getElem?_of_mem hb
      obtain ⟨row, hrow⟩ := hp.exists_row hi
      exact hnone _ (.entry hrow hi (.negative (Nat.succ_pos i) hneg))
  · intro h
    cases hvalidate : p.validate with
    | ok u => rfl
    | error fault =>
      exact absurd (isFirst_of_validate hvalidate).mem (h.not_hasFault hzero)

/-- **Validation reports the first fault**, and no other one. -/
theorem validate_eq_error_iff :
    p.validate = .error fault ↔ InputError.IsFirst p.HasFault fault := by
  refine ⟨isFirst_of_validate, fun h => ?_⟩
  cases hvalidate : p.validate with
  | ok u => exact absurd h.mem (not_hasFault_of_validate hvalidate)
  | error fault' => rw [(isFirst_of_validate hvalidate).unique h]

/-! ### What else is refused -/

/-- Where negation keeps the finite numbers finite, building the tableau refuses what validation
    refuses. -/
theorem tableau_eq_error_iff (hneg : ∀ x : K, Cell.isFinite (-x) = Cell.isFinite x) :
    p.tableau = .error fault ↔ p.validate = .error fault := by
  refine ⟨fun h => ?_, tableau_of_validate_error⟩
  cases hvalidate : p.validate with
  | ok u =>
    rw [tableau_eq_unchecked hneg hvalidate] at h
    exact absurd h nofun
  | error fault' =>
    rw [tableau_of_validate_error hvalidate] at h
    rw [Except.error.inj h]

/-- Solving fails only where there is no tableau to start from. -/
theorem solve_eq_error_iff {s : Solver K} {failure : Failure} :
    s.solve p = .error failure
      ↔ ∃ fault, failure = .refused fault ∧ p.tableau = .error fault := by
  cases htableau : p.tableau with
  | error fault' => simp [s.solve_of_refused htableau, eq_comm]
  | ok t =>
    obtain ⟨_, _, _, -, -, -, -, hsolve⟩ := Run.start_ok s (wellShaped_of_tableau htableau)
    simp [s.solve_of_tableau htableau, hsolve, Except.mapError]

end Problem

end Faults

/-! ### Problems over doubles -/

/-- **Validation is exact and shared.** Over doubles a problem is accepted exactly if it is valid,
    and otherwise it is refused for the first of its faults.  Building the tableau and solving
    refuse what validation refuses, with the same fault, and the checks that building a tableau
    makes on its own accept what validation accepts. -/
theorem Problem.validate_exact_and_shared (s : Solver Float) (p : Problem Float) :
    (p.validate = .ok () ↔ p.Valid)
      ∧ (∀ fault, p.validate = .error fault ↔ InputError.IsFirst p.HasFault fault)
      ∧ (∀ fault, p.tableau = .error fault ↔ p.validate = .error fault)
      ∧ (∀ failure, s.solve p = .error failure
        ↔ ∃ fault, failure = .refused fault ∧ p.validate = .error fault)
      ∧ (p.validate = .ok ()
        ↔ ∃ t, Tableau.initial (p.objective.map (-·)) p.constraints (0 :: p.rhs) = .ok t) := by
  have hzero : Cell.isFinite (0 : Float) = true := by decide +kernel
  have hneg : ∀ x : Float, Cell.isFinite (-x) = Cell.isFinite x := isFinite_neg
  refine ⟨validate_eq_ok_iff_valid hzero, fun fault => validate_eq_error_iff,
    fun fault => tableau_eq_error_iff hneg, fun failure => ?_, validate_eq_ok_iff_initial hneg⟩
  rw [solve_eq_error_iff]
  simp only [tableau_eq_error_iff hneg]

/-- A problem with a fault in each row: the bound of the first constraint is below zero, and the
    second one has a coefficient that is no number and a bound that is infinite. -/
def faultyRows : Problem Float where
  objective := [1, 1]
  constraints := [[1, 0], [0, 0 / 0]]
  rhs := [-1, 1 / 0]

theorem validate_exact_and_shared_faultyRows :
    faultyRows.HasFault (.nonFinite 2 1) ∧ faultyRows.HasFault (.nonFinite 2 4)
      ∧ InputError.IsFirst faultyRows.HasFault (.negativeRhs 1)
      ∧ Solver.standard.solve faultyRows = .error (.refused (.negativeRhs 1)) := by
  have hvalidate : faultyRows.validate = .error (.negativeRhs 1) := by decide +kernel
  have hcoefficient : Cell.isFinite (0 / 0 : Float) = false := by decide +kernel
  have hbound : Cell.isFinite (1 / 0 : Float) = false := by decide +kernel
  obtain ⟨-, hfirst, -, hsolve, -⟩ := faultyRows.validate_exact_and_shared Solver.standard
  exact ⟨.entry (i := 2) rfl rfl (.coefficient (j := 1) rfl hcoefficient),
    .entry (i := 2) rfl rfl (.bound hbound), (hfirst _).mp hvalidate,
    (hsolve _).mpr ⟨_, rfl, hvalidate⟩⟩

end SimplexTableau

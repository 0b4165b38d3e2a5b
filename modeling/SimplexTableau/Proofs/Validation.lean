import SimplexTableau.Proofs.Access
import SimplexTableau.Problem

namespace SimplexTableau

/-!
# What validation accepts

A problem is checked for its shape first and then row by row for its entries.  Each check is
restated here as the condition that it tests:

* `Problem.WellShaped` — the lists of a problem fit together;
* `checkShape_eq_ok_iff` — there is a variable, every constraint has a coefficient for each, and
  the bounds are as many as expected;
* `checkRow_eq_ok_iff` — the numbers of a row are finite, and its bound is not below zero;
* `exists_of_checkLengths_eq_error`, `exists_of_checkEntries_eq_error` — where they fail;
* `Problem.validate_eq_ok_iff` — a problem is accepted if it passes both;
* `Tableau.unchecked` — the tableau of lists that fit together; `initial_eq_ok_iff`: building it
  checks them, and `wellShaped_of_initial`: what is built has its parts;
* `Problem.validate_eq_ok_iff_initial` — what validation accepts passes the checks of the tableau.
-/

variable {K : Type}

/-- The lists of a problem fit together: there is a variable, every constraint has a coefficient
    for each variable, and there is one bound per constraint. -/
structure Problem.WellShaped (p : Problem K) : Prop where
  /-- There is something to decide. -/
  numVariables_ne_zero : p.numVariables ≠ 0
  /-- Each constraint has a coefficient for every variable. -/
  length_constraint : ∀ row ∈ p.constraints, row.length = p.numVariables
  /-- There is one bound per constraint. -/
  length_rhs : p.rhs.length = p.numConstraints

namespace Tableau

theorem checkLengths_eq_ok_iff {n : Nat} {constraints : List (List K)} :
    checkLengths n constraints = .ok () ↔ ∀ row ∈ constraints, row.length = n := by
  rw [checkLengths, forM_eq_ok_iff]
  constructor
  · intro h row hrow
    obtain ⟨i, hi, rfl⟩ := List.getElem_of_mem hrow
    have hmem : (constraints[i], 1 + i) ∈ constraints.zipIdx 1 :=
      List.mk_add_mem_zipIdx_iff_getElem?.mpr (by simp [hi])
    have hcheck := h _ hmem
    by_cases hlen : constraints[i].length = n
    · exact hlen
    · simp [hlen] at hcheck
  · intro h e he
    simp [h e.1 (List.fst_mem_of_mem_zipIdx he)]

/-- **The lengths are refused** for the first constraint that has another one. -/
theorem exists_of_checkLengths_eq_error {n : Nat} {constraints : List (List K)}
    {fault : InputError} (h : checkLengths n constraints = .error fault) :
    ∃ (k : Nat) (row : List K), constraints[k]? = some row ∧ row.length ≠ n
      ∧ fault = .constraintLength (k + 1) n row.length
      ∧ ∀ l < k, ∀ row, constraints[l]? = some row → row.length = n := by
  obtain ⟨k, ⟨row, i⟩, hmem, hfault, hbefore⟩ := exists_of_forM_eq_error h
  rw [List.getElem?_zipIdx, Option.map_eq_some_iff] at hmem
  obtain ⟨row, hrow, heq⟩ := hmem
  obtain ⟨rfl, rfl⟩ := Prod.mk.inj heq
  have hlength : row.length ≠ n := fun hlength => by simp [hlength] at hfault
  refine ⟨k, row, hrow, hlength, ?_, fun l hl row' hrow' => ?_⟩
  · rw [Nat.add_comm k 1]
    simpa [hlength] using hfault.symm
  · have hok := hbefore l hl (row', 1 + l) (by rw [List.getElem?_zipIdx, hrow']; rfl)
    by_cases hlength' : row'.length = n
    · exact hlength'
    · simp [hlength'] at hok

theorem checkShape_eq_ok_iff {n expected found : Nat} {constraints : List (List K)} :
    checkShape n constraints expected found = .ok ()
      ↔ n ≠ 0 ∧ (∀ row ∈ constraints, row.length = n) ∧ found = expected := by
  rw [← checkLengths_eq_ok_iff]
  simp only [checkShape]
  by_cases hn : n = 0
  · simp [hn]
  · cases hlen : checkLengths n constraints with
    | error e => simp [hn]
    | ok u => by_cases hfound : found = expected <;> simp [hn, hfound]

variable [Cell K]

theorem checkRow_eq_ok_iff {rhsColumn i : Nat} {row : List K} {bound : K} :
    checkRow rhsColumn i row bound = .ok ()
      ↔ (∀ v ∈ row, Cell.isFinite v = true) ∧ Cell.isFinite bound = true
        ∧ ¬ (0 < i ∧ bound < 0) := by
  simp only [checkRow]
  cases hfind : row.findIdx? (!Cell.isFinite ·) with
  | some j =>
    obtain ⟨hj, hbad, _⟩ := List.findIdx?_eq_some_iff_getElem.mp hfind
    have hnot : ¬ ∀ v ∈ row, Cell.isFinite v = true := by
      intro h
      simp [h _ (List.getElem_mem hj)] at hbad
    simp [hnot]
  | none =>
    have hall : ∀ v ∈ row, Cell.isFinite v = true := by
      simpa using List.findIdx?_eq_none_iff.mp hfind
    by_cases hb : Cell.isFinite bound = true
    · by_cases hneg : 0 < i ∧ bound < 0
      · simp [hb, hneg]
      · simp only [hb, hneg]
        simpa using hall
    · simp [hb]

theorem checkEntries_eq_ok_iff {objective : List K} {constraints : List (List K)} {value : K}
    {bounds : List K} :
    checkEntries objective constraints value bounds = .ok ()
      ↔ ∀ e ∈ ((objective :: constraints).zip (value :: bounds)).zipIdx,
          checkRow (objective.length + constraints.length) e.2 e.1.1 e.1.2 = .ok () := by
  rw [checkEntries, forM_eq_ok_iff]

/-- **The entries are refused** for the first row that does not pass. -/
theorem exists_of_checkEntries_eq_error {objective : List K} {constraints : List (List K)}
    {value : K} {bounds : List K} {fault : InputError}
    (h : checkEntries objective constraints value bounds = .error fault) :
    ∃ (k : Nat) (row : List K) (bound : K), (objective :: constraints)[k]? = some row
      ∧ (value :: bounds)[k]? = some bound
      ∧ checkRow (objective.length + constraints.length) k row bound = .error fault
      ∧ ∀ l < k, ∀ row bound, (objective :: constraints)[l]? = some row
        → (value :: bounds)[l]? = some bound
        → checkRow (objective.length + constraints.length) l row bound = .ok () := by
  obtain ⟨k, ⟨⟨row, bound⟩, i⟩, hmem, hfault, hbefore⟩ := exists_of_forM_eq_error h
  rw [List.getElem?_zipIdx, Option.map_eq_some_iff] at hmem
  obtain ⟨_, hmem, heq⟩ := hmem
  obtain ⟨rfl, rfl⟩ := Prod.mk.inj heq
  obtain ⟨hrow, hbound⟩ := List.getElem?_zip_eq_some.mp hmem
  rw [Nat.zero_add] at hfault
  refine ⟨k, row, bound, hrow, hbound, hfault, fun l hl row' bound' hrow' hbound' => ?_⟩
  have hmem' : ((objective :: constraints).zip (value :: bounds))[l]? = some (row', bound') :=
    List.getElem?_zip_eq_some.mpr ⟨hrow', hbound'⟩
  exact hbefore l hl ((row', bound'), l) (by rw [List.getElem?_zipIdx, hmem', Nat.zero_add]; rfl)

/-- Where negation keeps the finite numbers finite, it does not matter to the checks. -/
theorem checkEntries_map_neg (hneg : ∀ x : K, Cell.isFinite (-x) = Cell.isFinite x)
    (objective : List K) (constraints : List (List K)) (value : K) (bounds : List K) :
    checkEntries (objective.map (-·)) constraints value bounds
      = checkEntries objective constraints value bounds := by
  have hfind : (objective.map (-·)).findIdx? (!Cell.isFinite ·)
      = objective.findIdx? (!Cell.isFinite ·) := by
    rw [List.findIdx?_map]
    simp only [Function.comp_def, hneg]
  have hrow : checkRow (objective.length + constraints.length) 0 (objective.map (-·)) value
      = checkRow (objective.length + constraints.length) 0 objective value := by
    rw [checkRow, hfind]
    rfl
  simp only [checkEntries, List.length_map, List.zip_cons_cons, List.zipIdx_cons]
  -- only the first row, that of the objective, differs
  show (checkRow _ 0 (objective.map (-·)) value >>= _) = (checkRow _ 0 objective value >>= _)
  rw [hrow]

/-! ### Tableaus of lists -/

/-- The tableau of an objective row, constraints and right-hand sides that were not checked. -/
def unchecked (objective : List K) (constraints : List (List K)) (value : K) (bounds : List K) :
    Tableau K where
  rows := ((initialRows objective constraints value bounds).map List.toArray).toArray
  columns := (Column.table objective.length constraints.length).toArray
  numStructural := objective.length
  numSlack := constraints.length

theorem length_of_mem_initialRows {objective : List K} {constraints : List (List K)} {value : K}
    {bounds : List K} (h : ∀ row ∈ constraints, row.length = objective.length) :
    ∀ row ∈ initialRows objective constraints value bounds,
      row.length = objective.length + constraints.length + 1 := by
  intro row hrow
  rcases List.mem_cons.mp hrow with rfl | hrow
  · simp [Nat.add_assoc]
  · obtain ⟨⟨⟨coefficients, bound⟩, i⟩, hmem, rfl⟩ := List.mem_map.mp hrow
    have hconstraint := (List.of_mem_zip (List.fst_mem_of_mem_zipIdx hmem)).1
    simp [slackCells, h coefficients hconstraint, Nat.add_assoc]

/-- If each constraint has a coefficient for every variable, the tableau has its parts. -/
theorem wellShaped_unchecked {objective : List K} {constraints : List (List K)}
    (h : ∀ row ∈ constraints, row.length = objective.length) (value : K) (bounds : List K) :
    (unchecked objective constraints value bounds).WellShaped where
  rows_pos := by simp [unchecked, initialRows]
  size_row := by
    intro r hr
    obtain ⟨row, hrow, rfl⟩ := List.mem_map.mp (List.mem_toArray.mp hr)
    simpa [unchecked] using length_of_mem_initialRows h row hrow

/-- **Building a tableau** gives the one of the lists if they pass the checks. -/
theorem initial_eq_ok_iff {objective : List K} {constraints : List (List K)} {value : K}
    {bounds : List K} {t : Tableau K} :
    initial objective constraints (value :: bounds) = .ok t
      ↔ checkShape objective.length constraints (constraints.length + 1) (bounds.length + 1)
          = .ok ()
        ∧ checkEntries objective constraints value bounds = .ok ()
        ∧ unchecked objective constraints value bounds = t := by
  simp only [initial, List.length_cons, List.headD_cons, List.tail_cons]
  cases checkShape objective.length constraints (constraints.length + 1) (bounds.length + 1) with
  | error e => simp
  | ok u =>
    cases checkEntries objective constraints value bounds with
    | error e => simp
    | ok u => simp [unchecked]

/-- What is built has its parts. -/
theorem wellShaped_of_initial {objective : List K} {constraints : List (List K)} {rhs : List K}
    {t : Tableau K} (h : initial objective constraints rhs = .ok t) : t.WellShaped := by
  cases rhs with
  | nil =>
    -- the right-hand side of the objective row is missing
    have hshape : checkShape objective.length constraints (constraints.length + 1) 0
        ≠ .ok () := fun hshape => absurd (checkShape_eq_ok_iff.mp hshape).2.2 nofun
    rw [initial] at h
    simp only [List.length_nil] at h
    cases hcheck : checkShape objective.length constraints (constraints.length + 1) 0 with
    | error e => simp [hcheck] at h
    | ok u => exact absurd hcheck hshape
  | cons value bounds =>
    obtain ⟨hshape, -, rfl⟩ := initial_eq_ok_iff.mp h
    exact wellShaped_unchecked (checkShape_eq_ok_iff.mp hshape).2.1 value bounds

end Tableau

namespace Problem

variable [Cell K]

/-- A problem is accepted exactly when its lists fit together and its entries pass. -/
theorem validate_eq_ok_iff {p : Problem K} :
    p.validate = .ok ()
      ↔ p.WellShaped ∧ Tableau.checkEntries p.objective p.constraints 0 p.rhs = .ok () := by
  have hshape : Tableau.checkShape p.numVariables p.constraints p.numConstraints p.rhs.length
      = .ok () ↔ p.WellShaped := by
    rw [Tableau.checkShape_eq_ok_iff]
    constructor
    · intro ⟨hvariables, hconstraints, hrhs⟩
      exact ⟨hvariables, hconstraints, hrhs⟩
    · intro ⟨hvariables, hconstraints, hrhs⟩
      exact ⟨hvariables, hconstraints, hrhs⟩
  rw [← hshape, validate]
  cases Tableau.checkShape p.numVariables p.constraints p.numConstraints p.rhs.length with
  | error e => simp
  | ok u => simp

/-! ### The tableau of a problem -/

variable {p : Problem K}

/-- A problem that is not valid has no tableau. -/
theorem tableau_of_validate_error {fault : InputError} (h : p.validate = .error fault) :
    p.tableau = .error fault := by
  rw [tableau, h]
  rfl

/-- The tableau of a problem has its parts. -/
theorem wellShaped_of_tableau {t : Tableau K} (h : p.tableau = .ok t) : t.WellShaped := by
  cases hp : p.validate with
  | error fault =>
    rw [tableau_of_validate_error hp] at h
    exact absurd h nofun
  | ok u =>
    rw [tableau, hp, ok_bind] at h
    exact Tableau.wellShaped_of_initial h

/-- **The second round of checks**, on the negated objective, accepts what validation accepts, where
    negation keeps the finite numbers finite. -/
theorem validate_eq_ok_iff_initial (hneg : ∀ x : K, Cell.isFinite (-x) = Cell.isFinite x) :
    p.validate = .ok ()
      ↔ ∃ t, Tableau.initial (p.objective.map (-·)) p.constraints (0 :: p.rhs) = .ok t := by
  simp only [validate_eq_ok_iff, Tableau.initial_eq_ok_iff, Tableau.checkShape_eq_ok_iff,
    Tableau.checkEntries_map_neg hneg, List.length_map]
  constructor
  · intro ⟨hshape, hentries⟩
    exact ⟨_, ⟨hshape.numVariables_ne_zero, hshape.length_constraint,
      congrArg (· + 1) hshape.length_rhs⟩, hentries, rfl⟩
  · intro ⟨_, ⟨hvariables, hconstraints, hrhs⟩, hentries, _⟩
    exact ⟨⟨hvariables, hconstraints, Nat.succ.inj hrhs⟩, hentries⟩

/-- The tableau of a valid problem is that of its lists. -/
theorem tableau_eq_unchecked (hneg : ∀ x : K, Cell.isFinite (-x) = Cell.isFinite x)
    (hp : p.validate = .ok ()) :
    p.tableau = .ok (.unchecked (p.objective.map (-·)) p.constraints 0 p.rhs) := by
  obtain ⟨t, ht⟩ := (validate_eq_ok_iff_initial hneg).mp hp
  obtain ⟨-, -, rfl⟩ := Tableau.initial_eq_ok_iff.mp ht
  rw [tableau, hp, ok_bind]
  exact ht

end Problem

end SimplexTableau

import SimplexTableau.Pivot

namespace SimplexTableau

/-!
# Well-shaped tableaus as tables

Every access to a tableau is checked, and on a tableau of consistent shape every check passes.
This file reads such a tableau as a total table of entries:

* `Tableau.entry` — the cell of a row in a column, 0 outside the table;
* `cell_eq`, `rhs_eq`, `objectiveCells_eq` — a checked access inside the table gives the entry;
* `Tableau.Roomy` — the rows are long enough for that, though they may differ in length;
* `Tableau.pivoted` — the table after a pivot, and `pivot_eq_ok_iff`: inside the table, and only
  there, the checked pivot gives it;
* `WellShaped.pivoted`, `SameFrame.pivoted` — a pivot keeps the shape, and it changes cells only.

Nothing here depends on the arithmetic of the cells.
-/

/-! ### Checked computations that succeed -/

section Checked

variable {ε α β : Type}

/-- What follows a success goes on with its result. -/
@[simp] theorem ok_bind (a : α) (f : α → Except ε β) : (Except.ok a >>= f) = f a := rfl

/-- What follows a failure is not run. -/
@[simp] theorem error_bind (e : ε) (f : α → Except ε β) :
    ((Except.error e : Except ε α) >>= f) = .error e := rfl

@[simp] theorem pure_eq_ok (a : α) : (pure a : Except ε α) = .ok a := rfl

@[simp] theorem throw_eq_error (e : ε) : (throw e : Except ε α) = .error e := rfl

/-- What succeeds goes through a success first. -/
theorem bind_eq_ok_iff {x : Except ε α} {f : α → Except ε β} {b : β} :
    (x >>= f) = .ok b ↔ ∃ a, x = .ok a ∧ f a = .ok b := by
  cases x with
  | error e => simp
  | ok a => simp

/-- A check of every element succeeds exactly when each of them passes. -/
theorem forM_eq_ok_iff {f : α → Except ε Unit} {l : List α} :
    l.forM f = .ok () ↔ ∀ a ∈ l, f a = .ok () := by
  induction l with
  | nil => simp [List.forM]
  | cons a rest ih =>
    rw [List.forall_mem_cons]
    -- the rest is checked only if the first element passes
    show (f a >>= fun _ => rest.forM f) = _ ↔ _
    cases hfa : f a with
    | error e => simp
    | ok u => simpa using ih

/-- A check of every element fails with the first one that fails. -/
theorem exists_of_forM_eq_error {f : α → Except ε Unit} {l : List α} {e : ε}
    (h : l.forM f = .error e) :
    ∃ (i : Nat) (a : α), l[i]? = some a ∧ f a = .error e
      ∧ ∀ k < i, ∀ b, l[k]? = some b → f b = .ok () := by
  induction l with
  | nil => exact absurd h nofun
  | cons a rest ih =>
    have h : (f a >>= fun _ => rest.forM f) = .error e := h
    cases hfa : f a with
    | error e' =>
      rw [hfa, error_bind] at h
      exact ⟨0, a, rfl, hfa.trans h, fun k hk => absurd hk (Nat.not_lt_zero k)⟩
    | ok u =>
      rw [hfa, ok_bind] at h
      obtain ⟨i, b, hb, hfail, hbefore⟩ := ih h
      refine ⟨i + 1, b, hb, hfail, fun k hk c hc => ?_⟩
      cases k with
      | zero =>
        obtain rfl := Option.some.inj hc
        exact hfa
      | succ k => exact hbefore k (Nat.lt_of_succ_lt_succ hk) c hc

/-- If `f` succeeds with `g` on every element, so does `mapM`. -/
theorem mapM_eq_ok {f : α → Except ε β} {g : α → β} {l : List α}
    (h : ∀ a ∈ l, f a = .ok (g a)) : l.mapM f = .ok (l.map g) := by
  induction l with
  | nil => rfl
  | cons a rest ih =>
    rw [List.mapM_cons, h a List.mem_cons_self, ih fun b hb => h b (List.mem_cons_of_mem _ hb)]
    rfl

/-- If `f` succeeds with `g` on every element, so does the fold. -/
theorem foldlM_eq_ok {f : β → α → Except ε β} {g : β → α → β} {l : List α}
    (h : ∀ b, ∀ a ∈ l, f b a = .ok (g b a)) (b : β) : l.foldlM f b = .ok (l.foldl g b) := by
  induction l generalizing b with
  | nil => rfl
  | cons a rest ih =>
    rw [List.foldlM_cons, h b a List.mem_cons_self, ok_bind,
      ih fun b c hc => h b c (List.mem_cons_of_mem _ hc)]
    rfl

end Checked

namespace Tableau

variable {K : Type}

/-! ### Frames -/

/-- `u` has the variables of `t` and as many rows; only the cells may differ. -/
structure SameFrame (t u : Tableau K) : Prop where
  /-- There are as many rows. -/
  numRows_eq : u.numRows = t.numRows
  /-- The column tables agree. -/
  columns_eq : u.columns = t.columns
  /-- There are as many decision variables. -/
  numStructural_eq : u.numStructural = t.numStructural
  /-- There are as many slack variables. -/
  numSlack_eq : u.numSlack = t.numSlack

theorem SameFrame.refl (t : Tableau K) : t.SameFrame t := ⟨rfl, rfl, rfl, rfl⟩

theorem SameFrame.symm {t u : Tableau K} (h : t.SameFrame u) : u.SameFrame t :=
  ⟨h.numRows_eq.symm, h.columns_eq.symm, h.numStructural_eq.symm, h.numSlack_eq.symm⟩

theorem SameFrame.trans {t u v : Tableau K} (h : t.SameFrame u) (h' : u.SameFrame v) :
    t.SameFrame v :=
  ⟨h'.numRows_eq.trans h.numRows_eq, h'.columns_eq.trans h.columns_eq,
    h'.numStructural_eq.trans h.numStructural_eq, h'.numSlack_eq.trans h.numSlack_eq⟩

theorem SameFrame.rhsColumn_eq {t u : Tableau K} (h : t.SameFrame u) :
    u.rhsColumn = t.rhsColumn := by
  rw [rhsColumn, rhsColumn, h.columns_eq]

theorem SameFrame.numColumns_eq {t u : Tableau K} (h : t.SameFrame u) :
    u.numColumns = t.numColumns := by
  rw [numColumns, numColumns, h.columns_eq]

/-! ### Entries -/

theorem WellShaped.numRows_pos {t : Tableau K} (ht : t.WellShaped) : 0 < t.numRows := ht.rows_pos

/-- The cells of a row inside the table are one more than the variables. -/
theorem WellShaped.size_getElem {t : Tableau K} (ht : t.WellShaped) {i : Nat}
    (hi : i < t.rows.size) : t.rows[i].size = t.numColumns :=
  ht.size_row _ (Array.getElem_mem hi)

theorem rhsColumn_lt_numColumns (t : Tableau K) : t.rhsColumn < t.numColumns :=
  Nat.lt_succ_self _

/-- A column of a variable is a stored column. -/
theorem lt_numColumns {t : Tableau K} {j : Nat} (hj : j < t.rhsColumn) : j < t.numColumns :=
  Nat.lt_succ_of_lt hj

/-- The variable of column `j`. -/
def columnAt (t : Tableau K) (j : Nat) : Column := t.columns.getD j default

/-- A checked access to a variable gives it. -/
theorem column_eq (t : Tableau K) {j : Nat} (hj : j < t.rhsColumn) :
    t.column j = .ok (t.columnAt j) := by
  have hj' : j < t.columns.size := hj
  simp [column, columnAt, hj']

/-- A checked access that succeeds is inside the table. -/
theorem WellShaped.inside_of_cell {t : Tableau K} (ht : t.WellShaped) {i j : Nat} {v : K}
    (h : t.cell i j = .ok v) : i < t.numRows ∧ j < t.numColumns := by
  cases hrow : t.rows[i]? with
  | none => simp [cell, row, hrow] at h
  | some r =>
    obtain ⟨hi, rfl⟩ := Array.getElem?_eq_some_iff.mp hrow
    cases hcell : t.rows[i][j]? with
    | none => simp [cell, row, hrow, cellIn, hcell] at h
    | some w =>
      obtain ⟨hj, -⟩ := Array.getElem?_eq_some_iff.mp hcell
      rw [ht.size_getElem hi] at hj
      exact ⟨hi, hj⟩

/-! ### Rows of different lengths -/

/-- There is an objective row, and it is longer than the column table.  If there is any variable,
    so are the other rows. -/
structure Roomy (t : Tableau K) : Prop where
  /-- There is an objective row. -/
  rows_pos : 0 < t.rows.size
  /-- It is long enough, and so are the others if there is a variable. -/
  lt_size : ∀ i (hi : i < t.rows.size), i = 0 ∨ 0 < t.rhsColumn → t.rhsColumn < t.rows[i].size

theorem WellShaped.roomy {t : Tableau K} (ht : t.WellShaped) : t.Roomy where
  rows_pos := ht.rows_pos
  lt_size i hi _ := by
    rw [ht.size_getElem hi]
    exact t.rhsColumn_lt_numColumns

variable [Cell K]

/-! ### Cells -/

/-- The cell of row `i` in column `j`; 0 where there is none. -/
def entry (t : Tableau K) (i j : Nat) : K := (t.rows.getD i #[]).getD j 0

/-- Inside the table, an entry is the cell that is stored there. -/
theorem entry_eq_getElem {t : Tableau K} {i j : Nat} (hi : i < t.rows.size)
    (hj : j < t.rows[i].size) : t.entry i j = t.rows[i][j] := by
  simp [entry, hi, hj]

/-- Where a row has the cell, a checked access gives the entry. -/
theorem cell_eq_entry {t : Tableau K} {i j : Nat} (hi : i < t.rows.size)
    (hj : j < t.rows[i].size) : t.cell i j = .ok (t.entry i j) := by
  have hrow : t.rows[i]? = some t.rows[i] := Array.getElem?_eq_getElem hi
  have hcell : t.rows[i][j]? = some t.rows[i][j] := Array.getElem?_eq_getElem hj
  simp only [cell, row, hrow, ok_bind, cellIn, hcell, entry_eq_getElem hi hj]

/-- A checked access inside the table gives the entry. -/
theorem WellShaped.cell_eq {t : Tableau K} (ht : t.WellShaped) {i j : Nat} (hi : i < t.numRows)
    (hj : j < t.numColumns) : t.cell i j = .ok (t.entry i j) := by
  have hi' : i < t.rows.size := hi
  exact cell_eq_entry hi' (by rw [ht.size_getElem hi']; exact hj)

theorem WellShaped.rhs_eq {t : Tableau K} (ht : t.WellShaped) {i : Nat} (hi : i < t.numRows) :
    t.rhs i = .ok (t.entry i t.rhsColumn) :=
  ht.cell_eq hi t.rhsColumn_lt_numColumns

/-! ### Access to rows that are long enough -/

/-- A checked access gives the entry in the objective row, and in every row if there is a
    variable. -/
theorem Roomy.cell_eq {t : Tableau K} (ht : t.Roomy) {i j : Nat} (hi : i < t.numRows)
    (hj : j ≤ t.rhsColumn) (hrow : i = 0 ∨ 0 < t.rhsColumn) : t.cell i j = .ok (t.entry i j) :=
  cell_eq_entry hi (Nat.lt_of_le_of_lt hj (ht.lt_size i hi hrow))

theorem Roomy.rhs_eq {t : Tableau K} (ht : t.Roomy) {i : Nat} (hi : i < t.numRows)
    (hrow : i = 0 ∨ 0 < t.rhsColumn) : t.rhs i = .ok (t.entry i t.rhsColumn) :=
  ht.cell_eq hi (Nat.le_refl _) hrow

theorem Roomy.objectiveValue_eq {t : Tableau K} (ht : t.Roomy) :
    t.objectiveValue = .ok (t.entry 0 t.rhsColumn) :=
  ht.rhs_eq ht.rows_pos (.inl rfl)

theorem WellShaped.objectiveValue_eq {t : Tableau K} (ht : t.WellShaped) :
    t.objectiveValue = .ok (t.entry 0 t.rhsColumn) :=
  ht.roomy.objectiveValue_eq

/-- The objective cells are the entries of row 0 in the columns of the variables. -/
theorem Roomy.objectiveCells_eq {t : Tableau K} (ht : t.Roomy) :
    t.objectiveCells = .ok ((List.range t.rhsColumn).map (t.entry 0)) := by
  have hpos : 0 < t.rows.size := ht.rows_pos
  have hsize : t.rhsColumn < t.rows[0].size := ht.lt_size 0 hpos (.inl rfl)
  have hrow : t.rows[0]? = some t.rows[0] := Array.getElem?_eq_getElem hpos
  have hcells : t.rows[0].toList.take t.rhsColumn = (List.range t.rhsColumn).map (t.entry 0) := by
    -- what comes after the cells of the variables is left out
    refine List.ext_getElem (by simp [Nat.min_eq_left (Nat.le_of_lt hsize)]) fun j h _ => ?_
    have hj : j < t.rows[0].size := by simp at h; omega
    simp [entry_eq_getElem hpos hj]
  simp only [objectiveCells, row, hrow, ok_bind, hcells]
  rw [if_pos (by omega)]
  rfl

theorem WellShaped.objectiveCells_eq {t : Tableau K} (ht : t.WellShaped) :
    t.objectiveCells = .ok ((List.range t.rhsColumn).map (t.entry 0)) :=
  ht.roomy.objectiveCells_eq

/-! ### The table after a pivot -/

/-- The tableau with column `j` made a unit column with its 1 in row `i`. -/
def pivoted (t : Tableau K) (i j : Nat) : Tableau K :=
  { t with rows := pivotRows t.rows i j (t.entry i j) }

@[simp] theorem columns_pivoted (t : Tableau K) (i j : Nat) :
    (t.pivoted i j).columns = t.columns := rfl

@[simp] theorem numStructural_pivoted (t : Tableau K) (i j : Nat) :
    (t.pivoted i j).numStructural = t.numStructural := rfl

@[simp] theorem numSlack_pivoted (t : Tableau K) (i j : Nat) :
    (t.pivoted i j).numSlack = t.numSlack := rfl

@[simp] theorem numRows_pivoted (t : Tableau K) (i j : Nat) :
    (t.pivoted i j).numRows = t.numRows := by
  simp [pivoted, numRows]

@[simp] theorem rhsColumn_pivoted (t : Tableau K) (i j : Nat) :
    (t.pivoted i j).rhsColumn = t.rhsColumn := rfl

@[simp] theorem numColumns_pivoted (t : Tableau K) (i j : Nat) :
    (t.pivoted i j).numColumns = t.numColumns := rfl

/-- The checked pivot succeeds if no row is too short for the column. -/
theorem pivot_eq_pivoted {t : Tableau K} {i j : Nat} (hi : i < t.rows.size)
    (hlong : ∀ row ∈ t.rows, j < row.size) : pivot t i j = .ok (t.entry i j, t.pivoted i j) := by
  have hnone : t.rows.findIdx? (·.size ≤ j) = none := by
    rw [Array.findIdx?_eq_none_iff]
    intro r hr
    simpa using hlong r hr
  simp only [pivot, cell_eq_entry hi (hlong _ (Array.getElem_mem hi)), ok_bind, hnone]
  rfl

/-- Inside the table the checked pivot succeeds. -/
theorem WellShaped.pivot_eq {t : Tableau K} (ht : t.WellShaped) {i j : Nat} (hi : i < t.numRows)
    (hj : j < t.numColumns) : pivot t i j = .ok (t.entry i j, t.pivoted i j) := by
  refine pivot_eq_pivoted hi fun row hrow => ?_
  rw [ht.size_row row hrow]
  exact hj

/-- A pivot on the column of a variable succeeds. -/
theorem Roomy.pivot_eq {t : Tableau K} (ht : t.Roomy) {i j : Nat} (hi : i < t.numRows)
    (hj : j < t.rhsColumn) : pivot t i j = .ok (t.entry i j, t.pivoted i j) := by
  refine pivot_eq_pivoted hi fun row hrow => ?_
  obtain ⟨k, hk, rfl⟩ := Array.getElem_of_mem hrow
  exact Nat.lt_trans hj (ht.lt_size k hk (.inr (Nat.zero_lt_of_lt hj)))

/-- The checked pivots of a well-shaped tableau that succeed are those inside the table. -/
theorem WellShaped.pivot_eq_ok_iff {t u : Tableau K} (ht : t.WellShaped) {i j : Nat}
    {element : K} :
    pivot t i j = .ok (element, u)
      ↔ (i < t.numRows ∧ j < t.numColumns) ∧ t.entry i j = element ∧ t.pivoted i j = u := by
  constructor
  · intro h
    cases hcell : t.cell i j with
    | error e => simp [pivot, hcell] at h
    | ok v =>
      have hinside := ht.inside_of_cell hcell
      rw [ht.pivot_eq hinside.1 hinside.2] at h
      exact ⟨hinside, Prod.mk.inj (Except.ok.inj h)⟩
  · rintro ⟨⟨hi, hj⟩, rfl, rfl⟩
    exact ht.pivot_eq hi hj

/-- A pivot keeps the length of every row. -/
theorem size_getElem_pivoted {t : Tableau K} {i j k : Nat} (hk : k < t.rows.size)
    (hk' : k < (t.pivoted i j).rows.size) :
    (t.pivoted i j).rows[k].size = t.rows[k].size := by
  by_cases hki : k = i
  · subst hki
    simp [Tableau.pivoted, pivotRows, hk]
  · simp [Tableau.pivoted, pivotRows, hki]

/-- A pivot inside the table keeps the shape. -/
theorem WellShaped.pivoted {t : Tableau K} (ht : t.WellShaped) {i : Nat} (hi : i < t.numRows)
    (j : Nat) : (t.pivoted i j).WellShaped where
  rows_pos := by
    have hrows := numRows_pivoted t i j
    have hpos := ht.numRows_pos
    simp only [numRows] at hrows hpos
    omega
  size_row := by
    intro r hr
    obtain ⟨k, hk, rfl⟩ := Array.getElem_of_mem hr
    have hi' : i < t.rows.size := hi
    have hk' : k < t.rows.size := by simpa [Tableau.pivoted] using hk
    -- the pivot row is divided cell by cell, and every other row is cleared cell by cell
    by_cases hki : k = i
    · simpa [Tableau.pivoted, pivotRows, hki, hi'] using ht.size_row _ (Array.getElem_mem hi')
    · simpa [Tableau.pivoted, pivotRows, hki] using ht.size_row _ (Array.getElem_mem hk')

theorem Roomy.pivoted {t : Tableau K} (ht : t.Roomy) (i j : Nat) : (t.pivoted i j).Roomy where
  rows_pos := by simpa [Tableau.pivoted] using ht.rows_pos
  lt_size k hk' hrow := by
    have hk : k < t.rows.size := by simpa [Tableau.pivoted] using hk'
    rw [size_getElem_pivoted hk hk']
    exact ht.lt_size k hk hrow

/-! ### Tableaus of one frame -/

/-- A pivot changes cells only. -/
theorem SameFrame.pivoted {t u : Tableau K} (h : t.SameFrame u) (i j : Nat) :
    t.SameFrame (u.pivoted i j) where
  numRows_eq := by rw [numRows_pivoted, h.numRows_eq]
  columns_eq := by rw [columns_pivoted, h.columns_eq]
  numStructural_eq := by rw [numStructural_pivoted, h.numStructural_eq]
  numSlack_eq := by rw [numSlack_pivoted, h.numSlack_eq]

/-- Well-shaped tableaus of one frame are equal if their entries are. -/
theorem SameFrame.eq_of_entry_eq {t u : Tableau K} (h : t.SameFrame u) (ht : t.WellShaped)
    (hu : u.WellShaped)
    (hentries : ∀ i < t.numRows, ∀ j < t.numColumns, u.entry i j = t.entry i j) : u = t := by
  have hsize : u.rows.size = t.rows.size := h.numRows_eq
  have hrows : u.rows = t.rows := by
    refine Array.ext hsize fun i hiu hit => ?_
    have hcells : u.rows[i].size = t.rows[i].size := by
      rw [hu.size_getElem hiu, ht.size_getElem hit, h.numColumns_eq]
    refine Array.ext hcells fun j hju hjt => ?_
    have hj : j < t.numColumns := by
      rw [← ht.size_getElem hit]
      exact hjt
    rw [← entry_eq_getElem hiu hju, ← entry_eq_getElem hit hjt, hentries i hit j hj]
  obtain ⟨urows, ucolumns, unumStructural, unumSlack⟩ := u
  obtain ⟨-, rfl, rfl, rfl⟩ := h
  obtain rfl : urows = t.rows := hrows
  rfl

end Tableau

end SimplexTableau

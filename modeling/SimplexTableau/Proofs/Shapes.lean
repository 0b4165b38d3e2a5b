import SimplexTableau.Proofs.Outcomes
import SimplexTableau.Proofs.Runs
import SimplexTableau.Proofs.Validation

namespace SimplexTableau

open Json

/-!
# Which shapes can be solved

A tableau that is built has a consistent shape, but one that is read from a text is taken as it
stands.  What a run asks of it depends on its cells, so the question is which shapes are safe
whatever the cells are:

* `Run.Steady` — the tableau has room for what the last verdict names; `Steady.finish_ok`: from
  there a run comes to a solution;
* `Tableau.SameShape` — two tableaus differ in names and cells only;
* `Tableau.pressing` — the tableau of a shape whose first verdict looks at every row;
  `roomy_of_solveTableau_pressing`: it is solved with records only if there is room;
* `Tableau.roomy_iff_decodings_solved` — the safe shapes are those with room.
-/

/-! ### Steady runs -/

theorem exists_mapM_eq_ok {ε α β : Type} {f : α → Except ε β} {l : List α}
    (h : ∀ a ∈ l, ∃ b, f a = .ok b) : ∃ bs, l.mapM f = .ok bs := by
  induction l with
  | nil => exact ⟨[], rfl⟩
  | cons a rest ih =>
    obtain ⟨⟨b, hb⟩, hrest⟩ := List.forall_mem_cons.mp h
    obtain ⟨bs, hbs⟩ := ih hrest
    exact ⟨b :: bs, by rw [List.mapM_cons, hb, ok_bind, hbs]; rfl⟩

namespace Run

section Steady

variable {K : Type} {r : Run K}

/-- The tableau has room, and what the last verdict names is there. -/
structure Steady (r : Run K) : Prop where
  /-- The rows are long enough. -/
  roomy : r.tableau.Roomy
  /-- The next pivot is on a constraint row and a variable. -/
  pivot_inside : ∀ c i, r.phase = .pivoting c i →
    c < r.tableau.rhsColumn ∧ 0 < i ∧ i < r.tableau.numRows

/-- Where the last verdict names no row, room is enough. -/
theorem steady_of_row_none (ht : r.tableau.Roomy) (hphase : r.phase.row? = none) :
    r.Steady where
  roomy := ht
  pivot_inside c i hpivot := by simp [hpivot, Phase.row?] at hphase

theorem steady_start (s : Solver K) {t : Tableau K} (ht : t.Roomy) : (s.start t).Steady :=
  steady_of_row_none ht rfl

variable [Cell K]

/-- An examination of a tableau with room succeeds. -/
theorem examine_steady (ht : r.tableau.Roomy) :
    ∃ next, r.examine.result = .ok next ∧ next.Steady := by
  obtain ⟨verdict, hselect, hinside⟩ := ht.select_ok r.solver.tolerance
  rw [examine, hselect, Watched.tell_bind, Watched.liftM_ok_bind]
  cases verdict with
  | optimal => exact ⟨{ r with phase := .optimal }, rfl, steady_of_row_none ht rfl⟩
  | unbounded column =>
    refine ⟨{ r with phase := .unbounded (r.tableau.columnAt column).name }, ?_,
      steady_of_row_none ht rfl⟩
    simp only [r.tableau.column_eq hinside, Watched.liftM_ok_bind]
    rfl
  | pivot column row =>
    by_cases hlimit : r.pivots < r.solver.maxIterations
    · refine ⟨{ r with phase := .pivoting column row }, by simp only [hlimit, if_true]; rfl, ht,
        fun c i hphase => ?_⟩
      obtain ⟨rfl, rfl⟩ := Phase.pivoting.inj hphase
      exact hinside
    · exact ⟨{ r with phase := .limitReached }, by simp only [hlimit, if_false]; rfl,
        steady_of_row_none ht rfl⟩

namespace Steady

/-- **One step** of a steady run succeeds, and it stays steady. -/
theorem advance_ok (h : r.Steady) :
    ∃ next?, r.advance.result = .ok next? ∧ ∀ next, next? = some next → next.Steady := by
  cases hphase : r.phase with
  | fresh =>
    obtain ⟨next, hexamine, hnext⟩ := examine_steady h.roomy
    refine ⟨some next, ?_, fun _ heq => Option.some.inj heq ▸ hnext⟩
    simp only [advance, hphase, Watched.result_bind, hexamine, ok_bind, Watched.result_pure]
  | pivoting c i =>
    obtain ⟨hc, -, hi⟩ := h.pivot_inside c i hphase
    let moved : Run K := { r with tableau := r.tableau.pivoted i c, pivots := r.pivots + 1 }
    have hmoved : moved.tableau.Roomy := h.roomy.pivoted i c
    obtain ⟨next, hexamine, hnext⟩ := examine_steady hmoved
    refine ⟨some next, ?_, fun _ heq => Option.some.inj heq ▸ hnext⟩
    simp only [advance, hphase, h.roomy.pivot_eq hi hc, Watched.liftM_ok_bind]
    show (moved.examine >>= _).result = _
    rw [Watched.result_bind, hexamine]
    rfl
  | optimal => exact ⟨none, by rw [advance, hphase]; rfl, by simp⟩
  | unbounded name => exact ⟨none, by rw [advance, hphase]; rfl, by simp⟩
  | limitReached => exact ⟨none, by rw [advance, hphase]; rfl, by simp⟩

/-- All examinations to come succeed, one after another, and so does going to the last of them. -/
theorem futureFor_ok (h : r.Steady) (fuel : Nat) :
    (∃ runs, (futureFor fuel r).result = .ok runs ∧ ∀ a ∈ runs, a.Steady)
      ∧ ∃ last, (settleFor fuel r).result = .ok last ∧ last.Steady := by
  -- the induction follows the fuel; the run that it speaks of moves on with each step
  induction fuel generalizing r with
  | zero => exact ⟨⟨[], rfl, nofun⟩, r, rfl, h⟩
  | succ fuel ih =>
    obtain ⟨next?, hadvance, hnext⟩ := h.advance_ok
    cases next? with
    | none =>
      refine ⟨⟨[], ?_, nofun⟩, r, ?_, h⟩
      · rw [futureFor, Watched.result_bind, hadvance]
        rfl
      · rw [settleFor, Watched.result_bind, hadvance]
        rfl
    | some next =>
      obtain ⟨⟨runs, hfuture, hruns⟩, last, hsettle, hlast⟩ := ih (hnext next rfl)
      refine ⟨⟨next :: runs, ?_, List.forall_mem_cons.mpr ⟨hnext next rfl, hruns⟩⟩, last, ?_,
        hlast⟩
      · rw [futureFor, Watched.result_bind, hadvance, ok_bind]
        show (futureFor fuel next >>= _).result = _
        rw [Watched.result_bind, hfuture]
        rfl
      · rw [settleFor, Watched.result_bind, hadvance, ok_bind]
        exact hsettle

/-- The column that a record names belongs to a variable. -/
theorem recordedColumn_ok (h : r.Steady) :
    ∃ column?, r.recordedColumn = .ok column?
      ∧ ∀ c, column? = some c → c < r.tableau.rhsColumn := by
  rw [recordedColumn]
  cases hphase : r.phase with
  | pivoting c i =>
    exact ⟨some c, rfl, fun _ heq => Option.some.inj heq ▸ (h.pivot_inside c i hphase).1⟩
  | unbounded name =>
    have hcolumn := h.roomy.enteringColumn_eq r.solver.tolerance
    exact ⟨_, hcolumn, fun c hc => h.roomy.enteringColumn_lt (hcolumn.trans (congrArg _ hc))⟩
  | fresh => exact ⟨none, rfl, by simp⟩
  | optimal => exact ⟨none, rfl, by simp⟩
  | limitReached => exact ⟨none, rfl, by simp⟩

/-- A steady run has its record. -/
theorem record_ok (h : r.Steady) : ∃ record, r.record = .ok record := by
  obtain ⟨column?, hrecorded, hcolumn⟩ := h.recordedColumn_ok
  have hentering : (column?.mapM fun j => do return (← r.tableau.column j).name)
      = (.ok (column?.map fun j => (r.tableau.columnAt j).name)
          : Except ShapeError (Option String)) := by
    cases column? with
    | none => rfl
    | some c =>
      show (r.tableau.column c >>= _) >>= _ = _
      rw [r.tableau.column_eq (hcolumn c rfl)]
      rfl
  rw [record, h.roomy.classify_eq, ok_bind, hrecorded, ok_bind, hentering, ok_bind,
    h.roomy.objectiveValue_eq]
  cases hphase : r.phase with
  | pivoting c i =>
    obtain ⟨hc, -, hi⟩ := h.pivot_inside c i hphase
    simp [h.roomy.cell_eq hi hc.le (.inr (Nat.zero_lt_of_lt hc))]
  | fresh => simp
  | optimal => simp
  | unbounded name => simp
  | limitReached => simp

theorem answer_ok (h : r.Steady) (trace : List (Record K)) :
    ∃ solution, r.answer trace = .ok solution := by
  cases hphase : r.phase with
  | optimal => simp [answer, hphase, h.roomy.classify_eq, h.roomy.objectiveValue_eq]
  | unbounded name => simp [answer, hphase]
  | fresh => simp [answer, hphase]
  | pivoting c i => simp [answer, hphase]
  | limitReached => simp [answer, hphase]

/-- **A steady run comes to a solution**, whether records are kept or not. -/
theorem finish_ok (h : r.Steady) : ∃ solution, r.finish = .ok solution := by
  obtain ⟨⟨runs, hfuture, hruns⟩, last, hsettle, hlast⟩ := h.futureFor_ok r.budget
  rw [finish, watch]
  by_cases htrace : r.solver.trace = true
  · obtain ⟨records, hrecords⟩ := exists_mapM_eq_ok fun a ha => (hruns a ha).record_ok
    have hcollect : r.watchRecords.result = .ok (records, runs.getLastD r) := by
      rw [watchRecords, Watched.result_bind, hfuture, ok_bind, hrecords]
      rfl
    have hend : (runs.getLastD r).Steady :=
      List.forall_mem_cons.mpr ⟨h, hruns⟩ _ List.getLastD_mem_cons
    rw [if_pos htrace, Watched.result_bind, hcollect]
    exact hend.answer_ok records
  · rw [if_neg htrace, Watched.result_bind, hsettle]
    exact hlast.answer_ok []

end Steady

end Steady

end Run

/-! ### What a success tells of the shape -/

/-- A fold that succeeds has stepped over every element. -/
theorem exists_of_foldlM_eq_ok {ε α β : Type} {f : β → α → Except ε β} {l : List α} {b c : β}
    (h : l.foldlM f b = .ok c) : ∀ a ∈ l, ∃ b c, f b a = .ok c := by
  induction l generalizing b with
  | nil => exact nofun
  | cons a rest ih =>
    rw [List.foldlM_cons] at h
    obtain ⟨next, hstep, hrest⟩ := bind_eq_ok_iff.mp h
    exact List.forall_mem_cons.mpr ⟨⟨b, next, hstep⟩, ih hrest⟩

/-- A cell that is read is there. -/
theorem Tableau.exists_of_cell_eq_ok {K : Type} {t : Tableau K} {i j : Nat} {v : K}
    (h : t.cell i j = .ok v) : ∃ row, t.rows[i]? = some row ∧ row[j]? = some v := by
  cases hrow : t.rows[i]? with
  | none => simp [cell, row, hrow] at h
  | some r =>
    cases hcell : r[j]? with
    | none => simp [cell, row, hrow, cellIn, hcell] at h
    | some w =>
      simp only [cell, row, hrow, ok_bind, cellIn, hcell] at h
      exact ⟨r, rfl, hcell.trans (congrArg some (Except.ok.inj h))⟩

section Success

variable {K : Type} [Cell K] {t : Tableau K}

/-- The ratio test looks at the column in every constraint row, and at the right-hand sides of the
    rows that take part. -/
theorem Tableau.cells_of_leavingRow {tolerance : K} {column : Nat} {row? : Option Nat}
    (h : leavingRow tolerance t column = .ok row?) {i : Nat} (hpos : 0 < i)
    (hi : i < t.numRows) :
    ∃ v, t.cell i column = .ok v ∧ (tolerance < v → ∃ b, t.rhs i = .ok b) := by
  obtain ⟨last, hfold, -⟩ := bind_eq_ok_iff.mp h
  obtain ⟨best, next, hoffer⟩ := exists_of_foldlM_eq_ok hfold i
    (List.mem_range'_1.mpr ⟨hpos, by omega⟩)
  obtain ⟨v, hcell, hratio⟩ := bind_eq_ok_iff.mp hoffer
  refine ⟨v, hcell, fun hv => ?_⟩
  rw [if_pos hv] at hratio
  obtain ⟨b, hrhs, -⟩ := bind_eq_ok_iff.mp hratio
  exact ⟨b, hrhs⟩

/-- An examination looks at the verdict and keeps the tableau. -/
theorem Run.select_of_examine {r next : Run K} (h : r.examine.result = .ok next) :
    (∃ verdict, select r.solver.tolerance r.tableau = .ok verdict)
      ∧ next.tableau = r.tableau := by
  rw [examine, Watched.tell_bind] at h
  obtain ⟨verdict, hselect, hphase⟩ := bind_eq_ok_iff.mp ((Watched.result_bind _ _).symm.trans h)
  refine ⟨⟨verdict, hselect⟩, ?_⟩
  cases verdict with
  | optimal => exact Except.ok.inj hphase ▸ rfl
  | unbounded c =>
    rw [Watched.result_bind] at hphase
    obtain ⟨column, -, hphase⟩ := bind_eq_ok_iff.mp hphase
    exact Except.ok.inj hphase ▸ rfl
  | pivot c i =>
    simp only at hphase
    split at hphase
    all_goals exact Except.ok.inj hphase ▸ rfl

/-- A record looks at the objective value. -/
theorem Run.objectiveValue_of_record {r : Run K} {record : Record K}
    (h : r.record = .ok record) : ∃ z, r.tableau.objectiveValue = .ok z := by
  obtain ⟨_, -, h⟩ := bind_eq_ok_iff.mp h
  obtain ⟨_, -, h⟩ := bind_eq_ok_iff.mp h
  obtain ⟨_, -, h⟩ := bind_eq_ok_iff.mp h
  -- the pivot element is looked at before, if a pivot was chosen
  simp only at h
  split at h
  · obtain ⟨_, -, h⟩ := bind_eq_ok_iff.mp h
    obtain ⟨_, -, h⟩ := bind_eq_ok_iff.mp h
    obtain ⟨z, hz, -⟩ := bind_eq_ok_iff.mp h
    exact ⟨z, hz⟩
  · obtain ⟨_, -, h⟩ := bind_eq_ok_iff.mp h
    obtain ⟨z, hz, -⟩ := bind_eq_ok_iff.mp h
    exact ⟨z, hz⟩

/-- A solution with records has looked at the first verdict and at the objective value. -/
theorem Solver.first_of_solveTableau {s : Solver K} {solution : Solution K}
    (hrecords : s.trace = true) (h : s.solveTableau t = .ok solution) :
    (∃ verdict, select s.tolerance t = .ok verdict) ∧ ∃ z, t.objectiveValue = .ok z := by
  have htrace : (s.start t).solver.trace = true := hrecords
  rw [solveTableau, Run.finish, Run.watch, if_pos htrace, Watched.result_bind] at h
  obtain ⟨_, hcollect, -⟩ := bind_eq_ok_iff.mp h
  rw [Run.watchRecords, Watched.result_bind] at hcollect
  obtain ⟨runs, hfuture, hmap⟩ := bind_eq_ok_iff.mp hcollect
  -- the first examination is within every limit, and it is recorded
  rw [Run.budget, Run.futureFor, Watched.result_bind] at hfuture
  obtain ⟨_, hadvance, hrest⟩ := bind_eq_ok_iff.mp hfuture
  have hfirst : (s.start t).advance = (do return some (← (s.start t).examine)) := rfl
  rw [hfirst, Watched.result_bind] at hadvance
  obtain ⟨first, hexamine, hnext⟩ := bind_eq_ok_iff.mp hadvance
  obtain rfl := Except.ok.inj hnext
  rw [Watched.result_bind] at hrest
  obtain ⟨rest, -, hruns⟩ := bind_eq_ok_iff.mp hrest
  obtain rfl := Except.ok.inj hruns
  rw [Watched.result_bind] at hmap
  obtain ⟨_, hrecorded, -⟩ := bind_eq_ok_iff.mp hmap
  rw [Watched.result_silent, List.mapM_cons] at hrecorded
  obtain ⟨record, hrecord, -⟩ := bind_eq_ok_iff.mp hrecorded
  obtain ⟨hselect, htableau⟩ := Run.select_of_examine hexamine
  obtain ⟨z, hz⟩ := Run.objectiveValue_of_record hrecord
  rw [htableau] at hz
  exact ⟨hselect, z, hz⟩

end Success

/-! ### Shapes -/

namespace Tableau

section Shape

variable {K : Type} {t u : Tableau K}

/-- `u` has as many columns as `t`, and the same lengths of rows; names, counts and cells may
    differ. -/
structure SameShape (t u : Tableau K) : Prop where
  /-- The column tables are of one length. -/
  size_columns : u.columns.size = t.columns.size
  /-- So are the rows, each with its counterpart. -/
  size_rows : u.rows.map (·.size) = t.rows.map (·.size)

theorem SameShape.refl (t : Tableau K) : t.SameShape t := ⟨rfl, rfl⟩

/-- Whether there is room depends on the shape only. -/
theorem SameShape.roomy (h : t.SameShape u) (ht : t.Roomy) : u.Roomy := by
  have hsize : u.rows.size = t.rows.size := by simpa using congrArg Array.size h.size_rows
  have hcolumn : u.rhsColumn = t.rhsColumn := h.size_columns
  refine ⟨hsize ▸ ht.rows_pos, fun i hi hrow => ?_⟩
  have hi' : i < t.rows.size := hsize ▸ hi
  have hlength : u.rows[i].size = t.rows[i].size := by
    simpa [hi, hi'] using congrArg (·[i]?) h.size_rows
  rw [hcolumn] at hrow ⊢
  rw [hlength]
  exact ht.lt_size i hi' hrow

theorem SameShape.symm (h : t.SameShape u) : u.SameShape t := ⟨h.1.symm, h.2.symm⟩

end Shape

/-! ### The tableau whose first verdict looks at every row -/

/-- The tableau of the same shape with -1 in every cell of the objective row and 1 in every other
    cell, so that every variable would gain and every constraint takes part in the ratio test. -/
def pressing (t : Tableau Float) : Tableau Float where
  rows := t.rows.mapIdx fun i row => row.map fun _ => if i = 0 then -1 else 1
  columns := t.columns.map fun _ => .structural 1
  numStructural := 0
  numSlack := 0

variable {t : Tableau Float}

theorem sameShape_pressing (t : Tableau Float) : t.SameShape t.pressing where
  size_columns := by simp [pressing]
  size_rows := by
    refine Array.ext (by simp [pressing]) fun i hi hi' => ?_
    simp [pressing]

theorem writable_pressing (t : Tableau Float) : t.pressing.Writable where
  cells row hrow x hx := by
    obtain ⟨i, hi, rfl⟩ := Array.mem_mapIdx.mp hrow
    obtain ⟨_, -, rfl⟩ := Array.mem_map.mp hx
    split
    · decide +kernel
    · decide +kernel
  columns c hc := by
    obtain ⟨_, -, rfl⟩ := Array.mem_map.mp hc
    exact ⟨by decide⟩
  numStructural := Nat.two_pow_pos 64
  numSlack := Nat.two_pow_pos 64

/-- The cells of the pressing tableau, as far as they are there. -/
theorem cell_pressing {i j : Nat} {v : Float} (h : t.pressing.cell i j = .ok v) :
    v = if i = 0 then -1 else 1 := by
  obtain ⟨row, hrow, hcell⟩ := exists_of_cell_eq_ok h
  rw [pressing, Array.getElem?_mapIdx] at hrow
  obtain ⟨row', -, rfl⟩ := Option.map_eq_some_iff.mp hrow
  rw [Array.getElem?_map] at hcell
  obtain ⟨_, -, rfl⟩ := Option.map_eq_some_iff.mp hcell
  rfl

/-- Some variable enters, if there is one. -/
theorem enteringColumn_pressing {tolerance : Float} (htol : -1 < -tolerance)
    (hvariable : 0 < t.pressing.rhsColumn) {column? : Option Nat}
    (h : enteringColumn tolerance t.pressing = .ok column?) : ∃ c, column? = some c := by
  obtain ⟨cells, hcells, hscan⟩ := bind_eq_ok_iff.mp h
  obtain rfl := Except.ok.inj hscan
  obtain ⟨objective, hobjective, htake⟩ := bind_eq_ok_iff.mp hcells
  by_cases hlong : t.pressing.rhsColumn ≤ objective.size
  · rw [if_pos hlong] at htake
    obtain rfl := Except.ok.inj htake
    -- the first cell is offered first, and it is low enough
    obtain ⟨v, rest, hcells⟩ := List.exists_cons_of_length_pos (l := objective.toList)
      (Nat.lt_of_lt_of_le hvariable hlong)
    have hcell : t.pressing.cell 0 0 = .ok v := by
      rw [cell, hobjective, ok_bind, cellIn, ← Array.getElem?_toList, hcells]
      rfl
    obtain rfl : v = -1 := cell_pressing hcell
    obtain ⟨n, hn⟩ := Nat.exists_eq_add_one_of_ne_zero hvariable.ne'
    rw [hcells, hn, List.take_succ_cons, List.zipIdx_cons]
    exact Least.exists_index_of_mem (e := (-1, 0)) List.mem_cons_self (decide_eq_true htol)
  · simp [hlong] at htake

/-- **Room is needed.** If the pressing tableau is solved with records, its shape has room. -/
theorem roomy_of_solveTableau_pressing {solution : Solution Float}
    (h : Solver.standard.solveTableau t.pressing = .ok solution) : t.pressing.Roomy := by
  obtain ⟨⟨verdict, hselect⟩, z, hz⟩ := Solver.first_of_solveTableau rfl h
  obtain ⟨objective, hobjective, hvalue⟩ := exists_of_cell_eq_ok hz
  obtain ⟨hpos, rfl⟩ := Array.getElem?_eq_some_iff.mp hobjective
  obtain ⟨hlong, -⟩ := Array.getElem?_eq_some_iff.mp hvalue
  refine ⟨hpos, fun i hi hrow => ?_⟩
  rcases Nat.eq_zero_or_pos i with rfl | hconstraint
  · exact hlong
  · have hvariable := hrow.resolve_left (Nat.ne_of_gt hconstraint)
    -- some variable enters, so the ratio test has passed over row `i`
    obtain ⟨column?, hentering, hleaving⟩ := bind_eq_ok_iff.mp hselect
    obtain ⟨c, rfl⟩ := enteringColumn_pressing (by decide +kernel) hvariable hentering
    obtain ⟨row?, hleaving, -⟩ := bind_eq_ok_iff.mp hleaving
    obtain ⟨v, hcell, htakes⟩ := cells_of_leavingRow hleaving hconstraint hi
    have hv : v = 1 := by
      rw [cell_pressing hcell, if_neg (Nat.ne_of_gt hconstraint)]
    have htakes_part : (1e-9 : Float) < 1 := by decide +kernel
    obtain ⟨b, hrhs⟩ := htakes (hv ▸ htakes_part)
    obtain ⟨row, hrow, hbound⟩ := exists_of_cell_eq_ok hrhs
    obtain ⟨_, rfl⟩ := Array.getElem?_eq_some_iff.mp hrow
    exact (Array.getElem?_eq_some_iff.mp hbound).1

/-! ### The safe shapes -/

/-- A tableau that can be written is read from its text. -/
theorem decode_encode {layout : Layout} (hl : layout.Blank) {t : Tableau Float} (h : t.Writable) :
    codec.decode (codec.encode layout t) = .ok t :=
  Codec.decode_encode hl (keeps h fun x hx => readsBack_nearest (h.isFinite_numbers x hx))

/-- **Safe shapes.** A tableau that is built, from a problem or from its parts, is well-shaped and
    has room.  A shape with room is one of which every tableau that can be read from a text is
    solved under every limit, and there is no other such shape. -/
theorem roomy_iff_decodings_solved (t : Tableau Float) :
    ((∃ p : Problem Float, p.tableau = .ok t)
          ∨ (∃ objective constraints rhs, initial objective constraints rhs = .ok t)
        → t.WellShaped)
      ∧ (t.WellShaped → t.Roomy)
      ∧ (t.Roomy ↔ ∀ text u, codec.decode text = .ok u → t.SameShape u →
          ∀ s : Solver Float, ∃ solution, s.solveTableau u = .ok solution ∧ solution.Outcome) := by
  refine ⟨?_, WellShaped.roomy, fun ht text u _ hshape s => ?_, fun hsolved => ?_⟩
  · rintro (⟨p, hp⟩ | ⟨objective, constraints, rhs, hinitial⟩)
    · exact Problem.wellShaped_of_tableau hp
    · exact wellShaped_of_initial hinitial
  · obtain ⟨solution, hsolution⟩ := (Run.steady_start s (hshape.roomy ht)).finish_ok
    exact ⟨solution, hsolution, Solver.outcome_of_solve (.inl ⟨u, hsolution⟩)⟩
  · -- the text of the pressing tableau is one of them
    have hshape := sameShape_pressing t
    have hread : codec.decode (codec.encode compact t.pressing) = .ok t.pressing :=
      decode_encode blank_compact (writable_pressing t)
    obtain ⟨solution, hsolution, -⟩ := hsolved _ _ hread hshape Solver.standard
    exact hshape.symm.roomy (roomy_of_solveTableau_pressing hsolution)

/-- The tableau of `upToFive` with cells to spare, more of them in one row than in the other. -/
def spacious : Tableau Float :=
  ⟨#[#[-1, 0, 0, 7], #[1, 1, 5, 7, 7]], #[.structural 1, .slack 1], 1, 1⟩

theorem roomy_iff_decodings_solved_spacious :
    (∃ t, upToFive.tableau = .ok t ∧ t.WellShaped ∧ t.Roomy)
      ∧ spacious.Roomy ∧ ¬ spacious.WellShaped
      ∧ codec.decode (codec.encode pretty spacious) = .ok spacious
      ∧ ∃ solution, Solver.standard.solveTableau spacious = .ok solution ∧ solution.Outcome := by
  constructor
  · obtain ⟨t, htableau⟩ : ∃ t, upToFive.tableau = .ok t := ⟨_, rfl⟩
    obtain ⟨hbuilt, hroomy, -⟩ := roomy_iff_decodings_solved t
    have hshape := hbuilt (.inl ⟨upToFive, htableau⟩)
    exact ⟨t, htableau, hshape, hroomy hshape⟩
  · have hroomy : spacious.Roomy := ⟨by decide, by decide⟩
    have hread : codec.decode (codec.encode pretty spacious) = .ok spacious :=
      decode_encode blank_pretty (by decide +kernel)
    obtain ⟨-, -, hsafe⟩ := roomy_iff_decodings_solved spacious
    refine ⟨hroomy, fun hshape => ?_, hread,
      hsafe.mp hroomy _ _ hread (.refl spacious) Solver.standard⟩
    exact absurd (hshape.size_row #[-1, 0, 0, 7] (by simp [spacious])) (by decide)

/-- A tableau whose only row lacks its right-hand side. -/
def boundless : Tableau Float := ⟨#[#[-1]], #[.structural 1], 1, 0⟩

/-- It is read from its text, but the solver reads a cell that is not there. -/
theorem boundless_not_solved :
    codec.decode (codec.encode compact boundless) = .ok boundless
      ∧ ¬ boundless.WellShaped
      ∧ Solver.standard.solveTableau boundless = .error (.noCell 0 1) := by
  refine ⟨decode_encode blank_compact (by decide +kernel), fun hshape => ?_, rfl⟩
  exact absurd (hshape.size_row #[-1] (by simp [boundless])) (by decide)

end Tableau

end SimplexTableau

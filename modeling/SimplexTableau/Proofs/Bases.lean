import SimplexTableau.Proofs.Execution
import SimplexTableau.Proofs.Trajectory
import Mathlib.Data.Fintype.CardEmbedding
import Mathlib.Data.Fintype.Pigeonhole
import Mathlib.Dynamics.PeriodicPts.Defs
import Mathlib.Order.Interval.Finset.Nat

namespace SimplexTableau

open scoped BigOperators

/-!
# A basis determines its tableau

A choice of unit columns, one for each constraint row, leaves nothing else open about a tableau:

* `Tableau.HasBasisAt` — a choice of unit columns;
* `Tableau.gather` — values for the chosen columns; `HasBasisAt.solves_complete`: with them, all
  other values can be completed to a solution;
* `SameFrame.eq_of_solves` — so two tableaus with the same solutions and the same unit columns are
  equal, whatever pivots led to them.

There are only finitely many choices, so the tableaus that a run visits repeat, and since each
decides the next one, they repeat for good:

* `Problem.exists_repeat` — among more tableaus than there are choices, two are equal;
* `Problem.asksPivot_forever` — a run that asks for more pivots than there are choices always asks
  for one more.
-/

namespace Tableau

variable {t u : Tableau Rat} {κ : Nat → Nat} {w : Nat → Rat} {i : Nat}

/-! ### Choices of unit columns -/

/-- Column `κ r` is a unit column of row `r`, for every constraint row. -/
def HasBasisAt (t : Tableau Rat) (κ : Nat → Nat) : Prop :=
  ∀ r, 0 < r → r < t.numRows → κ r < t.rhsColumn ∧ t.IsUnitColumn r (κ r)

instance (t : Tableau Rat) (κ : Nat → Nat) : Decidable (t.HasBasisAt κ) :=
  decidable_of_iff (∀ r < t.numRows, 0 < r → κ r < t.rhsColumn ∧ t.IsUnitColumn r (κ r))
    ⟨fun h r hr hrn => h r hrn hr, fun h r hrn hr => h r hr hrn⟩

/-- A tableau with a basis has a choice of unit columns. -/
theorem HasBasis.exists_hasBasisAt (h : t.HasBasis) : ∃ κ, t.HasBasisAt κ := by
  have hchoice : ∀ r, ∃ k, 0 < r → r < t.numRows → k < t.rhsColumn ∧ t.IsUnitColumn r k := by
    intro r
    by_cases hr : 0 < r ∧ r < t.numRows
    · obtain ⟨k, hk, hunit⟩ := h r hr.1 hr.2
      exact ⟨k, fun _ _ => ⟨hk, hunit⟩⟩
    · exact ⟨0, fun h0 hn => absurd ⟨h0, hn⟩ hr⟩
  choose κ hκ using hchoice
  exact ⟨κ, hκ⟩

/-- Different rows have different unit columns. -/
theorem IsUnitColumn.row_unique {r q k : Nat} (hr : t.IsUnitColumn r k) (hq : t.IsUnitColumn q k)
    (hrn : r < t.numRows) : r = q := by
  by_contra hne
  have h1 := hr.entry_self hrn
  rw [hq.entry_of_ne hrn hne] at h1
  exact zero_ne_one h1

/-- The chosen columns of `m` constraint rows among `n` variables. -/
def HasBasisAt.embedding (h : t.HasBasisAt κ) {m n : Nat} (hm : t.numRows = m + 1)
    (hn : t.rhsColumn = n) : Fin m ↪ Fin n where
  toFun r := ⟨κ (r + 1), hn ▸ (h (r + 1) (Nat.succ_pos _) (by omega)).1⟩
  inj' r q hrq := by
    have hcolumn : κ (r + 1) = κ (q + 1) := congrArg Fin.val hrq
    have hr := (h (r + 1) (Nat.succ_pos _) (by omega)).2
    have hq := (h (q + 1) (Nat.succ_pos _) (by omega)).2
    rw [hcolumn] at hr
    have hrow := hr.row_unique hq (by omega)
    exact Fin.ext (by omega)

/-- Two choices with the same embedding choose the same columns. -/
theorem HasBasisAt.of_embedding_eq {κ' : Nat → Nat} (h : t.HasBasisAt κ) (h' : u.HasBasisAt κ')
    {m n : Nat} (hm : t.numRows = m + 1) (hn : t.rhsColumn = n) (hm' : u.numRows = m + 1)
    (hn' : u.rhsColumn = n) (heq : h.embedding hm hn = h'.embedding hm' hn') :
    u.HasBasisAt κ := by
  intro r hr hrn
  obtain ⟨q, rfl⟩ := Nat.exists_eq_succ_of_ne_zero (Nat.pos_iff_ne_zero.mp hr)
  have hcolumn : κ (q + 1) = κ' (q + 1) :=
    congrArg Fin.val (DFunLike.congr_fun heq (⟨q, by omega⟩ : Fin m))
  rw [Nat.succ_eq_add_one, hcolumn]
  exact h' (q + 1) hr hrn

/-! ### Completion by the basic variables -/

/-- The values that give column `κ r` the number `w r`, for each constraint row `r` below `n`. -/
def gather (κ : Nat → Nat) (w : Nat → Rat) (n k : Nat) : Rat :=
  ∑ r ∈ Finset.Ico 1 n, if k = κ r then w r else 0

/-- In each constraint row the gathered values count with the row's own number, in the objective
    row not at all. -/
theorem HasBasisAt.rowSum_gather (h : t.HasBasisAt κ) (hi : i < t.numRows) :
    t.rowSum (gather κ w t.numRows) i = if i = 0 then 0 else w i := by
  have hterm : ∀ r ∈ Finset.Ico 1 t.numRows,
      t.rowSum (fun k => if k = κ r then w r else 0) i = if i = r then w r else 0 := by
    intro r hr
    obtain ⟨hr0, hrn⟩ := Finset.mem_Ico.mp hr
    obtain ⟨hk, hunit⟩ := h r hr0 hrn
    rw [rowSum_single hk, hunit i hi, ite_mul, one_mul, zero_mul]
  have hsum : t.rowSum (gather κ w t.numRows) i
      = ∑ r ∈ Finset.Ico 1 t.numRows, if i = r then w r else 0 := by
    rw [← Finset.sum_congr rfl hterm]
    exact t.rowSum_sum _ _ i
  rw [hsum, Finset.sum_ite_eq]
  by_cases hi0 : i = 0
  · rw [if_neg (by simp [hi0]), if_pos hi0]
  · rw [if_pos (Finset.mem_Ico.mpr ⟨Nat.pos_of_ne_zero hi0, hi⟩), if_neg hi0]

/-- **Any values can be completed.** The basic variables make up for what the values `x` leave of
    each row. -/
theorem HasBasisAt.solves_complete (h : t.HasBasisAt κ) (x : Nat → Rat) :
    t.Solves (t.entry 0 t.rhsColumn - t.rowSum x 0) fun k =>
      gather κ (fun r => t.entry r t.rhsColumn - t.rowSum x r) t.numRows k + x k :=
  solves_add fun _ hi => h.rowSum_gather hi

/-- If the completed values of `t` solve `u` as well, both leave the same in each row. -/
theorem HasBasisAt.rest_eq (h : t.HasBasisAt κ) (h' : u.HasBasisAt κ)
    (hframe : t.SameFrame u) (hsolves : ∀ z v, t.Solves z v → u.Solves z v) (x : Nat → Rat)
    (hi : i < t.numRows) :
    u.entry i u.rhsColumn - u.rowSum x i = t.entry i t.rhsColumn - t.rowSum x i := by
  have hi' : i < u.numRows := by
    rw [hframe.numRows_eq]
    exact hi
  have hzero := hsolves _ _ (h.solves_complete x) i hi'
  rw [residual, rowSum_add, ← hframe.numRows_eq, h'.rowSum_gather hi'] at hzero
  by_cases hi0 : i = 0
  · rw [if_pos hi0, if_pos hi0, ← hi0] at hzero
    linarith
  · rw [if_neg hi0, if_neg hi0] at hzero
    linarith

/-- **Solutions and unit columns determine the tableau.** -/
theorem SameFrame.eq_of_solves (hframe : t.SameFrame u) (ht : t.WellShaped) (hu : u.WellShaped)
    (h : t.HasBasisAt κ) (h' : u.HasBasisAt κ) (hsolves : ∀ z v, t.Solves z v → u.Solves z v) :
    u = t := by
  have hcolumns := hframe.rhsColumn_eq
  -- without other values the right-hand sides are left
  have hrhs : ∀ i < t.numRows, u.entry i t.rhsColumn = t.entry i t.rhsColumn := by
    intro i hi
    have hrest := h.rest_eq h' hframe hsolves (fun _ => 0) hi
    simpa [rowSum, hcolumns] using hrest
  refine hframe.eq_of_entry_eq ht hu fun i hi j hj => ?_
  rcases Nat.lt_succ_iff_lt_or_eq.mp hj with hlt | heq
  · -- a single value leaves its cell
    have hrest := h.rest_eq h' hframe hsolves (fun k => if k = j then 1 else 0) hi
    have hlt' : j < u.rhsColumn := by
      rw [hcolumns]
      exact hlt
    rw [rowSum_single hlt', rowSum_single hlt, hcolumns, hrhs i hi] at hrest
    linarith
  · have heq' : j = t.rhsColumn := heq
    rw [heq']
    exact hrhs i hi

/-- **A basis determines its tableau**, however pivots led there. -/
theorem Reaches.eq_of_hasBasisAt {v : Tableau Rat} (hu : t.Reaches u) (hv : t.Reaches v)
    (ht : t.WellShaped) (h : u.HasBasisAt κ) (h' : v.HasBasisAt κ) : u = v := by
  have hframe : v.SameFrame u := (hv.sameFrame ht).symm.trans (hu.sameFrame ht)
  refine hframe.eq_of_solves (hv.wellShaped ht) (hu.wellShaped ht) h' h fun z v hsolves => ?_
  exact (hu.solves_iff ht).mpr ((hv.solves_iff ht).mp hsolves)

/-! ### Successors -/

/-- At a tolerance that is not negative, the successors of a tableau come from it by pivots. -/
theorem pivots_iterate_successor (ht : t.WellShaped) {tolerance : Rat} (htol : 0 ≤ tolerance)
    (n : Nat) : t.Pivots ((successor tolerance)^[n] t) := by
  induction n with
  | zero => exact .refl
  | succ n ih =>
    rw [Function.iterate_succ_apply']
    by_cases hasks : AsksPivot tolerance ((successor tolerance)^[n] t)
    · obtain ⟨c, r, hselect⟩ := hasks
      rw [successor_of_select hselect]
      exact ih.pivoted_of_select (ih.wellShaped ht) htol hselect
    · rw [successor_of_not_asksPivot hasks]
      exact ih

/-- Once the successors repeat, each of them is one of those up to the repetition. -/
theorem exists_iterate_successor_eq {tolerance : Rat} {a b : Nat} (hab : a < b)
    (heq : (successor tolerance)^[a] t = (successor tolerance)^[b] t) (n : Nat) :
    ∃ m < b, (successor tolerance)^[n] t = (successor tolerance)^[m] t := by
  by_cases hn : n < b
  · exact ⟨n, hn, rfl⟩
  · have hperiod : Function.IsPeriodicPt (successor tolerance) (b - a)
        ((successor tolerance)^[a] t) := by
      rw [Function.IsPeriodicPt, Function.IsFixedPt, ← Function.iterate_add_apply,
        Nat.sub_add_cancel hab.le, heq]
    have hmod : (n - a) % (b - a) < b - a := Nat.mod_lt _ (by omega)
    refine ⟨(n - a) % (b - a) + a, by omega, ?_⟩
    rw [Function.iterate_add_apply, hperiod.iterate_mod_apply, ← Function.iterate_add_apply,
      Nat.sub_add_cancel (by omega)]

end Tableau

open Tableau

namespace Problem

variable {p : Problem Rat} {tolerance : Rat}

/-- **Repetition.** Among tableaus that pivots reach from the first one, two of the first are equal
    if there are more of them than ways to choose a column for each constraint row. -/
theorem exists_repeat (hp : p.WellShaped) {T : Nat → Tableau Rat}
    (hT : ∀ n, p.firstTableau.Pivots (T n)) :
    ∃ a b, a < b
      ∧ b ≤ (p.numVariables + p.numConstraints).descFactorial p.numConstraints ∧ T a = T b := by
  have hfirst := firstTableau_wellShaped hp
  have hrows : ∀ n, (T n).numRows = p.numConstraints + 1 := fun n => by
    rw [(hT n).numRows_eq, numRows_firstTableau hp]
  have hcolumns : ∀ n, (T n).rhsColumn = p.numVariables + p.numConstraints := fun n => by
    rw [(hT n).rhsColumn_eq, rhsColumn_firstTableau]
  choose κ hκ using fun n =>
    ((hT n).hasBasis hfirst (firstTableau_hasBasis hp)).exists_hasBasisAt
  -- equal choices mean equal tableaus
  have hequal : ∀ a b, (hκ a).embedding (hrows a) (hcolumns a)
      = (hκ b).embedding (hrows b) (hcolumns b) → T a = T b := by
    intro a b hchoice
    exact ((hT a).reaches hfirst).eq_of_hasBasisAt ((hT b).reaches hfirst) hfirst (hκ a)
      ((hκ a).of_embedding_eq (hκ b) (hrows a) (hcolumns a) (hrows b) (hcolumns b) hchoice)
  let count := (p.numVariables + p.numConstraints).descFactorial p.numConstraints
  have hcard : Fintype.card (Fin p.numConstraints ↪ Fin (p.numVariables + p.numConstraints))
      < Fintype.card (Fin (count + 1)) := by
    rw [Fintype.card_embedding_eq, Fintype.card_fin, Fintype.card_fin, Fintype.card_fin]
    exact Nat.lt_succ_self _
  obtain ⟨a, b, hne, hchoice⟩ := Fintype.exists_ne_map_eq_of_card_lt
    (fun n : Fin (count + 1) => (hκ n).embedding (hrows n) (hcolumns n)) hcard
  rcases lt_or_gt_of_ne hne with hlt | hgt
  · exact ⟨a, b, hlt, Nat.le_of_lt_succ b.isLt, hequal a b hchoice⟩
  · exact ⟨b, a, hgt, Nat.le_of_lt_succ a.isLt, hequal b a hchoice.symm⟩

/-- **Cycling.** If the first tableaus that the run visits all ask for a pivot, and they are more
    than there are ways to choose a column for each constraint row, then so do all others. -/
theorem asksPivot_forever (hp : p.WellShaped) (htol : 0 ≤ tolerance) {limit : Nat}
    (hlimit : (p.numVariables + p.numConstraints).descFactorial p.numConstraints ≤ limit)
    (hasks : ∀ n ≤ limit, AsksPivot tolerance ((successor tolerance)^[n] p.firstTableau))
    (n : Nat) : AsksPivot tolerance ((successor tolerance)^[n] p.firstTableau) := by
  obtain ⟨a, b, hab, hb, heq⟩ :=
    exists_repeat hp fun n => pivots_iterate_successor (firstTableau_wellShaped hp) htol n
  obtain ⟨m, hm, hn⟩ := exists_iterate_successor_eq hab heq n
  rw [hn]
  exact hasks m (by omega)

/-- The ways to choose different columns for the constraint rows. -/
theorem descFactorial_columns (p : Problem Rat) :
    (p.numVariables + p.numConstraints).descFactorial p.numConstraints
      = (p.numVariables + p.numConstraints).factorial / p.numVariables.factorial := by
  rw [Nat.descFactorial_eq_div (Nat.le_add_left _ _), Nat.add_sub_cancel]

/-- When the run of an accepted problem is cut off. -/
theorem solve_limit_iff (s : Solver Rat) (hp : p.validate = .ok ()) (htol : 0 ≤ tolerance)
    (limit : Nat) :
    ∃ solution, ((s.withTolerance tolerance).withMaxIterations limit).solve p = .ok solution
      ∧ (solution.status = .iterationLimit ↔ ∀ n ≤ limit,
        AsksPivot tolerance ((successor tolerance)^[n] p.firstTableau)) := by
  obtain ⟨hshape, -⟩ := validate_rat_iff.mp hp
  obtain ⟨solution, hsolve, hiff⟩ :=
    ((s.withTolerance tolerance).withMaxIterations limit).solveTableau_limit_iff
      (firstTableau_wellShaped hshape)
  have htolerance : ((s.withTolerance tolerance).withMaxIterations limit).tolerance = tolerance :=
    s.tolerance_withTolerance htol
  rw [htolerance] at hiff
  exact ⟨solution, solve_eq_of_solveTableau hp hsolve, hiff⟩

/-- **A basis determines the tableau, and the cap is decisive.** Tableaus that pivots on constraint
    rows and nonzero elements reach from the first one are equal if the same columns are unit
    columns of their constraint rows.  Hence, at every accepted tolerance, a run that is cut off
    after at least as many pivots as there are ways to choose the columns is cut off however many
    pivots are allowed. -/
theorem basis_determines_tableau (hp : p.validate = .ok ()) :
    (∃ t, p.tableau = .ok t ∧ ∀ u v κ, t.Reaches u → t.Reaches v → u.HasBasisAt κ →
        v.HasBasisAt κ → u = v)
      ∧ ∀ (s : Solver Rat) (tolerance : Rat), 0 ≤ tolerance → ∀ limit limit',
        (p.numVariables + p.numConstraints).factorial / p.numVariables.factorial ≤ limit →
        ∃ solution solution',
          ((s.withTolerance tolerance).withMaxIterations limit).solve p = .ok solution
            ∧ ((s.withTolerance tolerance).withMaxIterations limit').solve p = .ok solution'
            ∧ (solution.status = .iterationLimit → solution'.status = .iterationLimit) := by
  obtain ⟨hshape, -⟩ := validate_rat_iff.mp hp
  constructor
  · exact ⟨p.firstTableau, tableau_eq hp, fun u v κ hu hv h h' =>
      hu.eq_of_hasBasisAt hv (firstTableau_wellShaped hshape) h h'⟩
  · intro s tolerance htol limit limit' hcount
    rw [← descFactorial_columns] at hcount
    obtain ⟨solution, hsolve, hiff⟩ := solve_limit_iff s hp htol limit
    obtain ⟨solution', hsolve', hiff'⟩ := solve_limit_iff s hp htol limit'
    refine ⟨solution, solution', hsolve, hsolve', fun hstatus => hiff'.mpr fun n _ => ?_⟩
    exact asksPivot_forever hshape htol hcount (hiff.mp hstatus) n

/-- A problem on which the method cycles: after six pivots it is back at the first tableau. -/
def cycling : Problem Rat :=
  ⟨[10, -57, -9, -24], [[1 / 2, -11 / 2, -5 / 2, 9], [1 / 2, -3 / 2, -1 / 2, 1]], [0, 0]⟩

theorem basis_determines_tableau_cycling :
    cycling.validate = .ok ()
      ∧ (∃ t a b u, cycling.tableau = .ok t
        ∧ pivot t 1 0 = .ok (1 / 2, a) ∧ pivot a 2 1 = .ok (4, u)
        ∧ pivot t 2 1 = .ok (-3 / 2, b) ∧ pivot b 1 0 = .ok (-4 / 3, u))
      ∧ ∀ limit, ∃ solution,
        ((Solver.standard.withTolerance 0).withMaxIterations limit).solve cycling = .ok solution
          ∧ solution.status = .iterationLimit := by
  have hp : cycling.validate = .ok () := by decide +kernel
  obtain ⟨⟨t, ht, hunique⟩, hcap⟩ := basis_determines_tableau hp
  refine ⟨hp, ?_, fun limit => ?_⟩
  · obtain rfl : t = cycling.firstTableau := Except.ok.inj (ht.symm.trans (tableau_eq hp))
    have hshape : cycling.firstTableau.WellShaped :=
      firstTableau_wellShaped (validate_rat_iff.mp hp).1
    -- the two orders of the same two pivots
    have ha : pivot cycling.firstTableau 1 0 = .ok (1 / 2, cycling.firstTableau.pivoted 1 0) :=
      hshape.pivot_eq_ok_iff.mpr ⟨⟨by decide, by decide⟩, by decide +kernel, rfl⟩
    have hau : pivot (cycling.firstTableau.pivoted 1 0) 2 1
        = .ok (4, (cycling.firstTableau.pivoted 1 0).pivoted 2 1) :=
      (hshape.pivoted (by decide) 0).pivot_eq_ok_iff.mpr
        ⟨⟨by decide, by decide⟩, by decide +kernel, rfl⟩
    have hb : pivot cycling.firstTableau 2 1 = .ok (-3 / 2, cycling.firstTableau.pivoted 2 1) :=
      hshape.pivot_eq_ok_iff.mpr ⟨⟨by decide, by decide⟩, by decide +kernel, rfl⟩
    have hbu : pivot (cycling.firstTableau.pivoted 2 1) 1 0
        = .ok (-4 / 3, (cycling.firstTableau.pivoted 2 1).pivoted 1 0) :=
      (hshape.pivoted (by decide) 1).pivot_eq_ok_iff.mpr
        ⟨⟨by decide, by decide⟩, by decide +kernel, rfl⟩
    have hequal : (cycling.firstTableau.pivoted 2 1).pivoted 1 0
        = (cycling.firstTableau.pivoted 1 0).pivoted 2 1 :=
      hunique _ _ (fun r => r - 1)
        (.tail (.single ⟨2, 1, -3 / 2, by decide, by decide +kernel, hb⟩)
          ⟨1, 0, -4 / 3, by decide, by decide +kernel, hbu⟩)
        (.tail (.single ⟨1, 0, 1 / 2, by decide, by decide +kernel, ha⟩)
          ⟨2, 1, 4, by decide, by decide +kernel, hau⟩)
        (by decide +kernel) (by decide +kernel)
    rw [hequal] at hbu
    exact ⟨_, _, _, _, ht, ha, hau, hb, hbu⟩
  · have hrun : (((Solver.standard.withTolerance 0).withMaxIterations 30).solve
        cycling).toOption.map (·.status) = some .iterationLimit := by decide +kernel
    obtain ⟨first, solution, hfirst, hsolution, hlimit⟩ :=
      hcap Solver.standard 0 le_rfl 30 limit (by decide)
    rw [hfirst] at hrun
    exact ⟨solution, hsolution, hlimit (Option.some.inj hrun)⟩

end Problem

end SimplexTableau

import SimplexTableau.Proofs.Access
import SimplexTableau.Classification
import Mathlib.Data.List.Perm.Basic

namespace SimplexTableau

/-!
# The basic solution of a tableau

The classification of a tableau with room always exists.  This file says what it is, whatever the
arithmetic:

* `unitRowAt` — the row of a unit column; `unitRowAt_eq_some_iff`: the one row that is 1 within
  the tolerance, if all the others are 0 and not 1;
* `hostAt` — the row that hosts a variable; `hostAt_eq_some_iff`: the row of its unit column,
  unless that is the objective row or a column before it is a unit column of the same row;
* `valueAt` — the right-hand side of the host, or 0 without one;
* `classify_eq` — the classification lists exactly these values, and `perm_all` each variable
  once.
-/

variable {K : Type} [Cell K]

/-- Within the tolerance of 0 and not within the tolerance of 1. -/
def IsBlank (tolerance v : K) : Prop := isOne tolerance v = false ∧ isNonzero tolerance v = false

/-! ### Unit columns -/

/-- The scan for a single 1 through the cells of a column. -/
def scanUnit (tolerance : K) (i : Nat) (found : Option Nat) : List K → Option Nat
  | [] => found
  | v :: rest =>
    if isOne tolerance v then
      if found.isSome then none else scanUnit tolerance (i + 1) (some i) rest
    else if isNonzero tolerance v then none
    else scanUnit tolerance (i + 1) found rest

/-- On rows that are long enough, the checked scan succeeds with the scan of their cells. -/
theorem unitRowFrom_eq {tolerance : K} {column i : Nat} {found : Option Nat}
    {rows : List (Array K)} (hrows : ∀ row ∈ rows, column < row.size) :
    unitRowFrom tolerance column i found rows
      = .ok (scanUnit tolerance i found (rows.map (·.getD column 0))) := by
  induction rows generalizing i found with
  | nil => rfl
  | cons row rest ih =>
    obtain ⟨hrow, hrest⟩ := List.forall_mem_cons.mp hrows
    have hcell : Tableau.cellIn row i column = .ok (row.getD column 0) := by
      simp [Tableau.cellIn, hrow]
    rw [unitRowFrom, hcell, ok_bind, List.map_cons, scanUnit]
    -- both scans decide by the same cell and go on alike
    generalize row.getD column 0 = v
    split
    · split
      · rfl
      · exact ih hrest
    · split
      · rfl
      · exact ih hrest

/-- Once the 1 is found, the scan keeps it through blank cells only. -/
theorem scanUnit_some_eq_some_iff {tolerance : K} {i r s : Nat} {l : List K} :
    scanUnit tolerance i (some r) l = some s ↔ r = s ∧ ∀ v ∈ l, IsBlank tolerance v := by
  induction l generalizing i with
  | nil => simp [scanUnit]
  | cons v rest ih =>
    rw [scanUnit, List.forall_mem_cons, IsBlank]
    cases hone : isOne tolerance v with
    | true => simp
    | false =>
      cases hnonzero : isNonzero tolerance v with
      | true => simp
      | false => simpa using ih

/-- **The scan of a column** finds the index of the one cell that is 1, if all others are
    blank. -/
theorem scanUnit_none_eq_some_iff {tolerance : K} {i s : Nat} {l : List K} :
    scanUnit tolerance i none l = some s
      ↔ ∃ k v, l[k]? = some v ∧ s = i + k ∧ isOne tolerance v = true
        ∧ ∀ k' w, l[k']? = some w → k' ≠ k → IsBlank tolerance w := by
  induction l generalizing i with
  | nil => simp [scanUnit]
  | cons v rest ih =>
    rw [scanUnit]
    cases hone : isOne tolerance v with
    | true =>
      -- the 1 is the first cell: every other cell has to be blank
      simp only [if_true, Option.isSome_none, Bool.false_eq_true, if_false,
        scanUnit_some_eq_some_iff]
      constructor
      · rintro ⟨rfl, hrest⟩
        refine ⟨0, v, rfl, rfl, hone, fun k' w hw hk' => ?_⟩
        obtain ⟨k, rfl⟩ := Nat.exists_eq_succ_of_ne_zero hk'
        exact hrest w (List.mem_of_getElem? hw)
      · rintro ⟨k, w, hw, rfl, -, hblank⟩
        have hk : k = 0 := by
          by_contra hk
          have hv := (hblank 0 v rfl (Ne.symm hk)).1
          rw [hone] at hv
          exact absurd hv (by decide)
        subst hk
        refine ⟨rfl, fun w hw => ?_⟩
        obtain ⟨k, hk⟩ := List.getElem?_of_mem hw
        exact hblank (k + 1) w hk (Nat.succ_ne_zero k)
    | false =>
      cases hnonzero : isNonzero tolerance v with
      | true =>
        simp only [Bool.false_eq_true, if_false, if_true, reduceCtorEq, false_iff]
        rintro ⟨k, w, hw, -, hw1, hblank⟩
        cases k with
        | zero =>
          rw [← Option.some.inj hw, hone] at hw1
          exact absurd hw1 (by decide)
        | succ k =>
          have hv := (hblank 0 v rfl (Nat.succ_ne_zero k).symm).2
          rw [hnonzero] at hv
          exact absurd hv (by decide)
      | false =>
        -- the first cell is blank: the 1 is among the others
        simp only [Bool.false_eq_true, if_false, ih]
        constructor
        · rintro ⟨k, w, hw, rfl, hw1, hblank⟩
          refine ⟨k + 1, w, hw, by omega, hw1, fun k' w' hw' hk' => ?_⟩
          cases k' with
          | zero => exact Option.some.inj hw' ▸ ⟨hone, hnonzero⟩
          | succ k' => exact hblank k' w' hw' (by omega)
        · rintro ⟨k, w, hw, rfl, hw1, hblank⟩
          cases k with
          | zero =>
            rw [← Option.some.inj hw, hone] at hw1
            exact absurd hw1 (by decide)
          | succ k =>
            exact ⟨k, w, hw, by omega, hw1,
              fun k' w' hw' hk' => hblank (k' + 1) w' hw' (by omega)⟩

/-! ### Hosts -/

/-- **Hosts.** A column gets the row of its unit column unless that is the objective row, the row
    is taken, or a column before it has the same row. -/
theorem getElem?_hosts_eq_some_iff {taken : List Nat} {units : List (Option Nat)} {k r : Nat} :
    (hosts taken units)[k]? = some (some r)
      ↔ units[k]? = some (some r) ∧ 0 < r ∧ r ∉ taken ∧ ∀ k' < k, units[k']? ≠ some (some r) := by
  induction units generalizing taken k with
  | nil => simp [hosts]
  | cons unit rest ih =>
    -- the first column decides for itself; for the later ones it may take a row
    cases k with
    | zero =>
      cases unit with
      | none => simp [hosts]
      | some s =>
        rw [hosts]
        split
        case isTrue h =>
          simp only [List.getElem?_cons_zero, Option.some.injEq]
          constructor
          · rintro rfl
            exact ⟨rfl, h.1, h.2, by omega⟩
          · intro hs
            exact hs.1
        case isFalse h =>
          simp only [List.getElem?_cons_zero, Option.some.injEq, reduceCtorEq, false_iff]
          rintro ⟨rfl, hpos, hfree, -⟩
          exact h ⟨hpos, hfree⟩
    | succ k =>
      have hforall : (∀ k' < k + 1, (unit :: rest)[k']? ≠ some (some r))
          ↔ unit ≠ some r ∧ ∀ k' < k, rest[k']? ≠ some (some r) := by
        constructor
        · intro h
          refine ⟨fun hu => h 0 (by omega) (congrArg some hu), ?_⟩
          intro k' hk'
          exact h (k' + 1) (by omega)
        · rintro ⟨h0, h⟩ k' hk'
          cases k' with
          | zero => exact fun hu => h0 (Option.some.inj hu)
          | succ k' => exact h k' (by omega)
      rw [hforall]
      cases unit with
      | none => simp [hosts, ih]
      | some s =>
        rw [hosts]
        split
        case isTrue h =>
          rw [List.getElem?_cons_succ, List.getElem?_cons_succ, ih, List.mem_cons, not_or,
            Ne, Option.some.injEq, eq_comm (a := s)]
          tauto
        case isFalse h =>
          rw [List.getElem?_cons_succ, List.getElem?_cons_succ, ih]
          refine and_congr_right fun _ => and_congr_right fun hpos =>
            and_congr_right fun hfree => ?_
          -- the row of the first column is refused, so it is not `r`
          have hne : some s ≠ some r := by
            intro hs
            obtain rfl := Option.some.inj hs
            exact h ⟨hpos, hfree⟩
          constructor
          · intro hall
            exact ⟨hne, hall⟩
          · intro hall
            exact hall.2

theorem length_hosts (taken : List Nat) (units : List (Option Nat)) :
    (hosts taken units).length = units.length := by
  induction units generalizing taken with
  | nil => rfl
  | cons unit rest ih =>
    cases unit with
    | none => simp [hosts, ih]
    | some s =>
      rw [hosts]
      split
      · simp [ih]
      · simp [ih]

namespace Tableau

variable {t : Tableau K} {tolerance : K} {k r : Nat}

/-! ### The basis of a tableau -/

/-- The row with the 1 of column `k`, if that is a unit column within the tolerance. -/
def unitRowAt (t : Tableau K) (tolerance : K) (k : Nat) : Option Nat :=
  scanUnit tolerance 0 none ((List.range t.numRows).map fun i => t.entry i k)

/-- Where every row has the column, the checked scan succeeds. -/
theorem unitRow_eq_unitRowAt (tolerance : K) (hlong : ∀ row ∈ t.rows, k < row.size) :
    unitRow tolerance t k = .ok (t.unitRowAt tolerance k) := by
  have hlong : ∀ row ∈ t.rows.toList, k < row.size :=
    fun row hrow => hlong row (Array.mem_toList_iff.mp hrow)
  have hcells : t.rows.toList.map (·.getD k 0)
      = (List.range t.numRows).map fun i => t.entry i k := by
    refine List.ext_getElem (by simp [numRows]) fun i h _ => ?_
    have hi : i < t.rows.size := by simpa using h
    simp [entry, hi]
  rw [unitRow, unitRowFrom_eq hlong, hcells, unitRowAt]

theorem WellShaped.unitRow_eq (ht : t.WellShaped) (tolerance : K) (hk : k < t.numColumns) :
    unitRow tolerance t k = .ok (t.unitRowAt tolerance k) := by
  refine unitRow_eq_unitRowAt tolerance fun row hrow => ?_
  rw [ht.size_row row hrow]
  exact hk

theorem Roomy.unitRow_eq (ht : t.Roomy) (tolerance : K) (hk : k < t.rhsColumn) :
    unitRow tolerance t k = .ok (t.unitRowAt tolerance k) := by
  refine unitRow_eq_unitRowAt tolerance fun row hrow => ?_
  obtain ⟨i, hi, rfl⟩ := Array.getElem_of_mem hrow
  exact Nat.lt_trans hk (ht.lt_size i hi (.inr (Nat.zero_lt_of_lt hk)))

/-- **Unit columns.** Exactly one cell is 1 within the tolerance, and all others are blank. -/
theorem unitRowAt_eq_some_iff :
    t.unitRowAt tolerance k = some r
      ↔ r < t.numRows ∧ isOne tolerance (t.entry r k) = true
        ∧ ∀ i < t.numRows, i ≠ r → IsBlank tolerance (t.entry i k) := by
  have hget : ∀ (i : Nat) (v : K), ((List.range t.numRows).map fun i => t.entry i k)[i]? = some v
      ↔ i < t.numRows ∧ t.entry i k = v := by
    intro i v
    rw [List.getElem?_eq_some_iff]
    simp
  rw [unitRowAt, scanUnit_none_eq_some_iff]
  simp only [hget, Nat.zero_add]
  constructor
  · rintro ⟨i, v, ⟨hi, rfl⟩, rfl, hone, hblank⟩
    exact ⟨hi, hone, fun i' hi' hne => hblank i' _ ⟨hi', rfl⟩ hne⟩
  · rintro ⟨hr, hone, hblank⟩
    refine ⟨r, _, ⟨hr, rfl⟩, rfl, hone, ?_⟩
    rintro i' v ⟨hi', rfl⟩ hne
    exact hblank i' hi' hne

/-- The row that hosts the variable of column `k`, if it is basic. -/
def hostAt (t : Tableau K) (tolerance : K) (k : Nat) : Option Nat :=
  (hosts [] ((List.range t.rhsColumn).map (t.unitRowAt tolerance))).getD k none

/-- **Hosts of a tableau.** A variable is hosted by the row of its unit column, unless that is the
    objective row or a column before it is a unit column of the same row. -/
theorem hostAt_eq_some_iff :
    t.hostAt tolerance k = some r
      ↔ k < t.rhsColumn ∧ t.unitRowAt tolerance k = some r ∧ 0 < r
        ∧ ∀ k' < k, t.unitRowAt tolerance k' ≠ some r := by
  have hget : ∀ (k : Nat) (u : Option Nat),
      ((List.range t.rhsColumn).map (t.unitRowAt tolerance))[k]? = some u
        ↔ k < t.rhsColumn ∧ t.unitRowAt tolerance k = u := by
    intro k u
    rw [List.getElem?_eq_some_iff]
    simp
  have hhost : t.hostAt tolerance k = some r
      ↔ (hosts [] ((List.range t.rhsColumn).map (t.unitRowAt tolerance)))[k]?
        = some (some r) := by
    rw [hostAt, List.getD_eq_getElem?_getD]
    cases (hosts [] ((List.range t.rhsColumn).map (t.unitRowAt tolerance)))[k]? with
    | none => simp
    | some u => simp
  rw [hhost, getElem?_hosts_eq_some_iff, hget]
  constructor
  · rintro ⟨⟨hk, hunit⟩, hr, -, hfirst⟩
    exact ⟨hk, hunit, hr, fun k' hk' hu => hfirst k' hk' ((hget _ _).mpr ⟨Nat.lt_trans hk' hk, hu⟩)⟩
  · rintro ⟨hk, hunit, hr, hfirst⟩
    exact ⟨⟨hk, hunit⟩, hr, List.not_mem_nil,
      fun k' hk' hu => hfirst k' hk' ((hget _ _).mp hu).2⟩

/-- A row hosts one variable at most. -/
theorem eq_of_hostAt_eq {k' : Nat} (h : t.hostAt tolerance k = some r)
    (h' : t.hostAt tolerance k' = some r) : k = k' := by
  obtain ⟨-, hunit, -, hfirst⟩ := hostAt_eq_some_iff.mp h
  obtain ⟨-, hunit', -, hfirst'⟩ := hostAt_eq_some_iff.mp h'
  rcases Nat.lt_trichotomy k k' with hlt | heq | hgt
  · exact absurd hunit (hfirst' k hlt)
  · exact heq
  · exact absurd hunit' (hfirst k' hgt)

/-! ### The classification -/

/-- The value of the variable of column `k` in the basic solution. -/
def valueAt (t : Tableau K) (tolerance : K) (k : Nat) : K :=
  match t.hostAt tolerance k with
  | some r => t.entry r t.rhsColumn
  | none => 0

theorem valueAt_of_hostAt (h : t.hostAt tolerance k = some r) :
    t.valueAt tolerance k = t.entry r t.rhsColumn := by
  rw [valueAt, h]

theorem valueAt_of_hostAt_none (h : t.hostAt tolerance k = none) : t.valueAt tolerance k = 0 := by
  rw [valueAt, h]

/-- The variable of column `k` as the classification lists it. -/
def variableAt (t : Tableau K) (tolerance : K) (k : Nat) : VariableValue K where
  name := (t.columnAt k).name
  kind := (t.columnAt k).kind
  value := t.valueAt tolerance k
  row := t.hostAt tolerance k

/-- The classification of a well-shaped tableau. -/
def reading (t : Tableau K) (tolerance : K) : Classification K :=
  let values := (List.range t.rhsColumn).map (t.variableAt tolerance)
  ⟨values.filter (·.row.isSome), values.filter (·.row.isNone)⟩

/-- The columns side by side with their hosts. -/
theorem zip_columns_hosts (t : Tableau K) (tolerance : K) :
    t.columns.toList.zip (hosts [] ((List.range t.rhsColumn).map (t.unitRowAt tolerance)))
      = (List.range t.rhsColumn).map fun k => (t.columnAt k, t.hostAt tolerance k) := by
  have hlength : (hosts [] ((List.range t.rhsColumn).map (t.unitRowAt tolerance))).length
      = t.rhsColumn := by
    rw [length_hosts, List.length_map, List.length_range]
  have hcolumns : t.columns.toList.length = t.rhsColumn := Array.length_toList
  refine List.ext_getElem (by simp only [List.length_zip, hlength, hcolumns, Nat.min_self,
    List.length_map, List.length_range]) fun k h _ => ?_
  have hk : k < t.rhsColumn := by
    rw [List.length_zip, hlength] at h
    omega
  have hk' : k < t.columns.size := hk
  have hk'' := hlength.symm ▸ hk
  rw [List.getElem_zip, List.getElem_map, List.getElem_range, hostAt,
    List.getD_eq_getElem?_getD, List.getElem?_eq_getElem hk'']
  simp [columnAt, hk']

/-- **The classification of a tableau with room** exists and lists the value of each variable, 0
    for those without a host. -/
theorem Roomy.classify_eq (ht : t.Roomy) (tolerance : K) :
    classify tolerance t = .ok (t.reading tolerance) := by
  have hunits : (List.range t.rhsColumn).mapM (unitRow tolerance t)
      = .ok ((List.range t.rhsColumn).map (t.unitRowAt tolerance)) :=
    mapM_eq_ok fun k hk => ht.unitRow_eq tolerance (List.mem_range.mp hk)
  have hvalue : ∀ k, valueOf t (t.columnAt k) (t.hostAt tolerance k)
      = .ok (t.variableAt tolerance k) := by
    intro k
    cases hhost : t.hostAt tolerance k with
    | none => rw [valueOf, variableAt, hhost, valueAt_of_hostAt_none hhost]
    | some r =>
      obtain ⟨hk, hunit, -, -⟩ := hostAt_eq_some_iff.mp hhost
      obtain ⟨hr, -, -⟩ := unitRowAt_eq_some_iff.mp hunit
      rw [valueOf, variableAt, hhost, valueAt_of_hostAt hhost,
        ht.rhs_eq hr (.inr (Nat.zero_lt_of_lt hk))]
      rfl
  have hvalues : (((List.range t.rhsColumn).map fun k =>
        (t.columnAt k, t.hostAt tolerance k)).mapM fun e => valueOf t e.1 e.2)
      = .ok ((List.range t.rhsColumn).map (t.variableAt tolerance)) := by
    rw [List.mapM_map]
    exact mapM_eq_ok fun k _ => hvalue k
  rw [classify, hunits, ok_bind, zip_columns_hosts]
  show (_ >>= _) = _
  rw [hvalues, ok_bind]
  rfl

theorem WellShaped.classify_eq (ht : t.WellShaped) (tolerance : K) :
    classify tolerance t = .ok (t.reading tolerance) :=
  ht.roomy.classify_eq tolerance

/-- The classification lists every variable exactly once. -/
theorem perm_all (t : Tableau K) (tolerance : K) :
    (t.reading tolerance).all.Perm ((List.range t.rhsColumn).map (t.variableAt tolerance)) := by
  have hnot : ∀ v : VariableValue K, v.row.isNone = !v.row.isSome := by
    intro v
    cases v.row with
    | none => rfl
    | some r => rfl
  rw [reading, Classification.all]
  simp only [hnot]
  exact List.filter_append_perm _ _

end Tableau

end SimplexTableau

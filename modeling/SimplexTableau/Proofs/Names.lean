import SimplexTableau.Assignment
import SimplexTableau.Proofs.Reading
import Std.Data.String.ToNat
import Mathlib.Data.List.Induction
import Mathlib.Data.List.Nodup

namespace SimplexTableau

/-!
# Variables by name

Solutions name their variables, so a value can be looked up only if no two columns share a name.

* `Column.nodup_names_table` — the names `x1`, …, `xf1`, … of a column table are distinct;
* `Assignment.get?_ofList_of_mem` — among distinct names, an assignment gives each the value it
  was listed with;
* `Classification.value?` — the value of a name in a classification;
* `value?_reading`, `get?_structural_reading` — the two look-ups give the values of the basic
  solution.
-/

/-! ### Names of columns -/

namespace Column

theorem structural_name_inj {i j : Nat} :
    (structural i).name = (structural j).name ↔ i = j := by
  show "x" ++ toString i = "x" ++ toString j ↔ i = j
  rw [String.append_right_inj, Nat.toString_eq_repr, Nat.toString_eq_repr, Nat.repr_inj]

theorem slack_name_inj {i j : Nat} : (slack i).name = (slack j).name ↔ i = j := by
  show "xf" ++ toString i = "xf" ++ toString j ↔ i = j
  rw [String.append_right_inj, Nat.toString_eq_repr, Nat.toString_eq_repr, Nat.repr_inj]

/-- What follows the `x` is a digit in the one name and an `f` in the other. -/
theorem structural_name_ne_slack_name (i j : Nat) :
    (structural i).name ≠ (slack j).name := by
  show "x" ++ toString i ≠ "xf" ++ toString j
  intro h
  have hchars : "x".toList ++ Nat.toDigits 10 i = "xf".toList ++ Nat.toDigits 10 j := by
    simpa only [String.toList_append, Nat.toString_eq_repr, Nat.toList_repr]
      using congrArg String.toList h
  -- the numeral of `i` would begin with an `f`
  have htail : Nat.toDigits 10 i = 'f' :: Nat.toDigits 10 j := (List.cons.inj hchars).2
  have hdigit : ('f').isDigit = true :=
    Nat.isDigit_of_mem_toDigits (b := 10) (n := i) (by decide) (by decide) (by rw [htail]; simp)
  exact absurd hdigit (by decide)

/-- The names of a column table are distinct. -/
theorem nodup_names_table (n m : Nat) : ((table n m).map (·.name)).Nodup := by
  rw [table, List.map_append, List.map_map, List.map_map]
  refine List.Nodup.append ?_ ?_ ?_
  · refine List.Nodup.map (fun i j h => ?_) List.nodup_range
    have hij := structural_name_inj.mp h
    omega
  · refine List.Nodup.map (fun i j h => ?_) List.nodup_range
    have hij := slack_name_inj.mp h
    omega
  · intro name hstructural hslack
    obtain ⟨i, -, rfl⟩ := List.mem_map.mp hstructural
    obtain ⟨j, -, h⟩ := List.mem_map.mp hslack
    exact structural_name_ne_slack_name (i + 1) (j + 1) h.symm

end Column

/-! ### Assignments -/

namespace Assignment

variable {K : Type}

theorem lookup_insertEntry_self (name : String) (value : K) (entries : List (String × K)) :
    (insertEntry name value entries).lookup name = some value := by
  induction entries with
  | nil => simp [insertEntry]
  | cons head rest ih =>
    obtain ⟨first, old⟩ := head
    rw [insertEntry]
    split
    · simp
    · split
      · simp
      · rename_i hne
        simpa [List.lookup_cons, beq_eq_false_iff_ne.mpr hne] using ih

theorem lookup_insertEntry_of_ne {name other : String} (hne : other ≠ name) (value : K)
    (entries : List (String × K)) :
    (insertEntry name value entries).lookup other = entries.lookup other := by
  have hbeq : (other == name) = false := beq_eq_false_iff_ne.mpr hne
  induction entries with
  | nil => simp [insertEntry, List.lookup_cons, hbeq]
  | cons head rest ih =>
    obtain ⟨first, old⟩ := head
    rw [insertEntry]
    split
    · simp [List.lookup_cons, hbeq]
    · split
      · rename_i heq
        subst heq
        simp [List.lookup_cons, hbeq]
      · simp only [List.lookup_cons, ih]

/-- The name that was set has its new value. -/
@[simp] theorem get?_insert_self (a : Assignment K) (name : String) (value : K) :
    (a.insert name value).get? name = some value :=
  lookup_insertEntry_self name value a.entries

/-- The other names keep their values. -/
theorem get?_insert_of_ne {name other : String} (hne : other ≠ name) (a : Assignment K)
    (value : K) : (a.insert name value).get? other = a.get? other :=
  lookup_insertEntry_of_ne hne value a.entries

theorem ofList_append_singleton (l : List (String × K)) (e : String × K) :
    ofList (l ++ [e]) = (ofList l).insert e.1 e.2 := by
  simp [ofList]

/-- **Look-up among distinct names.** Each name has the value it was listed with. -/
theorem get?_ofList_of_mem {l : List (String × K)} (hl : (l.map Prod.fst).Nodup)
    {e : String × K} (he : e ∈ l) : (ofList l).get? e.1 = some e.2 := by
  -- the entry that was inserted last is the last of the list
  induction l using List.reverseRecOn with
  | nil => simp at he
  | append_singleton l last ih =>
    rw [List.map_append, List.nodup_append] at hl
    obtain ⟨hinit, -, hdisjoint⟩ := hl
    rw [ofList_append_singleton]
    rcases List.mem_append.mp he with hmem | hmem
    · have hne : e.1 ≠ last.1 :=
        hdisjoint e.1 (List.mem_map_of_mem hmem) last.1 (by simp)
      rw [get?_insert_of_ne hne, ih hinit hmem]
    · rw [List.mem_singleton.mp hmem, get?_insert_self]

end Assignment

/-! ### Classifications -/

/-- The value of the variable with the name. -/
def Classification.value? {K : Type} (c : Classification K) (name : String) : Option K :=
  (c.all.find? (·.name == name)).map (·.value)

/-- Among distinct names, the variable of a name is the one that is listed. -/
theorem Classification.value?_of_mem {K : Type} {c : Classification K}
    (hc : (c.all.map (·.name)).Nodup) {v : VariableValue K} (hv : v ∈ c.all) :
    c.value? v.name = some v.value := by
  cases hfind : c.all.find? (·.name == v.name) with
  | none =>
    rw [List.find?_eq_none] at hfind
    exact absurd (beq_self_eq_true v.name) (hfind v hv)
  | some w =>
    have hname : w.name = v.name := by
      simpa using List.find?_some hfind
    have hw : w = v :=
      List.inj_on_of_nodup_map hc (List.mem_of_find?_eq_some hfind) hv hname
    rw [Classification.value?, hfind, hw, Option.map_some]

namespace Tableau

variable {K : Type} [Cell K] {t : Tableau K} {tolerance : K} {k : Nat}

/-- The variables of a tableau have distinct names. -/
def NamesDistinct (t : Tableau K) : Prop := (t.columns.toList.map (·.name)).Nodup

theorem mem_all_reading (hk : k < t.rhsColumn) :
    t.variableAt tolerance k ∈ (t.reading tolerance).all :=
  (t.perm_all tolerance).mem_iff.mpr (List.mem_map_of_mem (List.mem_range.mpr hk))

/-- A classification lists the names of the column table. -/
theorem nodup_names_reading (h : t.NamesDistinct) (tolerance : K) :
    ((t.reading tolerance).all.map (·.name)).Nodup := by
  have hnames : ((List.range t.rhsColumn).map (t.variableAt tolerance)).map (·.name)
      = t.columns.toList.map (·.name) := by
    rw [List.map_map]
    refine List.ext_getElem (by simp [rhsColumn]) fun k hk _ => ?_
    have hk' : k < t.columns.size := by simpa [rhsColumn] using hk
    simp [variableAt, columnAt, hk']
  rw [((t.perm_all tolerance).map _).nodup_iff, hnames]
  exact h

/-- **Values of the classification.** Under the name of a column stands its value in the basic
    solution. -/
theorem value?_reading (h : t.NamesDistinct) (hk : k < t.rhsColumn) :
    (t.reading tolerance).value? (t.columnAt k).name = some (t.valueAt tolerance k) :=
  Classification.value?_of_mem (nodup_names_reading h tolerance) (mem_all_reading hk)

/-- **Values of a solution.** Under the name of a decision variable stands its value in the basic
    solution. -/
theorem get?_structural_reading (h : t.NamesDistinct) (hk : k < t.rhsColumn)
    (hkind : (t.columnAt k).kind = .structural) :
    (Assignment.ofList (t.reading tolerance).structural).get? (t.columnAt k).name
      = some (t.valueAt tolerance k) := by
  have hnames : ((t.reading tolerance).structural.map Prod.fst).Nodup := by
    rw [Classification.structural, List.map_map]
    exact (nodup_names_reading h tolerance).sublist (List.filter_sublist.map _)
  have hmem : ((t.columnAt k).name, t.valueAt tolerance k)
      ∈ (t.reading tolerance).structural :=
    List.mem_map.mpr ⟨t.variableAt tolerance k,
      List.mem_filter.mpr ⟨mem_all_reading hk, decide_eq_true hkind⟩, rfl⟩
  exact Assignment.get?_ofList_of_mem hnames hmem

end Tableau

end SimplexTableau

import SimplexTableau.Json.Format
import SimplexTableau.Proofs.Codecs

namespace SimplexTableau

open Json

/-!
# The data format reads back what it writes

A text has all that makes up its value, as long as the doubles of the value are numbers and its
counts fit into words.  Reading it gives the value again if the reader of numbers finds the doubles
again, one by one; nothing is assumed of it for any other double.

* `Column.Writable`, `Tableau.Writable`, … — the values that the format can hold;
* `Problem.numbers`, `Tableau.numbers`, … — the doubles of a value;
* `Column.keeps`, `Tableau.keeps`, … — their codecs read them back, if they do so with the doubles;
* `Solution.takes` — a solution is read back but for its failure, which is not written;
  `Solution.failure_of_decode`: no text has one;
* `format_roundTrip` — whole texts of every type, in both layouts.
-/

/-! ### Columns and tableaus -/

/-- The index of a column fits into a word. -/
@[mk_iff] structure Column.Writable (c : Column) : Prop where
  /-- The place among its kind. -/
  index : c.index < wordLimit

/-- The cells of a tableau are numbers, and its counts fit into words. -/
@[mk_iff] structure Tableau.Writable (t : Tableau Float) : Prop where
  /-- The cells. -/
  cells : ∀ row ∈ t.rows, ∀ x ∈ row, x.isFinite = true
  /-- The columns. -/
  columns : ∀ c ∈ t.columns, c.Writable
  /-- The number of decision variables. -/
  numStructural : t.numStructural < wordLimit
  /-- The number of slack variables. -/
  numSlack : t.numSlack < wordLimit

instance (c : Column) : Decidable c.Writable := decidable_of_iff' _ c.writable_iff

instance (t : Tableau Float) : Decidable t.Writable := decidable_of_iff' _ t.writable_iff

/-- The cells of a tableau. -/
def Tableau.numbers (t : Tableau Float) : List Float := t.rows.toList.flatMap Array.toList

theorem Tableau.Writable.isFinite_numbers {t : Tableau Float} (h : t.Writable) :
    ∀ x ∈ t.numbers, x.isFinite = true := by
  intro x hx
  obtain ⟨row, hrow, hx⟩ := List.mem_flatMap.mp hx
  exact h.cells row (Array.mem_toList_iff.mp hrow) x (Array.mem_toList_iff.mp hx)

section Reader

variable [NumberReader]

theorem ColumnKind.keeps (kind : ColumnKind) : ColumnKind.codec.Keeps kind := by
  cases kind
  all_goals exact Codec.keeps_choice (by decide)

theorem Column.keeps {c : Column} (h : c.Writable) : Column.codec.Keeps c := by
  -- the fields in their order, each with what it takes to read it back
  refine Schema.takes (by simp [Member.field]) ?_
  refine .field (takes_field (ColumnKind.keeps c.kind)) ?_
  refine .field (takes_field (Codec.keeps_natural h.index)) ?_
  refine .field (takes_field (Codec.keeps_string c.name)) ?_
  exact .done c

theorem Tableau.keeps {t : Tableau Float} (h : t.Writable) (hreads : ∀ x ∈ t.numbers, ReadsBack x) :
    Tableau.codec.Keeps t := by
  have hrow : ∀ row ∈ t.rows, Codec.float.array.Keeps row := by
    intro row hrow
    refine Codec.keeps_array fun x hx => Codec.keeps_float (hreads x ?_)
    exact List.mem_flatMap.mpr ⟨row, Array.mem_toList_iff.mpr hrow, Array.mem_toList_iff.mpr hx⟩
  have hcolumn : ∀ c ∈ t.columns, Column.codec.Keeps c := fun c hc => Column.keeps (h.columns c hc)
  refine Schema.takes (by simp [Member.field]) ?_
  refine .field (takes_field (Codec.keeps_array hrow)) ?_
  refine .field (takes_field (Codec.keeps_array hcolumn)) ?_
  refine .field (takes_field (Codec.keeps_natural h.numStructural)) ?_
  refine .field (takes_field (Codec.keeps_natural h.numSlack)) ?_
  exact .done t

end Reader

/-! ### Problems -/

/-- Every coefficient and bound of a problem is a number. -/
@[mk_iff] structure Problem.Writable (p : Problem Float) : Prop where
  /-- The coefficients of the objective. -/
  objective : ∀ x ∈ p.objective, x.isFinite = true
  /-- The coefficients of the constraints. -/
  constraints : ∀ row ∈ p.constraints, ∀ x ∈ row, x.isFinite = true
  /-- The bounds. -/
  rhs : ∀ x ∈ p.rhs, x.isFinite = true

instance (p : Problem Float) : Decidable p.Writable := decidable_of_iff' _ p.writable_iff

/-- The coefficients and bounds of a problem. -/
def Problem.numbers (p : Problem Float) : List Float :=
  p.objective ++ p.constraints.flatten ++ p.rhs

theorem Problem.Writable.isFinite_numbers {p : Problem Float} (h : p.Writable) :
    ∀ x ∈ p.numbers, x.isFinite = true := by
  rw [Problem.numbers, List.forall_mem_append, List.forall_mem_append]
  refine ⟨⟨h.objective, fun x hx => ?_⟩, h.rhs⟩
  obtain ⟨row, hrow, hx⟩ := List.mem_flatten.mp hx
  exact h.constraints row hrow x hx

section Reader

variable [NumberReader]

theorem keeps_floats {xs : List Float} (h : ∀ x ∈ xs, ReadsBack x) : Codec.float.list.Keeps xs :=
  Codec.keeps_list fun x hx => Codec.keeps_float (h x hx)

theorem Problem.keeps {p : Problem Float} (hreads : ∀ x ∈ p.numbers, ReadsBack x) :
    Problem.codec.Keeps p := by
  rw [numbers, List.forall_mem_append, List.forall_mem_append] at hreads
  obtain ⟨⟨hobjective, hconstraints⟩, hrhs⟩ := hreads
  have hrow : ∀ row ∈ p.constraints, Codec.float.list.Keeps row := by
    intro row hrow
    exact keeps_floats fun x hx => hconstraints x (List.mem_flatten.mpr ⟨row, hrow, hx⟩)
  refine Schema.takes (by simp [Member.field]) ?_
  refine .field (takes_field (keeps_floats hobjective)) ?_
  refine .field (takes_field (Codec.keeps_list hrow)) ?_
  refine .field (takes_field (keeps_floats hrhs)) ?_
  exact .done p

end Reader

/-! ### Records -/

/-- The value of a variable is a number, and its row fits into a word. -/
@[mk_iff] structure VariableValue.Writable (v : VariableValue Float) : Prop where
  /-- The value. -/
  value : v.value.isFinite = true
  /-- The row, if there is one. -/
  row : ∀ i ∈ v.row, i < wordLimit

/-- The variables of both groups can be written. -/
@[mk_iff] structure Classification.Writable (c : Classification Float) : Prop where
  /-- The basic variables. -/
  basic : ∀ v ∈ c.basic, v.Writable
  /-- The others. -/
  nonBasic : ∀ v ∈ c.nonBasic, v.Writable

/-- All that a record holds can be written. -/
@[mk_iff] structure Record.Writable (r : Record Float) : Prop where
  /-- The number of pivots. -/
  step : r.step < wordLimit
  /-- The tableau. -/
  tableau : r.tableau.Writable
  /-- The column that enters, if there is one. -/
  enteringColumn : ∀ j ∈ r.enteringColumn, j < wordLimit
  /-- The row that leaves, if there is one. -/
  leavingRow : ∀ i ∈ r.leavingRow, i < wordLimit
  /-- The pivot, if there is one. -/
  pivotElement : ∀ x ∈ r.pivotElement, x.isFinite = true
  /-- The basic solution. -/
  classification : r.classification.Writable
  /-- The value of the objective. -/
  z : r.z.isFinite = true

instance (v : VariableValue Float) : Decidable v.Writable := decidable_of_iff' _ v.writable_iff

instance (c : Classification Float) : Decidable c.Writable := decidable_of_iff' _ c.writable_iff

instance (r : Record Float) : Decidable r.Writable := decidable_of_iff' _ r.writable_iff

/-- The values of the variables. -/
def Classification.numbers (c : Classification Float) : List Float :=
  (c.basic ++ c.nonBasic).map (·.value)

/-- The cells, the pivot, the values of the variables and that of the objective. -/
def Record.numbers (r : Record Float) : List Float :=
  r.tableau.numbers ++ r.pivotElement.toList ++ r.classification.numbers ++ [r.z]

theorem Record.Writable.isFinite_numbers {r : Record Float} (h : r.Writable) :
    ∀ x ∈ r.numbers, x.isFinite = true := by
  simp only [Record.numbers, Classification.numbers, List.forall_mem_append, List.forall_mem_map,
    List.forall_mem_singleton, Option.mem_toList]
  exact ⟨⟨⟨h.tableau.isFinite_numbers, h.pivotElement⟩,
    fun v hv => (h.classification.basic v hv).value,
    fun v hv => (h.classification.nonBasic v hv).value⟩, h.z⟩

section Reader

variable [NumberReader]

/-- A natural number is there, so it is not written as `null`. -/
theorem keeps_present_natural {n? : Option Nat} (h : ∀ n ∈ n?, n < wordLimit) :
    ∀ n ∈ n?, Codec.natural.Keeps n ∧ (Codec.natural.write n).isNull = false :=
  fun n hn => ⟨Codec.keeps_natural (h n hn), rfl⟩

/-- A number is there, so it is not written as `null`. -/
theorem keeps_present_float {x? : Option Float} (h : ∀ x ∈ x?.toList, ReadsBack x) :
    ∀ x ∈ x?, Codec.float.Keeps x ∧ (Codec.float.write x).isNull = false := by
  intro x hx
  have hread := h x (Option.mem_toList.mpr hx)
  exact ⟨Codec.keeps_float hread, by simp [Codec.float, isNull, hread.isFinite]⟩

/-- A name is there, so it is not written as `null`. -/
theorem keeps_present_string (name? : Option String) :
    ∀ name ∈ name?, Codec.string.Keeps name ∧ (Codec.string.write name).isNull = false :=
  fun name _ => ⟨Codec.keeps_string name, rfl⟩

theorem VariableValue.keeps {v : VariableValue Float} (h : v.Writable)
    (hreads : ReadsBack v.value) : VariableValue.codec.Keeps v := by
  refine Schema.takes (by simp [Member.field, Member.optional]) ?_
  refine .field (takes_field (Codec.keeps_string v.name)) ?_
  refine .field (takes_field (ColumnKind.keeps v.kind)) ?_
  refine .field (takes_field (Codec.keeps_float hreads)) ?_
  refine .field (takes_optional (keeps_present_natural h.row)) ?_
  exact .done v

theorem Classification.keeps {c : Classification Float} (h : c.Writable)
    (hreads : ∀ x ∈ c.numbers, ReadsBack x) : Classification.codec.Keeps c := by
  rw [numbers, List.forall_mem_map, List.forall_mem_append] at hreads
  have hbasic : ∀ v ∈ c.basic, VariableValue.codec.Keeps v :=
    fun v hv => VariableValue.keeps (h.basic v hv) (hreads.1 v hv)
  have hnonBasic : ∀ v ∈ c.nonBasic, VariableValue.codec.Keeps v :=
    fun v hv => VariableValue.keeps (h.nonBasic v hv) (hreads.2 v hv)
  refine Schema.takes (by simp [Member.field]) ?_
  refine .field (takes_field (Codec.keeps_list hbasic)) ?_
  refine .field (takes_field (Codec.keeps_list hnonBasic)) ?_
  exact .done c

theorem State.keeps (state : State) : State.codec.Keeps state := by
  cases state
  all_goals exact Codec.keeps_choice (by decide)

theorem Record.keeps {r : Record Float} (h : r.Writable) (hreads : ∀ x ∈ r.numbers, ReadsBack x) :
    Record.codec.Keeps r := by
  simp only [numbers, List.forall_mem_append, List.forall_mem_singleton] at hreads
  obtain ⟨⟨⟨htableau, hpivot⟩, hclassification⟩, hz⟩ := hreads
  refine Schema.takes (by simp [Member.field, Member.optional]) ?_
  refine .field (takes_field (Codec.keeps_natural h.step)) ?_
  refine .field (takes_field (State.keeps r.state)) ?_
  refine .field (takes_field (Tableau.keeps h.tableau htableau)) ?_
  refine .field (takes_optional (keeps_present_natural h.enteringColumn)) ?_
  refine .field (takes_optional (keeps_present_string r.entering)) ?_
  refine .field (takes_optional (keeps_present_natural h.leavingRow)) ?_
  refine .field (takes_optional (keeps_present_string r.leaving)) ?_
  refine .field (takes_optional (keeps_present_float hpivot)) ?_
  refine .field (takes_field (Classification.keeps h.classification hclassification)) ?_
  refine .field (takes_field (Codec.keeps_float hz)) ?_
  exact .done r

theorem Trace.keeps {trace : List (Record Float)} (h : ∀ r ∈ trace, r.Writable)
    (hreads : ∀ r ∈ trace, ∀ x ∈ r.numbers, ReadsBack x) : Trace.codec.Keeps trace :=
  Codec.keeps_list fun r hr => Record.keeps (h r hr) (hreads r hr)

end Reader

/-! ### Solutions -/

/-- All that a solution holds, but for its failure, can be written. -/
@[mk_iff] structure Solution.Writable (s : Solution Float) : Prop where
  /-- The optimal value, if there is one. -/
  z : ∀ z ∈ s.z, z.isFinite = true
  /-- The values of the variables, if there are any. -/
  values : ∀ values ∈ s.values, ∀ e ∈ values.entries, e.2.isFinite = true
  /-- The number of pivots. -/
  iterations : s.iterations < wordLimit
  /-- The records. -/
  trace : ∀ r ∈ s.trace, r.Writable

instance (s : Solution Float) : Decidable s.Writable := decidable_of_iff' _ s.writable_iff

/-- The optimal value, the values of the variables, and the numbers of the records. -/
def Solution.numbers (s : Solution Float) : List Float :=
  s.z.toList ++ s.values.toList.flatMap (fun values => values.entries.map (·.2))
    ++ s.trace.flatMap Record.numbers

theorem Solution.Writable.isFinite_numbers {s : Solution Float} (h : s.Writable) :
    ∀ x ∈ s.numbers, x.isFinite = true := by
  simp only [Solution.numbers, List.forall_mem_append, List.forall_mem_flatMap, List.forall_mem_map,
    Option.mem_toList]
  exact ⟨⟨h.z, h.values⟩, fun r hr => (h.trace r hr).isFinite_numbers⟩

section Reader

variable [NumberReader]

theorem Status.keeps (status : Status) : Status.codec.Keeps status := by
  cases status
  all_goals exact Codec.keeps_choice (by decide)

/-- **A solution** is read back but for its failure, which is not written. -/
theorem Solution.takes {s : Solution Float} (h : s.Writable)
    (hreads : ∀ x ∈ s.numbers, ReadsBack x) :
    Takes Solution.codec.read (Solution.codec.write s) { s with failure := none } := by
  simp only [numbers, List.forall_mem_append, List.forall_mem_flatMap, List.forall_mem_map,
    Option.mem_toList] at hreads
  obtain ⟨⟨hz, hvalue⟩, htrace⟩ := hreads
  have hvalues : ∀ values ∈ s.values, Codec.float.assignment.Keeps values
      ∧ (Codec.float.assignment.write values).isNull = false :=
    fun values hv =>
      ⟨Codec.keeps_assignment fun e he => Codec.keeps_float (hvalue values hv e he), rfl⟩
  refine Schema.takes (by simp [Member.field, Member.optional]) ?_
  refine .field (takes_field (Status.keeps s.status)) ?_
  refine .field (takes_optional (keeps_present_float fun x hx => hz x (Option.mem_toList.mp hx))) ?_
  refine .field (takes_optional hvalues) ?_
  refine .field (takes_field (Codec.keeps_natural h.iterations)) ?_
  refine .field (takes_field (Trace.keeps h.trace htrace)) ?_
  exact .done { s with failure := none }

/-- **No text has a failure**: whatever is decoded as a solution carries none. -/
theorem Solution.failure_of_decode {text : String} {d : Solution Float}
    (h : Solution.codec.decode text = .ok d) : d.failure = none := by
  refine Schema.property_of_decode (P := fun s => s.failure = none) rfl ?_ h
  -- every field sets something else
  simp only [List.forall_mem_cons]
  exact ⟨Member.preserves_field fun _ _ hs => hs, Member.preserves_optional fun _ _ hs => hs,
    Member.preserves_optional fun _ _ hs => hs, Member.preserves_field fun _ _ hs => hs,
    Member.preserves_field fun _ _ hs => hs, nofun⟩

end Reader

/-! ### Whole texts -/

theorem blank_of_layout {layout : Layout} (h : layout = compact ∨ layout = pretty) :
    layout.Blank := by
  rcases h with rfl | rfl
  · exact blank_compact
  · exact blank_pretty

/-- **The data format reads back what it writes**: every type, whatever the names, the lengths of
    the lists and the parts that are absent, if the reader of numbers reads back the doubles of the
    value. -/
theorem format_roundTrip [NumberReader] {layout : Layout}
    (hlayout : layout = compact ∨ layout = pretty) :
    (∀ p : Problem Float, p.Writable → (∀ x ∈ p.numbers, ReadsBack x) →
        Problem.codec.decode (Problem.codec.encode layout p) = .ok p)
      ∧ (∀ t : Tableau Float, t.Writable → (∀ x ∈ t.numbers, ReadsBack x) →
        Tableau.codec.decode (Tableau.codec.encode layout t) = .ok t)
      ∧ (∀ c : Column, c.Writable →
        Column.codec.decode (Column.codec.encode layout c) = .ok c)
      ∧ (∀ v : VariableValue Float, v.Writable → ReadsBack v.value →
        VariableValue.codec.decode (VariableValue.codec.encode layout v) = .ok v)
      ∧ (∀ c : Classification Float, c.Writable → (∀ x ∈ c.numbers, ReadsBack x) →
        Classification.codec.decode (Classification.codec.encode layout c) = .ok c)
      ∧ (∀ r : Record Float, r.Writable → (∀ x ∈ r.numbers, ReadsBack x) →
        Record.codec.decode (Record.codec.encode layout r) = .ok r)
      ∧ (∀ trace : List (Record Float), (∀ r ∈ trace, r.Writable) →
        (∀ r ∈ trace, ∀ x ∈ r.numbers, ReadsBack x) →
        Trace.codec.decode (Trace.codec.encode layout trace) = .ok trace)
      ∧ ∀ s : Solution Float, s.Writable → (∀ x ∈ s.numbers, ReadsBack x) →
        Solution.codec.decode (Solution.codec.encode layout s)
          = .ok { s with failure := none } := by
  have hl := blank_of_layout hlayout
  refine ⟨fun p _ hreads => ?_, fun t ht hreads => ?_, fun c hc => ?_, fun v hv hread => ?_,
    fun c hc hreads => ?_, fun r hr hreads => ?_, fun trace htrace hreads => ?_,
    fun s hs hreads => ?_⟩
  · exact Codec.decode_encode hl (Problem.keeps hreads)
  · exact Codec.decode_encode hl (Tableau.keeps ht hreads)
  · exact Codec.decode_encode hl (Column.keeps hc)
  · exact Codec.decode_encode hl (VariableValue.keeps hv hread)
  · exact Codec.decode_encode hl (Classification.keeps hc hreads)
  · exact Codec.decode_encode hl (Record.keeps hr hreads)
  · exact Codec.decode_encode hl (Trace.keeps htrace hreads)
  · exact Codec.decode_encode hl (Solution.takes hs hreads)

/-- A solution with names that need escapes or are not ASCII, with a negative zero, and with some
    of its optional parts absent. -/
def oddlyNamed : Solution Float where
  status := .optimal
  z := some (-0.0)
  values := some (.ofList [("\"x\\1\"\n", 5e-324), ("µ😀\x01", -1e300)])
  iterations := 1
  trace := [{
    step := 0
    state := .pivoting
    tableau := {
      rows := #[#[-0.1, 0.0], #[]]
      columns := #[⟨.structural, 1, "\"x\\1\"\n"⟩]
      numStructural := 1
      numSlack := 0 }
    enteringColumn := some 0
    entering := some "\"x\\1\"\n"
    leavingRow := none
    leaving := none
    pivotElement := some 0.3
    classification := ⟨[⟨"µ😀\x01", .slack, 2.5, some 1⟩], [⟨"", .structural, 0.0, none⟩]⟩
    z := 1e22 }]
  failure := none

theorem format_roundTrip_oddlyNamed :
    oddlyNamed.Writable ∧ (∀ x ∈ oddlyNamed.numbers, ReadsBack x)
      ∧ Solution.codec.decode (Solution.codec.encode pretty oddlyNamed) = .ok oddlyNamed := by
  have hwritable : oddlyNamed.Writable := by decide +kernel
  have hreads : ∀ x ∈ oddlyNamed.numbers, ReadsBack x :=
    fun x hx => readsBack_nearest (hwritable.isFinite_numbers x hx)
  obtain ⟨-, -, -, -, -, -, -, hsolution⟩ := format_roundTrip (.inr rfl)
  exact ⟨hwritable, hreads, hsolution oddlyNamed hwritable hreads⟩

end SimplexTableau

namespace SimplexTableau

/-!
# Values by name

An assignment gives each of finitely many names one value.  Its entries are kept in the order of
the names, and this order is part of the type, so two assignments are equal exactly when they
have the same entries.

* `Assignment.insert` — gives a name a value, in place of the one it had;
* `Assignment.ofList` — the entries of a list in turn, so the last value of a name counts;
* `Assignment.get?` — the value of a name.
-/

namespace Assignment

variable {K : Type}

/-- `entries` with the value of `name` set; the entry keeps the order of the names. -/
def insertEntry (name : String) (value : K) : List (String × K) → List (String × K)
  | [] => [(name, value)]
  | (other, old) :: rest =>
    if name < other then (name, value) :: (other, old) :: rest
    else if name = other then (name, value) :: rest
    else (other, old) :: insertEntry name value rest

/-- The names of the entries increase strictly. -/
def Increasing (entries : List (String × K)) : Prop :=
  entries.Pairwise fun a b => a.1 < b.1

theorem mem_insertEntry {name : String} {value : K} {e : String × K}
    {entries : List (String × K)} (h : e ∈ insertEntry name value entries) :
    e = (name, value) ∨ e ∈ entries := by
  induction entries with
  | nil => simpa [insertEntry] using h
  | cons head rest ih =>
    simp only [insertEntry] at h
    split at h
    · simpa using h
    · split at h
      · rcases List.mem_cons.mp h with h | h
        · exact .inl h
        · exact .inr (List.mem_cons_of_mem _ h)
      · rcases List.mem_cons.mp h with h | h
        · exact .inr (h ▸ List.mem_cons_self)
        · exact (ih h).imp_right (List.mem_cons_of_mem _)

theorem Increasing.insertEntry {entries : List (String × K)} (h : Increasing entries)
    (name : String) (value : K) : Increasing (insertEntry name value entries) := by
  induction entries with
  | nil => simp [Assignment.insertEntry, Increasing]
  | cons head rest ih =>
    obtain ⟨first, later⟩ := List.pairwise_cons.mp h
    simp only [Assignment.insertEntry]
    split
    case isTrue lt =>
      refine List.pairwise_cons.mpr ⟨fun e he => ?_, h⟩
      rcases List.mem_cons.mp he with rfl | he
      · exact lt
      · exact String.lt_trans lt (first e he)
    case isFalse ge =>
      split
      case isTrue eq => exact List.pairwise_cons.mpr ⟨fun e he => eq ▸ first e he, later⟩
      case isFalse ne =>
        refine List.pairwise_cons.mpr ⟨fun e he => ?_, ih later⟩
        rcases mem_insertEntry he with rfl | he
        · refine Decidable.byContradiction fun nlt => ne ?_
          exact String.le_antisymm (String.not_lt.mp nlt) (String.not_lt.mp ge)
        · exact first e he

end Assignment

/-- Values by name, in the order of the names. -/
@[ext] structure Assignment (K : Type) where
  /-- Each name with its value. -/
  entries : List (String × K)
  /-- The names increase strictly. -/
  increasing : Assignment.Increasing entries

namespace Assignment

variable {K : Type}

/-- No names. -/
def empty : Assignment K := ⟨[], List.Pairwise.nil⟩

/-- Gives a name a value, in place of the one it had. -/
def insert (a : Assignment K) (name : String) (value : K) : Assignment K :=
  ⟨insertEntry name value a.entries, a.increasing.insertEntry name value⟩

/-- The entries of a list in turn: the last value of a name counts. -/
def ofList (entries : List (String × K)) : Assignment K :=
  entries.foldl (fun a (name, value) => a.insert name value) empty

/-- The value of a name. -/
def get? (a : Assignment K) (name : String) : Option K := a.entries.lookup name

@[simp] theorem entries_empty : (empty : Assignment K).entries = [] := rfl

@[simp] theorem entries_insert (a : Assignment K) (name : String) (value : K) :
    (a.insert name value).entries = insertEntry name value a.entries := rfl

@[simp] theorem ofList_nil : ofList ([] : List (String × K)) = empty := rfl

instance : Inhabited (Assignment K) := ⟨empty⟩

end Assignment

end SimplexTableau

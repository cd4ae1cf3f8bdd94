namespace Clausal

/-- A finite map that keeps its entries in the order in which their keys first came. -/
structure Table (κ α : Type) where
  entries : List (κ × α) := []
deriving DecidableEq, Repr

namespace Table

variable {κ α : Type} [DecidableEq κ]

/-- The value stored under a key. -/
def get? (table : Table κ α) (key : κ) : Option α :=
  (table.entries.find? fun entry => entry.1 = key).map Prod.snd

/-- The keys, in order. -/
def keys (table : Table κ α) : List κ :=
  table.entries.map Prod.fst

/-- Replaces the value of a key in its place, or adds the key at the end. -/
def insertEntry (key : κ) (value : α) : List (κ × α) → List (κ × α)
  | [] => [(key, value)]
  | entry :: entries =>
    if entry.1 = key then (key, value) :: entries
    else entry :: insertEntry key value entries

/-- The map that sends a key to a value and every other key to what it had. -/
def insert (table : Table κ α) (key : κ) (value : α) : Table κ α :=
  ⟨insertEntry key value table.entries⟩

/-- Inserts a list of entries from left to right. -/
def ofList (entries : List (κ × α)) : Table κ α :=
  entries.foldl (fun table entry => table.insert entry.1 entry.2) ⟨[]⟩

@[simp]
theorem get?_empty (key : κ) : (⟨[]⟩ : Table κ α).get? key = none := rfl

@[simp]
theorem get?_insert (table : Table κ α) (key other : κ) (value : α) :
    (table.insert key value).get? other = if other = key then some value else table.get? other := by
  obtain ⟨entries⟩ := table
  simp only [get?, insert]
  induction entries with
  | nil => by_cases same : other = key <;> simp [insertEntry, same, eq_comm]
  | cons entry entries ih =>
    obtain ⟨first, old⟩ := entry
    by_cases atFirst : first = key
    · subst atFirst
      by_cases same : other = first <;> simp [insertEntry, same, eq_comm]
    · by_cases atOther : first = other
      · subst atOther
        simp [insertEntry, atFirst]
      · simp [insertEntry, atFirst, atOther, ih]

theorem mem_keys_insert (table : Table κ α) (key other : κ) (value : α) :
    other ∈ (table.insert key value).keys ↔ other = key ∨ other ∈ table.keys := by
  obtain ⟨entries⟩ := table
  induction entries with
  | nil => simp [insert, keys, insertEntry]
  | cons entry entries ih =>
    by_cases atFirst : entry.1 = key
    · simp [insert, keys, insertEntry, atFirst]
    · simp only [insert, keys, insertEntry, atFirst, if_false, List.map_cons, List.mem_cons] at ih ⊢
      rw [ih]
      exact or_left_comm

end Table

end Clausal

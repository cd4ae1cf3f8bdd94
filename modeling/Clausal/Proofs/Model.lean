import Clausal.Model

namespace Clausal

namespace Table

variable {κ α : Type} [DecidableEq κ]

theorem mem_keys_iff (table : Table κ α) (key : κ) :
    key ∈ table.keys ↔ ∃ value, table.get? key = some value := by
  simp only [keys, get?, List.mem_map, Option.map_eq_some_iff]
  constructor
  · intro key
    obtain ⟨entry, member, rfl⟩ := key
    have found : (table.entries.find? fun other => decide (other.1 = entry.1)).isSome :=
      List.find?_isSome.mpr ⟨entry, member, by simp⟩
    obtain ⟨hit, atHit⟩ := Option.isSome_iff_exists.mp found
    exact ⟨hit.2, hit, atHit, rfl⟩
  · intro found
    obtain ⟨_, hit, atHit, _⟩ := found
    exact ⟨hit, List.mem_of_find?_eq_some atHit, by simpa using List.find?_some atHit⟩

theorem nodup_keys_insert {table : Table κ α} (distinct : table.keys.Nodup) (key : κ) (value : α) :
    (table.insert key value).keys.Nodup := by
  obtain ⟨entries⟩ := table
  induction entries with
  | nil => simp [insert, insertEntry, keys]
  | cons entry entries ih =>
    simp only [keys, List.map_cons, List.nodup_cons] at distinct ih
    by_cases atFirst : entry.1 = key
    · simp only [insert, insertEntry, keys, atFirst, if_true, List.map_cons, List.nodup_cons]
      exact atFirst ▸ distinct
    · simp only [insert, insertEntry, keys, atFirst, if_false, List.map_cons, List.nodup_cons]
      refine ⟨fun member => ?_, ih distinct.2⟩
      rcases (mem_keys_insert ⟨entries⟩ key entry.1 value).mp member with same | old
      · exact atFirst same
      · exact distinct.1 old

end Table

namespace Model

/-- The model is a dictionary with exactly the given names as its keys. -/
structure Assigns (model : Model) (names : List String) : Prop where
  nodup : model.keys.Nodup
  mem_keys : ∀ name, name ∈ model.keys ↔ name ∈ names

def Extends (larger smaller : Model) : Prop :=
  ∀ name b, smaller.get? name = some b → larger.get? name = some b

/-- The models give the same values to the same names, in whatever order. -/
def Same (m n : Model) : Prop :=
  ∀ name, m.get? name = n.get? name

def restrict (model : Model) (names : List String) : Model :=
  ⟨model.entries.filter fun entry => entry.1 ∈ names⟩

def ofNames (names : List String) (v : String → Bool) : Model :=
  names.foldr (fun name model => model.insert name (v name)) ⟨[]⟩

/-- The values of a model, and false for every name that it says nothing about. -/
def total (model : Model) (name : String) : Bool :=
  (model.get? name).getD false

theorem value_of_mem {model : Model} {name : String} (covered : name ∈ model.keys) :
    model.value name = .ok (model.total name) := by
  obtain ⟨b, found⟩ := (model.mem_keys_iff name).mp covered
  simp only [value, total, found, Option.getD_some]

theorem get?_of_mem {model : Model} {name : String} (covered : name ∈ model.keys) :
    model.get? name = some (model.total name) := by
  obtain ⟨b, found⟩ := (model.mem_keys_iff name).mp covered
  simp only [total, found, Option.getD_some]

theorem get?_of_not_mem {model : Model} {name : String} (missing : name ∉ model.keys) :
    model.get? name = none := by
  cases found : model.get? name with
  | none => rfl
  | some b => exact absurd ((model.mem_keys_iff name).mpr ⟨b, found⟩) missing

theorem Extends.total_eq {larger smaller : Model} (extended : larger.Extends smaller) {name : String}
    (covered : name ∈ smaller.keys) : larger.total name = smaller.total name := by
  have kept := extended name _ (get?_of_mem covered)
  rw [total, kept, Option.getD_some]

theorem get?_ofNames (names : List String) (v : String → Bool) (name : String) :
    (ofNames names v).get? name = if name ∈ names then some (v name) else none := by
  induction names with
  | nil => simp [ofNames]
  | cons first names ih =>
    rw [ofNames, List.foldr_cons, Table.get?_insert]
    by_cases same : name = first
    · subst same
      simp
    · rw [if_neg same]
      simpa [ofNames, same] using ih

theorem assigns_ofNames (names : List String) (v : String → Bool) :
    (ofNames names v).Assigns names := by
  constructor
  · induction names with
    | nil => simp [ofNames, Table.keys]
    | cons first names ih => exact Table.nodup_keys_insert ih first (v first)
  · intro name
    rw [Table.mem_keys_iff, get?_ofNames]
    by_cases member : name ∈ names <;> simp [member]

theorem total_ofNames {names : List String} {v : String → Bool} {name : String}
    (member : name ∈ names) : (ofNames names v).total name = v name := by
  rw [total, get?_ofNames, if_pos member, Option.getD_some]

theorem get?_restrict (model : Model) (names : List String) (name : String) :
    (model.restrict names).get? name = if name ∈ names then model.get? name else none := by
  simp only [restrict, Table.get?, List.find?_filter]
  split
  · rename_i member
    congr 2
    funext entry
    by_cases same : entry.1 = name
    · simp [same, member]
    · simp [same]
  · rename_i missing
    rw [Option.map_eq_none_iff, List.find?_eq_none]
    intro entry _
    by_cases same : entry.1 = name
    · simp [same, missing]
    · simp [same]

theorem Assigns.restrict {model : Model} {all names : List String} (given : model.Assigns all)
    (included : ∀ name ∈ names, name ∈ all) : (model.restrict names).Assigns names := by
  constructor
  · exact given.nodup.sublist (List.filter_sublist.map _)
  · intro name
    rw [Table.mem_keys_iff, get?_restrict]
    by_cases member : name ∈ names
    · simpa [member, ← Table.mem_keys_iff] using (given.mem_keys name).mpr (included name member)
    · simp [member]

/-- A model over given names is extended by another exactly if it is the restriction of the other
to these names. -/
theorem Assigns.extends_iff {smaller : Model} {names : List String}
    (given : smaller.Assigns names) (larger : Model) :
    larger.Extends smaller ↔ smaller.Same (larger.restrict names) := by
  constructor
  · intro extended name
    rw [get?_restrict]
    split
    · rename_i member
      have covered := (given.mem_keys name).mpr member
      rw [get?_of_mem covered, extended name _ (get?_of_mem covered)]
    · rename_i missing
      exact get?_of_not_mem fun covered => missing ((given.mem_keys name).mp covered)
  · intro same name b found
    have member := (given.mem_keys name).mp ((smaller.mem_keys_iff name).mpr ⟨b, found⟩)
    rw [same name, get?_restrict, if_pos member] at found
    exact found

end Model

end Clausal

namespace Clausal.Text

/-- Drops every entry that equals the one after it. -/
def squeeze : List String → List String
  | [] => []
  | [name] => [name]
  | name :: next :: names =>
    if name = next then squeeze (next :: names) else name :: squeeze (next :: names)

/-- The distinct names of a list in the order of their code points. -/
def sortedNames (names : List String) : List String :=
  squeeze (names.mergeSort fun s t => decide (s ≤ t))

theorem mem_squeeze (name : String) (names : List String) :
    name ∈ squeeze names ↔ name ∈ names := by
  fun_induction squeeze names with
  | case1 => rfl
  | case2 => rfl
  | case3 next names ih => simp [ih]
  | case4 first next names differs ih => simp [ih]

@[simp]
theorem mem_sortedNames (name : String) (names : List String) :
    name ∈ sortedNames names ↔ name ∈ names := by
  rw [sortedNames, mem_squeeze, List.mem_mergeSort]

end Clausal.Text

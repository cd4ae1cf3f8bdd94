import Clausal.Proofs.Encoding.Completion

namespace Clausal

/-- The names that a conversion drew from its source. -/
def Conversion.drawnNames (ambient : String) (conversion : Conversion) : List String :=
  (conversion.before.drawMany ambient conversion.drawn).1

namespace Formula

open NameSource (numbered Issued)

section

variable (f : Formula) (source : NameSource) (ambient : String)

theorem mem_names_conversion (name : String) :
    name ∈ (f.conversion source ambient).theory.names ↔
      name ∈ f.names ∨ Issued (source.stem ambient) source.count f.composites.length name := by
  have gate := mem_names_definitions (source.stem ambient) [f] source.count name
  rw [Theory.mem_names_iff, definitions, gatesAll, gatesAll, List.append_nil] at gate
  rw [mem_names_iff, ← (mem_gate_names_iff (source.stem ambient)).1 f source.count name, ← gate,
    Theory.mem_names_iff, conversion]
  simp only [List.mem_cons, exists_eq_or_imp]
  refine or_congr_left ?_
  simp [Clause.declaring, Literal.pos, eq_comm]

theorem tail_conversion : (⟨(f.conversion source ambient).theory.clauses.tail⟩ : Theory) =
    definitions (source.stem ambient) [f] source.count := by
  rw [conversion, List.tail_cons, definitions, gatesAll, gatesAll, List.append_nil]

theorem vocabulary_conversion
    (fresh : ∀ n, source.count < n → n ≤ source.count + f.composites.length →
      numbered (source.stem ambient) n ∉ f.names) :
    Vocabulary (source.stem ambient) source.count [f] f.names
      (f.conversion source ambient).theory.names := by
  have leavesOnly : [f].flatMap leaves = f.leaves := by simp
  have compositesOnly : [f].flatMap composites = f.composites := by simp
  constructor
  · intro name
    rw [leavesOnly, mem_names_iff]
  · intro name
    rw [leavesOnly, compositesOnly, mem_names_conversion, mem_names_iff]
  · rw [leavesOnly, compositesOnly]
    intro name leaf issued
    obtain ⟨n, above, below, rfl⟩ := issued
    exact fresh n above below ((mem_names_iff f _).mpr leaf)

theorem truth_conversion (v : String → Bool) : (f.conversion source ambient).theory.truth v = true ↔
    (∀ name ∈ labels (source.stem ambient) [f] source.count, v name = true) ∧
      (definitions (source.stem ambient) [f] source.count).truth v = true := by
  rw [← tail_conversion, labels, labels, List.forall_mem_singleton, Theory.truth, Theory.truth, conversion,
    List.all_cons, Bool.and_eq_true]
  simp [Clause.declaring, Clause.truth]

theorem drawn_conversion : (f.conversion source ambient).drawn = f.composites.length :=
  Nat.add_sub_cancel_left source.count f.composites.length

theorem mem_drawn_conversion (name : String) :
    name ∈ (source.drawMany ambient (f.conversion source ambient).drawn).1 ↔
      Issued (source.stem ambient) source.count f.composites.length name := by
  rw [NameSource.mem_drawMany_iff, drawn_conversion]

theorem eq_conversion {check : Bool} {conversion : Conversion}
    (done : f.convert source ambient check = .ok conversion) : conversion = f.conversion source ambient := by
  by_cases accepted : check = true → f.clashes source ambient = []
  · rw [convert_eq_ok accepted] at done
    exact (Except.ok.inj done).symm
  · obtain ⟨rfl, clashing⟩ := Classical.not_imp.mp accepted
    rw [convert_eq_error clashing] at done
    cases done

end

/-- Conversion is right model by model. If none of the names drawn is a variable of the formula,
every model of the variables has exactly one completion that satisfies the definitions; it gives the
names drawn the values of the composite occurrences in preorder, and the declared name and the
theory the value of the formula. So the models of the theory, restricted to the variables, are
exactly the models of the formula. -/
theorem convert_existsUnique_completion (f : Formula) (source : NameSource) (ambient : String) (check : Bool)
    (accepted : check = true → f.clashes source ambient = [])
    (fresh : ∀ n, source.count < n → n ≤ source.count + f.composites.length →
      numbered (source.stem ambient) n ∉ f.names) :
    ∃ conversion, f.convert source ambient check = .ok conversion ∧
      (∀ m : Model, m.Assigns f.names → ∃ M : Model,
        M.Completes ⟨conversion.theory.clauses.tail⟩ conversion.theory.names m ∧
        (∀ other : Model, other.Completes ⟨conversion.theory.clauses.tail⟩ conversion.theory.names m →
          other.Same M) ∧
        (∀ i g, f.composites[i]? = some g → ∃ b, g.evaluateShared m = .ok b ∧
          M.get? (numbered (source.stem ambient) (source.count + i + 1)) = some b) ∧
        ∃ name b, conversion.theory.clauses.head? = some (.declaring name) ∧
          f.evaluateShared m = .ok b ∧ M.get? name = some b ∧ conversion.theory.evaluate M = .ok b) ∧
      (∀ M : Model, M.Assigns conversion.theory.names → (M.restrict f.names).Assigns f.names) ∧
      ∀ m : Model, m.Assigns f.names → (f.evaluateShared m = .ok true ↔
        ∃ M : Model, M.Assigns conversion.theory.names ∧ conversion.theory.evaluate M = .ok true ∧
          m.Same (M.restrict f.names)) := by
  have vocabulary := vocabulary_conversion f source ambient fresh
  refine ⟨f.conversion source ambient, convert_eq_ok accepted, ?_, ?_, ?_⟩
  · intro m given
    obtain ⟨M, completes⟩ := vocabulary.exists_completion given
    have label : M.get? (f.label (source.stem ambient) source.count) = some (f.truth m.total) :=
      vocabulary.get?_label given completes (List.getElem?_cons_zero) (List.getElem?_cons_zero)
    have value := vocabulary.evaluate_completion (truth_conversion f source ambient) given completes
    rw [List.all_cons, List.all_nil, Bool.and_true] at value
    rw [tail_conversion]
    refine ⟨M, completes, fun other => vocabulary.completion_unique given completes, ?_, ?_⟩
    · intro i g atIndex
      have atIndex' : ([f].flatMap composites)[i]? = some g := by simpa using atIndex
      exact ⟨g.truth m.total, vocabulary.evaluate_composite given (List.mem_of_getElem? atIndex'),
        vocabulary.get?_numbered given completes atIndex'⟩
    · exact ⟨f.label (source.stem ambient) source.count, f.truth m.total, rfl,
        vocabulary.evaluate_formula given List.mem_cons_self, label, value⟩
  · intro M assigns
    exact assigns.restrict vocabulary.inputs_subset
  · intro m given
    have satisfied := vocabulary.all_satisfied_iff_extension (truth_conversion f source ambient) given
    rw [List.forall_mem_singleton] at satisfied
    rw [satisfied]
    refine exists_congr fun M => and_congr_right fun assigns => ?_
    rw [and_comm, given.extends_iff]

/-- A variable that looks like a name drawn later does no harm, also where a subformula repeats. -/
theorem convert_existsUnique_completion_of_later_name :
    let f := iff (var "_x7") (conj [neg (var "q"), neg (var "q"), disj []])
    let m : Model := ⟨[("q", true), ("_x7", false)]⟩
    (∀ n, 0 < n → n ≤ 5 → numbered "_x" n ∉ f.names) ∧ m.Assigns f.names ∧
      ∃ conversion, f.convert {} "_x" false = .ok conversion ∧ ∃ M : Model,
        M.Completes ⟨conversion.theory.clauses.tail⟩ conversion.theory.names m ∧
        M.get? "_x1" = some true ∧ M.get? "_x2" = some false ∧ conversion.theory.evaluate M = .ok true := by
  intro f m
  have unused : ∀ n ∈ List.range 6, 0 < n → numbered "_x" n ∉ f.leaves := by decide +kernel
  have fresh : ∀ n, 0 < n → n ≤ 5 → numbered "_x" n ∉ f.names := by
    intro n positive bound
    rw [mem_names_iff]
    exact unused n (List.mem_range.mpr (by omega)) positive
  have given : m.Assigns f.names := by
    refine ⟨by decide, fun name => ?_⟩
    have leaves : f.leaves = ["_x7", "q", "q"] := rfl
    have keys : m.keys = ["q", "_x7"] := rfl
    rw [mem_names_iff, leaves, keys]
    simp [or_comm]
  obtain ⟨conversion, done, completions, _⟩ := convert_existsUnique_completion f {} "_x" false (by simp) fresh
  obtain ⟨M, completes, _, tracked, name, b, _, value, _, whole⟩ := completions m given
  have top : f.evaluateShared m = .ok true := by
    rw [evaluateShared_eq_evaluate]
    rfl
  have side : (conj [neg (var "q"), neg (var "q"), disj []]).evaluateShared m = .ok false := by
    rw [evaluateShared_eq_evaluate]
    rfl
  obtain ⟨b₁, value₁, at₁⟩ := tracked 0 f rfl
  obtain ⟨b₂, value₂, at₂⟩ := tracked 1 _ rfl
  rw [top, Except.ok.injEq] at value value₁
  rw [side, Except.ok.injEq] at value₂
  subst value value₁ value₂
  exact ⟨fresh, given, conversion, done, M, completes, at₁, at₂, whole⟩

end Formula

end Clausal
